/-!
# Tables

A table holds at most one value under a key. Main statements: what is put under a key is found under
it and nothing else changes (`get?_put`), and what is removed is gone and nothing else
(`get?_remove`).
-/

namespace ImportScan

/-- Values under keys. -/
structure Table (κ α : Type) where
  entries : List (κ × α) := []

namespace Table

variable {κ α : Type} [DecidableEq κ]

/-- The value under a key. -/
def get? (t : Table κ α) (k : κ) : Option α := t.entries.lookup k

/-- The table without the entries whose keys satisfy `p`. -/
def remove (p : κ → Bool) (t : Table κ α) : Table κ α := ⟨t.entries.filter fun e => !p e.1⟩

/-- The table with a value under a key, in the place of the one before. -/
def put (k : κ) (v : α) (t : Table κ α) : Table κ α := ⟨(k, v) :: (t.remove (· == k)).entries⟩

theorem get?_remove (p : κ → Bool) (t : Table κ α) (k : κ) :
    (t.remove p).get? k = if p k then none else t.get? k := by
  obtain ⟨entries⟩ := t
  simp only [get?, remove]
  induction entries with
  | nil => simp
  | cons e rest ih =>
    obtain ⟨k', v⟩ := e
    simp only [List.filter_cons]
    by_cases hk : k = k'
    · subst hk
      cases hp : p k
      · simp
      · simpa [hp] using ih
    · have hb : (k == k') = false := beq_eq_false_iff_ne.2 hk
      cases hp : p k' <;> simp [List.lookup_cons, hb, ih]

theorem get?_put (k k' : κ) (v : α) (t : Table κ α) :
    (t.put k v).get? k' = if k' = k then some v else t.get? k' := by
  have := get?_remove (· == k) t k'
  unfold get? put at *
  by_cases hk : k' = k
  · simp [hk]
  · simpa [List.lookup_cons, beq_eq_false_iff_ne.2 hk, hk] using this

end Table
end ImportScan
