import ImportScan.Proofs.Pattern.Preferred

/-!
# Replacing matches piece by piece

Replacing goes on from place to place as the search for matches does (`walks_replacedFrom`): a
stretch in which no match starts stays, and one that the pattern takes first is replaced. So
replacing turns a text into another piece by piece (`Turns.append`).
-/

namespace ImportScan.Pattern

variable {ι : Type} [DecidableEq ι] {p : Pattern ι} {r a t t' u u' b : Text}

/-! ## Stretches of text -/

theorem replacedFrom_end {taken : Nat} {c : Cursor} (h : c.after = []) :
    p.replacedFrom r taken c = [] := by
  rw [replacedFrom.eq_def]
  split
  · rfl
  · rename_i h'
    simp [h] at h'

theorem walks_replacedFrom (p : Pattern ι) (r : Text) :
    p.Walks (p.replacedFrom r) (fun x => [x]) (fun _ => r) where
  of_taken h := by
    rw [replacedFrom.eq_def]
    split
    · rename_i h'
      simp [h] at h'
    · rfl
  of_none h hm := by
    rw [replacedFrom.eq_def]
    split
    · rename_i h'
      simp [h] at h'
    · rename_i y rest' h'
      obtain ⟨rfl, -⟩ := List.cons.inj (h.symm.trans h')
      simp only [hm]
      rfl
  of_some h hm := by
    rw [replacedFrom.eq_def]
    split
    · rename_i h'
      simp [h] at h'
    · simp only [hm]

/-- Where no match starts, nothing is replaced. -/
theorem replacedFrom_skip (h : p.NoneIn a t b) :
    p.replacedFrom r 0 (.between a (t ++ b)) = t ++ p.replacedFrom r 0 (.between (a ++ t) b) := by
  have hskip := (p.walks_replacedFrom r).skip h
  rwa [List.flatMap_singleton'] at hskip

/-- What the pattern takes first is replaced. -/
theorem replacedFrom_match (ht : t ≠ []) (hp : p.TakesFirst t b) :
    p.replacedFrom r 0 (.between a (t ++ b)) = r ++ p.replacedFrom r 0 (.between (a ++ t) b) := by
  have hs : (Cursor.between a (t ++ b)).after = t ++ b := Cursor.after_between a _
  obtain ⟨m, hm, htext, -⟩ := exists_match_of_prefers (hp ⟨_, []⟩ hs) (Point.after_skip_of_eq hs)
  have hlength : m.length = t.length := (after_eq_of_matchAt? hm).2.trans (congrArg _ htext)
  exact (p.walks_replacedFrom r).over_match ht hm hlength

/-! ## Texts piece by piece -/

/-- In front of `b`, replacing turns `t` into `t'`. -/
def Turns (p : Pattern ι) (r t t' b : Text) : Prop :=
  ∀ a, p.replacedFrom r 0 (.between a (t ++ b)) = t' ++ p.replacedFrom r 0 (.between (a ++ t) b)

theorem turns_self (h : ∀ a, p.NoneIn a t b) : p.Turns r t t b := fun a => replacedFrom_skip (h a)

theorem turns_match (ht : t ≠ []) (hp : p.TakesFirst t b) : p.Turns r t r b :=
  fun _ => replacedFrom_match ht hp

theorem turns_nil (p : Pattern ι) (r b : Text) : p.Turns r [] [] b := by
  intro a
  rw [List.append_nil]
  rfl

theorem Turns.append (ht : p.Turns r t t' (u ++ b)) (hu : p.Turns r u u' b) :
    p.Turns r (t ++ u) (t' ++ u') b := by
  intro a
  rw [List.append_assoc, ht, hu, List.append_assoc, List.append_assoc]

theorem replaceIn_of_turns (h : p.Turns r t t' []) : p.replaceIn r t = t' := by
  have ht := h []
  rw [List.append_nil, List.nil_append, replacedFrom_end (Cursor.after_between t []),
    List.append_nil] at ht
  exact ht

end ImportScan.Pattern
