import ImportScan.Pattern.Basic

/-!
# The search agrees with the list of all ways

`firstEnd_eq`: the first end that a continuation accepts is the first one in `ends` that it accepts.
So every question about a match is a question about `ends`.
-/

namespace ImportScan.Pattern

/-! ## First hits in lists -/

theorem findSome?_some_eq_head? {α : Type} (l : List α) : l.findSome? some = l.head? := by
  cases l <;> rfl

theorem findSome?_flatMap {α β γ : Type} (f : α → List β) (g : β → Option γ) (l : List α) :
    (l.flatMap f).findSome? g = l.findSome? fun a => (f a).findSome? g := by
  induction l with
  | nil => rfl
  | cons a l ih =>
    rw [List.flatMap_cons, List.findSome?_append, ih, List.findSome?_cons]
    cases (f a).findSome? g <;> rfl

/-! ## Runs -/

theorem farthest_spec (p : Char → Bool) (most : Option Nat) (n : Nat) (c : Cursor) :
    ∃ k, c.farthest p most n = (n + k, c.skip k) ∧ k ≤ c.after.length := by
  fun_induction Cursor.farthest p most n c with
  | case1 n c h => exact ⟨0, by simp⟩
  | case2 n c x rest h _ ih =>
    obtain ⟨k, hk, hl⟩ := ih
    refine ⟨k + 1, ?_, ?_⟩
    · rw [hk]
      simp only [Cursor.skip, Prod.mk.injEq, and_true]
      omega
    · have h1 := (Cursor.after_next_cons h).1
      simp only [h1] at hl
      simp only [h, List.length_cons]
      omega
  | case3 n c x rest h _ => exact ⟨0, by simp⟩

theorem backFrom_eq {β : Type} (k : Cursor → Option β) (least extra : Nat) (c : Cursor)
    (h : least + extra ≤ c.after.length) :
    backFrom k extra (c.skip (least + extra)) =
      ((List.range' least (extra + 1)).reverse.map fun n => c.skip n).findSome? k := by
  induction extra with
  | zero => simp [backFrom, List.range']
  | succ extra ih =>
    rw [backFrom, List.range'_concat, List.reverse_append]
    have : (c.skip (least + (extra + 1))).back = c.skip (least + extra) :=
      Cursor.back_skip_succ (n := least + extra) (by omega)
    rw [this, ih (by omega)]
    simp only [Nat.one_mul, List.reverse_cons, List.reverse_nil, List.nil_append,
      List.cons_append, List.map_cons, List.findSome?_cons]
    cases k (c.skip (least + (extra + 1))) <;> rfl

theorem onFrom_eq {β : Type} (k : Cursor → Option β) (least extra : Nat) (c : Cursor) :
    onFrom k extra (c.skip least) =
      ((List.range' least (extra + 1)).map fun n => c.skip n).findSome? k := by
  induction extra generalizing least with
  | zero => simp [onFrom, List.range']
  | succ extra ih =>
    rw [onFrom, ← Cursor.skip_succ, ih, List.range'_succ (n := extra + 1)]
    simp only [List.map_cons, List.findSome?_cons]
    cases k (c.skip least) <;> rfl

/-! ## Repetitions -/

theorem firstEndOfMany_eq {ι : Type} {find : Point ι → (Point ι → Option (Point ι)) →
      Option (Point ι)} {body : Point ι → List (Point ι)}
    (h : ∀ s k, find s k = (body s).findSome? k) (greedy : Bool) (least : Nat) (most : Option Nat)
    (k : Point ι → Option (Point ι)) (rounds count : Nat) (last : Option Nat) (s : Point ι) :
    firstEndOfMany find greedy least most k rounds count last s =
      (endsOfMany body greedy least most rounds count last s).findSome? k := by
  induction rounds generalizing count last s with
  | zero => rfl
  | succ rounds ih =>
    have e : ∀ count last, firstEndOfMany find greedy least most k rounds count last =
        fun s => (endsOfMany body greedy least most rounds count last s).findSome? k :=
      fun count last => funext fun s => ih count last s
    rw [firstEndOfMany, endsOfMany]
    simp only [h, e]
    split
    · rw [findSome?_flatMap]
    · split
      · cases greedy
        · simp only [Bool.false_eq_true, if_false, List.findSome?_cons, findSome?_flatMap]
          cases k s <;> rfl
        · simp only [if_true, List.findSome?_append, findSome?_flatMap, List.findSome?_cons,
            List.findSome?_nil]
          cases List.findSome? _ (body s) <;> cases k s <;> rfl
      · simp only [List.findSome?_cons, List.findSome?_nil]
        cases k s <;> rfl

/-! ## All patterns -/

variable {ι : Type} [DecidableEq ι]

/-- The search finds the first of all ways that the continuation accepts. -/
theorem firstEnd_eq (p : Pattern ι) (s : Point ι) (k : Point ι → Option (Point ι)) :
    p.firstEnd s k = (p.ends s).findSome? k := by
  induction p generalizing s k with
  | empty =>
    simp only [firstEnd, ends, List.findSome?_cons, List.findSome?_nil]
    cases k s <;> rfl
  | one p =>
    simp only [firstEnd, ends]
    split
    · rfl
    · split
      · simp only [List.findSome?_cons, List.findSome?_nil]
        cases k _ <;> rfl
      · rfl
  | run greedy p least most =>
    obtain ⟨n, hn, hl⟩ := farthest_spec p most 0 s.cursor
    simp only [firstEnd, ends, hn, Nat.zero_add, endsOfRun, List.map_map, List.findSome?_map]
    split
    · rename_i h
      have : n + 1 - least = 0 := by omega
      cases greedy <;> simp [this]
    · rename_i h
      obtain ⟨d, rfl⟩ : ∃ d, n = least + d := ⟨n - least, by omega⟩
      have e1 : least + d - least = d := by omega
      have e2 : least + d + 1 - least = d + 1 := by omega
      rw [e1, e2]
      cases greedy
      · simp only [Bool.false_eq_true, if_false]
        rw [onFrom_eq, List.findSome?_map]
        rfl
      · simp only [if_true]
        rw [backFrom_eq _ _ _ _ hl, List.findSome?_map]
        rfl
  | here test =>
    simp only [firstEnd, ends]
    split
    · simp only [List.findSome?_cons, List.findSome?_nil]
      cases k s <;> rfl
    · rfl
  | seq p q ihp ihq =>
    simp only [firstEnd, ends, ihp, ihq, findSome?_flatMap]
  | alt p q ihp ihq =>
    simp only [firstEnd, ends, ihp, ihq, List.findSome?_append]
    cases List.findSome? k (p.ends s) <;> rfl
  | many greedy p least most ih =>
    simp only [firstEnd, ends]
    exact firstEndOfMany_eq ih _ _ _ _ _ _ _ _
  | part i p ih =>
    simp only [firstEnd, ends, ih, List.findSome?_map]
    rfl
  | again i same =>
    simp only [firstEnd, ends]
    split
    · rfl
    · split
      · simp_all
      · rename_i h
        simp only [h, Option.map_some, Option.toList_some, List.findSome?_cons,
          List.findSome?_nil]
        cases k _ <;> rfl
  | ahead wanted p ih =>
    simp only [firstEnd, ends, ih, findSome?_some_eq_head?]
    split <;> cases wanted <;> simp [List.findSome?_cons] <;> cases k _ <;> rfl
  | behind wanted width p ih =>
    simp only [firstEnd, ends, ih, findSome?_some_eq_head?]
    split <;> cases wanted <;> simp [List.findSome?_cons] <;> cases k _ <;> rfl
  | once p ih =>
    simp only [firstEnd, ends, ih, findSome?_some_eq_head?]
    cases (p.ends s).head? with
    | none => rfl
    | some e =>
      simp only [Option.toList_some, List.findSome?_cons, List.findSome?_nil]
      cases k e <;> rfl
  | given i p q ihp ihq =>
    simp only [firstEnd, ends, ihp, ihq]
    split <;> rfl

end ImportScan.Pattern
