import ImportScan.Pattern.Cursor

/-!
# Places between texts

A place is told by the texts on its two sides (`Cursor.between`), and moving over a text carries it
from the one side to the other (`skip_between`). `Cursor.behind front` is the same place once
`front` is put in front of the whole text; moving forward does not notice the difference.
-/

namespace ImportScan.Cursor

@[simp] theorem before_between (a b : Text) : (between a b).before = a.reverse := rfl

@[simp] theorem after_between (a b : Text) : (between a b).after = b := rfl

@[simp] theorem offset_between (a b : Text) : (between a b).offset = a.length := by
  simp [between]

theorem atStart_eq_between (t : Text) : atStart t = between [] t := rfl

@[simp] theorem next_between (a : Text) (x : Char) (b : Text) :
    (between a (x :: b)).next = between (a ++ [x]) b := by
  obtain ⟨hafter, hbefore⟩ := after_next_cons (c := between a (x :: b)) rfl
  refine ext_iff.2 ⟨?_, hafter⟩
  rw [hbefore]
  simp

theorem skip_between (a t b : Text) :
    (between a (t ++ b)).skip t.length = between (a ++ t) b := by
  induction t generalizing a with
  | nil => simp
  | cons x t ih =>
    rw [List.cons_append, List.length_cons, skip, next_between, ih]
    simp

theorem offset_skip {n : Nat} {c : Cursor} (h : n ≤ c.after.length) :
    (c.skip n).offset = c.offset + n := by
  rw [offset_eq, offset_eq, before_skip, List.length_append, List.length_reverse, List.length_take,
    Nat.min_eq_left h, Nat.add_comm]

theorem offset_le_next (c : Cursor) : c.offset ≤ c.next.offset := by
  cases h : c.after with
  | nil => exact Nat.le_of_eq (congrArg offset (next_eq_self h).symm)
  | cons x rest =>
    have hskip : c.next.offset = c.offset + 1 := offset_skip (n := 1) (by simp [h])
    omega

theorem skip_skip (m n : Nat) (c : Cursor) : (c.skip m).skip n = c.skip (m + n) := by
  induction m generalizing c with
  | zero => rw [Nat.zero_add, skip_zero]
  | succ m ih => rw [Nat.succ_add, skip, skip, ih]

/-! ## Text in front -/

/-- The place once `front` is put in front of the text. -/
def behind (front : Text) (c : Cursor) : Cursor :=
  { before := c.before ++ front.reverse, after := c.after }

@[simp] theorem after_behind (front : Text) (c : Cursor) : (c.behind front).after = c.after := rfl

@[simp] theorem before_behind (front : Text) (c : Cursor) :
    (c.behind front).before = c.before ++ front.reverse := rfl

@[simp] theorem offset_behind (front : Text) (c : Cursor) :
    (c.behind front).offset = front.length + c.offset := by
  rw [offset_eq, offset_eq, before_behind, List.length_append, List.length_reverse, Nat.add_comm]

@[simp] theorem left_behind (front : Text) (c : Cursor) : (c.behind front).left = c.left := by
  rw [left_eq, left_eq, after_behind]

@[simp] theorem behind_between (front a b : Text) :
    (between a b).behind front = between (front ++ a) b := by
  refine ext_iff.2 ⟨?_, rfl⟩
  simp

theorem next_behind (front : Text) (c : Cursor) : (c.behind front).next = c.next.behind front := by
  cases h : c.after with
  | nil => rw [next_eq_self h, next_eq_self (by simpa using h)]
  | cons x rest =>
    obtain ⟨ha, hb⟩ := after_next_cons h
    obtain ⟨ha', hb'⟩ := after_next_cons (c := c.behind front) h
    refine ext_iff.2 ⟨?_, ha'.trans ha.symm⟩
    rw [hb', before_behind, before_behind, hb]
    rfl

theorem skip_behind (front : Text) (n : Nat) (c : Cursor) :
    (c.behind front).skip n = (c.skip n).behind front := by
  induction n generalizing c with
  | zero => rfl
  | succ n ih => rw [skip, skip, next_behind, ih]

/-! ## Runs -/

/-- The length of the longest run of a class at the start of a text, of which `n` characters of at
most `most` are spent. -/
def reach (p : Char → Bool) (most : Option Nat) (n : Nat) (t : Text) : Nat :=
  match most with
  | none => (t.takeWhile p).length
  | some m => ((t.take (m - n)).takeWhile p).length

/-- A run that is not longer than the longest is a run. -/
theorem exists_of_le_reach {p : Char → Bool} {most : Option Nat} {n m : Nat} {t : Text}
    (h : m ≤ reach p most n t) :
    ∃ a rest, t = a ++ rest ∧ (∀ x ∈ a, p x = true) ∧ a.length = m := by
  have hprefix : ∃ u, u <+: t ∧ reach p most n t = (u.takeWhile p).length := by
    cases most with
    | none => exact ⟨t, List.prefix_refl t, rfl⟩
    | some k => exact ⟨t.take (k - n), List.take_prefix _ _, rfl⟩
  obtain ⟨u, hu, hr⟩ := hprefix
  have htake : (u.takeWhile p).take m <+: t :=
    (List.take_prefix _ _).trans ((List.takeWhile_prefix p).trans hu)
  obtain ⟨rest, hrest⟩ := htake
  refine ⟨(u.takeWhile p).take m, rest, hrest.symm, ?_, ?_⟩
  · intro x hx
    exact List.all_eq_true.1 List.all_takeWhile x (List.mem_of_mem_take hx)
  · rw [List.length_take]
    omega

theorem farthest_eq (p : Char → Bool) (most : Option Nat) (n : Nat) (c : Cursor) :
    c.farthest p most n = (n + reach p most n c.after, c.skip (reach p most n c.after)) := by
  fun_induction farthest p most n c with
  | case1 n c h => cases most <;> simp [reach, h]
  | case2 n c x rest h hp ih =>
    obtain ⟨hx, hn⟩ := (Bool.and_eq_true_iff).1 hp
    have hreach : reach p most n (x :: rest) = reach p most (n + 1) rest + 1 := by
      cases most with
      | none => simp [reach, hx]
      | some m =>
        have hsub : m - n = m - (n + 1) + 1 := by
          have : n < m := by simpa using hn
          omega
        simp [reach, hsub, hx]
    rw [ih, (after_next_cons h).1, h, hreach, skip, Nat.add_assoc, Nat.add_comm 1]
  | case3 n c x rest h hp =>
    have hreach : reach p most n (x :: rest) = 0 := by
      cases most with
      | none => simpa [reach, List.takeWhile_cons] using hp
      | some m =>
        by_cases hn : n < m
        · have hsub : m - n = m - (n + 1) + 1 := by omega
          simpa [reach, hsub, hn, List.takeWhile_cons] using hp
        · have hsub : m - n = 0 := by omega
          simp [reach, hsub]
    rw [h, hreach]
    rfl

theorem farthest_behind (front : Text) (p : Char → Bool) (most : Option Nat) (n : Nat)
    (c : Cursor) :
    (c.behind front).farthest p most n =
      ((c.farthest p most n).1, (c.farthest p most n).2.behind front) := by
  rw [farthest_eq, farthest_eq, skip_behind]
  rfl

end ImportScan.Cursor
