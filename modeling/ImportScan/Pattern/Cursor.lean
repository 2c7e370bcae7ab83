import ImportScan.Text.Basic

/-!
# Places in a text

A `Cursor` splits a text at one place. What stands before it is kept last character first, so both
neighbours of the place are at hand. `skip` moves forward and `back` undoes one step
(`back_skip_succ`).
-/

namespace ImportScan

/-- A place in a text. -/
structure Cursor where
  /-- What stands before the place, last character first. -/
  before : Text
  /-- What follows. -/
  after : Text
  /-- How many characters stand before. -/
  offset : Nat := before.length
  /-- How many characters follow. -/
  left : Nat := after.length
  offset_eq : offset = before.length := by rfl
  left_eq : left = after.length := by rfl

namespace Cursor

/-- Two places are the same if the same stands before and after them. -/
theorem ext_iff {a b : Cursor} : a = b ↔ a.before = b.before ∧ a.after = b.after := by
  constructor
  · rintro rfl
    exact ⟨rfl, rfl⟩
  · obtain ⟨p, q, m, n, hm, hn⟩ := a
    obtain ⟨p', q', m', n', hm', hn'⟩ := b
    rintro ⟨rfl, rfl⟩
    subst hm hn hm' hn'
    rfl

/-- The start of a text. -/
def atStart (t : Text) : Cursor := { before := [], after := t }

/-- The place between two texts. -/
def between (a b : Text) : Cursor := { before := a.reverse, after := b }

/-- The place behind the next character. -/
def next (c : Cursor) : Cursor := match h : c.after with
  | [] => c
  | x :: rest =>
    ⟨x :: c.before, rest, c.offset + 1, c.left - 1, by simp [c.offset_eq], by simp [c.left_eq, h]⟩

theorem next_eq_self {c : Cursor} (h : c.after = []) : c.next = c := by
  unfold next
  split <;> simp_all

theorem after_next_cons {c : Cursor} {x : Char} {rest : Text} (h : c.after = x :: rest) :
    c.next.after = rest ∧ c.next.before = x :: c.before := by
  unfold next
  split <;> simp_all

/-- The place before the previous character. -/
def back (c : Cursor) : Cursor := match h : c.before with
  | [] => c
  | x :: rest =>
    ⟨rest, x :: c.after, c.offset - 1, c.left + 1, by simp [c.offset_eq, h], by simp [c.left_eq]⟩

/-- The place `n` characters on, or the end of the text. -/
def skip : Nat → Cursor → Cursor
  | 0, c => c
  | n + 1, c => skip n c.next

/-- The place `n` characters before, if there are that many. -/
def rewind? : Nat → Cursor → Option Cursor
  | 0, c => some c
  | n + 1, c => match c.before with
    | [] => none
    | _ :: _ => rewind? n c.back

/-- The whole text, seen from any of its places. -/
def text (c : Cursor) : Text := c.before.reverse ++ c.after

/-- The farthest place that a run of at most `most` characters of the class leads to, and its
distance, counted on from `n`. -/
def farthest (p : Char → Bool) (most : Option Nat) (n : Nat) (c : Cursor) : Nat × Cursor :=
  match h : c.after with
  | [] => (n, c)
  | x :: _ =>
    if p x && most.all (n < ·) then farthest p most (n + 1) c.next else (n, c)
termination_by c.after.length
decreasing_by simp [h, (after_next_cons h).1]

/-! ## Moving -/

@[simp] theorem skip_zero (c : Cursor) : c.skip 0 = c := rfl

theorem back_next {c : Cursor} (h : c.after ≠ []) : c.next.back = c := by
  obtain ⟨x, rest, hx⟩ := List.exists_cons_of_ne_nil h
  obtain ⟨h1, h2⟩ := after_next_cons hx
  rw [ext_iff]
  unfold back
  split <;> simp_all

theorem skip_succ (n : Nat) (c : Cursor) : c.skip (n + 1) = (c.skip n).next := by
  induction n generalizing c with
  | zero => rfl
  | succ n ih =>
    rw [skip, ih]
    rfl

theorem after_skip (n : Nat) (c : Cursor) : (c.skip n).after = c.after.drop n := by
  induction n generalizing c with
  | zero => rfl
  | succ n ih =>
    rw [skip, ih]
    cases h : c.after with
    | nil => simp [next_eq_self h, h]
    | cons x rest => simp [(after_next_cons h).1]

theorem before_skip (n : Nat) (c : Cursor) :
    (c.skip n).before = (c.after.take n).reverse ++ c.before := by
  induction n generalizing c with
  | zero => simp
  | succ n ih =>
    rw [skip, ih]
    cases h : c.after with
    | nil => simp [next_eq_self h, h]
    | cons x rest => simp [(after_next_cons h).1, (after_next_cons h).2]

/-- A step back undoes the last step of a `skip`. -/
theorem back_skip_succ {n : Nat} {c : Cursor} (h : n < c.after.length) :
    (c.skip (n + 1)).back = c.skip n := by
  rw [skip_succ, back_next]
  rw [after_skip]
  intro e
  have := congrArg List.length e
  simp at this
  omega

theorem text_skip (n : Nat) (c : Cursor) : (c.skip n).text = c.text := by
  simp only [text, after_skip, before_skip, List.reverse_append, List.reverse_reverse,
    List.append_assoc, List.take_append_drop]

end Cursor
end ImportScan
