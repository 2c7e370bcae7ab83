import ImportScan.Pattern.Basic

/-!
# Matches in a text

`matchAt?` is the preferred match of a pattern at one place, `matchesIn` are the successive matches
in a text: each is sought from the end of the one before, or one character on if that was empty.
-/

namespace ImportScan

/-- A stretch of text that a pattern matched. -/
structure Match (ι : Type) where
  start : Cursor
  stop : Point ι

namespace Match

variable {ι : Type}

/-- The number of characters before the match. -/
def offset (m : Match ι) : Nat := m.start.offset

/-- The number of characters matched. -/
def length (m : Match ι) : Nat := m.stop.cursor.offset - m.start.offset

/-- The characters matched. -/
def text (m : Match ι) : Text := m.start.after.take m.length

/-- What the part `i` matched, if it took part. -/
def part? [DecidableEq ι] (m : Match ι) (i : ι) : Option Text := m.stop.part? i

end Match

namespace Pattern

variable {ι : Type} [DecidableEq ι]

/-- The preferred match at a place. -/
def matchAt? (p : Pattern ι) (c : Cursor) : Option (Match ι) :=
  (p.firstEnd ⟨c, []⟩ some).map fun stop => ⟨c, stop⟩

/-- The first match from a place on. -/
def search? (p : Pattern ι) (c : Cursor) : Option (Match ι) :=
  match p.matchAt? c with
  | some m => some m
  | none => match _h : c.after with
    | [] => none
    | _ :: _ => search? p c.next
termination_by c.after.length
decreasing_by simp [_h, (Cursor.after_next_cons _h).1]

/-- Whether the pattern matches somewhere in the text. -/
def occursIn (p : Pattern ι) (t : Text) : Bool := (p.search? (.atStart t)).isSome

/-- The successive matches from a place on, of which the next `taken` characters belong to the match
before. -/
def matchesFrom (p : Pattern ι) (taken : Nat) (c : Cursor) : List (Match ι) :=
  match _h : c.after with
  | [] => if taken = 0 then (p.matchAt? c).toList else []
  | _ :: _ => match taken with
    | taken + 1 => matchesFrom p taken c.next
    | 0 => match p.matchAt? c with
      | none => matchesFrom p 0 c.next
      | some m => m :: matchesFrom p (m.length - 1) c.next
termination_by c.after.length
decreasing_by all_goals simp [_h, (Cursor.after_next_cons _h).1]

/-- The successive matches in a text. -/
def matchesIn (p : Pattern ι) (t : Text) : List (Match ι) := p.matchesFrom 0 (.atStart t)

/-- The text from a place on, without the next `taken` characters and with every match after them
replaced. -/
def replacedFrom (p : Pattern ι) (replacement : Text) (taken : Nat) (c : Cursor) : Text :=
  match _h : c.after with
  | [] => []
  | x :: _ => match taken with
    | taken + 1 => replacedFrom p replacement taken c.next
    | 0 => match p.matchAt? c with
      | none => x :: replacedFrom p replacement 0 c.next
      | some m => replacement ++ replacedFrom p replacement (m.length - 1) c.next
termination_by c.after.length
decreasing_by all_goals simp [_h, (Cursor.after_next_cons _h).1]

/-- The text with every match replaced. -/
def replaceIn (p : Pattern ι) (replacement t : Text) : Text :=
  p.replacedFrom replacement 0 (.atStart t)

end Pattern
end ImportScan
