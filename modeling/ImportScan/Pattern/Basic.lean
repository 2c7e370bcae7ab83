import ImportScan.Pattern.Cursor

/-!
# Patterns

A pattern says how a stretch of text may look, and names the parts of it that a reader wants back.
`ends p s` lists every way to match `p` from the point `s`, the preferred way first: an alternative
before those to its right, more repetitions before fewer if greedy, fewer before more if not. A
match is the head of this list; `firstEnd` finds the first end that a continuation accepts without
building the list, and `firstEnd_eq` says that this is all it does.

A repetition of more than a class of characters ends when an iteration took no character, so its
number of rounds is bounded by the least number asked for and the characters left.
-/

namespace ImportScan

/-- A stretch of a text. -/
structure Span where
  start : Cursor
  length : Nat

/-- The characters of the stretch. -/
def Span.text (s : Span) : Text := s.start.after.take s.length

/-- A place in a text together with the parts matched on the way to it, the latest first. -/
structure Point (ι : Type) where
  cursor : Cursor
  parts : List (ι × Span) := []

/-- The part last matched under the label `i`. -/
def Point.part? {ι : Type} [DecidableEq ι] (s : Point ι) (i : ι) : Option Text :=
  (s.parts.lookup i).map Span.text

/-- The point at another place, with the same parts. -/
def Point.at {ι : Type} (s : Point ι) (c : Cursor) : Point ι := { s with cursor := c }

/-- The point with the stretch since `start` as the part `i`. -/
def Point.mark {ι : Type} (i : ι) (start : Cursor) (s : Point ι) : Point ι :=
  { s with parts := (i, ⟨start, s.cursor.offset - start.offset⟩) :: s.parts }

/-- Patterns whose parts have labels in `ι`. -/
inductive Pattern (ι : Type) where
  /-- No character. -/
  | empty
  /-- One character of a class. -/
  | one (p : Char → Bool)
  /-- A run of characters of a class, as long as possible or as short as possible. -/
  | run (greedy : Bool) (p : Char → Bool) (least : Nat) (most : Option Nat)
  /-- No character, at a place that passes a test. -/
  | here (test : Cursor → Bool)
  /-- The one and then the other. -/
  | seq (p q : Pattern ι)
  /-- The one, or else the other. -/
  | alt (p q : Pattern ι)
  /-- A pattern repeated. -/
  | many (greedy : Bool) (p : Pattern ι) (least : Nat) (most : Option Nat)
  /-- A pattern whose match is the part `i`. -/
  | part (i : ι) (p : Pattern ι)
  /-- What the part `i` matched, character by character up to `same`. -/
  | again (i : ι) (same : Char → Char → Bool)
  /-- No character, where the pattern matches, or where it does not. -/
  | ahead (wanted : Bool) (p : Pattern ι)
  /-- No character, where the `width` characters before match, or where they do not. -/
  | behind (wanted : Bool) (width : Nat) (p : Pattern ι)
  /-- The preferred match of a pattern, and no other. -/
  | once (p : Pattern ι)
  /-- One pattern if the part `i` has been matched, another if not. -/
  | given (i : ι) (p q : Pattern ι)

namespace Pattern

/-! ## All ways to match -/

/-- The ends of a repetition of `body`, after `count` iterations of which the last optional one
began at the offset `last`. -/
def endsOfMany {ι : Type} (body : Point ι → List (Point ι)) (greedy : Bool) (least : Nat)
    (most : Option Nat) : (rounds : Nat) → (count : Nat) → (last : Option Nat) → Point ι →
      List (Point ι)
  | 0, _, _, _ => []
  | rounds + 1, count, last, s =>
    if count < least then
      (body s).flatMap (endsOfMany body greedy least most rounds (count + 1) last)
    else if most.all (count < ·) && last != some s.cursor.offset then
      let more := (body s).flatMap
        (endsOfMany body greedy least most rounds (count + 1) (some s.cursor.offset))
      if greedy then more ++ [s] else s :: more
    else [s]

/-- The ends of a run from `c`, of which the farthest is `n` characters on. -/
def endsOfRun (greedy : Bool) (least n : Nat) (c : Cursor) : List Cursor :=
  let counts := List.range' least (n + 1 - least)
  (if greedy then counts.reverse else counts).map fun n => c.skip n

/-- The place behind `t`, if it follows up to `same`. -/
def behindText? (same : Char → Char → Bool) : Text → Cursor → Option Cursor
  | [], c => some c
  | x :: rest, c => match c.after with
    | [] => none
    | y :: _ => if same x y then behindText? same rest c.next else none

variable {ι : Type} [DecidableEq ι]

/-- Every way to match the pattern from a point, the preferred first. -/
def ends : Pattern ι → Point ι → List (Point ι)
  | .empty, s => [s]
  | .one p, s => match s.cursor.after with
    | [] => []
    | x :: _ => if p x then [s.at s.cursor.next] else []
  | .run greedy p least most, s =>
    (endsOfRun greedy least (s.cursor.farthest p most 0).1 s.cursor).map s.at
  | .here test, s => if test s.cursor then [s] else []
  | .seq p q, s => (p.ends s).flatMap q.ends
  | .alt p q, s => p.ends s ++ q.ends s
  | .many greedy p least most, s =>
    endsOfMany p.ends greedy least most (least + s.cursor.left + 2) 0 none s
  | .part i p, s => (p.ends s).map (·.mark i s.cursor)
  | .again i same, s => match s.part? i with
    | none => []
    | some t => ((behindText? same t s.cursor).map s.at).toList
  | .ahead wanted p, s => match (p.ends s).head? with
    | some e => if wanted then [e.at s.cursor] else []
    | none => if wanted then [] else [s]
  | .behind wanted width p, s =>
    match (s.cursor.rewind? width).bind fun c => (p.ends (s.at c)).head? with
    | some e => if wanted then [e.at s.cursor] else []
    | none => if wanted then [] else [s]
  | .once p, s => (p.ends s).head?.toList
  | .given i p q, s => if (s.part? i).isSome then p.ends s else q.ends s

/-! ## The first way that leads on -/

/-- The first of the places `extra`, `extra - 1`, … steps behind the cursor's, from `c` back, that
the continuation accepts. -/
def backFrom {β : Type} (k : Cursor → Option β) : (extra : Nat) → Cursor → Option β
  | 0, c => k c
  | extra + 1, c => match k c with
    | some r => some r
    | none => backFrom k extra c.back

/-- The first of the `extra` places from `c` on that the continuation accepts. -/
def onFrom {β : Type} (k : Cursor → Option β) : (extra : Nat) → Cursor → Option β
  | 0, c => k c
  | extra + 1, c => match k c with
    | some r => some r
    | none => onFrom k extra c.next

/-- The first end of a repetition that the continuation accepts. -/
def firstEndOfMany {ι : Type}
    (body : Point ι → (Point ι → Option (Point ι)) → Option (Point ι)) (greedy : Bool)
    (least : Nat) (most : Option Nat) (k : Point ι → Option (Point ι)) :
    (rounds : Nat) → (count : Nat) → (last : Option Nat) → Point ι → Option (Point ι)
  | 0, _, _, _ => none
  | rounds + 1, count, last, s =>
    if count < least then
      body s (firstEndOfMany body greedy least most k rounds (count + 1) last)
    else if most.all (count < ·) && last != some s.cursor.offset then
      if greedy then
        match body s (firstEndOfMany body greedy least most k rounds (count + 1)
          (some s.cursor.offset)) with
        | some r => some r
        | none => k s
      else
        match k s with
        | some r => some r
        | none => body s (firstEndOfMany body greedy least most k rounds (count + 1)
          (some s.cursor.offset))
    else k s

/-- The first end that the continuation accepts. -/
def firstEnd : Pattern ι → Point ι → (Point ι → Option (Point ι)) → Option (Point ι)
  | .empty, s, k => k s
  | .one p, s, k => match s.cursor.after with
    | [] => none
    | x :: _ => if p x then k (s.at s.cursor.next) else none
  | .run greedy p least most, s, k =>
    match s.cursor.farthest p most 0 with
    | (n, c) =>
      if n < least then none
      else if greedy then backFrom (fun c => k (s.at c)) (n - least) c
      else onFrom (fun c => k (s.at c)) (n - least) (s.cursor.skip least)
  | .here test, s, k => if test s.cursor then k s else none
  | .seq p q, s, k => p.firstEnd s fun s => q.firstEnd s k
  | .alt p q, s, k => match p.firstEnd s k with
    | some r => some r
    | none => q.firstEnd s k
  | .many greedy p least most, s, k =>
    firstEndOfMany p.firstEnd greedy least most k (least + s.cursor.left + 2) 0 none s
  | .part i p, s, k => p.firstEnd s fun e => k (e.mark i s.cursor)
  | .again i same, s, k => match s.part? i with
    | none => none
    | some t => match behindText? same t s.cursor with
      | none => none
      | some c => k (s.at c)
  | .ahead wanted p, s, k => match p.firstEnd s some with
    | some e => if wanted then k (e.at s.cursor) else none
    | none => if wanted then none else k s
  | .behind wanted width p, s, k =>
    match (s.cursor.rewind? width).bind fun c => p.firstEnd (s.at c) some with
    | some e => if wanted then k (e.at s.cursor) else none
    | none => if wanted then none else k s
  | .once p, s, k => match p.firstEnd s some with
    | some e => k e
    | none => none
  | .given i p q, s, k => if (s.part? i).isSome then p.firstEnd s k else q.firstEnd s k

end Pattern
end ImportScan
