import ImportScan.Text.Digit
import ImportScan.Yaml.Spot

/-!
# Scalars as they are written

The three ways to write a scalar: plain, in quotes, and as a block of indented lines. Each reader
starts at a place and hands back the text of the scalar and the place behind it. Line breaks inside
a plain or quoted scalar are folded: a single one reads as a space, and of several the first is
dropped. A block keeps its line breaks, or folds them if it is a folded one.
-/

namespace ImportScan.Yaml

/-! ## Quoted scalars -/

/-- The character that a letter stands for behind a backslash. -/
def replacement? : Char → Option Char
  | '0' => some (Char.ofNat 0)
  | 'a' => some (Char.ofNat 7)
  | 'b' => some (Char.ofNat 8)
  | 't' | '\t' => some '\t'
  | 'n' => some '\n'
  | 'v' => some (Char.ofNat 0x0B)
  | 'f' => some (Char.ofNat 0x0C)
  | 'r' => some '\r'
  | 'e' => some (Char.ofNat 0x1B)
  | ' ' => some ' '
  | '"' => some '"'
  | '\\' => some '\\'
  | '/' => some '/'
  | 'N' => some (Char.ofNat 0x85)
  | '_' => some (Char.ofNat 0xA0)
  | 'L' => some (Char.ofNat 0x2028)
  | 'P' => some (Char.ofNat 0x2029)
  | _ => none

/-- How many hexadecimal digits a letter asks for behind a backslash. -/
def digitCount? : Char → Option Nat
  | 'x' => some 2
  | 'u' => some 4
  | 'U' => some 8
  | _ => none

/-- The character with a code point; the replacement character for half a surrogate pair. -/
def charOfCode (n : Nat) : Except Error Char :=
  if 0x10FFFF < n then .error (.failed .noCharacter)
  else if 0xD800 ≤ n && n ≤ 0xDFFF then .ok '\uFFFD'
  else .ok (Char.ofNat n)

/-- Line breaks, and the white space before each, behind the breaks already read, last first. -/
def foldedBreaks : (fuel : Nat) → Text → Spot → Except Error (Text × Spot)
  | 0, _, _ => .error .malformed
  | fuel + 1, read, s =>
    if s.atDocumentMark then .error .malformed
    else
      let s := s.skipWhile fun c => c == ' ' || c == '\t'
      match s.lineBreak? with
      | some (t, s) => foldedBreaks fuel (t.reverseAux read) s
      | none => .ok (read.reverse, s)

/-- The white space and line breaks inside a quoted scalar, folded. -/
def quotedSpaces (s : Spot) : Except Error (Text × Spot) := do
  let (white, s) := s.span fun c => c == ' ' || c == '\t'
  if s.rest.isEmpty then .error .malformed
  match s.lineBreak? with
  | none => .ok (white, s)
  | some (first, s) =>
    let (others, s) ← foldedBreaks (s.left + 1) [] s
    if first ≠ ['\n'] then .ok (first ++ others, s)
    else if others.isEmpty then .ok ([' '], s)
    else .ok (others, s)

/-- What a backslash spells in double quotes, and the place behind it. -/
def quotedEscape (s : Spot) : Except Error (Text × Spot) := do
  match s.peek with
  | none => .error .malformed
  | some c =>
    if let some r := replacement? c then return ([r], s.next)
    if let some n := digitCount? c then
      match Text.hexNumber? n s.next.rest with
      | none => .error .malformed
      | some code => return ([← charOfCode code], s.next.skip n)
    match s.lineBreak? with
    | none => .error .malformed
    | some (_, s) => foldedBreaks (s.left + 1) [] s

/-- The scalar up to its closing quote, behind what is already read, last character first. -/
def quotedScalar (double : Bool) : (fuel : Nat) → Text → Spot → Except Error (Text × Spot)
  | 0, _, _ => .error .malformed
  | fuel + 1, read, s => match s.rest with
    | [] => .error .malformed
    | c :: rest => do
      if c = '\'' ∧ double = false then
        if rest.head? = some '\'' then quotedScalar double fuel (c :: read) (s.skip 2)
        else return (read.reverse, s.next)
      else if c = '"' ∧ double = true then return (read.reverse, s.next)
      else if c = '\\' ∧ double = true then
        let (t, s) ← quotedEscape s.next
        quotedScalar double fuel (t.reverseAux read) s
      else if c == ' ' || c == '\t' || isBreak c then
        let (t, s) ← quotedSpaces s
        quotedScalar double fuel (t.reverseAux read) s
      else
        let (t, s) := s.span fun c =>
          !(c == '\'' || c == '"' || c == '\\' || c == ' ' || c == '\t' || isBreak c)
        if t.isEmpty then quotedScalar double fuel (c :: read) s.next
        else quotedScalar double fuel (t.reverseAux read) s

/-! ## Plain scalars -/

/-- Whether a plain scalar ends at a character, given the one behind it. -/
def endsPlain (inFlow : Bool) (c : Char) (behind : Option Char) : Bool :=
  c == ' ' || c == '\t' || isBreak c ||
    (c == ':' && behind.all fun d => d == ' ' || d == '\t' || isBreak d ||
      (inFlow && (d == ',' || d == '[' || d == ']' || d == '{' || d == '}'))) ||
    (inFlow && (c == ',' || c == '?' || c == '[' || c == ']' || c == '{' || c == '}'))

/-- The number of characters up to the end of a plain word, counted on from `n`. -/
def plainLength (inFlow : Bool) (n : Nat) : Text → Nat
  | [] => n
  | c :: rest => if endsPlain inFlow c rest.head? then n else plainLength inFlow (n + 1) rest

/-- The line breaks behind the first of a plain scalar and those already read, last first. None if a
document mark stands at the start of a line. -/
def plainBreaks : (fuel : Nat) → Text → Spot → Option Text × Spot
  | 0, read, s => (some read.reverse, s)
  | fuel + 1, read, s =>
    let s := s.skipWhile (· == ' ')
    match s.lineBreak? with
    | none => (some read.reverse, s)
    | some (t, s) => if s.atDocumentMark then (none, s) else plainBreaks fuel (t.reverseAux read) s

/-- What stands between two words of a plain scalar, folded, and whether it holds a line break; none
if the scalar cannot go on. -/
def plainSpaces (s : Spot) : Option Text × Bool × Spot :=
  let (white, s) := s.span (· == ' ')
  match s.lineBreak? with
  | none => (if white.isEmpty then none else some white, false, s)
  | some (first, s) =>
    if s.atDocumentMark then (none, true, s)
    else match plainBreaks (s.left + 1) [] s with
      | (none, s) => (none, true, s)
      | (some others, s) =>
        let t := if first ≠ ['\n'] then first ++ others
          else if others.isEmpty then [' '] else others
        (some t, true, s)

/-- A plain scalar, read as far as it is. -/
structure Plain where
  /-- The text read, last character first. -/
  reversed : Text
  /-- The place behind the scalar and the white space that follows it. -/
  spot : Spot
  /-- Whether that white space holds a line break. -/
  broken : Bool

/-- The words of a plain scalar whose lines are indented by at least `indent`, behind what is
already read. -/
def plainScalar (inFlow : Bool) (indent : Nat) : (fuel : Nat) → Plain → (between : Text) → Plain
  | 0, read, _ => read
  | fuel + 1, read, between =>
    let n := if read.spot.peek = some '#' then 0 else plainLength inFlow 0 read.spot.rest
    if n = 0 then read
    else
      let text := (read.spot.rest.take n).reverseAux (between.reverseAux read.reversed)
      match plainSpaces (read.spot.skip n) with
      | (none, broken, s) => ⟨text, s, broken⟩
      | (some between, broken, s) =>
        if s.peek = some '#' || (!inFlow && s.column < indent) then ⟨text, s, broken⟩
        else plainScalar inFlow indent fuel ⟨text, s, broken⟩ between

/-! ## Block scalars -/

/-- What happens to the line breaks at the end of a block. -/
inductive Chomping where
  | strip
  | clip
  | keep
deriving DecidableEq, Repr

/-- The indentation that a digit asks for. -/
def indentation? (c : Char) : Option Nat :=
  if Text.isDecimal c then some (Text.digitValue c) else none

/-- The chomping that a sign asks for. -/
def chomping? : Char → Option Chomping
  | '+' => some .keep
  | '-' => some .strip
  | _ => none

/-- The signs behind the mark of a block: a chomping and an indentation, in either order. -/
def blockHeader (s : Spot) : Except Error (Chomping × Option Nat × Spot) := do
  let chomp := s.peek.bind chomping?
  let s := if chomp.isSome then s.next else s
  let indent := s.peek.bind indentation?
  let s := if indent.isSome then s.next else s
  let late := if chomp.isNone && indent.isSome then s.peek.bind chomping? else none
  let s := if late.isSome then s.next else s
  if indent = some 0 then .error .malformed
  if !s.atSpace then .error .malformed
  return ((chomp <|> late).getD .clip, indent, s)

/-- Empty lines before the first line of a block, behind those already read, last first, and the
widest run of spaces among them and before it. -/
def blockLead : (fuel : Nat) → Text → (widest : Nat) → Spot → Text × Nat × Spot
  | 0, read, widest, s => (read.reverse, widest, s)
  | fuel + 1, read, widest, s =>
    let s' := s.skipWhile (· == ' ')
    let widest := if s'.column = s.column then widest else max widest s'.column
    match s'.lineBreak? with
    | none => (read.reverse, widest, s')
    | some (t, s) => blockLead fuel (t.reverseAux read) widest s

/-- The place behind spaces, but not beyond the column `indent`. -/
def skipIndent (indent : Nat) (s : Spot) : Spot :=
  s.skip (min (indent - s.column) (s.rest.takeWhile (· == ' ')).length)

/-- Empty lines between or behind the lines of a block, behind those already read, last first. -/
def blockBreaks (indent : Nat) : (fuel : Nat) → Text → Spot → Text × Spot
  | 0, read, s => (read.reverse, s)
  | fuel + 1, read, s =>
    let s := skipIndent indent s
    match s.lineBreak? with
    | none => (read.reverse, s)
    | some (t, s) => blockBreaks indent fuel (t.reverseAux read) s

/-- The lines of a block from the one at `s` on, behind what is already read, last character first.
`breaks` are the empty lines before it. -/
def blockLines (folded : Bool) (chomp : Chomping) (indent : Nat) :
    (fuel : Nat) → (read breaks : Text) → Spot → Text × Spot
  | 0, read, _, s => (read.reverse, s)
  | fuel + 1, read, breaks, s =>
    let isWhite (s : Spot) : Bool := s.peek.any fun c => c == ' ' || c == '\t'
    let (t, s') := s.span (!isBreak ·)
    let read := t.reverseAux (breaks.reverseAux read)
    let (lineEnd, s'') := (s'.lineBreak?).getD ([], s')
    let (breaks, next) := blockBreaks indent (s''.left + 1) [] s''
    if next.column = indent && !next.rest.isEmpty then
      if folded && lineEnd == ['\n'] && !isWhite s && !isWhite next then
        let read := if breaks.isEmpty then ' ' :: read else read
        blockLines folded chomp indent fuel read breaks next
      else blockLines folded chomp indent fuel (lineEnd.reverseAux read) breaks next
    else match chomp with
      | .strip => (read.reverse, next)
      | .clip => (read.reverse ++ lineEnd, next)
      | .keep => (read.reverse ++ lineEnd ++ breaks, next)

/-- The block scalar behind its mark. Its lines are indented by at least `least`. -/
def blockScalar (folded : Bool) (least : Nat) (s : Spot) : Except Error (Text × Spot) := do
  let (chomp, indent?, s) ← blockHeader s
  let s ← s.endLine
  let (breaks, indent, s) := match indent? with
    | some n =>
      let indent := least + n - 1
      let (breaks, s) := blockBreaks indent (s.left + 1) [] s
      (breaks, indent, s)
    | none =>
      let (breaks, widest, s) := blockLead (s.left + 1) [] 0 s
      (breaks, max least widest, s)
  if s.column = indent && !s.rest.isEmpty then
    return blockLines folded chomp indent (s.left + 1) [] breaks s
  else return (if chomp = .keep then breaks else [], s)

end ImportScan.Yaml
