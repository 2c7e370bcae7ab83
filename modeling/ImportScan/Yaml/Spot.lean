import ImportScan.Yaml.Basic

/-!
# Places in a structured document

A `Spot` is what is left of a document together with its line and column, which give the document
its structure. Lines end with a line feed, a next-line control, or a line or paragraph separator. A
byte order mark takes no column.
-/

namespace ImportScan.Yaml

/-- How this reader of documents fails on what is no fault of the grammar. -/
inductive Failure where
  /-- Collections are nested too deep. -/
  | nestingTooDeep
  /-- An escape spells no character. -/
  | noCharacter
  /-- A number is spelled with wrong or too many digits. -/
  | badNumber
  /-- A number is spelled with no character. -/
  | emptyNumber
  /-- A truth value is none of the words for one. -/
  | badTruth
  /-- A date is spelled like no date. -/
  | notADate
  /-- A date names a day or time that does not exist. -/
  | noSuchDate
deriving DecidableEq, Repr

/-- Why this reader has no value for a text. -/
abbrev Error := ReadError Failure

/-- Whether `c` ends a line. -/
def isBreak (c : Char) : Bool :=
  c == '\n' || c.toNat == 0x85 || c.toNat == 0x2028 || c.toNat == 0x2029

/-- Whether `c` may stand in a document. -/
def isDocumentChar (c : Char) : Bool :=
  let n := c.toNat
  n == 0x09 || n == 0x0A || n == 0x0D || (0x20 ≤ n && n ≤ 0x7E) || n == 0x85 ||
    (0xA0 ≤ n && n ≤ 0xFFFD) || 0x10000 ≤ n

/-- What a line break reads as: one of the separators as itself, any other as a line feed. -/
def breakText (c : Char) : Text :=
  if c.toNat == 0x2028 || c.toNat == 0x2029 then [c] else ['\n']

/-- A place in a document. -/
structure Spot where
  rest : Text
  line : Nat := 0
  column : Nat := 0
  index : Nat := 0
  /-- How many characters are left. -/
  left : Nat := rest.length
  left_eq : left = rest.length := by rfl

namespace Spot

/-- The place behind the next character. -/
def next (s : Spot) : Spot := match h : s.rest with
  | [] => s
  | c :: rest =>
    let left_eq : s.left - 1 = rest.length := by simp [s.left_eq, h]
    if isBreak c then ⟨rest, s.line + 1, 0, s.index + 1, s.left - 1, left_eq⟩
    else
      let column := if c == '\uFEFF' then s.column else s.column + 1
      ⟨rest, s.line, column, s.index + 1, s.left - 1, left_eq⟩

/-- The place `n` characters on. -/
def skip : Nat → Spot → Spot
  | 0, s => s
  | n + 1, s => skip n s.next

/-- The next characters that satisfy `p`, and the place behind them. -/
def span (p : Char → Bool) (s : Spot) : Text × Spot :=
  let t := s.rest.takeWhile p
  (t, s.skip t.length)

/-- The place behind the next characters that satisfy `p`. -/
def skipWhile (p : Char → Bool) (s : Spot) : Spot := (s.span p).2

/-- The character `n` places on. -/
def peek (s : Spot) (n : Nat := 0) : Option Char := s.rest[n]?

/-- Whether a space stands `n` characters on, or the line or document ends there. -/
def atSpace (s : Spot) (n : Nat := 0) : Bool := (s.peek n).all fun c => c == ' ' || isBreak c

/-- Whether white space stands `n` characters on, or the line or document ends there. -/
def atBlank (s : Spot) (n : Nat := 0) : Bool :=
  (s.peek n).all fun c => c == ' ' || c == '\t' || isBreak c

/-- The line break here, if there is one, as it reads, and the place behind it. -/
def lineBreak? (s : Spot) : Option (Text × Spot) := match s.rest with
  | [] => none
  | c :: _ => if isBreak c then some (breakText c, s.next) else none

/-- Whether three times `c` and then white space follow. -/
def atMark (c : Char) (s : Spot) : Bool := [c, c, c].isPrefixOf s.rest && s.atBlank 3

/-- Whether a document starts or ends here, if a line does. -/
def atDocumentMark (s : Spot) : Bool := s.atMark '-' || s.atMark '.'

/-- The place behind spaces and a remark. -/
def skipRemark (s : Spot) : Spot :=
  let s := s.skipWhile (· == ' ')
  if s.peek = some '#' then s.skipWhile (!isBreak ·) else s

/-- The start of the next line, behind spaces and a remark; nothing else may stand before it. -/
def endLine (s : Spot) : Except Error Spot :=
  let s := s.skipRemark
  match s.lineBreak? with
  | some (_, s) => .ok s
  | none => if s.rest.isEmpty then .ok s else .error .malformed

end Spot
end ImportScan.Yaml
