import ImportScan.Yaml.Scalar

/-!
# Tokens of a structured document

A document is cut into tokens from left to right. Indentation becomes tokens of its own: a block
opens where a line is indented deeper than the block around it, and closes where one is indented
less (`closeBlocks`). A token may turn out to be a key only when the colon behind it is met, so for
every open bracket the scan keeps the last token that could be one (`Candidate`); the key token is
then put in front of it. A candidate is given up when its line ends or it is more than 1024
characters behind, and that is an error if the indentation asked for a key.
-/

namespace ImportScan.Yaml

/-- A token of a document. -/
inductive Token where
  | versionDirective (major : Nat)
  | tagDirective (handle start : Text)
  | otherDirective
  | documentStart
  | documentEnd
  | blockSequenceStart
  | blockMappingStart
  | blockEnd
  | flowSequenceStart
  | flowSequenceEnd
  | flowMappingStart
  | flowMappingEnd
  | blockEntry
  | flowEntry
  | key
  | value
  | reference (name : Text)
  | anchor (name : Text)
  | tag (handle : Option Text) (suffix : Text)
  | scalar (plain : Bool) (text : Text)
deriving DecidableEq, Repr

/-- A token that is a key if a colon follows. -/
structure Candidate where
  /-- How many tokens stand before it. -/
  position : Nat
  /-- Whether the indentation asks for a key. -/
  required : Bool
  spot : Spot

/-- How far a document is scanned. -/
structure Scan where
  spot : Spot
  /-- The tokens so far, the last first. -/
  tokens : List Token := []
  /-- The number of tokens so far. -/
  count : Nat := tokens.length
  /-- The number of open brackets. -/
  depth : Nat := 0
  /-- The column of the innermost block; −1 outside all blocks. -/
  indent : Int := -1
  /-- The columns of the blocks around it. -/
  outer : List Int := []
  /-- Whether a key may start here. -/
  keyAllowed : Bool := true
  /-- The candidates, by the number of open brackets around them. -/
  candidates : List (Nat × Candidate) := []

namespace Scan

/-- Whether brackets are open. -/
def inFlow (s : Scan) : Bool := 0 < s.depth

/-- The scan with a token behind the others. -/
def emit (t : Token) (s : Scan) : Scan := { s with tokens := t :: s.tokens, count := s.count + 1 }

/-- The scan with a token in front of the one at a position. -/
def insert (position : Nat) (t : Token) (s : Scan) : Scan :=
  let later := s.count - position
  { s with tokens := s.tokens.take later ++ t :: s.tokens.drop later, count := s.count + 1 }

/-- The scan at another place. -/
def moveTo (spot : Spot) (s : Scan) : Scan := { s with spot }

/-! ## Blocks -/

/-- Closes the blocks that are indented deeper than `column`. -/
def closeDeeper (column : Int) : (blocks : List Int) → Scan → Scan
  | [], s => s
  | indent :: outer, s =>
    if column < s.indent then closeDeeper column outer { s.emit .blockEnd with indent, outer }
    else s

/-- Closes the blocks that end before `column`; inside brackets there is nothing to close. -/
def closeBlocks (column : Int) (s : Scan) : Scan :=
  if s.inFlow then s else closeDeeper column s.outer s

/-- Opens a block at a column, if it is indented deeper than the one around it; tells whether. -/
def openBlock (column : Nat) (s : Scan) : Bool × Scan :=
  if s.indent < column then (true, { s with indent := column, outer := s.indent :: s.outer })
  else (false, s)

/-! ## Candidates for keys -/

/-- Gives up the candidate between the innermost brackets. -/
def dropCandidate (s : Scan) : Except Error Scan :=
  if (s.candidates.lookup s.depth).any (·.required) then .error .malformed
  else .ok { s with candidates := s.candidates.filter (·.1 != s.depth) }

/-- Gives up the candidates that are too far behind. -/
def dropStale (s : Scan) : Except Error Scan :=
  let isStale (c : Candidate) : Bool :=
    c.spot.line != s.spot.line || 1024 < s.spot.index - c.spot.index
  if s.candidates.any fun c => isStale c.2 && c.2.required then .error .malformed
  else .ok { s with candidates := s.candidates.filter fun c => !isStale c.2 }

/-- Makes the token that starts here a candidate, if a key may start here. -/
def saveCandidate (s : Scan) : Except Error Scan :=
  if s.keyAllowed then do
    let s ← s.dropCandidate
    let required := !s.inFlow && s.indent == s.spot.column
    return { s with candidates := (s.depth, ⟨s.count, required, s.spot⟩) :: s.candidates }
  else .ok s

/-! ## Tokens -/

/-- The place of the next token. -/
def toNextToken : (fuel : Nat) → Scan → Scan
  | 0, s => s
  | fuel + 1, s =>
    let spot := s.spot.skipRemark
    match spot.lineBreak? with
    | none => s.moveTo spot
    | some (_, spot) => toNextToken fuel { s with spot, keyAllowed := s.keyAllowed || !s.inFlow }

/-- Ends all blocks, as a mark between documents does. -/
def endBlocks (s : Scan) : Except Error Scan := do
  let s ← (s.closeBlocks (-1)).dropCandidate
  return { s with keyAllowed := false }

/-- A character of a name. -/
def isNameChar (c : Char) : Bool :=
  ('0' ≤ c && c ≤ '9') || ('A' ≤ c && c ≤ 'Z') || ('a' ≤ c && c ≤ 'z') || c == '-' || c == '_'

/-- A name, which must not be empty. -/
def name (s : Spot) : Except Error (Text × Spot) :=
  let (t, s) := s.span isNameChar
  if t.isEmpty then .error .malformed else .ok (t, s)

/-- The bytes that percent signs with two digits spell at the start of a text. -/
def uriBytes : (fuel : Nat) → List UInt8 → Text → Except Error (List UInt8)
  | 0, read, _ => .ok read.reverse
  | fuel + 1, read, t => match t with
    | '%' :: rest => match Text.hexNumber? 2 rest with
      | none => .error .malformed
      | some n => uriBytes fuel (n.toUInt8 :: read) (rest.drop 2)
    | _ => .ok read.reverse

/-- Whether a character may stand in the text of a tag. -/
def isUriChar (c : Char) : Bool :=
  isNameChar c || "-;/?:@&=+$,_.!~*'()[]".toList.contains c

/-- The text of a tag, behind what is already read. -/
def uriOnto : (fuel : Nat) → Text → Spot → Except Error (Text × Spot)
  | 0, read, s => .ok (read, s)
  | fuel + 1, read, s => do
    let (t, s) := s.span isUriChar
    if s.peek = some '%' then
      let bytes ← uriBytes s.left [] s.rest
      match (ByteArray.mk bytes.toArray).utf8Decode? with
      | none => .error .malformed
      | some chars => uriOnto fuel (read ++ t ++ chars.toList) (s.skip (3 * bytes.length))
    else return (read ++ t, s)

/-- The text of a tag, which must not be empty. -/
def uri (s : Spot) : Except Error (Text × Spot) := do
  let (t, behind) ← uriOnto (s.left + 1) [] s
  if behind.left = s.left then .error .malformed
  return (t, behind)

/-- The handle of a tag: an exclamation mark, and perhaps a name and another one. -/
def tagHandle (s : Spot) : Except Error (Text × Spot) :=
  if s.peek ≠ some '!' then .error .malformed
  else if s.peek 1 = some ' ' then .ok (['!'], s.next)
  else
    let (t, s) := s.next.span isNameChar
    if s.peek = some '!' then .ok ('!' :: t ++ ['!'], s.next) else .error .malformed

/-- A decimal number, which must not be empty. -/
def decimal (s : Spot) : Except Error (Nat × Spot) :=
  let (t, s) := s.span Text.isDecimal
  if t.isEmpty then .error .malformed
  else .ok (Text.number 10 t, s)

/-- A directive, up to the end of its line. -/
def directive (s : Spot) : Except Error (Token × Spot) := do
  let (name, s) ← name s.next
  if !s.atSpace then .error .malformed
  let spaces (s : Spot) : Spot := s.skipWhile (· == ' ')
  let (token, s) ←
    if name = "YAML".toList then do
      let (major, s) ← decimal (spaces s)
      if s.peek ≠ some '.' then .error .malformed
      let (_, s) ← decimal s.next
      if !s.atSpace then .error .malformed
      pure (Token.versionDirective major, s)
    else if name = "TAG".toList then do
      let (handle, s) ← tagHandle (spaces s)
      if s.peek ≠ some ' ' then .error .malformed
      let (start, s) ← uri (spaces s)
      if !s.atSpace then .error .malformed
      pure (Token.tagDirective handle start, s)
    else pure (Token.otherDirective, s.skipWhile (!isBreak ·))
  return (token, ← s.endLine)

/-- An alias or anchor behind its mark. -/
def anchorName (s : Spot) : Except Error (Text × Spot) := do
  let (t, s) ← name s.next
  if s.atBlank || "?:,]\x7d%@".toList.any (fun c => s.peek = some c) ||
      s.peek = some (Char.ofNat 0x60) then
    return (t, s)
  .error .malformed

/-- A tag. -/
def tag (s : Spot) : Except Error (Token × Spot) := do
  let (token, s) ←
    if s.peek 1 = some '<' then do
      let (t, s) ← uri (s.skip 2)
      if s.peek ≠ some '>' then .error .malformed
      pure (Token.tag none t, s.next)
    else if s.atBlank 1 then pure (Token.tag none ['!'], s.next)
    else do
      let word := (s.rest.drop 1).takeWhile fun c => !(c == ' ' || isBreak c)
      let (handle, s) ← if word.contains '!' then tagHandle s else pure (['!'], s.next)
      let (suffix, s) ← uri s
      pure (Token.tag (some handle) suffix, s)
  if s.atSpace then return (token, s)
  .error .malformed

/-- Whether a plain scalar may start here. -/
def startsPlain (s : Scan) : Bool := match s.spot.peek with
  | none => false
  | some c =>
    !(s.spot.atBlank || "-?:,[]\x7b\x7d#&*!|>'\"%@".toList.contains c || c == Char.ofNat 0x60) ||
      (!s.spot.atBlank 1 && (c == '-' || (!s.inFlow && (c == '?' || c == ':'))))

/-- Emits a token that may be a key, behind which no key may start on the same line. -/
def emitAtom (token : Token) (spot : Spot) (s : Scan) : Except Error Scan := do
  let s ← s.saveCandidate
  return { s.emit token with spot, keyAllowed := false }

/-- Opens a bracket. -/
def openBracket (token : Token) (s : Scan) : Except Error Scan := do
  let s ← s.saveCandidate
  return { s.emit token with spot := s.spot.next, depth := s.depth + 1, keyAllowed := true }

/-- Closes a bracket; there must be one. -/
def closeBracket (token : Token) (s : Scan) : Except Error Scan := do
  let s ← s.dropCandidate
  if s.depth = 0 then .error .malformed
  return { s.emit token with spot := s.spot.next, depth := s.depth - 1, keyAllowed := false }

/-- Opens a block for an entry or key at the place of the scan, which must allow one. -/
def openBlockFor (start : Token) (s : Scan) : Except Error Scan :=
  if s.inFlow then .ok s
  else if !s.keyAllowed then .error .malformed
  else match s.openBlock s.spot.column with
    | (true, s) => .ok (s.emit start)
    | (false, s) => .ok s

/-- An entry of a block sequence. -/
def blockEntry (s : Scan) : Except Error Scan := do
  let s ← s.openBlockFor .blockSequenceStart
  let s ← dropCandidate s
  return { s.emit .blockEntry with spot := s.spot.next, keyAllowed := true }

/-- A key that is marked as one. -/
def markedKey (s : Scan) : Except Error Scan := do
  let s ← s.openBlockFor .blockMappingStart
  let s ← dropCandidate s
  return { s.emit .key with spot := s.spot.next, keyAllowed := !s.inFlow }

/-- A value: of the candidate, which becomes a key, or else of a marked key. -/
def value (s : Scan) : Except Error Scan := match s.candidates.lookup s.depth with
  | some c =>
    let s := { s with candidates := s.candidates.filter (·.1 != s.depth) }
    let s := s.insert c.position .key
    let s := if s.inFlow then s
      else match s.openBlock c.spot.column with
        | (true, s) => s.insert c.position .blockMappingStart
        | (false, s) => s
    .ok { s.emit .value with spot := s.spot.next, keyAllowed := false }
  | none => do
    let s ← s.openBlockFor .blockMappingStart
    return { s.emit .value with spot := s.spot.next, keyAllowed := !s.inFlow }

/-- A scalar written as a block. -/
def block (folded : Bool) (s : Scan) : Except Error Scan := do
  let s ← s.dropCandidate
  let (t, spot) ← blockScalar folded (max (s.indent + 1) 1).toNat s.spot.next
  return { s.emit (.scalar false t) with spot, keyAllowed := true }

/-- A scalar in quotes. -/
def quoted (double : Bool) (s : Scan) : Except Error Scan := do
  let (t, spot) ← quotedScalar double (s.spot.left + 1) [] s.spot.next
  s.emitAtom (.scalar false t) spot

/-- A plain scalar. -/
def plain (s : Scan) : Except Error Scan := do
  let saved ← s.saveCandidate
  let read := plainScalar s.inFlow (s.indent + 1).toNat (s.spot.left + 1) ⟨[], s.spot, false⟩ []
  let token := Token.scalar true read.reversed.reverse
  return { saved.emit token with spot := read.spot, keyAllowed := read.broken }

/-- The scan behind the next token, given its first character. -/
def token (c : Char) (s : Scan) : Except Error Scan := do
  let spot := s.spot
  if c = '%' ∧ spot.column = 0 then
    let s ← s.endBlocks
    let (token, spot) ← directive spot
    return { s.emit token with spot }
  if spot.column = 0 ∧ spot.atMark '-' then
    return { (← s.endBlocks).emit .documentStart with spot := spot.skip 3 }
  if spot.column = 0 ∧ spot.atMark '.' then
    return { (← s.endBlocks).emit .documentEnd with spot := spot.skip 3 }
  match c with
  | '[' => s.openBracket .flowSequenceStart
  | '{' => s.openBracket .flowMappingStart
  | ']' => s.closeBracket .flowSequenceEnd
  | '}' => s.closeBracket .flowMappingEnd
  | ',' =>
    let s ← s.dropCandidate
    return { s.emit .flowEntry with spot := spot.next, keyAllowed := true }
  | '*' => let (t, spot) ← anchorName spot; s.emitAtom (.reference t) spot
  | '&' => let (t, spot) ← anchorName spot; s.emitAtom (.anchor t) spot
  | '!' => let (t, spot) ← tag spot; s.emitAtom t spot
  | '\'' => s.quoted false
  | '"' => s.quoted true
  | c =>
    if c = '-' ∧ spot.atBlank 1 then s.blockEntry
    else if c = '?' ∧ (s.inFlow ∨ spot.atBlank 1) then s.markedKey
    else if c = ':' ∧ (s.inFlow ∨ spot.atBlank 1) then s.value
    else if c = '|' ∧ !s.inFlow then s.block false
    else if c = '>' ∧ !s.inFlow then s.block true
    else if s.startsPlain then s.plain
    else .error .malformed

/-- The scan behind the next token, and whether the text goes on there. -/
def advance (s : Scan) : Except Error (Scan × Bool) := do
  let s ← (toNextToken (s.spot.left + 1) s).dropStale
  let s := s.closeBlocks s.spot.column
  match s.spot.peek with
  | none => return (← (s.closeBlocks (-1)).dropCandidate, false)
  | some c => return (← s.token c, true)

/-- The scan of all that is left, up to the first fault. -/
def all : (fuel : Nat) → Scan → Scan × Option Error
  | 0, s => (s, some .malformed)
  | fuel + 1, s => match s.advance with
    | .error e => (s, some e)
    | .ok (s, false) => (s, none)
    | .ok (s, true) => all fuel s

end Scan

/-- The tokens of a text up to the first fault, and the fault. -/
def Token.ofText (t : Text) : List Token × Option Error :=
  if t.all isDocumentChar then
    let t := if t.head? = some '\uFEFF' then t.drop 1 else t
    let (s, fault) := Scan.all (t.length + 2) { spot := { rest := t } }
    (s.tokens.reverse, fault)
  else ([], some .malformed)

end ImportScan.Yaml
