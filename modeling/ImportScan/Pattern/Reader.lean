import ImportScan.Pattern.Mode
import ImportScan.Pattern.Search
import ImportScan.Text.Digit

/-!
# Reading written patterns

A written pattern is a text of signs: characters that stand for themselves, and characters with a
meaning, which a backslash takes away or gives. The reader goes through the signs once and builds
the pattern, whose parts are numbered by their opening parentheses. With each piece it keeps how
many characters the piece can match, since what is looked for behind a place must have one length.

The recursion is bounded by the number of signs: every step of a sequence and every descent into a
parenthesis takes one. Which characters have names is not told here: the reader is given it.
-/

namespace ImportScan.Pattern

/-- Why a text is not read as a pattern. -/
inductive ReadError where
  /-- It is not a pattern. -/
  | invalid
  /-- A repetition asks for more rounds than can be counted. -/
  | repetitionTooLarge
deriving DecidableEq, Repr

/-- A character of a written pattern, with the backslash before it if it has one. -/
inductive Sign where
  | plain (c : Char)
  | escaped (c : Char)
deriving DecidableEq, Repr

/-- The signs of a text; none if it ends in a backslash that stands alone. -/
def Sign.ofText? : Text → Option (List Sign)
  | [] => some []
  | ['\\'] => none
  | '\\' :: c :: rest => (Sign.ofText? rest).map (.escaped c :: ·)
  | c :: rest => (Sign.ofText? rest).map (.plain c :: ·)

/-- How many characters a piece can match: at least, and at most if there is a bound. -/
structure Width where
  least : Nat
  most : Option Nat
deriving DecidableEq, Repr

namespace Width

/-- A piece that matches a fixed number of characters. -/
def exactly (n : Nat) : Width := ⟨n, some n⟩

/-- One piece after another. -/
def add (a b : Width) : Width := ⟨a.least + b.least, do return (← a.most) + (← b.most)⟩

/-- One piece or another. -/
def join (a b : Width) : Width := ⟨min a.least b.least, do return max (← a.most) (← b.most)⟩

/-- A piece repeated. -/
def times (a : Width) (least : Nat) (most : Option Nat) : Width :=
  ⟨a.least * least,
    if a.most = some 0 ∨ most = some 0 then some 0 else do return (← a.most) * (← most)⟩

end Width

/-- What a piece is to a repetition sign behind it. -/
inductive PieceKind where
  | plain
  /-- A place, which cannot be repeated. -/
  | place
  /-- A repetition, which cannot be repeated again. -/
  | repeated
deriving DecidableEq, Repr

/-- A piece of a pattern as far as it is read. -/
structure Piece where
  pattern : Pattern Nat
  width : Width
  kind : PieceKind := .plain

/-- The pieces one after another, given the last first. -/
def Piece.ofReversed (pieces : List Piece) : Piece :=
  pieces.foldl (fun p q => ⟨.seq q.pattern p.pattern, q.width.add p.width, .plain⟩)
    ⟨.empty, .exactly 0, .plain⟩

/-- Where the reader stands. -/
structure ReaderState where
  /-- The signs not yet read. -/
  rest : List Sign
  /-- The number of parts opened. -/
  opened : Nat := 0
  /-- The parts with names. -/
  names : List (Text × Nat) := []
  /-- The parts that are closed, with their widths. -/
  closed : List (Nat × Width) := []
  /-- Within a look behind: the number of parts opened before it. -/
  fence : Option Nat := none
  /-- Parts that conditions ask for, opened or not. -/
  awaited : List Nat := []
  /-- The mode of the whole pattern. -/
  mode : Mode := {}
  /-- The character with a name, if there is one. -/
  characterNamed : Text → Option Char

/-- A step of the reader. -/
abbrev Reading := StateT ReaderState (Except ReadError)

namespace Reading

/-- The text is no pattern. -/
def fail {α : Type} : Reading α := throw .invalid

/-! ## Signs -/

/-- The next sign, left where it is. -/
def peek : Reading (Option Sign) := do return (← get).rest.head?

/-- The next sign. -/
def next : Reading (Option Sign) := do
  let s ← get
  match s.rest with
  | [] => return none
  | sign :: rest =>
    set { s with rest }
    return some sign

/-- Takes the sign `c` if it is next. -/
def accept (c : Char) : Reading Bool := do
  if (← peek) = some (.plain c) then
    let _ ← next
    return true
  return false

/-- Takes the sign `c`, which must be next. -/
def expect (c : Char) : Reading Unit := do
  unless ← accept c do fail

/-- Takes plain signs of a class, at most `limit` if there is a limit. -/
def takeWhile (p : Char → Bool) (limit : Option Nat := none) : Reading Text := do
  let s ← get
  let signs := s.rest.takeWhile fun sign => match sign with
    | .plain c => p c
    | .escaped _ => false
  let signs := match limit with
    | some n => signs.take n
    | none => signs
  set { s with rest := s.rest.drop signs.length }
  return signs.filterMap fun sign => match sign with
    | .plain c => some c
    | .escaped _ => none

/-- Skips signs up to and with the first that satisfies `p`; tells whether there is one. -/
def skipPast (p : Sign → Bool) : Reading Bool := do
  let s ← get
  match s.rest.dropWhile (!p ·) with
  | [] =>
    set { s with rest := [] }
    return false
  | _ :: rest =>
    set { s with rest }
    return true

/-! ## Numbers -/

/-- The number with exactly `count` hexadecimal digits. -/
def hexNumber (count : Nat) : Reading Nat := do
  let digits ← takeWhile Text.isHex (some count)
  if digits.length = count then return Text.number 16 digits
  fail

/-! ## Escapes -/

/-- The control character that a letter names behind a backslash. -/
def control? : Char → Option Nat
  | 'a' => some 7
  | 'f' => some 12
  | 'n' => some 10
  | 'r' => some 13
  | 't' => some 9
  | 'v' => some 11
  | '\\' => some 0x5C
  | _ => none

/-- Whether `c` is a letter of the basic alphabet. -/
def isAsciiLetter (c : Char) : Bool := ('a' ≤ c && c ≤ 'z') || ('A' ≤ c && c ≤ 'Z')

/-- The name before the sign `stop`. -/
def groupName (stop : Char) : Reading Text := do
  let name ← takeWhile (· != stop)
  expect stop
  return name

/-- The code point that `c` spells behind a backslash, by its number or by its name in braces, if it
does so. -/
def spelled? (c : Char) : Reading (Option Nat) := match c with
  | 'x' => do return some (← hexNumber 2)
  | 'u' => do return some (← hexNumber 4)
  | 'U' => do
    let n ← hexNumber 8
    if n ≤ 0x10FFFF then return some n
    fail
  | 'N' => do
    expect '{'
    let name ← groupName '}'
    if name.isEmpty then fail
    match (← get).characterNamed name with
    | some c => return some c.toNat
    | none => fail
  | _ => return none

/-- The character that `c` stands for behind a backslash, if it has no other meaning there. -/
def literal (c : Char) : Reading Nat := do
  if isAsciiLetter c then fail
  return c.toNat

/-- The piece for one code point. -/
def onePiece (m : Mode) (items : List ClassItem) (negated : Bool := false) : Piece :=
  ⟨m.oneOf negated items, .exactly 1, .plain⟩

/-- The piece that refers back to a part. The part must be closed, and not belong to the look behind
that the reference stands in. -/
def backReference (m : Mode) (i : Nat) : Reading Piece := do
  let s ← get
  match s.closed.lookup i with
  | none => fail
  | some width =>
    if s.fence.any (· < i) then fail
    return ⟨.again i m.same, width, .plain⟩

/-- What `c` means behind a backslash, outside a class. -/
def escape (m : Mode) (c : Char) : Reading Piece := do
  if let some place := m.place? c then return ⟨place, .exactly 0, .place⟩
  if let some p := m.class? c then return onePiece m [.chars p]
  if let some n := control? c then return onePiece m [.code n]
  if let some n ← spelled? c then return onePiece m [.code n]
  if c = '0' then
    return onePiece m [.code (Text.number 8 (← takeWhile Text.isOctal (some 2)))]
  if Text.isDecimal c then
    let second ← takeWhile Text.isDecimal (some 1)
    if Text.isOctal c && second.all Text.isOctal && !second.isEmpty then
      let third ← takeWhile Text.isOctal (some 1)
      if !third.isEmpty then
        let n := Text.number 8 (c :: second ++ third)
        if 0o377 < n then fail
        return onePiece m [.code n]
    backReference m (Text.number 10 (c :: second))
  else return onePiece m [.code (← literal c)]

/-! ## Classes -/

/-- What `c` means behind a backslash, inside a class. -/
def classEscape (m : Mode) (c : Char) : Reading ClassItem := do
  if c = 'b' then return .code 8
  if let some n := control? c then return .code n
  if let some p := m.class? c then return .chars p
  if let some n ← spelled? c then return .code n
  if Text.isOctal c then
    let n := Text.number 8 (c :: (← takeWhile Text.isOctal (some 2)))
    if 0o377 < n then fail
    return .code n
  if Text.isDecimal c then fail
  return .code (← literal c)

/-- The member that a sign starts. -/
def classItem (m : Mode) : Sign → Reading ClassItem
  | .plain c => return .code c.toNat
  | .escaped c => classEscape m c

/-- The members of a class up to its closing bracket, behind those already read. A bracket right at
the start is a member. -/
def classItems (m : Mode) : (fuel : Nat) → List ClassItem → Reading (List ClassItem)
  | 0, _ => fail
  | fuel + 1, items => do
    match ← next with
    | none => fail
    | some sign =>
      if sign = .plain ']' ∧ !items.isEmpty then return items
      let first ← classItem m sign
      if ← accept '-' then
        match ← next with
        | none => fail
        | some (.plain ']') => return .code '-'.toNat :: first :: items
        | some sign =>
          let last ← classItem m sign
          match first, last with
          | .code lo, .code hi =>
            if hi < lo then fail
            classItems m fuel (.range lo hi :: items)
          | _, _ => fail
      else classItems m fuel (first :: items)

/-! ## Repetitions -/

/-- The largest count of a repetition, and one more. -/
def countLimit : Nat := 4294967295

/-- The counts in braces, given what follows the opening one; none if that stands for itself. -/
def counts? : Reading (Option (Nat × Option Nat)) := do
  let before ← get
  if (← peek) = some (.plain '}') then return none
  let lo ← takeWhile Text.isDecimal
  let hi ← if ← accept ',' then takeWhile Text.isDecimal else pure lo
  if !(← accept '}') then
    set before
    return none
  let least := Text.number 10 lo
  let most := if hi.isEmpty then none else some (Text.number 10 hi)
  if countLimit ≤ least || most.any (countLimit ≤ ·) then throw .repetitionTooLarge
  if most.any (· < least) then fail
  return some (least, most)

/-- The piece repeated, in the way that the signs behind the counts say. -/
def repeated (piece : Piece) (least : Nat) (most : Option Nat) : Reading Piece := do
  if piece.kind ≠ .plain then fail
  let width := piece.width.times least most
  if ← accept '?' then return ⟨.many false piece.pattern least most, width, .repeated⟩
  if ← accept '+' then return ⟨.once (.many true piece.pattern least most), width, .repeated⟩
  return ⟨.many true piece.pattern least most, width, .repeated⟩

/-! ## Groups -/

/-- Whether a name may start with `c`. -/
def isNameStart (c : Char) : Bool := Text.isWord c && !Text.isDigit c

/-- Whether the text may name a part. -/
def isName (name : Text) : Bool := name.all Text.isWord && name.head?.any isNameStart

/-- The number of the part with a name. -/
def named (name : Text) : Reading Nat := do
  match (← get).names.lookup name with
  | some i => return i
  | none => fail

/-- Opens a part, and hands back its number. -/
def openPart (name : Option Text) : Reading Nat := do
  let s ← get
  let i := s.opened + 1
  let names ← match name with
    | none => pure s.names
    | some n => if (s.names.lookup n).isSome then fail else pure ((n, i) :: s.names)
  set { s with opened := i, names }
  return i

/-- The part that a condition asks for. -/
def conditionPart : Reading Nat := do
  let name ← groupName ')'
  let s ← get
  let i ← if isName name then named name
    else if !name.isEmpty && name.all Text.isDecimal && Text.number 10 name ≠ 0 then
      pure (Text.number 10 name)
    else fail
  set { s with awaited := i :: s.awaited }
  if s.fence.isSome && ((s.closed.lookup i).isNone || s.fence.any (· < i)) then fail
  return i

/-- The options switched on and off before a sign of `stops`, and that sign. -/
def switches (c : Char) : Reading (Text × Text × Char) := do
  let isSwitch (c : Char) : Bool := "imsxatu".toList.contains c
  let on ← if c = '-' then pure [] else do pure (c :: (← takeWhile isSwitch))
  if on.contains 'a' && on.contains 'u' then fail
  let stop ← if c = '-' then pure (some (.plain '-')) else next
  match stop with
  | some (.plain ')') => return (on, [], ')')
  | some (.plain ':') => return (on, [], ':')
  | some (.plain '-') =>
    let off ← takeWhile isSwitch
    expect ':'
    if off.isEmpty then fail
    return (on, off, ':')
  | _ => fail

/-- The mode inside a group with switches. -/
def switched (m : Mode) (on off : Text) : Reading Mode := do
  if off.any ("aut".toList.contains ·) || on.contains 't' || on.any (off.contains ·) then fail
  let m ← on.foldlM (fun m c => match m.switch? true c with
    | some m => pure m
    | none => fail) m
  off.foldlM (fun m c => match m.switch? false c with
    | some m => pure m
    | none => fail) m

/-- The piece that looks for `piece` ahead or behind. -/
def looking (backward wanted : Bool) (piece : Piece) : Reading Piece := do
  if backward then
    if piece.width.most ≠ some piece.width.least then fail
    return ⟨.behind wanted piece.width.least piece.pattern, .exactly 0, .plain⟩
  return ⟨.ahead wanted piece.pattern, .exactly 0, .plain⟩

/-- What a sign of a sequence turned out to be. -/
inductive Step where
  /-- A piece behind the others. -/
  | piece (p : Piece)
  /-- Something that matches nothing, such as a remark. -/
  | nothing
  /-- Switches for the whole pattern. -/
  | mode (m : Mode)

/-! ## Sequences and alternatives -/

/-- How to read the alternatives inside a parenthesis, and the sequences of a condition, in a given
mode. -/
structure Inside where
  alternatives : Mode → Reading Piece
  sequence : Mode → Reading Piece

/-- A parenthesis with contents, as the part `name` if it is one. -/
def group (inside : Inside) (m : Mode) (isPart : Bool) (name : Option Text) (once : Bool) :
    Reading Step := do
  let i ← if isPart then openPart name else pure 0
  let piece ← inside.alternatives m
  expect ')'
  if isPart then
    modify fun s => { s with closed := (i, piece.width) :: s.closed }
    return .piece ⟨.part i piece.pattern, piece.width, .plain⟩
  return .piece ⟨if once then .once piece.pattern else piece.pattern, piece.width, .plain⟩

/-- A look ahead or behind. -/
def lookGroup (inside : Inside) (m : Mode) (backward wanted : Bool) : Reading Step := do
  let fence := (← get).fence
  if backward then modify fun s => { s with fence := s.fence <|> some s.opened }
  let piece ← inside.alternatives m
  modify fun s => { s with fence }
  expect ')'
  return .piece (← looking backward wanted piece)

/-- A condition with one or two sequences. -/
def conditionGroup (inside : Inside) (m : Mode) : Reading Step := do
  let i ← conditionPart
  let yes ← inside.sequence m
  let no ← if ← accept '|' then inside.sequence m else pure ⟨.empty, .exactly 0, .plain⟩
  expect ')'
  return .piece ⟨.given i yes.pattern no.pattern, yes.width.join no.width, .plain⟩

/-- What an opening parenthesis starts. `atStart` tells whether the pattern has no pieces yet. -/
def parenthesis (inside : Inside) (m : Mode) (atStart : Bool) : Reading Step := do
  if !(← accept '?') then return ← group inside m true none false
  match ← next with
  | some (.plain 'P') =>
    if ← accept '<' then
      let name ← groupName '>'
      if isName name then group inside m true (some name) false else fail
    else
      expect '='
      let name ← groupName ')'
      if isName name then return .piece (← backReference m (← named name)) else fail
  | some (.plain ':') => group inside m false none false
  | some (.plain '>') => group inside m false none true
  | some (.plain '#') => if ← skipPast (· = .plain ')') then return .nothing else fail
  | some (.plain '=') => lookGroup inside m false true
  | some (.plain '!') => lookGroup inside m false false
  | some (.plain '<') => match ← next with
    | some (.plain '=') => lookGroup inside m true true
    | some (.plain '!') => lookGroup inside m true false
    | _ => fail
  | some (.plain '(') => conditionGroup inside m
  | some (.plain c) =>
    if !("imsxatu-".toList.contains c) then fail
    match ← switches c with
    | (on, _, ')') =>
      if !atStart then fail
      let m ← on.foldlM (fun m c => match m.switch? true c with
        | some m => pure m
        | none => fail) m
      return .mode m
    | (on, off, _) => group inside (← switched m on off) false none false
  | _ => fail

/-- What a sign of a sequence means, given the pieces before it, the last first. -/
def step (inside : Inside) (m : Mode) (atStart : Bool) : Sign → Reading Step
  | .escaped c => do return .piece (← escape m c)
  | .plain '[' => do
    let negated ← accept '^'
    let items ← classItems m ((← get).rest.length + 1) []
    return .piece (onePiece m items negated)
  | .plain '.' => return .piece ⟨m.anyOne, .exactly 1, .plain⟩
  | .plain '^' => return .piece ⟨m.start, .exactly 0, .place⟩
  | .plain '$' => return .piece ⟨m.stop, .exactly 0, .place⟩
  | .plain '(' => parenthesis inside m atStart
  | .plain c => return .piece (onePiece m [.code c.toNat])

/-- The counts of a repetition sign; none if the sign is no such sign. -/
def repetition? : Sign → Reading (Option (Nat × Option Nat))
  | .plain '*' => return some (0, none)
  | .plain '+' => return some (1, none)
  | .plain '?' => return some (0, some 1)
  | .plain '{' => counts?
  | _ => return none

/-- Whether a character is layout in a pattern that may be laid out. -/
def isLayout (c : Char) : Bool := c == ' ' || (0x09 ≤ c.toNat && c.toNat ≤ 0x0D)

/-- Whether a sign ends a sequence. -/
def endsSequence (sign : Sign) : Bool := sign = .plain '|' || sign = .plain ')'

mutual

/-- The pieces of a sequence, behind those already read, the last first. `first` tells whether the
whole pattern starts here. -/
def sequence : (fuel : Nat) → (first : Bool) → Mode → List Piece → Reading Piece
  | 0, _, _, _ => fail
  | fuel + 1, first, m, pieces => do
    match ← peek with
    | none => return .ofReversed pieces
    | some sign =>
      if endsSequence sign then return .ofReversed pieces
      let _ ← next
      if m.layout then
        if let .plain c := sign then
          if isLayout c then return ← sequence fuel first m pieces
          if c = '#' then
            let _ ← skipPast (· = .plain '\n')
            return ← sequence fuel first m pieces
      match ← repetition? sign with
      | some (least, most) => match pieces with
        | [] => fail
        | piece :: pieces =>
          sequence fuel first m ((← repeated piece least most) :: pieces)
      | none =>
        let inside : Inside := ⟨alternatives fuel false, fun m => sequence fuel false m []⟩
        match ← step inside m (first && pieces.isEmpty) sign with
        | .piece p => sequence fuel first m (p :: pieces)
        | .nothing => sequence fuel first m pieces
        | .mode m =>
          modify fun s => { s with mode := m }
          sequence fuel first m pieces

/-- Sequences with bars between them. `top` tells whether the whole pattern starts here. -/
def alternatives : (fuel : Nat) → (top : Bool) → Mode → Reading Piece
  | 0, _, _ => fail
  | fuel + 1, top, m => do
    let one ← sequence fuel top m []
    if ← accept '|' then
      let whole := (← get).mode
      let others ← alternatives fuel false (if top then whole else m)
      return ⟨.alt one.pattern others.pattern, one.width.join others.width, .plain⟩
    return one

end

end Reading

/-- The pattern that a text writes, in a mode that the text may change at its start. -/
def read (characterNamed : Text → Option Char) (mode : Mode) (t : Text) :
    Except ReadError (Pattern Nat) :=
  match Sign.ofText? t with
  | none => .error .invalid
  | some signs => do
    let (piece, s) ←
      (Reading.alternatives (2 * signs.length + 2) true mode).run
        { rest := signs, mode, characterNamed }
    if !s.rest.isEmpty || s.awaited.any (s.opened < ·) then .error .invalid
    else .ok piece.pattern

end ImportScan.Pattern
