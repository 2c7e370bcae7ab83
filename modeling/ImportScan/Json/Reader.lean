import ImportScan.Json.Basic
import ImportScan.Text.Digit

/-!
# Reading JSON

The reader goes through the text once, from left to right, and stops at the first fault. Each step
takes what it reads off the front of the text and hands back the rest. White space is the space, the
tab, the line feed and the carriage return. Beyond the grammar, `NaN`, `Infinity` and `-Infinity`
are numbers. How many arrays and objects may be open at once hangs on the host.
-/

namespace ImportScan.Json

/-- The most digits of an integer that is converted. -/
def maxIntegerDigits : Nat := 4300

/-! ## Characters -/

/-- White space between tokens. -/
def isSpace (c : Char) : Bool := c == ' ' || c == '\t' || c == '\n' || c == '\r'

/-- The text without leading white space. -/
def skipSpace (t : Text) : Text := t.dropWhile isSpace

/-- The code unit spelled by four hexadecimal digits, and the rest. -/
def codeUnit? (t : Text) : Option (Nat × Text) :=
  (Text.hexNumber? 4 t).map fun n => (n, t.drop 4)

/-- Whether a code unit is the first half of a pair. -/
def isHighSurrogate (n : Nat) : Bool := 0xD800 ≤ n && n ≤ 0xDBFF

/-- Whether a code unit is the second half of a pair. -/
def isLowSurrogate (n : Nat) : Bool := 0xDC00 ≤ n && n ≤ 0xDFFF

/-- The code point of a code unit on its own. -/
def ofUnit (n : Nat) : CodePoint :=
  if isHighSurrogate n || isLowSurrogate n then .surrogate n else .char (Char.ofNat n)

/-- The code point that a `\u` escape spells, given what follows its `u`, and the rest. A high
surrogate takes a low one behind it along. -/
def unicodeEscape? (t : Text) : Option (CodePoint × Text) := do
  let (n, rest) ← codeUnit? t
  if isHighSurrogate n then
    match rest with
    | '\\' :: 'u' :: rest' =>
      let (m, rest'') ← codeUnit? rest'
      if isLowSurrogate m then
        some (.char (Char.ofNat (0x10000 + (n - 0xD800) * 0x400 + (m - 0xDC00))), rest'')
      else some (ofUnit n, rest)
    | _ => some (ofUnit n, rest)
  else some (ofUnit n, rest)

theorem length_of_codeUnit? {t rest : Text} {n : Nat} (h : codeUnit? t = some (n, rest)) :
    rest.length ≤ t.length := by
  obtain ⟨_, _, e⟩ := Option.map_eq_some_iff.1 h
  cases e
  simp

/-- An escape is taken off the front of the text. -/
theorem length_of_unicodeEscape? {t rest : Text} {c : CodePoint}
    (h : unicodeEscape? t = some (c, rest)) : rest.length ≤ t.length := by
  unfold unicodeEscape? at h
  obtain ⟨⟨n, r⟩, hr, h⟩ := Option.bind_eq_some_iff.1 h
  have hle := length_of_codeUnit? hr
  dsimp only at h
  split at h
  · split at h
    · obtain ⟨⟨m, r''⟩, hr'', h⟩ := Option.bind_eq_some_iff.1 h
      have hle' := length_of_codeUnit? hr''
      simp only [List.length_cons] at hle
      dsimp only at h
      split at h <;> simp only [Option.some.injEq, Prod.mk.injEq] at h <;>
        obtain ⟨_, rfl⟩ := h
      · omega
      · simpa using hle
    · simp only [Option.some.injEq, Prod.mk.injEq] at h
      exact h.2 ▸ hle
  · simp only [Option.some.injEq, Prod.mk.injEq] at h
    exact h.2 ▸ hle

/-- The character that an escape other than `\u` spells. -/
def simpleEscape? : Char → Option Char
  | '"' => some '"'
  | '\\' => some '\\'
  | '/' => some '/'
  | 'b' => some '\x08'
  | 'f' => some '\x0c'
  | 'n' => some '\n'
  | 'r' => some '\r'
  | 't' => some '\t'
  | _ => none

/-! ## Strings and numbers -/

/-- The string up to its closing quote, behind the code points already read, last first, and the
rest. -/
def readString (read : Str) (t : Text) : Except JsonError (Str × Text) :=
  match _h : t with
  | [] => .error .malformed
  | '"' :: rest => .ok (read.reverse, rest)
  | '\\' :: 'u' :: rest => match _e : unicodeEscape? rest with
    | some (c, rest) => readString (c :: read) rest
    | none => .error .malformed
  | '\\' :: c :: rest => match simpleEscape? c with
    | some c => readString (.char c :: read) rest
    | none => .error .malformed
  | c :: rest =>
    if c.toNat < 0x20 ∨ c = '\\' then .error .malformed else readString (.char c :: read) rest
termination_by t.length
decreasing_by
  · have := length_of_unicodeEscape? _e
    simp only [List.length_cons]
    omega
  · simp only [List.length_cons]
    omega
  · simp

/-- The fraction at the start of the text, and the rest. -/
def fraction (t : Text) : Text × Text := match t with
  | '.' :: rest =>
    let digits := rest.takeWhile Text.isDecimal
    if digits.isEmpty then ([], t) else ('.' :: digits, rest.dropWhile Text.isDecimal)
  | _ => ([], t)

/-- The exponent at the start of the text, and the rest. -/
def exponent (t : Text) : Text × Text := match t with
  | [] => ([], t)
  | e :: rest =>
    if e = 'e' ∨ e = 'E' then
      let (sign, digits) : Text × Text := match rest with
        | '+' :: r => (['+'], r)
        | '-' :: r => (['-'], r)
        | r => ([], r)
      if (digits.takeWhile Text.isDecimal).isEmpty then ([], t)
      else (e :: sign ++ digits.takeWhile Text.isDecimal, digits.dropWhile Text.isDecimal)
    else ([], t)

/-- The number at the start of the text, given the sign before it. -/
def readNumber (sign : Text) (t : Text) : Except JsonError (Json × Text) :=
  let whole : Text := match t with
    | '0' :: _ => ['0']
    | t => t.takeWhile Text.isDecimal
  if whole.isEmpty then .error .malformed
  else
    let (frac, rest) := fraction (t.drop whole.length)
    let (expo, rest) := exponent rest
    if frac.isEmpty && expo.isEmpty && maxIntegerDigits < whole.length then .error .integerTooLong
    else .ok (.number (sign ++ whole ++ frac ++ expo), rest)

/-- The rest of the text behind a word that it starts with. -/
def dropWord? (w : String) (t : Text) : Option Text :=
  if w.toList.isPrefixOf t then some (t.drop w.toList.length) else none

/-- The literal or number at the start of the text. -/
def readScalar (t : Text) : Except JsonError (Json × Text) :=
  match dropWord? "null" t with
  | some rest => .ok (.null, rest)
  | none => match dropWord? "true" t with
    | some rest => .ok (.bool true, rest)
    | none => match dropWord? "false" t with
      | some rest => .ok (.bool false, rest)
      | none => match ["NaN", "Infinity", "-Infinity"].find? (·.toList.isPrefixOf t) with
        | some w => .ok (.number w.toList, t.drop w.toList.length)
        | none => match t with
          | '-' :: rest => readNumber ['-'] rest
          | _ => readNumber [] t

/-! ## Arrays and objects -/

/-- The items of an array from the next one on, behind those already read, last first. -/
def readItems (value : Text → Except JsonError (Json × Text)) :
    (fuel : Nat) → (read : List Json) → Text → Except JsonError (Json × Text)
  | 0, _, _ => .error .malformed
  | fuel + 1, read, t => do
    let (v, rest) ← value t
    match skipSpace rest with
    | ']' :: rest => .ok (.array (v :: read).reverse, rest)
    | ',' :: rest => readItems value fuel (v :: read) (skipSpace rest)
    | _ => .error .malformed

/-- The members of an object from the next one on, behind those already bound. -/
def readMembers (value : Text → Except JsonError (Json × Text)) :
    (fuel : Nat) → (bound : List (Str × Json)) → Text → Except JsonError (Json × Text)
  | 0, _, _ => .error .malformed
  | fuel + 1, bound, t => match t with
    | '"' :: t => do
      let (key, rest) ← readString [] t
      match skipSpace rest with
      | ':' :: rest =>
        let (v, rest) ← value (skipSpace rest)
        match skipSpace rest with
        | '}' :: rest => .ok (.object (bind key v bound), rest)
        | ',' :: rest => readMembers value fuel (bind key v bound) (skipSpace rest)
        | _ => .error .malformed
      | _ => .error .malformed
    | _ => .error .malformed

/-- The value at the start of the text when `room` more arrays and objects may be opened, none of
them with more than `most` members, and the rest. -/
def readValue (most : Nat) : (room : Nat) → Text → Except JsonError (Json × Text)
  | _, '"' :: rest => (readString [] rest).map fun r => (.string r.1, r.2)
  | 0, '[' :: _ => .error .nestingTooDeep
  | 0, '{' :: _ => .error .nestingTooDeep
  | room + 1, '[' :: rest => match skipSpace rest with
    | ']' :: rest => .ok (.array [], rest)
    | t => readItems (readValue most room) most [] t
  | room + 1, '{' :: rest => match skipSpace rest with
    | '}' :: rest => .ok (.object [], rest)
    | t => readMembers (readValue most room) most [] t
  | _, t => readScalar t

/-- The value of a whole text in which `room` arrays and objects may be open at once. None of them
has more members than the text has characters. -/
def read (room : Nat) (t : Text) : Except JsonError Json := do
  let (v, rest) ← readValue t.length room (skipSpace t)
  if (skipSpace rest).isEmpty then .ok v else .error .malformed

end ImportScan.Json
