import ImportScan.Json.Reader

/-!
# JSON as it is written

A written value carries all that a text may choose: the white space around every mark, the form in
which each character of a string is spelled, and the digits of a number. `text` is the text, and
`tree` the value that it stands for, in which an object lists all its members, also those whose keys
come again. `fault?` is the first limit of reading that the value is beyond; there is none if arrays
and objects are not nested too deep and no integer is too long (`Written.fault?_eq_none_iff`).
-/

namespace ImportScan.Json

/-- White space between tokens. -/
abbrev Layout := { t : Text // ∀ c ∈ t, isSpace c = true }

/-- No white space. -/
def Layout.nothing : Layout := ⟨[], by simp⟩

/-! ## Strings -/

/-- A hexadecimal digit; one above nine may be a capital letter. -/
structure HexDigit where
  value : Fin 16
  capital : Bool
deriving DecidableEq, Repr

/-- The digit as it is written. -/
def HexDigit.char (d : HexDigit) : Char :=
  if d.value < 10 then Char.ofNat (0x30 + d.value)
  else Char.ofNat ((if d.capital then 0x41 else 0x61) + (d.value - 10))

/-- The digit of a number below sixteen. -/
def HexDigit.ofNat (n : Nat) (capital : Bool) : HexDigit := ⟨Fin.ofNat 16 n, capital⟩

/-- The four digits of a code unit. -/
structure UnitDigits where
  first : HexDigit
  second : HexDigit
  third : HexDigit
  fourth : HexDigit
deriving DecidableEq, Repr

namespace UnitDigits

/-- Four digits without capital letters. -/
def small (a b c d : Nat) : UnitDigits :=
  ⟨.ofNat a false, .ofNat b false, .ofNat c false, .ofNat d false⟩

variable (u : UnitDigits)

/-- The digits as they are written. -/
def text : Text := [u.first.char, u.second.char, u.third.char, u.fourth.char]

/-- The number that the digits spell. -/
def value : Nat :=
  0x1000 * u.first.value + 0x100 * u.second.value + 0x10 * u.third.value + u.fourth.value

end UnitDigits

/-- The escapes of one letter. -/
inductive ShortEscape where
  | quote
  | backslash
  | slash
  | backspace
  | formFeed
  | lineFeed
  | carriageReturn
  | tab
deriving DecidableEq, Repr

namespace ShortEscape

/-- What stands behind the backslash. -/
def letter : ShortEscape → Char
  | quote => '"'
  | backslash => '\\'
  | slash => '/'
  | backspace => 'b'
  | formFeed => 'f'
  | lineFeed => 'n'
  | carriageReturn => 'r'
  | tab => 't'

/-- What the escape stands for. -/
def char : ShortEscape → Char
  | quote => '"'
  | backslash => '\\'
  | slash => '/'
  | backspace => Char.ofNat 0x08
  | formFeed => Char.ofNat 0x0c
  | lineFeed => Char.ofNat 0x0a
  | carriageReturn => Char.ofNat 0x0d
  | tab => Char.ofNat 0x09

end ShortEscape

/-- A character of a string, in one of the forms in which it may be spelled. -/
inductive Letter where
  | plain (c : Char) (h : 0x20 ≤ c.toNat ∧ c ≠ '"' ∧ c ≠ '\\')
  | short (e : ShortEscape)
  /-- The code unit of a character that has one. -/
  | unit (u : UnitDigits) (h : u.value < 0xD800 ∨ 0xE000 ≤ u.value)
  /-- The two surrogates of a character that has no code unit of its own. -/
  | pair (high low : UnitDigits) (hhigh : 0xD800 ≤ high.value ∧ high.value < 0xDC00)
      (hlow : 0xDC00 ≤ low.value ∧ low.value < 0xE000)

namespace Letter

/-- The spelling of the character. -/
def text : Letter → Text
  | plain c _ => [c]
  | short e => ['\\', e.letter]
  | unit u _ => '\\' :: 'u' :: u.text
  | pair high low _ _ => '\\' :: 'u' :: (high.text ++ '\\' :: 'u' :: low.text)

/-- The character that is spelled. -/
def char : Letter → Char
  | plain c _ => c
  | short e => e.char
  | unit u _ => Char.ofNat u.value
  | pair high low _ _ =>
    Char.ofNat (0x10000 + 0x400 * (high.value - 0xD800) + (low.value - 0xDC00))

end Letter

/-- The characters of a string, each in one of its spellings. -/
abbrev Letters := List Letter

namespace Letters

variable (ls : Letters)

/-- What stands between the quotes. -/
def body : Text := ls.flatMap Letter.text

/-- The string in its quotes. -/
def text : Text := '"' :: (ls.body ++ ['"'])

/-- What the letters stand for. -/
def chars : Str := ls.map fun l => .char l.char

/-- Characters that need no escape, each spelled as itself. -/
def plain (t : Text) (h : ∀ c ∈ t, 0x20 ≤ c.toNat ∧ c ≠ '"' ∧ c ≠ '\\') : Letters :=
  t.pmap Letter.plain h

end Letters

/-! ## Numbers -/

/-- Decimal digits, at least one. -/
abbrev Digits := { t : Text // t ≠ [] ∧ ∀ c ∈ t, Text.isDecimal c = true }

/-- The power of ten behind a number. -/
structure Exponent where
  mark : { c : Char // c = 'e' ∨ c = 'E' }
  sign : { t : Text // t = [] ∨ t = ['+'] ∨ t = ['-'] }
  digits : Digits

/-- A number; it starts with the digit zero only if this is all of its integral part. -/
structure Number where
  negative : Bool
  whole : Digits
  leading : whole.val.head? = some '0' → whole.val = ['0']
  fraction : Option Digits
  exponent : Option Exponent

/-- The exponent as it is written. -/
def Exponent.text (e : Exponent) : Text := e.mark.val :: (e.sign.val ++ e.digits.val)

namespace Number

variable (n : Number)

/-- The sign of a negative number. -/
def signText : Text := if n.negative then ['-'] else []

/-- The fraction behind its point; nothing if there is none. -/
def fractionText : Text := (n.fraction.map fun t => '.' :: t.val).getD []

/-- The exponent; nothing if there is none. -/
def exponentText : Text := (n.exponent.map Exponent.text).getD []

/-- The number without its sign. -/
def size : Text := n.whole.val ++ (n.fractionText ++ n.exponentText)

/-- The number as it is written. -/
def text : Text := n.signText ++ n.size

/-- Whether the number is an integer with more digits than are converted. -/
def isLong : Bool :=
  n.fraction.isNone && n.exponent.isNone && maxIntegerDigits < n.whole.val.length

end Number

/-! ## Values -/

/-- A key with its colon and the white space around both. -/
structure Key where
  before : Layout
  letters : Letters
  between : Layout
  after : Layout

/-- The key as it is written, with its colon. -/
def Key.text (k : Key) : Text :=
  k.before.val ++ (k.letters.text ++ (k.between.val ++ ':' :: k.after.val))

/-- The key itself. -/
def Key.name (k : Key) : Str := k.letters.chars

/-- A key without white space. -/
def Key.bare (letters : Letters) : Key := ⟨.nothing, letters, .nothing, .nothing⟩

mutual

/-- A value as it is written. -/
inductive Written where
  | null
  | bool (b : Bool)
  | number (n : Number)
  | string (ls : Letters)
  | emptyArray (gap : Layout)
  | array (items : Items)
  | emptyObject (gap : Layout)
  | object (members : Members)

/-- What stands in the brackets of an array. -/
inductive Items where
  | last (before : Layout) (value : Written) (after : Layout)
  | more (before : Layout) (value : Written) (after : Layout) (others : Items)

/-- What stands in the braces of an object. -/
inductive Members where
  | last (key : Key) (value : Written) (after : Layout)
  | more (key : Key) (value : Written) (after : Layout) (others : Members)

end

mutual

/-- The value as it is written. -/
def Written.text : Written → Text
  | .null => "null".toList
  | .bool true => "true".toList
  | .bool false => "false".toList
  | .number n => n.text
  | .string ls => ls.text
  | .emptyArray gap => '[' :: (gap.val ++ [']'])
  | .array items => '[' :: (items.text ++ [']'])
  | .emptyObject gap => '{' :: (gap.val ++ ['}'])
  | .object members => '{' :: (members.text ++ ['}'])

/-- The items with the commas between them. -/
def Items.text : Items → Text
  | .last before value after => before.val ++ (value.text ++ after.val)
  | .more before value after others =>
    before.val ++ (value.text ++ (after.val ++ ',' :: others.text))

/-- The members with the commas between them. -/
def Members.text : Members → Text
  | .last key value after => key.text ++ (value.text ++ after.val)
  | .more key value after others => key.text ++ (value.text ++ (after.val ++ ',' :: others.text))

end

mutual

/-- The value that is written. -/
def Written.tree : Written → Json
  | .null => .null
  | .bool b => .bool b
  | .number n => .number n.text
  | .string ls => .string ls.chars
  | .emptyArray _ => .array []
  | .array items => .array items.trees
  | .emptyObject _ => .object []
  | .object members => .object members.trees

/-- All items, in order. -/
def Items.trees : Items → List Json
  | .last _ value _ => [value.tree]
  | .more _ value _ others => value.tree :: others.trees

/-- All members, each with its key. -/
def Members.trees : Members → List (Str × Json)
  | .last key value _ => [(key.name, value.tree)]
  | .more key value _ others => (key.name, value.tree) :: others.trees

end

mutual

/-- The first limit of reading that the value is beyond, when `room` arrays and objects may be open
at once. -/
def Written.fault? : (room : Nat) → Written → Option JsonError
  | _, .null | _, .bool _ | _, .string _ => none
  | _, .number n => if n.isLong then some .integerTooLong else none
  | 0, .emptyArray _ | 0, .array _ | 0, .emptyObject _ | 0, .object _ => some .nestingTooDeep
  | _ + 1, .emptyArray _ | _ + 1, .emptyObject _ => none
  | room + 1, .array items => items.fault? room
  | room + 1, .object members => members.fault? room

/-- The first limit that an item is beyond. -/
def Items.fault? : (room : Nat) → Items → Option JsonError
  | room, .last _ value _ => value.fault? room
  | room, .more _ value _ others => value.fault? room <|> others.fault? room

/-- The first limit that the value of a member is beyond. -/
def Members.fault? : (room : Nat) → Members → Option JsonError
  | room, .last _ value _ => value.fault? room
  | room, .more _ value _ others => value.fault? room <|> others.fault? room

end

mutual

/-- How many arrays and objects are open at once. -/
def Written.nesting : Written → Nat
  | .null | .bool _ | .number _ | .string _ => 0
  | .emptyArray _ | .emptyObject _ => 1
  | .array items => items.nesting + 1
  | .object members => members.nesting + 1

/-- The most arrays and objects that are open at once in an item. -/
def Items.nesting : Items → Nat
  | .last _ value _ => value.nesting
  | .more _ value _ others => max value.nesting others.nesting

/-- The most arrays and objects that are open at once in the value of a member. -/
def Members.nesting : Members → Nat
  | .last _ value _ => value.nesting
  | .more _ value _ others => max value.nesting others.nesting

end

mutual

/-- Whether no integer has more digits than are converted. -/
def Written.hasShortIntegers : Written → Bool
  | .number n => !n.isLong
  | .null | .bool _ | .string _ | .emptyArray _ | .emptyObject _ => true
  | .array items => items.hasShortIntegers
  | .object members => members.hasShortIntegers

/-- Whether no item has a longer integer. -/
def Items.hasShortIntegers : Items → Bool
  | .last _ value _ => value.hasShortIntegers
  | .more _ value _ others => value.hasShortIntegers && others.hasShortIntegers

/-- Whether the value of no member has a longer integer. -/
def Members.hasShortIntegers : Members → Bool
  | .last _ value _ => value.hasShortIntegers
  | .more _ value _ others => value.hasShortIntegers && others.hasShortIntegers

end

mutual

theorem Written.fault?_eq_none_iff (w : Written) (room : Nat) :
    w.fault? room = none ↔ w.nesting ≤ room ∧ w.hasShortIntegers = true := by
  cases w with
  | null | bool | string => simp [Written.fault?, Written.nesting, Written.hasShortIntegers]
  | number n => simp [Written.fault?, Written.nesting, Written.hasShortIntegers]
  | emptyArray | emptyObject =>
    cases room <;> simp [Written.fault?, Written.nesting, Written.hasShortIntegers]
  | array items =>
    cases room with
    | zero => simp [Written.fault?, Written.nesting]
    | succ room =>
      rw [Written.fault?, items.fault?_eq_none_iff, Written.nesting, Nat.add_le_add_iff_right,
        Written.hasShortIntegers]
  | object members =>
    cases room with
    | zero => simp [Written.fault?, Written.nesting]
    | succ room =>
      rw [Written.fault?, members.fault?_eq_none_iff, Written.nesting, Nat.add_le_add_iff_right,
        Written.hasShortIntegers]

theorem Items.fault?_eq_none_iff (items : Items) (room : Nat) :
    items.fault? room = none ↔ items.nesting ≤ room ∧ items.hasShortIntegers = true := by
  cases items with
  | last before value after => exact value.fault?_eq_none_iff room
  | more before value after others =>
    rw [Items.fault?, Option.orElse_eq_orElse, Option.orElse_eq_or, Option.or_eq_none_iff,
      value.fault?_eq_none_iff, others.fault?_eq_none_iff, Items.nesting,
      Items.hasShortIntegers, Nat.max_le, Bool.and_eq_true, and_and_and_comm]

theorem Members.fault?_eq_none_iff (members : Members) (room : Nat) :
    members.fault? room = none ↔ members.nesting ≤ room ∧ members.hasShortIntegers = true := by
  cases members with
  | last key value after => exact value.fault?_eq_none_iff room
  | more key value after others =>
    rw [Members.fault?, Option.orElse_eq_orElse, Option.orElse_eq_or, Option.or_eq_none_iff,
      value.fault?_eq_none_iff, others.fault?_eq_none_iff, Members.nesting,
      Members.hasShortIntegers, Nat.max_le, Bool.and_eq_true, and_and_and_comm]

end

/-- A document: a value with white space around it. -/
structure Document where
  before : Layout
  value : Written
  after : Layout

namespace Document

variable (d : Document) (room : Nat)

/-- The document as a text. -/
def text : Text := d.before.val ++ (d.value.text ++ d.after.val)

/-- The value that the document stands for. -/
def tree : Json := d.value.tree

/-- The first limit of reading that the document is beyond, when `room` arrays and objects may be
open at once. -/
def fault? : Option JsonError := d.value.fault? room

/-- The document is within the limits of reading. -/
def IsRead : Prop := d.value.nesting ≤ room ∧ d.value.hasShortIntegers = true

instance : Decidable (d.IsRead room) := inferInstanceAs (Decidable (_ ∧ _))

theorem fault?_eq_none_iff : d.fault? room = none ↔ d.IsRead room :=
  d.value.fault?_eq_none_iff room

end Document
end ImportScan.Json
