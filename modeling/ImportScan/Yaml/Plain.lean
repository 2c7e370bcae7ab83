import ImportScan.Decimal.Shortest
import ImportScan.Pattern.Search
import ImportScan.Pattern.Literal
import ImportScan.Text.Digit
import ImportScan.Yaml.Spot

/-!
# What plain scalars stand for

A plain scalar without a tag is a truth value, a number, a date, nothing, or one of the two special
keys if it is written like one, and a text otherwise (`Schema.ofPlain`). A tag decides itself, and
then the scalar must be written in a way that can be read so.
-/

namespace ImportScan.Yaml

/-- The kinds of data that a tag names. -/
inductive Kind where
  | null | bool | int | float | text | date | bytes | sequence | mapping | set | orderedMapping
  | pairs
  /-- The key that merges other mappings into its own. -/
  | merge
  /-- The key that stands for the value of a mapping. -/
  | equals
deriving DecidableEq, Repr

/-- What the full tags of kinds start with. -/
def Kind.tagStart : Text := "tag:yaml.org,2002:".toList

/-- The kind of a full tag. -/
def Kind.ofTag? (tag : Text) : Option Kind :=
  if tagStart.isPrefixOf tag then
    [("null", null), ("bool", bool), ("int", int), ("float", float), ("str", text),
      ("timestamp", date), ("binary", bytes), ("seq", sequence), ("map", mapping), ("set", set),
      ("omap", orderedMapping), ("pairs", pairs), ("merge", merge), ("value", equals)].lookup
        (String.ofList (tag.drop tagStart.length))
  else none

/-! ## How numbers and dates are written -/

/-- The parts of a date. -/
inductive DatePart where
  | year | month | day | hour | minute | second | zoneSign | zoneHour | zoneMinute
deriving DecidableEq, Repr

namespace Schema

open Pattern Text

/-- Whether the pattern matches the whole text. -/
def isAll {ι : Type} [DecidableEq ι] (p : Pattern ι) (t : Text) : Bool :=
  ((p ++ .here (·.after.isEmpty)).matchAt? (.atStart t)).isSome

/-- A digit, or the low line that may stand between digits. -/
def isGroupChar (c : Char) : Bool := isDecimal c || c == '_'

/-- A sign, if there is one. -/
def sign : Pattern Unit := maybe (.one fun c => c == '-' || c == '+')

/-- Digits and low lines behind a digit of a class. -/
def grouped (first : Char → Bool) : Pattern Unit := .one first ++ some0 isGroupChar

/-- Colons with numbers below sixty. -/
def sixties : Pattern Unit :=
  many1 (char ':' ++ maybe (.one fun c => '0' ≤ c && c ≤ '5') ++ .one isDecimal)

/-- How a whole number is written: in base two, eight, ten, sixteen or sixty. -/
def integer : Pattern Unit :=
  (sign ++ word "0b" ++ some1 fun c => c == '0' || c == '1' || c == '_') |||
  (sign ++ char '0' ++ some1 fun c => isOctal c || c == '_') |||
  (sign ++ (char '0' ||| grouped fun c => '1' ≤ c && c ≤ '9')) |||
  (sign ++ word "0x" ++ some1 fun c =>
    isHex c || c == '_') |||
  (sign ++ (grouped fun c => '1' ≤ c && c ≤ '9') ++ sixties)

/-- An exponent with a sign. -/
def exponent : Pattern Unit :=
  maybe (.one (fun c => c == 'e' || c == 'E') ++ .one (fun c => c == '-' || c == '+') ++
    some1 isDecimal)

/-- How a number with a point is written. -/
def float : Pattern Unit :=
  (sign ++ grouped isDecimal ++ char '.' ++ some0 isGroupChar ++ exponent) |||
  (char '.' ++ grouped isDecimal ++ exponent) |||
  (sign ++ grouped isDecimal ++ sixties ++ char '.' ++ some0 isGroupChar) |||
  (sign ++ char '.' ++ (word "inf" ||| word "Inf" ||| word "INF")) |||
  (char '.' ++ (word "nan" ||| word "NaN" ||| word "NAN"))

/-- One digit, or two. -/
def oneOrTwo (i : DatePart) : Pattern DatePart :=
  .part i (.one isDecimal ++ maybe (.one isDecimal))

/-- Two digits. -/
def two (i : DatePart) : Pattern DatePart := .part i (.one isDecimal ++ .one isDecimal)

/-- Four digits. -/
def four (i : DatePart) : Pattern DatePart :=
  .part i (.one isDecimal ++ .one isDecimal ++ .one isDecimal ++ .one isDecimal)

/-- A time of day, perhaps with a zone. -/
def timeOfDay : Pattern DatePart :=
  (.one (fun c => c == 'T' || c == 't') ||| gaps1) ++ oneOrTwo .hour ++ char ':' ++ two .minute ++
    char ':' ++ two .second ++ maybe (char '.' ++ some0 isDecimal) ++
    maybe (gaps0 ++ (char 'Z' ||| (.part .zoneSign (.one fun c => c == '-' || c == '+') ++
      oneOrTwo .zoneHour ++ maybe (char ':' ++ two .zoneMinute))))

/-- How a date that a plain scalar stands for is written: to the day with all digits, or with a time
of day. -/
def plainDate : Pattern DatePart :=
  (four .year ++ char '-' ++ two .month ++ char '-' ++ two .day) |||
  (four .year ++ char '-' ++ oneOrTwo .month ++ char '-' ++ oneOrTwo .day ++ timeOfDay)

/-- How a date may be written behind its tag. -/
def taggedDate : Pattern DatePart :=
  four .year ++ char '-' ++ oneOrTwo .month ++ char '-' ++ oneOrTwo .day ++ maybe timeOfDay ++
    .here (·.after.isEmpty)

/-- The words for truth values. -/
def truthWords : List (String × Bool) :=
  [("yes", true), ("no", false), ("true", true), ("false", false), ("on", true), ("off", false)]

/-- A word in lower case, capitalised, and in capitals. -/
def cases (s : String) : List Text :=
  let t := s.toList
  [t, (t.take 1).map Char.toUpper ++ t.drop 1, t.map Char.toUpper]

/-- The kind of data that a plain scalar stands for. -/
def ofPlain (t : Text) : Kind :=
  if truthWords.any fun w => (cases w.1).contains t then .bool
  else if isAll float t then .float
  else if isAll integer t then .int
  else if t = ['<', '<'] then .merge
  else if t = [] || t = ['~'] || (cases "null").contains t then .null
  else if isAll plainDate t then .date
  else if t = ['='] then .equals
  else .text

/-! ## What they stand for -/

/-- The most decimal digits of a whole number that is converted. -/
def maxDigits : Nat := 4300

/-- The number that digits of a base spell. There must be one at least. -/
def natural (base : Nat) (t : Text) : Except Error Nat :=
  if t.isEmpty || !t.all (digitValue · < base) || (base = 10 && maxDigits < t.length) then
    .error (.failed .badNumber)
  else .ok (number base t)

/-- A sign in front of a number, as a factor, and the rest. -/
def splitSign : Text → Int × Text
  | '-' :: rest => (-1, rest)
  | '+' :: rest => (1, rest)
  | t => (1, t)

/-- The whole number that a text spells. -/
def toInt (t : Text) : Except Error Int := do
  let t := Text.without '_' t
  if t.isEmpty then .error (.failed .emptyNumber)
  let (sign, t) := splitSign t
  let n ←
    if t = ['0'] then pure 0
    else match t with
      | [] => .error (.failed .emptyNumber)
      | '0' :: 'b' :: rest => natural 2 rest
      | '0' :: 'x' :: rest => natural 16 rest
      | '0' :: 'o' :: rest => natural 8 rest
      | '0' :: rest => natural 8 rest
      | t =>
        if t.contains ':' then
          (Text.fields (· == ':') t).foldlM (fun n part => do return n * 60 + (← natural 10 part)) 0
        else natural 10 t
  return sign * n

/-- The decimal number that a text without a sign spells. -/
def toDecimal (t : Text) : Except Error Float := do
  if t = "inf".toList || t = "infinity".toList then return 1.0 / 0.0
  if t = "nan".toList then return 0.0 / 0.0
  let whole := t.takeWhile isDecimal
  let rest := t.dropWhile isDecimal
  let (fraction, rest) : Text × Text := match rest with
    | '.' :: rest => (rest.takeWhile isDecimal, rest.dropWhile isDecimal)
    | rest => ([], rest)
  let digits := whole ++ fraction
  if digits.isEmpty then .error (.failed .badNumber)
  let exponent : Int ← match rest with
    | [] => pure 0
    | e :: rest =>
      if e = 'e' then
        let (sign, rest) := splitSign rest
        if rest.isEmpty || !rest.all isDecimal then .error (.failed .badNumber)
        pure (sign * number 10 rest)
      else .error (.failed .badNumber)
  return Decimal.toFloat (number 10 digits)
    (exponent - fraction.length)

/-- The number with a point that a text spells. -/
def toFloat (t : Text) : Except Error Float := do
  let t := (Text.without '_' t).map Char.toLower
  if t.isEmpty then .error (.failed .emptyNumber)
  let (sign, t) := splitSign t
  let sign : Float := if sign < 0 then -1.0 else 1.0
  if t = ".inf".toList then return sign / 0.0
  if t = ".nan".toList then return 0.0 / 0.0
  if t.contains ':' then
    let parts ← (Text.fields (· == ':') t).mapM toDecimal
    let (x, _) := parts.reverse.foldl
      (fun (acc : Float × Float) part => (acc.1 + part * acc.2, acc.2 * 60.0)) (0.0, 1.0)
    return sign * x
  return sign * (← toDecimal t)

/-- The truth value that a word stands for. -/
def toBool (t : Text) : Except Error Bool :=
  match truthWords.find? fun w => w.1.toList = t.map Char.toLower with
  | some w => .ok w.2
  | none => .error (.failed .badTruth)

/-- The number of days of a month. -/
def daysOf (year month : Nat) : Nat :=
  if month = 2 then if year % 4 = 0 && (year % 100 ≠ 0 || year % 400 = 0) then 29 else 28
  else if month = 4 || month = 6 || month = 9 || month = 11 then 30
  else 31

/-- Checks that a text spells a date, and that the day and time exist. -/
def checkDate (t : Text) : Except Error Unit := do
  match taggedDate.matchAt? (.atStart t) with
  | none => .error (.failed .notADate)
  | some m =>
    let get (i : DatePart) : Nat := ((m.part? i).map (number 10)).getD 0
    let dayExists := 1 ≤ get .year && 1 ≤ get .month && get .month ≤ 12 && 1 ≤ get .day &&
      get .day ≤ daysOf (get .year) (get .month)
    let timeExists := get .hour ≤ 23 && get .minute ≤ 59 && get .second ≤ 59
    let zoneExists := get .zoneHour * 60 + get .zoneMinute < 24 * 60
    if dayExists && timeExists && zoneExists then .ok () else .error (.failed .noSuchDate)

/-! ## Bytes -/

/-- The six bits of a character of base sixty-four. -/
def sextet? (c : Char) : Option Nat :=
  if 'A' ≤ c && c ≤ 'Z' then some (c.toNat - 0x41)
  else if 'a' ≤ c && c ≤ 'z' then some (c.toNat - 0x61 + 26)
  else if isDecimal c then some (digitValue c + 52)
  else if c = '+' then some 62
  else if c = '/' then some 63
  else none

/-- The bytes that a text of base sixty-four spells, behind those already read, last first. Of a
group of four characters `taken` are read, and `left` are the bits of the last one that are not yet
part of a byte. Other characters are skipped. -/
def bytesOnto (read : List Nat) (taken left pads : Nat) : Text → Except Error (List Nat)
  | [] => if taken = 0 then .ok read.reverse else .error .malformed
  | c :: rest =>
    if c = '=' then
      if 2 ≤ taken then
        if 4 ≤ taken + pads + 1 then .ok read.reverse
        else bytesOnto read taken left (pads + 1) rest
      else bytesOnto read taken left pads rest
    else match sextet? c with
      | none => bytesOnto read taken left pads rest
      | some n => match taken with
        | 0 => bytesOnto read 1 n 0 rest
        | 1 => bytesOnto ((left * 4 + n / 16) :: read) 2 (n % 16) 0 rest
        | 2 => bytesOnto ((left * 16 + n / 4) :: read) 3 (n % 4) 0 rest
        | _ => bytesOnto ((left * 64 + n) :: read) 0 0 0 rest

/-- The bytes that a text of base sixty-four spells. -/
def toBytes (t : Text) : Except Error (List Nat) :=
  if t.all (·.toNat < 0x80) then bytesOnto [] 0 0 0 t else .error .malformed

end Schema
end ImportScan.Yaml
