import ImportScan.Text.Basic

/-!
# Digits and the numbers they spell

The digits of ASCII in bases up to sixteen. `number base t` is the number that a text of digits
spells, the first digit first; only a text whose characters all have a value below the base spells
one.
-/

namespace ImportScan.Text

/-- A decimal digit. -/
def isDecimal (c : Char) : Bool := '0' ≤ c && c ≤ '9'

/-- An octal digit. -/
def isOctal (c : Char) : Bool := '0' ≤ c && c ≤ '7'

/-- The value of a digit; sixteen if the character is none. -/
def digitValue (c : Char) : Nat :=
  if isDecimal c then c.toNat - 0x30
  else if 'a' ≤ c && c ≤ 'f' then c.toNat - 0x61 + 10
  else if 'A' ≤ c && c ≤ 'F' then c.toNat - 0x41 + 10
  else 16

/-- A hexadecimal digit. -/
def isHex (c : Char) : Bool := digitValue c < 16

/-- The number that digits of a base spell. -/
def number (base : Nat) (digits : Text) : Nat :=
  digits.foldl (fun n c => n * base + digitValue c) 0

/-- The number spelled by `count` hexadecimal digits at the start of the text, if there are that
many. -/
def hexNumber? (count : Nat) (t : Text) : Option Nat :=
  let digits := t.take count
  if digits.length = count && digits.all isHex then some (number 16 digits) else none

end ImportScan.Text
