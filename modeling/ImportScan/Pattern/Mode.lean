import ImportScan.Pattern.Literal

/-!
# Modes of written patterns

A mode says how the signs of a written pattern are meant: whether letter case counts, which places
are line starts and ends, what a full stop takes, whether blanks may be used for layout, and whether
the character classes are those of ASCII.
-/

namespace ImportScan.Pattern

/-- How a written pattern is meant. -/
structure Mode where
  ignoreCase : Bool := false
  multiline : Bool := false
  dotAll : Bool := false
  layout : Bool := false
  ascii : Bool := false
deriving DecidableEq, Repr

/-- A member of a written character class. -/
inductive ClassItem where
  | code (n : Nat)
  | range (lo hi : Nat)
  | chars (p : Char → Bool)

namespace Mode

/-- The mode with the option of a letter switched; none for other letters. -/
def switch? (m : Mode) (on : Bool) : Char → Option Mode
  | 'i' => some { m with ignoreCase := on }
  | 'm' => some { m with multiline := on }
  | 's' => some { m with dotAll := on }
  | 'x' => some { m with layout := on }
  | 'a' => some { m with ascii := on }
  | 'u' => some { m with ascii := !on }
  | 't' => some m
  | _ => none

/-- A character in the other letter case of ASCII, and itself. -/
def asciiKin (c : Char) : List Char :=
  if isUpper c.toNat then [c, Char.ofNat (c.toNat + 0x20)]
  else if isUpper (c.toNat - 0x20) && 0x60 < c.toNat then [c, Char.ofNat (c.toNat - 0x20)]
  else [c]
where
  isUpper (n : Nat) : Bool := 0x41 ≤ n && n ≤ 0x5A

/-- The characters that the mode does not tell from `c`. -/
def kin (m : Mode) (c : Char) : List Char :=
  if m.ignoreCase then if m.ascii then asciiKin c else Text.kin c else [c]

/-- Whether two characters are the same to a back reference. -/
def same (m : Mode) (a b : Char) : Bool :=
  if m.ignoreCase && !m.ascii then Text.lowerChar a == Text.lowerChar b else (m.kin a).contains b

/-- Word characters. -/
def isWord (m : Mode) (c : Char) : Bool := if m.ascii then Text.isAsciiWord c else Text.isWord c

/-- The class that a letter names behind a backslash. -/
def class? (m : Mode) : Char → Option (Char → Bool)
  | 'd' => some (isDigit m)
  | 'D' => some (!isDigit m ·)
  | 's' => some (isSpace m)
  | 'S' => some (!isSpace m ·)
  | 'w' => some m.isWord
  | 'W' => some (!m.isWord ·)
  | _ => none
where
  isDigit (m : Mode) (c : Char) : Bool := Text.isDigit c && (!m.ascii || c.toNat < 0x80)
  isSpace (m : Mode) (c : Char) : Bool :=
    if m.ascii then c.toNat == 0x20 || (0x09 ≤ c.toNat && c.toNat ≤ 0x0D) else Text.isBlank c

/-- Whether a character, or one that the mode does not tell from it, is the member of a class. -/
def holds (m : Mode) (c : Char) : ClassItem → Bool
  | .code n => (m.kin c).any (·.toNat == n)
  | .range lo hi => (m.kin c).any fun x => lo ≤ x.toNat && x.toNat ≤ hi
  | .chars p => p c

/-- One character of a class, or one that is not in it. -/
def oneOf {ι : Type} (m : Mode) (negated : Bool) (items : List ClassItem) : Pattern ι :=
  .one fun c => items.any (m.holds c ·) != negated

/-- One character, of any kind that a full stop takes. -/
def anyOne {ι : Type} (m : Mode) : Pattern ι := .one fun c => m.dotAll || c != '\n'

/-! ## Places -/

/-- The place that a circumflex stands for. -/
def start {ι : Type} (m : Mode) : Pattern ι :=
  .here fun c => if m.multiline then atLineStart c else c.before.isEmpty

/-- The place that a dollar sign stands for: without lines, also before a newline at the end. -/
def stop {ι : Type} (m : Mode) : Pattern ι :=
  .here fun c =>
    if m.multiline then c.after.head?.all (· == '\n') else c.after == [] || c.after == ['\n']

/-- The edge of a word of the mode. -/
def atEdge (m : Mode) (c : Cursor) : Bool :=
  c.before.head?.any m.isWord != c.after.head?.any m.isWord

/-- The place that a letter names behind a backslash. An empty text has no inside of a word and no
outside either. -/
def place? {ι : Type} (m : Mode) : Char → Option (Pattern ι)
  | 'A' => some (.here fun c => c.before.isEmpty)
  | 'Z' => some (.here fun c => c.after.isEmpty)
  | 'b' => some (.here m.atEdge)
  | 'B' => some (.here fun c => !(c.before.isEmpty && c.after.isEmpty) && !m.atEdge c)
  | _ => none

end Mode
end ImportScan.Pattern
