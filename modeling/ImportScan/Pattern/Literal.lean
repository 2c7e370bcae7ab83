import ImportScan.Pattern.Basic
import ImportScan.Text.Blank
import ImportScan.Text.Case
import ImportScan.Text.Word

/-!
# Building patterns

The pieces that statement patterns are put together from: fixed texts, runs of a class, options, and
the tests for places. `p ++ q` is the one and then the other, `p ||| q` the one or else the other.
-/

namespace ImportScan.Pattern

variable {ι : Type}

instance : Append (Pattern ι) := ⟨.seq⟩

instance : OrOp (Pattern ι) := ⟨.alt⟩

/-! ## Texts -/

/-- One given character. -/
def char (c : Char) : Pattern ι := .one (· == c)

/-- A given text. -/
def text : Text → Pattern ι
  | [] => .empty
  | [c] => char c
  | c :: rest => char c ++ text rest

/-- A given text of ASCII letters in any letter case. -/
def anyCase (t : Text) : Pattern ι :=
  t.foldr (fun c p => .one (fun x => Text.fold x == Text.fold c) ++ p) .empty

/-- A given word. -/
def word (s : String) : Pattern ι := text s.toList

/-! ## Runs and options -/

/-- As many characters of a class as there are. -/
def some0 (p : Char → Bool) : Pattern ι := .run true p 0 none

/-- As many characters of a class as there are, and at least one. -/
def some1 (p : Char → Bool) : Pattern ι := .run true p 1 none

/-- A pattern, if it matches. -/
def maybe (p : Pattern ι) : Pattern ι := p ||| .empty

/-- A pattern as often as it matches. -/
def many0 (p : Pattern ι) : Pattern ι := .many true p 0 none

/-- A pattern as often as it matches, and at least once. -/
def many1 (p : Pattern ι) : Pattern ι := .many true p 1 none

/-- Spaces and tabs, if any. -/
def gaps0 : Pattern ι := some0 Text.isGap

/-- Spaces and tabs, at least one. -/
def gaps1 : Pattern ι := some1 Text.isGap

/-- White space, if any. -/
def blanks0 : Pattern ι := some0 Text.isBlank

/-- White space, at least one character. -/
def blanks1 : Pattern ι := some1 Text.isBlank

/-! ## Places -/

/-- Whether a line starts here. -/
def atLineStart (c : Cursor) : Bool := c.before.head?.all (· == '\n')

/-- Whether exactly one of the neighbours is a word character. -/
def atWordEdge (c : Cursor) : Bool :=
  c.before.head?.any Text.isWord != c.after.head?.any Text.isWord

/-- Whether the character before is one of `cs`. -/
def isAfter (cs : Text) (c : Cursor) : Bool := c.before.head?.any (cs.contains ·)

/-- The start of a line. -/
def lineStart : Pattern ι := .here atLineStart

/-- The edge of a word. -/
def wordEdge : Pattern ι := .here atWordEdge

/-- The start of a line, or the place behind one of `cs`, and the spaces and tabs that follow. -/
def statementStart (cs : Text) : Pattern ι :=
  .here (fun c => atLineStart c || isAfter cs c) ++ gaps0

end ImportScan.Pattern
