import ImportScan.Lexis.Segment
import ImportScan.Pattern.Search
import ImportScan.Pattern.Literal

/-!
# Grammars of import statements

A grammar finds the imports of a source text: it blanks the comments, finds the stretches that look
like one of its statements, keeps those that start in code, and reads names off them in the order in
which they stand. The text searched keeps string contents where names stand in strings; whether a
statement starts in code is always asked of the text in which they are blanked.
-/

namespace ImportScan

/-- The parts of a statement that names are read from. -/
inductive Part where
  | name
  | quote
  | body
deriving DecidableEq, Repr

/-- A form of statement: how it looks, and the names that it imports. -/
structure Statement where
  pattern : Pattern Part
  names : Match Part → List Text

/-- Where statements are of another kind though they look alike: each entry says, for the text from
an offset on up to the next entry, whether that is so. -/
abbrev Scopes := List (Nat × Bool)

/-- Whether an offset lies in such a place: what the last entry up to it says. -/
def Scopes.inside (scopes : Scopes) (offset : Nat) : Bool :=
  ((scopes.takeWhile (·.1 ≤ offset)).getLast?).any (·.2)

/-- The import statements of a language. -/
structure Grammar where
  lexis : Lexis
  /-- What the text searched does with string contents. -/
  strings : StringContents
  statements : List Statement
  /-- The places whose statements import nothing. -/
  scopes : Text → Scopes := fun _ => []

namespace Match

/-- The offset of the first character matched that is not white space. -/
def firstOffset (m : Match Part) : Nat := m.offset + (m.text.takeWhile Text.isBlank).length

/-- The part `i`, or the empty text if it took no part. -/
def partOrEmpty (m : Match Part) (i : Part) : Text := (m.part? i).getD []

/-- The name, read by `read`; nothing if it is missing or empty. -/
def nameBy (read : Text → Text) (m : Match Part) : List Text :=
  match m.part? .name with
  | none | some [] => []
  | some name => [read name]

end Match

namespace Grammar

/-- The statements found in a text, in the order of their starts; of those that start together, in
the order of the forms. -/
def found (g : Grammar) (t : Text) : List (Statement × Match Part) :=
  (g.statements.flatMap fun s => (s.pattern.matchesIn t).map fun m => (s, m)).mergeSort
    fun a b => a.2.offset ≤ b.2.offset

/-- Whether a statement starts in code, given the text in which string contents are blanked. -/
def startsInCode (code : Array Char) (m : Match Part) : Bool :=
  !(code[m.firstOffset]?.any Text.isBlank)

/-- The names that a source text imports, in order, repetitions included. -/
def imports (g : Grammar) (t : Text) : List Text :=
  let segments := g.lexis.segments t
  let shown := segments.flatMap (Segment.shown g.strings)
  let code := (segments.flatMap (Segment.shown .blanked)).toArray
  let scopes := g.scopes shown
  ((g.found shown).filter fun s => startsInCode code s.2).flatMap fun s =>
    if scopes.inside s.2.offset then [] else s.1.names s.2

end Grammar
end ImportScan
