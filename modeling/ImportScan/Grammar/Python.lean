import ImportScan.Grammar.Basic
import ImportScan.Lexis.Marks

/-!
# Imports in Python

An import gives the top-level package of each absolute name; relative names stay inside the package
and give nothing. A statement may go on behind a backslash at the end of a line, so a gap between
its words is made of spaces, tabs and continued line ends, and a continued line starts no statement.
-/

namespace ImportScan.Grammar

open Pattern

/-- A backslash at the end of a line. -/
def continuation : Pattern Part := word "\\\n"

/-- One character of a gap, or a continued line end. -/
def gap : Pattern Part := .one Text.isGap ||| continuation

/-- Between two names of a list. -/
def nameSeparator : Pattern Part := (many0 gap ++ char ',' ++ many0 gap) ||| many1 gap

/-- The start of a line that does not continue another, or the place behind a semicolon. -/
def logicalStart (c : Cursor) : Bool :=
  (atLineStart c && !(['\n', '\\'].isPrefixOf c.before)) || isAfter [';'] c

/-- Another name given to an import. -/
def otherName : Pattern Part := many1 gap ++ word "as" ++ many1 gap ++ some1 Text.isWord

/-- The top-level packages of absolute names. -/
def absolutePackages (names : List Text) : List Text :=
  ((names.map Text.trim).filter fun n => !n.isEmpty && n.head? != some '.').map
    (Text.firstSegment ['.'])

/-- An import of modules. -/
def importNames : Statement where
  pattern := .here logicalStart ++ gaps0 ++ word "import" ++ many1 gap ++
    .part .body (some1 Text.isDotted ++ many0 (nameSeparator ++ some1 Text.isDotted))
  names m :=
    let names := otherName.replaceIn [] (continuation.replaceIn [' '] (m.partOrEmpty .body))
    absolutePackages (Text.fields (· == ',') names)

/-- An import of names from a module. -/
def importFrom : Statement where
  pattern := .here logicalStart ++ gaps0 ++ word "from" ++ many1 gap ++
    .part .name (some0 (· == '.') ++ some0 Text.isDotted) ++ many1 gap ++ word "import" ++ wordEdge
  names m := absolutePackages [m.partOrEmpty .name]

/-- Imports of modules, and imports of names from a module. -/
def python : Grammar where
  lexis := {
    line := [.hash]
    quotes := [.doubleQuote, .singleQuote]
    multilineQuotes := [.tripleDoubleQuote, .tripleSingleQuote] }
  strings := .blanked
  statements := [importNames, importFrom]

end ImportScan.Grammar
