import ImportScan.Grammar.Basic
import ImportScan.Lexis.Marks

/-!
# Imports in Go

An import gives full paths, from a single import or from every entry of a group. A path stands in
double quotes or between grave accents.
-/

namespace ImportScan.Grammar

open Pattern

/-- A quoted path, as the name. -/
def importPath : Pattern Part :=
  (char '"' ++ .part .name (some0 fun c => c != '"' && c != '\n') ++ char '"') |||
    (char Text.backquote ++ .part .name (some0 (· != Text.backquote)) ++ char Text.backquote)

/-- An import of one path, perhaps under another name. -/
def singleImport : Statement where
  pattern := lineStart ++ gaps0 ++ word "import" ++ gaps1 ++
    maybe (some1 Text.isDotted ++ gaps1) ++ importPath
  names m := [Text.trim (m.partOrEmpty .name)]

/-- An import of several paths in parentheses. -/
def groupImport : Statement where
  pattern := lineStart ++ gaps0 ++ word "import" ++ gaps0 ++ char '(' ++
    .part .body (some0 (· != ')')) ++ char ')'
  names m := (importPath.matchesIn (m.partOrEmpty .body)).map fun entry =>
    Text.trim (entry.partOrEmpty .name)

/-- Paths are strings, so string contents are kept. -/
def go : Grammar where
  lexis := { Lexis.slashed with multilineQuotes := [.backquote] }
  strings := .kept
  statements := [singleImport, groupImport]

end ImportScan.Grammar
