import ImportScan.Grammar.Basic
import ImportScan.Lexis.Marks

/-!
# Includes in C and its relatives

An include names a file; its dependency is the first meaningful segment of the path, without the
extension (`includeRoot`). Objective-C adds `#import` lines and module imports.
-/

namespace ImportScan.Grammar

open Pattern

/-- Whether `c` separates the segments of an include path. -/
def isPathSeparator (c : Char) : Bool := c == '/' || c == '\\'

/-- Whether a segment only says where the path goes on. -/
def isDotSegment (s : Text) : Bool := s == [] || s == ['.'] || s == ['.', '.']

/-- The first meaningful segment of an include path, without its extension. -/
def includeRoot (path : Text) : Text :=
  match (Text.fields isPathSeparator (Text.trim path)).filter (!isDotSegment ·) with
  | [] => []
  | segment :: _ => Text.dropExtension '.' segment

/-- The path of a directive, in angle brackets or double quotes, as the name. -/
def includePath : Pattern Part :=
  (char '<' ++ .part .name (some1 fun c => c != '>' && c != '\n') ++ char '>') |||
    (char '"' ++ .part .name (some1 fun c => c != '"' && c != '\n') ++ char '"')

/-- A directive of the preprocessor that names a file. -/
def directive (keyword : String) : Statement where
  pattern := lineStart ++ gaps0 ++ char '#' ++ gaps0 ++ word keyword ++ gaps0 ++ includePath
  names m := [includeRoot (m.partOrEmpty .name)]

/-- An import of a module by its dotted name. -/
def moduleImport : Statement where
  pattern := lineStart ++ gaps0 ++ word "@import" ++ gaps1 ++ .part .name (some1 Text.isDotted) ++
    gaps0 ++ char ';'
  names m := [Text.before ['.'] (m.partOrEmpty .name)]

/-- Include lines; the paths are strings, so string contents are kept. -/
def c : Grammar where
  lexis := .slashed
  strings := .kept
  statements := [directive "include"]

/-- Include and import lines, and module imports. -/
def objectiveC : Grammar where
  lexis := .slashed
  strings := .kept
  statements := [directive "include", directive "import", moduleImport]

end ImportScan.Grammar
