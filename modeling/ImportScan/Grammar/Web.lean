import ImportScan.Grammar.Basic
import ImportScan.Lexis.Marks

/-!
# Scripts on the web

Script sources in HTML and module references in JavaScript and TypeScript are strings, so string
contents are kept. They are given as written.
-/

namespace ImportScan.Grammar

open Pattern

/-- Whether `c` is a single or a double quote. -/
def isQuote (c : Char) : Bool := c == '\'' || c == '"'

/-- A nonempty text between two equal quotes on one line, as the name. -/
def specifier : Pattern Part :=
  .part .quote (.one isQuote) ++ .part .name (some1 fun c => !isQuote c && c != '\n') ++
    .again .quote (· == ·)

/-! ## HTML -/

/-- The start of a script tag up to the end of its source attribute. -/
def scriptSource : Statement where
  pattern := anyCase "<script".toList ++ wordEdge ++ .run false (· != '>') 0 none ++ wordEdge ++
    anyCase "src".toList ++ blanks0 ++ char '=' ++ blanks0 ++ specifier
  names := Match.nameBy Text.trim

/-- Tag and attribute names have no letter case. -/
def html : Grammar where
  lexis := { block := [(⟨'<', "!--".toList⟩, ⟨'-', "->".toList⟩)] }
  strings := .kept
  statements := [scriptSource]

/-! ## JavaScript -/

/-- Whether `c` may stand between `import` and `from`. -/
def isClauseChar (c : Char) : Bool :=
  Text.isWord c || Text.isBlank c || c == '*' || c == '$' || c == '{' || c == '}' || c == ','

/-- An import statement, with or without a clause. -/
def staticImport : Statement where
  pattern := wordEdge ++ word "import" ++ blanks1 ++
    maybe (.run false isClauseChar 1 none ++ blanks1 ++ word "from" ++ blanks1) ++ specifier
  names := Match.nameBy Text.trim

/-- An export of what another module exports. -/
def reexport : Statement where
  pattern := wordEdge ++ word "export" ++ blanks1 ++ maybe (word "type" ++ blanks1) ++
    ((char '*' ++ maybe
        (blanks1 ++ word "as" ++ blanks1 ++ some1 fun c => Text.isWord c || c == '$')) |||
      (char '{' ++ some0 (· != '}') ++ char '}')) ++
    blanks1 ++ word "from" ++ blanks1 ++ specifier
  names := Match.nameBy Text.trim

/-- A call of `keyword` with a module specifier as its only argument. -/
def moduleCall (keyword : String) : Statement where
  pattern := wordEdge ++ word keyword ++ blanks0 ++ char '(' ++ blanks0 ++ specifier ++ blanks0 ++
    char ')'
  names := Match.nameBy Text.trim

/-- Static imports, re-exports, requires and dynamic imports give the module specifier. -/
def javaScript : Grammar where
  lexis := { Lexis.slashed with multilineQuotes := [.backquote] }
  strings := .kept
  statements := [staticImport, reexport, moduleCall "require", moduleCall "import"]

end ImportScan.Grammar
