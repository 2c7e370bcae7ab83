import ImportScan.Grammar.Basic
import ImportScan.Lexis.Marks

/-!
# Languages whose imports give one name

An import names one module, type or package, and the languages differ in what may stand around the
name and in how much of it counts: the whole of it, its first segment, or the first two.
-/

namespace ImportScan.Grammar

open Pattern

/-! ## C# -/

/-- A using directive. -/
def usingDirective : Statement where
  pattern := statementStart [';', '{', '}'] ++ maybe (word "global" ++ gaps1) ++ word "using" ++
    gaps1 ++ maybe (word "static" ++ gaps1) ++
    maybe (some1 Text.isWord ++ gaps0 ++ char '=' ++ gaps0) ++
    .part .name (some1 Text.isDotted) ++ gaps0 ++
    maybe (char '<' ++ some0 (fun c => c != ';' && c != '\n') ++ char '>') ++ gaps0 ++ char ';'
  names := Match.nameBy Text.trim

/-- A directive gives the full namespace. -/
def cSharp : Grammar where
  lexis := { Lexis.slashed with multilineQuotes := [.tripleDoubleQuote] }
  strings := .blanked
  statements := [usingDirective]

/-! ## Elm -/

/-- An import gives the first segment of the module name. -/
def elm : Grammar where
  lexis := { Lexis.dashed with
    quotes := [.doubleQuote, .singleQuote], multilineQuotes := [.tripleDoubleQuote] }
  strings := .blanked
  statements := [{
    pattern := lineStart ++ gaps0 ++ word "import" ++ gaps1 ++
      .part .name (.one Text.isCapital ++ some0 Text.isWord)
    names := Match.nameBy Text.trim }]

/-! ## Haskell -/

/-- An import, perhaps safe, qualified, or from a named package. -/
def hierarchyImport : Statement where
  pattern := lineStart ++ gaps0 ++ word "import" ++ gaps1 ++ maybe (word "safe" ++ gaps1) ++
    maybe (word "qualified" ++ gaps1) ++
    maybe (char '"' ++ some0 (fun c => c != '"' && c != '\n') ++ char '"' ++ gaps1) ++
    .part .name (.one Text.isCapital ++ some0 fun c => Text.isDotted c || c == '\'')
  names := Match.nameBy (Text.firstSegment ['.'])

/-- An import gives the first segment of the module hierarchy. -/
def haskell : Grammar where
  lexis := .dashed
  strings := .blanked
  statements := [hierarchyImport]

/-! ## Haxe -/

/-- An import or a using declaration gives the top-level package. -/
def haxe : Grammar where
  lexis := .slashed
  strings := .blanked
  statements := [{
    pattern := statementStart [';', '{', '}'] ++ (word "import" ||| word "using") ++ gaps1 ++
      .part .name (some1 Text.isDotted)
    names := Match.nameBy (Text.firstSegment ['.']) }]

/-! ## Java -/

/-- An import of a type, a static member or a whole package. -/
def packageImport : Statement where
  pattern := statementStart [';', '{', '}'] ++ word "import" ++ gaps1 ++
    maybe (word "static" ++ gaps1) ++ .part .name (.run false Text.isDotted 1 none) ++
    maybe (word ".*") ++ gaps0 ++ char ';'
  names := Match.nameBy (Text.firstSegment ['.'])

/-- An import gives the top-level package. -/
def java : Grammar where
  lexis := { Lexis.slashed with multilineQuotes := [.tripleDoubleQuote] }
  strings := .blanked
  statements := [packageImport]

/-! ## Kotlin -/

/-- The first two segments of a name, without grave accents. -/
def firstTwoSegments (name : Text) : Text :=
  Text.join ['.']
    (((Text.fields (· == '.') (Text.without Text.backquote name)).filter (!·.isEmpty)).take 2)

/-- An import gives the first two segments of the name, without grave accents. -/
def kotlin : Grammar where
  lexis := { Lexis.slashed with multilineQuotes := [.tripleDoubleQuote], nestedBlocks := true }
  strings := .blanked
  statements := [{
    pattern := statementStart [';', '{', '}'] ++ word "import" ++ gaps1 ++
      .part .name (some1 fun c => Text.isDotted c || c == Text.backquote)
    names := Match.nameBy firstTwoSegments }]

/-! ## Swift -/

/-- The word for a kind of symbol that may stand before the module. -/
def symbolKind : Pattern Part :=
  word "typealias" ||| word "struct" ||| word "class" ||| word "enum" ||| word "protocol" |||
    word "let" ||| word "var" ||| word "func"

/-- An import gives the module; a submodule or symbol path behind it is left out. -/
def swift : Grammar where
  lexis := { Lexis.slashedNested with multilineQuotes := [.tripleDoubleQuote] }
  strings := .blanked
  statements := [{
    pattern := statementStart [';'] ++
      many0 (char '@' ++ some1 Text.isWord ++
        maybe (char '(' ++ some0 (fun c => c != ')' && c != '\n') ++ char ')') ++ gaps1) ++
      word "import" ++ gaps1 ++ maybe (symbolKind ++ gaps1) ++ .part .name (some1 Text.isWord)
    names := Match.nameBy Text.trim }]

/-! ## Visual Basic -/

/-- A statement gives the first segment of the imported name. Keywords have no letter case. -/
def visualBasic : Grammar where
  lexis := { line := [.singleQuote], quotes := [.doubleQuote] }
  strings := .blanked
  statements := [{
    pattern := lineStart ++ gaps0 ++ anyCase "Imports".toList ++ gaps1 ++
      maybe (some1 Text.isWord ++ gaps0 ++ char '=' ++ gaps0) ++
      .part .name (some1 Text.isDotted)
    names := Match.nameBy (Text.firstSegment ['.']) }]

end ImportScan.Grammar
