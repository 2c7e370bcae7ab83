import ImportScan.Grammar.Basic
import ImportScan.Lexis.Marks
import ImportScan.Text.TopLevel

/-!
# Imports in Scala

An import gives the full path of each clause, without selectors, wildcards and grave accents.
-/

namespace ImportScan.Grammar

open Pattern

/-- The path without a wildcard at its end. -/
def dropWildcard (path : Text) : Text :=
  if ['.', '_'].isSuffixOf path || ['.', '*'].isSuffixOf path then path.take (path.length - 2)
  else path

/-- The path that a clause imports; empty if it names nothing. -/
def clausePath (clause : Text) : Text :=
  let path := ((Text.words (Text.before ['{'] clause)).head?).getD []
  Text.without Text.backquote ((dropWildcard path).reverse.dropWhile (· == '.')).reverse

/-- Imports of one clause or several. -/
def scala : Grammar where
  lexis := { Lexis.slashedNested with multilineQuotes := [.tripleDoubleQuote] }
  strings := .blanked
  statements := [{
    pattern := statementStart [';', '{', '}'] ++ word "import" ++ gaps1 ++
      .part .body (some1 fun c => c != '\n' && c != ';')
    names := fun m => ((Text.topLevelParts .braced (m.partOrEmpty .body)).map clausePath).filter
      (!·.isEmpty) }]

end ImportScan.Grammar
