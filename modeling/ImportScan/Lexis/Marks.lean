import ImportScan.Lexis.Basic

/-!
# Common markers

The markers that several languages share, and the lexis of the languages that comment with slashes.
-/

namespace ImportScan

/-- The grave accent as a quote. -/
def Text.backquote : Char := Char.ofNat 0x60

namespace Marker

def slashes : Marker := ⟨'/', ['/']⟩
def dashes : Marker := ⟨'-', ['-']⟩
def hash : Marker := ⟨'#', []⟩
def slashStar : Marker := ⟨'/', ['*']⟩
def starSlash : Marker := ⟨'*', ['/']⟩
def braceDash : Marker := ⟨'{', ['-']⟩
def dashBrace : Marker := ⟨'-', ['}']⟩
def doubleQuote : Marker := ⟨'"', []⟩
def singleQuote : Marker := ⟨'\'', []⟩
def tripleDoubleQuote : Marker := ⟨'"', ['"', '"']⟩
def tripleSingleQuote : Marker := ⟨'\'', ['\'', '\'']⟩
def backquote : Marker := ⟨Text.backquote, []⟩

end Marker

namespace Lexis

/-- Comments behind two slashes or between slashes and stars, strings in either quote. -/
def slashed : Lexis where
  line := [.slashes]
  block := [(.slashStar, .starSlash)]
  quotes := [.doubleQuote, .singleQuote]

/-- As `slashed`, with block comments that nest and strings in double quotes only. -/
def slashedNested : Lexis where
  line := [.slashes]
  block := [(.slashStar, .starSlash)]
  quotes := [.doubleQuote]
  nestedBlocks := true

/-- Comments behind two dashes or, nested, between braces and dashes; strings in double quotes. -/
def dashed : Lexis where
  line := [.dashes]
  block := [(.braceDash, .dashBrace)]
  quotes := [.doubleQuote]
  nestedBlocks := true

end Lexis
end ImportScan
