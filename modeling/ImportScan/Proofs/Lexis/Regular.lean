import ImportScan.Language
import ImportScan.Proofs.Lexis.Marker
import Mathlib.Tactic.MkIffOfInductiveProp
import Mathlib.Logic.Basic

/-!
# Regular lexes

What the lexes of the supported languages have in common: no marker holds a space or a newline,
every marker has one role, comment markers start no other marker, and a quote that starts another
marker is shorter than half of it. The last point keeps an empty string apart from the start of a
longer quote. `Parser.regular_lexis` says that the lexis of every grammar is regular.
-/

namespace ImportScan

namespace Lexis

/-- All quotes, whether their strings may hold newlines or not. -/
def allQuotes (lx : Lexis) : List Marker := lx.quotes ++ lx.multilineQuotes

/-- The openers of comments. -/
def commentOpeners (lx : Lexis) : List Marker := lx.line ++ lx.block.map (·.1)

/-- What the theory of a lexis asks of its markers. -/
@[mk_iff]
structure Regular (lx : Lexis) : Prop where
  /-- No marker holds white space that blanking could bring up or keep. -/
  visible : ∀ m ∈ lx.openers, ' ' ∉ m.text ∧ '\n' ∉ m.text
  /-- A block comment has one closer, and its opener starts no line comment. -/
  block : ∀ p ∈ lx.block, lx.opening p.1 = .blockComment p.2
  quote : ∀ q ∈ lx.quotes, lx.opening q = .string false
  multilineQuote : ∀ q ∈ lx.multilineQuotes, lx.opening q = .string true
  /-- A comment marker starts no other marker. -/
  comment_longest : ∀ m ∈ lx.commentOpeners, ∀ m' ∈ lx.openers, m.opens m'.text → m' = m
  /-- No quote starts with the character that escapes. -/
  quote_unescaped : ∀ q ∈ lx.allQuotes, q.head ≠ '\\'
  /-- A marker that a quote starts goes on in the same character and is longer than two quotes. -/
  quote_longer : ∀ q ∈ lx.allQuotes, ∀ m ∈ lx.openers, q.opens m.text → m ≠ q →
    2 * q.length < m.length ∧ m.text.all (· == q.head) = true
  /-- Where block comments nest, an opener and its closer start differently. -/
  nested_heads : lx.nestedBlocks = true → ∀ p ∈ lx.block, p.1.head ≠ p.2.head

instance (lx : Lexis) : Decidable lx.Regular := decidable_of_iff' _ lx.regular_iff

end Lexis

/-- The lexis of every supported language is regular. -/
theorem Parser.regular_lexis {p : Parser} {g : Grammar} (h : p.grammar? = some g) :
    g.lexis.Regular := by
  cases p <;> simp only [Parser.grammar?, Option.some.injEq, reduceCtorEq] at h <;> subst h <;>
    decide +kernel

end ImportScan
