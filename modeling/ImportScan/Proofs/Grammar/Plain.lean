import ImportScan.Proofs.Grammar.Behind
import ImportScan.Proofs.Lexis.Transparency

/-!
# Imports of plain text

A grammar with one form of statement finds the matches of its pattern as they stand. A text without
the openers of comments and strings is all code, so what it imports is read off its own matches
(`imports_of_single`).
-/

namespace ImportScan

namespace Grammar

variable {g : Grammar} {s : Statement} {t : Text}

/-- The only form of statement is found where its pattern matches. -/
theorem found_of_single (hs : g.statements = [s]) (t : Text) :
    g.found t = (s.pattern.matchesIn t).map fun m => (s, m) := by
  have horder : (s.pattern.matchesIn t).Pairwise fun m m' => m.offset ≤ m'.offset :=
    Pattern.pairwise_matchesFrom s.pattern 0 (.atStart t)
  rw [found, hs, List.flatMap_singleton]
  refine List.mergeSort_of_pairwise (List.pairwise_map.2 (horder.imp ?_))
  intro m m' h
  exact decide_eq_true h

/-- What a grammar with one form of statement imports from a text without comments and strings. -/
theorem imports_of_single (hs : g.statements = [s])
    (ht : ∀ c ∈ t, ∀ m ∈ g.lexis.openers, c ≠ m.head) :
    g.imports t = ((s.pattern.matchesIn t).filter (startsInCode t.toArray)).flatMap fun m =>
      if (g.scopes t).inside m.offset then [] else s.names m := by
  rw [imports_eq, Lexis.cleaned_eq_self ht, Lexis.cleaned_eq_self ht, found_of_single hs,
    List.filter_map, List.flatMap_map]
  rfl

end Grammar
end ImportScan
