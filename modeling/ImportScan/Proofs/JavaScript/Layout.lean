import ImportScan.Proofs.JavaScript.Script
import ImportScan.Proofs.Layout.Basic

/-!
# References on one line

A reference whose module has no parenthesis in its name is read the same whatever follows it on its
line: it gives the name of its module, and then come the imports of what follows
(`imports_reference_append`). So it is read apart from the references behind its semicolon.
-/

namespace ImportScan.JavaScript

open Grammar Segment Text

theorem imports_reference_append (r : Reference) (hname : '(' ∉ r.specifier.val) {seam : Text}
    (hne : seam ≠ []) (hwordless : seam.Wordless) (hcode : IsCode seam) {rest : Text}
    (hrest : StartsUnquoted (seam ++ rest)) :
    javaScript.imports (r.text ++ (seam ++ rest)) =
      r.specifier.val :: javaScript.imports rest := by
  let post := Lexis.slashedRaw.segments rest
  have hclean (contents : StringContents) :
      javaScript.lexis.cleaned contents (r.text ++ (seam ++ rest)) =
        showAll contents (r.segments ++ (seam.map .code ++ post)) := by
    show Lexis.slashedRaw.cleaned contents _ = _
    rw [r.cleaned_append contents hrest, Lexis.cleaned_code_append hcode, showAll_append,
      showAll_append, showAll_code]
    rfl
  have hstart : (showAll .kept []).EndsApart := fun c hc => nomatch hc
  have hfront : (showAll .kept ([] ++ r.segments ++ seam.map .code)).EndsApart := by
    rw [showAll_append, showAll_code]
    exact hwordless.endsApart.append_left hne _
  have hbehind : javaScript.importsFrom ([] ++ r.segments ++ seam.map .code) post =
      javaScript.importsFrom [] post :=
    importsFrom_behind (fun s hs => overlooks_statement hs hfront)
      fun s hs m => names_behind hs _ m
  have hrest : javaScript.imports rest = javaScript.importsFrom [] post :=
    imports_eq_importsFrom (fun _ => rfl) fun _ => rfl
  rw [imports_eq_importsFrom (fun _ => rfl) hclean,
    importsFrom_reference r hstart (.inr hname), importsFrom_wordless hwordless, hbehind, hrest]

theorem Reference.readsApart (r : Reference) (hname : '(' ∉ r.specifier.val) :
    javaScript.ReadsApart r.text := by
  have hnil : javaScript.imports [] = [] :=
    Grammar.imports_nil (fun _ => rfl) ends_statement_end
  have halone : javaScript.imports (r.text ++ ([';'] ++ [])) =
      r.specifier.val :: javaScript.imports [] :=
    imports_reference_append r hname (List.cons_ne_nil _ _) (by decide) (by decide)
      (startsUnquoted_cons (by decide) _)
  rw [List.append_nil, hnil] at halone
  intro c hc rest
  have hseam : Wordless [';', c] ∧ IsCode [';', c] := by
    rcases hc with rfl | rfl <;> decide
  have hrest := imports_reference_append r hname (List.cons_ne_nil _ _) hseam.1 hseam.2
    (startsUnquoted_cons (by decide) (c :: rest))
  rw [halone]
  exact hrest

end ImportScan.JavaScript
