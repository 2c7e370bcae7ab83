import ImportScan.Proofs.Grammar.Seam
import ImportScan.Proofs.Lexis.Transparency

/-!
# Code without the start of a statement

A statement starts in code if the first of its characters that is not white space is left when the
strings are blanked too. Blanking brings up no character but spaces, so that character is one of the
code (`mem_of_startsInCode`), and a text whose code lacks the characters that statements start with
imports nothing (`imports_eq_nil_of_heads`). A statement that does start in code gives its names
(`mem_imports_of_mem_matchesIn`).
-/

namespace ImportScan.Grammar

open Pattern Text

variable {g : Grammar} {P : Char → Prop} {t : Text}

/-- Where the first solid character of a statement stands. -/
theorem getElem?_firstOffset {shown : Text} {s : Statement} {m : Match Part}
    (hm : m ∈ s.pattern.matchesIn shown) {w r : Text} {x : Char} (htext : m.text = w ++ x :: r)
    (hw : AllBlank w) (hx : isBlank x = false) :
    m.firstOffset = m.offset + w.length ∧ shown[m.firstOffset]? = some x := by
  obtain ⟨c, hc, -, hplace⟩ := exists_matchAt?_of_mem_matchesFrom hm
  have hafter := (after_eq_of_matchAt? hc).1
  have hfirst : m.firstOffset = m.offset + w.length := by
    rw [Match.firstOffset, htext, takeWhile_append_stop hw (by simp [hx])]
  have hlength : m.offset + w.length = (c.before.reverse ++ w).length := by
    rw [offset_of_matchAt? hc, c.offset_eq, List.length_append, List.length_reverse]
  have hshown : shown = c.before.reverse ++ w ++ x :: (r ++ m.stop.cursor.after) := by
    have hall : c.text = shown := hplace
    rw [← hall, Cursor.text, hafter, htext]
    simp only [List.append_assoc, List.cons_append]
  refine ⟨hfirst, ?_⟩
  rw [hfirst, hlength, hshown, List.getElem?_append_right (Nat.le_refl _), Nat.sub_self]
  rfl

/-- The first solid character of a statement that starts in code is one of the code. -/
theorem mem_of_startsInCode {shown code : Text} (hblanks : shown.BlanksTo code) {s : Statement}
    {m : Match Part} (hm : m ∈ s.pattern.matchesIn shown)
    (hstart : startsInCode code.toArray m = true) {w r : Text} {x : Char}
    (htext : m.text = w ++ x :: r) (hw : AllBlank w) (hx : isBlank x = false) : x ∈ code := by
  obtain ⟨y, hy, hkept⟩ := hblanks.exists_getElem? (getElem?_firstOffset hm htext hw hx).2
  have hsolid : isBlank y = false := by
    unfold startsInCode at hstart
    rw [List.getElem?_toArray, hy] at hstart
    simpa using hstart
  rcases hkept with rfl | rfl
  · exact List.mem_of_getElem? hy
  · cases hsolid

/-- A form of statement whose first solid character is of `P`. -/
structure HeadsSolid (P : Char → Prop) (s : Statement) : Prop where
  needs : s.pattern.Needs fun c => isBlank c = false
  heads : ∀ p, s.pattern.ends p ≠ [] → ∃ w x r, p.cursor.after = w ++ x :: r ∧ AllBlank w ∧
    isBlank x = false ∧ P x

/-- A text whose code has no character that a statement starts with imports nothing. -/
theorem imports_eq_nil_of_heads (hg : ∀ s ∈ g.statements, HeadsSolid P s)
    (ht : ∀ c ∈ g.lexis.cleaned .blanked t, ¬P c) : g.imports t = [] := by
  have hnone : (g.found (g.lexis.cleaned g.strings t)).filter (fun s =>
      startsInCode (g.lexis.cleaned .blanked t).toArray s.2) = [] := by
    refine List.filter_eq_nil_iff.2 fun f hf hstart => ?_
    obtain ⟨hform, hm⟩ := mem_found.1 hf
    obtain ⟨hneeds, hheads⟩ := hg f.1 hform
    obtain ⟨c, hc, -, -⟩ := exists_matchAt?_of_mem_matchesFrom hm
    obtain ⟨v, y, r, htext, hv, hy⟩ :=
      exists_first (p := fun c => !isBlank c) (by simpa using hneeds.exists_mem_text hc)
    have hv : AllBlank v := by simpa [AllBlank] using hv
    have hy : isBlank y = false := by simpa using hy
    -- the match and the text behind its start have the same first solid character
    obtain ⟨w, x, r', hafter, hw, hx, hP⟩ :=
      hheads ⟨c, []⟩ (List.ne_nil_of_mem (exists_mem_ends_of_matchAt? hc).2)
    have hcut : v ++ y :: (r ++ f.2.stop.cursor.after) = w ++ x :: r' := by
      rw [← hafter, (after_eq_of_matchAt? hc).1, htext]
      simp only [List.append_assoc, List.cons_append]
    obtain ⟨rfl, rfl, -⟩ := append_cons_inj_of_run hv hw hy hx hcut
    exact ht y (mem_of_startsInCode (g.lexis.cleaned_blanksTo_blanked g.strings t) hm hstart htext
      hv hy) hP
  rw [imports_eq, hnone]
  rfl

/-- The names of a statement that is found in code are imported. -/
theorem mem_imports_of_mem_matchesIn (hscopes : ∀ t, g.scopes t = []) {s : Statement}
    (hs : s ∈ g.statements) {m : Match Part}
    (hm : m ∈ s.pattern.matchesIn (g.lexis.cleaned g.strings t))
    (hstart : startsInCode (g.lexis.cleaned .blanked t).toArray m = true) {n : Text}
    (hn : n ∈ s.names m) : n ∈ g.imports t := by
  have hfound : (s, m) ∈ (g.found (g.lexis.cleaned g.strings t)).filter fun s =>
      startsInCode (g.lexis.cleaned .blanked t).toArray s.2 :=
    List.mem_filter.2 ⟨mem_found.2 ⟨hs, hm⟩, hstart⟩
  rw [imports_eq, hscopes]
  exact List.mem_flatMap.2 ⟨_, hfound, hn⟩

end ImportScan.Grammar
