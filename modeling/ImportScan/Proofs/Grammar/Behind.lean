import ImportScan.Grammar.Basic
import ImportScan.Proofs.Pattern.Behind
import Mathlib.Data.List.Basic

/-!
# Imports behind a text

If no statement starts in what stands in front of a text, and no test for a place notices it, then
the statements found are those of the text itself, farther on (`found_behind`), and they import the
same names (`imports_behind`).
-/

namespace ImportScan

variable {front t : Text}

/-! ## Matches -/

/-- Where no match starts in front and no test notices it, the matches are those of the text. -/
theorem Pattern.matchesIn_behind {ι : Type} [DecidableEq ι] {p : Pattern ι}
    (hp : p.Overlooks front) (hfront : p.NoneIn [] front t) :
    p.matchesIn (front ++ t) = (p.matchesIn t).map (Match.behind front) := by
  have hplace : Cursor.between ([] ++ front) t = (Cursor.atStart t).behind front := by
    rw [Cursor.atStart_eq_between, Cursor.behind_between, List.append_nil, List.nil_append]
  unfold matchesIn
  rw [Cursor.atStart_eq_between, matchesFrom_skip hfront, hplace, matchesFrom_behind hp]

namespace Match

@[simp] theorem firstOffset_behind (front : Text) (m : Match Part) :
    (m.behind front).firstOffset = front.length + m.firstOffset := by
  unfold firstOffset
  rw [offset_behind, text_behind, Nat.add_assoc]

@[simp] theorem nameBy_behind (read : Text → Text) (front : Text) (m : Match Part) :
    nameBy read (m.behind front) = nameBy read m := by
  unfold nameBy
  rw [part?_behind]

end Match

namespace Grammar

variable {g : Grammar}

/-! ## Statements -/

theorem startsInCode_behind {codeFront code : Text} (h : codeFront.length = front.length)
    (m : Match Part) :
    startsInCode (codeFront ++ code).toArray (m.behind front) = startsInCode code.toArray m := by
  unfold startsInCode
  rw [Match.firstOffset_behind, List.getElem?_toArray, List.getElem?_toArray, ← h,
    List.getElem?_append_right (Nat.le_add_right _ _), Nat.add_sub_cancel_left]

theorem mem_found {s : Statement × Match Part} :
    s ∈ g.found t ↔ s.1 ∈ g.statements ∧ s.2 ∈ s.1.pattern.matchesIn t := by
  unfold found
  rw [List.mem_mergeSort, List.mem_flatMap]
  constructor
  · rintro ⟨form, hform, hs⟩
    obtain ⟨m, hm, rfl⟩ := List.mem_map.1 hs
    exact ⟨hform, hm⟩
  · rintro ⟨hform, hm⟩
    exact ⟨s.1, hform, List.mem_map.2 ⟨s.2, hm, rfl⟩⟩

theorem found_behind (h : ∀ s ∈ g.statements,
      s.pattern.matchesIn (front ++ t) = (s.pattern.matchesIn t).map (Match.behind front)) :
    g.found (front ++ t) = (g.found t).map (Prod.map id (Match.behind front)) := by
  have hall : (g.statements.flatMap fun s =>
        (s.pattern.matchesIn (front ++ t)).map fun m => (s, m)) =
      (g.statements.flatMap fun s => (s.pattern.matchesIn t).map fun m => (s, m)).map
        (Prod.map id (Match.behind front)) := by
    rw [List.map_flatMap]
    refine List.flatMap_congr fun s hs => ?_
    rw [h s hs, List.map_map, List.map_map]
    rfl
  unfold found
  rw [hall]
  refine (List.map_mergeSort ?_).symm
  intro a _ b _
  simp

/-! ## Names -/

/-- What a grammar imports, told by what cleaning leaves of the text. -/
theorem imports_eq (g : Grammar) (t : Text) :
    g.imports t = ((g.found (g.lexis.cleaned g.strings t)).filter fun s =>
        startsInCode (g.lexis.cleaned .blanked t).toArray s.2).flatMap fun s =>
      if (g.scopes (g.lexis.cleaned g.strings t)).inside s.2.offset then [] else s.1.names s.2 :=
  rfl

/-- Behind a text in which no statement starts the imports are the same, if the places whose
statements import nothing are. `cleanFront` is what cleaning leaves of the text in front. -/
theorem imports_behind_of_inside (cleanFront : StringContents → Text)
    (hclean : ∀ contents, g.lexis.cleaned contents (front ++ t) =
      cleanFront contents ++ g.lexis.cleaned contents t)
    (hscopes : ∀ n, (g.scopes (cleanFront g.strings ++ g.lexis.cleaned g.strings t)).inside
      ((cleanFront g.strings).length + n) = (g.scopes (g.lexis.cleaned g.strings t)).inside n)
    (hfound : ∀ s ∈ g.statements,
      s.pattern.matchesIn (cleanFront g.strings ++ g.lexis.cleaned g.strings t) =
        (s.pattern.matchesIn (g.lexis.cleaned g.strings t)).map
          (Match.behind (cleanFront g.strings)))
    (hnames : ∀ s ∈ g.statements, ∀ m,
      s.names (m.behind (cleanFront g.strings)) = s.names m) :
    g.imports (front ++ t) = g.imports t := by
  have hlength (contents : StringContents) : (cleanFront contents).length = front.length := by
    have := congrArg List.length (hclean contents)
    simpa using this.symm
  have hcode (m : Match Part) :
      startsInCode (cleanFront .blanked ++ g.lexis.cleaned .blanked t).toArray
        (m.behind (cleanFront g.strings)) =
      startsInCode (g.lexis.cleaned .blanked t).toArray m :=
    startsInCode_behind ((hlength .blanked).trans (hlength g.strings).symm) m
  rw [imports_eq, imports_eq, hclean, hclean, found_behind hfound, List.filter_map,
    List.flatMap_map]
  simp only [Function.comp_def, Prod.map_snd, Prod.map_fst, hcode, id_eq, Match.offset_behind,
    hscopes]
  refine List.flatMap_congr fun s hs => ?_
  rw [hnames s.1 (mem_found.1 (List.mem_filter.1 hs).1).1 s.2]

/-- In a language without such places the imports behind the text are the same. -/
theorem imports_behind (cleanFront : StringContents → Text)
    (hclean : ∀ contents, g.lexis.cleaned contents (front ++ t) =
      cleanFront contents ++ g.lexis.cleaned contents t)
    (hscopes : ∀ t, g.scopes t = [])
    (hfound : ∀ s ∈ g.statements,
      s.pattern.matchesIn (cleanFront g.strings ++ g.lexis.cleaned g.strings t) =
        (s.pattern.matchesIn (g.lexis.cleaned g.strings t)).map
          (Match.behind (cleanFront g.strings)))
    (hnames : ∀ s ∈ g.statements, ∀ m,
      s.names (m.behind (cleanFront g.strings)) = s.names m) :
    g.imports (front ++ t) = g.imports t := by
  refine imports_behind_of_inside cleanFront hclean (fun n => ?_) hfound hnames
  rw [hscopes, hscopes]
  rfl

end Grammar
end ImportScan
