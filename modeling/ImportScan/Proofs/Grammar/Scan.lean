import ImportScan.Proofs.Grammar.Behind
import ImportScan.Proofs.Grammar.Indented
import ImportScan.Proofs.Pattern.Preferred
import ImportScan.Proofs.Lexis.Transparency
import ImportScan.Proofs.Text.Cut

/-!
# Scanning a text piece by piece

What a grammar imports from a place on (`importsFrom`), where the place is told by the segments in
front of it and behind it. A stretch in which no form of statement starts is left out
(`importsFrom_skip`), and one that a form takes whole gives its names if no other form starts in it
(`importsFrom_match`): the statements found by the several forms are sorted by their starts, and
that one starts before all the others. Where every form starts behind an indent (`IsIndented`),
white space at the end of a line is such a stretch (`IsIndented.importsFrom_blanks`).
-/

namespace ImportScan

/-! ## The first of a sorted list -/

section Sorting

variable {α : Type} {le : α → α → Bool} (htrans : ∀ a b c, le a b → le b c → le a c)
  (htotal : ∀ a b, le a b || le b a)

/-- A list is cut in one way into what stands strictly before `y` and what does not. -/
theorem append_inj_of_le {y : α} {k k' l l' : List α} (h : k ++ k' = l ++ l')
    (hk : ∀ b ∈ k, le y b = false) (hk' : ∀ b ∈ k', le y b = true) (hl : ∀ b ∈ l, le y b = false)
    (hl' : ∀ b ∈ l', le y b = true) : k = l ∧ k' = l' := by
  have takeWhile_eq {k k' : List α} (hk : ∀ b ∈ k, le y b = false)
      (hk' : ∀ b ∈ k', le y b = true) : (k ++ k').takeWhile (!le y ·) = k := by
    refine takeWhile_append_stop (fun b hb => by simp [hk b hb]) fun b hb => ?_
    simp [hk' b (List.mem_of_head? hb)]
  have hkl : k = l := by
    rw [← takeWhile_eq hk hk', h, takeWhile_eq hl hl']
  subst hkl
  exact ⟨rfl, List.append_cancel_left h⟩

include htrans htotal in
/-- Sorting puts an element where it belongs among the others. -/
theorem exists_mergeSort_cons (y : α) (l : List α) :
    ∃ k k', (y :: l).mergeSort le = k ++ y :: k' ∧ l.mergeSort le = k ++ k' ∧
      (∀ b ∈ k, le y b = false) ∧ ∀ b ∈ k', le y b = true := by
  obtain ⟨k, k', h, h', hk⟩ := List.mergeSort_cons htrans htotal y l
  refine ⟨k, k', h, h', fun b hb => by simpa using hk b hb, ?_⟩
  have hsorted := List.pairwise_mergeSort htrans htotal (y :: l)
  rw [h] at hsorted
  exact (List.pairwise_cons.1 (List.pairwise_append.1 hsorted).2.1).1

include htrans htotal in
/-- What is less than all the others comes first. -/
theorem mergeSort_append_cons {x : α} {l l' : List α} (hl : ∀ y ∈ l, le y x = false)
    (hl' : ∀ y ∈ l', le x y = true) :
    (l ++ x :: l').mergeSort le = x :: (l ++ l').mergeSort le := by
  induction l with
  | nil =>
    obtain ⟨k, k', h, h', hk, -⟩ := exists_mergeSort_cons htrans htotal x l'
    have hnil : k = [] := by
      refine List.eq_nil_iff_forall_not_mem.2 fun b hb => ?_
      have hmem : b ∈ l' := List.mem_mergeSort.1 (h' ▸ List.mem_append_left k' hb)
      exact absurd (hl' b hmem) (by simp [hk b hb])
    subst hnil
    rw [List.nil_append, List.nil_append, h, h']
    rfl
  | cons y l ih =>
    obtain ⟨k, k', h, h', hk, hk'⟩ :=
      exists_mergeSort_cons htrans htotal y (l ++ x :: l')
    obtain ⟨j, j', g, g', hj, hj'⟩ := exists_mergeSort_cons htrans htotal y (l ++ l')
    rw [ih fun b hb => hl b (List.mem_cons_of_mem y hb)] at h'
    have hyx : le y x = false := hl y List.mem_cons_self
    cases k with
    | nil =>
      have hx : x ∈ k' := by
        rw [List.nil_append] at h'
        exact h' ▸ List.mem_cons_self
      exact absurd (hk' x hx) (by simp [hyx])
    | cons b k =>
      rw [List.cons_append] at h'
      obtain ⟨rfl, hrest⟩ := List.cons.inj h'
      obtain ⟨rfl, rfl⟩ := append_inj_of_le (hrest.symm.trans g')
        (fun b hb => hk b (List.mem_cons_of_mem x hb)) hk' hj hj'
      rw [List.cons_append, List.cons_append, h, g]
      rfl

end Sorting

namespace Grammar

open Segment Text

variable {g : Grammar} {s : Statement} {pre mid post : List Segment}

/-! ## Imports from a place on -/

/-- The statements found from a place on, in the order of their starts. -/
def foundFrom (g : Grammar) (c : Cursor) : List (Statement × Match Part) :=
  (g.statements.flatMap fun s => (s.pattern.matchesFrom 0 c).map fun m => (s, m)).mergeSort
    fun a b => a.2.offset ≤ b.2.offset

/-- What a text imports from the end of the segments `pre` on. -/
def importsFrom (g : Grammar) (pre post : List Segment) : List Text :=
  ((g.foundFrom (.between (showAll g.strings pre) (showAll g.strings post))).filter fun s =>
    startsInCode (showAll .blanked (pre ++ post)).toArray s.2).flatMap fun s => s.1.names s.2

/-- A grammar without scopes imports what it does from the start of the text on, whatever segments
show what cleaning leaves of it. -/
theorem imports_eq_importsFrom (hscopes : ∀ t, g.scopes t = []) {t : Text} {l : List Segment}
    (hl : ∀ contents, g.lexis.cleaned contents t = showAll contents l) :
    g.imports t = g.importsFrom [] l := by
  rw [imports_eq, hl, hl]
  simp only [hscopes, Scopes.inside]
  rfl

/-- At the end of the text nothing is left to import. -/
theorem importsFrom_nil
    (h : ∀ s ∈ g.statements, ∀ a, s.pattern.ends ⟨.between a [], []⟩ = []) :
    g.importsFrom pre [] = [] := by
  have hnone : g.foundFrom (.between (showAll g.strings pre) []) = [] := by
    unfold foundFrom
    have hforms : (g.statements.flatMap fun s => (s.pattern.matchesFrom 0
        (.between (showAll g.strings pre) [])).map fun m => (s, m)) = [] := by
      refine List.flatMap_eq_nil_iff.2 fun s hs => ?_
      rw [Pattern.matchesFrom_end (Cursor.after_between _ []), if_pos rfl,
        Pattern.matchAt?_eq_none_iff.2 (h s hs _)]
      rfl
    rw [hforms, List.mergeSort_nil]
  unfold importsFrom
  rw [showAll_nil, hnone]
  rfl

/-- Nothing is imported from nothing. -/
theorem imports_nil (hscopes : ∀ t, g.scopes t = [])
    (h : ∀ s ∈ g.statements, ∀ a, s.pattern.ends ⟨.between a [], []⟩ = []) :
    g.imports [] = [] := by
  have hclean (contents : StringContents) : g.lexis.cleaned contents [] = showAll contents [] :=
    Lexis.cleaned_nil contents _
  rw [imports_eq_importsFrom hscopes hclean, importsFrom_nil h]

/-- Where no statement starts, nothing is imported. -/
theorem importsFrom_skip (h : ∀ s ∈ g.statements,
      s.pattern.NoneIn (showAll g.strings pre) (showAll g.strings mid) (showAll g.strings post)) :
    g.importsFrom pre (mid ++ post) = g.importsFrom (pre ++ mid) post := by
  have hfound : g.foundFrom (.between (showAll g.strings pre) (showAll g.strings (mid ++ post))) =
      g.foundFrom (.between (showAll g.strings (pre ++ mid)) (showAll g.strings post)) := by
    unfold foundFrom
    congr 1
    refine List.flatMap_congr fun s hs => ?_
    rw [showAll_append, showAll_append, Pattern.matchesFrom_skip (h s hs)]
  unfold importsFrom
  rw [hfound, List.append_assoc]

/-- The segments start with a character of code, perhaps behind white space. -/
def StartsCode (contents : StringContents) (l : List Segment) : Prop :=
  ∃ w x r r', showAll contents l = w ++ x :: r ∧ showAll .blanked l = w ++ x :: r' ∧
    AllBlank w ∧ isBlank x = false

/-- Code that is not all white space starts with code, whatever follows it. -/
theorem startsCode_code_append {t : Text} (ht : ∃ c ∈ t, isBlank c = false)
    (contents : StringContents) (l : List Segment) : StartsCode contents (t.map .code ++ l) := by
  obtain ⟨w, x, r, rfl, hw, hx⟩ := exists_first (p := fun c => !isBlank c) (by simpa using ht)
  refine ⟨w, x, r ++ showAll contents l, r ++ showAll .blanked l, ?_, ?_,
    by simpa [AllBlank] using hw, by simpa using hx⟩
  · rw [showAll_append, showAll_code, List.append_assoc, List.cons_append]
  · rw [showAll_append, showAll_code, List.append_assoc, List.cons_append]

/-- A match of segments that start with code starts in code. -/
theorem startsInCode_of_startsCode {contents : StringContents} (hcode : StartsCode contents mid)
    {m : Match Part} (hoffset : m.offset = (showAll contents pre).length)
    (htext : m.text = showAll contents mid) (post : List Segment) :
    startsInCode (showAll .blanked (pre ++ (mid ++ post))).toArray m = true := by
  obtain ⟨w, x, r, r', hshown, hblanked, hw, hx⟩ := hcode
  have hfirst : m.firstOffset = (showAll .blanked pre ++ w).length := by
    rw [Match.firstOffset, htext, hshown, takeWhile_append_stop hw (by simp [hx]), hoffset,
      List.length_append, length_showAll .blanked contents]
  have hget : (showAll .blanked (pre ++ (mid ++ post)))[m.firstOffset]? = some x := by
    have htext : showAll .blanked (pre ++ (mid ++ post)) =
        showAll .blanked pre ++ w ++ x :: (r' ++ showAll .blanked post) := by
      rw [showAll_append, showAll_append, hblanked]
      simp only [List.append_assoc, List.cons_append]
    rw [htext, hfirst, List.getElem?_append_right (Nat.le_refl _), Nat.sub_self,
      List.getElem?_cons_zero]
  unfold startsInCode
  rw [List.getElem?_toArray, hget]
  simp [hx]

/-- A stretch that one form takes, and in which no other starts, gives the first of the statements
found. -/
theorem foundFrom_match {forms forms' : List Statement} {a t b : Text} {m : Match Part}
    (hforms : g.statements = forms ++ s :: forms')
    (hm : s.pattern.matchAt? (.between a (t ++ b)) = some m) (htext : m.text = t) (hne : t ≠ [])
    (hothers : ∀ s' ∈ forms ++ forms', s'.pattern.NoneIn a t b) :
    g.foundFrom (.between a (t ++ b)) = (s, m) :: g.foundFrom (.between (a ++ t) b) := by
  let found (c : Cursor) (s : Statement) := (s.pattern.matchesFrom 0 c).map fun m => (s, m)
  let next := Cursor.between (a ++ t) b
  have hoffset : m.offset = a.length :=
    (Pattern.offset_of_matchAt? hm).trans (Cursor.offset_between _ _)
  have hlength : m.length = t.length := (Pattern.after_eq_of_matchAt? hm).2.trans (by rw [htext])
  have hown : found (.between a (t ++ b)) s = (s, m) :: found next s := by
    simp only [found]
    rw [Pattern.matchesFrom_match hne hm hlength]
    rfl
  have hother : ∀ l : List Statement, (∀ s' ∈ l, s' ∈ forms ++ forms') →
      l.flatMap (found (.between a (t ++ b))) = l.flatMap (found next) := by
    intro l hl
    refine List.flatMap_congr fun s' hs' => ?_
    simp only [found]
    rw [Pattern.matchesFrom_skip (hothers s' (hl s' hs'))]
  -- all that is found behind the stretch starts behind it
  have hbehind : ∀ l : List Statement, ∀ f ∈ l.flatMap (found next), m.offset < f.2.offset := by
    intro l f hf
    obtain ⟨s', -, hf⟩ := List.mem_flatMap.1 hf
    obtain ⟨m', hm', rfl⟩ := List.mem_map.1 hf
    have hle := Pattern.le_offset_of_mem_matchesFrom hm'
    have hpos := List.length_pos_iff.2 hne
    rw [Cursor.offset_between, List.length_append] at hle
    dsimp only
    omega
  have hall : g.statements.flatMap (found (.between a (t ++ b))) =
      forms.flatMap (found next) ++ (s, m) :: (s :: forms').flatMap (found next) := by
    rw [hforms, List.flatMap_append, List.flatMap_cons, List.flatMap_cons, hown,
      hother forms fun s' h => List.mem_append_left forms' h,
      hother forms' fun s' h => List.mem_append_right forms h, List.cons_append]
  have hrest : g.statements.flatMap (found next) =
      forms.flatMap (found next) ++ (s :: forms').flatMap (found next) := by
    rw [hforms, List.flatMap_append]
  show List.mergeSort _ _ = _ :: List.mergeSort _ _
  rw [hall, hrest]
  apply mergeSort_append_cons
  · intro x y z hxy hyz
    simp only [decide_eq_true_eq] at hxy hyz ⊢
    omega
  · intro x y
    simp only [Bool.or_eq_true, decide_eq_true_eq]
    omega
  · intro f hf
    have := hbehind forms f hf
    simp only [decide_eq_false_iff_not]
    omega
  · intro f hf
    have := hbehind (s :: forms') f hf
    simp only [decide_eq_true_eq]
    omega

/-- A stretch that one form takes, and in which no other starts, gives the names of that form. -/
theorem importsFrom_match {forms forms' : List Statement} {m : Match Part}
    (hforms : g.statements = forms ++ s :: forms')
    (hm : s.pattern.matchAt?
      (.between (showAll g.strings pre) (showAll g.strings mid ++ showAll g.strings post)) = some m)
    (htext : m.text = showAll g.strings mid) (hcode : StartsCode g.strings mid)
    (hothers : ∀ s' ∈ forms ++ forms', s'.pattern.NoneIn (showAll g.strings pre)
      (showAll g.strings mid) (showAll g.strings post)) :
    g.importsFrom pre (mid ++ post) = s.names m ++ g.importsFrom (pre ++ mid) post := by
  have hne : showAll g.strings mid ≠ [] := by
    obtain ⟨w, x, r, r', hshown, -⟩ := hcode
    simp [hshown]
  have hoffset : m.offset = (showAll g.strings pre).length :=
    (Pattern.offset_of_matchAt? hm).trans (Cursor.offset_between _ _)
  have hstart := startsInCode_of_startsCode hcode hoffset htext post
  have hfound := foundFrom_match hforms hm htext hne hothers
  rw [← showAll_append, ← showAll_append] at hfound
  unfold importsFrom
  rw [hfound, List.filter_cons, hstart, if_pos rfl, List.flatMap_cons, List.append_assoc]

/-- Behind what no test of the forms notices, the statements are those of the rest, farther on. -/
theorem foundFrom_behind {a b : Text} (h : ∀ s ∈ g.statements, s.pattern.Overlooks a) :
    g.foundFrom (.between a b) =
      (g.foundFrom (.between [] b)).map (Prod.map id (Match.behind a)) := by
  have hplace : Cursor.between a b = (Cursor.between [] b).behind a := by
    rw [Cursor.behind_between, List.append_nil]
  have hall : (g.statements.flatMap fun s =>
        (s.pattern.matchesFrom 0 (.between a b)).map fun m => (s, m)) =
      (g.statements.flatMap fun s =>
        (s.pattern.matchesFrom 0 (.between [] b)).map fun m => (s, m)).map
          (Prod.map id (Match.behind a)) := by
    rw [List.map_flatMap]
    refine List.flatMap_congr fun s hs => ?_
    rw [hplace, Pattern.matchesFrom_behind (h s hs), List.map_map, List.map_map]
    rfl
  unfold foundFrom
  rw [hall]
  refine (List.map_mergeSort ?_).symm
  intro x _ y _
  simp

/-- Behind what no test of the forms notices, a text imports what it does by itself. -/
theorem importsFrom_behind (h : ∀ s ∈ g.statements, s.pattern.Overlooks (showAll g.strings pre))
    (hnames : ∀ s ∈ g.statements, ∀ m,
      s.names (m.behind (showAll g.strings pre)) = s.names m) :
    g.importsFrom pre post = g.importsFrom [] post := by
  have hcode (m : Match Part) :
      startsInCode (showAll .blanked (pre ++ post)).toArray
        (m.behind (showAll g.strings pre)) =
      startsInCode (showAll .blanked post).toArray m := by
    rw [showAll_append]
    exact startsInCode_behind (length_showAll _ _ pre) m
  have hforms : ∀ s ∈ g.foundFrom (.between [] (showAll g.strings post)), s.1 ∈ g.statements := by
    intro s hs
    obtain ⟨form, hform, hs⟩ := List.mem_flatMap.1 (List.mem_mergeSort.1 hs)
    obtain ⟨m, -, rfl⟩ := List.mem_map.1 hs
    exact hform
  unfold importsFrom
  rw [foundFrom_behind h, showAll_nil, List.nil_append, List.filter_map, List.flatMap_map]
  simp only [Function.comp_def, Prod.map_snd, Prod.map_fst, hcode, id_eq]
  exact List.flatMap_congr fun s hs => hnames s.1 (hforms s (List.mem_filter.1 hs).1) s.2

/-! ## Texts that are all code -/

variable {a b t : Text}

theorem importsFrom_code_skip (h : ∀ s ∈ g.statements, s.pattern.NoneIn a t b) :
    g.importsFrom (a.map .code) ((t ++ b).map .code) =
      g.importsFrom ((a ++ t).map .code) (b.map .code) := by
  rw [List.map_append, List.map_append]
  refine importsFrom_skip fun s hs => ?_
  rw [showAll_code, showAll_code, showAll_code]
  exact h s hs

/-- What a form takes gives its names. -/
theorem importsFrom_code_match {forms forms' : List Statement} {e : Point Part}
    {names : List Text} (ht : ∃ c ∈ t, isBlank c = false)
    (hforms : g.statements = forms ++ s :: forms')
    (he : s.pattern.Prefers ⟨.between a (t ++ b), []⟩ e) (hafter : e.cursor.after = b)
    (hnames : ∀ m : Match Part, (∀ i, m.part? i = e.part? i) → s.names m = names)
    (hothers : ∀ s' ∈ forms ++ forms', s'.pattern.NoneIn a t b) :
    g.importsFrom (a.map .code) ((t ++ b).map .code) =
      names ++ g.importsFrom ((a ++ t).map .code) (b.map .code) := by
  obtain ⟨m, hm, htext, hpart⟩ := Pattern.exists_match_of_prefers he hafter
  have hcode : StartsCode g.strings (t.map .code) := by
    have hstart := startsCode_code_append ht g.strings []
    rwa [List.append_nil] at hstart
  rw [List.map_append, List.map_append, ← hnames m hpart]
  apply importsFrom_match hforms
  · rwa [showAll_code, showAll_code, showAll_code]
  · rw [htext, showAll_code]
  · exact hcode
  · rwa [showAll_code, showAll_code, showAll_code]

/-! ### Statements behind an indent -/

/-- Every form starts where a statement may, and behind the indent with a character that is no white
space. -/
def IsIndented (cs : Text) (g : Grammar) : Prop := ∀ s ∈ g.statements, ∃ q : Pattern Part,
  q.Upfront ∧ ∀ p, s.pattern.ends p = (Pattern.statementStart cs ++ q).ends p

namespace IsIndented

variable {cs : Text} (hg : g.IsIndented cs)

include hg

/-- White space that ends its line, or the text, imports nothing. -/
theorem importsFrom_blanks (ht : AllBlank t) (hend : b = [] ∨ ∃ c ∈ t.getLast?, isGap c = false) :
    g.importsFrom (a.map .code) ((t ++ b).map .code) =
      g.importsFrom ((a ++ t).map .code) (b.map .code) := by
  refine importsFrom_code_skip fun s hs => ?_
  obtain ⟨q, hq, hends⟩ := hg s hs
  exact (Pattern.noneIn_blanks hq ht hend).congr hends

theorem importsFrom_end (a : Text) : g.importsFrom (a.map .code) [] = [] := by
  refine importsFrom_nil fun s hs a => ?_
  obtain ⟨q, hq, hends⟩ := hg s hs
  rw [hends, Pattern.ends_indented_nil hq]

end IsIndented

end Grammar
end ImportScan
