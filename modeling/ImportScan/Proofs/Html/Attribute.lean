import ImportScan.Proofs.Grammar.Keyword
import ImportScan.Proofs.Grammar.Specifier
import ImportScan.Proofs.Text.LetterCase

/-!
# Source attributes

What a script tag is searched for starts at the edge of a word and goes on with `src`, an equality
sign and a quoted value (`sourceEnd`). A hyphen ends a word, so this is found not just in an
attribute named `src` but in every attribute with `src` behind the last hyphen of its name
(`Attribute.endsInSource`), and in no other attribute and no value (`noneIn_attributes`).
-/

namespace ImportScan.Html

open Grammar Pattern Text

/-! ## Attributes -/

/-- What stands behind the last hyphen; all of it, if there is none. -/
def lastPiece (n : Text) : Text := (n.reverse.takeWhile (· != '-')).reverse

/-- Whether the text is `src` in any letter case. -/
def isSrc (t : Text) : Bool := t.map fold == "src".toList

/-- An attribute of a start tag and the white space in front of it. The name is made of word
characters and hyphens; the value is not empty and has no quotes, brackets, equality signs and
newlines. -/
structure Attribute where
  gap : Spaces
  name : { n : Text // ∀ c ∈ n, isWord c = true ∨ c = '-' }
  value : { v : Text // v ≠ [] ∧ ∀ c ∈ v, c ∉ ['\'', '"', '<', '>', '=', '\n'] }

namespace Attribute

/-- The attribute as it is written. -/
def text (a : Attribute) : Text :=
  a.gap.val ++ a.name.val ++ ('=' :: '"' :: (a.value.val ++ ['"']))

/-- Whether the attribute is named `src`. -/
def isSource (a : Attribute) : Bool := isSrc a.name.val

/-- Whether `src` stands behind the last hyphen of the name. -/
def endsInSource (a : Attribute) : Bool := isSrc (lastPiece a.name.val)

end Attribute

variable {a b r t u v z : Text} {x y : Char} {s : Point Part}

theorem lastPiece_append (hu : ∀ c ∈ u.getLast?, c = '-') (hv : '-' ∉ v) :
    lastPiece (u ++ v) = v := by
  unfold lastPiece
  rw [List.reverse_append, takeWhile_append_stop, List.reverse_reverse]
  · intro c hc
    exact bne_iff_ne.2 fun h => hv (h ▸ List.mem_reverse.1 hc)
  · intro c hc
    rw [List.head?_reverse] at hc
    simp [hu c hc]

/-- A name is cut in front of its last piece, at its start or behind a hyphen. -/
theorem exists_eq_append_lastPiece (n : Text) :
    ∃ u, n = u ++ lastPiece n ∧ (∀ c ∈ u.getLast?, c = '-') ∧ '-' ∉ lastPiece n := by
  refine ⟨(n.reverse.dropWhile (· != '-')).reverse, ?_, ?_, ?_⟩
  · rw [lastPiece, ← List.reverse_append, List.takeWhile_append_dropWhile, List.reverse_reverse]
  · intro c hc
    rw [List.getLast?_reverse] at hc
    have hhead := List.head?_dropWhile_not (· != '-') n.reverse
    rw [hc] at hhead
    simpa using hhead
  · intro h
    simpa using List.all_eq_true.1 List.all_takeWhile _ (List.mem_reverse.1 h)

/-! ## The letters of `src` and other characters -/

theorem fold_mem_of_isSrc (ht : isSrc t = true) : ∀ c ∈ t, fold c ∈ "src".toList := by
  intro c hc
  rw [← eq_of_beq ht]
  exact List.mem_map_of_mem hc

/-- The characters that what is searched for cannot go over. -/
def isMark (c : Char) : Bool := ['=', '"', '>'].contains c

theorem isMark_eq_false_of_isBlank {c : Char} (h : isBlank c = true) : isMark c = false := by
  have hcodes : ∀ n ∈ blankCodes, isMark (Char.ofNat n) = false := by decide +kernel
  rw [← Char.ofNat_toNat c]
  exact hcodes _ (toNat_mem_blankCodes h)

theorem isMark_eq_false_of_fold {c : Char} (h : fold c ∈ "src".toList) : isMark c = false := by
  have hmarks : ∀ m ∈ ['=', '"', '>'], fold m ∉ "src".toList := by decide +kernel
  by_contra hmark
  refine hmarks c ?_ h
  simpa only [isMark, Bool.not_eq_false, List.contains_iff_mem] using hmark

theorem ne_hyphen_of_fold {c : Char} (h : fold c ∈ "src".toList) : c ≠ '-' := by
  rintro rfl
  exact absurd h (by decide +kernel)

/-! ## What a tag is searched for -/

/-- The name `src` from the edge of a word on, and its value. -/
def sourceEnd : Pattern Part :=
  wordEdge ++ anyCase "src".toList ++ blanks0 ++ char '=' ++ blanks0 ++ specifier

theorem exists_of_ends_sourceEnd (hs : sourceEnd.ends s ≠ []) : atWordEdge s.cursor = true ∧
    ∃ w b r, s.cursor.after = w ++ b ++ '=' :: r ∧ isSrc w = true ∧ AllBlank b := by
  obtain ⟨e, he⟩ := List.exists_mem_of_ne_nil _ hs
  simp only [sourceEnd, ends_append_assoc] at he
  obtain ⟨m, hhere, he⟩ := mem_ends_append.1 he
  obtain ⟨hedge, hm⟩ := mem_ends_here.1 hhere
  rw [hm] at he
  obtain ⟨m₁, hname, he⟩ := mem_ends_append.1 he
  obtain ⟨m₂, hblanks, he⟩ := mem_ends_append.1 he
  obtain ⟨m₃, hsign, -⟩ := mem_ends_append.1 he
  obtain ⟨w, r₁, hafter, hw, rfl⟩ := (TakesJust.anyCase _ _ _).1 hname
  obtain ⟨b, r₂, hr₁, hb, -, rfl⟩ := mem_ends_run.1 hblanks
  obtain ⟨c, r, hr₂, hc, -⟩ := mem_ends_one.1 hsign
  obtain rfl := eq_of_beq hc
  rw [Point.after_skip_of_eq hafter] at hr₁
  rw [Point.after_skip_of_eq (Point.after_skip_of_eq hafter ▸ hr₁)] at hr₂
  subst hr₁ hr₂
  refine ⟨hedge, w, b, r, ?_, beq_iff_eq.2 hw, hb⟩
  rw [hafter, List.append_assoc]

/-- In front of a mark it starts only if that is an equality sign, behind `src` and white space. -/
theorem exists_of_ends_before_mark (hs : sourceEnd.ends s ≠ [])
    (hafter : s.cursor.after = z ++ y :: r) (hz : ∀ c ∈ z, isMark c = false)
    (hy : isMark y = true) : y = '=' ∧
      atWordEdge s.cursor = true ∧ ∃ w b, z = w ++ b ∧ isSrc w = true ∧ AllBlank b := by
  obtain ⟨hedge, w, b, r', hcut, hw, hb⟩ := exists_of_ends_sourceEnd hs
  have hfront : ∀ c ∈ w ++ b, isMark c = false := List.forall_mem_append.2
    ⟨fun c hc => isMark_eq_false_of_fold (fold_mem_of_isSrc hw c hc),
      fun c hc => isMark_eq_false_of_isBlank (hb c hc)⟩
  obtain ⟨rfl, rfl, -⟩ :=
    append_cons_inj_of_first hz hfront hy (by decide) (hafter.symm.trans hcut)
  exact ⟨rfl, hedge, w, b, rfl, hw, hb⟩

/-- It starts at no mark, and in no text that a quote or a bracket ends. -/
theorem noneIn_value (ht : ∀ c ∈ t, isMark c = false) (hy : isMark y = true) (hne : y ≠ '=') :
    sourceEnd.NoneIn a t (y :: b) := by
  intro u x v huv
  by_contra hs
  exact hne (exists_of_ends_before_mark hs rfl (fun c hc => ht c (huv ▸ List.mem_append_right u hc))
    hy).1

theorem noneIn_mark (hy : isMark y = true) : sourceEnd.NoneIn a [y] b := by
  intro u x v huv
  by_contra hs
  obtain ⟨rfl, rfl, rfl⟩ : u = [] ∧ y = x ∧ v = [] := by
    cases u with
    | nil => simpa using huv
    | cons z u => simp at huv
  obtain ⟨-, -, w, b, hwb, hw, -⟩ :=
    exists_of_ends_before_mark (z := []) hs rfl (fun c hc => nomatch hc) hy
  rw [(List.append_eq_nil_iff.1 hwb.symm).1] at hw
  cases hw

/-! ## Names -/

namespace Attribute

theorem isMark_name (a : Attribute) : ∀ c ∈ a.gap.val ++ a.name.val, isMark c = false := by
  refine List.forall_mem_append.2 ⟨fun c hc => isMark_eq_false_of_isBlank (a.gap.2.2 c hc), ?_⟩
  intro c hc
  by_contra hmark
  have hmarks : ∀ m ∈ ['=', '"', '>'], ¬(isWord m = true ∨ m = '-') := by decide +kernel
  refine hmarks c ?_ (a.name.2 c hc)
  simpa only [isMark, Bool.not_eq_false, List.contains_iff_mem] using hmark

theorem isBlank_name (a : Attribute) : ∀ c ∈ a.name.val, isBlank c = false := by
  intro c hc
  rcases a.name.2 c hc with hword | rfl
  · exact isBlank_eq_false_of_isWord hword
  · decide

theorem isMark_value (a : Attribute) : ∀ c ∈ a.value.val, isMark c = false := by
  intro c hc
  by_contra hmark
  refine a.value.2.2 c hc ?_
  have hsub : ['=', '"', '>'] ⊆ ['\'', '"', '<', '>', '=', '\n'] := by decide
  refine hsub ?_
  simpa only [isMark, Bool.not_eq_false, List.contains_iff_mem] using hmark

/-- What goes on to the end of the name with no white space in front starts in the name. -/
theorem exists_eq_gap_append (a : Attribute) (huv : a.gap.val ++ a.name.val = u ++ x :: v)
    (hx : isBlank x = false) : ∃ d, u = a.gap.val ++ d ∧ a.name.val = d ++ x :: v := by
  rcases List.append_eq_append_iff.1 huv with ⟨d, hu, hd⟩ | ⟨d, hgap, hd⟩
  · exact ⟨d, hu, hd⟩
  · cases d with
    | nil => exact ⟨[], by rw [hgap, List.append_nil, List.append_nil], hd.symm⟩
    | cons y d =>
      obtain ⟨rfl, -⟩ := List.cons.inj hd
      have hblank := a.gap.2.2 x (hgap ▸ List.mem_append_right u List.mem_cons_self)
      rw [hx] at hblank
      cases hblank

/-- In front of the equality sign it starts only at the last piece of the name, if that is `src`. -/
theorem eq_lastPiece_of_ends (a : Attribute) (huv : a.gap.val ++ a.name.val = u ++ x :: v)
    (hs : sourceEnd.ends ⟨.between (b ++ u) (x :: v ++ '=' :: r), []⟩ ≠ []) :
    x :: v = lastPiece a.name.val ∧ a.endsInSource = true := by
  have hz : ∀ c ∈ x :: v, isMark c = false := fun c hc =>
    a.isMark_name c (huv ▸ List.mem_append_right u hc)
  obtain ⟨-, hedge, w, b', hcut, hw, hb'⟩ := exists_of_ends_before_mark hs rfl hz (by decide)
  have hfold := fold_mem_of_isSrc hw
  obtain ⟨w, rfl⟩ : ∃ w', w = x :: w' := by
    cases w with
    | nil => cases hw
    | cons y w => exact ⟨w, by rw [(List.cons.inj hcut).1]⟩
  have hx := hfold x List.mem_cons_self
  obtain ⟨d, rfl, hname⟩ := a.exists_eq_gap_append huv (isBlank_eq_false_of_fold_mem (by decide) hx)
  obtain rfl : b' = [] := by
    refine List.eq_nil_iff_forall_not_mem.2 fun c hc => ?_
    have hmem : c ∈ a.name.val :=
      hname ▸ List.mem_append_right d (hcut ▸ List.mem_append_right _ hc)
    exact absurd (hb' c hc) (by simp [a.isBlank_name c hmem])
  rw [List.append_nil] at hcut
  have hword : isWord x = true :=
    (a.name.2 x (by simp [hname])).resolve_right (ne_hyphen_of_fold hx)
  have hapart : EndsApart d :=
    forall_getLast?_of_append (forall_getLast?_of_append ((atWordEdge_between_cons hword).1 hedge))
  have hlast : ∀ c ∈ d.getLast?, c = '-' := by
    intro c hc
    have hmem : c ∈ a.name.val := hname ▸ List.mem_append_left _ (List.mem_of_getLast? hc)
    exact (a.name.2 c hmem).resolve_left (by simp [hapart c hc])
  have hpiece : lastPiece a.name.val = x :: v := by
    rw [hname]
    exact lastPiece_append hlast fun h => ne_hyphen_of_fold (hfold _ (hcut ▸ h)) rfl
  exact ⟨hpiece.symm, by rw [endsInSource, hpiece, hcut, hw]⟩

/-- It starts in no attribute whose name does not end in `src`. -/
theorem noneIn_text (a : Attribute) (h : a.endsInSource = false) (r : Text) :
    sourceEnd.NoneIn b a.text r := by
  have hname : sourceEnd.NoneIn b (a.gap.val ++ a.name.val)
      ('=' :: '"' :: (a.value.val ++ ['"']) ++ r) := by
    intro u x v huv
    by_contra hs
    have hends := (a.eq_lastPiece_of_ends huv hs).2
    rw [h] at hends
    cases hends
  refine hname.append ?_
  have hvalue {b : Text} : sourceEnd.NoneIn b (a.value.val ++ ['"']) r :=
    (noneIn_value a.isMark_value (by decide) (by decide)).append (noneIn_mark (by decide))
  exact (noneIn_mark (y := '=') (by decide)).append
    ((noneIn_mark (y := '"') (by decide)).append hvalue)

theorem isSpecifier_value (a : Attribute) : IsSpecifier a.value.val := by
  refine ⟨a.value.2.1, fun c hc => ?_⟩
  have hnot := a.value.2.2 c hc
  constructor
  · cases hquote : isQuote c with
    | false => rfl
    | true =>
      rw [isQuote, Bool.or_eq_true, beq_iff_eq, beq_iff_eq] at hquote
      rcases hquote with rfl | rfl <;> exact absurd (by decide) hnot
  · rintro rfl
    exact hnot (by decide)

/-- At a word edge in front of `src` and the equality sign the value is read. -/
theorem exists_prefers (a : Attribute) (hz : isSrc z = true)
    (hedge : atWordEdge s.cursor = true)
    (hs : s.cursor.after = z ++ '=' :: '"' :: (a.value.val ++ '"' :: r)) :
    ∃ e, sourceEnd.Prefers s e ∧ e.cursor.after = r ∧ e.part? .name = some a.value.val := by
  have hnone {x : Char} {r : Text} (hx : isBlank x = false) :
      (blanks0 : Pattern Part).TakesFirst [] (x :: r) :=
    takesFirst_run (fun c hc => nomatch hc) (fun c hc => Option.some.inj hc ▸ hx) (Nat.zero_le _)
  have hhere := reads_here hedge
  rw [hs] at hhere
  have hname := hhere.append (takesFirst_anyCase (k := "src".toList) (eq_of_beq hz) _)
  have hsign := (hname.append (t := []) (hnone (by decide))).append (takesFirst_text ['='] _)
  have hfront := hsign.append (t := []) (hnone (by decide))
  exact exists_prefers_append_specifier hfront (by decide) a.isSpecifier_value

/-- In an attribute whose name ends in `src` it starts at the last piece of the name first, and
takes the attribute to its end. -/
theorem exists_front (a : Attribute) (h : a.endsInSource = true) (b r : Text) :
    ∃ f w, a.text = f ++ w ∧ (∀ c ∈ f, c ≠ '>') ∧ sourceEnd.NoneIn b f (w ++ r) ∧
      ∃ e, sourceEnd.Prefers ⟨.between (b ++ f) (w ++ r), []⟩ e ∧ e.cursor.after = r ∧
        e.part? .name = some a.value.val := by
  obtain ⟨d, hname, hlast, hhyphen⟩ := exists_eq_append_lastPiece a.name.val
  have hcut : a.gap.val ++ a.name.val = a.gap.val ++ d ++ lastPiece a.name.val := by
    rw [List.append_assoc, ← hname]
  refine ⟨a.gap.val ++ d, lastPiece a.name.val ++ '=' :: '"' :: (a.value.val ++ ['"']), ?_, ?_, ?_,
    ?_⟩
  · rw [text, hcut, List.append_assoc]
  · rintro c hc rfl
    have hmark := a.isMark_name '>' (hcut ▸ List.mem_append_left _ hc)
    exact absurd hmark (by decide)
  · intro u x v huv
    by_contra hs
    have hplace : a.gap.val ++ a.name.val = u ++ x :: (v ++ lastPiece a.name.val) := by
      rw [hcut, huv, List.append_assoc, List.cons_append]
    have hall := (a.eq_lastPiece_of_ends (r := '"' :: (a.value.val ++ ['"']) ++ r) hplace
      (by simpa using hs)).1
    have hlength := congrArg List.length hall
    simp only [List.length_cons, List.length_append] at hlength
    omega
  · refine a.exists_prefers (z := lastPiece a.name.val) h ?_ (by simp)
    obtain ⟨x, z, hz⟩ : ∃ x z, lastPiece a.name.val = x :: z := by
      apply List.exists_cons_of_ne_nil
      intro hnil
      rw [endsInSource, hnil] at h
      cases h
    have hword : isWord x = true := by
      have hmem : x ∈ lastPiece a.name.val := hz ▸ List.mem_cons_self
      refine (a.name.2 x (hname ▸ List.mem_append_right d hmem)).resolve_right ?_
      rintro rfl
      exact hhyphen hmem
    have hapart : EndsApart (b ++ (a.gap.val ++ d)) :=
      EndsApart.append_left
        ((AllBlank.wordless a.gap.2.2).endsApart.append fun c hc => hlast c hc ▸ by decide)
        (List.append_ne_nil_of_left_ne_nil a.gap.2.1 d) b
    rw [hz]
    exact (atWordEdge_between_cons hword).2 hapart

end Attribute

/-- It starts in no attributes whose names do not end in `src`. -/
theorem noneIn_attributes {attrs : List Attribute} (h : ∀ a ∈ attrs, a.endsInSource = false)
    (b r : Text) : sourceEnd.NoneIn b (attrs.flatMap Attribute.text) r := by
  induction attrs generalizing b with
  | nil => exact fun u x v huv => by simp at huv
  | cons a attrs ih =>
    rw [List.flatMap_cons]
    exact (a.noneIn_text (h a List.mem_cons_self) _).append
      (ih (fun a ha => h a (List.mem_cons_of_mem _ ha)) _)

end ImportScan.Html
