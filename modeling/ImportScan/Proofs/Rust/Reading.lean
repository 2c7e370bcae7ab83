import ImportScan.Proofs.Pattern.Preferred
import ImportScan.Proofs.Rust.Externs
import ImportScan.Proofs.Rust.Roots

/-!
# Use declarations read

The form reads a declaration piece by piece: the indent, the visibility, the word `use` and what
goes on to the semicolon, of which a tree has none. It keeps the tree with the white space around
it, which is the tree itself once white space is collapsed (`Declaration.exists_prefers`).
-/

namespace ImportScan.Rust

open Grammar Pattern Segment Text

variable {a b rest t : Text}

/-! ## The characters of a declaration -/

/-- Whether `c` may stand in a use tree. -/
def isTreeChar (c : Char) : Bool := isWord c || isBlank c || [':', '{', '}', ',', '*'].contains c

/-- The text is made of characters of use trees. -/
def TreeText (t : Text) : Prop := ∀ c ∈ t, isTreeChar c = true

instance (t : Text) : Decidable (TreeText t) := inferInstanceAs (Decidable (∀ c ∈ t, _))

theorem TreeText.append (ha : TreeText a) (hb : TreeText b) : TreeText (a ++ b) :=
  List.forall_mem_append.2 ⟨ha, hb⟩

theorem treeText_blanks (hb : AllBlank b) : TreeText b := by
  intro c hc
  simp [isTreeChar, hb c hc]

theorem treeText_word (w : Word) : TreeText w.val := by
  intro c hc
  simp [isTreeChar, w.2.2 c hc]

theorem treeText_colons : TreeText [':', ':'] := by decide

theorem Lead.treeText (lead : Lead) : TreeText (lead.textBy id) := by
  cases lead with
  | none => exact fun c hc => nomatch hc
  | some b => exact treeText_colons.append (treeText_blanks b.2)

theorem Path.treeText (p : Path) : TreeText (p.textBy id) := by
  refine (treeText_word p.root).append ?_
  induction p.steps with
  | nil => exact fun c hc => nomatch hc
  | cons s steps ih =>
    have hstep : TreeText (s.textBy id) := (treeText_blanks s.before.2).append
      (treeText_colons.append ((treeText_blanks s.after.2).append (treeText_word s.name)))
    exact hstep.append ih

mutual

theorem Tree.treeText : ∀ t : Tree, TreeText (t.textBy id)
  | .item lead path tail => lead.treeText.append (path.treeText.append tail.treeText)
  | .group lead members => lead.treeText.append
      (TreeText.append (by decide) (members.treeText.append (by decide)))

theorem Tail.treeText : ∀ t : Tail, TreeText (t.textBy id)
  | .nothing => fun c hc => nomatch hc
  | .all before after => (treeText_blanks before.2).append
      (treeText_colons.append ((treeText_blanks after.2).append (by decide)))
  | .renamed before after name => (treeText_blanks before.2.2).append
      (TreeText.append (by decide) ((treeText_blanks after.2.2).append (treeText_word name)))
  | .group before after members => (treeText_blanks before.2).append
      (treeText_colons.append ((treeText_blanks after.2).append
        (TreeText.append (by decide) (members.treeText.append (by decide)))))

theorem Members.treeText : ∀ ms : Members, TreeText (ms.textBy id)
  | .nothing blanks => treeText_blanks blanks.2
  | .last before tree after => (treeText_blanks before.2).append
      (tree.treeText.append (treeText_blanks after.2))
  | .more before tree after others => (treeText_blanks before.2).append
      (tree.treeText.append ((treeText_blanks after.2).append
        (TreeText.append (by decide) others.treeText)))

end

namespace Declaration

variable (d : Declaration)

theorem treeText_body : TreeText d.body := by
  have hgap : isTreeChar d.gap.val = true := by
    simp [isTreeChar, isBlank_of_isGap d.gap.2]
  exact TreeText.append (by simpa [TreeText] using hgap) ((treeText_blanks d.before.2).append
    (d.tree.treeText.append (treeText_blanks d.after.2)))

theorem semicolon_not_mem_body : ';' ∉ d.body := not_mem_of_class d.treeText_body (by decide)

/-! ## Reading a declaration -/

/-- What stands in front of the tree: spaces and tabs, of which there is one at least. -/
theorem exists_body_eq : ∃ g t, d.body = g ++ t ∧ g ≠ [] ∧ (∀ c ∈ g, isGap c = true) ∧
    (∀ c ∈ t.head?, isGap c = false) ∧ t ≠ [] ∧ join [' '] (words t) = d.tree.textBy space := by
  have hgaps : ∀ c ∈ d.body.takeWhile isGap, isGap c = true := fun c hc =>
    List.all_eq_true.1 List.all_takeWhile c hc
  have hwords : join [' '] (words (d.body.dropWhile isGap)) = d.tree.textBy space := by
    have hfront : words d.body = words (d.body.dropWhile isGap) := by
      conv_lhs => rw [← List.takeWhile_append_dropWhile (p := isGap) (l := d.body)]
      exact words_blanks_append fun c hc => isBlank_of_isGap (hgaps c hc)
    have hblank : AllBlank ([d.gap.val] ++ d.before.val) := by
      intro c hc
      rcases List.mem_append.1 hc with hc | hc
      · exact List.mem_singleton.1 hc ▸ isBlank_of_isGap d.gap.2
      · exact d.before.2 c hc
    rw [← hfront, body, ← List.append_assoc]
    exact d.tree.join_words_text hblank d.after.2
  refine ⟨_, _, (List.takeWhile_append_dropWhile (p := isGap)).symm, ?_, hgaps, ?_, ?_, hwords⟩
  · rw [body, List.singleton_append, List.takeWhile_cons_of_pos d.gap.2]
    exact List.cons_ne_nil _ _
  · intro c hc
    have hhead := List.head?_dropWhile_not isGap d.body
    rw [hc] at hhead
    exact hhead
  · intro hnil
    obtain ⟨x, r, hcore, -⟩ := d.tree.exists_core_cons
    rw [hnil, d.tree.textBy_eq, hcore] at hwords
    exact List.append_ne_nil_of_right_ne_nil _ (List.cons_ne_nil x r) hwords.symm

end Declaration

/-- An attribute in front of a declaration. -/
def outerAttribute : Pattern Part :=
  word "#[" ++ some0 (fun c => c != ']' && c != '\n') ++ char ']' ++ gaps0

/-- The parentheses that restrict a visibility. -/
def restriction : Pattern Part := char '(' ++ some0 (fun c => c != ')' && c != '\n') ++ char ')'

/-- The visibility of a declaration and the gap behind it. -/
def visibility : Pattern Part := word "pub" ++ maybe restriction ++ gaps1

theorem ends_append_eq_nil {p : Pattern Part} {s : Point Part} (h : p.ends s = [])
    (q : Pattern Part) : (p ++ q).ends s = [] := by
  rw [ends_append, h]
  rfl

theorem ends_text_eq_nil {x y : Char} {k r : Text} {s : Point Part} (hs : s.cursor.after = y :: r)
    (hne : x ≠ y) : (text (x :: k) : Pattern Part).ends s = [] := by
  rw [ends_text, hs, if_neg]
  rintro ⟨r', h⟩
  exact hne (List.cons.inj h).1

theorem Visibility.takesFirst (v : Visibility) (r : Text) :
    (maybe visibility).TakesFirst v.text ('u' :: r) := by
  have hgap : ∀ c ∈ ('u' :: r).head?, isGap c = false := fun c hc => Option.some.inj hc ▸ by decide
  cases v with
  | inherited =>
    refine .maybe_nil fun s hs => ?_
    exact ends_append_eq_nil (ends_append_eq_nil (ends_text_eq_nil hs (by decide)) _) _
  | everywhere gap =>
    -- a space or a tab follows the word, so no restriction does
    have hnone : (maybe restriction).TakesFirst [] (gap.val ++ 'u' :: r) := by
      refine .maybe_nil fun s hs => ?_
      obtain ⟨y, g, hg⟩ := List.exists_cons_of_ne_nil gap.2.1
      have hy : '(' ≠ y := by
        rintro rfl
        exact absurd (gap.2.2 '(' (hg ▸ List.mem_cons_self)) (by decide)
      rw [hg, List.cons_append] at hs
      exact ends_append_eq_nil (ends_append_eq_nil (ends_text_eq_nil (k := []) hs hy) _) _
    have hpub : (word "pub" ++ maybe restriction : Pattern Part).TakesFirst ("pub".toList ++ [])
        (gap.val ++ 'u' :: r) := (takesFirst_text _ _).append hnone
    exact (hpub.append (takesFirst_gaps1 gap hgap)).maybe
  | within scope gap =>
    have hscope : ∀ c ∈ scope.val, (c != ')' && c != '\n') = true := by
      intro c hc
      have hne : c ≠ ')' ∧ c ≠ '\n' := by
        constructor <;> rintro rfl
        · exact absurd (scope.2 _ hc) (by decide)
        · exact absurd (scope.2 _ hc) (by decide)
      simp [hne]
    have hstop : ∀ c ∈ ([')'] ++ (gap.val ++ 'u' :: r)).head?, (c != ')' && c != '\n') = false :=
      fun c hc => Option.some.inj hc ▸ by decide
    have hrestriction : restriction.TakesFirst (['('] ++ scope.val ++ [')'])
        (gap.val ++ 'u' :: r) :=
      ((takesFirst_text ['('] _).append (takesFirst_run hscope hstop (Nat.zero_le _))).append
        (takesFirst_text [')'] _)
    have hall := (((takesFirst_text "pub".toList _).append hrestriction.maybe).append
      (takesFirst_gaps1 gap hgap)).maybe
    have htext : Visibility.text (.within scope gap) =
        "pub".toList ++ (['('] ++ scope.val ++ [')']) ++ gap.val := by
      simp only [Visibility.text, List.append_assoc]
    rw [htext]
    exact hall

theorem Visibility.startsSolid (v : Visibility) (r : Text) :
    StartsSolid (v.text ++ ("use".toList ++ r)) := by
  cases v <;> exact startsSolid_cons (by decide) _

/-- What the form keeps of a declaration where a statement may start: a text that is its tree, but
for white space. -/
theorem Declaration.exists_prefers (d : Declaration) {s : Point Part}
    (hstart : mayStart [';', '{', '}'] s.cursor = true) (hs : s.cursor.after = d.text ++ b) :
    ∃ e body, useDeclaration.pattern.Prefers s e ∧ e.cursor.after = b ∧
      e.part? .body = some body ∧ join [' '] (words body) = d.tree.textBy space := by
  obtain ⟨g, t, hbody, hg, hgaps, hstop, hne, hwords⟩ := d.exists_body_eq
  have hsolid := d.visibility.startsSolid (g ++ (t ++ ';' :: b))
  have htext : d.text ++ b =
      d.indent.val ++ (d.visibility.text ++ ("use".toList ++ (g ++ (t ++ ';' :: b)))) := by
    rw [text, hbody]
    simp only [List.append_assoc, List.singleton_append]
  have hindent : (gaps0 : Pattern Part).TakesFirst d.indent.val
      (d.visibility.text ++ ("use".toList ++ (g ++ (t ++ ';' :: b)))) :=
    takesFirst_run d.indent.2 (isGap_eq_false_of_solid hsolid) (Nat.zero_le _)
  have hattributes : (many0 outerAttribute).TakesFirst []
      (d.visibility.text ++ ("use".toList ++ (g ++ (t ++ ';' :: b)))) := by
    have hnone : outerAttribute.TakesEach []
        (d.visibility.text ++ ("use".toList ++ (g ++ (t ++ ';' :: b)))) := by
      intro s hs
      have hhash : ∃ y r, s.cursor.after = y :: r ∧ '#' ≠ y := by
        cases hv : d.visibility with
        | inherited => exact ⟨_, _, by rw [hs, hv]; rfl, by decide⟩
        | everywhere gap => exact ⟨_, _, by rw [hs, hv]; rfl, by decide⟩
        | within scope gap => exact ⟨_, _, by rw [hs, hv]; rfl, by decide⟩
      obtain ⟨y, r, hy, hne⟩ := hhash
      exact ends_append_eq_nil (ends_append_eq_nil
        (ends_append_eq_nil (ends_text_eq_nil hy hne) _) _) _
    exact takesFirst_many hnone (Nat.zero_le _)
  have hgap : (gaps1 : Pattern Part).TakesFirst g (t ++ ';' :: b) := by
    refine takesFirst_run hgaps ?_ (List.length_pos_iff.2 hg)
    obtain ⟨x, r, rfl⟩ := List.exists_cons_of_ne_nil hne
    exact hstop
  have hsemi : ∀ c ∈ t, (c != ';') = true := by
    intro c hc
    have hmem : c ∈ d.body := hbody ▸ List.mem_append_right g hc
    refine bne_iff_ne.2 ?_
    rintro rfl
    exact d.semicolon_not_mem_body hmem
  have hhere := reads_here hstart
  rw [hs, htext] at hhere
  have hmarked := (hhere.append hindent).append (t := []) hattributes
  have hvisible := hmarked.append (d.visibility.takesFirst _)
  have hfront := (hvisible.append (takesFirst_text "use".toList _)).append hgap
  let m := s.skip ([] ++ d.indent.val ++ [] ++ d.visibility.text ++ "use".toList ++ g).length
  let m' := (m.skip t.length).mark .body m.cursor
  have hm : m.cursor.after = t ++ ';' :: b := hfront.after_skip
  have hrun : (some1 (· != ';') : Pattern Part).Prefers m (m.skip t.length) :=
    prefers_run hm hsemi (fun c hc => Option.some.inj hc ▸ by decide) (List.length_pos_iff.2 hne)
  have hlast : m'.cursor.after = [';'] ++ b := Point.after_skip_of_eq hm
  have hchar : (char ';' : Pattern Part).Prefers m' (m'.skip 1) := prefers_text hlast
  refine ⟨m'.skip 1, t, (hfront.2.append (hrun.part .body)).append hchar, ?_, ?_, hwords⟩
  · exact Point.after_skip_of_eq hlast
  · rw [Point.part?_skip]
    exact Point.part?_mark hm rfl Part.body

end ImportScan.Rust
