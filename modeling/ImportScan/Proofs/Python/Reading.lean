import ImportScan.Proofs.Grammar.Keyword
import ImportScan.Proofs.Pattern.Preferred
import ImportScan.Proofs.Python.Forms

/-!
# How imports are read

Each form reads the statements that are meant for it up to their end: an import of modules takes its
clauses, renamed or not, as one part (`ModuleImport.exists_prefers`), and an import of names stops
behind its second keyword (`NameImport.exists_prefers`).
-/

namespace ImportScan.Python

open Grammar Pattern Text

variable {s m e : Point Part} {a b t rest : Text} {x : Char}

/-! ## Gaps -/

/-- No gap goes on. -/
def NoGap (t : Text) : Prop := ∀ c ∈ t.head?, ¬StartsGap c

theorem noGap_cons (hx : ¬StartsGap x) (t : Text) : NoGap (x :: t) := by
  rintro c ⟨⟩
  exact hx

theorem gap_ends_eq_nil (hs : NoGap s.cursor.after) : gap.ends s = [] := by
  refine List.eq_nil_iff_forall_not_mem.2 fun e he => ?_
  obtain ⟨x, rest, hx, hstarts⟩ := exists_of_mem_ends_gap he
  rw [hx] at hs
  exact hs x rfl hstarts

theorem GapPiece.takesFirst (p : GapPiece) (rest : Text) : gap.TakesFirst p.text rest := by
  cases p with
  | blank c h => exact (takesFirst_one h rest).or_left
  | continued =>
    refine .or_right (fun s hs => ?_) (takesFirst_text _ rest)
    have hback : isGap '\\' = false := by decide
    rw [ends_one hs, hback]
    rfl

theorem Gap.takesEach (g : Gap) (hrest : NoGap rest) :
    gap.TakesEach (g.map GapPiece.text) rest := by
  induction g with
  | nil =>
    intro s hs
    exact gap_ends_eq_nil (hs ▸ hrest)
  | cons p g ih =>
    refine ⟨?_, p.takesFirst _, ih⟩
    cases p <;> exact List.cons_ne_nil _ _

theorem Gap.takesFirst (g : Gap) (hrest : NoGap rest) :
    (many0 gap).TakesFirst g.text rest :=
  takesFirst_many (g.takesEach hrest) (Nat.zero_le _)

theorem WideGap.takesFirst (g : WideGap) (hrest : NoGap rest) :
    (many1 gap).TakesFirst g.text rest := by
  refine takesFirst_many (Gap.takesEach g.val hrest) ?_
  rw [List.length_map]
  exact List.length_pos_iff.2 g.2

theorem Gap.startsGap (g : Gap) (hg : g ≠ []) : ∃ x r, g.text = x :: r ∧ StartsGap x := by
  obtain ⟨p, g, rfl⟩ := List.exists_cons_of_ne_nil hg
  cases p with
  | blank c h => exact ⟨c, _, rfl, .inl h⟩
  | continued => exact ⟨'\\', _, rfl, .inr rfl⟩

/-! ## Dotted names -/

/-- No dotted name goes on. -/
def Undotted (t : Text) : Prop := ∀ c ∈ t.head?, isDotted c = false

theorem Undotted.startsApart (ht : Undotted t) : t.StartsApart := by
  intro c hc
  have hdotted := ht c hc
  rw [isDotted, Bool.or_eq_false_iff] at hdotted
  exact hdotted.1

theorem undotted_comma (t : Text) : Undotted ([','] ++ t) := by
  rintro c ⟨⟩
  decide

theorem StartsGap.isDotted_eq_false (hx : StartsGap x) : isDotted x = false := by
  rcases hx with hx | rfl
  · exact isDotted_eq_false_of_isGap hx
  · decide

theorem not_startsGap_of_isDotted (hx : isDotted x = true) : ¬StartsGap x := by
  intro h
  rw [h.isDotted_eq_false] at hx
  cases hx

theorem StartsGap.undotted (hx : StartsGap x) (t : Text) : Undotted (x :: t) := by
  rintro c ⟨⟩
  exact hx.isDotted_eq_false

theorem WideGap.undotted (g : WideGap) (rest : Text) : Undotted (g.text ++ rest) := by
  obtain ⟨x, r, hx, hstarts⟩ := Gap.startsGap g.val g.2
  rw [text, hx]
  exact hstarts.undotted _

theorem Gap.undotted (g : Gap) (hrest : Undotted rest) : Undotted (g.text ++ rest) := by
  by_cases hg : g = []
  · subst hg
    exact hrest
  · exact WideGap.undotted ⟨g, hg⟩ rest

/-- A text of dotted characters, such as a name. -/
def IsDottedText (t : Text) : Prop := t ≠ [] ∧ ∀ c ∈ t, isDotted c = true

instance (t : Text) : Decidable (IsDottedText t) := inferInstanceAs (Decidable (_ ∧ _))

theorem Ident.isDottedText (i : Ident) : IsDottedText i.val :=
  ⟨i.2.1.1, fun c hc => isDotted_of_isWord (i.2.1.2 c hc)⟩

theorem Ident.dot_not_mem (i : Ident) : '.' ∉ i.val := not_mem_of_class i.2.1.2 (by decide)

theorem Name.isDottedText (n : Name) : IsDottedText n.text := by
  refine ⟨List.append_ne_nil_of_left_ne_nil n.first.2.1.1 _, fun c hc => ?_⟩
  rcases List.mem_append.1 hc with hc | hc
  · exact isDotted_of_isWord (n.first.2.1.2 c hc)
  · obtain ⟨i, -, hc⟩ := List.mem_flatMap.1 hc
    rcases List.mem_cons.1 hc with rfl | hc
    · decide
    · exact isDotted_of_isWord (i.2.1.2 c hc)

theorem IsDottedText.noGap (ht : IsDottedText t) (rest : Text) : NoGap (t ++ rest) := by
  obtain ⟨x, t, rfl⟩ := List.exists_cons_of_ne_nil ht.1
  exact noGap_cons (not_startsGap_of_isDotted (ht.2 x List.mem_cons_self)) _

theorem IsDottedText.takesFirst (ht : IsDottedText t) (hrest : Undotted rest) :
    (some1 isDotted : Pattern Part).TakesFirst t rest :=
  takesFirst_run ht.2 hrest (List.length_pos_iff.2 ht.1)

/-! ## The start of a statement -/

theorem reads_opening (k : String) (hk : IsWord k.toList) (indent : Indent) (g : WideGap)
    (hstart : logicalStart s.cursor = true) (hrest : NoGap rest)
    (hs : s.cursor.after = indent.val ++ (k.toList ++ (g.text ++ rest))) :
    (opening k).Reads s (indent.val ++ k.toList ++ g.text) rest := by
  have hindent : (gaps0 : Pattern Part).TakesFirst indent.val (k.toList ++ (g.text ++ rest)) := by
    refine takesFirst_run indent.2 ?_ (Nat.zero_le _)
    exact forall_head?_append_of_ne_nil (P := (isGap · = false)) hk.1 fun c hc =>
      isGap_eq_false_of_isDotted (isDotted_of_isWord (hk.2 c hc))
  have hhere := reads_here hstart
  rw [hs] at hhere
  exact ((hhere.append hindent).append (takesFirst_text k.toList _)).append (g.takesFirst hrest)

/-! ## Pieces of the list of modules -/

/-- What a name is behind, and the name. -/
def piece : Pattern Part := nameSeparator ++ some1 isDotted

theorem importNames_pattern : importNames.pattern =
    opening "import" ++ .part .body (some1 isDotted ++ many0 piece) := rfl

/-- Whether `x` stands in gaps. -/
def isJoint (x : Char) : Bool := isGap x || x == '\\' || x == '\n'

theorem Gap.isJoint_of_mem (g : Gap) {x : Char} (hx : x ∈ g.text) : isJoint x = true := by
  obtain ⟨p, -, hx⟩ := List.mem_flatMap.1 hx
  cases p with
  | blank c h =>
    obtain rfl : x = c := List.mem_singleton.1 hx
    simp [isJoint, h]
  | continued => exact (by decide : ∀ c ∈ ['\\', '\n'], isJoint c = true) x hx

theorem isJoint_eq_false_of_isDotted (hx : isDotted x = true) : isJoint x = false := by
  have hgap := not_startsGap_of_isDotted hx
  have hline : x ≠ '\n' := by
    rintro rfl
    exact absurd hx (by decide)
  rw [StartsGap, not_or, Bool.not_eq_true] at hgap
  simp [isJoint, hgap, hline]

theorem takes_gap : gap.Takes (isJoint · = true) := by
  refine ⟨fun c hc => by simp [isJoint, hc], takes_text (by decide)⟩

theorem takesFirst_comma (g g' : Gap) (ht : IsDottedText t) (hrest : Undotted rest) :
    piece.TakesFirst (g.text ++ [','] ++ g'.text ++ t) rest := by
  have hcomma : NoGap ([','] ++ (g'.text ++ (t ++ rest))) := noGap_cons (by decide) _
  have hseparator : nameSeparator.TakesFirst (g.text ++ [','] ++ g'.text) (t ++ rest) :=
    (((g.takesFirst hcomma).append (takesFirst_text [','] _)).append
      (g'.takesFirst (ht.noGap rest))).or_left
  exact hseparator.append (ht.takesFirst hrest)

theorem takesFirst_wide (g : WideGap) (ht : IsDottedText t) (hrest : Undotted rest) :
    piece.TakesFirst (g.text ++ t) rest := by
  refine TakesFirst.append (.or_right (fun s hs => ?_) (g.takesFirst (ht.noGap rest)))
    (ht.takesFirst hrest)
  -- no comma stands behind the gap
  refine List.eq_nil_iff_forall_not_mem.2 fun e he => ?_
  obtain ⟨m, h, -⟩ := mem_ends_append.1 he
  obtain ⟨m, hgaps, hcomma⟩ := mem_ends_append.1 h
  obtain ⟨u, rest', hafter, hu, hm⟩ := isBehind_of_mem_ends (p := many0 gap) takes_gap hgaps
  obtain ⟨y, rest'', hy, hcomma, -⟩ := mem_ends_one.1 hcomma
  obtain rfl : y = ',' := eq_of_beq hcomma
  rw [hm, Cursor.after_skip, hafter, List.drop_left] at hy
  obtain ⟨c, t, rfl⟩ := List.exists_cons_of_ne_nil ht.1
  have hc := ht.2 c List.mem_cons_self
  rw [hy, hs] at hafter
  obtain ⟨-, rfl, -⟩ := append_cons_inj_of_run (fun x hx => Gap.isJoint_of_mem g.val hx) hu
    (isJoint_eq_false_of_isDotted hc) (by decide) hafter
  exact absurd hc (by decide)

/-- What ends a list of modules. -/
def EndsItem (t : Text) : Prop := ∀ c ∈ t.head?, c = '\n' ∨ c = ';'

theorem EndsItem.undotted (ht : EndsItem t) : Undotted t := by
  intro c hc
  rcases ht c hc with rfl | rfl <;> decide

theorem EndsItem.noGap (ht : EndsItem t) : NoGap t := by
  intro c hc
  rcases ht c hc with rfl | rfl <;> decide

theorem piece_ends_eq_nil (hs : EndsItem s.cursor.after) : piece.ends s = [] := by
  have hgap := gap_ends_eq_nil hs.noGap
  refine List.eq_nil_iff_forall_not_mem.2 fun e he => ?_
  obtain ⟨m, h, -⟩ := mem_ends_append.1 he
  rcases mem_ends_or.1 h with h | h
  · obtain ⟨m, h, -⟩ := mem_ends_append.1 h
    obtain ⟨m, hgaps, hcomma⟩ := mem_ends_append.1 h
    rw [ends_many0_of_ends_eq_nil hgap] at hgaps
    obtain rfl := List.mem_singleton.1 hgaps
    obtain ⟨y, rest, hy, hcomma, -⟩ := mem_ends_one.1 hcomma
    rw [hy] at hs
    rcases hs y rfl with rfl | rfl <;> exact absurd hcomma (by decide)
  · exact ends_ne_nil_of_mem_ends_many1 h hgap

/-! ## The list of modules -/

/-- The pieces of another name. -/
def Renaming.pieces (r : Renaming) : List Text :=
  [r.before.text ++ "as".toList, r.after.text ++ r.name.val]

/-- The pieces of a clause behind its name. -/
def Clause.pieces (c : Clause) : List Text := (c.newName.map Renaming.pieces).getD []

/-- The pieces of a further clause, the first up to the end of its name. -/
def Further.pieces (f : Further) : List Text :=
  (f.before.text ++ [','] ++ f.after.text ++ f.clause.name.text) :: f.clause.pieces

/-- The pieces behind the name of the first clause. -/
def ModuleImport.pieces (s : ModuleImport) : List Text :=
  s.first.pieces ++ s.others.flatMap Further.pieces

theorem Clause.text_eq (c : Clause) : c.text = c.name.text ++ c.pieces.flatten := by
  unfold text pieces
  cases c.newName with
  | none => rfl
  | some r => simp [Renaming.text, Renaming.pieces]

theorem ModuleImport.text_eq (s : ModuleImport) :
    s.text = "import".toList ++ s.gap.text ++ s.body := rfl

theorem ModuleImport.body_eq (s : ModuleImport) :
    s.body = s.first.name.text ++ s.pieces.flatten := by
  have hothers (others : List Further) :
      others.flatMap Further.text = (others.flatMap Further.pieces).flatten := by
    induction others with
    | nil => rfl
    | cons f others ih =>
      rw [List.flatMap_cons, List.flatMap_cons, List.flatten_append, ih, Further.text,
        f.clause.text_eq, Further.pieces, List.flatten_cons]
      simp only [List.append_assoc]
  rw [body, pieces, List.flatten_append, hothers, s.first.text_eq, List.append_assoc]

/-- The pieces of a clause are taken in front of those that follow. -/
theorem Clause.takesEach (c : Clause) {ts : List Text} (hts : piece.TakesEach ts rest)
    (hnext : Undotted (ts.flatten ++ rest)) :
    piece.TakesEach (c.pieces ++ ts) rest ∧ Undotted ((c.pieces ++ ts).flatten ++ rest) := by
  unfold pieces
  cases c.newName with
  | none => exact ⟨hts, hnext⟩
  | some r =>
    have has : IsDottedText "as".toList := by decide
    have hafter : Undotted (((r.after.text ++ r.name.val) :: ts).flatten ++ rest) := by
      rw [List.flatten_cons, List.append_assoc, List.append_assoc]
      exact r.after.undotted _
    refine ⟨⟨?_, takesFirst_wide r.before has hafter, ?_,
      takesFirst_wide r.after (Ident.isDottedText r.name) hnext, hts⟩, ?_⟩
    · exact List.append_ne_nil_of_right_ne_nil _ (by decide)
    · exact List.append_ne_nil_of_right_ne_nil _ r.name.2.1.1
    · show Undotted ((r.pieces ++ ts).flatten ++ rest)
      rw [Renaming.pieces, List.cons_append, List.flatten_cons, List.append_assoc,
        List.append_assoc]
      exact r.before.undotted _

theorem ModuleImport.takesEach (s : ModuleImport) (hrest : EndsItem rest) :
    piece.TakesEach s.pieces rest ∧ Undotted (s.pieces.flatten ++ rest) := by
  have hothers (others : List Further) : piece.TakesEach (others.flatMap Further.pieces) rest ∧
      Undotted ((others.flatMap Further.pieces).flatten ++ rest) := by
    induction others with
    | nil => exact ⟨fun s hs => piece_ends_eq_nil (hs ▸ hrest), hrest.undotted⟩
    | cons f others ih =>
      obtain ⟨heach, hnext⟩ := f.clause.takesEach ih.1 ih.2
      rw [List.flatMap_cons, Further.pieces, List.cons_append]
      refine ⟨⟨?_, takesFirst_comma _ _ f.clause.name.isDottedText hnext, heach⟩, ?_⟩
      · exact List.append_ne_nil_of_right_ne_nil _ f.clause.name.isDottedText.1
      · simp only [List.flatten_cons, List.append_assoc]
        exact f.before.undotted (undotted_comma _)
  exact s.first.takesEach (hothers s.others).1 (hothers s.others).2

/-- An import of modules is read up to its end, its list of modules as one part. -/
theorem ModuleImport.exists_prefers (s : ModuleImport) (indent : Indent) {q : Point Part}
    (hstart : logicalStart q.cursor = true) (hrest : EndsItem rest)
    (hq : q.cursor.after = indent.val ++ s.text ++ rest) :
    ∃ e, importNames.pattern.Prefers q e ∧ e.cursor.after = rest ∧
      e.part? .body = some s.body := by
  obtain ⟨heach, hnext⟩ := s.takesEach hrest
  have hname := s.first.name.isDottedText
  have hbody : (some1 isDotted ++ many0 piece).TakesFirst s.body rest := by
    rw [s.body_eq]
    exact (hname.takesFirst hnext).append (takesFirst_many heach (Nat.zero_le _))
  have hfull : NoGap (s.body ++ rest) := by
    rw [s.body_eq, List.append_assoc]
    exact hname.noGap _
  rw [s.text_eq] at hq
  simp only [List.append_assoc] at hq
  have hgap := reads_opening "import" (by decide) indent s.gap hstart hfull hq
  have hlist := hbody _ hgap.after_skip
  rw [importNames_pattern]
  refine ⟨_, hgap.2.append (hlist.part .body), Point.after_skip_of_eq hgap.after_skip, ?_⟩
  exact Point.part?_mark hgap.after_skip rfl Part.body

/-! ## Imports of names -/

/-- The pattern of the module that names are imported from. -/
def originName : Pattern Part := some0 (· == '.') ++ some0 isDotted

theorem importFrom_pattern : importFrom.pattern =
    opening "from" ++ .part .name originName ++ many1 gap ++ word "import" ++ wordEdge := rfl

theorem Origin.takesFirst (o : Origin) (hrest : Undotted rest) :
    originName.TakesFirst o.text rest := by
  have hdots {t : Text} (ht : Undotted t ∨ ∃ n : Name, ∃ r, t = n.text ++ r) (k : Nat) :
      (some0 (· == '.') : Pattern Part).TakesFirst (List.replicate k '.') t := by
    refine takesFirst_run (fun c hc => ?_) (fun c hc => ?_) (Nat.zero_le _)
    · rw [List.eq_of_mem_replicate hc]
      rfl
    · refine beq_false_of_ne ?_
      rintro rfl
      rcases ht with ht | ⟨n, r, rfl⟩
      · exact absurd (ht _ hc) (by decide)
      · obtain ⟨x, w, hx⟩ := List.exists_cons_of_ne_nil n.first.2.1.1
        rw [Name.text, hx] at hc
        obtain rfl : x = '.' := Option.some.inj hc
        exact Ident.dot_not_mem n.first (hx ▸ List.mem_cons_self)
  have hname (n : Name) : (some0 isDotted : Pattern Part).TakesFirst n.text rest :=
    takesFirst_run n.isDottedText.2 hrest (Nat.zero_le _)
  cases o with
  | absolute n => exact (hdots (.inr ⟨n, rest, rfl⟩) 0).append (hname n)
  | relative k name =>
    cases name with
    | none =>
      have hnone : (some0 isDotted : Pattern Part).TakesFirst [] rest :=
        takesFirst_run (fun c hc => nomatch hc) hrest (Nat.zero_le _)
      exact (hdots (.inl hrest) (k + 1)).append hnone
    | some n => exact (hdots (.inr ⟨n, rest, rfl⟩) (k + 1)).append (hname n)

theorem Origin.noGap (o : Origin) (rest : Text) : NoGap (o.text ++ rest) := by
  cases o with
  | absolute n => exact n.isDottedText.noGap rest
  | relative k name => exact noGap_cons (by decide) _

theorem NameImport.core_eq (s : NameImport) : s.core =
    "from".toList ++ s.before.text ++ s.origin.text ++ s.after.text ++ "import".toList := rfl

/-- An import of names is read up to its second keyword. -/
theorem NameImport.exists_prefers (s : NameImport) (indent : Indent) {q : Point Part}
    (hstart : logicalStart q.cursor = true) (hrest : rest.StartsApart)
    (hq : q.cursor.after = indent.val ++ s.core ++ rest) :
    ∃ e, importFrom.pattern.Prefers q e ∧ e.cursor.after = rest ∧
      e.part? .name = some s.origin.text := by
  rw [s.core_eq] at hq
  simp only [List.append_assoc] at hq
  have hbefore := reads_opening "from" (by decide) indent s.before hstart (s.origin.noGap _) hq
  obtain ⟨m, hm, hafter⟩ : ∃ m, (opening "from").Prefers q m ∧ m.cursor.after =
      s.origin.text ++ (s.after.text ++ ("import".toList ++ rest)) :=
    ⟨_, hbefore.2, hbefore.after_skip⟩
  let named := (m.skip s.origin.text.length).mark .name m.cursor
  have hnamed : named.cursor.after = s.after.text ++ ("import".toList ++ rest) :=
    Point.after_skip_of_eq hafter
  have horigin : (Pattern.part .name originName).Prefers m named :=
    (s.origin.takesFirst (s.after.undotted _) m hafter).part .name
  have hgap := s.after.takesFirst (noGap_cons (by decide) _) named hnamed
  have hnext := Point.after_skip_of_eq hnamed
  have hword := takesFirst_text "import".toList rest _ hnext
  have hedge := atWordEdge_skip (by decide) hrest hnext
  rw [importFrom_pattern]
  refine ⟨_, (((hm.append horigin).append hgap).append hword).append (prefers_here hedge),
    Point.after_skip_of_eq hnext, ?_⟩
  rw [Point.part?_skip, Point.part?_skip]
  exact Point.part?_mark hafter rfl Part.name

end ImportScan.Python
