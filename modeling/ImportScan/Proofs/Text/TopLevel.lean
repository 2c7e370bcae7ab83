import ImportScan.Proofs.Text.Cut
import ImportScan.Text.TopLevel

/-!
# Cutting lists at the top level

The depth behind a text tells how the text that follows it is cut (`IsUncut.rawParts_append`). So a
text without separators at the top level whose brackets are closed stays in one piece
(`Text.IsWhole`), and a separator behind it starts the next piece (`IsWhole.rawParts_comma`), so a
list of such clauses is cut into just these (`map_trim_rawParts_clauses`). A comma that is left in a
member stands behind a brace (`commasInBraces_of_mem_topLevelParts`).
-/

namespace ImportScan.Text

/-! ## Pieces -/

/-- The pieces with `t` put before the first. -/
def prepend (t : Text) : List Text → List Text
  | [] => [t]
  | piece :: pieces => (t ++ piece) :: pieces

theorem extendFirst_prepend (c : Char) (t : Text) (pieces : List Text) :
    extendFirst c (prepend t pieces) = prepend (c :: t) pieces := by
  cases pieces <;> rfl

theorem prepend_prepend (t u : Text) (pieces : List Text) :
    prepend t (prepend u pieces) = prepend (t ++ u) pieces := by
  cases pieces <;> simp [prepend]

theorem rawParts_ne_nil (m : ListMarks) (depth : Nat) (t : Text) : rawParts m depth t ≠ [] := by
  cases t with
  | nil => exact List.cons_ne_nil _ _
  | cons c t =>
    rw [rawParts]
    split
    · exact List.cons_ne_nil _ _
    · cases rawParts m (m.depthAfter depth c) t <;> exact List.cons_ne_nil _ _

theorem prepend_nil {pieces : List Text} (h : pieces ≠ []) : prepend [] pieces = pieces := by
  obtain ⟨piece, pieces, rfl⟩ := List.exists_cons_of_ne_nil h
  rfl

/-! ## The depth behind a text -/

section Depth

variable {m : ListMarks} {depth : Nat} {a b t : Text} {c : Char}

/-- The depth behind `t`, when `depth` brackets are open in front of it. -/
def depthBehind (m : ListMarks) (depth : Nat) (t : Text) : Nat := t.foldl m.depthAfter depth

theorem depthBehind_cons : depthBehind m depth (c :: t) = depthBehind m (m.depthAfter depth c) t :=
  rfl

theorem depthBehind_append :
    depthBehind m depth (a ++ b) = depthBehind m (depthBehind m depth a) b := List.foldl_append

/-- Cut from the depth `depth` on, the text is one piece. -/
def IsUncut (m : ListMarks) (depth : Nat) (t : Text) : Prop := rawParts m depth t = [t]

theorem isUncut_nil : IsUncut m depth [] := rfl

theorem isUncut_cons : IsUncut m depth (c :: t) ↔
    m.separates (m.depthAfter depth c) c = false ∧ IsUncut m (m.depthAfter depth c) t := by
  have hextend (pieces : List Text) : extendFirst c pieces = [c :: t] ↔ pieces = [t] ∨
      pieces = [] ∧ t = [] := by
    cases pieces <;> simp [extendFirst, eq_comm]
  unfold IsUncut
  rw [rawParts]
  cases hsep : m.separates (m.depthAfter depth c) c with
  | true => simp
  | false => simp [hextend, rawParts_ne_nil]

theorem isUncut_append :
    IsUncut m depth (a ++ b) ↔ IsUncut m depth a ∧ IsUncut m (depthBehind m depth a) b := by
  induction a generalizing depth with
  | nil => exact (and_iff_right isUncut_nil).symm
  | cons c a ih =>
    rw [List.cons_append, isUncut_cons, isUncut_cons, ih, depthBehind_cons, and_assoc]

/-- What is cut no further belongs to the first piece of what follows. -/
theorem IsUncut.rawParts_append (h : IsUncut m depth t) (r : Text) :
    rawParts m depth (t ++ r) = prepend t (rawParts m (depthBehind m depth t) r) := by
  induction t generalizing depth with
  | nil => exact (prepend_nil (rawParts_ne_nil m depth r)).symm
  | cons c t ih =>
    obtain ⟨hsep, ht⟩ := isUncut_cons.1 h
    rw [List.cons_append, rawParts]
    simp only [hsep, Bool.false_eq_true, if_false]
    rw [ih ht, extendFirst_prepend, depthBehind_cons]

/-- Characters that are no marks are not cut and leave the depth as it was. -/
theorem isUncut_of_no_marks
    (h : ∀ c ∈ t, [c] ≠ m.opener ∧ [c] ≠ m.closer ∧ m.separates depth c = false) :
    IsUncut m depth t ∧ depthBehind m depth t = depth := by
  induction t with
  | nil => exact ⟨isUncut_nil, rfl⟩
  | cons c t ih =>
    obtain ⟨ho, hc, hs⟩ := h c List.mem_cons_self
    have hdepth : m.depthAfter depth c = depth := by simp [ListMarks.depthAfter, ho, hc]
    rw [isUncut_cons, depthBehind_cons, hdepth, and_assoc]
    exact ⟨hs, ih fun d hd => h d (List.mem_cons_of_mem c hd)⟩

theorem rawParts_append_of_no_marks
    (h : ∀ c ∈ t, [c] ≠ m.opener ∧ [c] ≠ m.closer ∧ m.separates depth c = false) (r : Text) :
    rawParts m depth (t ++ r) = prepend t (rawParts m depth r) := by
  obtain ⟨huncut, hdepth⟩ := isUncut_of_no_marks h
  rw [huncut.rawParts_append, hdepth]

end Depth

/-! ## Texts in one piece -/

/-- The text has no comma at the top level, and its braces are closed. -/
def IsWhole (t : Text) : Prop := ∀ r, rawParts .braced 0 (t ++ r) = prepend t (rawParts .braced 0 r)

variable {t u r : Text}

theorem IsWhole.append (ht : IsWhole t) (hu : IsWhole u) : IsWhole (t ++ u) := by
  intro r
  rw [List.append_assoc, ht, hu, prepend_prepend]

theorem isWhole_of_no_marks (h : ∀ c ∈ t, c ≠ '{' ∧ c ≠ '}' ∧ c ≠ ',') : IsWhole t := by
  refine rawParts_append_of_no_marks fun c hc => ?_
  obtain ⟨ho, hc, hs⟩ := h c hc
  simp [ListMarks.braced, ListMarks.separates, ho, hc, hs]

theorem isWhole_of_class {p : Char → Bool} (hp : ∀ z ∈ ['{', '}', ','], p z = false)
    (ht : ∀ c ∈ t, p c = true) : IsWhole t := by
  refine isWhole_of_no_marks fun c hc => ⟨?_, ?_, ?_⟩ <;> rintro rfl <;>
    exact not_mem_of_class ht (hp _ (by decide)) hc

theorem isWhole_blanks (ht : AllBlank t) : IsWhole t := isWhole_of_class (by decide) ht

/-! ### Braces -/

/-- At every depth the text is one piece and leaves the depth as it was. -/
def IsLevel (t : Text) : Prop :=
  ∀ depth r, rawParts .braced depth (t ++ r) = prepend t (rawParts .braced depth r)

/-- In braces the text is one piece and leaves the depth as it was. -/
def IsInner (t : Text) : Prop :=
  ∀ depth r, rawParts .braced (depth + 1) (t ++ r) = prepend t (rawParts .braced (depth + 1) r)

theorem isLevel_of_no_marks (h : ∀ c ∈ t, c ≠ '{' ∧ c ≠ '}' ∧ c ≠ ',') : IsLevel t := by
  intro depth r
  refine rawParts_append_of_no_marks (fun c hc => ?_) r
  obtain ⟨ho, hc, hs⟩ := h c hc
  simp [ListMarks.braced, ListMarks.separates, ho, hc, hs]

/-- In braces a separator does not separate. -/
theorem isInner_of_no_braces (h : ∀ c ∈ t, c ≠ '{' ∧ c ≠ '}') : IsInner t := by
  intro depth r
  refine rawParts_append_of_no_marks (fun c hc => ?_) r
  obtain ⟨ho, hc⟩ := h c hc
  simp [ListMarks.braced, ListMarks.separates, ho, hc]

theorem IsLevel.isWhole (ht : IsLevel t) : IsWhole t := ht 0

theorem IsLevel.isInner (ht : IsLevel t) : IsInner t := fun depth => ht (depth + 1)

theorem IsLevel.append (ht : IsLevel t) (hu : IsLevel u) : IsLevel (t ++ u) := by
  intro depth r
  rw [List.append_assoc, ht, hu, prepend_prepend]

theorem IsInner.append (ht : IsInner t) (hu : IsInner u) : IsInner (t ++ u) := by
  intro depth r
  rw [List.append_assoc, ht, hu, prepend_prepend]

theorem IsInner.braces (ht : IsInner t) : IsLevel ('{' :: (t ++ ['}'])) := by
  intro depth r
  have hopen : ListMarks.braced.depthAfter depth '{' = depth + 1 := rfl
  have hclose : ListMarks.braced.depthAfter (depth + 1) '}' = depth := rfl
  have hno (c : Char) (hc : c ≠ ',') (depth : Nat) :
      ListMarks.braced.separates depth c = false := by
    simp [ListMarks.braced, ListMarks.separates, hc]
  rw [List.cons_append, List.append_assoc, List.cons_append, List.nil_append, rawParts]
  simp only [hopen, hno '{' (by decide), Bool.false_eq_true, if_false]
  rw [ht, rawParts]
  simp only [hclose, hno '}' (by decide), Bool.false_eq_true, if_false]
  have hclosed : extendFirst '}' (rawParts .braced depth r) =
      prepend ['}'] (rawParts .braced depth r) := by
    rw [← extendFirst_prepend, prepend_nil (rawParts_ne_nil .braced depth r)]
  rw [hclosed, prepend_prepend, extendFirst_prepend]

/-- A list in braces is one piece, whatever separators it has. -/
theorem isWhole_braces (h : ∀ c ∈ t, c ≠ '{' ∧ c ≠ '}') : IsWhole ('{' :: (t ++ ['}'])) :=
  (isInner_of_no_braces h).braces.isWhole

theorem IsWhole.rawParts_eq (ht : IsWhole t) : rawParts .braced 0 t = [t] := by
  have h := ht []
  rw [List.append_nil] at h
  rw [h]
  simp [prepend, rawParts]

theorem IsWhole.rawParts_comma (ht : IsWhole t) (r : Text) :
    rawParts .braced 0 (t ++ ',' :: r) = t :: rawParts .braced 0 r := by
  have hcomma : rawParts .braced 0 (',' :: r) = [] :: rawParts .braced 0 r := by
    have hdepth : ListMarks.braced.depthAfter 0 ',' = 0 := by decide
    have hsep : ListMarks.braced.separates 0 ',' = true := by decide
    rw [rawParts]
    simp only [hdepth, hsep, if_true]
  rw [ht, hcomma, prepend, List.append_nil]

/-! ## Clauses behind commas -/

/-- A clause behind a comma, with characters of the class `gap` around the comma. -/
structure Further (gap : Char → Bool) (κ : Type) where
  before : { t : Text // ∀ c ∈ t, gap c = true }
  after : { t : Text // ∀ c ∈ t, gap c = true }
  clause : κ

section Further

variable {gap : Char → Bool} {κ : Type} {write : κ → Text}

/-- The comma and the clause as they stand, when `write` tells how a clause stands. -/
def Further.text (write : κ → Text) (f : Further gap κ) : Text :=
  f.before.val ++ ',' :: (f.after.val ++ write f.clause)

/-- A character that stands in no clause stands in no list of clauses. -/
theorem not_mem_flatMap_further {z : Char} (hgap : gap z = false) (hcomma : z ≠ ',')
    (hclause : ∀ k, z ∉ write k) (fs : List (Further gap κ)) :
    z ∉ fs.flatMap (Further.text write) := by
  have hfurther (f : Further gap κ) : z ∉ f.text write := by
    simp only [Further.text, List.mem_append, List.mem_cons, not_or]
    exact ⟨not_mem_of_class f.before.2 hgap, hcomma, not_mem_of_class f.after.2 hgap,
      hclause f.clause⟩
  simp only [List.mem_flatMap, not_exists, not_and]
  exact fun f _ => hfurther f

/-- A list is cut at the commas between its clauses, and the white space around them is trimmed. -/
theorem map_trim_rawParts_clauses (hgap : ∀ c, gap c = true → isBlank c = true)
    (hwhole : ∀ k, IsWhole (write k)) (htrimmed : ∀ k, IsTrimmed (write k)) (ht : IsWhole t)
    (hu : AllBlank u) (fs : List (Further gap κ)) :
    (rawParts .braced 0 (t ++ (fs.flatMap (Further.text write) ++ u))).map trim =
      trim t :: fs.map fun f => write f.clause := by
  -- on the clauses still to come; `t` is the piece that the scan is in
  induction fs generalizing t with
  | nil =>
    rw [List.flatMap_nil, List.nil_append, (ht.append (isWhole_blanks hu)).rawParts_eq,
      List.map_singleton, trim_append_blanks hu]
    rfl
  | cons f fs ih =>
    have hbefore : AllBlank f.before.val := fun c hc => hgap c (f.before.2 c hc)
    have hafter : AllBlank f.after.val := fun c hc => hgap c (f.after.2 c hc)
    have hcut : t ++ ((f :: fs).flatMap (Further.text write) ++ u) =
        t ++ f.before.val ++ ',' :: (f.after.val ++ write f.clause ++
          (fs.flatMap (Further.text write) ++ u)) := by
      simp [Further.text]
    have hnext := ih ((isWhole_blanks hafter).append (hwhole f.clause))
    rw [trim_blanks_append hafter, trim_eq_self (htrimmed f.clause)] at hnext
    rw [hcut, (ht.append (isWhole_blanks hbefore)).rawParts_comma, List.map_cons, hnext,
      trim_append_blanks hbefore, List.map_cons]

end Further

/-! ## What is left in a member -/

/-- Every comma of the text has an opening brace in front of it. -/
def CommasInBraces (t : Text) : Prop := ∀ a r, t = a ++ ',' :: r → '{' ∈ a

theorem commasInBraces_nil : CommasInBraces [] := by
  intro a r h
  simp at h

theorem commasInBraces_brace (t : Text) : CommasInBraces ('{' :: t) := by
  intro a r h
  cases a with
  | nil => exact absurd (List.cons.inj h).1 (by decide)
  | cons c a =>
    obtain ⟨rfl, -⟩ := List.cons.inj h
    exact List.mem_cons_self

theorem CommasInBraces.cons (h : CommasInBraces t) {c : Char} (hc : c ≠ ',') :
    CommasInBraces (c :: t) := by
  intro a r hcut
  cases a with
  | nil => exact absurd (List.cons.inj hcut).1 hc
  | cons d a =>
    obtain ⟨rfl, ht⟩ := List.cons.inj hcut
    exact List.mem_cons_of_mem c (h a r ht)

/-- A stretch that starts outside the braces. -/
theorem CommasInBraces.of_append {a b : Text} (h : CommasInBraces (a ++ (t ++ b)))
    (ha : '{' ∉ a) : CommasInBraces t := by
  intro u r ht
  have hu : '{' ∈ a ++ u := by
    apply h (a ++ u) (r ++ b)
    rw [ht]
    simp
  exact (List.mem_append.1 hu).resolve_left ha

theorem CommasInBraces.comma_not_mem_before (h : CommasInBraces t) : ',' ∉ before ['{'] t := by
  intro hc
  obtain ⟨a, r, hcut⟩ := List.append_of_mem hc
  obtain ⟨rest, hrest⟩ := before_isPrefix ['{'] t
  have ha : '{' ∈ a := by
    apply h a (r ++ rest)
    rw [← hrest, hcut]
    simp
  apply not_mem_before '{' t
  rw [hcut]
  exact List.mem_append_left _ ha

/-- Where no brace is open at the start, the commas of the first piece stand in braces; those of
the other pieces do in any case. -/
theorem commasInBraces_rawParts (depth : Nat) (t : Text) :
    ∃ first others, rawParts .braced depth t = first :: others ∧
      (depth = 0 → CommasInBraces first) ∧ ∀ piece ∈ others, CommasInBraces piece := by
  induction t generalizing depth with
  | nil => exact ⟨[], [], rfl, fun _ => commasInBraces_nil, fun piece h => nomatch h⟩
  | cons c t ih =>
    obtain ⟨first, others, hparts, hfirst, hothers⟩ := ih (ListMarks.braced.depthAfter depth c)
    rw [rawParts]
    by_cases hsep : ListMarks.braced.separates (ListMarks.braced.depthAfter depth c) c = true
    · rw [if_pos hsep, hparts]
      have hdepth : ListMarks.braced.depthAfter depth c = 0 := by
        simp only [ListMarks.separates, Bool.and_eq_true, decide_eq_true_eq] at hsep
        exact hsep.2
      refine ⟨[], first :: others, rfl, fun _ => commasInBraces_nil, ?_⟩
      intro piece hpiece
      rcases List.mem_cons.1 hpiece with rfl | hpiece
      · exact hfirst hdepth
      · exact hothers piece hpiece
    · rw [if_neg hsep, hparts]
      refine ⟨c :: first, others, rfl, ?_, hothers⟩
      rintro rfl
      by_cases hopen : c = '{'
      · subst hopen
        exact commasInBraces_brace first
      · have hdepth : ListMarks.braced.depthAfter 0 c = 0 := by
          simp [ListMarks.depthAfter, ListMarks.braced, hopen]
        apply (hfirst hdepth).cons
        rintro rfl
        exact hsep (by decide)

theorem mem_of_mem_rawParts {m : ListMarks} {depth : Nat} {piece : Text} {c : Char}
    (h : piece ∈ rawParts m depth t) (hc : c ∈ piece) : c ∈ t := by
  induction t generalizing depth piece with
  | nil =>
    rw [rawParts, List.mem_singleton] at h
    rw [h] at hc
    cases hc
  | cons d t ih =>
    rw [rawParts] at h
    split at h
    · rcases List.mem_cons.1 h with rfl | h
      · cases hc
      · exact List.mem_cons_of_mem d (ih h hc)
    · rcases mem_extendFirst h with ⟨first, hfirst, rfl⟩ | h
      · rcases List.mem_cons.1 hc with rfl | hc
        · exact List.mem_cons_self
        · rcases List.mem_cons.1 hfirst with rfl | hfirst
          · cases hc
          · exact List.mem_cons_of_mem d (ih hfirst hc)
      · exact List.mem_cons_of_mem d (ih h hc)

/-- A member is a trimmed piece. -/
theorem exists_of_mem_topLevelParts {m : ListMarks} {part : Text} (h : part ∈ topLevelParts m t) :
    ∃ piece ∈ rawParts m 0 t, part = trim piece := by
  obtain ⟨piece, hpiece, rfl⟩ := List.mem_map.1 (List.mem_filter.1 h).1
  exact ⟨piece, hpiece, rfl⟩

theorem mem_of_mem_topLevelParts {m : ListMarks} {part : Text} {c : Char}
    (h : part ∈ topLevelParts m t) (hc : c ∈ part) : c ∈ t := by
  obtain ⟨piece, hpiece, rfl⟩ := exists_of_mem_topLevelParts h
  exact mem_of_mem_rawParts hpiece (mem_of_mem_trim hc)

theorem commasInBraces_of_mem_topLevelParts {part : Text} (h : part ∈ topLevelParts .braced t) :
    CommasInBraces part := by
  obtain ⟨piece, hpiece, rfl⟩ := exists_of_mem_topLevelParts h
  obtain ⟨first, others, hparts, hfirst, hothers⟩ := commasInBraces_rawParts 0 t
  have hcommas : CommasInBraces piece := by
    rw [hparts] at hpiece
    rcases List.mem_cons.1 hpiece with rfl | hpiece
    · exact hfirst rfl
    · exact hothers piece hpiece
  obtain ⟨b, b', hcut, hblank, -⟩ := exists_eq_append_trim piece
  rw [hcut] at hcommas
  apply hcommas.of_append (b := b')
  intro hbrace
  exact absurd (hblank '{' hbrace) (by decide)

end ImportScan.Text
