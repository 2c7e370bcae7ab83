import ImportScan.Language
import ImportScan.Proofs.Go.Starts
import ImportScan.Proofs.Grammar.Scan

/-!
# Groups and single imports agree

A list of import specs imports its paths, in order, whether it is written as a group or as single
imports, and whatever the comments between the specs say (`parse_specs`). Single imports are one
match each, from the start of the line to the end of the path (`importsFrom_single`); a group is one
match, and its body has the paths of all its specs (`importsFrom_group`).
-/

namespace ImportScan.Go

open Grammar Pattern Segment Text

variable {a b w : Text} {s : Point Part} {pre post : List Segment}

/-! ## The matches -/

/-- The start of an import is read up to its word. -/
theorem reads_importHead {indent rest : Text} (hline : atLineStart s.cursor = true)
    (hindent : ∀ c ∈ indent, isGap c = true)
    (hs : s.cursor.after = indent ++ ("import".toList ++ rest)) :
    importHead.Reads s (indent ++ "import".toList) rest := by
  have hgaps : (gaps0 : Pattern Part).TakesFirst indent ("import".toList ++ rest) := by
    refine takesFirst_run hindent ?_ (Nat.zero_le _)
    rintro c ⟨⟩
    decide
  have hstart := reads_here hline
  rw [hs] at hstart
  exact (hstart.append hgaps).append (takesFirst_text _ rest)

/-- The name of a spec and the gap behind it are taken whole. -/
theorem Spec.takesFirst_newName (spec : Spec) (rest : Text) :
    (maybe (some1 isDotted ++ gaps1) : Pattern Part).TakesFirst spec.newNameText
      (spec.literal ++ rest) := by
  have hquote : isDotted spec.quote.char = false := by
    cases spec.quote <;> decide
  unfold newNameText
  cases spec.newName with
  | none =>
    refine .maybe_nil fun s hs => List.eq_nil_iff_forall_not_mem.2 fun e he => ?_
    obtain ⟨m, hrun, -⟩ := mem_ends_append.1 he
    obtain ⟨t, more, ht, hdotted, hlen, -⟩ := mem_ends_run.1 hrun
    obtain ⟨x, t, rfl⟩ := List.exists_cons_of_ne_nil (List.ne_nil_of_length_pos hlen)
    obtain ⟨rfl, -⟩ := List.cons.inj (hs.symm.trans ht)
    rw [hdotted _ List.mem_cons_self] at hquote
    cases hquote
  | some n =>
    obtain ⟨name, gap⟩ := n
    have hdotted : (some1 isDotted : Pattern Part).TakesFirst name.text
        (gap.val ++ (spec.literal ++ rest)) := by
      refine takesFirst_run name.dotted.2 ?_ (List.length_pos_iff.2 name.dotted.1)
      exact forall_head?_append_of_ne_nil (P := (isDotted · = false)) gap.2.1 fun c hc =>
        isDotted_eq_false_of_isGap (gap.2.2 c hc)
    have hgap : (gaps1 : Pattern Part).TakesFirst gap.val (spec.literal ++ rest) := by
      refine takesFirst_run gap.2.2 ?_ (List.length_pos_iff.2 gap.2.1)
      rintro c ⟨⟩
      exact spec.quote.not_isGap
    exact (hdotted.append hgap).maybe

/-- What stands in front of a spec that is imported by itself. -/
def singleHead (gap : Gaps) : Text := "import".toList ++ gap.val

theorem singleHead_eq (gap : Gaps) : singleHead gap = "import".toList ++ gap.val := rfl

theorem isCode_singleHead (gap : Gaps) : IsCode (singleHead gap) := by
  refine IsCode.append (by decide) ?_
  exact isCode_of_allBlank fun c hc => isBlank_of_isGap (gap.2.2 c hc)

theorem atLineStart_of_endsLine (ha : EndsLine a) (b : Text) :
    atLineStart (.between a b) = true := by
  unfold atLineStart
  rw [Cursor.before_between, List.head?_reverse]
  cases h : a.getLast? with
  | none => rfl
  | some c => simp [ha c h]

theorem Spec.exists_match_single (spec : Spec) (gap : Gaps) (indent : Indent) (ha : EndsLine a)
    (b : Text) : ∃ m, singleImport.pattern.matchAt?
        (.between a ((indent.val ++ singleHead gap ++ spec.text) ++ b)) = some m ∧
      m.text = indent.val ++ singleHead gap ++ spec.text ∧ m.part? .name = some spec.path.val := by
  let s : Point Part := ⟨.between a ((indent.val ++ singleHead gap ++ spec.text) ++ b), []⟩
  have hs : s.cursor.after = indent.val ++
      ("import".toList ++ (gap.val ++ (spec.newNameText ++ (spec.literal ++ b)))) := by
    simp only [s, Cursor.after_between, singleHead_eq, Spec.text, List.append_assoc]
  have hgap : (gaps1 : Pattern Part).TakesFirst gap.val
      (spec.newNameText ++ (spec.literal ++ b)) := by
    refine takesFirst_run gap.2.2 ?_ (List.length_pos_iff.2 gap.2.1)
    obtain ⟨x, t, ht, hx, -⟩ := spec.exists_cons
    rw [← List.append_assoc, ← Spec.text, ht]
    rintro c ⟨⟩
    exact hx
  have hhead := reads_importHead (atLineStart_of_endsLine ha _) indent.2 hs
  have hread := (hhead.append hgap).append (spec.takesFirst_newName b)
  obtain ⟨e, he, hrest, hname⟩ := spec.prefers_importPath hread.after_skip
  obtain ⟨m, hm, htext, hpart⟩ := exists_match_of_prefers (hread.2.append he) hrest
  exact ⟨m, hm, htext, (hpart .name).trans hname⟩

/-- What stands in front of the specs of a group. -/
def groupHead (gap : Indent) : Text := "import".toList ++ (gap.val ++ ['('])

theorem groupHead_eq (gap : Indent) : groupHead gap = "import".toList ++ (gap.val ++ ['(']) := rfl

theorem exists_match_group {body : Text} (hbody : ')' ∉ body) (gap indent : Indent)
    (ha : EndsLine a) (b : Text) : ∃ m, groupImport.pattern.matchAt?
        (.between a ((indent.val ++ groupHead gap ++ (body ++ [')'])) ++ b)) = some m ∧
      m.text = indent.val ++ groupHead gap ++ (body ++ [')']) ∧ m.part? .body = some body := by
  let s : Point Part := ⟨.between a ((indent.val ++ groupHead gap ++ (body ++ [')'])) ++ b), []⟩
  have hs : s.cursor.after =
      indent.val ++ ("import".toList ++ (gap.val ++ (['('] ++ (body ++ ')' :: b)))) := by
    simp only [s, Cursor.after_between, groupHead_eq, List.append_assoc, List.cons_append,
      List.nil_append]
  have hgap : (gaps0 : Pattern Part).TakesFirst gap.val (['('] ++ (body ++ ')' :: b)) := by
    refine takesFirst_run gap.2 ?_ (Nat.zero_le _)
    rintro c ⟨⟩
    decide
  have hinside : (some0 (· != ')') : Pattern Part).TakesFirst body (')' :: b) := by
    refine takesFirst_run (fun c hc => ?_) (by simp) (Nat.zero_le _)
    simpa using fun h : c = ')' => hbody (h ▸ hc)
  have hhead := reads_importHead (atLineStart_of_endsLine ha _) indent.2 hs
  have hopen := (hhead.append hgap).append (takesFirst_one (c := (· == '(')) rfl _)
  have hbody := hopen.after_skip
  have hclose := Point.after_skip_of_eq hbody
  have hall := (hopen.2.append ((hinside _ hbody).part Part.body)).append
    (prefers_one (c := (· == ')')) hclose rfl)
  obtain ⟨m, hm, htext, hpart⟩ :=
    exists_match_of_prefers hall (Point.after_skip_of_eq (t := [')']) hclose)
  exact ⟨m, hm, htext, (hpart .body).trans (Point.part?_mark hbody rfl Part.body)⟩

/-! ## Scanning -/

theorem isForm_of_mem {form : Statement} (h : form ∈ go.statements) :
    ∃ F, IsForm F form.pattern := by
  have hforms : form = singleImport ∨ form = groupImport := by
    simpa [go] using h
  rcases hforms with rfl | rfl
  · exact ⟨_, isForm_singleImport⟩
  · exact ⟨_, isForm_groupImport⟩

/-- Layout at the end of a text imports nothing. -/
theorem importsFrom_layout (pre : List Segment) (hw : w.IsLayout) :
    go.importsFrom pre (w.map .code) = [] := by
  have hskip : go.importsFrom pre (w.map .code ++ []) = go.importsFrom (pre ++ w.map .code) [] := by
    apply importsFrom_skip
    intro form hform
    obtain ⟨F, hp⟩ := isForm_of_mem hform
    rw [showAll_code]
    exact hp.noneIn_layout hw not_starts_nil
  rw [List.append_nil] at hskip
  rw [hskip]
  apply importsFrom_nil
  intro form hform a
  obtain ⟨F, hp⟩ := isForm_of_mem hform
  refine List.eq_nil_iff_forall_not_mem.2 fun e he => ?_
  exact not_starts_nil (hp.starts _ e he).2

/-- Layout in front of an import leads to the indentation of its line. -/
theorem importsFrom_lines (hw : w.IsLayout) (hline : '\n' ∈ w ∨ EndsLine (showAll .kept pre)) :
    ∃ lines, ∃ indent : Indent, w = lines ++ indent.val ∧
      EndsLine (showAll .kept (pre ++ lines.map .code)) ∧ ∀ post,
        go.importsFrom pre (w.map .code ++ post) =
          go.importsFrom (pre ++ lines.map .code) (indent.val.map .code ++ post) := by
  obtain ⟨lines, indent, rfl, hindent, hlayout, hlast, hne⟩ := hw.exists_line
  refine ⟨lines, ⟨indent, hindent⟩, rfl, ?_, fun post => ?_⟩
  · rw [showAll_append, showAll_code]
    rcases hline with hmem | hpre
    · exact forall_getLast?_append_of_ne_nil (hne hmem) hlast
    · exact forall_getLast?_append hpre hlast
  · rw [List.map_append, List.append_assoc]
    apply importsFrom_skip
    intro form hform
    obtain ⟨F, hp⟩ := isForm_of_mem hform
    rw [showAll_code]
    exact hp.noneIn_lines hlayout hlast

/-- A single import gives its path. -/
theorem importsFrom_single (hw : w.IsLayout) (hline : '\n' ∈ w ∨ EndsLine (showAll .kept pre))
    (gap : Gaps) (spec : Spec) (post : List Segment) :
    go.importsFrom pre (w.map .code ++ (spec.segments (singleHead gap) ++ post)) =
      spec.path.val ::
        go.importsFrom (pre ++ (w.map .code ++ spec.segments (singleHead gap))) post := by
  obtain ⟨lines, indent, rfl, hend, hskip⟩ := importsFrom_lines hw hline
  let mid := spec.segments (indent.val ++ singleHead gap)
  have hmid : indent.val.map .code ++ spec.segments (singleHead gap) = mid := by
    simp only [mid, Spec.segments, List.map_append, List.append_assoc]
  have hshown : showAll .kept mid = indent.val ++ singleHead gap ++ spec.text :=
    showAll_kept_segments spec _
  obtain ⟨m, hm, htext, hname⟩ :=
    spec.exists_match_single gap indent hend (showAll .kept post)
  rw [← hshown] at hm htext
  have hnames : singleImport.names m = [spec.path.val] := by
    simp only [singleImport, Match.partOrEmpty, hname, Option.getD_some, spec.trim_path]
  have hcode : StartsCode .kept mid := by
    refine startsCode_code_append ⟨'i', ?_, by decide⟩ .kept _
    exact List.mem_append_left _ (List.mem_append_right _ List.mem_cons_self)
  -- no parenthesis stands behind the word, so this is no group
  have hgroup : groupImport.pattern.NoneIn (showAll .kept (pre ++ lines.map .code))
      (showAll .kept mid) (showAll .kept post) := by
    apply isForm_groupImport.noneIn_line
    · have hhead : '\n' ∉ "import".toList := by decide
      rw [hshown, singleHead_eq]
      simp only [List.mem_append, not_or]
      exact ⟨⟨not_mem_of_class indent.2 (by decide), hhead,
        not_mem_of_class gap.2.2 (by decide)⟩, spec.newline_not_mem⟩
    · obtain ⟨x, t, ht, hx, hparen⟩ := spec.exists_cons
      intro hstart
      have htext : showAll .kept mid ++ showAll .kept post = indent.val ++
          ("import".toList ++ (gap.val ++ x :: (t ++ showAll .kept post))) := by
        rw [hshown, ht, singleHead_eq]
        simp only [List.append_assoc, List.cons_append]
      rw [htext] at hstart
      exact hparen (hstart.follows indent.2 gap.2.2 hx)
  have hforms : go.statements = [] ++ singleImport :: [groupImport] := rfl
  have hothers : ∀ form ∈ [] ++ [groupImport],
      form.pattern.NoneIn (showAll .kept (pre ++ lines.map .code)) (showAll .kept mid)
        (showAll .kept post) := by
    intro form hform
    obtain rfl := List.mem_singleton.1 hform
    exact hgroup
  have hmatch := importsFrom_match hforms hm htext hcode hothers
  have hall : (lines ++ indent.val).map .code ++ spec.segments (singleHead gap) =
      lines.map .code ++ mid := by
    rw [List.map_append, List.append_assoc, hmid]
  rw [hnames, ← hmid, List.append_assoc] at hmatch
  rw [hskip, hmatch, hmid, hall, List.append_assoc]
  rfl

theorem furtherSegments_cons (before : Text) (f : Further) (others : List Further) :
    furtherSegments before (f :: others) =
      f.sep.val.layout.map .code ++ (f.spec.segments before ++ furtherSegments before others) := by
  simp only [furtherSegments, List.flatMap_cons, List.append_assoc]

theorem importsFrom_others (gap : Gaps) (others : List Further) (post : List Segment) :
    go.importsFrom pre (furtherSegments (singleHead gap) others ++ post) =
      others.map (·.spec.path.val) ++
        go.importsFrom (pre ++ furtherSegments (singleHead gap) others) post := by
  induction others generalizing pre with
  | nil => simp [furtherSegments]
  | cons f others ih =>
    rw [furtherSegments_cons, List.append_assoc, List.append_assoc,
      importsFrom_single f.sep.val.isLayout_layout (.inl f.sep.2), ih]
    simp only [List.map_cons, List.cons_append, List.append_assoc]

/-- Single imports give their paths. -/
theorem importsFrom_singles (specs : Specs) (gap : Gaps) {w : Text} (hw : w.IsLayout) :
    go.importsFrom [] (specs.segments (singleHead gap) ++ w.map .code) = specs.paths := by
  have hstart : EndsLine (showAll .kept []) := fun c hc => nomatch hc
  rw [Specs.segments, List.append_assoc, List.append_assoc,
    importsFrom_single specs.lead.isLayout_layout (.inr hstart), importsFrom_others,
    importsFrom_layout _ hw, List.append_nil]
  rfl

/-! ## Groups -/

/-- Inside a group no import starts. -/
theorem IsForm.noneIn_others {F : Follows} {p : Pattern Part} (hp : IsForm F p)
    (others : List Further) : p.NoneIn a (showAll .kept (furtherSegments [] others)) b := by
  induction others generalizing a with
  | nil =>
    intro u x v huv
    simp [furtherSegments] at huv
  | cons f others ih =>
    rw [furtherSegments_cons, showAll_append, showAll_append, showAll_code, showAll_kept_segments,
      List.nil_append]
    refine NoneIn.append (hp.noneIn_layout f.sep.val.isLayout_layout ?_)
      ((hp.noneIn_spec f.spec).append ih)
    rw [List.append_assoc]
    exact hp.not_starts_spec f.spec _

theorem IsForm.noneIn_specs {F : Follows} {p : Pattern Part} (hp : IsForm F p) (specs : Specs) :
    p.NoneIn a (showAll .kept (specs.segments [])) b := by
  rw [Specs.segments, showAll_append, showAll_append, showAll_code, showAll_kept_segments,
    List.nil_append]
  refine NoneIn.append (hp.noneIn_layout specs.lead.isLayout_layout ?_)
    ((hp.noneIn_spec specs.first).append (hp.noneIn_others specs.others))
  rw [List.append_assoc]
  exact hp.not_starts_spec specs.first _

theorem Specs.closer_not_mem (specs : Specs) : ')' ∉ showAll .kept (specs.segments []) := by
  have hlayout (f : Filler) : ')' ∉ f.layout :=
    f.isLayout_layout.not_mem (by decide) (by decide)
  have hspec (spec : Spec) : ')' ∉ spec.text := by
    refine spec.not_mem_text (by decide) (by decide) (fun q => ?_) fun h => ?_
    · cases q <;> decide
    · exact (spec.path.2 _ h).2 (by decide)
  have hothers (others : List Further) : ')' ∉ showAll .kept (furtherSegments [] others) := by
    induction others with
    | nil => simp [furtherSegments]
    | cons f others ih =>
      rw [furtherSegments_cons, showAll_append, showAll_append, showAll_code,
        showAll_kept_segments, List.nil_append]
      simp only [List.mem_append, not_or]
      exact ⟨hlayout _, hspec _, ih⟩
  rw [segments, showAll_append, showAll_append, showAll_code, showAll_kept_segments,
    List.nil_append]
  simp only [List.mem_append, not_or]
  exact ⟨hlayout _, hspec _, hothers _⟩

/-- A group gives the paths of its specs. -/
theorem importsFrom_group (specs : Specs) (front trail : Filler) (gap : Indent) {w : Text}
    (hw : w.IsLayout) :
    go.importsFrom [] (front.layout.map .code ++ ((groupHead gap).map .code ++
        (specs.segments [] ++ (trail.layout ++ [')']).map .code)) ++ w.map .code) =
      specs.paths := by
  have hstart : EndsLine (showAll .kept []) := fun c hc => nomatch hc
  obtain ⟨lines, indent, hfront, hend, hskip⟩ :=
    importsFrom_lines front.isLayout_layout (.inr hstart)
  let inside := specs.segments [] ++ (trail.layout ++ [')']).map .code
  let body := showAll .kept (specs.segments []) ++ trail.layout
  let mid := (indent.val ++ groupHead gap).map .code ++ inside
  have hbody : ')' ∉ body := by
    rw [List.mem_append, not_or]
    exact ⟨specs.closer_not_mem, trail.isLayout_layout.not_mem (by decide) (by decide)⟩
  have hshown : showAll .kept mid = indent.val ++ groupHead gap ++ (body ++ [')']) := by
    simp only [mid, inside, body, showAll_append, showAll_code, List.append_assoc]
  obtain ⟨m, hm, htext, hpart⟩ :=
    exists_match_group hbody gap indent hend (showAll .kept (w.map .code))
  rw [← hshown] at hm htext
  have hnames : groupImport.names m = specs.paths := by
    have hentries : entries [] body = specs.paths := by
      have htrail :
          entries ([] ++ showAll .kept (specs.segments [])) (trail.layout ++ []) = [] := by
        rw [entries_skip (not_quote_of_isLayout trail.isLayout_layout), entries_nil]
      rw [List.append_nil] at htrail
      rw [specs.entries_shown, htrail, List.append_nil]
    rw [← hentries]
    simp only [groupImport, Match.partOrEmpty, hpart, Option.getD_some]
    rfl
  have hcode : StartsCode .kept mid := by
    refine startsCode_code_append ⟨'i', ?_, by decide⟩ .kept inside
    exact List.mem_append_right _ List.mem_cons_self
  have hothers : ∀ form ∈ [singleImport] ++ [],
      form.pattern.NoneIn (showAll .kept ([] ++ lines.map .code)) (showAll .kept mid)
        (showAll .kept (w.map .code)) := by
    intro form hform
    obtain rfl := List.mem_singleton.1 hform
    have hp := isForm_singleImport
    -- neither the head of the group, nor a spec, nor the layout between them is a single import
    rw [hshown]
    refine NoneIn.append (hp.noneIn_line ?_ ?_) (NoneIn.append (NoneIn.append
      (hp.noneIn_specs specs) (hp.noneIn_layout trail.isLayout_layout ?_)) (hp.noneIn_line ?_ ?_))
    · have hhead : '\n' ∉ "import".toList := by decide
      have hopen : '\n' ∉ ['('] := by decide
      simp only [groupHead_eq, List.mem_append, not_or]
      exact ⟨not_mem_of_class indent.2 (by decide), hhead,
        not_mem_of_class gap.2 (by decide), hopen⟩
    · intro hstart
      have htext : indent.val ++ groupHead gap ++ (body ++ [')'] ++ showAll .kept (w.map .code)) =
          indent.val ++ ("import".toList ++ (gap.val ++ '(' ::
            (body ++ [')'] ++ showAll .kept (w.map .code)))) := by
        simp only [groupHead_eq, List.append_assoc, List.cons_append, List.nil_append]
      rw [htext] at hstart
      obtain ⟨-, hfollows⟩ := hstart.follows indent.2 gap.2 (by decide)
      rcases hfollows with h | h | h <;> exact absurd h (by decide)
    · exact not_starts_cons (by decide) (by decide) _
    · decide
    · exact not_starts_cons (by decide) (by decide) _
  have hforms : go.statements = [singleImport] ++ groupImport :: [] := rfl
  have hmatch := importsFrom_match hforms hm htext hcode hothers
  have hall : indent.val.map .code ++ ((groupHead gap).map .code ++ inside) = mid := by
    simp only [mid, List.map_append, List.append_assoc]
  have hrest := importsFrom_layout ([] ++ lines.map .code ++ mid) hw
  rw [List.append_assoc, hskip, ← List.append_assoc, hall]
  exact hmatch.trans (by rw [hnames]; exact (congrArg _ hrest).trans (List.append_nil _))

/-! ## Both ways to write the specs -/

/-- **Groups and single imports agree**: both import the paths of the specs, in order, whatever the
comments around the specs say. -/
theorem parse_specs (specs : Specs) (front trail : Filler) (indent : Indent) (gap : Gaps)
    (e e' : Ending) :
    Parser.go.parse (specs.group front indent trail e) = .ok specs.paths ∧
      Parser.go.parse (specs.singles gap e') = .ok specs.paths := by
  have hscopes : ∀ t, go.scopes t = [] := fun t => rfl
  constructor
  · have hclean (contents : StringContents) :
        go.lexis.cleaned contents (specs.group front indent trail e) =
          showAll contents (front.layout.map .code ++ ((groupHead indent).map .code ++
            (specs.segments [] ++ (trail.layout ++ [')']).map .code)) ++ e.layout.map .code) := by
      have hhead : IsCode (groupHead indent) := by
        refine IsCode.append (by decide) (IsCode.append ?_ (by decide))
        exact isCode_of_allBlank fun c hc => isBlank_of_isGap (indent.2 c hc)
      have hend : IsCode [')'] := by decide
      have hrest : StartsUnquoted (trail.text ++ ([')'] ++ e.text)) := by
        apply startsUnquoted_filler_append
        exact startsUnquoted_cons (by decide) _
      show Lexis.slashedRaw.cleaned contents _ = _
      rw [Specs.group, List.append_assoc, Lexis.cleaned_filler_append]
      change front.layout ++ Lexis.slashedRaw.cleaned contents (groupHead indent ++ _) = _
      rw [Lexis.cleaned_code_append hhead, specs.cleaned_list_append contents (by decide) hrest,
        Lexis.cleaned_filler_append, Lexis.cleaned_code_append hend, Lexis.cleaned_ending]
      simp only [showAll_append, showAll_code, List.append_assoc]
    have himports := imports_eq_importsFrom hscopes hclean
    rw [importsFrom_group specs front trail indent e.isLayout_layout] at himports
    exact congrArg Except.ok himports
  · have hclean (contents : StringContents) :
        go.lexis.cleaned contents (specs.singles gap e') =
          showAll contents (specs.segments (singleHead gap) ++ e'.layout.map .code) := by
      have hhead : IsCode (singleHead gap) := by
        refine IsCode.append (by decide) ?_
        exact isCode_of_allBlank fun c hc => isBlank_of_isGap (gap.2.2 c hc)
      show Lexis.slashedRaw.cleaned contents (specs.list (singleHead gap) ++ e'.text) = _
      rw [specs.cleaned_list_append contents hhead (startsUnquoted_ending e'),
        Lexis.cleaned_ending, showAll_append, showAll_code]
    have himports := imports_eq_importsFrom hscopes hclean
    rw [importsFrom_singles specs gap e'.isLayout_layout] at himports
    exact congrArg Except.ok himports

end ImportScan.Go
