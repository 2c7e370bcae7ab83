import ImportScan.Proofs.Grammar.Scan
import ImportScan.Proofs.JavaScript.Reading

/-!
# What a script imports

A script is read from its start on. No form starts in a text without the words that references start
with (`Free`), so fillers and what stands before a keyword are left out; the form of a reference
reads it from its keyword on and no other form starts in it, so a reference gives the name of its
module (`importsFrom_reference`). By induction a script gives the names of its modules
(`parse_script`).
-/

namespace ImportScan.JavaScript

open Grammar Pattern Segment Text

variable {a b t rest : Text} {q : Char} {pre post : List Segment}

/-! ## Texts in which no reference starts -/

/-- None of the words of the text starts a reference. -/
def Free (t : Text) : Prop := ∀ k ∈ starters, ¬HasWord k t

theorem Free.append (ha : Free a) (hab : a.EndsApart ∨ b.StartsApart) (hb : Free b) :
    Free (a ++ b) := by
  intro k hk h
  rcases h.of_append (isWord_of_mem_starters hk) hab with h | h
  · exact ha k hk h
  · exact hb k hk h

theorem free_of_wordless (ht : t.Wordless) : Free t :=
  fun _ hk => ht.not_hasWord (isWord_of_mem_starters hk)

theorem free_word (ht : IsWord t) (hstart : t ∉ starters) : Free t := by
  intro k hk h
  exact hstart (ht.eq_of_hasWord h ▸ hk)

theorem free_of_unreserved (ht : Unreserved t) : Free t :=
  fun k hk => ht k (List.mem_cons_of_mem _ hk)

theorem free_ident (i : Ident) : Free i.val :=
  free_word i.2.1 fun h => i.2.2 (List.mem_cons_of_mem _ h)

theorem wordless_spaces (w : Spaces) : w.val.Wordless := AllBlank.wordless w.2.2

theorem wordless_blanks (w : Blanks) : w.val.Wordless := AllBlank.wordless w.2

theorem endsApart_append_spaces (t : Text) (w : Spaces) : EndsApart (t ++ w.val) :=
  (wordless_spaces w).endsApart.append_left w.2.1 t

theorem Free.wordless_append (hb : Free b) (ha : a.Wordless) : Free (a ++ b) :=
  (free_of_wordless ha).append (.inl ha.endsApart) hb

theorem Free.append_wordless (ha : Free a) (hb : b.Wordless) : Free (a ++ b) :=
  ha.append (.inr hb.startsApart) (free_of_wordless hb)

theorem From.startsApart (f : From) (t : Text) : StartsApart (f.text ++ t) := by
  simp only [text, List.append_assoc]
  exact startsApart_spaces f.before _

theorem From.free (f : From) : Free f.text :=
  ((free_word (by decide) (by decide)).wordless_append (wordless_spaces _)).append_wordless
    (wordless_spaces _)

theorem Renaming.free (r : Renaming) : Free r.text := by
  have has : Free (r.before.val ++ "as".toList) :=
    (free_word (by decide) (by decide)).wordless_append (wordless_spaces _)
  exact (has.append_wordless (wordless_spaces r.after)).append
    (.inl (endsApart_append_spaces _ _)) (free_ident r.name)

theorem Target.free (t : Target) : Free t.text := by
  have hconst : Free ("const".toList ++ t.gap.val) :=
    (free_word (by decide) (by decide)).append_wordless (wordless_spaces _)
  have hname := hconst.append (.inl (endsApart_append_spaces _ _)) (free_ident t.name)
  have hassign := (hname.append_wordless (wordless_blanks t.before)).append_wordless
    (by decide : Wordless ['='])
  exact hassign.append_wordless (wordless_blanks t.after)

theorem Target.endsApart (t : Target) : EndsApart t.text := by
  have hsign : Wordless ['='] := by decide
  have hassign := hsign.endsApart.append_left (List.cons_ne_nil _ _)
  exact (hassign _).append (wordless_blanks t.after).endsApart

theorem Free.append_from (ht : Free t) (f : From) : Free (t ++ f.text) := by
  have hstart := f.startsApart []
  rw [List.append_nil] at hstart
  exact ht.append (.inr hstart) f.free

namespace Head

variable (h : Head)

theorem free_rest : Free h.rest := by
  have hbraces (names : Names) : Free (['{'] ++ names.val ++ ['}']) := by
    have hopen := (free_of_unreserved names.2.2).wordless_append (a := ['{']) (by decide)
    exact hopen.append_wordless (by decide)
  cases h with
  | bare gap => exact free_of_wordless (wordless_spaces gap)
  | clause gap c source =>
    exact ((free_of_unreserved c.2.2.2.2).append_from source).wordless_append (wordless_spaces gap)
  | all gap name source =>
    cases name with
    | none =>
      have hstar : Free ['*'] := free_of_wordless (by decide)
      exact (hstar.append_from source).wordless_append (wordless_spaces gap)
    | some name =>
      have hname := name.free.wordless_append (a := ['*']) (by decide)
      exact (hname.append_from source).wordless_append (wordless_spaces gap)
  | named gap kind names source =>
    have hnames := (hbraces names).append_from source
    cases kind with
    | none => exact hnames.wordless_append (wordless_spaces gap)
    | some kind =>
      have hkind : Free ("type".toList ++ kind.val) :=
        (free_word (by decide) (by decide)).append_wordless (wordless_spaces kind)
      exact (hkind.append (.inl (endsApart_append_spaces _ _)) hnames).wordless_append
        (wordless_spaces gap)
  | call target callee gap before after =>
    have hbefore := free_of_wordless (wordless_blanks before)
    have hopen := hbefore.wordless_append (a := ['(']) (by decide)
    exact hopen.wordless_append (wordless_blanks gap)

theorem startsApart_rest (t : Text) : StartsApart (h.rest ++ t) := by
  have hspaces (w : Spaces) (t t' : Text) : StartsApart (w.val ++ t ++ t') := by
    rw [List.append_assoc]
    exact startsApart_spaces w _
  cases h with
  | bare gap => exact startsApart_spaces gap t
  | clause gap c source => exact hspaces gap _ t
  | all gap name source => cases name <;> exact hspaces gap _ t
  | named gap kind names source => cases kind <;> exact hspaces gap _ t
  | call target callee gap before after =>
    simp only [rest, List.append_assoc]
    refine (wordless_blanks gap).startsApart.append ?_
    rintro c ⟨⟩
    decide

theorem free_front : Free h.front := by
  unfold front
  split
  · exact Target.free _
  · exact free_of_wordless fun c hc => nomatch hc

theorem endsApart_front : EndsApart h.front := by
  unfold front
  split
  · exact Target.endsApart _
  · exact fun c hc => nomatch hc

end Head

/-! ## No other form starts in a reference -/

theorem noneIn_of_free (f : Form) (ht : Free t) (htb : t.EndsApart ∨ b.StartsApart) :
    f.statement.pattern.NoneIn a t b :=
  f.opensWith.noneIn (ht _ f.keyword_mem) htb

theorem forall_mem_statements {P : Statement → Prop} (h : ∀ f : Form, P f.statement) :
    ∀ s ∈ javaScript.statements, P s := by
  rw [statements_eq]
  intro s hs
  obtain ⟨f, -, rfl⟩ := List.mem_map.1 hs
  exact h f

/-- At the keyword of a reference its form starts and no other. -/
theorem Head.ends_eq_nil (h : Head) {f : Form} (hf : f ≠ h.form) (hk : f.keyword = h.keyword)
    (hq : isQuote q = true) {s : Point Part} (hs : s.cursor.after = h.opening ++ q :: rest) :
    f.statement.pattern.ends s = [] := by
  rw [← h.keyword_form] at hk
  rw [opening, List.append_assoc] at hs
  -- static and dynamic imports share a keyword; what stands behind it tells them apart
  rcases Form.eq_of_keyword_eq hk hf with ⟨rfl, hform⟩ | ⟨rfl, hform⟩
  · cases h with
    | bare | clause | all | named => cases hform
    | call target callee gap before after =>
      cases callee with
      | require => cases hform
      | dynamicImport =>
        simp only [Head.rest, List.append_assoc] at hs
        exact staticImport_ends_eq_nil gap.2 hs
  · cases h with
    | bare gap =>
      have hquote : isBlank q = false ∧ q ≠ '(' := by
        rcases isQuote_iff.1 hq with rfl | rfl <;> decide
      exact moduleCall_ends_eq_nil gap.2.2 hquote.1 hquote.2 hs
    | clause gap c source =>
      obtain ⟨hne, htrimmed, hchars, -⟩ := c.2
      obtain ⟨x, v, hv⟩ := List.exists_cons_of_ne_nil hne
      have hx : isBlank x = false := htrimmed.start x (by rw [hv]; rfl)
      have hparen : x ≠ '(' := by
        rintro rfl
        exact absurd (hchars '(' (hv ▸ List.mem_cons_self)) (by decide)
      simp only [Head.rest, hv, List.append_assoc, List.cons_append] at hs
      exact moduleCall_ends_eq_nil gap.2.2 hx hparen hs
    | all | named => cases hform
    | call target callee gap before after => cases callee <;> cases hform

theorem Head.noneIn_opening (h : Head) {f : Form} (hf : f ≠ h.form) (hq : isQuote q = true) :
    f.statement.pattern.NoneIn a h.opening (q :: rest) := by
  have hquote : StartsApart (q :: rest) := by
    rintro c ⟨⟩
    rcases isQuote_iff.1 hq with rfl | rfl <;> decide
  refine NoneIn.append ?_ (noneIn_of_free f h.free_rest (.inr hquote))
  refine f.opensWith.noneIn_word (isWord_of_mem_starters h.keyword_mem) (h.startsApart_rest _) ?_
  intro hk
  have hs : (Cursor.between a (h.keyword.toList ++ (h.rest ++ q :: rest))).after =
      h.opening ++ q :: rest := by rw [Cursor.after_between, opening, List.append_assoc]
  exact h.ends_eq_nil hf (String.toList_inj.1 hk) hq hs

theorem Head.wordless_back (h : Head) : h.back.Wordless := by
  cases h with
  | call target callee gap before after =>
    intro c hc
    rcases List.mem_append.1 hc with hc | hc
    · exact wordless_blanks after c hc
    · exact (by decide : Wordless [')']) c hc
  | _ => exact fun c hc => nomatch hc

theorem Head.unquoted_back (h : Head) : ∀ c ∈ h.back, isQuote c = false := by
  cases h with
  | call target callee gap before after =>
    intro c hc
    rcases List.mem_append.1 hc with hc | hc
    · exact isQuote_eq_false_of_isBlank c (after.2 c hc)
    · exact (by decide : ∀ c ∈ [')'], isQuote c = false) c hc
  | _ => exact fun c hc => nomatch hc

theorem Reference.showAll_core (r : Reference) :
    showAll .kept r.core = r.head.opening ++ (r.literal ++ r.head.back) := by
  rw [core, showAll_append, showAll_append, showAll_code, showAll_code, showAll_singleton]
  simp [Segment.shown, literal]

theorem Reference.noneIn_core (r : Reference) {f : Form} (hf : f ≠ r.head.form)
    (hrest : LineUnquoted (r.head.back ++ rest) ∨ '(' ∉ r.specifier.val) :
    f.statement.pattern.NoneIn a (showAll .kept r.core) rest := by
  rw [r.showAll_core]
  exact NoneIn.append (r.head.noneIn_opening hf r.quote.isQuote_char) (NoneIn.append
    (r.noneIn_literal f hrest) (f.opensWith.noneIn_wordless r.head.wordless_back))

/-! ## What a reference gives -/

theorem Reference.isSpecifier (r : Reference) : IsSpecifier r.specifier.val := by
  refine ⟨r.specifier.2.1, fun c hc => ⟨(r.specifier.2.2 c hc).2.1, ?_⟩⟩
  rintro rfl
  exact absurd (r.specifier.2.2 _ hc).1 (by decide)

theorem Reference.trim_specifier (r : Reference) : trim r.specifier.val = r.specifier.val :=
  trim_eq_self_of_forall fun c hc => (r.specifier.2.2 c hc).1

/-- The match of a reference takes the name of its module. -/
theorem Reference.exists_match (r : Reference) (ha : a.EndsApart) (rest : Text) :
    ∃ m, r.head.form.statement.pattern.matchAt? (.between a (showAll .kept r.core ++ rest)) =
        some m ∧ m.text = showAll .kept r.core ∧
      r.head.form.statement.names m = [r.specifier.val] := by
  have hedge : atWordEdge (.between a (showAll .kept r.core ++ rest)) = true := by
    obtain ⟨x, k, hk⟩ := List.exists_cons_of_ne_nil (isWord_of_mem_starters r.head.keyword_mem).1
    have hx : isWord x = true :=
      (isWord_of_mem_starters r.head.keyword_mem).2 x (hk ▸ List.mem_cons_self)
    rw [r.showAll_core, Head.opening, hk]
    exact (atWordEdge_between_cons hx).2 ha
  have hafter : (Cursor.between a (showAll .kept r.core ++ rest)).after = r.head.opening ++
      r.quote.char :: (r.specifier.val ++ r.quote.char :: (r.head.back ++ rest)) := by
    rw [Cursor.after_between, r.showAll_core, literal]
    simp
  obtain ⟨e, he, hrest, hname⟩ := r.head.exists_prefers (s := ⟨_, []⟩) hedge r.quote.isQuote_char
    r.isSpecifier hafter
  obtain ⟨m, hm, htext, hpart⟩ := exists_match_of_prefers he hrest
  refine ⟨m, hm, htext, ?_⟩
  have hnames : ∀ f : Form, f.statement.names = Match.nameBy trim := by
    intro f
    cases f <;> rfl
  obtain ⟨x, name, hx⟩ := List.exists_cons_of_ne_nil r.specifier.2.1
  rw [hnames, Match.nameBy, hpart, hname, hx]
  dsimp only
  rw [← hx, r.trim_specifier]

theorem Reference.startsCode_core (r : Reference) : StartsCode .kept r.core := by
  have hword := isWord_of_mem_starters r.head.keyword_mem
  obtain ⟨x, hx⟩ := List.exists_mem_of_ne_nil _ hword.1
  refine startsCode_code_append ⟨x, ?_, isBlank_eq_false_of_isWord (hword.2 x hx)⟩ .kept _
  exact List.mem_append_left _ hx

theorem importsFrom_free (ht : Free t) (htb : t.EndsApart ∨ (showAll .kept post).StartsApart) :
    javaScript.importsFrom pre (t.map .code ++ post) =
      javaScript.importsFrom (pre ++ t.map .code) post := by
  apply importsFrom_skip
  rw [showAll_code]
  exact forall_mem_statements fun f => noneIn_of_free f ht htb

theorem importsFrom_wordless (ht : t.Wordless) :
    javaScript.importsFrom pre (t.map .code ++ post) =
      javaScript.importsFrom (pre ++ t.map .code) post :=
  importsFrom_free (free_of_wordless ht) (.inl ht.endsApart)

/-- A reference gives the name of its module, if it ends its line or the name has no
parenthesis. -/
theorem importsFrom_reference (r : Reference) (hpre : (showAll .kept pre).EndsApart)
    (hpost : LineUnquoted (showAll .kept post) ∨ '(' ∉ r.specifier.val) :
    javaScript.importsFrom pre (r.segments ++ post) =
      r.specifier.val :: javaScript.importsFrom (pre ++ r.segments) post := by
  have hstop : r.stop.Wordless ∧ ∀ c ∈ r.stop, isQuote c = false := by
    unfold Reference.stop
    split <;> decide
  have hrest : LineUnquoted (r.head.back ++ showAll .kept (r.stop.map .code ++ post)) ∨
      '(' ∉ r.specifier.val := by
    refine hpost.imp_left fun hpost => ?_
    rw [showAll_append, showAll_code]
    exact .append r.head.unquoted_back (.append hstop.2 hpost)
  have hfront : (showAll .kept (pre ++ r.head.front.map .code)).EndsApart := by
    rw [showAll_append, showAll_code]
    exact hpre.append r.head.endsApart_front
  obtain ⟨m, hm, htext, hnames⟩ :=
    r.exists_match hfront (showAll .kept (r.stop.map .code ++ post))
  obtain ⟨l, l', hforms, hnot⟩ := r.head.form.exists_split
  have hall : javaScript.statements =
      l.map Form.statement ++ r.head.form.statement :: l'.map Form.statement := by
    rw [statements_eq, hforms, List.map_append, List.map_cons]
  have hothers : ∀ s ∈ l.map Form.statement ++ l'.map Form.statement,
      s.pattern.NoneIn (showAll .kept (pre ++ r.head.front.map .code)) (showAll .kept r.core)
        (showAll .kept (r.stop.map .code ++ post)) := by
    intro s hs
    rw [← List.map_append] at hs
    obtain ⟨f, hf, rfl⟩ := List.mem_map.1 hs
    exact r.noneIn_core (fun h => hnot (h ▸ hf)) hrest
  have hcore := importsFrom_match hall hm htext r.startsCode_core hothers
  rw [Reference.segments, List.append_assoc, List.append_assoc,
    importsFrom_free r.head.free_front (.inl r.head.endsApart_front), hcore, hnames,
    importsFrom_wordless hstop.1]
  simp only [List.append_assoc, List.cons_append, List.nil_append]

/-! ## Whole scripts -/

theorem ends_statement_end : ∀ s ∈ javaScript.statements, ∀ a,
    s.pattern.ends ⟨.between a [], []⟩ = [] :=
  forall_mem_statements fun f => ends_end f.opensWith.after_ne_nil

theorem importsFrom_script (script : Script) (hpre : (showAll .kept pre).EndsApart) :
    javaScript.importsFrom pre script.segments = script.specifiers := by
  have hnil (pre : List Segment) : javaScript.importsFrom pre [] = [] :=
    importsFrom_nil ends_statement_end
  have happend {t : Text} (ht : t.Wordless) {pre : List Segment}
      (hpre : (showAll .kept pre).EndsApart) :
      (showAll .kept (pre ++ t.map .code)).EndsApart := by
    rw [showAll_append, showAll_code]
    exact hpre.append ht.endsApart
  induction script generalizing pre with
  | done e =>
    have hskip : javaScript.importsFrom pre (e.layout.map .code ++ []) = [] :=
      (importsFrom_wordless e.isLayout_layout.allBlank.wordless).trans (hnil _)
    rwa [List.append_nil] at hskip
  | last lead r =>
    have hlead := lead.isLayout_layout.allBlank.wordless
    have hend : LineUnquoted (showAll .kept []) := lineUnquoted_nil
    have href := importsFrom_reference r (happend hlead hpre) (.inl hend)
    rw [List.append_nil, hnil] at href
    rw [Script.segments, importsFrom_wordless hlead, href]
    rfl
  | line lead r next ih =>
    have hlead := lead.isLayout_layout.allBlank.wordless
    have hline : Wordless ['\n'] := by decide
    let before := pre ++ lead.layout.map .code ++ r.segments
    have hbefore : (showAll .kept (before ++ ['\n'].map .code)).EndsApart := by
      rw [showAll_append, showAll_code]
      exact hline.endsApart.append_left (List.cons_ne_nil _ _) _
    have hend : LineUnquoted (showAll .kept (.code '\n' :: next.segments)) := lineUnquoted_newline _
    have hskip : javaScript.importsFrom before (.code '\n' :: next.segments) = next.specifiers :=
      (importsFrom_wordless hline).trans (ih hbefore)
    rw [Script.segments, importsFrom_wordless hlead,
      importsFrom_reference r (happend hlead hpre) (.inl hend), hskip]
    rfl

/-- **A script gives its modules**: the names of the modules it refers to, each once and in order,
whatever its comments say and whatever the names spell. -/
theorem parse_script (script : Script) :
    Parser.javaScript.parse script.text = .ok script.specifiers := by
  have himports : javaScript.imports script.text = javaScript.importsFrom [] script.segments :=
    imports_eq_importsFrom (fun _ => rfl) fun contents => script.cleaned_text contents
  have hstart : (showAll .kept []).EndsApart := fun c hc => nomatch hc
  rw [importsFrom_script script hstart] at himports
  exact congrArg Except.ok himports

end ImportScan.JavaScript
