import ImportScan.Proofs.JavaScript.Forms

/-!
# The form that reads a reference

The head of a reference tells which form reads it (`Head.form`), and that form reads the reference
whole and takes the name of its module (`Head.exists_prefers`): every piece of its pattern first
takes the piece of the text that is meant for it.
-/

namespace ImportScan.JavaScript

open Grammar Pattern Text

variable {s e : Point Part} {rest : Text} {q : Char}

/-! ## White space and words -/

/-- The form that reads the references with the head. -/
def Head.form : Head → Form
  | .bare _ | .clause _ _ _ => .static
  | .all _ _ _ | .named _ _ _ _ => .reexport
  | .call _ .require _ _ _ => .require
  | .call _ .dynamicImport _ _ _ => .dynamic

theorem Head.keyword_form (h : Head) : h.form.keyword = h.keyword := by
  cases h with
  | call target callee => cases callee <;> rfl
  | _ => rfl

/-- The first character is no white space. -/
def StartsFull (t : Text) : Prop := ∀ c ∈ t.head?, isBlank c = false

theorem startsFull_cons {x : Char} (hx : isBlank x = false) (t : Text) : StartsFull (x :: t) := by
  rintro c ⟨⟩
  exact hx

theorem startsFull_quote (hq : isQuote q = true) (t : Text) : StartsFull (q :: t) := by
  apply startsFull_cons
  rcases isQuote_iff.1 hq with rfl | rfl <;> decide

theorem takesFirst_spaces (w : Spaces) (hrest : StartsFull rest) :
    (blanks1 : Pattern Part).TakesFirst w.val rest :=
  takesFirst_run w.2.2 hrest (List.length_pos_iff.2 w.2.1)

theorem takesFirst_blanks (w : Blanks) (hrest : StartsFull rest) :
    (blanks0 : Pattern Part).TakesFirst w.val rest :=
  takesFirst_run w.2 hrest (Nat.zero_le _)

theorem takesFirst_word (k : String) (rest : Text) :
    (word k : Pattern Part).TakesFirst k.toList rest := takesFirst_text _ _

theorem startsFull_from (t : Text) : StartsFull ("from".toList ++ t) :=
  startsFull_cons (by decide) _

theorem From.reads (f : From) {p : Pattern Part} {u : Text} (hp : p.Reads s u (f.text ++ rest))
    (hrest : StartsFull rest) :
    (p ++ blanks1 ++ word "from" ++ blanks1).Reads s (u ++ f.text) rest := by
  simp only [text, List.append_assoc] at hp
  have hfrom := ((hp.append (takesFirst_spaces _ (startsFull_from _))).append
    (takesFirst_word _ _)).append (takesFirst_spaces _ hrest)
  simpa only [text, List.append_assoc] using hfrom

/-- The keyword of a reference is read first. -/
theorem reads_keyword (hedge : atWordEdge s.cursor = true) {k : String}
    (hs : s.cursor.after = k.toList ++ rest) :
    (wordEdge ++ word k : Pattern Part).Reads s k.toList rest := by
  have hhere := reads_here hedge
  rw [hs] at hhere
  exact hhere.append (takesFirst_word k rest)

/-! ## Static imports -/

/-- Inside a clause no `from` follows that would end it. -/
theorem ends_from_eq_nil (c : Clause) (source : From) {n : Nat} (hn : n < c.val.length)
    (hs : s.cursor.after = c.val ++ (source.text ++ rest)) :
    (blanks1 ++ (word "from" ++ blanks1) : Pattern Part).ends (s.skip n) = [] := by
  obtain ⟨-, htrimmed, -, hfree⟩ := c.2
  refine List.eq_nil_iff_forall_not_mem.2 fun e he => hfree "from".toList (by decide) ?_
  obtain ⟨m₁, hblanks, h⟩ := mem_ends_append.1 he
  obtain ⟨m₂, hword, hgap⟩ := mem_ends_append.1 h
  obtain ⟨w, rest₁, hw, hblank, hlen, rfl⟩ := mem_ends_run.1 hblanks
  obtain ⟨rest₂, hrest₁, rfl⟩ := mem_ends_text.1 hword
  obtain ⟨w', rest₃, hrest₂, hblank', hlen', -⟩ := mem_ends_run.1 hgap
  rw [Point.after_skip_of_eq hw] at hrest₁
  subst hrest₁
  rw [Point.after_skip_of_eq (Point.after_skip_of_eq hw)] at hrest₂
  subst hrest₂
  -- the clause is cut into `u` and the rest of it
  obtain ⟨u, v, huv, hu⟩ : ∃ u v, c.val = u ++ v ∧ u.length = n :=
    ⟨_, _, (List.take_append_drop n c.val).symm, List.length_take_of_le (Nat.le_of_lt hn)⟩
  have hv : v ≠ [] := by
    rintro rfl
    rw [huv, List.append_nil, hu] at hn
    exact absurd hn (Nat.lt_irrefl _)
  have hlast : ∀ x ∈ v.getLast?, isBlank x = false :=
    forall_getLast?_of_append (a := u) (huv ▸ htrimmed.stop)
  have hcut : v ++ (source.text ++ rest) = w ++ ("from".toList ++ (w' ++ rest₃)) := by
    rw [huv, List.append_assoc] at hs
    rw [← hw, ← hu]
    exact (Point.after_skip_of_eq hs).symm
  have hsource : StartsApart (source.text ++ rest) := by
    simp only [From.text, List.append_assoc]
    exact startsApart_spaces source.before _
  have hnext : StartsApart (w' ++ rest₃) :=
    startsApart_spaces ⟨w', List.ne_nil_of_length_pos hlen', hblank'⟩ _
  obtain ⟨z, rfl, hz⟩ :=
    exists_of_blanks_word_append (by decide) hv hlast hsource hblank hnext hcut
  refine ⟨u ++ w, z, by rw [huv, List.append_assoc], ?_, hz⟩
  exact (AllBlank.wordless hblank).endsApart.append_left (List.ne_nil_of_length_pos hlen) u

theorem takesFirst_clause (c : Clause) (source : From) (hrest : StartsFull rest) :
    importClause.TakesFirst (c.val ++ source.text) rest := by
  intro s hs
  rw [List.append_assoc] at hs
  have hc : ∀ x ∈ c.val, isClauseChar x = true := c.2.2.2.1
  have hfrom : (blanks1 ++ word "from" ++ blanks1 : Pattern Part).TakesFirst source.text rest :=
    ((takesFirst_spaces _ (startsFull_from _)).append (takesFirst_word _ _)).append
      (takesFirst_spaces _ hrest)
  have hnext := hfrom _ (Point.after_skip_of_eq hs)
  rw [Point.skip_skip, ← List.length_append] at hnext
  rw [prefers_append_assoc] at hnext
  unfold importClause
  rw [prefers_append_assoc, prefers_append_assoc]
  exact prefers_lazy_run_append hs hc (List.length_pos_iff.2 c.2.1)
    (fun n hn => ends_from_eq_nil c source hn hs) hnext

theorem Clause.startsFull (c : Clause) (t : Text) : StartsFull (c.val ++ t) := by
  obtain ⟨hne, htrimmed, -⟩ := c.2
  obtain ⟨x, v, hv⟩ := List.exists_cons_of_ne_nil hne
  rw [hv]
  rintro y ⟨⟩
  exact htrimmed.start x (by rw [hv]; rfl)

/-- A quote starts no clause. -/
theorem importClause_ends_eq_nil (hq : isQuote q = true) (hs : s.cursor.after = q :: rest) :
    importClause.ends s = [] := by
  refine List.eq_nil_iff_forall_not_mem.2 fun e he => ?_
  obtain ⟨m, h, -⟩ := mem_ends_append.1 he
  obtain ⟨m, h, -⟩ := mem_ends_append.1 h
  obtain ⟨m, h, -⟩ := mem_ends_append.1 h
  obtain ⟨t, rest', ht, hclause, hlen, -⟩ := mem_ends_run.1 h
  obtain ⟨x, t, rfl⟩ := List.exists_cons_of_ne_nil (List.ne_nil_of_length_pos hlen)
  rw [hs] at ht
  obtain ⟨rfl, -⟩ := List.cons.inj ht
  have := hclause q List.mem_cons_self
  rcases isQuote_iff.1 hq with rfl | rfl <;> exact absurd this (by decide)

/-! ## Re-exports -/

theorem takesFirst_allExports (source : From) (t : Text) :
    allExports.TakesFirst ['*'] (source.text ++ t) := by
  refine TakesFirst.append (takesFirst_text ['*'] ([] ++ _)) (.maybe_nil fun s hs => ?_)
  refine List.eq_nil_iff_forall_not_mem.2 fun e he => ?_
  obtain ⟨m, h, -⟩ := mem_ends_append.1 he
  obtain ⟨m, h, -⟩ := mem_ends_append.1 h
  obtain ⟨m, hblanks, hword⟩ := mem_ends_append.1 h
  obtain ⟨w, rest₁, hw, hblank, -, rfl⟩ := mem_ends_run.1 hblanks
  obtain ⟨rest₂, hrest₁, -⟩ := mem_ends_text.1 hword
  rw [Point.after_skip_of_eq hw] at hrest₁
  subst hrest₁
  -- the first character behind the white space is that of `from`
  have hcut : source.before.val ++ 'f' :: ("rom".toList ++ (source.after.val ++ t)) =
      w ++ 'a' :: ('s' :: rest₂) := by
    rw [hs, From.text, List.append_assoc, List.append_assoc] at hw
    exact hw
  obtain ⟨-, hfirst, -⟩ :=
    append_cons_inj_of_run source.before.2.2 hblank (by decide) (by decide) hcut
  cases hfirst

theorem takesFirst_allExports_renamed (name : Renaming) (source : From) (t : Text) :
    allExports.TakesFirst (['*'] ++ name.text) (source.text ++ t) := by
  have hword : ∀ x ∈ name.name.val, (isWord x || x == '$') = true := by
    intro x hx
    simp [name.name.2.1.2 x hx]
  have hstop : ∀ x ∈ (source.text ++ t).head?, (isWord x || x == '$') = false := by
    simp only [From.text, List.append_assoc]
    refine forall_head?_append_of_ne_nil (P := fun x => (isWord x || x == '$') = false)
      source.before.2.1 fun x hx => ?_
    have hblank := source.before.2.2 x hx
    rw [isWord_eq_false_of_isBlank hblank, Bool.false_or]
    apply beq_false_of_ne
    rintro rfl
    exact absurd hblank (by decide)
  have hname : (some1 fun c => isWord c || c == '$' : Pattern Part).TakesFirst name.name.val
      (source.text ++ t) := takesFirst_run hword hstop (List.length_pos_iff.2 name.name.2.1.1)
  have hfull : StartsFull (name.name.val ++ (source.text ++ t)) := by
    refine forall_head?_append_of_ne_nil (P := (isBlank · = false)) name.name.2.1.1 ?_
    exact fun c hc => isBlank_eq_false_of_isWord (name.name.2.1.2 c hc)
  have has (t : Text) : StartsFull ("as".toList ++ t) := startsFull_cons (by decide) _
  refine TakesFirst.append (takesFirst_text ['*'] _) (.maybe ?_)
  exact (((takesFirst_spaces _ (has _)).append (takesFirst_word _ _)).append
    (takesFirst_spaces _ hfull)).append hname

theorem takesFirst_namedExports (names : Names) (t : Text) :
    namedExports.TakesFirst (['{'] ++ names.val ++ ['}']) t := by
  have hnames : ∀ x ∈ names.val, (x != '}') = true := by
    intro x hx
    simp [(names.2.1 x hx).2]
  have hrun : (some0 (· != '}') : Pattern Part).TakesFirst names.val (['}'] ++ t) := by
    apply takesFirst_run hnames
    · rintro x ⟨⟩
      decide
    · exact Nat.zero_le _
  exact ((takesFirst_text ['{'] _).append hrun).append (takesFirst_text ['}'] _)

/-- Braces are no export of everything. -/
theorem allExports_ends_eq_nil (hs : s.cursor.after = '{' :: rest) : allExports.ends s = [] := by
  refine List.eq_nil_iff_forall_not_mem.2 fun e he => ?_
  obtain ⟨m, h, -⟩ := mem_ends_append.1 he
  obtain ⟨x, rest', hx, hstar, -⟩ := mem_ends_one.1 h
  rw [hs] at hx
  obtain ⟨rfl, -⟩ := List.cons.inj hx
  exact absurd hstar (by decide)

theorem reads_exportHead (gap : Spaces) (hedge : atWordEdge s.cursor = true) {x : Char} {t : Text}
    (hx : isBlank x = false) (htype : x ≠ 't')
    (hs : s.cursor.after = "export".toList ++ (gap.val ++ x :: t)) :
    exportHead.Reads s ("export".toList ++ gap.val) (x :: t) := by
  have hgap := (reads_keyword hedge hs).append (takesFirst_spaces gap (startsFull_cons hx t))
  have hkind : (maybe (word "type" ++ blanks1) : Pattern Part).TakesFirst [] (x :: t) := by
    refine .maybe_nil fun s hs => List.eq_nil_iff_forall_not_mem.2 fun e he => ?_
    obtain ⟨m, h, -⟩ := mem_ends_append.1 he
    obtain ⟨rest', hrest, -⟩ := mem_ends_text.1 h
    rw [hs] at hrest
    exact htype (List.cons.inj hrest).1
  have hhead := Reads.append (t := []) hgap hkind
  rwa [List.append_nil] at hhead

theorem reads_exportHead_type (gap kind : Spaces) (hedge : atWordEdge s.cursor = true)
    (hrest : StartsFull rest)
    (hs : s.cursor.after = "export".toList ++ (gap.val ++ ("type".toList ++ (kind.val ++ rest)))) :
    exportHead.Reads s ("export".toList ++ gap.val ++ ("type".toList ++ kind.val)) rest := by
  have hgap := (reads_keyword hedge hs).append
    (takesFirst_spaces gap (startsFull_cons (by decide) _))
  rw [← List.append_assoc] at hgap
  exact hgap.append (.maybe ((takesFirst_word "type" _).append (takesFirst_spaces kind hrest)))

/-! ## Whole references -/

variable {name : Text}

/-- A re-export is read by the end of its head. -/
theorem exists_prefers_reexport {u t : Text} (source : From)
    (hhead : exportHead.Reads s u (t ++ (source.text ++ q :: (name ++ q :: rest))))
    (ht : (allExports ||| namedExports).TakesFirst t (source.text ++ q :: (name ++ q :: rest)))
    (hq : isQuote q = true) (hname : IsSpecifier name) :
    ∃ e, reexport.pattern.Prefers s e ∧ e.cursor.after = rest ∧ e.part? .name = some name :=
  exists_prefers_append_specifier (source.reads (hhead.append ht) (startsFull_quote hq _)) hq hname

theorem exists_prefers_namedExports {u : Text} (names : Names) (source : From)
    (hhead : exportHead.Reads s u
      (['{'] ++ (names.val ++ (['}'] ++ (source.text ++ q :: (name ++ q :: rest))))))
    (hq : isQuote q = true) (hname : IsSpecifier name) :
    ∃ e, reexport.pattern.Prefers s e ∧ e.cursor.after = rest ∧ e.part? .name = some name := by
  have hnames (t : Text) :
      (allExports ||| namedExports).TakesFirst (['{'] ++ names.val ++ ['}']) t := by
    refine .or_right (fun s hs => ?_) (takesFirst_namedExports names t)
    rw [List.append_assoc, List.append_assoc] at hs
    exact allExports_ends_eq_nil hs
  refine exists_prefers_reexport (u := u) source ?_ (hnames _) hq hname
  simp only [List.append_assoc]
  exact hhead

theorem exists_prefers_moduleCall {k : String} (gap before after : Blanks)
    (hedge : atWordEdge s.cursor = true) (hq : isQuote q = true) (hname : IsSpecifier name)
    (hs : s.cursor.after = k.toList ++ (gap.val ++ (['('] ++ (before.val ++
      q :: (name ++ q :: (after.val ++ ([')'] ++ rest))))))) :
    ∃ e, (moduleCall k).pattern.Prefers s e ∧ e.cursor.after = rest ∧
      e.part? .name = some name := by
  have hgap := (reads_keyword hedge hs).append
    (takesFirst_blanks gap (startsFull_cons (by decide) _))
  have hopen := (hgap.append (takesFirst_text ['('] _)).append
    (takesFirst_blanks before (startsFull_quote hq _))
  obtain ⟨e, he, hrest, hpart⟩ := exists_prefers_append_specifier hopen hq hname
  have hafter := he.append (takesFirst_blanks after (startsFull_cons (by decide) _) e hrest)
  have hnext := Point.after_skip_of_eq hrest
  refine ⟨_, hafter.append (takesFirst_text [')'] _ _ hnext), Point.after_skip_of_eq hnext, ?_⟩
  rw [Point.part?_skip, Point.part?_skip, hpart]

/-- The form of a reference reads it whole and takes the name of its module. -/
theorem Head.exists_prefers (h : Head) (hedge : atWordEdge s.cursor = true)
    (hq : isQuote q = true) (hname : IsSpecifier name)
    (hs : s.cursor.after = h.opening ++ q :: (name ++ q :: (h.back ++ rest))) :
    ∃ e, h.form.statement.pattern.Prefers s e ∧ e.cursor.after = rest ∧
      e.part? .name = some name := by
  rw [opening, List.append_assoc] at hs
  have hkeyword := reads_keyword hedge hs
  cases h with
  | bare gap =>
    have hgap := hkeyword.append (takesFirst_spaces gap (startsFull_quote hq _))
    have hclause : (maybe importClause).TakesFirst [] (q :: (name ++ q :: rest)) :=
      .maybe_nil fun s hs => importClause_ends_eq_nil hq hs
    exact exists_prefers_append_specifier (hgap.append hclause) hq hname
  | clause gap c source =>
    simp only [Head.rest, List.append_assoc] at hkeyword
    have hgap := hkeyword.append (takesFirst_spaces gap (c.startsFull _))
    rw [← List.append_assoc] at hgap
    exact exists_prefers_append_specifier
      (hgap.append (takesFirst_clause c source (startsFull_quote hq _)).maybe) hq hname
  | all gap newName source =>
    cases newName with
    | none =>
      simp only [Head.rest, List.append_assoc] at hs
      have hhead := reads_exportHead gap hedge (by decide) (by decide) hs
      exact exists_prefers_reexport (t := ['*']) source hhead
        (takesFirst_allExports source _).or_left hq hname
    | some newName =>
      simp only [Head.rest, List.append_assoc] at hs
      have hhead := reads_exportHead gap hedge (by decide) (by decide) hs
      refine exists_prefers_reexport (u := "export".toList ++ gap.val) source ?_
        (takesFirst_allExports_renamed newName source _).or_left hq hname
      rw [List.append_assoc]
      exact hhead
  | named gap kind names source =>
    cases kind with
    | none =>
      simp only [Head.rest, List.append_assoc] at hs
      have hhead := reads_exportHead gap hedge (by decide) (by decide) hs
      exact exists_prefers_namedExports names source hhead hq hname
    | some kind =>
      simp only [Head.rest, List.append_assoc] at hs
      have hhead := reads_exportHead_type gap kind hedge (startsFull_cons (by decide) _) hs
      exact exists_prefers_namedExports names source hhead hq hname
  | call target callee gap before after =>
    simp only [Head.rest, Head.back, List.append_assoc] at hs
    cases callee <;> exact exists_prefers_moduleCall gap before after hedge hq hname hs

end ImportScan.JavaScript
