import ImportScan.Proofs.JavaScript.Statements
import ImportScan.Proofs.JavaScript.Syntax

/-!
# What the forms start with

A form starts with its keyword and white space or a parenthesis behind it (`Form.opensWith`). Two
forms have one keyword, the static import and the call of `import`; what follows the keyword tells
them apart (`staticImport_ends_eq_nil`, `moduleCall_ends_eq_nil`). No form starts in the quoted name
of a reference that ends its line, whatever the name spells: there is no white space in the name,
and the quote at its end opens no other (`Reference.noneIn_literal`).
-/

namespace ImportScan.JavaScript

open Grammar Pattern Text

variable {s m e : Point Part} {a b t w rest : Text} {q x : Char}

/-! ## The forms -/

/-- The forms of statement that refer to a module. -/
inductive Form where
  | static
  | reexport
  | require
  | dynamic
deriving DecidableEq

namespace Form

/-- Every form, in the order of the grammar. -/
def all : List Form := [static, reexport, require, dynamic]

/-- The statement of a form. -/
def statement : Form → Statement
  | static => staticImport
  | reexport => Grammar.reexport
  | require => moduleCall "require"
  | dynamic => moduleCall "import"

/-- The word that a form starts with. -/
def keyword : Form → String
  | static | dynamic => "import"
  | reexport => "export"
  | require => "require"

/-- What follows the keyword. -/
def Follows : Form → Char → Prop
  | static | reexport => fun c => isBlank c = true
  | require | dynamic => fun c => isBlank c = true ∨ c = '('

end Form

theorem statements_eq : javaScript.statements = Form.all.map Form.statement := rfl

theorem Form.exists_split (f : Form) : ∃ l l', Form.all = l ++ f :: l' ∧ f ∉ l ++ l' := by
  cases f with
  | static => exact ⟨[], _, rfl, by decide⟩
  | reexport => exact ⟨[static], _, rfl, by decide⟩
  | require => exact ⟨[static, reexport], _, rfl, by decide⟩
  | dynamic => exact ⟨[static, reexport, require], _, rfl, by decide⟩

/-! ## What a form starts with -/

/-- A call has its parenthesis behind the keyword. -/
theorem exists_of_mem_ends_moduleCall {k : String} (he : e ∈ (moduleCall k).pattern.ends s) :
    atWordEdge s.cursor = true ∧ ∃ w rest, s.cursor.after = k.toList ++ (w ++ '(' :: rest) ∧
      AllBlank w := by
  obtain ⟨m, h, -⟩ := mem_ends_append.1 he
  obtain ⟨m, h, -⟩ := mem_ends_append.1 h
  obtain ⟨m, h, -⟩ := mem_ends_append.1 h
  obtain ⟨m, h, -⟩ := mem_ends_append.1 h
  obtain ⟨m, h, hopen⟩ := mem_ends_append.1 h
  obtain ⟨m, h, hblanks⟩ := mem_ends_append.1 h
  obtain ⟨m, h, hword⟩ := mem_ends_append.1 h
  obtain ⟨hedge, rfl⟩ := mem_ends_here.1 h
  obtain ⟨rest, hs, rfl⟩ := mem_ends_text.1 hword
  obtain ⟨w, rest', hw, hblank, -, rfl⟩ := mem_ends_run.1 hblanks
  obtain ⟨x, rest'', hx, hparen, -⟩ := mem_ends_one.1 hopen
  rw [Point.after_skip_of_eq hs] at hw
  subst hw
  have hrest := Point.after_skip_of_eq (Point.after_skip_of_eq hs)
  rw [hx] at hrest
  obtain rfl : x = '(' := eq_of_beq hparen
  exact ⟨hedge, w, rest'', by rw [hs, ← hrest], hblank⟩

/-- The pattern of what stands between the keyword of an import and its quoted name. -/
def importClause : Pattern Part :=
  .run false isClauseChar 1 none ++ blanks1 ++ word "from" ++ blanks1

theorem staticImport_pattern : staticImport.pattern =
    wordEdge ++ word "import" ++ blanks1 ++ maybe importClause ++ specifier := rfl

/-- A static import has nothing but a clause in front of its quoted name. -/
theorem exists_of_mem_ends_staticImport (he : e ∈ staticImport.pattern.ends s) :
    ∃ t q rest, s.cursor.after = t ++ q :: rest ∧ (∀ c ∈ t, isClauseChar c = true) ∧
      isQuote q = true := by
  have hblanks : (blanks1 : Pattern Part).Takes (isClauseChar · = true) := by
    intro c hc
    simp [isClauseChar, hc]
  have hclause : (Pattern.run false isClauseChar 1 none : Pattern Part).Takes
      (isClauseChar · = true) := fun c hc => hc
  have hfront : (wordEdge ++ word "import" ++ blanks1 ++ maybe importClause).Takes
      (isClauseChar · = true) :=
    ⟨⟨⟨trivial, takes_text (by decide)⟩, hblanks⟩,
      ⟨⟨⟨hclause, hblanks⟩, takes_text (by decide)⟩, hblanks⟩, trivial⟩
  rw [staticImport_pattern] at he
  obtain ⟨m, ⟨t, rest, hs, ht, hm⟩, hne⟩ := exists_of_mem_ends_append_specifier hfront he
  obtain ⟨e, he⟩ := List.exists_mem_of_ne_nil _ hne
  obtain ⟨q, name, rest', hafter, hq, -⟩ := exists_of_mem_ends_specifier he
  rw [hm, Cursor.after_skip, hs, List.drop_left] at hafter
  exact ⟨t, q, _, by rw [hs, hafter], ht, hq⟩

theorem opensWith_keyword_blanks1 {k : String} (hk : IsWord k.toList) :
    OpensWith k.toList (isBlank · = true) (wordEdge ++ word k ++ blanks1) where
  isWord := hk
  apart := fun _ hx => isWord_eq_false_of_isBlank hx
  opens := by
    intro s e he
    obtain ⟨m, h, hblanks⟩ := mem_ends_append.1 he
    obtain ⟨m, h, hword⟩ := mem_ends_append.1 h
    obtain ⟨hedge, rfl⟩ := mem_ends_here.1 h
    obtain ⟨rest, hs, rfl⟩ := mem_ends_text.1 hword
    obtain ⟨w, rest', hw, hblank, hlen, rfl⟩ := mem_ends_run.1 hblanks
    obtain ⟨x, w, rfl⟩ := List.exists_cons_of_ne_nil (List.ne_nil_of_length_pos hlen)
    rw [Point.after_skip_of_eq hs] at hw
    subst hw
    exact ⟨hedge, x, _, hs, hblank x List.mem_cons_self⟩

theorem opensWith_moduleCall {k : String} (hk : IsWord k.toList) :
    OpensWith k.toList (fun c => isBlank c = true ∨ c = '(') (moduleCall k).pattern where
  isWord := hk
  apart := by
    rintro x (hx | rfl)
    · exact isWord_eq_false_of_isBlank hx
    · decide
  opens := by
    intro s e he
    obtain ⟨hedge, w, rest, hs, hw⟩ := exists_of_mem_ends_moduleCall he
    refine ⟨hedge, ?_⟩
    cases w with
    | nil => exact ⟨_, _, hs, .inr rfl⟩
    | cons x w => exact ⟨_, _, hs, .inl (hw x List.mem_cons_self)⟩

theorem Form.opensWith (f : Form) : OpensWith f.keyword.toList f.Follows f.statement.pattern := by
  cases f with
  | static => exact ((opensWith_keyword_blanks1 (by decide)).append _).append _
  | reexport =>
    exact ((((((opensWith_keyword_blanks1 (by decide)).append _).append _).append _).append
      _).append _).append _
  | require => exact opensWith_moduleCall (by decide)
  | dynamic => exact opensWith_moduleCall (by decide)

theorem Form.keyword_mem (f : Form) : f.keyword.toList ∈ starters := by
  cases f <;> decide

/-! ## One keyword for two forms -/

theorem Form.eq_of_keyword_eq {f g : Form} (hk : f.keyword = g.keyword) (hne : f ≠ g) :
    f = static ∧ g = dynamic ∨ f = dynamic ∧ g = static := by
  revert hk hne
  cases f <;> cases g <;> decide

theorem staticImport_ends_eq_nil (hw : AllBlank w)
    (hs : s.cursor.after = "import".toList ++ (w ++ '(' :: rest)) :
    staticImport.pattern.ends s = [] := by
  refine List.eq_nil_iff_forall_not_mem.2 fun e he => ?_
  obtain ⟨t, q, rest', hafter, ht, hq⟩ := exists_of_mem_ends_staticImport he
  have hfront : ∀ c ∈ "import".toList ++ w, isClauseChar c = true := by
    intro c hc
    rcases List.mem_append.1 hc with hc | hc
    · exact (by decide : ∀ c ∈ "import".toList, isClauseChar c = true) c hc
    · simp [isClauseChar, hw c hc]
  have hquote : isClauseChar q = false := by
    rcases isQuote_iff.1 hq with rfl | rfl <;> decide
  rw [hs, ← List.append_assoc] at hafter
  obtain ⟨-, rfl, -⟩ := append_cons_inj_of_run hfront ht (by decide) hquote hafter
  cases hq

theorem moduleCall_ends_eq_nil {k : String} (hw : AllBlank w) (hx : isBlank x = false)
    (hparen : x ≠ '(') (hs : s.cursor.after = k.toList ++ (w ++ x :: rest)) :
    (moduleCall k).pattern.ends s = [] := by
  refine List.eq_nil_iff_forall_not_mem.2 fun e he => ?_
  obtain ⟨-, w', rest', hafter, hw'⟩ := exists_of_mem_ends_moduleCall he
  have hrest := List.append_cancel_left (hs.symm.trans hafter)
  obtain ⟨-, hx, -⟩ := append_cons_inj_of_run hw hw' hx (by decide) hrest
  exact hparen hx

/-! ## In the name of a module -/

/-- A form does not start where there is nothing that may follow its keyword. -/
theorem noneIn_of_forall_not {k : Text} {P : Char → Prop} {p : Pattern Part}
    (hp : OpensWith k P p) (ht : ∀ c ∈ t, ¬P c) (hx : isWord x = false) (hx' : ¬P x) :
    p.NoneIn a t (x :: rest) := by
  intro u y v huv
  refine List.eq_nil_iff_forall_not_mem.2 fun e he => ?_
  obtain ⟨-, z, rest', hafter, hz⟩ := hp.opens _ e he
  have hcut : (y :: v) ++ x :: rest = k ++ z :: rest' := hafter
  have hv : ∀ c ∈ y :: v, ¬P c := fun c hc => ht c (huv ▸ List.mem_append_right u hc)
  -- the keyword would go on over `x` up to what follows it
  rcases List.append_eq_append_iff.1 hcut with ⟨d, rfl, hd⟩ | ⟨d, hd, hrest⟩
  · cases d with
    | nil =>
      obtain ⟨rfl, -⟩ := List.cons.inj hd
      exact hx' hz
    | cons c d =>
      obtain ⟨rfl, -⟩ := List.cons.inj hd
      rw [hp.isWord.2 x (by simp)] at hx
      cases hx
  · cases d with
    | nil =>
      obtain ⟨rfl, -⟩ := List.cons.inj hrest
      exact hx' hz
    | cons c d =>
      obtain ⟨rfl, -⟩ := List.cons.inj hrest
      exact hv z (hd ▸ by simp) hz

/-- A reference has no other in the name of its module, if it ends its line or the name has no
parenthesis. -/
theorem Reference.noneIn_literal (r : Reference) (f : Form)
    (h : LineUnquoted rest ∨ '(' ∉ r.specifier.val) :
    f.statement.pattern.NoneIn a r.literal rest := by
  have hq := r.quote.isQuote_char
  have hquote : isWord r.quote.char = false ∧ isBlank r.quote.char = false ∧
      r.quote.char ≠ '(' := by
    rcases isQuote_iff.1 hq with h | h <;> rw [h] <;> decide
  have hwordless : Wordless [r.quote.char] := fun c hc => List.mem_singleton.1 hc ▸ hquote.1
  have hblank : ∀ c ∈ r.specifier.val, ¬isBlank c = true := fun c hc =>
    Bool.eq_false_iff.1 (r.specifier.2.2 c hc).1
  have hplain : ∀ c ∈ r.specifier.val, isQuote c = false := fun c hc => (r.specifier.2.2 c hc).2.1
  have hblank' : ¬isBlank r.quote.char = true := Bool.eq_false_iff.1 hquote.2.1
  have hcall {k : String} (hk : IsWord k.toList) (hunquoted : ∀ c ∈ k.toList, isQuote c = false) :
      (moduleCall k).pattern.NoneIn (a ++ [r.quote.char]) r.specifier.val
        (r.quote.char :: rest) := by
    rcases h with hrest | hparen
    · exact (needsSpecifier_moduleCall hunquoted).noneIn hplain hq hrest
    · refine noneIn_of_forall_not (opensWith_moduleCall hk) (fun c hc => ?_) hquote.1 ?_
      · exact not_or.2 ⟨hblank c hc, fun h => hparen (h ▸ hc)⟩
      · exact not_or.2 ⟨hblank', hquote.2.2⟩
  have hname : f.statement.pattern.NoneIn (a ++ [r.quote.char]) r.specifier.val
      (r.quote.char :: rest) := by
    cases f with
    | static => exact noneIn_of_forall_not Form.static.opensWith hblank hquote.1 hblank'
    | reexport => exact noneIn_of_forall_not Form.reexport.opensWith hblank hquote.1 hblank'
    | require => exact hcall (by decide) (by decide)
    | dynamic => exact hcall (by decide) (by decide)
  have hclose := hname.append (f.opensWith.noneIn_wordless hwordless)
  exact NoneIn.append (t := [r.quote.char]) (f.opensWith.noneIn_wordless hwordless) hclose

end ImportScan.JavaScript
