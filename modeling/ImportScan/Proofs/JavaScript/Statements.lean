import ImportScan.Grammar.Web
import ImportScan.Proofs.Grammar.Behind
import ImportScan.Proofs.Grammar.Keyword
import ImportScan.Proofs.Grammar.Specifier
import ImportScan.Proofs.Text.Cut

/-!
# Module references, form by form

Every form starts with its keyword and needs a quoted name. All but the re-export take no quote
before that name (`eq_reexport_or_needsSpecifier`); a re-export may, between its braces
(`takesJust_namedExports`). No form notices what stands in front of it, if that ends in no word
(`overlooks_statement`).
-/

namespace ImportScan.JavaScript

open Grammar Pattern

variable {s m e : Point Part}

/-! ## Quotes -/

theorem isQuote_iff {c : Char} : isQuote c = true ↔ c = '\'' ∨ c = '"' := by
  simp [isQuote]

theorem isQuote_eq_false {p : Char → Bool} (h : p '\'' = false) (h' : p '"' = false) (c : Char)
    (hc : p c = true) : isQuote c = false := by
  cases hq : isQuote c with
  | false => rfl
  | true =>
    rcases isQuote_iff.1 hq with rfl | rfl
    · rw [h] at hc
      cases hc
    · rw [h'] at hc
      cases hc

/-- The text between two places holds no quote. -/
abbrev Unquoted : Cursor → Cursor → Prop := IsBehind (isQuote · = false)

theorem isQuote_eq_false_of_isBlank (c : Char) (h : Text.isBlank c = true) : isQuote c = false :=
  isQuote_eq_false (by decide) (by decide) c h

/-- A match needs a quoted name and takes no quote before it. -/
def NeedsSpecifier (p : Pattern Part) : Prop :=
  ∀ s, ∀ e ∈ p.ends s, ∃ m, Unquoted s.cursor m.cursor ∧ specifier.ends m ≠ []

/-- What may stand before the name is told by the pattern before it. -/
theorem exists_of_mem_ends_append_specifier {P : Char → Prop} {p : Pattern Part} (hp : p.Takes P)
    (he : e ∈ (p ++ specifier).ends s) :
    ∃ m, IsBehind P s.cursor m.cursor ∧ specifier.ends m ≠ [] := by
  obtain ⟨m, hm, he⟩ := mem_ends_append.1 he
  exact ⟨m, isBehind_of_mem_ends hp hm, List.ne_nil_of_mem he⟩

theorem needsSpecifier_append_specifier {p : Pattern Part} (hp : p.Takes (isQuote · = false)) :
    NeedsSpecifier (p ++ specifier) := fun _ _ he => exists_of_mem_ends_append_specifier hp he

theorem NeedsSpecifier.append {p : Pattern Part} (hp : NeedsSpecifier p) (q : Pattern Part) :
    NeedsSpecifier (p ++ q) := by
  intro s e he
  obtain ⟨m, hm, -⟩ := mem_ends_append.1 he
  exact hp s m hm

/-! ## Quotes that open no name -/

/-- No quote stands on the rest of the line. -/
def LineUnquoted (t : Text) : Prop := ∀ c ∈ t.takeWhile (· != '\n'), isQuote c = false

theorem lineUnquoted_nil : LineUnquoted [] := fun _ hc => nomatch hc

theorem lineUnquoted_newline (t : Text) : LineUnquoted ('\n' :: t) := fun _ hc => nomatch hc

theorem LineUnquoted.append {t t' : Text} (ht : ∀ c ∈ t, isQuote c = false)
    (ht' : LineUnquoted t') : LineUnquoted (t ++ t') := by
  intro c hc
  rw [List.takeWhile_append] at hc
  split at hc
  · rcases List.mem_append.1 hc with hc | hc
    · exact ht c hc
    · exact ht' c hc
  · exact ht c ((List.takeWhile_prefix _).subset hc)

/-- A quote that is the last of its line opens no name. -/
theorem specifier_ends_eq_nil {q : Char} {u rest : Text} (hu : ∀ c ∈ u, isQuote c = false)
    (hq : isQuote q = true) (hrest : LineUnquoted rest) (hs : s.cursor.after = u ++ q :: rest)
    (hm : Unquoted s.cursor m.cursor) : specifier.ends m = [] := by
  refine List.eq_nil_iff_forall_not_mem.2 fun e he => ?_
  obtain ⟨q', name, more, hafter, hq', ⟨-, hname⟩, -⟩ := exists_of_mem_ends_specifier he
  obtain ⟨t, more', hst, ht, hm⟩ := hm
  rw [hm, Cursor.after_skip, hst, List.drop_left] at hafter
  rw [hafter, hs] at hst
  obtain ⟨-, rfl, rfl⟩ := Text.append_cons_inj_of_first hu ht hq hq' hst
  -- the closing quote would stand on the same line
  have hmem : q ∈ (name ++ q :: more).takeWhile (· != '\n') := by
    have hline : ∀ c ∈ name, (c != '\n') = true := fun c hc => by simp [(hname c hc).2]
    rw [List.takeWhile_append_of_pos hline, List.takeWhile_cons_of_pos]
    · exact List.mem_append_right name List.mem_cons_self
    · rcases isQuote_iff.1 hq with rfl | rfl <;> rfl
  rw [hrest q hmem] at hq
  cases hq

/-- No match starts in front of such a quote. -/
theorem NeedsSpecifier.noneIn {p : Pattern Part} (hp : NeedsSpecifier p) {q : Char}
    {a t rest : Text} (ht : ∀ c ∈ t, isQuote c = false) (hq : isQuote q = true)
    (hrest : LineUnquoted rest) : p.NoneIn a t (q :: rest) := by
  intro u x v huv
  refine List.eq_nil_iff_forall_not_mem.2 fun e he => ?_
  obtain ⟨m, hm, hne⟩ := hp _ e he
  refine hne (specifier_ends_eq_nil (u := x :: v) ?_ hq hrest rfl hm)
  intro c hc
  exact ht c (huv ▸ List.mem_append_right u hc)

/-! ## Re-exports -/

/-- Nonempty white space. -/
def IsSpacing (t : Text) : Prop := t.AllBlank ∧ 1 ≤ t.length

theorem isSpacing_space : IsSpacing [' '] := by
  refine ⟨fun c hc => ?_, Nat.le_refl 1⟩
  rw [List.mem_singleton.1 hc]
  decide

/-- The start of a re-export, up to what it exports. -/
def IsExportHead (t : Text) : Prop :=
  ∃ gap kind, t = "export".toList ++ (gap ++ kind) ∧ IsSpacing gap ∧
    ((∃ w, kind = "type".toList ++ w ∧ IsSpacing w) ∨ kind = [])

/-- The pattern of the start of a re-export. -/
def exportHead : Pattern Part :=
  wordEdge ++ word "export" ++ blanks1 ++ maybe (word "type" ++ blanks1)

/-- The pattern of an export of everything. -/
def allExports : Pattern Part :=
  char '*' ++ maybe (blanks1 ++ word "as" ++ blanks1 ++ some1 fun c => Text.isWord c || c == '$')

/-- The pattern of an export of names. -/
def namedExports : Pattern Part := char '{' ++ some0 (· != '}') ++ char '}'

theorem reexport_pattern : reexport.pattern =
    exportHead ++ (allExports ||| namedExports) ++ blanks1 ++ word "from" ++ blanks1 ++
      specifier := rfl

theorem takesJust_blanks1 : (blanks1 : Pattern Part).TakesJust IsSpacing := takesJust_run _ _ _

theorem mem_ends_exportHead : e ∈ exportHead.ends s ↔ atWordEdge s.cursor = true ∧
    ∃ t rest, s.cursor.after = t ++ rest ∧ IsExportHead t ∧ e = s.skip t.length := by
  have hhead : (word "export" ++ (blanks1 ++ maybe (word "type" ++ blanks1)) :
      Pattern Part).TakesJust IsExportHead := by
    refine ((takesJust_text _).append (takesJust_blanks1.append
      ((takesJust_text _).append takesJust_blanks1).maybe)).congr fun t => ?_
    constructor
    · rintro ⟨_, _, rfl, rfl, gap, kind, rfl, hgap, ⟨_, w, rfl, rfl, hw⟩ | rfl⟩
      · exact ⟨gap, _, rfl, hgap, .inl ⟨w, rfl, hw⟩⟩
      · exact ⟨gap, [], rfl, hgap, .inr rfl⟩
    · rintro ⟨gap, kind, rfl, hgap, ⟨w, rfl, hw⟩ | rfl⟩
      · exact ⟨_, _, rfl, rfl, gap, _, rfl, hgap, .inl ⟨_, w, rfl, rfl, hw⟩⟩
      · exact ⟨_, _, rfl, rfl, gap, [], rfl, hgap, .inr rfl⟩
  rw [exportHead, ends_append_assoc, ends_append_assoc, mem_ends_append]
  constructor
  · rintro ⟨m, hm, he⟩
    obtain ⟨hedge, rfl⟩ := mem_ends_here.1 hm
    exact ⟨hedge, (hhead _ e).1 he⟩
  · rintro ⟨hedge, he⟩
    exact ⟨s, mem_ends_here.2 ⟨hedge, rfl⟩, (hhead s e).2 he⟩

theorem takesJust_namedExports :
    namedExports.TakesJust fun t => ∃ names, t = '{' :: (names ++ ['}']) ∧ '}' ∉ names := by
  refine (((takesJust_text ['{']).append (takesJust_run _ _ _)).append
    (takesJust_text ['}'])).congr fun t => ?_
  constructor
  · rintro ⟨_, _, rfl, ⟨_, names, rfl, rfl, hnames, -⟩, rfl⟩
    exact ⟨names, by simp, fun h => by simpa using hnames _ h⟩
  · rintro ⟨names, rfl, hnames⟩
    refine ⟨'{' :: names, ['}'], by simp, ⟨['{'], names, rfl, rfl, ?_, Nat.zero_le _⟩, rfl⟩
    intro c hc
    simpa using fun h : c = '}' => hnames (h ▸ hc)

theorem isQuote_eq_false_of_mem_exportHead {t : Text} (h : IsExportHead t) {c : Char}
    (hc : c ∈ t) : isQuote c = false := by
  have hspacing {w : Text} (hw : IsSpacing w) (hc : c ∈ w) : isQuote c = false :=
    isQuote_eq_false_of_isBlank c (hw.1 c hc)
  have hexport : ∀ c ∈ "export".toList, isQuote c = false := by decide
  have htype : ∀ c ∈ "type".toList, isQuote c = false := by decide
  obtain ⟨gap, kind, rfl, hgap, hkind⟩ := h
  rcases List.mem_append.1 hc with hc | hc
  · exact hexport c hc
  · rcases List.mem_append.1 hc with hc | hc
    · exact hspacing hgap hc
    · rcases hkind with ⟨w, rfl, hw⟩ | rfl
      · rcases List.mem_append.1 hc with hc | hc
        · exact htype c hc
        · exact hspacing hw hc
      · cases hc

theorem takes_allExports : allExports.Takes (isQuote · = false) := by
  have hblanks : (blanks1 : Pattern Part).Takes (isQuote · = false) := isQuote_eq_false_of_isBlank
  refine ⟨isQuote_eq_false (by decide) (by decide), ⟨⟨⟨hblanks, takes_text ?_⟩, hblanks⟩, ?_⟩,
    trivial⟩
  · decide
  · exact isQuote_eq_false (by decide) (by decide)

/-! ## All forms -/

theorem mem_statements {s : Statement} : s ∈ javaScript.statements ↔
    s = staticImport ∨ s = reexport ∨ s = moduleCall "require" ∨ s = moduleCall "import" := by
  simp only [javaScript, List.mem_cons, List.not_mem_nil, or_false]

theorem startsWith_staticImport : StartsWith "import".toList staticImport.pattern :=
  (((startsWith_keyword _).append _).append _).append _

theorem startsWith_reexport : StartsWith "export".toList reexport.pattern :=
  (((((((startsWith_keyword _).append _).append _).append _).append _).append _).append _).append _

theorem startsWith_moduleCall (k : String) : StartsWith k.toList (moduleCall k).pattern :=
  ((((((startsWith_keyword k).append _).append _).append _).append _).append _).append _

theorem needsSpecifier_staticImport : NeedsSpecifier staticImport.pattern := by
  have hblanks : (blanks1 : Pattern Part).Takes (isQuote · = false) := isQuote_eq_false_of_isBlank
  have hclause : (Pattern.run false isClauseChar 1 none : Pattern Part).Takes
      (isQuote · = false) := isQuote_eq_false (by decide) (by decide)
  exact needsSpecifier_append_specifier ⟨⟨⟨trivial, takes_text (by decide)⟩, hblanks⟩,
    ⟨⟨⟨hclause, hblanks⟩, takes_text (by decide)⟩, hblanks⟩, trivial⟩

theorem needsSpecifier_moduleCall {k : String} (hk : ∀ c ∈ k.toList, isQuote c = false) :
    NeedsSpecifier (moduleCall k).pattern := by
  have hblanks : (blanks0 : Pattern Part).Takes (isQuote · = false) := isQuote_eq_false_of_isBlank
  have hopen : (char '(' : Pattern Part).Takes (isQuote · = false) :=
    isQuote_eq_false (by decide) (by decide)
  refine ((needsSpecifier_append_specifier ?_).append _).append _
  exact ⟨⟨⟨⟨trivial, takes_text hk⟩, hblanks⟩, hopen⟩, hblanks⟩

/-- The forms of statement other than the re-export. -/
theorem eq_reexport_or_needsSpecifier {s : Statement} (hs : s ∈ javaScript.statements) :
    s = reexport ∨ NeedsSpecifier s.pattern := by
  rcases mem_statements.1 hs with rfl | rfl | rfl | rfl
  · exact .inr needsSpecifier_staticImport
  · exact .inl rfl
  · exact .inr (needsSpecifier_moduleCall (by decide))
  · exact .inr (needsSpecifier_moduleCall (by decide))

theorem overlooks_statement {s : Statement} (hs : s ∈ javaScript.statements) {front : Text}
    (h : front.EndsApart) : s.pattern.Overlooks front := by
  have hedge : (wordEdge : Pattern Part).Overlooks front := overlooks_wordEdge h
  have hspecifier : specifier.Overlooks front := ⟨⟨trivial, trivial⟩, trivial⟩
  have hcall (k : String) : (moduleCall k).pattern.Overlooks front :=
    ⟨⟨⟨⟨⟨⟨⟨hedge, overlooks_text _⟩, trivial⟩, trivial⟩, trivial⟩, hspecifier⟩, trivial⟩, trivial⟩
  rcases mem_statements.1 hs with rfl | rfl | rfl | rfl
  · exact ⟨⟨⟨⟨hedge, overlooks_text _⟩, trivial⟩,
      ⟨⟨⟨trivial, trivial⟩, overlooks_text _⟩, trivial⟩, trivial⟩, hspecifier⟩
  · exact ⟨⟨⟨⟨⟨⟨⟨⟨hedge, overlooks_text _⟩, trivial⟩, ⟨overlooks_text _, trivial⟩, trivial⟩,
      ⟨trivial, ⟨⟨⟨trivial, overlooks_text _⟩, trivial⟩, trivial⟩, trivial⟩,
      ⟨trivial, trivial⟩, trivial⟩, trivial⟩, overlooks_text _⟩, trivial⟩, hspecifier⟩
  · exact hcall "require"
  · exact hcall "import"

theorem names_behind {s : Statement} (hs : s ∈ javaScript.statements) (front : Text)
    (m : Match Part) : s.names (m.behind front) = s.names m := by
  rcases mem_statements.1 hs with rfl | rfl | rfl | rfl <;>
    exact Match.nameBy_behind Text.trim front m

end ImportScan.JavaScript
