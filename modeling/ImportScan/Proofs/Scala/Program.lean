import ImportScan.Language
import ImportScan.Proofs.Grammar.Scan
import ImportScan.Proofs.Scala.Clause

/-!
# Programs that import

A program is a sequence of imports, each up to the newline or the semicolon behind it, or to the end
of the text, and of white space that ends its line. Where a statement may start, an import is one
match, from its indent to its end (`Import.importsFrom_text`), and behind its end a statement may
start again. The word by itself may match too, with some of the white space behind it as its list,
but that holds no clause (`importsFrom_word`). So by induction a program gives the paths of its
clauses, in order (`parse_clauses`).
-/

namespace ImportScan.Scala

open Grammar Pattern Segment Text

variable {a b t : Text} {s : Point Part}

/-- The word `import`, with the spaces and tabs around it on its line, or an import. -/
inductive Item where
  | word (indent trailing : Indent)
  | clauses (i : Import)

namespace Item

/-- The item as it is written. -/
def text : Item → Text
  | .word indent trailing => indent.val ++ ("import".toList ++ trailing.val)
  | .clauses i => i.text

/-- The paths of the clauses, of which the word by itself has none. -/
def paths : Item → List Text
  | .word .. => []
  | .clauses i => i.paths

end Item

/-- Imports and the white space between them. -/
inductive Program where
  | finish (blanks : Blanks)
  | blankLine (blanks : Blanks) (rest : Program)
  | last (i : Item)
  | ended (i : Item) (stop : { c : Char // c ∈ stops }) (rest : Program)

namespace Program

/-- The program as it is written. -/
def text : Program → Text
  | .finish blanks => blanks.val
  | .blankLine blanks rest => blanks.val ++ ['\n'] ++ rest.text
  | .last i => i.text
  | .ended i stop rest => i.text ++ ([stop.val] ++ rest.text)

/-- The paths of the clauses of all imports. -/
def paths : Program → List Text
  | .finish _ => []
  | .blankLine _ rest => rest.paths
  | .last i => i.paths
  | .ended i _ rest => i.paths ++ rest.paths

end Program

/-! ## The form of an import -/

/-- The only form of statement. -/
def importForm : Statement := scala.statements.head (List.cons_ne_nil _ _)

/-- What an import goes on with behind its indent. -/
def importEnd : Pattern Part :=
  word "import" ++ (gaps1 ++ .part .body (some1 fun c => c != '\n' && c != ';'))

theorem importForm_ends (s : Point Part) :
    importForm.pattern.ends s = (statementStart [';', '{', '}'] ++ importEnd).ends s := by
  have hpattern : importForm.pattern = statementStart [';', '{', '}'] ++ word "import" ++ gaps1 ++
      .part .body (some1 fun c => c != '\n' && c != ';') := rfl
  simp only [hpattern, importEnd, ends_append_assoc]

theorem upfront_importEnd : importEnd.Upfront := (upfront_word ⟨'i', rfl, by decide⟩).append _

/-- An import starts with a space, a tab or the letter of its word. -/
theorem exists_of_ends_importForm (hs : importForm.pattern.ends s ≠ []) :
    ∃ x r, s.cursor.after = x :: r ∧ (isGap x = true ∨ x = 'i') := by
  have hword : (word "import" : Pattern Part).Heads (· = 'i') := heads_text ⟨'i', rfl, rfl⟩
  have hletter : importEnd.Heads (· = 'i') := hword.append _
  obtain ⟨e, he⟩ := List.exists_mem_of_ne_nil _ hs
  rw [importForm_ends] at he
  obtain ⟨-, g, m, hafter, hg, -, he⟩ := exists_of_mem_ends_indented upfront_importEnd he
  cases g with
  | cons x g => exact ⟨x, g ++ m.cursor.after, hafter, .inl (hg x List.mem_cons_self)⟩
  | nil =>
    obtain ⟨x, hx, rfl⟩ := hletter m (List.ne_nil_of_mem he)
    obtain ⟨r, hr⟩ := List.head?_eq_some_iff.1 hx
    exact ⟨'i', r, hafter.trans hr, .inr rfl⟩

theorem names_importForm {m : Match Part} (h : m.part? .body = some t) : importForm.names m =
    ((topLevelParts .braced t).map clausePath).filter (!·.isEmpty) := by
  have hpart : m.partOrEmpty .body = t := by
    rw [Match.partOrEmpty, h]
    rfl
  rw [← hpart]
  rfl

/-! ## What is scanned -/

theorem statements_eq : scala.statements = [] ++ importForm :: [] := rfl

theorem isIndented_scala : scala.IsIndented [';', '{', '}'] := by
  intro f hf
  obtain rfl : f = importForm := List.mem_singleton.1 hf
  exact ⟨importEnd, upfront_importEnd, importForm_ends⟩

/-- What ends an import imports nothing. -/
theorem importsFrom_stop {c : Char} (hc : c ∈ stops) :
    scala.importsFrom (a.map .code) (([c] ++ b).map .code) =
      scala.importsFrom ((a ++ [c]).map .code) (b.map .code) := by
  have hstops : ∀ c ∈ stops, ¬(isGap c = true ∨ c = 'i') := by decide
  refine importsFrom_code_skip fun f hf => ?_
  obtain rfl : f = importForm := List.mem_singleton.1 hf
  exact noneIn_of_head (fun _ => exists_of_ends_importForm)
    (List.forall_mem_singleton.2 (hstops c hc))

/-! ### The word by itself -/

/-- What has no end of an import stands in front of that. -/
theorem exists_eq_append_of_stops {u r : Text} (h : t ++ b = u ++ r) (hu : ∀ c ∈ u, c ∉ stops)
    (hb : ∀ c ∈ b.head?, c ∈ stops) : ∃ d, t = u ++ d ∧ r = d ++ b := by
  rcases List.append_eq_append_iff.1 h with ⟨d, rfl, hd⟩ | ⟨d, rfl, rfl⟩
  · cases d with
    | nil => exact ⟨[], by rw [List.append_nil, List.append_nil], hd.symm⟩
    | cons c d =>
      refine absurd (hb c ?_) (hu c (List.mem_append_right t List.mem_cons_self))
      rw [hd]
      rfl
  · exact ⟨d, rfl, rfl⟩

/-- What the form takes of the word by itself, and the white space that it keeps. -/
theorem exists_of_mem_ends_word {indent trailing : Indent} {e : Point Part}
    (hs : s.cursor.after = (Item.word indent trailing).text ++ b)
    (hb : ∀ c ∈ b.head?, c ∈ stops) (he : e ∈ importForm.pattern.ends s) :
    ∃ t r body, (Item.word indent trailing).text = t ++ r ∧ (∃ c ∈ t, isBlank c = false) ∧
      AllBlank body ∧ e.cursor.after = r ++ b ∧ e.part? .body = some body := by
  rw [importForm_ends] at he
  obtain ⟨-, g, m, hafter, hg, -, he⟩ := exists_of_mem_ends_indented upfront_importEnd he
  obtain ⟨_, hword, he⟩ := mem_ends_append.1 he
  obtain ⟨rest, hm, rfl⟩ := mem_ends_text.1 hword
  obtain ⟨_, hgaps, he⟩ := mem_ends_append.1 he
  obtain ⟨g', r', hrest, hg', -, rfl⟩ := mem_ends_run.1 hgaps
  obtain ⟨_, hrun, rfl⟩ := mem_ends_part.1 he
  obtain ⟨body, r, hbody, hinside, -, rfl⟩ := mem_ends_run.1 hrun
  have hcut : trailing.val ++ b = (g' ++ body) ++ r := by
    rw [hs, hm, Item.text, List.append_assoc, List.append_assoc] at hafter
    obtain ⟨-, -, htrailing⟩ := append_cons_inj_of_run indent.2 hg (by decide) (by decide) hafter
    rw [List.append_assoc, ← hbody, Point.after_skip_of_eq hrest, ← hrest,
      Point.after_skip_of_eq hm]
    exact List.append_cancel_left htrailing
  have hgap : ∀ c ∈ g', c ∉ stops := fun c hc hstop =>
    absurd (hg' c hc) ((by decide : ∀ c ∈ stops, ¬isGap c = true) c hstop)
  have hkept : ∀ c ∈ body, c ∉ stops := fun c hc => by simpa [stops] using hinside c hc
  obtain ⟨d, htrailing, rfl⟩ :=
    exists_eq_append_of_stops hcut (List.forall_mem_append.2 ⟨hgap, hkept⟩) hb
  refine ⟨indent.val ++ ("import".toList ++ (g' ++ body)), d, body, ?_, ⟨'i', ?_, by decide⟩, ?_,
    Point.after_skip_of_eq hbody, Point.part?_mark hbody rfl Part.body⟩
  · rw [Item.text, htrailing]
    simp only [List.append_assoc]
  · exact List.mem_append_right _ (List.mem_append_left _ (by decide))
  · exact fun c hc => isBlank_of_isGap
      (trailing.2 c (htrailing ▸ List.mem_append_left _ (List.mem_append_right _ hc)))

/-- White space holds no clause. -/
theorem topLevelParts_blanks (ht : AllBlank t) : topLevelParts .braced t = [] := by
  have htrim : trim t = [] := (trim_append_blanks ht []).trans rfl
  rw [topLevelParts, (isWhole_blanks ht).rawParts_eq, List.map_singleton, htrim]
  rfl

/-- The word by itself has nothing at which a statement starts. -/
theorem quiet_word (indent trailing : Indent) :
    ∀ c ∈ (Item.word indent trailing).text, Quiet [';', '{', '}'] c := by
  have hgap : ∀ c, isGap c = true → Quiet [';', '{', '}'] c := by
    intro c hc
    have hmarks : ∀ x ∈ ['\n', ';', '{', '}'], isGap x = false := by decide
    exact not_or.1 fun h => absurd hc (by simp [hmarks c (List.mem_cons.2 h)])
  exact List.forall_mem_append.2 ⟨fun c hc => hgap c (indent.2 c hc),
    List.forall_mem_append.2 ⟨by decide, fun c hc => hgap c (trailing.2 c hc)⟩⟩

/-- Behind a first character of the word by itself nothing starts in it. -/
theorem noneIn_word {indent trailing : Indent} {u r : Text} (hu : u ≠ [])
    (h : (Item.word indent trailing).text = u ++ r) :
    importForm.pattern.NoneIn (a ++ u) r b := by
  exact (noneIn_behind_quiet upfront_importEnd hu (h ▸ quiet_word indent trailing)).congr
    importForm_ends

/-- The word by itself imports nothing. -/
theorem importsFrom_word (indent trailing : Indent) (hb : ∀ c ∈ b.head?, c ∈ stops) :
    scala.importsFrom (a.map .code) (((Item.word indent trailing).text ++ b).map .code) =
      scala.importsFrom ((a ++ (Item.word indent trailing).text).map .code) (b.map .code) := by
  by_cases hends : importForm.pattern.ends
      ⟨.between a ((Item.word indent trailing).text ++ b), []⟩ = []
  · refine importsFrom_code_skip fun f hf => ?_
    obtain rfl : f = importForm := List.mem_singleton.1 hf
    obtain ⟨x, t, htext⟩ : ∃ x t, (Item.word indent trailing).text = x :: t :=
      List.exists_cons_of_ne_nil (List.append_ne_nil_of_right_ne_nil _ (List.cons_ne_nil _ _))
    rw [htext] at hends ⊢
    exact NoneIn.cons hends (noneIn_word (List.cons_ne_nil x []) htext)
  · -- all that is kept is white space, and nothing starts in what is left
    obtain ⟨e, es, hends⟩ := List.exists_cons_of_ne_nil hends
    obtain ⟨t, r, body, htext, hcode, hblank, hafter, hbody⟩ :=
      exists_of_mem_ends_word (Cursor.after_between _ _) hb (hends ▸ List.mem_cons_self)
    have hprefers : importForm.pattern.Prefers ⟨.between a (t ++ (r ++ b)), []⟩ e := by
      rw [← List.append_assoc, ← htext]
      exact congrArg List.head? hends
    have hnames : ∀ m : Match Part, (∀ i, m.part? i = e.part? i) → importForm.names m = [] := by
      intro m hm
      rw [names_importForm ((hm _).trans hbody), topLevelParts_blanks hblank]
      rfl
    have hne : t ≠ [] := List.ne_nil_of_mem hcode.choose_spec.1
    have hmatch := importsFrom_code_match hcode statements_eq hprefers hafter hnames
      fun f hf => nomatch hf
    rw [htext, List.append_assoc, hmatch, List.nil_append, ← List.append_assoc a]
    refine importsFrom_code_skip fun f hf => ?_
    obtain rfl : f = importForm := List.mem_singleton.1 hf
    exact noneIn_word hne htext

/-! ### Clauses -/

namespace Import

variable (i : Import)

theorem startsSolid_list (b : Text) : StartsSolid (i.list ++ b) := by
  have hpath : IsSolid i.first.path.text :=
    ⟨i.first.path.text_ne_nil, fun _ => i.first.path.isBlank_of_mem⟩
  have hlist : i.list = i.first.path.text ++ (i.first.tail.text ++
      (i.others.flatMap (Further.text Clause.text) ++ i.trailing.val)) := List.append_assoc _ _ _
  rw [hlist, List.append_assoc]
  exact hpath.startsSolid _

/-- Where a statement may start, the form takes the import and keeps its clauses. -/
theorem exists_prefers (hstart : mayStart [';', '{', '}'] s.cursor = true)
    (hs : s.cursor.after = i.text ++ b) (hb : ∀ c ∈ b.head?, c ∈ stops) :
    ∃ e, importForm.pattern.Prefers s e ∧ e.cursor.after = b ∧
      e.part? .body = some i.list := by
  have hindent : (gaps0 : Pattern Part).TakesFirst i.indent.val
      ("import".toList ++ (i.gap.val ++ (i.list ++ b))) :=
    takesFirst_run i.indent.2 (fun c hc => Option.some.inj hc ▸ by decide) (Nat.zero_le _)
  have hhere := reads_here hstart
  rw [hs, text, List.append_assoc, List.append_assoc, List.append_assoc] at hhere
  have hread := ((hhere.append hindent).append (takesFirst_text "import".toList _)).append
    (takesFirst_gaps1 i.gap (isGap_eq_false_of_solid (i.startsSolid_list b)))
  -- the clauses go on to the end of the line or the semicolon
  have hrest := hread.after_skip
  have hinside : ∀ c ∈ i.list, (c != '\n' && c != ';') = true := by
    intro c hc
    have hne : c ≠ '\n' ∧ c ≠ ';' := by
      constructor <;> rintro rfl <;> exact i.not_mem_list (by decide) hc
    simp [hne]
  have hstop : ∀ c ∈ b.head?, (c != '\n' && c != ';') = false := fun c hc =>
    (by decide : ∀ c ∈ stops, (c != '\n' && c != ';') = false) c (hb c hc)
  have hne : i.list ≠ [] := List.append_ne_nil_of_left_ne_nil i.first.text_ne_nil _
  have hrun : (some1 fun c => c != '\n' && c != ';' : Pattern Part).Prefers _ _ :=
    prefers_run hrest hinside hstop (List.length_pos_iff.2 hne)
  exact ⟨_, hread.2.append (hrun.part .body), Point.after_skip_of_eq hrest,
    Point.part?_mark hrest rfl Part.body⟩

/-- An import where a statement may start gives the paths of its clauses. -/
theorem importsFrom_text (ha : ∀ c ∈ a.getLast?, c ∈ ['\n', ';', '{', '}'])
    (hb : ∀ c ∈ b.head?, c ∈ stops) :
    scala.importsFrom (a.map .code) ((i.text ++ b).map .code) =
      i.paths ++ scala.importsFrom ((a ++ i.text).map .code) (b.map .code) := by
  obtain ⟨e, he, hafter, hbody⟩ := i.exists_prefers (s := ⟨.between a (i.text ++ b), []⟩)
    (mayStart_between_iff.2 ha) rfl hb
  have hcode : ∃ c ∈ i.text, isBlank c = false := by
    refine ⟨'i', ?_, by decide⟩
    unfold text
    exact List.mem_append_right _ (List.mem_append_left _ (by decide))
  exact importsFrom_code_match hcode statements_eq he hafter
    (fun m hm => (names_importForm ((hm _).trans hbody)).trans i.names_list)
    fun f hf => nomatch hf

theorem not_mem_text {z : Char} (hz : z ∈ ['"', '/']) : z ∉ i.text := by
  have hclass : ∀ z ∈ ['"', '/'], isGap z = false ∧ z ∉ "import".toList ∧ z ∈ marks := by decide
  obtain ⟨hgap, hword, hmark⟩ := hclass z hz
  simp only [text, List.mem_append, not_or]
  exact ⟨not_mem_of_class i.indent.2 hgap, hword, not_mem_of_class i.gap.2.2 hgap,
    i.not_mem_list hmark⟩

end Import

/-! ### Programs -/

namespace Item

theorem importsFrom_text (i : Item) (ha : ∀ c ∈ a.getLast?, c ∈ ['\n', ';', '{', '}'])
    (hb : ∀ c ∈ b.head?, c ∈ stops) :
    scala.importsFrom (a.map .code) ((i.text ++ b).map .code) =
      i.paths ++ scala.importsFrom ((a ++ i.text).map .code) (b.map .code) := by
  cases i with
  | word indent trailing => exact importsFrom_word indent trailing hb
  | clauses i => exact i.importsFrom_text ha hb

theorem not_mem_text {z : Char} (hz : z ∈ ['"', '/']) (i : Item) : z ∉ i.text := by
  have hclass : ∀ z ∈ ['"', '/'], isGap z = false ∧ z ∉ "import".toList := by decide
  obtain ⟨hgap, hword⟩ := hclass z hz
  cases i with
  | word indent trailing =>
    simp only [text, List.mem_append, not_or]
    exact ⟨not_mem_of_class indent.2 hgap, hword, not_mem_of_class trailing.2 hgap⟩
  | clauses i => exact i.not_mem_text hz

end Item

namespace Program

/-- A program has no comment and no string. -/
theorem not_mem_text {z : Char} (hz : z ∈ ['"', '/']) (p : Program) : z ∉ p.text := by
  have hclass : ∀ z ∈ ['"', '/'], isBlank z = false ∧ z ∉ stops := by decide
  obtain ⟨hblank, hstop⟩ := hclass z hz
  have hblanks (t : Blanks) : z ∉ t.val := not_mem_of_class t.2 hblank
  induction p with
  | finish blanks => exact hblanks blanks
  | blankLine blanks rest ih =>
    simp only [text, List.mem_append, List.mem_singleton, not_or]
    exact ⟨⟨hblanks blanks, fun h => hstop (h ▸ List.mem_cons_self)⟩, ih⟩
  | last i => exact Item.not_mem_text hz i
  | ended i stop rest ih =>
    simp only [text, List.mem_append, List.mem_singleton, not_or]
    exact ⟨Item.not_mem_text hz i, fun h => hstop (h ▸ stop.2), ih⟩

/-- Where a statement may start, a program gives the paths of its clauses. -/
theorem importsFrom_text (p : Program) (ha : ∀ c ∈ a.getLast?, c ∈ ['\n', ';', '{', '}']) :
    scala.importsFrom (a.map .code) (p.text.map .code) = p.paths := by
  induction p generalizing a with
  | finish blanks =>
    rw [text, ← List.append_nil blanks.val, isIndented_scala.importsFrom_blanks blanks.2 (.inl rfl)]
    exact isIndented_scala.importsFrom_end _
  | blankLine blanks rest ih =>
    have hblank : AllBlank (blanks.val ++ ['\n']) :=
      List.forall_mem_append.2 ⟨blanks.2, List.forall_mem_singleton.2 (by decide)⟩
    have hline : ∀ c ∈ (a ++ (blanks.val ++ ['\n'])).getLast?, c ∈ ['\n', ';', '{', '}'] := by
      intro c hc
      rw [← List.append_assoc, List.getLast?_concat] at hc
      exact Option.some.inj hc ▸ List.mem_cons_self
    have hlast : (blanks.val ++ ['\n']).getLast? = some '\n' := List.getLast?_concat
    rw [text, isIndented_scala.importsFrom_blanks hblank (.inr ⟨'\n', hlast, by decide⟩), ih hline]
    rfl
  | last i =>
    rw [text, ← List.append_nil i.text, i.importsFrom_text (b := []) ha fun c hc => nomatch hc]
    exact (congrArg (i.paths ++ ·) (isIndented_scala.importsFrom_end _)).trans (List.append_nil _)
  | ended i stop rest ih =>
    have hhead : ∀ c ∈ ([stop.val] ++ rest.text).head?, c ∈ stops := fun c hc =>
      Option.some.inj hc ▸ stop.2
    have hstop : ∀ c ∈ (a ++ i.text ++ [stop.val]).getLast?, c ∈ ['\n', ';', '{', '}'] := by
      intro c hc
      rw [List.getLast?_concat] at hc
      exact Option.some.inj hc ▸ List.mem_append_left ['{', '}'] stop.2
    rw [text, i.importsFrom_text ha hhead, importsFrom_stop stop.2, ih hstop]
    rfl

end Program

/-- **Imports give the paths of their clauses**: in order and without grave accents, whatever
wildcards, new names and selectors stand behind the paths and whatever commas the selectors have. -/
theorem parse_clauses (p : Program) : Parser.scala.parse p.text = .ok p.paths := by
  have hheads : ∀ m ∈ scala.lexis.openers, m.head ∈ ['"', '/'] := by decide
  have hplain : ∀ c ∈ p.text, ∀ m ∈ scala.lexis.openers, c ≠ m.head := by
    rintro c hc m hm rfl
    exact p.not_mem_text (hheads m hm) hc
  have himports : scala.imports p.text = scala.importsFrom [] (p.text.map .code) := by
    refine imports_eq_importsFrom (fun _ => rfl) fun contents => ?_
    rw [Lexis.cleaned_eq_self hplain, Segment.showAll_code]
  have hprogram := p.importsFrom_text (a := []) fun c hc => nomatch hc
  exact congrArg Except.ok (himports.trans hprogram)

end ImportScan.Scala
