import ImportScan.Proofs.Grammar.Seam
import ImportScan.Proofs.Lexis.Transparency
import ImportScan.Proofs.Text.HasWord

/-!
# Parsing line by line

A form of statement that stays on its line takes no newline, and its tests ask what stands right
before a place, where the start of the text counts as the start of a line (`OnLine`). So a newline
in the cleaned text is a seam, and a parser all of whose forms stay on their lines reads a text line
by line (`parse_lines`).
-/

namespace ImportScan

namespace Pattern

variable {ι : Type} [DecidableEq ι] {P : Char → Prop}

theorem needs_run {greedy : Bool} {p : Char → Bool} {least : Nat} (hp : ∀ x, p x = true → P x)
    (hleast : 0 < least) : (Pattern.run greedy p least none : Pattern ι).Needs P := by
  intro s e he
  obtain ⟨t, rest, hs, ht, hl, rfl⟩ := mem_ends_run.1 he
  obtain ⟨x, hx⟩ := List.exists_mem_of_length_pos (Nat.lt_of_lt_of_le hleast hl)
  exact ⟨t, rest, hs, ⟨x, hx, hp x (ht x hx)⟩, rfl⟩

theorem Needs.part {p : Pattern ι} (hp : p.Needs P) (i : ι) : (Pattern.part i p).Needs P := by
  intro s e he
  obtain ⟨m, hm, rfl⟩ := mem_ends_part.1 he
  exact hp s m hm

/-- What a pattern takes, told by what it needs and what it may take. -/
theorem Needs.exists_taken {Q : Char → Prop} {p : Pattern ι} (hp : p.Needs P) (hq : p.Takes Q)
    {s e : Point ι} (he : e ∈ p.ends s) : ∃ t rest, s.cursor.after = t ++ rest ∧ (∃ x ∈ t, P x) ∧
      ∀ x ∈ t, Q x := by
  obtain ⟨t, rest, hs, ht, hcursor⟩ := hp s e he
  obtain ⟨t', rest', hs', ht', hcursor'⟩ := isBehind_of_mem_ends hq he
  have hafter : rest = rest' := by
    have h := congrArg Cursor.after (hcursor.symm.trans hcursor')
    rwa [Cursor.after_skip, Cursor.after_skip, hs, List.drop_left, ← hs, hs', List.drop_left] at h
  subst hafter
  obtain rfl := List.append_cancel_right (hs.symm.trans hs')
  exact ⟨t, rest, hs, ht, ht'⟩

/-- Nothing starts with a character that the pattern does not take. -/
theorem noneIn_of_excludes {z : Char} {p : Pattern ι} (hz : p.Takes (· ≠ z)) (hp : p.Needs P)
    (a b : Text) : p.NoneIn a [z] b := by
  refine noneIn_of_head (P := (· ≠ z)) (fun s hne => ?_) (by simp)
  obtain ⟨e, he⟩ := List.exists_mem_of_ne_nil _ hne
  obtain ⟨t, rest, hs, ⟨y, hy, -⟩, ht⟩ := hp.exists_taken hz he
  obtain ⟨x, t, rfl⟩ := List.exists_cons_of_ne_nil (List.ne_nil_of_mem hy)
  exact ⟨x, t ++ rest, hs, ht x List.mem_cons_self⟩

end Pattern

namespace Grammar

open Pattern Text

/-! ## Forms that stay on their lines -/

/-- The test asks for the character right before a place, and takes the start of the text for the
start of a line. -/
def AsksLine (test : Cursor → Bool) : Prop :=
  ∃ f : Char → Bool, ∀ c : Cursor, test c = f (c.before.head?.getD '\n')

/-- A form of statement that stays on its line. -/
structure OnLine (s : Statement) : Prop where
  takes : s.pattern.Takes (· ≠ '\n')
  tests : s.pattern.BuiltOn AsksLine
  needs : s.pattern.Needs fun c => isBlank c = false
  names : ReadsParts s

theorem asksLine_atLineStart : AsksLine atLineStart :=
  ⟨(· == '\n'), fun c => by cases h : c.before.head? <;> simp [atLineStart, h]⟩

theorem asksLine_statementStart (cs : Text) :
    AsksLine fun c => atLineStart c || isAfter cs c := by
  refine ⟨fun x => x == '\n' || cs.contains x, fun c => ?_⟩
  cases h : c.before.head? <;> simp [atLineStart, isAfter, h]

theorem AsksLine.eq_of_before {test : Cursor → Bool} (h : AsksLine test) {c c' : Cursor}
    (hc : c.before = c'.before) : test c = test c' := by
  obtain ⟨f, hf⟩ := h
  rw [hf, hf, hc]

theorem AsksLine.behind {test : Cursor → Bool} (h : AsksLine test) {front : Text}
    (hfront : EndsLine front) (c : Cursor) : test (c.behind front) = test c := by
  obtain ⟨f, hf⟩ := h
  rw [hf, hf]
  rcases hfront.head?_before c with hb | ⟨hb, hb'⟩
  · rw [hb]
  · rw [hb, hb']
    rfl

/-- At the end of a line a form that stays on its line is done. -/
theorem OnLine.splits {s : Statement} (hs : OnLine s) (front rest : Text) :
    Splits s front ['\n'] rest := by
  have hseam : Seam (· ≠ '\n') (fun _ => True) (['\n'] ++ rest) :=
    ⟨fun _ _ _ _ => trivial, by simp⟩
  have hcarries := carries_alongside hseam
    (fun test htest c c' hc => AsksLine.eq_of_before htest hc.before) hs.takes hs.tests
  have hends : EndsLine (front ++ ['\n']) := by simp [EndsLine]
  exact splits_of_carries hcarries (fun _ _ _ => trivial) hs.needs
    (noneIn_of_excludes hs.takes hs.needs _ _)
    (hs.tests.overlooks fun test htest => htest.behind hends) hs.names

/-- A grammar all of whose forms stay on their lines. -/
structure LineBased (g : Grammar) : Prop where
  statements : ∀ s ∈ g.statements, OnLine s
  scopes : ∀ t, g.scopes t = []

theorem LineBased.imports_lines {g : Grammar} (hg : LineBased g) {a b : Text}
    (h : ∀ contents, g.lexis.cleaned contents (a ++ '\n' :: b) =
      g.lexis.cleaned contents a ++ '\n' :: g.lexis.cleaned contents b) :
    g.imports (a ++ '\n' :: b) = g.imports a ++ g.imports b := by
  have hseam : g.imports (a ++ (['\n'] ++ b)) = g.imports a ++ g.imports b :=
    imports_append hg.scopes h fun s hs => (hg.statements s hs).splits _ _
  exact hseam

/-- A line of code is read by itself, whatever follows its end. -/
theorem LineBased.imports_code_append {g : Grammar} (hg : LineBased g) (hlexis : g.lexis.Regular)
    {a b : Text} (ha : ∀ c ∈ a, ∀ m ∈ g.lexis.openers, c ≠ m.head)
    (hb : ∀ c ∈ b.head?, c = '\n') : g.imports (a ++ b) = g.imports a ++ g.imports b := by
  have hnil : g.imports [] = [] :=
    imports_nil hg.scopes fun s hs => ends_end (hg.statements s hs).needs.after_ne_nil
  have hbreak : ∀ c ∈ ['\n'], ∀ m ∈ g.lexis.openers, c ≠ m.head := by
    rintro c hc m hm rfl
    refine (hlexis.visible m hm).2 ?_
    rw [← List.mem_singleton.1 hc]
    exact List.mem_cons_self
  have hline {u : Text} (hu : ∀ c ∈ u, ∀ m ∈ g.lexis.openers, c ≠ m.head) (r : Text) :
      g.imports (u ++ '\n' :: r) = g.imports u ++ g.imports r := by
    refine hg.imports_lines fun contents => ?_
    rw [Lexis.cleaned_code_append hu, Lexis.cleaned_eq_self hu]
    exact congrArg (u ++ ·) (Lexis.cleaned_code_append hbreak contents r)
  cases b with
  | nil => rw [List.append_nil, hnil, List.append_nil]
  | cons c r =>
    obtain rfl := hb c rfl
    have hempty := hline (u := []) (fun c hc => nomatch hc) r
    rw [hnil] at hempty
    rw [hline ha]
    exact congrArg (g.imports a ++ ·) hempty.symm

/-! ## The languages -/

theorem readsParts_nameBy {s : Statement} {read : Text → Text}
    (h : s.names = Match.nameBy read) : ReadsParts s := by
  intro m m' hparts
  rw [h, Match.nameBy, Match.nameBy, hparts]

theorem partOrEmpty_congr {m m' : Match Part} (h : ∀ i, m.part? i = m'.part? i) (i : Part) :
    m.partOrEmpty i = m'.partOrEmpty i := congrArg (·.getD []) (h i)

theorem needs_word {s : String} (h : ∃ c ∈ s.toList, isBlank c = false) :
    (word s : Pattern Part).Needs fun c => isBlank c = false := needs_text h

theorem needs_semicolon : (char ';' : Pattern Part).Needs fun c => isBlank c = false :=
  needs_text (t := [';']) ⟨';', by decide⟩

@[simp] theorem builtOn_lineStart : (lineStart : Pattern Part).BuiltOn AsksLine :=
  asksLine_atLineStart

@[simp] theorem builtOn_statementStart (cs : Text) :
    (statementStart cs : Pattern Part).BuiltOn AsksLine := ⟨asksLine_statementStart cs, rfl⟩

theorem onLine_directive {keyword : String} (hk : ∃ c ∈ keyword.toList, isBlank c = false)
    (hline : '\n' ∉ keyword.toList) : OnLine (directive keyword) where
  takes := by
    have hword : (word keyword : Pattern Part).Takes (· ≠ '\n') :=
      takes_text fun c hc h => hline (h ▸ hc)
    have hfront : (lineStart ++ gaps0 ++ char '#' ++ gaps0 : Pattern Part).Takes (· ≠ '\n') :=
      takes_of_excludes (by decide)
    have hback : (gaps0 ++ includePath).Takes (· ≠ '\n') := takes_of_excludes (by decide)
    exact ⟨⟨⟨hfront, hword⟩, hback.1⟩, hback.2⟩
  tests := by simp [directive, includePath]
  needs := (needs_word hk).after _ |>.append _ |>.append _
  names m m' h := by
    show [_] = [_]
    rw [partOrEmpty_congr h]

theorem onLine_moduleImport : OnLine moduleImport where
  takes := takes_of_excludes (by decide)
  tests := by simp [moduleImport]
  needs := needs_semicolon.after _
  names m m' h := by
    show [_] = [_]
    rw [partOrEmpty_congr h]

theorem onLine_usingDirective : OnLine usingDirective where
  takes := takes_of_excludes (by decide)
  tests := by simp [usingDirective]
  needs := needs_semicolon.after _
  names := readsParts_nameBy rfl

theorem onLine_hierarchyImport : OnLine hierarchyImport where
  takes := takes_of_excludes (by decide)
  tests := by simp [hierarchyImport]
  needs := (needs_word ⟨'i', by decide⟩).after _ |>.append _ |>.append _ |>.append _ |>.append _
    |>.append _
  names := readsParts_nameBy rfl

theorem onLine_packageImport : OnLine packageImport where
  takes := takes_of_excludes (by decide)
  tests := by simp [packageImport]
  needs := needs_semicolon.after _
  names := readsParts_nameBy rfl

theorem onLine_elm : ∀ s ∈ elm.statements, OnLine s := List.forall_mem_singleton.2 {
  takes := takes_of_excludes (by decide)
  tests := by simp
  needs := (needs_word ⟨'i', by decide⟩).after _ |>.append _ |>.append _
  names := readsParts_nameBy rfl }

theorem onLine_haxe : ∀ s ∈ haxe.statements, OnLine s := List.forall_mem_singleton.2 {
  takes := takes_of_excludes (by decide)
  tests := by simp
  needs := ((needs_word ⟨'i', by decide⟩).or (needs_word ⟨'u', by decide⟩)).after _ |>.append _
    |>.append _
  names := readsParts_nameBy rfl }

theorem onLine_kotlin : ∀ s ∈ kotlin.statements, OnLine s := List.forall_mem_singleton.2 {
  takes := takes_of_excludes (by decide)
  tests := by simp
  needs := (needs_word ⟨'i', by decide⟩).after _ |>.append _ |>.append _
  names := readsParts_nameBy rfl }

theorem onLine_scala : ∀ s ∈ scala.statements, OnLine s := List.forall_mem_singleton.2 {
  takes := takes_of_excludes (by decide)
  tests := by simp
  needs := (needs_word ⟨'i', by decide⟩).after _ |>.append _ |>.append _
  names := by
    intro m m' h
    dsimp only
    rw [partOrEmpty_congr h] }

theorem onLine_swift : ∀ s ∈ swift.statements, OnLine s := List.forall_mem_singleton.2 {
  takes := takes_of_excludes (by decide)
  tests := by simp [symbolKind]
  needs := (needs_word ⟨'i', by decide⟩).after _ |>.append _ |>.append _ |>.append _
  names := readsParts_nameBy rfl }

theorem onLine_visualBasic : ∀ s ∈ visualBasic.statements, OnLine s :=
  List.forall_mem_singleton.2 {
  takes := takes_of_excludes (by decide)
  tests := by simp
  needs := ((needs_run (fun _ => isBlank_eq_false_of_isDotted) Nat.zero_lt_one).part _).after _
  names := readsParts_nameBy rfl }

end Grammar

namespace Parser

open Grammar

/-- The parsers of the languages whose import statements each stand on one line. -/
def lineBased : List Parser :=
  [.c, .objectiveC, .cSharp, .elm, .haskell, .haxe, .java, .kotlin, .scala, .swift, .vbNet]

theorem lineBased_grammar {p : Parser} (hp : p ∈ lineBased) {g : Grammar}
    (hg : p.grammar? = some g) : LineBased g := by
  have hinclude : OnLine (directive "include") := onLine_directive ⟨'i', by decide⟩ (by decide)
  have himport : OnLine (directive "import") := onLine_directive ⟨'i', by decide⟩ (by decide)
  cases p with
  | c =>
    obtain rfl := Option.some.inj hg
    exact ⟨List.forall_mem_singleton.2 hinclude, fun _ => rfl⟩
  | objectiveC =>
    obtain rfl := Option.some.inj hg
    refine ⟨fun s hs => ?_, fun _ => rfl⟩
    have hforms : s = directive "include" ∨ s = directive "import" ∨ s = moduleImport := by
      simpa [Grammar.objectiveC] using hs
    rcases hforms with rfl | rfl | rfl
    · exact hinclude
    · exact himport
    · exact onLine_moduleImport
  | cSharp =>
    obtain rfl := Option.some.inj hg
    exact ⟨List.forall_mem_singleton.2 onLine_usingDirective, fun _ => rfl⟩
  | elm =>
    obtain rfl := Option.some.inj hg
    exact ⟨onLine_elm, fun _ => rfl⟩
  | haskell =>
    obtain rfl := Option.some.inj hg
    exact ⟨List.forall_mem_singleton.2 onLine_hierarchyImport, fun _ => rfl⟩
  | haxe =>
    obtain rfl := Option.some.inj hg
    exact ⟨onLine_haxe, fun _ => rfl⟩
  | java =>
    obtain rfl := Option.some.inj hg
    exact ⟨List.forall_mem_singleton.2 onLine_packageImport, fun _ => rfl⟩
  | kotlin =>
    obtain rfl := Option.some.inj hg
    exact ⟨onLine_kotlin, fun _ => rfl⟩
  | scala =>
    obtain rfl := Option.some.inj hg
    exact ⟨onLine_scala, fun _ => rfl⟩
  | swift =>
    obtain rfl := Option.some.inj hg
    exact ⟨onLine_swift, fun _ => rfl⟩
  | vbNet =>
    obtain rfl := Option.some.inj hg
    exact ⟨onLine_visualBasic, fun _ => rfl⟩
  | go | html | javaScript | json | php | python | rust | noOp => simp [lineBased] at hp

/-- **Line locality**: where cleaning two texts one by one leaves what cleaning them on successive
lines does, a parser whose statements each stand on one line reads the names of the one and then
those of the other. -/
theorem parse_lines {p : Parser} (hp : p ∈ lineBased) {g : Grammar} (hg : p.grammar? = some g)
    {a b : Text} (h : ∀ contents, g.lexis.cleaned contents (a ++ '\n' :: b) =
      g.lexis.cleaned contents a ++ '\n' :: g.lexis.cleaned contents b) :
    ∃ l m, p.parse a = .ok l ∧ p.parse b = .ok m ∧ p.parse (a ++ '\n' :: b) = .ok (l ++ m) := by
  refine ⟨g.imports a, g.imports b, parse_eq_imports hg a, parse_eq_imports hg b, ?_⟩
  rw [parse_eq_imports hg, (lineBased_grammar hp hg).imports_lines h]

/-- A clause that the end of its line breaks off, behind a comment and before a string. -/
theorem parse_lines_scala :
    let a := "import /* b */ b.c, d.\x7be,".toList
    let b := "f\x7d; val s = \"import g\"; import h".toList
    (∀ contents, Grammar.scala.lexis.cleaned contents (a ++ '\n' :: b) =
      Grammar.scala.lexis.cleaned contents a ++
        '\n' :: Grammar.scala.lexis.cleaned contents b) ∧
      scala.parse a = .ok ["b.c".toList, "d".toList] ∧ scala.parse b = .ok ["h".toList] ∧
        scala.parse (a ++ '\n' :: b) = .ok ["b.c".toList, "d".toList, "h".toList] := by
  intro a b
  have hclean : ∀ contents, Grammar.scala.lexis.cleaned contents (a ++ '\n' :: b) =
      Grammar.scala.lexis.cleaned contents a ++
        '\n' :: Grammar.scala.lexis.cleaned contents b := by
    intro contents
    cases contents <;> decide +kernel
  have ha : scala.parse a = .ok ["b.c".toList, "d".toList] := by decide +kernel
  have hb : scala.parse b = .ok ["h".toList] := by decide +kernel
  obtain ⟨l, m, hl, hm, hlines⟩ := parse_lines (p := .scala) (by decide) rfl hclean
  obtain rfl := Except.ok.inj (hl.symm.trans ha)
  obtain rfl := Except.ok.inj (hm.symm.trans hb)
  exact ⟨hclean, ha, hb, hlines⟩

end Parser
end ImportScan
