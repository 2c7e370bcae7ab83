import ImportScan.Proofs.Grammar.Lines
import ImportScan.Proofs.Text.LetterCase
import ImportScan.Proofs.Text.TopLevel

/-!
# Lists of imports

A statement lists clauses, each a dotted name, perhaps with an alias and an equality sign in front
of it. The form takes the first clause: behind the keyword, in any letter case, it takes the alias
if an equality sign follows (`Clause.takesFirst_newName`), then the name, and there it ends
(`Imports.exists_prefers`). Nothing starts in what is left of the line. So a statement gives the
first segment of its first clause and no other, and gives those of all its clauses just if there is
one clause only (`parse_clauseList`).
-/

namespace ImportScan.VisualBasic

open Grammar Pattern Text

/-! ## Statements -/

/-- A dotted name. -/
structure Name where
  first : Word
  others : List Word

/-- The name as it is written. -/
def Name.text (n : Name) : Text := n.first.val ++ n.others.flatMap fun w => '.' :: w.val

/-- Another name for what is imported, with the equality sign behind it. -/
structure Alias where
  name : Word
  before : Indent
  after : Indent

/-- The other name as it is written, with the equality sign. -/
def Alias.text (a : Alias) : Text := a.name.val ++ (a.before.val ++ (['='] ++ a.after.val))

/-- What one clause imports, perhaps under another name. -/
structure Clause where
  newName : Option Alias
  name : Name

namespace Clause

/-- The other name; nothing if the clause has none. -/
def newNameText (k : Clause) : Text := (k.newName.map Alias.text).getD []

/-- The clause as it is written. -/
def text (k : Clause) : Text := k.newNameText ++ k.name.text

/-- The first segment of the name. -/
def root (k : Clause) : Text := k.name.first.val

end Clause

/-- The keyword in any letter case. -/
abbrev Keyword := { t : Text // t.map fold = "Imports".toList.map fold }

/-- A statement with the spaces and tabs around it on its line. -/
structure Imports where
  indent : Indent
  keyword : Keyword
  gap : Gaps
  first : Clause
  others : List (Further isGap Clause)
  trailing : Indent

namespace Imports

variable (i : Imports)

/-- All clauses, in order. -/
def clauses : List Clause := i.first :: i.others.map (·.clause)

/-- The statement up to the end of its first clause. -/
def front : Text := i.indent.val ++ (i.keyword.val ++ (i.gap.val ++ i.first.text))

/-- The other clauses, each behind its comma. -/
def list : Text := i.others.flatMap (Further.text Clause.text) ++ i.trailing.val

/-- The statement as it is written. -/
def text : Text := i.front ++ i.list

/-- The first segments of all clauses. -/
def roots : List Text := i.clauses.map Clause.root

end Imports

/-! ## Characters of a statement -/

variable {b : Text} {z : Char} {s e : Point Part}

theorem Keyword.fold_mem (k : Keyword) {c : Char} (hc : c ∈ k.val) :
    fold c ∈ "Imports".toList.map fold := k.2 ▸ List.mem_map_of_mem hc

theorem Keyword.isSolid (k : Keyword) : IsSolid k.val := by
  have hsolid : ∀ x ∈ "Imports".toList.map fold, isBlank x = false := by decide +kernel
  refine ⟨fun h => ?_, fun c hc => isBlank_eq_false_of_fold_mem hsolid (k.fold_mem hc)⟩
  have hfold := k.2
  rw [h] at hfold
  cases hfold

namespace Name

variable (n : Name)

theorem isDotted_of_mem {c : Char} (hc : c ∈ n.text) : isDotted c = true := by
  rcases List.mem_append.1 hc with hc | hc
  · exact isDotted_of_isWord (n.first.2.2 c hc)
  obtain ⟨w, -, hc⟩ := List.mem_flatMap.1 hc
  rcases List.mem_cons.1 hc with rfl | hc
  · rfl
  · exact isDotted_of_isWord (w.2.2 c hc)

theorem isSolid_text : IsSolid n.text :=
  ⟨List.append_ne_nil_of_left_ne_nil n.first.2.1 _, fun _ hc =>
    isBlank_eq_false_of_isDotted (n.isDotted_of_mem hc)⟩

theorem firstSegment_text : firstSegment ['.'] n.text = n.first.val := by
  have hdot : '.' ∉ n.first.val := not_mem_of_class n.first.2.2 (by decide)
  refine firstSegment_append hdot ?_ n.isSolid_text.2
  cases n.others with
  | nil => exact fun c hc => nomatch hc
  | cons w others => exact fun c hc => (Option.some.inj hc).symm

end Name

/-- What starts a comment or a string, or ends a line. -/
def marks : Text := ['\'', '"', '\n']

theorem Clause.not_mem_text (k : Clause) (hz : z ∈ marks) : z ∉ k.text := by
  have hclass : ∀ z ∈ marks, isWord z = false ∧ isDotted z = false ∧ isGap z = false ∧ z ≠ '=' := by
    decide
  obtain ⟨hword, hdotted, hgap, hsign⟩ := hclass z hz
  have hname : z ∉ k.name.text := not_mem_of_class (fun _ => k.name.isDotted_of_mem) hdotted
  refine not_or.2 ⟨?_, hname⟩ ∘ List.mem_append.1
  unfold newNameText
  cases k.newName with
  | none => exact fun h => nomatch h
  | some a =>
    have hindent (g : Indent) : z ∉ g.val := not_mem_of_class g.2 hgap
    simp only [Option.map_some, Option.getD_some, Alias.text, List.mem_append, List.mem_singleton,
      not_or]
    exact ⟨not_mem_of_class a.name.2.2 hword, hindent a.before, hsign, hindent a.after⟩

namespace Imports

variable (i : Imports)

theorem not_mem_list (hz : z ∈ marks) : z ∉ i.list := by
  have hclass : ∀ z ∈ marks, isGap z = false ∧ z ≠ ',' := by decide
  obtain ⟨hgap, hcomma⟩ := hclass z hz
  refine not_or.2 ⟨?_, not_mem_of_class i.trailing.2 hgap⟩ ∘ List.mem_append.1
  exact not_mem_flatMap_further hgap hcomma (fun k => k.not_mem_text hz) i.others

theorem not_mem_front (hz : z ∈ marks) : z ∉ i.front := by
  have hclass : ∀ z ∈ marks, isGap z = false ∧ fold z ∉ "Imports".toList.map fold := by
    decide +kernel
  obtain ⟨hgap, hkeyword⟩ := hclass z hz
  simp only [front, List.mem_append, not_or]
  exact ⟨not_mem_of_class i.indent.2 hgap, fun h => hkeyword (i.keyword.fold_mem h),
    not_mem_of_class i.gap.2.2 hgap, i.first.not_mem_text hz⟩

theorem not_mem_text (hz : z ∈ marks) : z ∉ i.text :=
  not_or.2 ⟨i.not_mem_front hz, i.not_mem_list hz⟩ ∘ List.mem_append.1

end Imports

/-! ## The form of a statement -/

/-- The only form of statement. -/
def importsForm : Statement := visualBasic.statements.head (List.cons_ne_nil _ _)

/-- What may stand in front of a name. -/
def aliasEnd : Pattern Part := some1 isWord ++ gaps0 ++ char '=' ++ gaps0

/-- What a statement goes on with behind its indent. -/
def importsEnd : Pattern Part :=
  anyCase "Imports".toList ++ (gaps1 ++ (maybe aliasEnd ++ .part .name (some1 isDotted)))

theorem statements_eq : visualBasic.statements = [] ++ importsForm :: [] := rfl

theorem importsForm_ends (s : Point Part) :
    importsForm.pattern.ends s = (statementStart [] ++ importsEnd).ends s := by
  have hpattern : importsForm.pattern = lineStart ++ gaps0 ++ anyCase "Imports".toList ++ gaps1 ++
      maybe aliasEnd ++ .part .name (some1 isDotted) := rfl
  rw [hpattern, statementStart_nil]
  simp only [importsEnd, ends_append_assoc]

theorem upfront_importsEnd : importsEnd.Upfront := by
  have hkeyword : (anyCase "Imports".toList : Pattern Part).Upfront := by
    intro s hs
    obtain ⟨e, he⟩ := List.exists_mem_of_ne_nil _ hs
    obtain ⟨t, rest, hafter, ht, -⟩ := (TakesJust.anyCase _ _ _).1 he
    exact hafter ▸ (Keyword.isSolid ⟨t, ht⟩).startsSolid rest
  exact hkeyword.append _

theorem isIndented_visualBasic : visualBasic.IsIndented [] := by
  intro f hf
  obtain rfl : f = importsForm := List.mem_singleton.1 hf
  exact ⟨importsEnd, upfront_importsEnd, importsForm_ends⟩

theorem names_importsForm {m : Match Part} {n : Name} (h : m.part? .name = some n.text) :
    importsForm.names m = [n.first.val] := by
  have hread : importsForm.names m = Match.nameBy (firstSegment ['.']) m := rfl
  obtain ⟨x, r, hx⟩ := List.exists_cons_of_ne_nil n.isSolid_text.1
  rw [hread, Match.nameBy, h, hx]
  exact congrArg ([·]) (hx ▸ n.firstSegment_text)

/-! ## The first clause -/

/-- What follows a clause: white space, and then a comma or the end of the text. -/
def EndsClause (b : Text) : Prop :=
  ∃ g r, b = g ++ r ∧ (∀ c ∈ g, isGap c = true) ∧ ∀ c ∈ r.head?, c = ','

theorem EndsClause.isDotted_eq_false (hb : EndsClause b) : ∀ c ∈ b.head?, isDotted c = false := by
  obtain ⟨g, r, rfl, hg, hr⟩ := hb
  refine forall_head?_append (fun c hc => ?_) fun c hc => hr c hc ▸ by decide
  exact isDotted_eq_false_of_isGap (hg c (List.mem_of_head? hc))

/-- An alias is taken only where an equality sign stands behind a name and white space. -/
theorem exists_of_mem_ends_aliasEnd (he : e ∈ aliasEnd.ends s) : ∃ t rest,
    s.cursor.after = t ++ '=' :: rest ∧ ∀ c ∈ t, (isDotted c || isGap c) = true := by
  have htakes : aliasEnd.TakesJust _ := (((takesJust_run true isWord 1).append
    (takesJust_run true isGap 0)).append (takesJust_one (· == '='))).append
    (takesJust_run true isGap 0)
  obtain ⟨_, rest, hafter, ⟨_, g', rfl, ⟨_, _, rfl, ⟨w, g, rfl, hw, hg⟩, x, rfl, hx⟩, -⟩, -⟩ :=
    (htakes s e).1 he
  refine ⟨w ++ g, g' ++ rest, ?_, fun c hc => Bool.or_eq_true_iff.2 ?_⟩
  · rw [hafter, eq_of_beq hx, List.append_assoc, List.append_assoc]
    rfl
  · exact (List.mem_append.1 hc).imp (fun h => isDotted_of_isWord (hw.1 c h)) (hg.1 c)

/-- A name with no equality sign behind it is no alias. -/
theorem EndsClause.ends_aliasEnd {n : Name} (hb : EndsClause b)
    (hs : s.cursor.after = n.text ++ b) : aliasEnd.ends s = [] := by
  refine List.eq_nil_iff_forall_not_mem.2 fun e he => ?_
  obtain ⟨t, rest, hafter, ht⟩ := exists_of_mem_ends_aliasEnd he
  obtain ⟨g, r, rfl, hg, hr⟩ := hb
  have hname : ∀ c ∈ n.text ++ g, (isDotted c || isGap c) = true := fun c hc =>
    Bool.or_eq_true_iff.2 ((List.mem_append.1 hc).imp n.isDotted_of_mem (hg c))
  have hcut : (n.text ++ g) ++ r = t ++ '=' :: rest := by rw [List.append_assoc, ← hs, hafter]
  have hcomma : ∀ c ∈ r.head?, (isDotted c || isGap c) = false := fun c hc => hr c hc ▸ by decide
  have hsign : ∀ c ∈ ('=' :: rest).head?, (isDotted c || isGap c) = false := by
    rintro c ⟨⟩
    decide
  obtain ⟨-, rfl⟩ := append_inj_of_run hname ht hcomma hsign hcut
  exact absurd (hr '=' rfl) (by decide)

theorem Alias.takesFirst (a : Alias) (hb : StartsSolid b) : aliasEnd.TakesFirst a.text b := by
  have hsign : ∀ c ∈ (['='] ++ (a.after.val ++ b)).head?, c = '=' := fun c hc =>
    (Option.some.inj hc).symm
  have hword : (some1 isWord : Pattern Part).TakesFirst a.name.val
      (a.before.val ++ (['='] ++ (a.after.val ++ b))) := by
    refine takesFirst_run a.name.2.2 ?_ (List.length_pos_iff.2 a.name.2.1)
    refine forall_head?_append (fun c hc => ?_) fun c hc => hsign c hc ▸ by decide
    exact isWord_eq_false_of_isGap (a.before.2 c (List.mem_of_head? hc))
  have hbefore : (gaps0 : Pattern Part).TakesFirst a.before.val (['='] ++ (a.after.val ++ b)) :=
    takesFirst_run a.before.2 (fun c hc => hsign c hc ▸ by decide) (Nat.zero_le _)
  have hequal : (char '=' : Pattern Part).TakesFirst ['='] (a.after.val ++ b) :=
    takesFirst_one (c := (· == '=')) rfl _
  have hafter : (gaps0 : Pattern Part).TakesFirst a.after.val b :=
    takesFirst_run a.after.2 (isGap_eq_false_of_solid hb) (Nat.zero_le _)
  have htext : a.text = a.name.val ++ a.before.val ++ ['='] ++ a.after.val := by
    simp only [text, List.append_assoc]
  rw [htext]
  exact ((hword.append hbefore).append hequal).append hafter

/-- The form takes the alias of a clause, and nothing for one if there is none. -/
theorem Clause.takesFirst_newName (k : Clause) (hb : EndsClause b) :
    (maybe aliasEnd).TakesFirst k.newNameText (k.name.text ++ b) := by
  unfold newNameText
  cases k.newName with
  | none => exact TakesFirst.maybe_nil fun s hs => hb.ends_aliasEnd hs
  | some a => exact (a.takesFirst (k.name.isSolid_text.startsSolid b)).maybe

theorem Clause.startsSolid (k : Clause) (b : Text) : StartsSolid (k.text ++ b) := by
  unfold text newNameText
  cases k.newName with
  | none => exact k.name.isSolid_text.startsSolid b
  | some a =>
    simp only [Option.map_some, Option.getD_some, Alias.text, List.append_assoc]
    exact (isSolid_word a.name).startsSolid _

namespace Imports

variable (i : Imports)

theorem endsClause_list : EndsClause i.list := by
  unfold list
  cases i.others with
  | nil =>
    exact ⟨i.trailing.val, [], (List.append_nil _).symm, i.trailing.2, fun c hc => nomatch hc⟩
  | cons f others =>
    refine ⟨f.before.val, ',' :: (f.after.val ++ f.clause.text ++
      (others.flatMap (Further.text Clause.text) ++ i.trailing.val)), ?_, f.before.2, ?_⟩
    · simp only [List.flatMap_cons, Further.text, List.append_assoc, List.cons_append]
    · exact fun c hc => (Option.some.inj hc).symm

/-- The form takes a statement up to the end of its first clause, and keeps the name there. -/
theorem exists_prefers : ∃ e, importsForm.pattern.Prefers ⟨.between [] i.text, []⟩ e ∧
    e.cursor.after = i.list ∧ e.part? .name = some i.first.name.text := by
  have htext : i.text = i.indent.val ++ (i.keyword.val ++ (i.gap.val ++ (i.first.newNameText ++
      (i.first.name.text ++ i.list)))) := by
    simp only [text, front, Clause.text, List.append_assoc]
  have hkeyword : StartsSolid (i.keyword.val ++
      (i.gap.val ++ (i.first.newNameText ++ (i.first.name.text ++ i.list)))) :=
    i.keyword.isSolid.startsSolid _
  have hindent : (gaps0 : Pattern Part).TakesFirst i.indent.val _ :=
    takesFirst_run i.indent.2 (isGap_eq_false_of_solid hkeyword) (Nat.zero_le _)
  have hclause : StartsSolid (i.first.newNameText ++ (i.first.name.text ++ i.list)) := by
    rw [← List.append_assoc]
    exact i.first.startsSolid i.list
  have hstart : lineStart.Reads (⟨.between [] i.text, []⟩ : Point Part) [] i.text := reads_here rfl
  rw [htext] at hstart
  have hread := (((hstart.append hindent).append (takesFirst_anyCase i.keyword.2 _)).append
    (takesFirst_gaps1 i.gap (isGap_eq_false_of_solid hclause))).append
    (i.first.takesFirst_newName i.endsClause_list)
  -- the name goes on to the comma or the end of the line
  have hrest := hread.after_skip
  have hname : (some1 isDotted : Pattern Part).Prefers _ _ :=
    prefers_run hrest (fun _ => i.first.name.isDotted_of_mem) i.endsClause_list.isDotted_eq_false
      (List.length_pos_iff.2 i.first.name.isSolid_text.1)
  rw [htext]
  exact ⟨_, hread.2.append (hname.part .name), Point.after_skip_of_eq hrest,
    Point.part?_mark hrest rfl Part.name⟩

/-- Where its first clause ends, nothing starts in the statement any more. -/
theorem importsFrom_list : visualBasic.importsFrom (i.front.map .code) (i.list.map .code) = [] := by
  have hquiet : ∀ c ∈ i.front ++ i.list, Quiet [] c := by
    refine fun c hc => ⟨?_, List.not_mem_nil⟩
    rintro rfl
    exact i.not_mem_text (by decide) hc
  have hfront : i.front ≠ [] :=
    List.append_ne_nil_of_right_ne_nil _ (List.append_ne_nil_of_left_ne_nil i.keyword.isSolid.1 _)
  have hnone : importsForm.pattern.NoneIn ([] ++ i.front) i.list [] :=
    (noneIn_behind_quiet upfront_importsEnd hfront hquiet).congr importsForm_ends
  have hskip := importsFrom_code_skip (g := visualBasic) (a := i.front) (t := i.list) (b := [])
    fun f hf => List.mem_singleton.1 hf ▸ hnone
  rw [List.append_nil] at hskip
  exact hskip.trans (isIndented_visualBasic.importsFrom_end _)

theorem code_text : ∀ c ∈ i.text, ∀ m ∈ visualBasic.lexis.openers, c ≠ m.head := by
  have hheads : ∀ m ∈ visualBasic.lexis.openers, m.head ∈ marks := by decide
  rintro c hc m hm rfl
  exact i.not_mem_text (hheads m hm) hc

/-- By itself a statement gives the first segment of its first clause. -/
theorem imports_text : visualBasic.imports i.text = [i.first.root] := by
  obtain ⟨e, he, hafter, hname⟩ := i.exists_prefers
  have hcode : ∃ c ∈ i.front, isBlank c = false := by
    obtain ⟨x, hx⟩ := List.exists_mem_of_ne_nil _ i.keyword.isSolid.1
    exact ⟨x, List.mem_append_right _ (List.mem_append_left _ hx), i.keyword.isSolid.2 x hx⟩
  have hmatch := importsFrom_code_match (a := []) hcode statements_eq he hafter
    (fun m hm => names_importsForm ((hm _).trans hname)) fun f hf => nomatch hf
  rw [List.nil_append, i.importsFrom_list, List.append_nil] at hmatch
  refine (imports_eq_importsFrom (fun _ => rfl) fun contents => ?_).trans hmatch
  exact (Lexis.cleaned_eq_self i.code_text contents).trans (Segment.showAll_code _ _).symm

end Imports

/-- **Only the first clause of a list counts**: wherever the line ends behind the list, the parser
finds the first segment of the first clause and then what it finds in the rest of the text. So it
finds those of all clauses, in order, just if there is no other clause. -/
theorem parse_clauseList (i : Imports) {rest : Text} (hrest : ∀ c ∈ rest.head?, c = '\n') :
    ∃ names, Parser.vbNet.parse rest = .ok names ∧
      Parser.vbNet.parse (i.text ++ rest) = .ok (i.first.root :: names) ∧
      (Parser.vbNet.parse (i.text ++ rest) = .ok (i.roots ++ names) ↔ i.others = []) := by
  have hline : LineBased visualBasic := Parser.lineBased_grammar (p := .vbNet) (by decide) rfl
  have himports : visualBasic.imports (i.text ++ rest) =
      i.first.root :: visualBasic.imports rest := by
    rw [hline.imports_code_append (Parser.regular_lexis (p := .vbNet) rfl) i.code_text hrest,
      i.imports_text]
    rfl
  have hparse : Parser.vbNet.parse (i.text ++ rest) =
      .ok (i.first.root :: visualBasic.imports rest) := congrArg Except.ok himports
  refine ⟨visualBasic.imports rest, rfl, hparse, ?_⟩
  rw [hparse, Except.ok.injEq, Imports.roots, Imports.clauses, List.map_cons, List.cons_append,
    List.cons.injEq]
  simp

/-- Of two clauses the second is passed over. -/
theorem parse_clauseList_pair :
    let t := "Imports System.Text, Contoso".toList
    Parser.vbNet.parse t = .ok ["System".toList] ∧
      Parser.vbNet.parse t ≠ .ok ["System".toList, "Contoso".toList] := by
  intro t
  let space : Text := [' ']
  have hspace : ∀ c ∈ space, isGap c = true := by decide
  let word (w : Text) (h : IsWord w) : Word := ⟨w, h⟩
  let system : Clause := ⟨none, word "System".toList (by decide), [word "Text".toList (by decide)]⟩
  let contoso : Clause := ⟨none, word "Contoso".toList (by decide), []⟩
  let i : Imports := {
    indent := ⟨[], fun c hc => nomatch hc⟩
    keyword := ⟨"Imports".toList, rfl⟩
    gap := ⟨space, List.cons_ne_nil _ _, hspace⟩
    first := system
    others := [⟨⟨[], fun c hc => nomatch hc⟩, ⟨space, hspace⟩, contoso⟩]
    trailing := ⟨[], fun c hc => nomatch hc⟩ }
  have hempty : Parser.vbNet.parse [] = .ok [] := congrArg Except.ok <|
    imports_nil (fun _ => rfl) fun s hs => ends_end (onLine_visualBasic s hs).needs.after_ne_nil
  have hend : ∀ c ∈ ([] : Text).head?, c = '\n' := fun c hc => nomatch hc
  obtain ⟨names, hnames, hparse, hall⟩ := parse_clauseList i hend
  obtain rfl : names = [] := Except.ok.inj (hnames.symm.trans hempty)
  exact ⟨hparse, fun h => List.cons_ne_nil _ _ (hall.1 h)⟩

end ImportScan.VisualBasic
