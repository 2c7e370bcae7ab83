import ImportScan.Proofs.Grammar.Scan
import ImportScan.Proofs.Python.Names

/-!
# What a program imports

A program is read item by item. An item is one logical line, so only the form that is meant for it
starts in it, at its start (`packagesFrom_item`), and none of them ends with a backslash, so the
next item starts a logical line again (`Item.logicalStart_concat`). By induction a program gives the
packages of its items (`parse_program`).
-/

namespace ImportScan.Python

open Grammar Pattern Segment Text

variable {a b t : Text}

/-! ## The end of an item -/

/-- The text does not end with a backslash. -/
def EndsClosed (t : Text) : Prop := ∀ c ∈ t.getLast?, c ≠ '\\'

theorem endsClosed_of_not_mem (ht : '\\' ∉ t) : EndsClosed t := by
  rintro c hc rfl
  exact ht (List.mem_of_getLast? hc)

theorem endsClosed_of_unmarked (ht : ∀ c ∈ t, c ∉ marks) : EndsClosed t :=
  endsClosed_of_not_mem fun h => ht _ h (by decide)

theorem EndsClosed.append (ha : EndsClosed a) (hb : EndsClosed b) : EndsClosed (a ++ b) :=
  forall_getLast?_append ha hb

theorem EndsClosed.append_left (hb : EndsClosed b) (hne : b ≠ []) (a : Text) :
    EndsClosed (a ++ b) :=
  forall_getLast?_append_of_ne_nil hne hb

theorem IsDottedText.endsClosed (ht : IsDottedText t) : EndsClosed t :=
  endsClosed_of_not_mem (not_mem_of_class ht.2 (by decide))

theorem Clause.endsClosed (c : Clause) : EndsClosed c.text := by
  refine c.name.isDottedText.endsClosed.append ?_
  cases c.newName with
  | none => exact fun c hc => nomatch hc
  | some r => exact (Ident.isDottedText r.name).endsClosed.append_left r.name.2.1.1 _

theorem ModuleImport.endsClosed (s : ModuleImport) : EndsClosed s.body := by
  refine s.first.endsClosed.append ?_
  induction s.others with
  | nil => exact fun c hc => nomatch hc
  | cons f others ih =>
    refine (f.clause.endsClosed.append_left ?_ _).append ih
    exact List.append_ne_nil_of_left_ne_nil f.clause.name.isDottedText.1 _

/-- What stands in front of a logical line does not end with a backslash. -/
theorem endsClosed_of_logicalStart (ha : logicalStart (.between a []) = true) : EndsClosed a := by
  rintro c hc rfl
  obtain ⟨a, rfl⟩ := List.getLast?_eq_some_iff.1 hc
  rw [logicalStart_concat] at ha
  cases ha

theorem Item.endsClosed (i : Item) : EndsClosed i.text := by
  have hindent (indent : Indent) : EndsClosed indent.val :=
    endsClosed_of_not_mem (not_mem_of_class indent.2 (by decide))
  cases i with
  | modules indent s =>
    have hbody : s.body ≠ [] := by
      rw [s.body_eq]
      exact List.append_ne_nil_of_left_ne_nil s.first.name.isDottedText.1 _
    exact (hindent indent).append (s.endsClosed.append_left hbody _)
  | names indent s =>
    have hword : EndsClosed "import".toList := endsClosed_of_not_mem (by decide)
    have hcore : EndsClosed s.core := hword.append_left (List.cons_ne_nil _ _) _
    exact (hindent indent).append (hcore.append (endsClosed_of_unmarked s.tail.2.2))
  | other t => exact endsClosed_of_unmarked t.2.1

/-- Behind an item and a separator a logical line starts. -/
theorem Item.logicalStart_concat (i : Item) (sep : Separator)
    (ha : logicalStart (.between a []) = true) :
    logicalStart (.between (a ++ i.text ++ [sep.char]) []) = true := by
  have hclosed : EndsClosed (a ++ i.text) := (endsClosed_of_logicalStart ha).append i.endsClosed
  rw [Python.logicalStart_concat]
  cases sep with
  | semicolon => exact Bool.or_true _
  | newline =>
    have hlast : (a ++ i.text).getLast? ≠ some '\\' := fun h => hclosed _ h rfl
    rw [bne_iff_ne.2 hlast]
    rfl

/-! ## From item to item -/

/-- What the text `a ++ b` imports from the end of `a` on. -/
def packagesFrom (a b : Text) : List Text := python.importsFrom (a.map .code) (b.map .code)

/-- Where neither form starts, nothing is imported. -/
theorem packagesFrom_skip (h : ∀ k p, k = "import".toList ∨ k = "from".toList → IsForm k p →
    p.NoneIn a t b) : packagesFrom a (t ++ b) = packagesFrom (a ++ t) b := by
  refine importsFrom_code_skip fun f hf => ?_
  obtain ⟨k, hk, hform⟩ := exists_isForm_of_mem hf
  exact h k f.pattern hk hform

theorem packagesFrom_nil (a : Text) : packagesFrom a [] = [] := by
  refine importsFrom_nil fun f hf a => ?_
  obtain ⟨k, -, hform⟩ := exists_isForm_of_mem hf
  exact ends_end hform.after_ne_nil a

theorem packagesFrom_modules (indent : Indent) (s : ModuleImport)
    (ha : logicalStart (.between a []) = true) (hb : EndsItem b) :
    packagesFrom a (indent.val ++ s.text ++ b) =
      s.packages ++ packagesFrom (a ++ (indent.val ++ s.text)) b := by
  have hline : OneLine (indent.val ++ s.text) := (oneLine_indent indent).append s.oneLine
  obtain ⟨e, he, hafter, hpart⟩ :=
    s.exists_prefers (q := ⟨.between a (indent.val ++ s.text ++ b), []⟩) indent ha hb rfl
  have hother : importFrom.pattern.NoneIn a (indent.val ++ s.text) b := by
    refine isForm_importFrom.noneIn hline fun _ => ?_
    exact isForm_importFrom.ends_indent_eq_nil (x := 'i') (by decide) (by decide) (by decide)
      indent (List.append_assoc _ _ _)
  have hforms : python.statements = [] ++ importNames :: [importFrom] := rfl
  have hcode : ∃ c ∈ indent.val ++ s.text, isBlank c = false :=
    ⟨'i', List.mem_append_right _ List.mem_cons_self, by decide⟩
  refine importsFrom_code_match hcode hforms he hafter
    (fun m hm => s.names_eq ((hm _).trans hpart)) fun f hf => ?_
  obtain rfl : f = importFrom := List.mem_singleton.1 hf
  exact hother

theorem packagesFrom_names (indent : Indent) (s : NameImport)
    (ha : logicalStart (.between a []) = true) (hb : EndsItem b) :
    packagesFrom a (indent.val ++ s.text ++ b) =
      s.origin.packages ++ packagesFrom (a ++ (indent.val ++ s.text)) b := by
  have hline : OneLine (indent.val ++ s.core) := (oneLine_indent indent).append s.oneLine_core
  have hnext : (s.tail.val ++ b).StartsApart := by
    refine s.tail.2.1.append fun c hc => ?_
    rcases hb c hc with rfl | rfl <;> decide
  obtain ⟨e, he, hafter, hpart⟩ := s.exists_prefers
    (q := ⟨.between a (indent.val ++ s.core ++ (s.tail.val ++ b)), []⟩) indent ha hnext rfl
  have hother : importNames.pattern.NoneIn a (indent.val ++ s.core) (s.tail.val ++ b) := by
    refine isForm_importNames.noneIn hline fun _ => ?_
    exact isForm_importNames.ends_indent_eq_nil (x := 'f') (by decide) (by decide) (by decide)
      indent (List.append_assoc _ _ _)
  have hforms : python.statements = [importNames] ++ importFrom :: [] := rfl
  have hcore : packagesFrom a (indent.val ++ s.core ++ (s.tail.val ++ b)) =
      s.origin.packages ++ packagesFrom (a ++ (indent.val ++ s.core)) (s.tail.val ++ b) := by
    have hcode : ∃ c ∈ indent.val ++ s.core, isBlank c = false :=
      ⟨'f', List.mem_append_right _ List.mem_cons_self, by decide⟩
    refine importsFrom_code_match hcode hforms he hafter
      (fun m hm => s.names_eq ((hm _).trans hpart)) fun f hf => ?_
    obtain rfl : f = importNames := List.mem_singleton.1 hf
    exact hother
  -- the rest of the line starts inside it
  have htail : packagesFrom (a ++ (indent.val ++ s.core)) (s.tail.val ++ b) =
      packagesFrom (a ++ (indent.val ++ s.core) ++ s.tail.val) b := by
    refine packagesFrom_skip fun k p hk hform => ?_
    refine hform.noneIn (oneLine_of_unmarked s.tail.2.2) fun _ => hform.ends_eq_nil ?_
    have hne : indent.val ++ s.core ≠ [] :=
      List.append_ne_nil_of_right_ne_nil _ (List.cons_ne_nil _ _)
    rw [← List.append_nil (indent.val ++ s.core)] at hline
    exact hline.logicalStart_eq_false hne a _
  have htext : indent.val ++ s.text ++ b = indent.val ++ s.core ++ (s.tail.val ++ b) := by
    simp only [NameImport.text, List.append_assoc]
  rw [htext, hcore, htail]
  simp only [NameImport.text, List.append_assoc]

theorem packagesFrom_other (t : Other) (hb : EndsItem b) :
    packagesFrom a (t.val ++ b) = packagesFrom (a ++ t.val) b := by
  refine packagesFrom_skip fun k p hk hform => hform.noneIn (oneLine_of_unmarked t.2.1) fun _ => ?_
  have hword : IsWord k := by rcases hk with rfl | rfl <;> decide
  have hfirst : ∀ w ∈ (words t.val).head?, w ≠ k := by
    intro w hw
    rcases hk with rfl | rfl
    · exact (t.2.2 w hw).1
    · exact (t.2.2 w hw).2
  exact hform.ends_other_eq_nil hword t.2.1 hfirst hb (Cursor.after_between a _)

/-- An item gives the packages that it imports. -/
theorem packagesFrom_item (i : Item) (ha : logicalStart (.between a []) = true)
    (hb : EndsItem b) :
    packagesFrom a (i.text ++ b) = i.packages ++ packagesFrom (a ++ i.text) b := by
  cases i with
  | modules indent s => exact packagesFrom_modules indent s ha hb
  | names indent s => exact packagesFrom_names indent s ha hb
  | other t => exact packagesFrom_other t hb

/-- Neither form starts at a separator. -/
theorem packagesFrom_separator (sep : Separator) :
    packagesFrom a (sep.char :: b) = packagesFrom (a ++ [sep.char]) b := by
  refine packagesFrom_skip (t := [sep.char]) fun k p hk hform u x v huv => ?_
  cases u with
  | cons y u => simp at huv
  | nil =>
    obtain ⟨rfl, rfl⟩ := List.cons.inj huv
    have hgap : isGap sep.char = false := by
      cases sep <;> decide
    have hword : IsWord k ∧ sep.char ∉ k := by
      rcases hk with rfl | rfl <;> cases sep <;> decide
    exact hform.ends_indent_eq_nil hword.1 hword.2 hgap ⟨[], fun c hc => nomatch hc⟩ rfl

theorem packagesFrom_items (i : Item) (others : List (Separator × Item))
    (ha : logicalStart (.between a []) = true) :
    packagesFrom a (i.text ++ others.flatMap fun i => i.1.char :: i.2.text) =
      i.packages ++ others.flatMap fun i => i.2.packages := by
  induction others generalizing a i with
  | nil =>
    have hend : EndsItem [] := fun c hc => nomatch hc
    rw [List.flatMap_nil, packagesFrom_item i ha hend, packagesFrom_nil]
    rfl
  | cons j others ih =>
    have hend (t : Text) : EndsItem (j.1.char :: t) := by
      rintro c ⟨⟩
      cases j.1
      · exact .inl rfl
      · exact .inr rfl
    rw [List.flatMap_cons, List.cons_append, packagesFrom_item i ha (hend _),
      packagesFrom_separator, ih j.2 (i.logicalStart_concat j.1 ha), List.flatMap_cons]

/-- **A program gives its packages**: the first segments of the modules that it imports or imports
names from, in order, but for the relative ones, however its statements go on over line ends. -/
theorem parse_program (p : Program) : Parser.python.parse p.text = .ok p.packages := by
  have hitem (i : Item) : ∀ c ∈ i.text, c ≠ '"' ∧ c ≠ '\'' ∧ c ≠ '#' := by
    intro c hc
    obtain ⟨hdouble, hsingle, hhash, -⟩ := i.oneLine.unmarked c hc
    exact ⟨hdouble, hsingle, hhash⟩
  have hunmarked : ∀ c ∈ p.text, c ≠ '"' ∧ c ≠ '\'' ∧ c ≠ '#' := by
    intro c hc
    rcases List.mem_append.1 hc with hc | hc
    · exact hitem p.first c hc
    · obtain ⟨i, -, hc⟩ := List.mem_flatMap.1 hc
      rcases List.mem_cons.1 hc with rfl | hc
      · cases i.1 <;> decide
      · exact hitem i.2 c hc
  have hplain : ∀ c ∈ p.text, ∀ m ∈ python.lexis.openers, c ≠ m.head := by
    have hheads : ∀ m ∈ python.lexis.openers, m.head = '"' ∨ m.head = '\'' ∨ m.head = '#' := by
      decide
    intro c hc m hm
    obtain ⟨hdouble, hsingle, hhash⟩ := hunmarked c hc
    rcases hheads m hm with h | h | h <;> rw [h] <;> assumption
  have himports : python.imports p.text = packagesFrom [] p.text := by
    refine imports_eq_importsFrom (fun _ => rfl) fun contents => ?_
    rw [Lexis.cleaned_eq_self hplain, showAll_code]
  have hitems := packagesFrom_items p.first p.others (logicalStart_nil [])
  exact congrArg Except.ok (himports.trans hitems)

end ImportScan.Python
