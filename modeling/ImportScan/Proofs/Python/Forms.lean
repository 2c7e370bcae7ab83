import ImportScan.Grammar.Python
import ImportScan.Proofs.Pattern.Matches
import ImportScan.Proofs.Python.Syntax

/-!
# How imports start

Either form of import starts where a logical line does, with its keyword and a gap behind it
(`IsForm`). A logical line has no such place but its own start (`IsForm.noneIn`), and what stands
there is no import of the other form (`IsForm.ends_indent_eq_nil`) or none at all
(`IsForm.ends_other_eq_nil`).
-/

namespace ImportScan.Python

open Grammar Pattern Text

variable {s m e : Point Part} {p : Pattern Part} {k a b t rest : Text} {x : Char}

/-! ## Where a statement may start -/

theorem logicalStart_nil (b : Text) : logicalStart (.between [] b) = true := rfl

theorem logicalStart_concat (a b : Text) (c : Char) :
    logicalStart (.between (a ++ [c]) b) =
      (c == '\n' && a.getLast? != some '\\' || c == ';') := by
  have hprefix : ['\n', '\\'].isPrefixOf (c :: a.reverse) =
      (c == '\n' && a.getLast? == some '\\') := by
    rw [List.isPrefixOf_cons_cons, ← List.head?_reverse, BEq.comm]
    cases a.reverse with
    | nil => simp
    | cons x r =>
      rw [List.isPrefixOf_cons_cons, List.isPrefixOf_nil_left, Bool.and_true, BEq.comm (a := '\\')]
      rfl
  unfold logicalStart atLineStart isAfter
  rw [Cursor.before_between, List.reverse_concat, hprefix]
  simp only [List.head?_cons, Option.all_some, Option.any_some, bne]
  cases c == '\n' <;> cases a.getLast? == some '\\' <;> simp <;> rfl

/-- Inside a logical line none starts. -/
theorem OneLine.logicalStart_eq_false {u v : Text} (ht : OneLine (u ++ v)) (hu : u ≠ [])
    (a b : Text) : logicalStart (.between (a ++ u) b) = false := by
  obtain ⟨u, c, rfl⟩ := (List.eq_nil_or_concat u).resolve_left hu
  rw [List.concat_eq_append] at ht ⊢
  have hsemi : c ≠ ';' := (ht.unmarked c (by simp)).2.2.2
  rw [← List.append_assoc, logicalStart_concat]
  by_cases hc : c = '\n'
  · subst hc
    have hlast := ht.continued u v (by simp)
    rw [List.getLast?_append, hlast]
    rfl
  · simp [hc, hsemi]

/-! ## What a form starts with -/

/-- What a gap starts with. -/
def StartsGap (x : Char) : Prop := isGap x = true ∨ x = '\\'

instance (x : Char) : Decidable (StartsGap x) := inferInstanceAs (Decidable (_ ∨ _))

theorem exists_of_mem_ends_gap (he : e ∈ gap.ends s) :
    ∃ x rest, s.cursor.after = x :: rest ∧ StartsGap x := by
  rcases mem_ends_or.1 he with he | he
  · obtain ⟨x, rest, hs, hx, -⟩ := mem_ends_one.1 he
    exact ⟨x, rest, hs, .inl hx⟩
  · obtain ⟨rest, hs, -⟩ := mem_ends_text.1 he
    exact ⟨'\\', '\n' :: rest, hs, .inr rfl⟩

theorem exists_of_mem_ends_gaps (he : e ∈ (many1 gap).ends s) :
    ∃ x rest, s.cursor.after = x :: rest ∧ StartsGap x := by
  obtain ⟨m, hm⟩ := List.exists_mem_of_ne_nil _ (ends_ne_nil_of_mem_ends_many1 he)
  exact exists_of_mem_ends_gap hm

/-- The pattern takes nothing but imports with the keyword `k`, each from the start of its line. -/
def IsForm (k : Text) (p : Pattern Part) : Prop :=
  ∀ s, ∀ e ∈ p.ends s, logicalStart s.cursor = true ∧ ∃ indent x rest,
    s.cursor.after = indent ++ (k ++ x :: rest) ∧ (∀ c ∈ indent, isGap c = true) ∧ StartsGap x

namespace IsForm

theorem append (hp : IsForm k p) (q : Pattern Part) : IsForm k (p ++ q) := by
  intro s e he
  obtain ⟨m, hm, -⟩ := mem_ends_append.1 he
  exact hp s m hm

/-- Where no logical line starts, no match starts. -/
theorem ends_eq_nil (hp : IsForm k p) (hs : logicalStart s.cursor = false) : p.ends s = [] := by
  refine List.eq_nil_iff_forall_not_mem.2 fun e he => ?_
  rw [(hp s e he).1] at hs
  cases hs

/-- In a logical line a match starts at its start if at all. -/
theorem noneIn (hp : IsForm k p) (ht : OneLine t)
    (hstart : t ≠ [] → p.ends ⟨.between a (t ++ b), []⟩ = []) : p.NoneIn a t b := by
  intro u x v huv
  by_cases hu : u = []
  · subst hu
    have hnone := hstart (by simp [huv])
    rw [huv] at hnone
    rw [List.append_nil]
    exact hnone
  · exact hp.ends_eq_nil ((huv ▸ ht).logicalStart_eq_false hu a _)

theorem after_ne_nil (hp : IsForm k p) (s : Point Part) : ∀ e ∈ p.ends s, s.cursor.after ≠ [] := by
  intro e he
  obtain ⟨-, indent, x, rest, hs, -⟩ := hp s e he
  simp [hs]

/-- No match starts where another character than that of the keyword stands behind the indent. -/
theorem ends_indent_eq_nil (hp : IsForm k p) (hk : IsWord k) (hxk : x ∉ k) (hx : isGap x = false)
    (indent : Indent) (hs : s.cursor.after = indent.val ++ x :: rest) : p.ends s = [] := by
  refine List.eq_nil_iff_forall_not_mem.2 fun e he => ?_
  obtain ⟨-, indent', y, rest', hafter, hindent, -⟩ := hp s e he
  obtain ⟨c, k, rfl⟩ := List.exists_cons_of_ne_nil hk.1
  have hc : isGap c = false :=
    isGap_eq_false_of_isDotted (isDotted_of_isWord (hk.2 c List.mem_cons_self))
  obtain ⟨-, rfl, -⟩ := append_cons_inj_of_run indent.2 hindent hx hc (hs.symm.trans hafter)
  exact hxk List.mem_cons_self

/-- A line does not start with the keyword if that is not its first word. -/
theorem ends_other_eq_nil (hp : IsForm k p) (hk : IsWord k) (ht : ∀ c ∈ t, c ∉ marks)
    (hfirst : ∀ w ∈ (words t).head?, w ≠ k) (hb : ∀ c ∈ b.head?, c = '\n' ∨ c = ';')
    (hs : s.cursor.after = t ++ b) : p.ends s = [] := by
  refine List.eq_nil_iff_forall_not_mem.2 fun e he => ?_
  obtain ⟨-, indent, x, rest, hafter, hindent, hx⟩ := hp s e he
  -- the line goes on over the keyword and the gap behind it
  let inLine (c : Char) : Bool := c != '\n' && c != ';'
  have hline : (t ++ b).takeWhile inLine = t := by
    refine takeWhile_append_stop (fun c hc => ?_) fun c hc => ?_
    · have hmark := ht c hc
      simp only [marks, List.mem_cons, List.not_mem_nil, or_false, not_or] at hmark
      simp [inLine, hmark.2.2.2.2.1, hmark.2.2.2.2.2]
    · rcases hb c hc with rfl | rfl <;> rfl
  have hgap (c : Char) (hc : isGap c = true) : inLine c = true := by
    rw [isGap, Bool.or_eq_true, beq_iff_eq, beq_iff_eq] at hc
    rcases hc with rfl | rfl <;> rfl
  have hword (c : Char) (hc : c ∈ k) : inLine c = true := by
    have hc := hk.2 c hc
    have hmarks : isWord '\n' = false ∧ isWord ';' = false := by decide
    simp only [inLine, Bool.and_eq_true, bne_iff_ne, ne_eq]
    constructor <;> rintro rfl <;> simp [hmarks] at hc
  have hin : inLine x = true := by
    rcases hx with hx | rfl
    · exact hgap x hx
    · rfl
  have hcut : t = indent ++ (k ++ x :: rest.takeWhile inLine) := by
    have hindent : ∀ c ∈ indent, inLine c = true := fun c hc => hgap c (hindent c hc)
    rw [← hline, hs.symm.trans hafter, List.takeWhile_append_of_pos hindent,
      List.takeWhile_append_of_pos hword, List.takeWhile_cons_of_pos hin]
  have hgapx : isGap x = true := by
    rcases hx with hx | rfl
    · exact hx
    · exact absurd (by decide) (ht '\\' (by rw [hcut]; simp))
  have hblank : ∀ c ∈ k, isBlank c = false := fun c hc => isBlank_eq_false_of_isWord (hk.2 c hc)
  have hwords : words t = k :: words (x :: rest.takeWhile inLine) := by
    rw [hcut, words_blanks_append fun c hc => isBlank_of_isGap (hindent c hc)]
    apply words_append hk.1 hblank
    rintro c ⟨⟩
    exact isBlank_of_isGap hgapx
  exact hfirst k (by rw [hwords]; rfl) rfl

end IsForm

/-! ## The two forms -/

/-- The start of a logical line up to the gap behind its first word. -/
def opening (k : String) : Pattern Part := .here logicalStart ++ gaps0 ++ word k ++ many1 gap

theorem isForm_opening (k : String) : IsForm k.toList (opening k) := by
  intro s e he
  obtain ⟨m, h, hgap⟩ := mem_ends_append.1 he
  obtain ⟨m, h, hword⟩ := mem_ends_append.1 h
  obtain ⟨m, h, hindent⟩ := mem_ends_append.1 h
  obtain ⟨hstart, rfl⟩ := mem_ends_here.1 h
  obtain ⟨indent, rest, hs, hgaps, -, rfl⟩ := mem_ends_run.1 hindent
  obtain ⟨rest', hrest, rfl⟩ := mem_ends_text.1 hword
  obtain ⟨x, rest'', hx, hstarts⟩ := exists_of_mem_ends_gaps hgap
  rw [Point.after_skip_of_eq hs] at hrest
  subst hrest
  rw [Point.after_skip_of_eq (Point.after_skip_of_eq hs)] at hx
  subst hx
  exact ⟨hstart, indent, x, rest'', hs, hgaps, hstarts⟩

theorem isForm_importNames : IsForm "import".toList importNames.pattern :=
  (isForm_opening "import").append _

theorem isForm_importFrom : IsForm "from".toList importFrom.pattern :=
  ((((isForm_opening "from").append _).append _).append _).append _

theorem exists_isForm_of_mem {f : Statement} (hf : f ∈ python.statements) :
    ∃ k, (k = "import".toList ∨ k = "from".toList) ∧ IsForm k f.pattern := by
  have hmem : f = importNames ∨ f = importFrom := by simpa [python] using hf
  rcases hmem with rfl | rfl
  · exact ⟨_, .inl rfl, isForm_importNames⟩
  · exact ⟨_, .inr rfl, isForm_importFrom⟩

end ImportScan.Python
