import ImportScan.Proofs.Pattern.Matches
import ImportScan.Proofs.Text.Collapse
import ImportScan.Pattern.Literal

/-!
# Statements behind an indent

Most forms of statement start where a statement may, take the spaces and tabs there, and go on with
a character that is no white space (`Upfront`). So the place of a match tells what the text goes on
with (`exists_of_mem_ends_indented`), and no match starts in white space that ends its line
(`noneIn_blanks`) or where no statement may start (`noneIn_quiet`).
-/

namespace ImportScan.Pattern

open Text

variable {ι : Type} [DecidableEq ι] {p q : Pattern ι} {s e : Point ι}

/-! ## What a match starts with -/

/-- A match starts with a character that has the property. -/
def Heads (P : Char → Prop) (p : Pattern ι) : Prop :=
  ∀ s, p.ends s ≠ [] → ∃ x ∈ s.cursor.after.head?, P x

section

variable {P : Char → Prop}

theorem heads_text {t : Text} (ht : ∃ x ∈ t.head?, P x) : (text t : Pattern ι).Heads P := by
  intro s hs
  obtain ⟨e, he⟩ := List.exists_mem_of_ne_nil _ hs
  obtain ⟨rest, hafter, -⟩ := mem_ends_text.1 he
  obtain ⟨x, hx, hP⟩ := ht
  rw [hafter, List.head?_append, Option.mem_def.1 hx]
  exact ⟨x, rfl, hP⟩

theorem Heads.append (hp : p.Heads P) (q : Pattern ι) : (p ++ q).Heads P := by
  intro s hs
  apply hp s
  intro hnil
  rw [ends_append, hnil] at hs
  exact hs rfl

theorem Heads.or (hp : p.Heads P) (hq : q.Heads P) : (p ||| q).Heads P := by
  intro s hs
  by_cases hnil : p.ends s = []
  · apply hq s
    intro hnil'
    exact hs (List.append_eq_nil_iff.2 ⟨hnil, hnil'⟩)
  · exact hp s hnil

/-- What may be left out is left out where it does not match. -/
theorem Heads.maybe_append (hp : p.Heads P) (hq : q.Heads P) : (maybe p ++ q).Heads P := by
  intro s hs
  by_cases hnil : p.ends s = []
  · apply hq s
    have hmaybe : (maybe p).ends s = [s] := congrArg (· ++ [s]) hnil
    rwa [ends_append, hmaybe, List.flatMap_singleton] at hs
  · exact hp s hnil

theorem Heads.many0_append (hp : p.Heads P) (hq : q.Heads P) : (many0 p ++ q).Heads P := by
  intro s hs
  by_cases hnil : p.ends s = []
  · apply hq s
    rwa [ends_append, ends_many0_of_ends_eq_nil hnil, List.flatMap_singleton] at hs
  · exact hp s hnil

end

/-- A match starts with a character that is no white space. -/
def Upfront (p : Pattern ι) : Prop := ∀ s, p.ends s ≠ [] → StartsSolid s.cursor.after

theorem upfront_text {t : Text} (ht : StartsSolid t) : (text t : Pattern ι).Upfront := heads_text ht

theorem upfront_word {k : String} (hk : StartsSolid k.toList) : (word k : Pattern ι).Upfront :=
  upfront_text hk

theorem Upfront.append (hp : p.Upfront) (q : Pattern ι) : (p ++ q).Upfront := Heads.append hp q

theorem Upfront.or (hp : p.Upfront) (hq : q.Upfront) : (p ||| q).Upfront := Heads.or hp hq

theorem Upfront.maybe_append (hp : p.Upfront) (hq : q.Upfront) : (maybe p ++ q).Upfront :=
  Heads.maybe_append hp hq

theorem Upfront.many0_append (hp : p.Upfront) (hq : q.Upfront) : (many0 p ++ q).Upfront :=
  Heads.many0_append hp hq

/-! ## Where a statement starts -/

variable {cs : Text}

omit [DecidableEq ι] in
/-- Where no character in front may stand for the start of a line, a line must start. -/
theorem statementStart_nil : (statementStart [] : Pattern ι) = lineStart ++ gaps0 := by
  have htest (c : Cursor) : (atLineStart c || isAfter [] c) = atLineStart c := by
    unfold isAfter
    cases c.before.head? <;> simp
  unfold statementStart lineStart
  rw [funext htest]

/-- Whether a statement may start at the place. -/
def mayStart (cs : Text) (c : Cursor) : Bool := atLineStart c || isAfter cs c

/-- A match takes spaces and tabs where the test lets it start, and goes on with a character that is
no white space. -/
theorem exists_of_mem_ends_gapped {test : Cursor → Bool} (hq : q.Upfront)
    (he : e ∈ (Pattern.here test ++ gaps0 ++ q).ends s) :
    test s.cursor = true ∧ ∃ g m, s.cursor.after = g ++ m.cursor.after ∧
      (∀ c ∈ g, isGap c = true) ∧ StartsSolid m.cursor.after ∧ e ∈ q.ends m := by
  obtain ⟨m, hm, he⟩ := mem_ends_append.1 he
  obtain ⟨m', hstart, hgaps⟩ := mem_ends_append.1 hm
  obtain ⟨htest, rfl⟩ := mem_ends_here.1 hstart
  obtain ⟨g, rest, hafter, hg, -, rfl⟩ := mem_ends_run.1 hgaps
  refine ⟨htest, g, _, ?_, hg, hq _ (List.ne_nil_of_mem he), he⟩
  rw [Point.after_skip_of_eq hafter, hafter]

theorem exists_of_mem_ends_indented (hq : q.Upfront) (he : e ∈ (statementStart cs ++ q).ends s) :
    mayStart cs s.cursor = true ∧ ∃ g m, s.cursor.after = g ++ m.cursor.after ∧
      (∀ c ∈ g, isGap c = true) ∧ StartsSolid m.cursor.after ∧ e ∈ q.ends m :=
  exists_of_mem_ends_gapped hq he

/-- Where nothing follows, nothing matches. -/
theorem ends_indented_nil (hq : q.Upfront) (a : Text) :
    (statementStart cs ++ q).ends ⟨.between a [], []⟩ = [] := by
  refine ends_end (fun s e he => ?_) a
  obtain ⟨-, g, m, hafter, -, hsolid, -⟩ := exists_of_mem_ends_indented hq he
  obtain ⟨x, r, hm, -⟩ := hsolid.exists_cons
  simp [hafter, hm]

/-- No match starts in white space that ends its line or the text. -/
theorem noneIn_blanks {test : Cursor → Bool} (hq : q.Upfront) {a t b : Text} (ht : AllBlank t)
    (hend : b = [] ∨ ∃ c ∈ t.getLast?, isGap c = false) :
    (Pattern.here test ++ gaps0 ++ q).NoneIn a t b := by
  intro u x v huv
  refine List.eq_nil_iff_forall_not_mem.2 fun e he => ?_
  obtain ⟨-, g, m, hafter, hg, hsolid, -⟩ := exists_of_mem_ends_gapped hq he
  obtain ⟨y, r, hm, hy⟩ := hsolid.exists_cons
  have hcut : (x :: v) ++ b = g ++ y :: r := hm ▸ hafter
  have hblank : ∀ c ∈ x :: v, isBlank c = true := fun c hc =>
    ht c (huv ▸ List.mem_append_right u hc)
  have hgap : isGap y = false := by
    by_contra h
    rw [isBlank_of_isGap (by simpa using h)] at hy
    cases hy
  -- what ends the indent is white space too
  have hyv : y ∈ x :: v := by
    rcases hend with rfl | ⟨c, hc, hcgap⟩
    · rw [List.append_nil] at hcut
      exact hcut ▸ List.mem_append_right g List.mem_cons_self
    · have hmem : c ∈ x :: v := by
        rw [huv, List.getLast?_append_of_ne_nil u (List.cons_ne_nil x v)] at hc
        exact List.mem_of_getLast? hc
      obtain ⟨w, z, w', hw, hgaps, hz⟩ := exists_first (p := fun c => !isGap c)
        ⟨c, hmem, by simp [hcgap]⟩
      rw [hw, List.append_assoc, List.cons_append] at hcut
      obtain ⟨-, rfl, -⟩ := append_cons_inj_of_run (by simpa using hgaps) hg (by simpa using hz)
        hgap hcut
      exact hw ▸ List.mem_append_right w List.mem_cons_self
  rw [hblank y hyv] at hy
  cases hy

/-- The character does not make the place behind it the start of a statement. -/
def Quiet (cs : Text) (c : Char) : Prop := c ≠ '\n' ∧ c ∉ cs

instance (cs : Text) (c : Char) : Decidable (Quiet cs c) := inferInstanceAs (Decidable (_ ∧ _))

theorem mayStart_between_concat (a b : Text) (x : Char) :
    mayStart cs (.between (a ++ [x]) b) = true ↔ ¬Quiet cs x := by
  unfold mayStart atLineStart isAfter Quiet
  rw [Cursor.before_between, List.reverse_concat]
  simp only [List.head?_cons, Option.all_some, Option.any_some, List.contains_eq_mem,
    Bool.or_eq_true, beq_iff_eq, decide_eq_true_eq]
  constructor
  · rintro (h | h) ⟨hx, hcs⟩
    · exact hx h
    · exact hcs h
  · intro h
    by_contra hnot
    exact h ⟨fun hx => hnot (.inl hx), fun hx => hnot (.inr hx)⟩

theorem mayStart_between_iff {a b : Text} :
    mayStart cs (.between a b) = true ↔ ∀ c ∈ a.getLast?, c ∈ '\n' :: cs := by
  rcases List.eq_nil_or_concat a with rfl | ⟨a, x, rfl⟩
  · exact iff_of_true rfl fun c hc => nomatch hc
  · rw [List.concat_eq_append, mayStart_between_concat, List.getLast?_concat]
    simp [Quiet, Classical.or_iff_not_imp_left]

/-- What starts where a statement may only does not start behind a first character in a text where
none may. -/
theorem noneIn_of_mayStart (hp : ∀ s, p.ends s ≠ [] → mayStart cs s.cursor = true) {a t b : Text}
    {y : Char} (hy : Quiet cs y) (ht : ∀ c ∈ t, Quiet cs c) : p.NoneIn (a ++ [y]) t b := by
  intro u x v huv
  by_contra hne
  have hstart := hp _ hne
  rcases List.eq_nil_or_concat u with rfl | ⟨w, z, rfl⟩
  · rw [List.append_nil] at hstart
    exact (mayStart_between_concat a _ y).1 hstart hy
  · rw [List.concat_eq_append, ← List.append_assoc] at hstart
    exact (mayStart_between_concat _ _ z).1 hstart (ht z (huv ▸ by simp))

/-- No match starts behind a first character in a text where no statement may start. -/
theorem noneIn_quiet (hq : q.Upfront) {a t b : Text} {y : Char} (hy : Quiet cs y)
    (ht : ∀ c ∈ t, Quiet cs c) : (statementStart cs ++ q).NoneIn (a ++ [y]) t b := by
  refine noneIn_of_mayStart (fun s hs => ?_) hy ht
  obtain ⟨e, he⟩ := List.exists_mem_of_ne_nil _ hs
  exact (exists_of_mem_ends_indented hq he).1

/-- Nor does one start behind more such characters. -/
theorem noneIn_behind_quiet (hq : q.Upfront) {u a t b : Text} (ha : a ≠ [])
    (hquiet : ∀ c ∈ a ++ t, Quiet cs c) : (statementStart cs ++ q).NoneIn (u ++ a) t b := by
  obtain ⟨a, y, rfl⟩ := (List.eq_nil_or_concat a).resolve_left ha
  rw [List.concat_eq_append] at hquiet ⊢
  rw [← List.append_assoc]
  exact noneIn_quiet hq (hquiet y (by simp)) fun c hc => hquiet c (List.mem_append_right _ hc)

end ImportScan.Pattern
