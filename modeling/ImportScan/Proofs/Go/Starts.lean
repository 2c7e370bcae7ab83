import ImportScan.Proofs.Go.Paths
import ImportScan.Proofs.Pattern.Behind
import ImportScan.Proofs.Text.Cut

/-!
# How imports start

Either form of import starts at the start of a line with the word `import`, and what follows the
word tells the two apart (`Starts`). No spec starts so, since no package is renamed to `import`
(`not_starts_spec`), and comments have become layout, so no import starts between the specs or in
them (`noneIn_layout`, `noneIn_spec`).
-/

namespace ImportScan.Go

open Grammar Pattern Segment Text

variable {a b t w indent gap rest : Text} {x : Char} {s m e : Point Part}

/-! ## How the two forms start -/

/-- What has to follow the word of an import: a gap and a character. -/
abbrev Follows := Text → Char → Prop

/-- Behind the word of a single import: a gap, and then another name or a quoted path. -/
def FollowsSingle : Follows := fun gap x =>
  gap ≠ [] ∧ (isDotted x = true ∨ x = '"' ∨ x = backquote)

/-- Behind the word of a group: an opening parenthesis. -/
def FollowsGroup : Follows := fun _ x => x = '('

/-- The text starts as an import with the right things behind its word. -/
def Starts (F : Follows) (t : Text) : Prop :=
  ∃ indent gap x rest, t = indent ++ ("import".toList ++ (gap ++ x :: rest)) ∧
    (∀ c ∈ indent, isGap c = true) ∧ (∀ c ∈ gap, isGap c = true) ∧ isGap x = false ∧ F gap x

/-- The pattern takes nothing but imports, each from the start of its line. -/
structure IsForm (F : Follows) (p : Pattern Part) : Prop where
  starts : ∀ s, ∀ e ∈ p.ends s, atLineStart s.cursor = true ∧ Starts F s.cursor.after
  apart : ∀ gap x rest, F gap x → (∀ c ∈ gap, isGap c = true) → StartsApart (gap ++ x :: rest)

/-- The start of a line up to the word of an import. -/
def importHead : Pattern Part := lineStart ++ gaps0 ++ word "import"

theorem exists_of_mem_ends_importHead (hm : m ∈ importHead.ends s) :
    atLineStart s.cursor = true ∧ ∃ indent rest,
      s.cursor.after = indent ++ ("import".toList ++ rest) ∧ (∀ c ∈ indent, isGap c = true) ∧
        m.cursor.after = rest := by
  obtain ⟨m₂, h, hword⟩ := mem_ends_append.1 hm
  obtain ⟨m₁, hline, hindent⟩ := mem_ends_append.1 h
  obtain ⟨hstart, rfl⟩ := mem_ends_here.1 hline
  obtain ⟨indent, rest, hs, hgaps, -, rfl⟩ := mem_ends_run.1 hindent
  obtain ⟨rest', hrest, rfl⟩ := mem_ends_text.1 hword
  have hafter := Point.after_skip_of_eq hs
  refine ⟨hstart, indent, rest', ?_, hgaps, Point.after_skip_of_eq hrest⟩
  rw [hs, ← hafter, hrest]

theorem startsApart_gap (hgap : ∀ c ∈ gap, isGap c = true) (hne : gap ≠ []) (rest : Text) :
    StartsApart (gap ++ rest) :=
  startsApart_spaces ⟨gap, hne, fun c hc => isBlank_of_isGap (hgap c hc)⟩ rest

theorem isForm_singleImport : IsForm FollowsSingle singleImport.pattern where
  starts := by
    intro s e he
    obtain ⟨m₃, h, hpath⟩ := mem_ends_append.1 he
    obtain ⟨m₂, h, hname⟩ := mem_ends_append.1 h
    obtain ⟨m₁, hhead, hgap⟩ := mem_ends_append.1 h
    obtain ⟨hline, indent, rest, hs, hindent, hrest⟩ := exists_of_mem_ends_importHead hhead
    obtain ⟨gap, rest', hafter, hgaps, hlen, rfl⟩ := mem_ends_run.1 hgap
    rw [hrest] at hafter
    have hne : gap ≠ [] := List.ne_nil_of_length_pos hlen
    have hnext : (m₁.skip gap.length).cursor.after = rest' :=
      Point.after_skip_of_eq (hrest.trans hafter)
    refine ⟨hline, indent, gap, ?_⟩
    rcases mem_ends_or.1 hname with hname | hname
    · obtain ⟨m, hrun, -⟩ := mem_ends_append.1 hname
      obtain ⟨name, more, hmore, hdotted, hlen, -⟩ := mem_ends_run.1 hrun
      obtain ⟨x, name, rfl⟩ := List.exists_cons_of_ne_nil (List.ne_nil_of_length_pos hlen)
      have hx := hdotted x List.mem_cons_self
      refine ⟨x, name ++ more, ?_, hindent, hgaps, isGap_eq_false_of_isDotted hx, hne, .inl hx⟩
      rw [hs, hafter, ← hnext, hmore]
      rfl
    · obtain rfl : m₃ = m₁.skip gap.length := List.mem_singleton.1 hname
      obtain ⟨x, more, hmore, hx⟩ := head_of_ends_importPath (List.ne_nil_of_mem hpath)
      refine ⟨x, more, ?_, hindent, hgaps, ?_, hne, .inr hx⟩
      · rw [hs, hafter, ← hnext, hmore]
      · rcases hx with rfl | rfl <;> decide
  apart := by
    rintro gap x rest ⟨hne, -⟩ hgap
    exact startsApart_gap hgap hne _

theorem isForm_groupImport : IsForm FollowsGroup groupImport.pattern where
  starts := by
    intro s e he
    obtain ⟨m₄, h, -⟩ := mem_ends_append.1 he
    obtain ⟨m₃, h, -⟩ := mem_ends_append.1 h
    obtain ⟨m₂, h, hopen⟩ := mem_ends_append.1 h
    obtain ⟨m₁, hhead, hgap⟩ := mem_ends_append.1 h
    obtain ⟨hline, indent, rest, hs, hindent, hrest⟩ := exists_of_mem_ends_importHead hhead
    obtain ⟨gap, rest', hafter, hgaps, -, rfl⟩ := mem_ends_run.1 hgap
    obtain ⟨x, more, hmore, hx, -⟩ := mem_ends_one.1 hopen
    obtain rfl : x = '(' := eq_of_beq hx
    have hnext := Point.after_skip_of_eq hafter
    rw [hrest] at hafter
    refine ⟨hline, indent, gap, '(', more, ?_, hindent, hgaps, by decide, rfl⟩
    rw [hs, hafter, ← hnext, hmore]
  apart := by
    rintro gap x rest rfl hgap
    by_cases hne : gap = []
    · subst hne
      rintro c ⟨⟩
      decide
    · exact startsApart_gap hgap hne _

/-! ## Texts that start otherwise -/

variable {F : Follows} {p : Pattern Part}

theorem not_starts_nil : ¬Starts F [] := by
  rintro ⟨indent, gap, x, rest, h, -⟩
  simpa using congrArg List.length h

theorem not_starts_cons (hgap : isGap x = false) (hx : x ≠ 'i') (t : Text) :
    ¬Starts F (x :: t) := by
  rintro ⟨indent, gap, y, rest, h, hindent, -⟩
  cases indent with
  | nil => exact hx (List.cons.inj h).1
  | cons z indent =>
    obtain ⟨rfl, -⟩ := List.cons.inj h
    rw [hindent x List.mem_cons_self] at hgap
    cases hgap

/-- An import behind layout stands on the same line. -/
theorem Starts.of_layout_append (hw : w.IsLayout) (h : Starts F (w ++ b)) :
    (∀ c ∈ w, isGap c = true) ∧ Starts F b := by
  induction w with
  | nil => exact ⟨fun c hc => (nomatch hc), h⟩
  | cons x w ih =>
    obtain ⟨indent, gap, y, rest, h, hindent, hstart⟩ := h
    cases indent with
    | nil =>
      obtain ⟨rfl, -⟩ := List.cons.inj h
      exact absurd (hw 'i' List.mem_cons_self) (by decide)
    | cons z indent =>
      obtain ⟨rfl, hrest⟩ := List.cons.inj h
      obtain ⟨hgaps, hb⟩ := ih (fun c hc => hw c (List.mem_cons_of_mem x hc))
        ⟨indent, gap, y, rest, hrest, fun c hc => hindent c (List.mem_cons_of_mem x hc), hstart⟩
      refine ⟨fun c hc => ?_, hb⟩
      rcases List.mem_cons.1 hc with rfl | hc
      · exact hindent c List.mem_cons_self
      · exact hgaps c hc

/-- What follows the word of an import is read off its text. -/
theorem Starts.follows (hindent : ∀ c ∈ indent, isGap c = true) (hgap : ∀ c ∈ gap, isGap c = true)
    (hx : isGap x = false) (h : Starts F (indent ++ ("import".toList ++ (gap ++ x :: rest)))) :
    F gap x := by
  obtain ⟨indent', gap', y, rest', h, hindent', hgap', hy, hF⟩ := h
  have hi : isGap 'i' = false := by decide
  obtain ⟨rfl, -, h⟩ := append_cons_inj_of_run hindent hindent' hi hi h
  have hword : gap ++ x :: rest = gap' ++ y :: rest' :=
    List.append_cancel_left (h : "mport".toList ++ _ = "mport".toList ++ _)
  obtain ⟨rfl, rfl, -⟩ := append_cons_inj_of_run hgap hgap' hx hy hword
  exact hF

/-- A spec starts with a name or a quote. -/
theorem Spec.exists_cons (spec : Spec) :
    ∃ x t, spec.text = x :: t ∧ isGap x = false ∧ x ≠ '(' := by
  have hquote : ∀ q : Quote, isGap q.char = false ∧ q.char ≠ '(' := by
    intro q
    cases q <;> decide
  unfold text newNameText
  cases spec.newName with
  | none => exact ⟨_, _, rfl, hquote spec.quote⟩
  | some n =>
    obtain ⟨name, gap⟩ := n
    obtain ⟨x, v, hv⟩ := List.exists_cons_of_ne_nil name.dotted.1
    have hx : isDotted x = true := name.dotted.2 x (hv ▸ List.mem_cons_self)
    refine ⟨x, v ++ gap.val ++ spec.literal, ?_, isGap_eq_false_of_isDotted hx, ?_⟩
    · simp only [hv, List.cons_append]
    · rintro rfl
      exact absurd hx (by decide)

/-- No spec starts as an import, since no package is renamed so. -/
theorem IsForm.not_starts_spec (hp : IsForm F p) (spec : Spec) (b : Text) :
    ¬Starts F (spec.text ++ b) := by
  have hquote : ∀ q : Quote, q.char ≠ 'i' := by
    intro q
    cases q <;> decide
  unfold Spec.text Spec.newNameText
  cases spec.newName with
  | none => exact not_starts_cons spec.quote.not_isGap (hquote _) _
  | some a =>
    obtain ⟨name, gap⟩ := a
    cases name with
    | dot => exact not_starts_cons (by decide) (by decide) _
    | word w hw =>
      -- the name would be the word of the import
      rintro ⟨indent, gap', x, rest, h, hindent, hgap', -, hF⟩
      have hafter : w.val ++ (gap.val ++ (spec.literal ++ b)) =
          indent ++ ("import".toList ++ (gap' ++ x :: rest)) := by
        rw [← h]
        simp only [Alias.text, List.append_assoc]
      obtain rfl : indent = [] := by
        cases indent with
        | nil => rfl
        | cons c indent =>
          obtain ⟨d, v, hv⟩ := List.exists_cons_of_ne_nil w.2.1
          rw [hv] at hafter
          obtain ⟨rfl, -⟩ := List.cons.inj hafter
          have hd := w.2.2 d (hv ▸ List.mem_cons_self)
          have hblank := isBlank_of_isGap (hindent d List.mem_cons_self)
          rw [isWord_eq_false_of_isBlank hblank] at hd
          cases hd
      have himport : IsWord "import".toList := by decide
      have happart := startsApart_gap gap.2.2 gap.2.1 (spec.literal ++ b)
      exact hw (w.2.append_inj himport happart (hp.apart gap' x rest hF hgap') hafter).1

/-! ## Stretches in which no import starts -/

theorem IsForm.noneIn_of_not_starts (hp : IsForm F p)
    (h : ∀ u x v, t = u ++ x :: v → atLineStart (.between (a ++ u) (x :: (v ++ b))) = true →
      ¬Starts F (x :: v ++ b)) : p.NoneIn a t b := by
  intro u x v huv
  refine List.eq_nil_iff_forall_not_mem.2 fun e he => ?_
  obtain ⟨hline, hstart⟩ := hp.starts _ e he
  exact h u x v huv hline hstart

theorem IsForm.noneIn_layout (hp : IsForm F p) (hw : w.IsLayout) (hb : ¬Starts F b) :
    p.NoneIn a w b := by
  refine hp.noneIn_of_not_starts fun u x v huv _ hstart => hb ?_
  have hrest : IsLayout (x :: v) := fun c hc => hw c (huv ▸ List.mem_append_right u hc)
  exact (hstart.of_layout_append hrest).2

/-- No import starts in lines of layout, whatever follows them. -/
theorem IsForm.noneIn_lines (hp : IsForm F p) (hw : w.IsLayout) (hline : EndsLine w) :
    p.NoneIn a w b := by
  refine hp.noneIn_of_not_starts fun u x v huv _ hstart => ?_
  have hrest : IsLayout (x :: v) := fun c hc => hw c (huv ▸ List.mem_append_right u hc)
  have hlast := List.getLast?_eq_some_getLast (List.cons_ne_nil x v)
  have hgap := (hstart.of_layout_append hrest).1 _ (List.mem_of_getLast? hlast)
  have hnewline : (x :: v).getLast (List.cons_ne_nil x v) = '\n' := by
    apply hline
    rw [huv, List.getLast?_append, hlast]
    rfl
  rw [hnewline] at hgap
  cases hgap

/-- Inside a line no import starts. -/
theorem IsForm.noneIn_line (hp : IsForm F p) (ht : '\n' ∉ t) (hstart : ¬Starts F (t ++ b)) :
    p.NoneIn a t b := by
  refine hp.noneIn_of_not_starts fun u x v huv hline => ?_
  by_cases hu : u = []
  · subst hu
    rw [huv] at hstart
    exact hstart
  · obtain ⟨u, c, rfl⟩ := (List.eq_nil_or_concat u).resolve_left hu
    have hc : c = '\n' := by
      simpa [atLineStart] using hline
    exact absurd (huv ▸ by simp [hc]) ht

theorem Spec.newline_not_mem (spec : Spec) : '\n' ∉ spec.text := by
  refine spec.not_mem_text (by decide) (by decide) (fun q => ?_) fun h => ?_
  · cases q <;> decide
  · exact absurd (spec.path.2 _ h).1 (by decide)

theorem IsForm.noneIn_spec (hp : IsForm F p) (spec : Spec) : p.NoneIn a spec.text b :=
  hp.noneIn_line spec.newline_not_mem (hp.not_starts_spec spec b)

end ImportScan.Go
