import ImportScan.Proofs.Grammar.Keyword
import ImportScan.Proofs.Pattern.Behind
import ImportScan.Proofs.Php.Clause

/-!
# Where use statements match

The pattern of a use statement matches the text of one at the start of its line, up to the semicolon
(`matchAt?_use`). A match needs the word `use` with a space or a tab behind it, so none starts in
a text that has no such word, up to a character that neither the word nor white space on its line
has (`noneIn_of_quiet`).
-/

namespace ImportScan.Php

open Grammar Pattern Text

/-! ## Texts in which none starts -/

/-- No word `use` stands in the text with a space or a tab behind it. -/
def Quiet (t : Text) : Prop :=
  ∀ (p : Text) g r, t = p ++ ("use".toList ++ g :: r) → p.EndsApart → ¬isGap g = true

/-- The characters that end a line or a statement, or start or end a block. -/
def stops : Text := ['\n', ';', '{', '}']

variable {a b t y : Text} {g x : Char}

theorem endsApart_of_forall (h : ∀ c ∈ t, isGap c = true) : t.EndsApart :=
  fun c hc => isWord_eq_false_of_isGap (h c (List.mem_of_getLast? hc))

theorem of_mem_stops (h : x ∈ stops) :
    isWord x = false ∧ ¬isGap x = true ∧ x ∉ "use".toList := by
  have hstops : ∀ x ∈ stops, isWord x = false ∧ ¬isGap x = true ∧ x ∉ "use".toList := by decide
  exact hstops x h

/-- What a match of a use statement starts with. -/
theorem exists_of_ends_ne_nil (h : useStatement.pattern.ends ⟨.between a b, []⟩ ≠ []) :
    a.EndsApart ∧ ∃ t g r, b = t ++ ("use".toList ++ g :: r) ∧ (∀ c ∈ t, isGap c = true) ∧
      isGap g = true := by
  obtain ⟨e, he⟩ := List.exists_mem_of_ne_nil _ h
  obtain ⟨m₅, h, -⟩ := mem_ends_append.1 he
  obtain ⟨m₄, h, -⟩ := mem_ends_append.1 h
  obtain ⟨m₃, h, hgaps⟩ := mem_ends_append.1 h
  obtain ⟨m₂, hstart, hword⟩ := mem_ends_append.1 h
  obtain ⟨m₁, hplace, hindent⟩ := mem_ends_append.1 hstart
  obtain ⟨htest, rfl⟩ := mem_ends_here.1 hplace
  obtain ⟨t, rest, hb, ht, -, rfl⟩ := mem_ends_run.1 hindent
  obtain ⟨rest', hrest, rfl⟩ := mem_ends_text.1 hword
  obtain ⟨gap, rest'', hrest', hgap, hlen, rfl⟩ := mem_ends_run.1 hgaps
  rw [Point.after_skip_of_eq hb] at hrest
  rw [Point.after_skip_of_eq (Point.after_skip_of_eq hb ▸ hrest)] at hrest'
  obtain ⟨g, gap, rfl⟩ := List.exists_cons_of_ne_nil (List.ne_nil_of_length_pos hlen)
  refine ⟨?_, t, g, gap ++ rest'', ?_, ht, hgap g List.mem_cons_self⟩
  · intro c hc
    simp only [atLineStart, isAfter, Cursor.before_between, List.head?_reverse] at htest
    rw [hc] at htest
    have hstop : c ∈ stops := by simpa [stops] using htest
    exact (of_mem_stops hstop).1
  · rw [hrest', List.cons_append] at hrest
    rw [← hrest]
    exact hb

/-- In front of a stop the word and the gap that a match starts with stand whole. -/
theorem exists_of_append_stop (hb : ∀ c ∈ b.head?, c ∈ stops) {r : Text}
    (ht : ∀ c ∈ t, isGap c = true) (hg : isGap g = true)
    (h : y ++ b = t ++ ("use".toList ++ g :: r)) : ∃ r', y = t ++ ("use".toList ++ g :: r') := by
  have hstart : ∀ x ∈ t ++ ("use".toList ++ [g]), x ∉ stops := by
    intro x hx hstop
    obtain ⟨-, hgap, hword⟩ := of_mem_stops hstop
    rcases List.mem_append.1 hx with hx | hx
    · exact hgap (ht x hx)
    rcases List.mem_append.1 hx with hx | hx
    · exact hword hx
    · exact hgap (List.mem_singleton.1 hx ▸ hg)
  have hcut : y ++ b = t ++ ("use".toList ++ [g]) ++ r := by
    rw [h, List.append_assoc, List.append_assoc]
    rfl
  rcases List.append_eq_append_iff.1 hcut with ⟨w, hw, rfl⟩ | ⟨w, rfl, -⟩
  · -- the start of the match would reach over the stop
    cases w with
    | nil => exact ⟨[], by rw [List.append_nil] at hw; exact hw.symm⟩
    | cons c w =>
      have hc := hstart c (hw ▸ List.mem_append_right y List.mem_cons_self)
      exact absurd (hb c rfl) hc
  · exact ⟨w, by rw [List.append_assoc, List.append_assoc]; rfl⟩

/-- No use statement starts in a quiet text at the end or in front of a stop. -/
theorem noneIn_of_quiet (hy : Quiet y) (hb : ∀ c ∈ b.head?, c ∈ stops) :
    useStatement.pattern.NoneIn a y b := by
  intro u z v huv
  refine Decidable.byContradiction fun hends => ?_
  obtain ⟨hapart, t, g, r, hmatch, ht, hg⟩ := exists_of_ends_ne_nil hends
  obtain ⟨r', hr'⟩ := exists_of_append_stop (y := z :: v) hb ht hg hmatch
  have happart : EndsApart (u ++ t) :=
    forall_getLast?_append (forall_getLast?_of_append hapart) (endsApart_of_forall ht)
  exact hy (u ++ t) g r' (by rw [huv, hr', List.append_assoc]) happart hg

/-- No use statement starts at a stop. -/
theorem noneIn_stop (hx : x ∈ stops) : useStatement.pattern.NoneIn a [x] b := by
  obtain ⟨-, hgap, hword⟩ := of_mem_stops hx
  intro u z v huv
  obtain rfl : z = x := List.mem_singleton.1 (huv ▸ List.mem_append_right u List.mem_cons_self)
  refine Decidable.byContradiction fun hends => ?_
  obtain ⟨-, t, g, r, hmatch, ht, -⟩ := exists_of_ends_ne_nil hends
  cases t with
  | nil =>
    obtain ⟨rfl, -⟩ := List.cons.inj hmatch
    exact hword List.mem_cons_self
  | cons c t =>
    obtain ⟨rfl, -⟩ := List.cons.inj hmatch
    exact hgap (ht z List.mem_cons_self)

/-! ## Quiet texts -/

theorem quiet_of_not_hasWord (h : ¬HasWord "use".toList t) : Quiet t := by
  intro p g r ht hp hg
  refine h ⟨p, g :: r, ht, hp, ?_⟩
  rintro c ⟨⟩
  exact isWord_eq_false_of_isGap hg

theorem isWord_use : IsWord "use".toList := by decide

theorem quiet_blanks (h : AllBlank b) : Quiet b := by
  refine quiet_of_not_hasWord fun hword => ?_
  have hblank := h 'u' (hword.subset (by decide))
  exact absurd hblank (by decide)

theorem Quiet.append_left (hb : AllBlank b) (ht : Quiet t) : Quiet (b ++ t) := by
  induction b with
  | nil => exact ht
  | cons c b ih =>
    have hc : isBlank c = true := hb c List.mem_cons_self
    intro p g r h hp
    cases p with
    | nil =>
      obtain ⟨rfl, -⟩ := List.cons.inj h
      exact absurd hc (by decide)
    | cons d p =>
      obtain ⟨rfl, hrest⟩ := List.cons.inj h
      exact ih (fun d hd => hb d (List.mem_cons_of_mem c hd)) p g r hrest
        ((endsApart_cons (isWord_eq_false_of_isBlank hc)).1 hp)

theorem Quiet.append_right (ht : Quiet t) (hy : ∀ c ∈ y, ¬isGap c = true) : Quiet (t ++ y) := by
  intro p g r h hp hg
  have hgy : g ∉ y := fun hmem => hy g hmem hg
  rw [← List.append_assoc] at h
  -- the gap stands in `t`, so the word in front of it does too
  rcases List.append_eq_append_iff.1 h with ⟨w, -, rfl⟩ | ⟨w, htw, hw⟩
  · exact hgy (List.mem_append_right w List.mem_cons_self)
  · cases w with
    | nil =>
      rw [List.nil_append] at hw
      exact hgy (hw ▸ List.mem_cons_self)
    | cons d w =>
      obtain ⟨rfl, -⟩ := List.cons.inj hw
      exact ht p g w (by rw [htw, List.append_assoc]) hp hg

/-! ## The match of a use statement -/

section Match

variable {s : Point Part} {indent gap body rest : Text}

/-- The clauses and the semicolon behind them. -/
def clausesEnd : Pattern Part :=
  .part .body (.one (fun c => c == '\\' || isWord c) ++ some0 (· != ';')) ++ char ';'

theorem clausesEnd_ends (hs : s.cursor.after = body ++ ';' :: rest)
    (hbody : ∀ c ∈ body.head?, (c == '\\' || isWord c) = true) (hne : body ≠ [])
    (hend : ';' ∉ body) :
    clausesEnd.ends s = [((s.skip body.length).mark .body s.cursor).skip 1] := by
  obtain ⟨x, y, rfl⟩ := List.exists_cons_of_ne_nil hne
  have hy : (s.skip 1).cursor.after = y ++ ';' :: rest := Point.after_skip_of_eq (t := [x]) hs
  have hchar (m : Point Part) {c : Char} {r : Text} (h : m.cursor.after = c :: r) :
      (char ';').ends (m.mark .body s.cursor) =
        if c == ';' then [(m.mark .body s.cursor).skip 1] else [] := ends_one h
  have hinside : ∀ n < y.length,
      (char ';').ends (((s.skip 1).skip n).mark .body s.cursor) = [] := by
    intro n hn
    obtain ⟨c, hc, r, hafter⟩ := Point.exists_after_skip hy hn
    have hne : c ≠ ';' := fun h => hend (h ▸ List.mem_cons_of_mem x hc)
    rw [hchar _ hafter]
    simp [hne]
  have hrun : ∀ c ∈ y, (c != ';') = true := by
    intro c hc
    have hne : c ≠ ';' := fun h => hend (h ▸ List.mem_cons_of_mem x hc)
    simpa using hne
  have hlast : ((s.skip 1).skip y.length).cursor.after = ';' :: rest := Point.after_skip_of_eq hy
  rw [clausesEnd, ends_append, ends_part, List.flatMap_map, ends_append,
    ends_one hs, if_pos (hbody x rfl), List.flatMap_singleton, some0]
  rw [flatMap_ends_run (k := fun m => (char ';').ends (m.mark .body s.cursor)) hy hrun (by simp)
    (Nat.zero_le _) hinside]
  rw [hchar _ hlast, Point.skip_skip, Nat.add_comm 1]
  simp

/-- No clause starts with a gap. -/
theorem start_eq_false_of_isGap (hx : isGap x = true) : (x == '\\' || isWord x) = false := by
  have hslash : x ≠ '\\' := by
    rintro rfl
    exact absurd hx (by decide)
  simp [isWord_eq_false_of_isGap hx, hslash]

theorem clausesEnd_ends_of_isGap (hs : s.cursor.after = x :: rest) (hx : isGap x = true) :
    clausesEnd.ends s = [] := by
  rw [clausesEnd, ends_append, ends_part, ends_append, ends_one hs, start_eq_false_of_isGap hx]
  rfl

/-- Behind the word the gap and the clauses are taken in one way. -/
theorem gaps_clausesEnd_ends (hs : s.cursor.after = gap ++ (body ++ ';' :: rest)) (hgap : gap ≠ [])
    (hgaps : ∀ c ∈ gap, isGap c = true) (hbody : ∀ c ∈ body.head?, (c == '\\' || isWord c) = true)
    (hne : body ≠ []) :
    (gaps1 ++ clausesEnd).ends s = clausesEnd.ends (s.skip gap.length) := by
  have hstop : ∀ c ∈ (body ++ ';' :: rest).head?, isGap c = false := by
    obtain ⟨x, y, rfl⟩ := List.exists_cons_of_ne_nil hne
    rintro c ⟨⟩
    cases hx : isGap x with
    | false => rfl
    | true => exact absurd (hbody x rfl) (by simp [start_eq_false_of_isGap hx])
  refine flatMap_ends_run hs hgaps hstop (List.length_pos_iff.2 hgap) fun n hn => ?_
  obtain ⟨c, hc, r, hafter⟩ := Point.exists_after_skip hs hn
  exact clausesEnd_ends_of_isGap hafter (hgaps c hc)

/-- At the start of a line the indentation and the word are taken in one way. -/
theorem indent_use_ends {q : Pattern Part} (hline : atLineStart s.cursor = true)
    (hs : s.cursor.after = indent ++ ("use".toList ++ rest))
    (hindent : ∀ c ∈ indent, isGap c = true) :
    (statementStart [';', '{', '}'] ++ (word "use" ++ q)).ends s =
      q.ends (s.skip (indent ++ "use".toList).length) := by
  have hplace : (atLineStart s.cursor || isAfter [';', '{', '}'] s.cursor) = true := by
    rw [hline, Bool.true_or]
  have hinside : ∀ n < indent.length, (word "use" ++ q).ends (s.skip n) = [] := by
    intro n hn
    obtain ⟨c, hc, r, hafter⟩ := Point.exists_after_skip hs hn
    have hpre : ¬"use".toList <+: c :: r := by
      rintro ⟨t, ht⟩
      obtain ⟨rfl, -⟩ := List.cons.inj ht
      exact absurd (hindent 'u' hc) (by decide)
    rw [ends_append, word, ends_text, hafter, if_neg hpre]
    rfl
  have hstop : ∀ c ∈ ("use".toList ++ rest).head?, isGap c = false := by
    rintro c ⟨⟩
    decide
  rw [statementStart, ends_append_assoc, ends_append, ends]
  rw [if_pos hplace, List.flatMap_singleton, ends_append, gaps0, some0,
    flatMap_ends_run hs hindent hstop (Nat.zero_le _) hinside, ends_append, word,
    ends_text_of_eq (Point.after_skip_of_eq hs), List.flatMap_singleton, Point.skip_skip,
    List.length_append]

end Match

/-- What the part of the match holds. -/
def Use.body (u : Use) : Text := u.list ++ u.trail.val

theorem Use.semicolon_not_mem_body (u : Use) : ';' ∉ u.body := by
  intro h
  rcases List.mem_append.1 h with h | h
  · exact absurd (u.hasOnly_list ';' h (by decide)) (by decide)
  · exact absurd (u.trail.2 ';' h) (by decide)

theorem Use.body_ne_nil (u : Use) : u.body ≠ [] := by
  simp [body, list, u.first.text_ne_nil]

theorem Use.start_body (u : Use) : ∀ c ∈ u.body.head?, (c == '\\' || isWord c) = true := by
  obtain ⟨x, t, hfirst⟩ := List.exists_cons_of_ne_nil u.first.text_ne_nil
  have hstart := u.first.start_text
  unfold body list
  rw [hfirst] at hstart ⊢
  exact hstart

/-- A use statement on a line of its own is matched up to its semicolon, and the part of the match
is its list of clauses. -/
theorem matchAt?_use {a b : Text} (ha : EndsLine a) (indent : Indent) (u : Use) :
    ∃ m, useStatement.pattern.matchAt? (.between a (indent.val ++ u.text ++ b)) = some m ∧
      m.offset = a.length ∧ m.text = indent.val ++ u.text ∧ m.part? .body = some u.body := by
  let s : Point Part := ⟨.between a (indent.val ++ u.text ++ b), []⟩
  have hline : atLineStart s.cursor = true := by
    unfold atLineStart
    rw [Cursor.before_between, List.head?_reverse]
    cases h : a.getLast? with
    | none => rfl
    | some c => simp [ha c h]
  have htext : indent.val ++ u.text ++ b =
      indent.val ++ ("use".toList ++ (u.gap.val ++ (u.body ++ ';' :: b))) := by
    rw [Use.text, Use.body]
    simp only [List.append_assoc, List.singleton_append]
  have hs : s.cursor.after = indent.val ++ "use".toList ++ (u.gap.val ++ (u.body ++ ';' :: b)) := by
    rw [List.append_assoc]
    exact htext
  let s₁ := s.skip (indent.val ++ "use".toList).length
  let s₂ := s₁.skip u.gap.val.length
  have hs₁ : s₁.cursor.after = u.gap.val ++ (u.body ++ ';' :: b) := Point.after_skip_of_eq hs
  have hs₂ : s₂.cursor.after = u.body ++ ';' :: b := Point.after_skip_of_eq hs₁
  have hends : useStatement.pattern.ends s =
      [((s₂.skip u.body.length).mark .body s₂.cursor).skip 1] := by
    have hcut : useStatement.pattern.ends s =
        (statementStart [';', '{', '}'] ++ (word "use" ++ (gaps1 ++ clausesEnd))).ends s := by
      rw [useStatement, ends_append_assoc, ends_append_assoc, ends_append_assoc, clausesEnd]
    rw [hcut, indent_use_ends hline htext indent.2,
      gaps_clausesEnd_ends hs₁ u.gap.2.1 u.gap.2.2 u.start_body u.body_ne_nil,
      clausesEnd_ends hs₂ u.start_body u.body_ne_nil u.semicolon_not_mem_body]
  let stop := ((s₂.skip u.body.length).mark .body s₂.cursor).skip 1
  have hstop : stop.cursor.after = b :=
    Point.after_skip_of_eq (s := (s₂.skip u.body.length).mark .body s₂.cursor) (t := [';'])
      (Point.after_skip_of_eq hs₂)
  have hm : useStatement.pattern.matchAt? s.cursor = some ⟨s.cursor, stop⟩ := by
    rw [matchAt?_eq]
    exact congrArg (fun e => e.head?.map fun stop => (⟨s.cursor, stop⟩ : Match Part)) hends
  have hafter := (after_eq_of_matchAt? hm).1
  rw [hstop] at hafter
  exact ⟨_, hm, Cursor.offset_between _ _, (List.append_cancel_right hafter).symm,
    Point.part?_mark hs₂ rfl _⟩

/-- The match of a use statement imports the vendors of its clauses. -/
theorem names_of_part {u : Use} {m : Match Part} (h : m.part? .body = some u.body) :
    useStatement.names m = u.clauses.map (·.vendor) := by
  rw [← u.map_vendor_topLevelParts]
  simp only [useStatement, Match.partOrEmpty, h, Option.getD_some, Use.body]

end ImportScan.Php
