import ImportScan.Proofs.Lexis.LineEnding
import ImportScan.Proofs.Python.Lines

/-!
# Carriage returns in front of newlines

Where no string in simple quotes is continued behind a backslash, a carriage return in front of
every newline only changes what trails the lines of the cleaned text (`sameLines_crlf`): it trails a
line of code, is blanked at the end of a comment or in a string, and at the end of an open string
may turn a quote that looked like its closing one into a blank. Behind a backslash in code it also
undoes the continuation of the line, so the text imports the same names if no import goes on there
and the next line starts with none (`parse_crlf`).
-/

namespace ImportScan

open Text

/-- Whether the segment is no string in quotes that end with the line, or holds no newline. -/
def Segment.StaysOnLine (lx : Lexis) : Segment → Prop
  | .string opener contents _ => opener ∈ lx.quotes.map Marker.text → '\n' ∉ contents
  | _ => True

instance (lx : Lexis) : (s : Segment) → Decidable (s.StaysOnLine lx)
  | .string opener contents _ => inferInstanceAs (Decidable (opener ∈ _ → '\n' ∉ contents))
  | .code _ => .isTrue trivial
  | .comment _ => .isTrue trivial

namespace Python

open Grammar

variable {c : Char} {m : Marker} {multiline : Bool} {a r t u v w w' : Text}

/-- The text without its comments and what its strings hold. -/
def clean (t : Text) : Text := python.lexis.cleaned .blanked t

/-- No import of the text is continued or stands on a continued line, and no string in simple quotes
is continued. -/
structure LinesApart (t : Text) : Prop where
  code : ImportsApart (clean t)
  strings : ∀ s ∈ python.lexis.segments t, s.StaysOnLine python.lexis

theorem regular : python.lexis.Regular := Parser.regular_lexis (p := .python) rfl

theorem onOneLine_openers : ∀ m ∈ python.lexis.openers, m.text.OnOneLine := by decide

/-! ## Lines with a common part -/

theorem SameLines.append_left (ha : '\n' ∉ a) (h : SameLines w w') :
    SameLines (a ++ w) (a ++ w') := by
  induction a with
  | nil => exact h
  | cons c a ih =>
    exact .cons (fun hc => ha (hc ▸ List.mem_cons_self))
      (ih fun hmem => ha (List.mem_cons_of_mem c hmem))

/-- A character that trails the line in front of its end. -/
theorem SameLines.line_end (hc : isTrailing c = true) (h : SameLines w w') :
    SameLines ('\n' :: w) (c :: '\n' :: w') := by
  have hnil : Trails [] := by decide
  have hone : Trails [c] := by simpa [Trails] using hc
  exact .line hnil hone (List.cons_ne_nil c []) h

theorem SameLines.blanked (v : Text) (h : SameLines w w') :
    SameLines (v.blanked ++ w) ((crlf v).blanked ++ w') := by
  induction v with
  | nil => exact h
  | cons c v ih =>
    by_cases hc : c = '\n'
    · subst hc
      exact ih.line_end (by decide)
    · have hblank (t : Text) : Text.blanked (c :: t) = ' ' :: t.blanked := by
        simp [Text.blanked, hc]
      rw [crlf_cons_of_ne hc, hblank, hblank]
      exact ih.cons (by decide)

/-! ## Segment by segment -/

theorem clean_nil : clean [] = [] := by simp [clean, Lexis.cleaned]

theorem clean_cons (h : ∀ m ∈ python.lexis.openers, c ≠ m.head) (t : Text) :
    clean (c :: t) = c :: clean t :=
  Lexis.cleaned_cons_code _ (Lexis.markerAt?_eq_none_of_head h)

theorem clean_newline (t : Text) : clean ('\n' :: t) = '\n' :: clean t :=
  clean_cons (by decide) t

theorem sameLines_code (hm : python.lexis.markerAt? (c :: t) = none)
    (h : SameLines (clean t) (clean (crlf t))) :
    SameLines (clean (c :: t)) (clean (crlf (c :: t))) := by
  have hclean {t : Text} (hm : python.lexis.markerAt? (c :: t) = none) :
      clean (c :: t) = c :: clean t := Lexis.cleaned_cons_code _ hm
  by_cases hc : c = '\n'
  · subst hc
    rw [crlf_newline_cons, clean_newline, clean_cons (by decide), clean_newline]
    exact h.line_end (by decide)
  · have hcrlf := Lexis.markerAt?_crlf onOneLine_openers (c :: t)
    rw [crlf_cons_of_ne hc] at hcrlf ⊢
    rw [hclean hm, hclean (hcrlf.trans hm)]
    exact h.cons hc

theorem clean_comment (ht : '\n' ∉ t) (hr : ∀ c ∈ r.head?, c = '\n') :
    clean (Marker.hash.text ++ t ++ r) = (Marker.hash.text ++ t).blanked ++ clean r := by
  have hcut := Lexis.segments_lineComment regular (m := .hash) (by decide) ht hr
  rw [clean, Lexis.cleaned, hcut]
  rfl

theorem sameLines_comment (ht : '\n' ∉ t) (hr : ∀ c ∈ r.head?, c = '\n')
    (h : ∀ r', r = '\n' :: r' → SameLines (clean r') (clean (crlf r'))) :
    SameLines (clean (Marker.hash.text ++ t ++ r)) (clean (crlf (Marker.hash.text ++ t ++ r))) := by
  have hself : crlf (Marker.hash.text ++ t) = Marker.hash.text ++ t := by
    rw [crlf_append, crlf_eq_self ht]
    rfl
  have hblank {w w' : Text} (h : SameLines w w') : SameLines ((Marker.hash.text ++ t).blanked ++ w)
      ((Marker.hash.text ++ t).blanked ++ w') := by
    simpa only [hself] using h.blanked (Marker.hash.text ++ t)
  rw [crlf_append, hself]
  cases r with
  | nil =>
    rw [crlf_nil, clean_comment ht hr]
    rw [clean_nil]
    exact hblank .nil
  | cons c r =>
    obtain rfl := hr c rfl
    have hreturn : Marker.hash.text ++ t ++ crlf ('\n' :: r) =
        Marker.hash.text ++ (t ++ ['\r']) ++ '\n' :: crlf r := by simp
    have hend : (Marker.hash.text ++ (t ++ ['\r'])).blanked =
        (Marker.hash.text ++ t).blanked ++ [' '] := by simp [Text.blanked]
    rw [hreturn, clean_comment ht hr, clean_comment (by simpa using ht) (by simp), hend,
      List.append_assoc, clean_newline, clean_newline]
    exact hblank ((h r rfl).line_end rfl)

/-- A quote may trail a line, and so may the blanks in its place. -/
theorem trails_quotes : ∀ q ∈ python.lexis.allQuotes,
    Trails q.text ∧ Trails (q.text.blanked ++ [' ']) := by decide

theorem shown_closed (q : Marker) (t : Text) :
    (Segment.ofString q (q.text ++ (t ++ q.text))).shown .blanked =
      q.text ++ (t.blanked ++ q.text) := by
  rw [Segment.ofString_closed, Segment.shown, List.append_assoc]

theorem shown_open {q : Marker} (h : ¬q.text <:+ t) :
    (Segment.ofString q (q.text ++ t)).shown .blanked = q.text ++ t.blanked := by
  rw [Segment.ofString_open h, Segment.shown, List.append_nil]

theorem sameLines_string (hm : python.lexis.markerAt? (m.text ++ u ++ r) = some m)
    (hquote : m ∈ python.lexis.allQuotes) (ho : python.lexis.opening m = .string multiline)
    (hbody : StringBody m multiline u r) (hu : multiline = false → '\n' ∉ u)
    (h : SameLines (clean r) (clean (crlf r)))
    (h' : ∀ r', r = '\n' :: r' → SameLines (clean r') (clean (crlf r'))) :
    SameLines (clean (m.text ++ u ++ r)) (clean (crlf (m.text ++ u ++ r))) := by
  have hq := onOneLine_openers m (Lexis.mem_openers_of_mem_allQuotes hquote)
  have hback := regular.quote_unescaped m hquote
  obtain ⟨htrails, hblanks⟩ := trails_quotes m hquote
  have hclean {u r : Text} (hm : python.lexis.markerAt? (m.text ++ u ++ r) = some m)
      (hbody : StringBody m multiline u r) : clean (m.text ++ u ++ r) =
        (Segment.ofString m (m.text ++ u)).shown .blanked ++ clean r := by
    rw [clean, Lexis.cleaned, hbody.segments hm ho hq hback]
    rfl
  have hcrlf := (Lexis.markerAt?_crlf onOneLine_openers _).trans hm
  rw [crlf_append, crlf_append, crlf_eq_self hq.2] at hcrlf ⊢
  rw [hclean hm hbody]
  rcases stringBody_crlf hbody hq hu with hbody' | ⟨hline, r', rfl, hbody'⟩
  · rw [hclean hcrlf hbody']
    by_cases hclosed : m.text <:+ u
    · obtain ⟨t, rfl⟩ := hclosed
      rw [crlf_append, crlf_eq_self hq.2, shown_closed, shown_closed]
      simp only [List.append_assoc]
      exact ((h.append_left hq.2).blanked t).append_left hq.2
    · rw [shown_open hclosed, shown_open (mt hq.suffix_crlf_iff.1 hclosed), List.append_assoc,
        List.append_assoc]
      exact (h.blanked u).append_left hq.2
  · -- the carriage return is part of the string, and no quote of it comes last any more
    have hshape : m.text ++ crlf u ++ crlf ('\n' :: r') =
        m.text ++ (u ++ ['\r']) ++ '\n' :: crlf r' := by
      rw [crlf_eq_self (hu hline)]
      simp
    have hopen : ¬m.text <:+ u ++ ['\r'] := by
      intro hsuffix
      obtain ⟨v, hv, -⟩ := (List.suffix_concat_iff.1 hsuffix).resolve_left (List.cons_ne_nil _ _)
      exact hq.1 (hv ▸ List.mem_append_right v List.mem_cons_self)
    have hblanked : (u ++ ['\r']).blanked = u.blanked ++ [' '] := by simp [Text.blanked]
    rw [hshape] at hcrlf ⊢
    rw [hclean hcrlf hbody', shown_open hopen, hblanked, clean_newline, clean_newline]
    have hrest := h' r' rfl
    by_cases hclosed : m.text <:+ u
    · obtain ⟨t, rfl⟩ := hclosed
      have ht : '\n' ∉ t := fun hmem => hu hline (List.mem_append_left _ hmem)
      have hend := (SameLines.line htrails hblanks (by simp) hrest).blanked t
      rw [crlf_eq_self ht] at hend
      rw [shown_closed]
      simpa [Text.blanked] using hend.append_left hq.2
    · have hend := (hrest.line_end (c := ' ') rfl).blanked u
      rw [crlf_eq_self (hu hline)] at hend
      rw [shown_open hclosed]
      simpa using hend.append_left hq.2

/-! ## Whole texts -/

theorem segments_newline (t : Text) :
    python.lexis.segments ('\n' :: t) = .code '\n' :: python.lexis.segments t :=
  Lexis.segments_cons_code (Lexis.markerAt?_eq_none_of_head (by decide))

/-- The body of a string that stays on its line holds no newline. -/
theorem notMem_of_staysOnLine (hm : m ∈ python.lexis.quotes)
    (h : (Segment.ofString m (m.text ++ u)).StaysOnLine python.lexis) : '\n' ∉ u := by
  have hopener : m.text ∈ python.lexis.quotes.map Marker.text := List.mem_map_of_mem hm
  by_cases hclosed : m.text <:+ u
  · obtain ⟨t, rfl⟩ := hclosed
    rw [Segment.ofString_closed] at h
    have hq := onOneLine_openers m
      (Lexis.mem_openers_of_mem_allQuotes (List.mem_append_left _ hm))
    exact List.not_mem_append (h hopener) hq.2
  · rw [Segment.ofString_open hclosed] at h
    exact h hopener

theorem hash_or_quote :
    ∀ m ∈ python.lexis.openers, m = .hash ∨ m ∈ python.lexis.allQuotes := by decide

theorem exists_line (t : Text) :
    ∃ v r, t = v ++ r ∧ '\n' ∉ v ∧ ∀ c ∈ r.head?, c = '\n' := by
  induction t with
  | nil => exact ⟨[], [], rfl, by simp, by simp⟩
  | cons c t ih =>
    by_cases hc : c = '\n'
    · exact ⟨[], c :: t, rfl, by simp, by simpa using hc⟩
    · obtain ⟨v, r, rfl, hv, hr⟩ := ih
      exact ⟨c :: v, r, rfl, by simp [Ne.symm hc, hv], hr⟩

/-- A carriage return in front of every newline changes what trails the lines, and nothing else. -/
theorem sameLines_crlf (h : ∀ s ∈ python.lexis.segments t, s.StaysOnLine python.lexis) :
    SameLines (clean t) (clean (crlf t)) := by
  induction hn : t.length using Nat.strongRecOn generalizing t with
  | ind n ih =>
    have hbehind {r : Text} (hlt : r.length < n)
        (h : ∀ s ∈ python.lexis.segments r, s.StaysOnLine python.lexis) :
        SameLines (clean r) (clean (crlf r)) ∧
          ∀ r', r = '\n' :: r' → SameLines (clean r') (clean (crlf r')) := by
      refine ⟨ih _ hlt h rfl, ?_⟩
      rintro r' rfl
      rw [segments_newline] at h
      exact ih _ (Nat.lt_of_succ_lt hlt) (fun s hs => h s (List.mem_cons_of_mem _ hs)) rfl
    cases hm : python.lexis.markerAt? t with
    | none =>
      cases t with
      | nil =>
        rw [crlf_nil, clean_nil]
        exact .nil
      | cons c t =>
        rw [Lexis.segments_cons_code hm] at h
        exact sameLines_code hm (hbehind (by simp [← hn])
          fun s hs => h s (List.mem_cons_of_mem _ hs)).1
    | some m =>
      obtain ⟨hmem, hopens, -⟩ := Lexis.markerAt?_eq_some_iff.1 hm
      obtain ⟨body, rfl⟩ := Marker.opens_iff.1 hopens
      have hpos := m.length_pos
      rcases hash_or_quote m hmem with rfl | hquote
      · obtain ⟨v, r, rfl, hv, hr⟩ := exists_line body
        rw [← List.append_assoc] at h hn ⊢
        rw [Lexis.segments_lineComment regular (by decide) hv hr] at h
        simp only [List.length_append, Marker.length_text] at hn
        exact sameLines_comment hv hr (hbehind (by omega)
          fun s hs => h s (List.mem_cons_of_mem _ hs)).2
      · have ho := Lexis.opening_quote regular hquote
        obtain ⟨u, r, rfl, hbody⟩ := exists_stringBody m (m ∈ python.lexis.multilineQuotes) body
        rw [← List.append_assoc] at h hm hn ⊢
        rw [hbody.segments hm ho (onOneLine_openers m hmem) (regular.quote_unescaped m hquote)] at h
        simp only [List.length_append, Marker.length_text] at hn
        have hu : decide (m ∈ python.lexis.multilineQuotes) = false → '\n' ∉ u := by
          intro hline
          have hsimple := (List.mem_append.1 hquote).resolve_right (of_decide_eq_false hline)
          exact notMem_of_staysOnLine hsimple (h _ List.mem_cons_self)
        obtain ⟨hrest, hrest'⟩ := hbehind (r := r) (by omega)
          fun s hs => h s (List.mem_cons_of_mem _ hs)
        exact sameLines_string hm hquote ho hbody hu hrest hrest'

theorem imports_eq_namesOf (h : ImportsApart (clean t)) : python.imports t = namesOf (clean t) :=
  (imports_eq_namesIn python t).trans (namesIn_plain h _ _)

/-- **Line endings**: carriage returns in front of the newlines make no difference to the names
found in a text, unless an import is continued or stands on a continued line, or a string in simple
quotes is continued. -/
theorem parse_crlf (h : LinesApart t) : Parser.python.parse (crlf t) = Parser.python.parse t := by
  have hlines := sameLines_crlf h.strings
  rw [Parser.parse_eq_imports (g := python) rfl, Parser.parse_eq_imports (g := python) rfl,
    imports_eq_namesOf h.code, imports_eq_namesOf (.of_uncontinued hlines.uncontinued),
    namesOf_eq_of_sameLines hlines]

/-- Continued lines that no import is part of, a comment that ends in a backslash, an open string
that ends in an escaped quote, and a string whose lines are continued. -/
theorem parse_crlf_quoted :
    let t := ("import a # \\\nimport b\nc = 1 + \\\n  2\nraise d \\\n  from e\nf = 'g\\'\n" ++
      "from h import i; j = \"\"\"\\\n\"\"\"").toList
    LinesApart t ∧ Parser.python.parse (crlf t) = Parser.python.parse t := by
  intro t
  have hwithin : ∀ f ∈ python.statements, ∀ m ∈ f.pattern.matchesIn (clean t), '\\' ∉ m.text := by
    decide +kernel
  have hbehind : ∀ b ∈ continuedLines (clean t), ∀ f ∈ python.statements,
      (f.pattern.matchAt? (.atStart b)).isNone = true := by decide +kernel
  have happart : ImportsApart (clean t) :=
    ⟨hwithin, fun b hb f hf => Option.isNone_iff_eq_none.1 (hbehind b hb f hf)⟩
  have h : LinesApart t := ⟨happart, by decide +kernel⟩
  exact ⟨h, parse_crlf h⟩

end Python
end ImportScan
