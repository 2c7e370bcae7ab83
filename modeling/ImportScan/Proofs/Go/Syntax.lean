import ImportScan.Proofs.Lexis.Filler
import ImportScan.Proofs.Text.HasWord

/-!
# Import declarations of Go

A list of import specs can be written in two ways: as one group in parentheses, a spec to a line, or
as single imports, one to a line. Comments stand where the lines do not say otherwise: in front of
the first spec, between two specs, and behind the last. Cleaning leaves both writings as they are,
except for the comments (`cleaned_list_append`).
-/

namespace ImportScan.Go

open Text

/-! ## Specs -/

/-- The other name under which a package is imported. -/
inductive Alias where
  | dot
  | word (w : Word) (h : w.val ≠ "import".toList)

/-- The other name as it is written. -/
def Alias.text : Alias → Text
  | dot => ['.']
  | word w _ => w.val

/-- The quotes that a path may stand in. -/
inductive Quote where
  | double
  | back

/-- The marker that the quote is for its language. -/
def Quote.marker : Quote → Marker
  | double => .doubleQuote
  | back => .backquote

/-- The quote itself. -/
def Quote.char (q : Quote) : Char := q.marker.head

/-- What a path does not have, besides white space. -/
def pathMarks : Text := ['"', '\'', backquote, '\\', ')']

/-- A path without white space, quotes and what has a meaning in them. -/
abbrev Path := { t : Text // ∀ c ∈ t, isBlank c = false ∧ c ∉ pathMarks }

/-- What one import says: perhaps another name, and a quoted path. -/
structure Spec where
  newName : Option (Alias × Gaps)
  quote : Quote
  path : Path

namespace Spec

variable (s : Spec)

/-- The alias and the gap behind it. -/
def newNameText : Text := match s.newName with
  | none => []
  | some (name, gap) => name.text ++ gap.val

/-- The path in its quotes. -/
def literal : Text := s.quote.char :: (s.path.val ++ [s.quote.char])

/-- The spec as it is written. -/
def text : Text := s.newNameText ++ s.literal

/-- The spec behind `before` as its language reads it. -/
def segments (before : Text) : List Segment :=
  (before ++ s.newNameText).map .code ++ [.string [s.quote.char] s.path.val [s.quote.char]]

theorem showAll_segments (contents : StringContents) (before : Text) :
    Segment.showAll contents (s.segments before) = before ++ s.newNameText ++
      Segment.shown contents (.string [s.quote.char] s.path.val [s.quote.char]) := by
  rw [segments, Segment.showAll_append, Segment.showAll_code, Segment.showAll_singleton]

end Spec

/-! ## Lists of specs -/

/-- What stands between two specs; it has the end of a line. -/
abbrev Break := { f : Filler // '\n' ∈ f.layout }

/-- A further spec and what stands between it and the one before. -/
structure Further where
  sep : Break
  spec : Spec

/-- The specs of one or several imports, at least one. -/
structure Specs where
  lead : Filler
  first : Spec
  others : List Further

namespace Specs

variable (s : Specs)

/-- The specs, each behind `before`. -/
def list (before : Text) : Text :=
  s.lead.text ++ ((before ++ s.first.text) ++
    s.others.flatMap fun f => f.sep.val.text ++ (before ++ f.spec.text))

/-- The specs as one group. -/
def group (front : Filler) (gap : Indent) (trail : Filler) (e : Ending) : Text :=
  front.text ++ ("import".toList ++ (gap.val ++ ['('])) ++
    (s.list [] ++ (trail.text ++ ([')'] ++ e.text)))

/-- The specs as single imports. -/
def singles (gap : Gaps) (e : Ending) : Text :=
  s.list ("import".toList ++ gap.val) ++ e.text

/-- The paths, in order. -/
def paths : List Text := s.first.path.val :: s.others.map (·.spec.path.val)

end Specs

/-! ## What cleaning leaves -/

variable {before rest : Text}

theorem Quote.marker_mem (q : Quote) : q.marker ∈ Lexis.slashedRaw.allQuotes := by
  cases q <;> decide

theorem Quote.text_marker (q : Quote) : q.marker.text = [q.char] := by
  cases q <;> rfl

theorem Quote.not_isGap (q : Quote) : isGap q.char = false := by
  cases q <;> decide

theorem Quote.char_not_mem (q : Quote) (p : Path) : q.char ∉ p.val := by
  intro h
  have hmark : q.char ∈ pathMarks := by cases q <;> decide
  exact (p.2 q.char h).2 hmark

/-- A name is made of word characters, or is a dot. -/
theorem Alias.dotted (a : Alias) : a.text ≠ [] ∧ ∀ c ∈ a.text, isDotted c = true := by
  cases a with
  | dot => decide
  | word w h => exact ⟨w.2.1, fun c hc => isDotted_of_isWord (w.2.2 c hc)⟩

theorem Spec.of_mem_newNameText (s : Spec) {c : Char} (hc : c ∈ s.newNameText) :
    isDotted c = true ∨ isGap c = true := by
  unfold newNameText at hc
  cases hname : s.newName with
  | none =>
    rw [hname] at hc
    cases hc
  | some n =>
    obtain ⟨name, gap⟩ := n
    rw [hname] at hc
    rcases List.mem_append.1 hc with hc | hc
    · exact .inl (name.dotted.2 c hc)
    · exact .inr (gap.2.2 c hc)

theorem Spec.isCode_newNameText (s : Spec) : IsCode s.newNameText := by
  refine isCode_of_class (p := fun c => isDotted c || isGap c) (by decide) fun c hc => ?_
  rw [Bool.or_eq_true]
  exact s.of_mem_newNameText hc

theorem Spec.not_mem_text (s : Spec) {x : Char} (hdotted : isDotted x = false)
    (hgap : isGap x = false) (hquote : ∀ q : Quote, x ≠ q.char) (hpath : x ∉ s.path.val) :
    x ∉ s.text := by
  have hliteral : x ∉ s.literal := by
    rw [literal, List.mem_cons, List.mem_append, List.mem_singleton]
    rintro (h | h | h)
    · exact hquote _ h
    · exact hpath h
    · exact hquote _ h
  rw [text, List.mem_append]
  rintro (h | h)
  · rcases s.of_mem_newNameText h with hx | hx
    · exact absurd hx (by simp [hdotted])
    · exact absurd hx (by simp [hgap])
  · exact hliteral h

variable (contents : StringContents)

theorem Spec.cleaned_append (s : Spec) (hbefore : IsCode before) (hrest : StartsUnquoted rest) :
    Lexis.slashedRaw.cleaned contents (before ++ s.text ++ rest) =
      Segment.showAll contents (s.segments before) ++ Lexis.slashedRaw.cleaned contents rest := by
  have hpath : ∀ c ∈ s.path.val, c ≠ s.quote.marker.head ∧ c ≠ '\\' ∧ c ≠ '\n' := by
    intro c hc
    obtain ⟨hblank, hmark⟩ := s.path.2 c hc
    refine ⟨?_, ?_, ?_⟩ <;> rintro rfl
    · exact s.quote.char_not_mem s.path hc
    · exact hmark (by decide)
    · exact absurd hblank (by decide)
  have hliteral : Lexis.slashedRaw.cleaned contents (s.literal ++ rest) =
      Segment.shown contents (.string [s.quote.char] s.path.val [s.quote.char]) ++
        Lexis.slashedRaw.cleaned contents rest :=
    Lexis.cleaned_plainString_append contents s.quote.marker_mem s.quote.text_marker hpath hrest
  have htext : before ++ s.text ++ rest = (before ++ s.newNameText) ++ (s.literal ++ rest) := by
    simp only [text, List.append_assoc]
  rw [htext, Lexis.cleaned_code_append (hbefore.append s.isCode_newNameText), hliteral,
    s.showAll_segments]
  simp only [List.append_assoc]

theorem startsUnquoted_break (b : Break) (rest : Text) :
    StartsUnquoted (b.val.text ++ rest) := by
  apply startsUnquoted_filler
  intro h
  have := b.2
  rw [h] at this
  cases this

/-- Further specs, each behind `before`, as their language reads them. -/
def furtherSegments (before : Text) (others : List Further) : List Segment :=
  others.flatMap fun f => f.sep.val.layout.map .code ++ f.spec.segments before

/-- The specs, each behind `before`, as their language reads them. -/
def Specs.segments (before : Text) (s : Specs) : List Segment :=
  s.lead.layout.map .code ++ (s.first.segments before ++ furtherSegments before s.others)

theorem cleaned_others_append (hbefore : IsCode before) (hrest : StartsUnquoted rest)
    (others : List Further) :
    StartsUnquoted ((others.flatMap fun f => f.sep.val.text ++ (before ++ f.spec.text)) ++ rest) ∧
      Lexis.slashedRaw.cleaned contents
          ((others.flatMap fun f => f.sep.val.text ++ (before ++ f.spec.text)) ++ rest) =
        Segment.showAll contents (furtherSegments before others) ++
          Lexis.slashedRaw.cleaned contents rest := by
  induction others with
  | nil => exact ⟨hrest, rfl⟩
  | cons f others ih =>
    obtain ⟨hnext, ih⟩ := ih
    have htext (more : Text) : ((f :: others).flatMap fun f =>
          f.sep.val.text ++ (before ++ f.spec.text)) ++ more =
        f.sep.val.text ++ (before ++ f.spec.text ++ ((others.flatMap fun f =>
          f.sep.val.text ++ (before ++ f.spec.text)) ++ more)) := by
      simp only [List.flatMap_cons, List.append_assoc]
    have hsegments : furtherSegments before (f :: others) =
        f.sep.val.layout.map .code ++ (f.spec.segments before ++
          furtherSegments before others) := by
      simp only [furtherSegments, List.flatMap_cons, List.append_assoc]
    rw [htext]
    refine ⟨startsUnquoted_break _ _, ?_⟩
    rw [Lexis.cleaned_filler_append, f.spec.cleaned_append contents hbefore hnext, ih, hsegments,
      Segment.showAll_append, Segment.showAll_append, Segment.showAll_code]
    simp only [List.append_assoc]

/-- Cleaning a list of specs touches only its comments and the contents of its strings. -/
theorem Specs.cleaned_list_append (s : Specs) (hbefore : IsCode before)
    (hrest : StartsUnquoted rest) :
    Lexis.slashedRaw.cleaned contents (s.list before ++ rest) =
      Segment.showAll contents (s.segments before) ++ Lexis.slashedRaw.cleaned contents rest := by
  obtain ⟨hnext, hothers⟩ := cleaned_others_append contents hbefore hrest s.others
  rw [list, List.append_assoc, Lexis.cleaned_filler_append, List.append_assoc,
    s.first.cleaned_append contents hbefore hnext, hothers, segments, Segment.showAll_append,
    Segment.showAll_append, Segment.showAll_code]
  simp only [List.append_assoc]

end ImportScan.Go
