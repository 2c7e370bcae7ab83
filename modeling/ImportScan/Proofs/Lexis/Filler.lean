import ImportScan.Lexis.Marks
import ImportScan.Proofs.Lexis.Token
import ImportScan.Proofs.Lexis.Transparency
import ImportScan.Proofs.Text.HasWord

/-!
# What stands between statements

Between the statements of a language that comments with slashes stand spaces, tabs, newlines and
comments, in any order and with nothing in between (`Filler`). Cleaning takes a filler off a text
whole, whatever follows it, and leaves layout in its place, whatever its comments say
(`cleaned_filler_append`). Layout ends with the indentation of a line (`IsLayout.exists_line`).
-/

namespace ImportScan

/-- The lexis of Go and of JavaScript: comments with slashes, strings also between grave accents. -/
def Lexis.slashedRaw : Lexis := { Lexis.slashed with multilineQuotes := [.backquote] }

/-! ## Layout -/

/-- The text is made of spaces, tabs and newlines. -/
def Text.IsLayout (t : Text) : Prop := ∀ c ∈ t, isGap c = true ∨ c = '\n'

namespace Text.IsLayout

variable {t u : Text}

theorem append (ht : IsLayout t) (hu : IsLayout u) : IsLayout (t ++ u) := by
  intro c hc
  rcases List.mem_append.1 hc with hc | hc
  · exact ht c hc
  · exact hu c hc

theorem blanked (t : Text) : IsLayout t.blanked := by
  intro c hc
  rcases Text.mem_blanked hc with rfl | rfl
  · exact .inl rfl
  · exact .inr rfl

theorem allBlank (ht : IsLayout t) : AllBlank t := by
  intro c hc
  rcases ht c hc with h | rfl
  · exact isBlank_of_isGap h
  · decide

theorem not_mem (ht : IsLayout t) {x : Char} (hgap : isGap x = false) (hline : x ≠ '\n') :
    x ∉ t := by
  intro h
  rcases ht x h with hx | hx
  · rw [hx] at hgap
    cases hgap
  · exact hline hx

/-- Layout ends with the indentation of a line, unless it has none. -/
theorem exists_line (ht : IsLayout t) :
    ∃ lines indent, t = lines ++ indent ∧ (∀ c ∈ indent, isGap c = true) ∧ IsLayout lines ∧
      (∀ c ∈ lines.getLast?, c = '\n') ∧ ('\n' ∈ t → lines ≠ []) := by
  induction t with
  | nil => exact ⟨[], [], rfl, by simp, by simp [IsLayout], by simp, by simp⟩
  | cons x t ih =>
    obtain ⟨lines, indent, rfl, hindent, hlayout, hlast, hne⟩ :=
      ih fun c hc => ht c (List.mem_cons_of_mem x hc)
    have hx := ht x List.mem_cons_self
    by_cases hlines : lines = []
    · -- `x` starts the last line or ends the one before it
      subst hlines
      rcases hx with hx | rfl
      · refine ⟨[], x :: indent, rfl, ?_, hlayout, hlast, ?_⟩
        · intro c hc
          rcases List.mem_cons.1 hc with rfl | hc
          · exact hx
          · exact hindent c hc
        · intro hmem
          rcases List.mem_cons.1 hmem with rfl | hmem
          · cases hx
          · exact absurd rfl (hne hmem)
      · exact ⟨['\n'], indent, rfl, hindent, by simp [IsLayout], by simp, by simp⟩
    · refine ⟨x :: lines, indent, rfl, hindent, ?_, ?_, by simp⟩
      · intro c hc
        rcases List.mem_cons.1 hc with rfl | hc
        · exact hx
        · exact hlayout c hc
      · intro c hc
        rw [List.getLast?_cons_of_ne_nil hlines] at hc
        exact hlast c hc

end Text.IsLayout

/-! ## Fillers -/

/-- What a comment up to the end of its line may say. -/
abbrev LineText := { t : Text // '\n' ∉ t }

/-- What a comment between slashes and stars may say. -/
abbrev BlockText := { t : Text // ¬Marker.starSlash.text <:+: t }

/-- The comment that says the text up to the end of its line. -/
def LineText.comment (t : LineText) : Text := Marker.slashes.text ++ t.val

/-- The comment that says the text between its marks. -/
def BlockText.comment (t : BlockText) : Text :=
  Marker.slashStar.text ++ (t.val ++ Marker.starSlash.text)

/-- A character of layout, or a comment, that of a line with its newline. -/
inductive FillerPiece where
  | blank (c : Char) (h : Text.isGap c = true ∨ c = '\n')
  | line (t : LineText)
  | block (t : BlockText)

namespace FillerPiece

/-- The piece as it is written. -/
def text : FillerPiece → Text
  | blank c _ => [c]
  | line t => t.comment ++ ['\n']
  | block t => t.comment

/-- What cleaning leaves of the piece. -/
def layout : FillerPiece → Text
  | blank c _ => [c]
  | line t => t.comment.blanked ++ ['\n']
  | block t => t.comment.blanked

theorem isLayout_layout (p : FillerPiece) : p.layout.IsLayout := by
  cases p with
  | blank c h =>
    intro d hd
    obtain rfl : d = c := List.mem_singleton.1 hd
    exact h
  | line t =>
    apply (Text.IsLayout.blanked t.comment).append
    intro d hd
    exact .inr (List.mem_singleton.1 hd)
  | block t => exact Text.IsLayout.blanked t.comment

end FillerPiece

/-- Layout and comments. -/
abbrev Filler := List FillerPiece

namespace Filler

/-- The filler as it is written. -/
def text (f : Filler) : Text := f.flatMap FillerPiece.text

/-- What cleaning leaves of the filler. -/
def layout (f : Filler) : Text := f.flatMap FillerPiece.layout

theorem isLayout_layout (f : Filler) : f.layout.IsLayout := by
  intro c hc
  obtain ⟨p, -, hc⟩ := List.mem_flatMap.1 hc
  exact p.isLayout_layout c hc

end Filler

/-- What a text ends with: a filler, and perhaps a comment on a line that no newline ends. -/
structure Ending where
  filler : Filler
  comment : Option LineText

namespace Ending

variable (e : Ending)

/-- The ending as it is written. -/
def text : Text := e.filler.text ++ (e.comment.map LineText.comment).getD []

/-- What cleaning leaves of the ending. -/
def layout : Text := e.filler.layout ++ (e.comment.map fun t => t.comment.blanked).getD []

theorem isLayout_layout : e.layout.IsLayout := by
  apply e.filler.isLayout_layout.append
  cases e.comment with
  | none => exact fun c hc => nomatch hc
  | some t => exact Text.IsLayout.blanked t.comment

end Ending

/-! ## Cutting a filler off -/

/-- The closer of a block comment does not come up in it early. -/
theorem BlockText.not_opens (t : BlockText) {k : Nat} (hk : k < t.val.length) :
    Marker.starSlash.opens ((t.val ++ Marker.starSlash.text).drop k) = false := by
  have hdrop : (t.val ++ Marker.starSlash.text).drop k =
      t.val.drop k ++ Marker.starSlash.text := List.drop_append_of_le_length (Nat.le_of_lt hk)
  refine Decidable.byContradiction fun hopens => ?_
  rw [Bool.not_eq_false, Marker.opens_iff, hdrop] at hopens
  have hcut := List.drop_eq_getElem_cons hk
  cases hrest : t.val.drop (k + 1) with
  | nil =>
    -- its slash would be a star
    rw [hcut, hrest] at hopens
    revert hopens
    simp [Marker.starSlash, Marker.text]
  | cons y rest =>
    rw [hcut, hrest] at hopens
    refine t.2 ⟨t.val.take k, rest, ?_⟩
    obtain ⟨r, hr⟩ := hopens
    simp only [Marker.text, Marker.starSlash, List.cons_append, List.nil_append] at hr ⊢
    obtain ⟨hx, hr⟩ := List.cons.inj hr
    obtain ⟨hy, -⟩ := List.cons.inj hr
    rw [hrest, ← hx, ← hy] at hcut
    rw [List.append_assoc, List.cons_append, List.cons_append, List.nil_append, ← hcut,
      List.take_append_drop]

namespace Lexis

theorem regular_slashedRaw : slashedRaw.Regular := Parser.regular_lexis (p := .go) rfl

variable (contents : StringContents) {rest : Text}

theorem cleaned_lineComment_append (t : LineText) (hrest : ∀ c ∈ rest.head?, c = '\n') :
    slashedRaw.cleaned contents (t.comment ++ rest) =
      t.comment.blanked ++ slashedRaw.cleaned contents rest := by
  rw [cleaned, LineText.comment,
    segments_lineComment regular_slashedRaw (by decide) t.2 hrest, List.flatMap_cons]
  rfl

theorem cleaned_blockComment_append (t : BlockText) :
    slashedRaw.cleaned contents (t.comment ++ rest) =
      t.comment.blanked ++ slashedRaw.cleaned contents rest := by
  rw [cleaned, BlockText.comment,
    segments_blockComment regular_slashedRaw rfl (by decide) fun k hk => t.not_opens hk,
    List.flatMap_cons]
  rfl

end Lexis

/-! ## Code -/

namespace Text

/-- No comment and no string starts in code. -/
def IsCode (t : Text) : Prop := ∀ c ∈ t, ∀ m ∈ Lexis.slashedRaw.openers, c ≠ m.head

instance (t : Text) : Decidable (IsCode t) := inferInstanceAs (Decidable (∀ c ∈ t, _))

theorem IsCode.append {t u : Text} (ht : IsCode t) (hu : IsCode u) : IsCode (t ++ u) := by
  intro c hc
  rcases List.mem_append.1 hc with hc | hc
  · exact ht c hc
  · exact hu c hc

/-- A class without the starts of comments and strings makes code. -/
theorem isCode_of_class {p : Char → Bool} {t : Text}
    (hp : ∀ m ∈ Lexis.slashedRaw.openers, p m.head = false) (h : ∀ c ∈ t, p c = true) :
    IsCode t := by
  rintro c hc m hm rfl
  have := h m.head hc
  rw [hp m hm] at this
  cases this

theorem isCode_of_isWord {t : Text} (h : ∀ c ∈ t, isWord c = true) : IsCode t :=
  isCode_of_class (by decide) h

theorem isCode_of_allBlank {t : Text} (h : AllBlank t) : IsCode t :=
  isCode_of_class (p := isBlank) (by decide) h

/-- No string starts the text. -/
def StartsUnquoted (t : Text) : Prop :=
  ∀ c ∈ t.head?, ∀ q ∈ Lexis.slashedRaw.allQuotes, c ≠ q.head

theorem startsUnquoted_cons {c : Char} (h : ∀ q ∈ Lexis.slashedRaw.allQuotes, c ≠ q.head)
    (t : Text) : StartsUnquoted (c :: t) := by
  rintro d ⟨⟩
  exact h

theorem StartsUnquoted.code_append {t u : Text} (ht : IsCode t) (hu : StartsUnquoted u) :
    StartsUnquoted (t ++ u) := by
  cases t with
  | nil => exact hu
  | cons c t =>
    apply startsUnquoted_cons
    intro q hq
    exact ht c List.mem_cons_self q (Lexis.mem_openers_of_mem_allQuotes hq)

/-- A filler with anything in it starts no string. -/
theorem startsUnquoted_filler {f : Filler} (hf : f ≠ []) (rest : Text) :
    StartsUnquoted (f.text ++ rest) := by
  obtain ⟨p, f, rfl⟩ := List.exists_cons_of_ne_nil hf
  cases p with
  | blank c h =>
    apply startsUnquoted_cons
    intro q hq
    have hcode := isCode_of_allBlank (FillerPiece.isLayout_layout (.blank c h)).allBlank
    exact hcode c List.mem_cons_self q (Lexis.mem_openers_of_mem_allQuotes hq)
  | line t => exact startsUnquoted_cons (by decide) _
  | block t => exact startsUnquoted_cons (by decide) _

theorem startsUnquoted_filler_append (f : Filler) {rest : Text} (hrest : StartsUnquoted rest) :
    StartsUnquoted (f.text ++ rest) := by
  by_cases hf : f = []
  · subst hf
    exact hrest
  · exact startsUnquoted_filler hf rest

theorem startsUnquoted_ending (e : Ending) : StartsUnquoted e.text := by
  apply startsUnquoted_filler_append
  cases e.comment with
  | none => exact fun c hc => nomatch hc
  | some t => exact startsUnquoted_cons (by decide) _

end Text

/-! ## Cleaning strings and fillers -/

namespace Lexis

variable (contents : StringContents) {rest : Text}

/-- A string on one line, between single marks and without backslashes, is taken off as one. -/
theorem cleaned_plainString_append {q : Marker} {t : Text} (hq : q ∈ slashedRaw.allQuotes)
    (htext : q.text = [q.head]) (ht : ∀ c ∈ t, c ≠ q.head ∧ c ≠ '\\' ∧ c ≠ '\n')
    (hrest : rest.StartsUnquoted) :
    slashedRaw.cleaned contents (q.head :: (t ++ [q.head]) ++ rest) =
      Segment.shown contents (.string [q.head] t [q.head]) ++ slashedRaw.cleaned contents rest := by
  have hfits : ∀ c ∈ t, (StringUnit.plain c).FitsIn q (q ∈ slashedRaw.multilineQuotes) := by
    intro c hc
    obtain ⟨hquote, hback, hline⟩ := ht c hc
    refine ⟨?_, hback, fun _ => hline⟩
    rwa [htext, List.mem_singleton]
  have hsegments := segments_plainString regular_slashedRaw hq hfits fun c hc => hrest c hc q hq
  rw [htext] at hsegments
  rw [cleaned, ← List.singleton_append, hsegments, List.flatMap_cons, cleaned]

/-- A filler becomes layout, whatever follows it. -/
theorem cleaned_filler_append (f : Filler) (rest : Text) :
    slashedRaw.cleaned contents (f.text ++ rest) =
      f.layout ++ slashedRaw.cleaned contents rest := by
  have hpiece (p : FillerPiece) (rest : Text) : slashedRaw.cleaned contents (p.text ++ rest) =
      p.layout ++ slashedRaw.cleaned contents rest := by
    cases p with
    | blank c h =>
      apply cleaned_code_append
      exact Text.isCode_of_allBlank (FillerPiece.isLayout_layout (.blank c h)).allBlank
    | line t =>
      have hline : Text.IsLayout ['\n'] := fun c hc => .inr (List.mem_singleton.1 hc)
      rw [FillerPiece.text, FillerPiece.layout, List.append_assoc, List.append_assoc,
        cleaned_lineComment_append contents t (by simp),
        cleaned_code_append (Text.isCode_of_allBlank hline.allBlank)]
    | block t => exact cleaned_blockComment_append contents t
  induction f with
  | nil => rfl
  | cons p f ih =>
    have htext : Filler.text (p :: f) = p.text ++ Filler.text f := List.flatMap_cons
    have hlayout : Filler.layout (p :: f) = p.layout ++ Filler.layout f := List.flatMap_cons
    rw [htext, hlayout, List.append_assoc, List.append_assoc, hpiece, ih]

theorem cleaned_ending (e : Ending) : slashedRaw.cleaned contents e.text = e.layout := by
  unfold Ending.text Ending.layout
  rw [cleaned_filler_append]
  congr 1
  cases e.comment with
  | none => exact cleaned_nil contents slashedRaw
  | some t =>
    have hrest : ∀ c ∈ ([] : Text).head?, c = '\n' := by simp
    have h := cleaned_lineComment_append contents t hrest
    rw [List.append_nil, cleaned_nil, List.append_nil] at h
    exact h

end Lexis
end ImportScan
