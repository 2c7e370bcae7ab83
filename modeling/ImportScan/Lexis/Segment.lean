import ImportScan.Lexis.Extent

/-!
# Texts cut into code, comments and strings

`Lexis.segments` cuts a text, from left to right, into characters of code, comments and strings.
`Segment.shown` is a segment with its comments blanked, and its string contents too if asked: every
character but a newline becomes a space, so offsets and lines stay. Main statements: the segments of
a text put together give the text (`source_segments`), and blanking keeps its length
(`length_cleaned`).
-/

namespace ImportScan

/-- A part of a text as its language reads it. -/
inductive Segment where
  /-- A character outside comments and strings. -/
  | code (c : Char)
  /-- A comment with its markers. -/
  | comment (text : Text)
  /-- A string: its opening quote, its contents, and its closing quote, empty if it has none. -/
  | string (opener contents closer : Text)
deriving DecidableEq, Repr

/-- What becomes of the contents of strings. -/
inductive StringContents where
  | kept
  | blanked
deriving DecidableEq, Repr

/-- The text with every character but newlines replaced by a space. -/
def Text.blanked (t : Text) : Text := t.map fun c => if c = '\n' then '\n' else ' '

namespace Segment

/-- The text that the segment was cut from. -/
def source : Segment → Text
  | .code c => [c]
  | .comment t => t
  | .string opener contents closer => opener ++ contents ++ closer

/-- The segment with comments blanked, and the contents of strings as told. -/
def shown (contents : StringContents) : Segment → Text
  | .code c => [c]
  | .comment t => t.blanked
  | .string opener t closer => match contents with
    | .kept => opener ++ t ++ closer
    | .blanked => opener ++ t.blanked ++ closer

/-- The string in `span`, which starts with its quote. The closing quote is what ends the text
behind the opening one, escaped or not. -/
def ofString (quote : Marker) (span : Text) : Segment :=
  let body := span.drop quote.length
  if quote.text.isSuffixOf body then
    .string (span.take quote.length) (body.take (body.length - quote.length))
      (body.drop (body.length - quote.length))
  else .string (span.take quote.length) body []

end Segment

namespace Lexis

/-- The segment that the marker `m` opens at the start of `t`. -/
def segmentAt (lx : Lexis) (m : Marker) (t : Text) : Segment :=
  match lx.opening m with
  | .string _ => Segment.ofString m (t.take (lx.extent m t))
  | _ => .comment (t.take (lx.extent m t))

/-- The segments of a text, behind those already found. -/
def segmentsOnto (lx : Lexis) (found : List Segment) : Text → List Segment
  | [] => found.reverse
  | c :: rest => match lx.markerAt? (c :: rest) with
    | none => segmentsOnto lx (.code c :: found) rest
    | some m => segmentsOnto lx (lx.segmentAt m (c :: rest) :: found)
        (rest.drop (lx.extent m (c :: rest) - 1))
termination_by t => t.length
decreasing_by all_goals simp only [List.length_drop, List.length_cons]; omega

/-- The text cut into code, comments and strings. -/
def segments (lx : Lexis) (t : Text) : List Segment := lx.segmentsOnto [] t

/-- The text with its comments blanked, and the contents of its strings as told. -/
def cleaned (lx : Lexis) (contents : StringContents) (t : Text) : Text :=
  (lx.segments t).flatMap (Segment.shown contents)

/-! ## Equations of the cut -/

theorem segmentsOnto_eq (lx : Lexis) (found : List Segment) (t : Text) :
    lx.segmentsOnto found t = found.reverse ++ lx.segments t := by
  have key : ∀ (n : Nat) (t : Text) (found : List Segment), t.length ≤ n →
      lx.segmentsOnto found t = found.reverse ++ lx.segmentsOnto [] t := by
    intro n
    induction n with
    | zero =>
      intro t found ht
      have : t = [] := List.length_eq_zero_iff.1 (by omega)
      subst this
      simp [segmentsOnto]
    | succ n ih =>
      intro t found ht
      cases t with
      | nil => simp [segmentsOnto]
      | cons c rest =>
        simp only [List.length_cons] at ht
        rw [segmentsOnto, segmentsOnto.eq_def lx []]
        simp only
        split
        · rw [ih rest _ (by omega), ih rest [_] (by omega)]
          simp
        · rw [ih _ (_ :: found) (by simp only [List.length_drop]; omega),
            ih _ [_] (by simp only [List.length_drop]; omega)]
          simp
  exact key t.length t found (Nat.le_refl _)

@[simp] theorem segments_nil (lx : Lexis) : lx.segments [] = [] := by simp [segments, segmentsOnto]

theorem segments_cons_code {lx : Lexis} {c : Char} {rest : Text}
    (h : lx.markerAt? (c :: rest) = none) :
    lx.segments (c :: rest) = .code c :: lx.segments rest := by
  rw [segments, segmentsOnto]
  simp only [h]
  rw [segmentsOnto_eq]
  simp

theorem segments_cons_marker {lx : Lexis} {c : Char} {rest : Text} {m : Marker}
    (h : lx.markerAt? (c :: rest) = some m) :
    lx.segments (c :: rest) =
      lx.segmentAt m (c :: rest) :: lx.segments (rest.drop (lx.extent m (c :: rest) - 1)) := by
  rw [segments, segmentsOnto]
  simp only [h]
  rw [segmentsOnto_eq]
  simp

/-! ## Nothing is lost -/

theorem source_ofString (quote : Marker) (span : Text) :
    (Segment.ofString quote span).source = span := by
  unfold Segment.ofString
  simp only
  split <;> simp only [Segment.source, List.append_assoc, List.take_append_drop, List.append_nil]

theorem source_segmentAt (lx : Lexis) (m : Marker) (t : Text) :
    (lx.segmentAt m t).source = t.take (lx.extent m t) := by
  unfold segmentAt
  split
  · exact source_ofString _ _
  · rfl

/-- The segments of a text put together give the text. -/
theorem source_segments (lx : Lexis) (t : Text) : (lx.segments t).flatMap Segment.source = t := by
  generalize hn : t.length = n
  induction n using Nat.strongRecOn generalizing t with
  | ind n ih =>
    cases t with
    | nil => simp
    | cons c rest =>
      simp only [List.length_cons] at hn
      cases hm : lx.markerAt? (c :: rest) with
      | none =>
        rw [segments_cons_code hm, List.flatMap_cons, ih _ (by omega) rest rfl]
        rfl
      | some m =>
        have hpos := lx.extent_pos m (List.cons_ne_nil c rest)
        rw [segments_cons_marker hm, List.flatMap_cons, source_segmentAt,
          ih _ (by simp only [List.length_drop]; omega) _ rfl]
        obtain ⟨k, hk⟩ : ∃ k, lx.extent m (c :: rest) = k + 1 :=
          ⟨_, (Nat.succ_pred_eq_of_pos hpos).symm⟩
        simp [hk]

@[simp] theorem length_blanked (t : Text) : t.blanked.length = t.length := by simp [Text.blanked]

@[simp] theorem length_shown (contents : StringContents) (s : Segment) :
    (s.shown contents).length = s.source.length := by
  cases s <;> cases contents <;> simp [Segment.shown, Segment.source]

@[simp] theorem length_cleaned (lx : Lexis) (contents : StringContents) (t : Text) :
    (lx.cleaned contents t).length = t.length := by
  conv => rhs; rw [← source_segments lx t]
  simp only [cleaned, List.length_flatMap, length_shown]

end Lexis
end ImportScan
