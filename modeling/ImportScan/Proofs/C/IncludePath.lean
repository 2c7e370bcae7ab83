import ImportScan.Grammar.C
import ImportScan.Proofs.Text.Cut

/-!
# The root of an include path

A path is cut at its separators, and the pieces that are empty or one or two dots only say where
the path goes on. The root is read off the first of the others (`includeRoot_eq`). Cutting goes on
behind a separator as if the text began there (`Text.fields_append_separator`), so steps that only
say where the path goes on can be put in front of a path, and anything behind a separator, without a
change of its root (`includeRoot_first_segment`).
-/

namespace ImportScan.Grammar

open Text

/-- The segments of an include path that do not only say where it goes on. -/
def namedSegments (path : Text) : List Text :=
  (fields isPathSeparator path).filter (!isDotSegment ·)

/-- The start of a path that leads to no segment: none, one or two dots, and a separator. -/
structure DotStep where
  dots : Text
  separator : Char
  isDotSegment_dots : isDotSegment dots = true
  isPathSeparator_separator : isPathSeparator separator = true

/-- The step as it stands in a path. -/
def DotStep.text (s : DotStep) : Text := s.dots ++ [s.separator]

/-- The steps one behind the other. -/
def DotStep.path (steps : List DotStep) : Text := steps.flatMap DotStep.text

variable {p r : Text} {x : Char}

theorem eq_dot_of_mem {s : Text} {c : Char} (hs : isDotSegment s = true) (hc : c ∈ s) :
    c = '.' := by
  simp only [isDotSegment, Bool.or_eq_true, beq_iff_eq] at hs
  rcases hs with (rfl | rfl) | rfl
  · cases hc
  · exact List.mem_singleton.1 hc
  · simpa using hc

theorem isBlank_of_isPathSeparator (hx : isPathSeparator x = true) : isBlank x = false := by
  simp only [isPathSeparator, Bool.or_eq_true, beq_iff_eq] at hx
  rcases hx with rfl | rfl <;> decide

theorem DotStep.isBlank_of_mem_path {steps : List DotStep} {c : Char} (h : c ∈ path steps) :
    isBlank c = false := by
  obtain ⟨s, -, hc⟩ := List.mem_flatMap.1 h
  rcases List.mem_append.1 hc with hc | hc
  · rw [eq_dot_of_mem s.isDotSegment_dots hc]
    decide
  · rw [List.mem_singleton.1 hc]
    exact isBlank_of_isPathSeparator s.isPathSeparator_separator

/-! ## Named segments -/

theorem namedSegments_append_separator (hx : isPathSeparator x = true) (p r : Text) :
    namedSegments (p ++ x :: r) = namedSegments p ++ namedSegments r := by
  rw [namedSegments, fields_append_separator hx, List.filter_append]
  rfl

theorem DotStep.namedSegments_path_append (steps : List DotStep) (p : Text) :
    namedSegments (path steps ++ p) = namedSegments p := by
  induction steps with
  | nil => rfl
  | cons s steps ih =>
    have hdots : namedSegments s.dots = [] := by
      have hsolid : ∀ c ∈ s.dots, isPathSeparator c = false := by
        intro c hc
        rw [eq_dot_of_mem s.isDotSegment_dots hc]
        decide
      rw [namedSegments, fields_eq_self hsolid, List.filter_singleton, s.isDotSegment_dots]
      rfl
    have hcut : path (s :: steps) ++ p = s.dots ++ s.separator :: (path steps ++ p) := by
      simp [path, text]
    rw [hcut, namedSegments_append_separator s.isPathSeparator_separator, hdots, ih,
      List.nil_append]

/-! ## Roots -/

/-- The root of a trimmed path is its first named segment, without the extension. -/
theorem includeRoot_eq (hp : IsTrimmed p) :
    includeRoot p = ((namedSegments p).head?.map (dropExtension '.')).getD [] := by
  rw [includeRoot, trim_eq_self hp, ← namedSegments]
  cases namedSegments p <;> rfl

theorem DotStep.isTrimmed_path_append (steps : List DotStep) (hp : IsTrimmed p) :
    IsTrimmed (path steps ++ p) where
  start := forall_head?_append (fun _ hc => isBlank_of_mem_path (List.mem_of_head? hc)) hp.start
  stop := forall_getLast?_append (fun _ hc => isBlank_of_mem_path (List.mem_of_getLast? hc)) hp.stop

theorem isTrimmed_append_separator (hp : IsTrimmed p) (hne : p ≠ [])
    (hx : isPathSeparator x = true) (hr : ∀ c ∈ r.getLast?, isBlank c = false) :
    IsTrimmed (p ++ x :: r) where
  start c hc := hp.start c (by rwa [List.head?_append_of_ne_nil _ hne] at hc)
  stop := by
    have hseparator : ∀ c ∈ [x].getLast?, isBlank c = false := by
      rintro c ⟨⟩
      exact isBlank_of_isPathSeparator hx
    exact forall_getLast?_append_of_ne_nil (List.cons_ne_nil x r)
      (forall_getLast?_append hseparator hr)

/-- What stands behind a separator has no part in the root once there is a named segment. -/
theorem includeRoot_append_separator (hp : IsTrimmed p) (hne : namedSegments p ≠ [])
    (hx : isPathSeparator x = true) (hr : ∀ c ∈ r.getLast?, isBlank c = false) :
    includeRoot (p ++ x :: r) = includeRoot p := by
  have hsome : p ≠ [] := by
    rintro rfl
    exact hne rfl
  rw [includeRoot_eq (isTrimmed_append_separator hp hsome hx hr), namedSegments_append_separator hx,
    List.head?_append_of_ne_nil _ hne, includeRoot_eq hp]

/-- **The root is read off the first named segment.** Steps that only say where the path goes on
change nothing in front of a path, and nothing at all does behind a separator once the path has a
named segment. -/
theorem includeRoot_first_segment (hp : IsTrimmed p) :
    includeRoot p = ((namedSegments p).head?.map (dropExtension '.')).getD [] ∧
      (∀ steps, includeRoot (DotStep.path steps ++ p) = includeRoot p) ∧
      ((∃ s ∈ fields isPathSeparator p, isDotSegment s = false) →
        ∀ r : Text, (∀ c ∈ r.getLast?, isBlank c = false) →
          includeRoot (p ++ '/' :: r) = includeRoot p ∧
            includeRoot (p ++ '\\' :: r) = includeRoot p) := by
  refine ⟨includeRoot_eq hp, fun _ => ?_, ?_⟩
  · rw [includeRoot_eq (DotStep.isTrimmed_path_append _ hp), DotStep.namedSegments_path_append,
      includeRoot_eq hp]
  · rintro ⟨s, hs, hnamed⟩ r hr
    have hmem : s ∈ namedSegments p := List.mem_filter.2 ⟨hs, by simp [hnamed]⟩
    have hne : namedSegments p ≠ [] := List.ne_nil_of_mem hmem
    exact ⟨includeRoot_append_separator hp hne rfl hr, includeRoot_append_separator hp hne rfl hr⟩

/-- Both separators, all three kinds of steps, a first segment with two dots in it, and a rest with
white space in front. -/
theorem includeRoot_first_segment_mixed :
    let p : Text := "x.y.h/z".toList
    let steps : List DotStep :=
      [⟨['.', '.'], '\\', rfl, rfl⟩, ⟨[], '/', rfl, rfl⟩, ⟨['.'], '/', rfl, rfl⟩]
    let r : Text := " ..\\q/.".toList
    IsTrimmed p ∧ (∃ s ∈ fields isPathSeparator p, isDotSegment s = false) ∧
      (∀ c ∈ r.getLast?, isBlank c = false) ∧ includeRoot p = "x.y".toList ∧
      DotStep.path steps = "..\\/./".toList ∧ includeRoot (DotStep.path steps ++ p) = "x.y".toList ∧
      includeRoot (p ++ '/' :: r) = "x.y".toList ∧ includeRoot (p ++ '\\' :: r) = "x.y".toList := by
  intro p steps r
  have hp : IsTrimmed p := by
    constructor
    · rintro c ⟨⟩
      decide
    · rintro c ⟨⟩
      decide
  have hnamed : ∃ s ∈ fields isPathSeparator p, isDotSegment s = false := by decide
  have hr : ∀ c ∈ r.getLast?, isBlank c = false := by
    rintro c ⟨⟩
    decide
  obtain ⟨hroot, hsteps, hrest⟩ := includeRoot_first_segment hp
  have hvalue : includeRoot p = "x.y".toList := hroot.trans (by decide)
  obtain ⟨hslash, hbackslash⟩ := hrest hnamed r hr
  exact ⟨hp, hnamed, hr, hvalue, by decide, (hsteps steps).trans hvalue, hslash.trans hvalue,
    hbackslash.trans hvalue⟩

end ImportScan.Grammar
