import ImportScan.Proofs.Lexis.Offsets
import ImportScan.Proofs.Lexis.Regular
import ImportScan.Proofs.Lexis.Transparency

/-!
# The scan of a text ends

The cut of a text told as a loop over offsets. A scan stands at a place of the text. In a turn it
looks for the next marker from there on, puts out the code in front of it and what is shown of the
comment or string that the marker opens, and goes on behind that (`Lexis.turn`). Nothing in a turn
says that it gets anywhere: the end of a line comment is the next newline, be it where the marker
stands, the depth of a nested comment falls below zero where its closer is found first, and a string
without contents ends where they start.

Main statements: a turn moves the place forward and stays within the text, the ends of blocks and
strings are behind what opens them, and so the scan ends after at most as many turns as the text has
characters, with the text cleaned (`Lexis.scan_ends`). All this for any markers, which may start,
close or hold one another, as long as no line comment starts with a newline; where one does, there
is a text whose scan never ends (`Lexis.scan_ends_iff`).
-/

namespace ImportScan

/-! ## Extents by offset -/

theorem closerExtent_add (closer : Marker) (k n : Nat) (t : Text) :
    closerExtent closer (k + n) t = k + closerExtent closer n t := by
  induction t generalizing n with
  | nil => rfl
  | cons c rest ih =>
    rw [closerExtent, closerExtent, Nat.add_assoc, Nat.add_assoc, ih]
    split <;> rfl

theorem nestedExtent_add (opener closer : Marker) (k n : Nat) (depth : Int) (t : Text) :
    nestedExtent opener closer (k + n) depth t = k + nestedExtent opener closer n depth t := by
  fun_induction nestedExtent opener closer n depth t with
  | case1 => rw [nestedExtent]
  | case2 n depth c rest hclose hlast =>
    rw [nestedExtent, if_pos hclose, if_pos hlast, Nat.add_assoc]
  | case3 n depth c rest hclose hlast ih =>
    rw [nestedExtent, if_pos hclose, if_neg hlast, Nat.add_assoc, ih]
  | case4 n depth c rest hclose hopen ih =>
    rw [nestedExtent, if_neg hclose, if_pos hopen, Nat.add_assoc, ih]
  | case5 n depth c rest hclose hopen ih =>
    rw [nestedExtent, if_neg hclose, if_neg hopen, Nat.add_assoc, ih]

theorem stringExtent_add (quote : Marker) (multiline : Bool) (k n : Nat) (t : Text) :
    stringExtent quote multiline (k + n) t = k + stringExtent quote multiline n t := by
  fun_induction stringExtent quote multiline n t with
  | case1 => rfl
  | case2 => rfl
  | case3 n c rest ih => rw [stringExtent, Nat.add_assoc, ih]
  | case4 n c rest hend hescape hquote =>
    rw [stringExtent_cons (ne_backslash_of_no_escape hend hescape), if_pos hquote, Nat.add_assoc]
  | case5 n c rest hend hescape hquote hline =>
    rw [stringExtent_cons (ne_backslash_of_no_escape hend hescape), if_neg hquote, if_pos hline]
  | case6 n c rest hend hescape hquote hline ih =>
    rw [stringExtent_cons (ne_backslash_of_no_escape hend hescape), if_neg hquote, if_neg hline,
      Nat.add_assoc, ih]

namespace Text

/-- The offset of the first newline from `start` on, or of the end of the text. -/
def lineEnd (t : Text) (start : Nat) : Nat := start + ((t.drop start).takeWhile (· ≠ '\n')).length

/-- The offset behind the block comment that `opener` opens at `start`. -/
def blockEnd (t : Text) (start : Nat) (opener closer : Marker) (nested : Bool) : Nat :=
  if nested then nestedExtent opener closer start 0 (t.drop start)
  else closerExtent closer (start + opener.length) (t.drop (start + opener.length))

/-- The offset behind the string whose opening quote ends at `start`. -/
def stringEnd (t : Text) (start : Nat) (quote : Marker) (multiline : Bool) : Nat :=
  stringExtent quote multiline start (t.drop start)

end Text

/-! ## A comment reaches behind its opener -/

/-- Where the closer starts the opener, no opener is ever counted, and a comment in which no block
is open yet takes all that follows. -/
theorem nestedExtent_of_opens_text {opener closer : Marker} (h : closer.opens opener.text = true)
    (n : Nat) {depth : Int} (hdepth : depth ≤ 0) (t : Text) :
    nestedExtent opener closer n depth t = n + t.length := by
  have hlength (m : Marker) : m.length = m.tail.length + 1 := rfl
  fun_induction nestedExtent opener closer n depth t with
  | case1 => rfl
  | case2 n depth c rest _ hlast => omega
  | case3 n depth c rest hclose _ ih =>
    have hfits := Marker.length_le_of_opens hclose
    rw [ih (by omega)]
    simp only [List.length_drop, List.length_cons, hlength] at *
    omega
  | case4 n depth c rest hclose hopen _ =>
    have hprefix := (Marker.opens_iff.1 h).trans (Marker.opens_iff.1 hopen)
    exact absurd (Marker.opens_iff.2 hprefix) hclose
  | case5 n depth c rest _ _ ih =>
    rw [ih hdepth, List.length_cons]
    omega

/-- A nested comment reaches behind its opener, also where its closer stands there too. -/
theorem add_length_le_nestedExtent {opener : Marker} {t : Text} (h : opener.opens t = true)
    (closer : Marker) (n : Nat) : n + opener.length ≤ nestedExtent opener closer n 0 t := by
  have hne : t ≠ [] := by
    rintro rfl
    cases h
  obtain ⟨c, rest, rfl⟩ := List.exists_cons_of_ne_nil hne
  by_cases hclose : closer.opens (c :: rest) = true
  · rcases Nat.le_total opener.length closer.length with hle | hle
    · -- the closer takes at least as much as the opener
      have hrest := le_nestedExtent opener closer (n + closer.length) (0 - 1)
        (rest.drop closer.tail.length)
      rw [nestedExtent, if_pos hclose, if_neg (by decide)]
      omega
    · -- the closer starts the opener, so the comment is never closed
      have hfits := Marker.length_le_of_opens h
      have htext := Marker.opens_text_of_length_le hclose h hle
      rw [nestedExtent_of_opens_text htext n (Int.le_refl 0)]
      omega
  · rw [nestedExtent, if_neg hclose, if_pos h]
    exact le_nestedExtent _ _ _ _ _

section Ends

variable {t : Text} {start : Nat} {m : Marker}

theorem Marker.add_length_le_of_opens (h : m.opens (t.drop start) = true) :
    start + m.length ≤ t.length := by
  have hfits := length_le_of_opens h
  have hpos := m.length_pos
  rw [List.length_drop] at hfits
  omega

theorem Text.le_blockEnd (h : m.opens (t.drop start) = true) (closer : Marker) (nested : Bool) :
    start + m.length ≤ t.blockEnd start m closer nested := by
  cases nested with
  | false => exact le_closerExtent _ _ _
  | true => exact add_length_le_nestedExtent h closer start

theorem Text.blockEnd_le_length (h : m.opens (t.drop start) = true) (closer : Marker)
    (nested : Bool) : t.blockEnd start m closer nested ≤ t.length := by
  have hfits := Marker.add_length_le_of_opens h
  cases nested with
  | false =>
    have hle := closerExtent_le closer (start + m.length) (t.drop (start + m.length))
    rw [List.length_drop, Nat.add_sub_of_le hfits] at hle
    exact hle
  | true =>
    have hle := nestedExtent_le m closer start 0 (t.drop start)
    rw [List.length_drop, Nat.add_sub_of_le (by omega)] at hle
    exact hle

theorem Text.le_stringEnd (t : Text) (start : Nat) (quote : Marker) (multiline : Bool) :
    start ≤ t.stringEnd start quote multiline := le_stringExtent _ _ _ _

theorem Text.stringEnd_le_length (h : start ≤ t.length) (quote : Marker) (multiline : Bool) :
    t.stringEnd start quote multiline ≤ t.length := by
  have hle := stringExtent_le quote multiline start (t.drop start)
  rw [List.length_drop, Nat.add_sub_of_le h] at hle
  exact hle

end Ends

/-! ## The loop -/

/-- Where the scan of a text is, and what it has put out so far. -/
structure Scan where
  place : Nat
  output : Text
deriving DecidableEq, Repr

/-- What comes of a turn of a scan. -/
inductive Turn where
  /-- No marker is left, and the output is complete. -/
  | last (output : Text)
  | next (s : Scan)
deriving DecidableEq, Repr

namespace Lexis

/-- The first marker in a text, and its offset counted on from `n`. -/
def markerFrom? (lx : Lexis) (n : Nat) : Text → Option (Nat × Marker)
  | [] => none
  | c :: rest => match lx.markerAt? (c :: rest) with
    | some m => some (n, m)
    | none => markerFrom? lx (n + 1) rest

/-- The offset behind what the marker `m` opens at `start`. -/
def stop (lx : Lexis) (m : Marker) (t : Text) (start : Nat) : Nat :=
  match lx.opening m with
  | .lineComment => t.lineEnd start
  | .blockComment closer => t.blockEnd start m closer lx.nestedBlocks
  | .string multiline => t.stringEnd (start + m.length) m multiline

/-- The segment in `span`, which starts with the marker `m`. -/
def segmentOf (lx : Lexis) (m : Marker) (span : Text) : Segment :=
  match lx.opening m with
  | .string _ => Segment.ofString m span
  | _ => .comment span

/-- One turn of the scan. -/
def turn (lx : Lexis) (contents : StringContents) (t : Text) (s : Scan) : Turn :=
  match lx.markerFrom? s.place (t.drop s.place) with
  | none => .last (s.output ++ t.drop s.place)
  | some (start, m) =>
    let stop := lx.stop m t start
    let segment := lx.segmentOf m (t.stretch start (stop - start))
    .next ⟨stop, s.output ++ t.stretch s.place (start - s.place) ++ segment.shown contents⟩

/-- What the scan has put out when it ends, if it does within the given number of turns. -/
def scan (lx : Lexis) (contents : StringContents) (t : Text) : Nat → Scan → Option Text
  | 0, s => if s.place < t.length then none else some s.output
  | turns + 1, s =>
    if s.place < t.length then
      match lx.turn contents t s with
      | .last output => some output
      | .next s => scan lx contents t turns s
    else some s.output

/-! ## What a turn does -/

section Turns

variable {lx : Lexis} {t : Text} {m : Marker} {n start : Nat}

theorem cleaned_of_markerFrom?_eq_none (h : lx.markerFrom? n t = none) (contents : StringContents) :
    lx.cleaned contents t = t := by
  induction t generalizing n with
  | nil => exact cleaned_nil _ _
  | cons c rest ih =>
    rw [markerFrom?] at h
    split at h
    · cases h
    · rename_i hnone
      rw [cleaned_cons_code contents hnone, ih h]

/-- The marker found opens where it is found, and in front of it there is code. -/
theorem exists_of_markerFrom?_eq_some (h : lx.markerFrom? n t = some (start, m)) :
    ∃ a b, t = a ++ b ∧ start = n + a.length ∧ lx.markerAt? b = some m ∧
      ∀ contents, lx.cleaned contents t = a ++ lx.cleaned contents b := by
  induction t generalizing n with
  | nil => cases h
  | cons c rest ih =>
    rw [markerFrom?] at h
    split at h
    · rename_i m' hm
      obtain ⟨rfl, rfl⟩ : n = start ∧ m' = m := by simpa using h
      exact ⟨[], c :: rest, rfl, rfl, hm, fun _ => rfl⟩
    · rename_i hnone
      obtain ⟨a, b, rfl, hstart, hm, hcleaned⟩ := ih h
      refine ⟨c :: a, b, rfl, ?_, hm, fun contents => ?_⟩
      · rw [hstart, List.length_cons]
        omega
      · rw [cleaned_cons_code contents hnone, hcleaned, List.cons_append]

theorem segmentAt_eq (lx : Lexis) (m : Marker) (t : Text) :
    lx.segmentAt m t = lx.segmentOf m (t.take (lx.extent m t)) := rfl

theorem mem_openers_of_mem_line (h : m ∈ lx.line) : m ∈ lx.openers :=
  List.mem_append_left _ (List.mem_append_left _ (List.mem_append_left _ h))

theorem mem_line_of_opening (h : lx.opening m = .lineComment) : m ∈ lx.line := by
  unfold opening at h
  split at h
  · assumption
  · split at h <;> cases h

variable (hline : ∀ m ∈ lx.line, m.head ≠ '\n')
include hline

/-- The end of what a marker opens is as far from it as its extent says. -/
theorem stop_eq (h : m.opens (t.drop start) = true) :
    lx.stop m t start = start + lx.extent m (t.drop start) := by
  cases hopening : lx.opening m with
  | lineComment =>
    obtain ⟨rest, hrest⟩ := Marker.opens_iff.1 h
    -- no newline stands at the marker, so the run up to the next one takes its start along
    have hm := hline m (mem_line_of_opening hopening)
    simp only [stop, extent, hopening]
    rw [Text.lineEnd, lineExtent, ← hrest, Marker.text, List.cons_append,
      List.takeWhile_cons_of_pos (by simpa using hm), List.length_cons, List.drop_one,
      List.tail_cons, Nat.add_comm 1]
  | blockComment closer =>
    simp only [stop, extent, hopening, Text.blockEnd]
    split
    · rw [← nestedExtent_add, Nat.add_zero]
    · rw [← closerExtent_add, List.drop_drop]
  | string multiline =>
    simp only [stop, extent, hopening]
    rw [Text.stringEnd, ← stringExtent_add, List.drop_drop]

theorem lt_stop (h : m.opens (t.drop start) = true) : start < lx.stop m t start := by
  have hne : t.drop start ≠ [] := by
    intro hnil
    rw [hnil] at h
    cases h
  have hpos := lx.extent_pos m hne
  rw [stop_eq hline h]
  omega

theorem stop_le_length (h : m.opens (t.drop start) = true) : lx.stop m t start ≤ t.length := by
  have hfits := Marker.add_length_le_of_opens h
  have hle := lx.extent_le_length h
  rw [List.length_drop] at hle
  rw [stop_eq hline h]
  omega

/-- A turn either ends the scan or moves its place forward, within the text. What is put out and
what the rest is cleaned to stay the same together. -/
theorem turn_cases (contents : StringContents) (s : Scan) :
    lx.turn contents t s = .last (s.output ++ lx.cleaned contents (t.drop s.place)) ∨
      ∃ s', lx.turn contents t s = .next s' ∧ s.place < s'.place ∧ s'.place ≤ t.length ∧
        s'.output ++ lx.cleaned contents (t.drop s'.place) =
          s.output ++ lx.cleaned contents (t.drop s.place) := by
  unfold turn
  cases h : lx.markerFrom? s.place (t.drop s.place) with
  | none => exact .inl (by rw [cleaned_of_markerFrom?_eq_none h])
  | some found =>
    obtain ⟨start, m⟩ := found
    -- the text behind the place is code `a` and then `b`, at whose start the marker opens
    obtain ⟨a, b, hcut, hstart, hm, hcleaned⟩ := exists_of_markerFrom?_eq_some h
    have hb : t.drop start = b := by
      rw [hstart, ← List.drop_drop, hcut, List.drop_left]
    have ha : t.stretch s.place (start - s.place) = a := by
      rw [Text.stretch, hcut, hstart, Nat.add_sub_cancel_left, List.take_left]
    have hopens : m.opens (t.drop start) = true := by
      rw [hb]
      exact opens_of_markerAt? hm
    have hstop := stop_eq hline hopens
    have hspan : t.stretch start (lx.stop m t start - start) = b.take (lx.extent m b) := by
      rw [Text.stretch, hstop, Nat.add_sub_cancel_left, hb]
    have hrest : t.drop (lx.stop m t start) = b.drop (lx.extent m b) := by
      rw [hstop, hb, ← hb, List.drop_drop]
    refine .inr ⟨_, rfl, ?_, stop_le_length hline hopens, ?_⟩
    · have hlt := lt_stop hline hopens
      simp only
      omega
    · simp only
      rw [ha, hspan, hrest, hcleaned, cleaned_of_markerAt? contents hm, segmentAt_eq]
      simp only [List.append_assoc]

/-- With as many turns as there are characters left, the scan ends. -/
theorem scan_eq_some (contents : StringContents) {turns : Nat} {s : Scan}
    (hturns : t.length - s.place ≤ turns) :
    lx.scan contents t turns s = some (s.output ++ lx.cleaned contents (t.drop s.place)) := by
  -- induction on the turns; what is put out and what is still to come stay the same together
  have hend {s : Scan} (h : ¬s.place < t.length) :
      s.output ++ lx.cleaned contents (t.drop s.place) = s.output := by
    rw [List.drop_eq_nil_of_le (Nat.le_of_not_lt h), cleaned_nil, List.append_nil]
  induction turns generalizing s with
  | zero =>
    have hplace : ¬s.place < t.length := by omega
    rw [scan, if_neg hplace, hend hplace]
  | succ turns ih =>
    rw [scan]
    split
    · rcases turn_cases hline contents s (t := t) with hlast | ⟨s', hnext, hlt, -, hsame⟩
      · rw [hlast]
      · rw [hnext, ← hsame]
        exact ih (by omega)
    · rename_i hplace
      rw [hend hplace]

end Turns

/-- **The scan ends.** A turn moves the place forward, within the text; the end of a block or a
string is behind what opens it, within the text; and the scan ends with the text cleaned, after at
most as many turns as the text has characters. -/
theorem scan_ends {lx : Lexis} (hline : ∀ m ∈ lx.line, m.head ≠ '\n') (contents : StringContents)
    (t : Text) :
    (∀ s s', lx.turn contents t s = .next s' → s.place < s'.place ∧ s'.place ≤ t.length) ∧
      (∀ start opener closer nested, opener.opens (t.drop start) = true →
        start + opener.length ≤ t.blockEnd start opener closer nested ∧
          t.blockEnd start opener closer nested ≤ t.length) ∧
      (∀ start quote multiline, quote.opens (t.drop start) = true →
        start + quote.length ≤ t.stringEnd (start + quote.length) quote multiline ∧
          t.stringEnd (start + quote.length) quote multiline ≤ t.length) ∧
      lx.scan contents t t.length ⟨0, []⟩ = some (lx.cleaned contents t) := by
  refine ⟨?_, ?_, ?_, scan_eq_some hline contents (Nat.sub_le _ _)⟩
  · intro s s' hturn
    rcases turn_cases hline contents s with hlast | ⟨_, hnext, hlt, hle, -⟩
    · rw [hlast] at hturn
      cases hturn
    · rw [hnext] at hturn
      cases hturn
      exact ⟨hlt, hle⟩
  · intro start opener closer nested hopens
    exact ⟨Text.le_blockEnd hopens closer nested, Text.blockEnd_le_length hopens closer nested⟩
  · intro start quote multiline hopens
    have hfits := Marker.add_length_le_of_opens hopens
    exact ⟨Text.le_stringEnd _ _ _ _, Text.stringEnd_le_length hfits _ _⟩

/-- A block whose closer stands at its opener, so that its depth first falls below zero, and a
string that the end of the text breaks off behind a backslash. -/
theorem scan_ends_overlapping :
    let opener : Marker := ⟨'(', []⟩
    let closer : Marker := ⟨'(', ['*']⟩
    let lx : Lexis := {
      line := [.hash]
      block := [(opener, closer)]
      quotes := [.doubleQuote]
      nestedBlocks := true }
    let t : Text := "a(*b(c(d(*e \"f\\".toList
    (∀ m ∈ lx.line, m.head ≠ '\n') ∧
      lx.turn .blanked t ⟨0, []⟩ = .next ⟨10, "a         ".toList⟩ ∧ 0 < 10 ∧ 10 ≤ t.length ∧
      t.blockEnd 1 opener closer true = 10 ∧ 1 + opener.length ≤ 10 ∧
      t.stringEnd 13 .doubleQuote false = t.length ∧ 12 + Marker.doubleQuote.length ≤ t.length ∧
      lx.scan .blanked t t.length ⟨0, []⟩ = some "a         e \"  ".toList := by
  intro opener closer lx t
  have hline : ∀ m ∈ lx.line, m.head ≠ '\n' := by decide
  obtain ⟨hturn, hblock, hstring, hscan⟩ := scan_ends hline .blanked t
  have hnext : lx.turn .blanked t ⟨0, []⟩ = .next ⟨10, "a         ".toList⟩ := by decide +kernel
  have hblockEnd : t.blockEnd 1 opener closer true = 10 := by decide +kernel
  have hstringEnd : t.stringEnd 13 .doubleQuote false = t.length := by decide +kernel
  have hcleaned : lx.cleaned .blanked t = "a         e \"  ".toList := by decide +kernel
  obtain ⟨hlt, hle⟩ := hturn _ _ hnext
  obtain ⟨hbehind, -⟩ := hblock 1 opener closer true (by decide)
  obtain ⟨hquoted, -⟩ := hstring 12 .doubleQuote false (by decide)
  exact ⟨hline, hnext, hlt, hle, hblockEnd, hblockEnd ▸ hbehind, hstringEnd, hstringEnd ▸ hquoted,
    hcleaned ▸ hscan⟩

/-! ## Where a line comment starts with a newline -/

/-- Such a comment ends where it starts, so a turn leaves the scan where it is. -/
theorem turn_eq_next_self {lx : Lexis} {m : Marker} (hm : m ∈ lx.line) (hhead : m.head = '\n')
    (contents : StringContents) : lx.turn contents m.text ⟨0, []⟩ = .next ⟨0, []⟩ := by
  have hmarker : lx.markerAt? m.text = some m := by
    have hopens : m.opens m.text = true := Marker.opens_iff.2 (List.prefix_refl _)
    exact markerAt?_eq_some_iff.2
      ⟨mem_openers_of_mem_line hm, hopens, fun _ _ hother => Marker.length_le_of_opens hother⟩
  have hopening : lx.opening m = .lineComment := if_pos hm
  have hfound : lx.markerFrom? 0 m.text = some (0, m) := by
    rw [Marker.text] at hmarker ⊢
    rw [markerFrom?, hmarker]
  have hstop : lx.stop m m.text 0 = 0 := by
    simp only [stop, hopening]
    rw [Text.lineEnd, List.drop_zero, Marker.text, hhead, List.takeWhile_cons_of_neg (by simp)]
    rfl
  simp only [turn, List.drop_zero, hfound, hstop, segmentOf, hopening]
  rfl

/-- The scan ends on every text if and only if no line comment starts with a newline. -/
theorem scan_ends_iff (lx : Lexis) (contents : StringContents) :
    (∀ t, ∃ turns output, lx.scan contents t turns ⟨0, []⟩ = some output) ↔
      ∀ m ∈ lx.line, m.head ≠ '\n' := by
  constructor
  · intro hends m hm hhead
    have hplace : (Scan.mk 0 []).place < m.text.length := m.length_pos
    have hnever (turns : Nat) : lx.scan contents m.text turns ⟨0, []⟩ = none := by
      induction turns with
      | zero => rw [scan, if_pos hplace]
      | succ turns ih =>
        rw [scan, if_pos hplace, turn_eq_next_self hm hhead]
        exact ih
    obtain ⟨turns, output, hscan⟩ := hends m.text
    rw [hnever] at hscan
    cases hscan
  · intro hline t
    exact ⟨t.length, _, scan_eq_some hline contents (Nat.sub_le _ _)⟩

end Lexis

/-- The scan of every supported language ends. -/
theorem Parser.scan_lexis {p : Parser} {g : Grammar} (h : p.grammar? = some g)
    (contents : StringContents) (t : Text) :
    g.lexis.scan contents t t.length ⟨0, []⟩ = some (g.lexis.cleaned contents t) := by
  refine Lexis.scan_eq_some (fun m hm hhead => ?_) contents (Nat.sub_le _ _)
  have hvisible := (Parser.regular_lexis h).visible m (Lexis.mem_openers_of_mem_line hm)
  exact hvisible.2 (hhead ▸ List.mem_cons_self)

end ImportScan
