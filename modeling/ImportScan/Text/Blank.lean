import ImportScan.Text.Basic

/-!
# White space

`isBlank` is the class of white space that trimming, splitting into words and the layout checks
share: the controls U+0009 to U+000D and U+001C to U+001F, the space, and the separators of
Unicode. A zero-width space is not in it.
-/

namespace ImportScan.Text

/-- White space. -/
def isBlank (c : Char) : Bool :=
  let n := c.toNat
  (0x09 ≤ n && n ≤ 0x0D) || (0x1C ≤ n && n ≤ 0x20) || n == 0x85 || n == 0xA0 || n == 0x1680 ||
    (0x2000 ≤ n && n ≤ 0x200A) || n == 0x2028 || n == 0x2029 || n == 0x202F || n == 0x205F ||
    n == 0x3000

/-- A space or a tab: white space that keeps a statement on its line. -/
def isGap (c : Char) : Bool := c == ' ' || c == '\t'

/-! ## Trimming -/

/-- The text without its leading white space. -/
def trimStart (t : Text) : Text := t.dropWhile isBlank

/-- The text without its trailing white space. -/
def trimEnd (t : Text) : Text := (t.reverse.dropWhile isBlank).reverse

/-- The text without white space at either end. -/
def trim (t : Text) : Text := trimEnd (trimStart t)

/-- The maximal runs without white space, in order. -/
def words (t : Text) : List Text := (fields isBlank t).filter (!·.isEmpty)

/-- The leading segment of a qualified name: what stands before the first separator, trimmed. -/
def firstSegment (sep name : Text) : Text := trim (before sep (trim name))

/-! ## Laws -/

theorem isBlank_of_isGap {c : Char} (h : isGap c = true) : isBlank c = true := by
  simp only [isGap, Bool.or_eq_true, beq_iff_eq] at h
  rcases h with rfl | rfl <;> decide

theorem mem_of_mem_trim {t : Text} {c : Char} (h : c ∈ trim t) : c ∈ t := by
  have h1 : c ∈ t.dropWhile isBlank := by
    have := (List.dropWhile_sublist isBlank).subset (List.mem_reverse.1 h)
    exact List.mem_reverse.1 this
  exact (List.dropWhile_sublist isBlank).subset h1

/-- A word is not empty and has no white space. -/
theorem mem_words {t w : Text} (h : w ∈ words t) : w ≠ [] ∧ ∀ c ∈ w, isBlank c = false := by
  obtain ⟨hm, hne⟩ := List.mem_filter.1 h
  refine ⟨?_, fun c hc => isSep_eq_false_of_mem_fields hm hc⟩
  rintro rfl
  simp at hne

end ImportScan.Text
