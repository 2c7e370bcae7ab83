import ImportScan.Lexis.Marks
import ImportScan.Pattern.Literal
import ImportScan.Proofs.Lexis.Blanking
import ImportScan.Proofs.Pattern.Matches

/-!
# Offsets in cleaned texts

Cleaning moves nothing. Whatever the markers of a lexis are, and however comments and strings end,
the text and what cleaning leaves of it have the same length and the same newlines, and differ only
where a space stands now. So what a pattern matches in one of them is found at the same offset in
the others (`cleaned_in_place`). All of it follows from `Text.BlanksTo`, which cutting both texts at
the same offsets keeps (`BlanksTo.stretch`).
-/

namespace ImportScan

/-- The characters of a text from the offset `n` on, at most `k` of them. -/
def Text.stretch (t : Text) (n k : Nat) : Text := (t.drop n).take k

namespace Text.BlanksTo

variable {t u : Text}

theorem stretch (h : BlanksTo t u) (n k : Nat) : BlanksTo (t.stretch n k) (u.stretch n k) :=
  List.forall₂_take k (List.forall₂_drop n h)

/-- At an offset stands what stood there, and a newline only if it stood there, or else a space in
the place of a character that was no newline. -/
theorem getElem?_cases (h : BlanksTo t u) (n : Nat) :
    u[n]? = t[n]? ∨ u[n]? = some ' ' ∧ t[n]? ≠ some '\n' := by
  induction h generalizing n with
  | nil => exact .inl rfl
  | @cons x y t u hxy _ ih =>
    cases n with
    | succ n => exact ih n
    | zero =>
      rcases hxy with rfl | ⟨hx, rfl⟩
      · exact .inl rfl
      · exact .inr ⟨rfl, fun h => hx (Option.some.inj h)⟩

theorem getElem?_eq_or (h : BlanksTo t u) (n : Nat) : u[n]? = t[n]? ∨ u[n]? = some ' ' :=
  (h.getElem?_cases n).imp id And.left

theorem getElem?_eq_newline_iff (h : BlanksTo t u) (n : Nat) :
    u[n]? = some '\n' ↔ t[n]? = some '\n' := by
  rcases h.getElem?_cases n with he | ⟨hu, ht⟩
  · rw [he]
  · rw [hu]
    exact ⟨fun h => by simp at h, fun h => absurd h ht⟩

end Text.BlanksTo

/-- A match is the stretch of the text at its offset. -/
theorem Pattern.text_eq_stretch {ι : Type} [DecidableEq ι] {p : Pattern ι} {t : Text} {m : Match ι}
    (hm : m ∈ p.matchesIn t) : m.text = t.stretch m.offset m.text.length := by
  obtain ⟨c, hc, -, htext⟩ := exists_matchAt?_of_mem_matchesFrom hm
  have ht : t = c.before.reverse ++ c.after := htext.symm
  have hoffset : m.offset = c.before.reverse.length := by
    rw [offset_of_matchAt? hc, c.offset_eq, List.length_reverse]
  rw [Text.stretch, hoffset, ht, List.drop_left, (after_eq_of_matchAt? hc).1, List.take_left]

namespace Lexis

/-- Blanking the comments only blanks no more than cleaning does. -/
theorem kept_blanksTo_cleaned (lx : Lexis) (contents : StringContents) (t : Text) :
    (lx.cleaned .kept t).BlanksTo (lx.cleaned contents t) := by
  cases contents with
  | kept => exact .refl _
  | blanked => exact lx.cleaned_blanksTo_blanked .kept t

/-- **Cleaning keeps the layout**: the length and the newlines stay, and at every offset stands the
character of the text or a space; with strings blanked too, the character that stands there without
or a space. A match in the cleaned text is found at its offset in the others. -/
theorem cleaned_in_place (lx : Lexis) (contents : StringContents) (t : Text) {ι : Type}
    [DecidableEq ι] (p : Pattern ι) :
    (lx.cleaned contents t).length = t.length ∧
      (∀ n : Nat, (lx.cleaned contents t)[n]? = t[n]? ∨
        (lx.cleaned contents t)[n]? = some ' ') ∧
      (∀ n : Nat, (lx.cleaned contents t)[n]? = some '\n' ↔ t[n]? = some '\n') ∧
      (∀ n : Nat, (lx.cleaned .blanked t)[n]? = (lx.cleaned .kept t)[n]? ∨
        (lx.cleaned .blanked t)[n]? = some ' ') ∧
      ∀ m ∈ p.matchesIn (lx.cleaned contents t),
        (t.stretch m.offset m.text.length).BlanksTo m.text ∧
          ((lx.cleaned .kept t).stretch m.offset m.text.length).BlanksTo m.text ∧
          m.text.BlanksTo ((lx.cleaned .blanked t).stretch m.offset m.text.length) := by
  have hblanks := lx.blanksTo_cleaned contents t
  refine ⟨lx.length_cleaned contents t, hblanks.getElem?_eq_or, hblanks.getElem?_eq_newline_iff,
    (lx.cleaned_blanksTo_blanked .kept t).getElem?_eq_or, fun m hm => ?_⟩
  have hstretch := Pattern.text_eq_stretch hm
  have hsource := hblanks.stretch m.offset m.text.length
  have hkept := (lx.kept_blanksTo_cleaned contents t).stretch m.offset m.text.length
  have hblanked := (lx.cleaned_blanksTo_blanked contents t).stretch m.offset m.text.length
  rw [← hstretch] at hsource hkept hblanked
  exact ⟨hsource, hkept, hblanked⟩

/-- Markers that start one another and close what they open, a string whose escaped quote is taken
for its closing one, and one that the end of the text breaks off behind a backslash. -/
theorem cleaned_in_place_overlapping :
    let lx : Lexis := {
      line := [.hash]
      block := [(⟨'#', ['[']⟩, ⟨'#', ['[']⟩)]
      quotes := [.doubleQuote]
      multilineQuotes := [⟨'"', ['"']⟩]
      nestedBlocks := true }
    let t : Text := "a \"b\\\"\n\"\"c\nd \\".toList
    let p : Pattern Empty := .word "d"
    ∃ m ∈ p.matchesIn (lx.cleaned .kept t), m.offset = 11 ∧
      lx.cleaned .blanked t = "a \"  \"\n\"\" \n   ".toList ∧
      (lx.cleaned .kept t).length = t.length ∧
      (t.stretch m.offset m.text.length).BlanksTo m.text ∧
      m.text.BlanksTo ((lx.cleaned .blanked t).stretch m.offset m.text.length) := by
  intro lx t p
  have hoffsets : (p.matchesIn (lx.cleaned .kept t)).map Match.offset = [11] := by decide +kernel
  obtain ⟨m, hm, hoffset⟩ := List.mem_map.1 (hoffsets ▸ List.mem_singleton_self 11)
  obtain ⟨hlength, -, -, -, hmatches⟩ := lx.cleaned_in_place .kept t p
  obtain ⟨hsource, -, hblanked⟩ := hmatches m hm
  exact ⟨m, hm, hoffset, by decide +kernel, hlength, hsource, hblanked⟩

end Lexis
end ImportScan
