import ImportScan.Proofs.Lexis.Blanking
import ImportScan.Proofs.Lexis.Regular

/-!
# Comments are transparent

Blanking the comments of a text first and cutting the result again gives the same segments, only
that every comment has become code made of spaces and newlines (`segments_cleaned_kept`). No marker
comes up at the edge of a blanked comment because no marker holds a space, and a string ends where
it ended before because all of it is kept. So cleaning is not changed by blanking the comments
first, and neither are the imports that a grammar finds.
-/

namespace ImportScan

/-! ## What cleaning does to one segment -/

namespace Segment

/-- The segment with a comment turned into blank code. -/
def uncommented : Segment → List Segment
  | .comment t => t.blanked.map .code
  | s => [s]

theorem flatMap_shown_code (contents : StringContents) (t : Text) :
    (t.map Segment.code).flatMap (shown contents) = t := by
  induction t with
  | nil => rfl
  | cons c t ih =>
    rw [List.map_cons, List.flatMap_cons, ih]
    rfl

/-- The text that the segments show. -/
def showAll (contents : StringContents) (l : List Segment) : Text := l.flatMap (shown contents)

@[simp] theorem showAll_nil (contents : StringContents) : showAll contents [] = [] := rfl

@[simp] theorem showAll_singleton (contents : StringContents) (s : Segment) :
    showAll contents [s] = s.shown contents := List.flatMap_singleton _ _

@[simp] theorem showAll_append (contents : StringContents) (l l' : List Segment) :
    showAll contents (l ++ l') = showAll contents l ++ showAll contents l' := List.flatMap_append

@[simp] theorem showAll_code (contents : StringContents) (t : Text) :
    showAll contents (t.map .code) = t := flatMap_shown_code contents t

theorem length_showAll (contents contents' : StringContents) (l : List Segment) :
    (showAll contents l).length = (showAll contents' l).length := by
  simp only [showAll, List.length_flatMap, Lexis.length_shown]

/-- Blanking is the same whether it sees a comment or the blank code in its place. -/
theorem flatMap_shown_uncommented (contents : StringContents) (s : Segment) :
    s.uncommented.flatMap (shown contents) = s.shown contents := by
  cases s with
  | comment t => exact flatMap_shown_code contents t.blanked
  | code c => simp [uncommented]
  | string opener t closer => simp [uncommented]

theorem exists_ofString (quote : Marker) (span : Text) :
    ∃ opener t closer, ofString quote span = .string opener t closer := by
  unfold ofString
  dsimp only
  split
  · exact ⟨_, _, _, rfl⟩
  · exact ⟨_, _, _, rfl⟩

theorem uncommented_ofString (quote : Marker) (span : Text) :
    (ofString quote span).uncommented = [ofString quote span] := by
  obtain ⟨opener, t, closer, h⟩ := exists_ofString quote span
  rw [h]
  rfl

theorem shown_kept_ofString (quote : Marker) (span : Text) :
    (ofString quote span).shown .kept = span := by
  have hs := Lexis.source_ofString quote span
  obtain ⟨opener, t, closer, h⟩ := exists_ofString quote span
  rw [h] at hs ⊢
  exact hs

end Segment

theorem Text.mem_blanked {t : Text} {c : Char} (h : c ∈ t.blanked) : c = ' ' ∨ c = '\n' := by
  obtain ⟨d, -, rfl⟩ := List.mem_map.1 h
  by_cases hd : d = '\n' <;> simp [hd]

/-- Blanked, a string is nothing but its quotes and white space. -/
theorem Segment.mem_shown_blanked_ofString {q : Marker} {u : Text} {c : Char}
    (hc : c ∈ (ofString q (q.text ++ u)).shown .blanked) :
    c ∈ q.text ∨ Text.isBlank c = true := by
  have hblank {v : Text} (h : c ∈ Text.blanked v) : Text.isBlank c = true := by
    rcases Text.mem_blanked h with rfl | rfl <;> decide
  unfold ofString at hc
  rw [← Marker.length_text, List.take_left, List.drop_left] at hc
  dsimp only at hc
  split at hc
  · rename_i hsuffix
    obtain ⟨v, rfl⟩ := List.isSuffixOf_iff_suffix.1 hsuffix
    have hlast : (v ++ q.text).length - q.text.length = v.length := by simp
    rw [hlast, List.take_left, List.drop_left] at hc
    rcases List.mem_append.1 hc with hc | hc
    · exact (List.mem_append.1 hc).imp id hblank
    · exact .inl hc
  · rw [shown, List.append_nil] at hc
    exact (List.mem_append.1 hc).imp id hblank

namespace Lexis

theorem cleaned_cons_code {lx : Lexis} {c : Char} {rest : Text} (contents : StringContents)
    (h : lx.markerAt? (c :: rest) = none) :
    lx.cleaned contents (c :: rest) = c :: lx.cleaned contents rest := by
  rw [cleaned, segments_cons_code h]
  rfl

theorem cleaned_of_markerAt? {lx : Lexis} {t : Text} {m : Marker} (contents : StringContents)
    (h : lx.markerAt? t = some m) :
    lx.cleaned contents t =
      (lx.segmentAt m t).shown contents ++ lx.cleaned contents (t.drop (lx.extent m t)) := by
  rw [cleaned, segments_of_markerAt? h]
  rfl

@[simp] theorem cleaned_nil (contents : StringContents) (lx : Lexis) :
    lx.cleaned contents [] = [] := by
  rw [cleaned, segments_nil]
  rfl

/-- Code is left as it is. -/
theorem cleaned_code_append {lx : Lexis} {a : Text} (h : ∀ c ∈ a, ∀ m ∈ lx.openers, c ≠ m.head)
    (contents : StringContents) (rest : Text) :
    lx.cleaned contents (a ++ rest) = a ++ lx.cleaned contents rest := by
  rw [cleaned, segments_code_append h, List.flatMap_append, Segment.flatMap_shown_code, cleaned]

theorem cleaned_eq_self {lx : Lexis} {t : Text} (h : ∀ c ∈ t, ∀ m ∈ lx.openers, c ≠ m.head)
    (contents : StringContents) : lx.cleaned contents t = t := by
  have hcode := cleaned_code_append h contents []
  rwa [List.append_nil, cleaned_nil, List.append_nil] at hcode

/-! ## Markers and extents after blanking -/

variable {lx : Lexis} (hlx : lx.Regular)

include hlx in
/-- A marker that is kept opens after blanking where it opened before. -/
theorem markerAt?_of_blanksTo {t u : Text} {m : Marker} (h : t.BlanksTo u)
    (hm : lx.markerAt? t = some m) (ho : m.opens u = true) : lx.markerAt? u = some m := by
  obtain ⟨hmem, -, hl⟩ := markerAt?_eq_some_iff.1 hm
  refine markerAt?_eq_some_iff.2 ⟨hmem, ho, ?_⟩
  intro m' hm' ho'
  exact hl m' hm' (Marker.opens_of_blanksTo h (hlx.visible m' hm').1 ho')

include hlx in
/-- Where none opened, none opens after blanking. -/
theorem markerAt?_eq_none_of_blanksTo {t u : Text} (h : t.BlanksTo u)
    (hm : lx.markerAt? t = none) : lx.markerAt? u = none :=
  markerAt?_eq_none_iff.2 fun m hm' =>
    Marker.not_opens_of_blanksTo h (hlx.visible m hm').1 (markerAt?_eq_none_iff.1 hm m hm')

include hlx in
/-- A string that is kept whole is cut off whole again. -/
theorem extent_of_blanksTo {t u : Text} {m : Marker} {multiline : Bool}
    (hm : lx.markerAt? t = some m) (hs : lx.opening m = .string multiline)
    (h : Text.BlanksTo (t.drop (lx.extent m t)) u) :
    lx.markerAt? (t.take (lx.extent m t) ++ u) = some m ∧
      lx.extent m (t.take (lx.extent m t) ++ u) = lx.extent m t := by
  obtain ⟨hmem, ho, -⟩ := markerAt?_eq_some_iff.1 hm
  have hb : t.BlanksTo (t.take (lx.extent m t) ++ u) := by
    conv => lhs; rw [← List.take_append_drop (lx.extent m t) t]
    exact (Text.BlanksTo.refl _).append h
  obtain ⟨body, rfl⟩ := Marker.opens_iff.1 ho
  obtain ⟨k, hk⟩ := Nat.exists_eq_add_of_le (le_stringExtent m multiline m.length body)
  have he : lx.extent m (m.text ++ body) = m.length + k := by
    rw [← hk, extent, hs]
    simp [← Marker.length_text]
  rw [he] at h hb ⊢
  rw [← Marker.length_text, List.take_length_add_append, List.append_assoc] at hb ⊢
  rw [← Marker.length_text, List.drop_length_add_append] at h
  refine ⟨markerAt?_of_blanksTo hlx hb hm (Marker.opens_append _ _), ?_⟩
  have hle := stringExtent_le m multiline m.length body
  have hkb : k ≤ body.length := by omega
  have hbody : Text.BlanksTo body (body.take k ++ u) := by
    conv => lhs; rw [← List.take_append_drop k body]
    exact (Text.BlanksTo.refl _).append h
  rw [extent, hs]
  dsimp only
  rw [← Marker.length_text, List.drop_left, Marker.length_text, ← hk]
  apply stringExtent_eq_of_blanksTo (hlx.visible m hmem).1 hbody
  rw [hk, Nat.add_sub_cancel_left, List.take_append_of_le_length (by simp [hkb]), List.take_take,
    Nat.min_self]

/-! ## The segments of a text without comments -/

include hlx in
/-- What is blanked is code. -/
theorem segments_blanked_append (a t : Text) :
    lx.segments (a.blanked ++ t) = a.blanked.map .code ++ lx.segments t := by
  refine segments_code_append ?_ t
  intro c hc m hm e
  have hv := hlx.visible m hm
  have hhead : m.head ∈ m.text := List.mem_cons_self
  rcases Text.mem_blanked hc with rfl | rfl
  · exact hv.1 (e ▸ hhead)
  · exact hv.2 (e ▸ hhead)

include hlx in
/-- Behind blanked comments the same code and the same strings are found. -/
theorem segments_cleaned_kept (t : Text) :
    lx.segments (lx.cleaned .kept t) = (lx.segments t).flatMap Segment.uncommented := by
  induction t using segments_induction lx with
  | nil => simp [cleaned]
  | code c rest hm ih =>
    have hb := (lx.blanksTo_cleaned .kept rest).cons_same c
    rw [cleaned_cons_code _ hm, segments_cons_code (markerAt?_eq_none_of_blanksTo hlx hb hm), ih,
      segments_cons_code hm]
    rfl
  | marker t m hm ih =>
    rw [cleaned_of_markerAt? _ hm, segments_of_markerAt? hm, List.flatMap_cons, ← ih]
    have comment (hs : lx.segmentAt m t = .comment (t.take (lx.extent m t))) :
        lx.segments ((lx.segmentAt m t).shown .kept ++
            lx.cleaned .kept (t.drop (lx.extent m t))) =
          (lx.segmentAt m t).uncommented ++
            lx.segments (lx.cleaned .kept (t.drop (lx.extent m t))) := by
      rw [hs]
      exact segments_blanked_append hlx _ _
    cases hs : lx.opening m with
    | lineComment => exact comment (by simp [segmentAt, hs])
    | blockComment closer => exact comment (by simp [segmentAt, hs])
    | string multiline =>
      have hseg : ∀ u, lx.segmentAt m u = Segment.ofString m (u.take (lx.extent m u)) := by
        intro u
        simp [segmentAt, hs]
      obtain ⟨hmu, hext⟩ := extent_of_blanksTo hlx hm hs
        (lx.blanksTo_cleaned .kept (t.drop (lx.extent m t)))
      have hlen : (t.take (lx.extent m t)).length = lx.extent m t := by
        rw [List.length_take]
        exact Nat.min_eq_left (lx.extent_le_length (opens_of_markerAt? hm))
      rw [hseg, Segment.shown_kept_ofString, segments_of_markerAt? hmu, hseg, hext,
        List.take_left' hlen, List.drop_left' hlen, Segment.uncommented_ofString]
      rfl

include hlx in
/-- Blanking all comments first does not change what cleaning leaves. -/
theorem cleaned_cleaned_kept (contents : StringContents) (t : Text) :
    lx.cleaned contents (lx.cleaned .kept t) = lx.cleaned contents t := by
  rw [cleaned, segments_cleaned_kept hlx, cleaned, List.flatMap_assoc]
  congr 1
  funext s
  exact s.flatMap_shown_uncommented contents

end Lexis

/-! ## Imports -/

/-- A grammar sees of a text only what cleaning leaves of it. -/
theorem Grammar.imports_congr {g : Grammar} {t u : Text}
    (h : ∀ contents, g.lexis.cleaned contents t = g.lexis.cleaned contents u) :
    g.imports t = g.imports u := by
  have hshown : (g.lexis.segments t).flatMap (Segment.shown g.strings) =
      (g.lexis.segments u).flatMap (Segment.shown g.strings) := h g.strings
  have hcode : (g.lexis.segments t).flatMap (Segment.shown .blanked) =
      (g.lexis.segments u).flatMap (Segment.shown .blanked) := h .blanked
  unfold imports
  dsimp only
  rw [hshown, hcode]

theorem Parser.parse_eq_imports {p : Parser} {g : Grammar} (h : p.grammar? = some g) (t : Text) :
    p.parse t = .ok (g.imports t) := by
  unfold parse
  rw [h]

/-- **Comments are transparent** to every parser with a grammar: blanking them first changes neither
what cleaning leaves of a text nor the names found in it. -/
theorem Parser.parse_without_comments {p : Parser} {g : Grammar} (h : p.grammar? = some g)
    (t : Text) :
    (∀ contents, g.lexis.cleaned contents (g.lexis.cleaned .kept t) =
        g.lexis.cleaned contents t) ∧
      p.parse (g.lexis.cleaned .kept t) = p.parse t := by
  have hclean := fun contents =>
    Lexis.cleaned_cleaned_kept (Parser.regular_lexis h) contents t
  refine ⟨hclean, ?_⟩
  rw [parse_eq_imports h, parse_eq_imports h, Grammar.imports_congr hclean]

/-- Comments that hold quotes, and a string that holds comment markers and an escaped quote. -/
theorem Parser.parse_without_comments_php :
    Parser.php.grammar? = some Grammar.php ∧
      let t := "use A; # it's\n$s = \"/* \\\" #\"; /* ' */use /*\n*// B; //".toList
      Grammar.php.lexis.cleaned .kept t =
          "use A;       \n$s = \"/* \\\" #\";        use   \n  / B;   ".toList ∧
        (∀ contents, Grammar.php.lexis.cleaned contents (Grammar.php.lexis.cleaned .kept t) =
          Grammar.php.lexis.cleaned contents t) ∧
        Parser.php.parse (Grammar.php.lexis.cleaned .kept t) = Parser.php.parse t :=
  ⟨rfl, by decide +kernel, parse_without_comments rfl _⟩

end ImportScan
