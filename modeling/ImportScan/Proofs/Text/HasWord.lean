import ImportScan.Proofs.Text.Collapse
import ImportScan.Text.Word

/-!
# Words in a text

A word stands in a text where no word character goes on at either end of it. What is no word
character may be put around a text without making or breaking a word (`hasWord_cons`,
`hasWord_concat`), so white space does not matter (`hasWord_surround`).
-/

namespace ImportScan.Text

/-! ## Word characters and white space -/

/-- The code points of white space. -/
def blankCodes : List Nat :=
  [0x09, 0x0A, 0x0B, 0x0C, 0x0D, 0x1C, 0x1D, 0x1E, 0x1F, 0x20, 0x85, 0xA0, 0x1680, 0x2000, 0x2001,
    0x2002, 0x2003, 0x2004, 0x2005, 0x2006, 0x2007, 0x2008, 0x2009, 0x200A, 0x2028, 0x2029, 0x202F,
    0x205F, 0x3000]

theorem toNat_mem_blankCodes {c : Char} (h : isBlank c = true) : c.toNat ∈ blankCodes := by
  simp only [isBlank, Bool.or_eq_true, Bool.and_eq_true, decide_eq_true_eq, beq_iff_eq] at h
  simp only [blankCodes, List.mem_cons, List.not_mem_nil, or_false]
  omega

theorem isWord_eq_false_of_isBlank {c : Char} (h : isBlank c = true) : isWord c = false := by
  have hcodes : ∀ n ∈ blankCodes, isWord (Char.ofNat n) = false := by decide +kernel
  rw [← Char.ofNat_toNat c]
  exact hcodes _ (toNat_mem_blankCodes h)

theorem isWord_eq_false_of_isGap {c : Char} (h : isGap c = true) : isWord c = false :=
  isWord_eq_false_of_isBlank (isBlank_of_isGap h)

theorem isBlank_eq_false_of_isWord {c : Char} (h : isWord c = true) : isBlank c = false := by
  cases hb : isBlank c with
  | false => rfl
  | true => exact absurd (isWord_eq_false_of_isBlank hb) (by simp [h])

theorem isDotted_of_isWord {c : Char} (h : isWord c = true) : isDotted c = true := by
  rw [isDotted, h, Bool.true_or]

theorem isDotted_eq_false_of_isBlank {c : Char} (h : isBlank c = true) : isDotted c = false := by
  have hdot : c ≠ '.' := by
    rintro rfl
    cases h
  simp [isDotted, isWord_eq_false_of_isBlank h, hdot]

theorem isDotted_eq_false_of_isGap {c : Char} (h : isGap c = true) : isDotted c = false :=
  isDotted_eq_false_of_isBlank (isBlank_of_isGap h)

theorem isGap_eq_false_of_isDotted {c : Char} (h : isDotted c = true) : isGap c = false := by
  cases hg : isGap c with
  | false => rfl
  | true => exact absurd (isDotted_eq_false_of_isGap hg) (by simp [h])

theorem isBlank_eq_false_of_isDotted {c : Char} (h : isDotted c = true) : isBlank c = false := by
  cases hb : isBlank c with
  | false => rfl
  | true => exact absurd (isDotted_eq_false_of_isBlank hb) (by simp [h])

/-! ## Words -/

/-- A nonempty text of word characters. -/
def IsWord (w : Text) : Prop := w ≠ [] ∧ ∀ c ∈ w, isWord c = true

instance (w : Text) : Decidable (IsWord w) := inferInstanceAs (Decidable (_ ∧ _))

/-- The last character, if any, is no word character. -/
def EndsApart (t : Text) : Prop := ∀ c ∈ t.getLast?, isWord c = false

/-- The first character, if any, is no word character. -/
def StartsApart (t : Text) : Prop := ∀ c ∈ t.head?, isWord c = false

/-- The text has `w` as a word. -/
def HasWord (w t : Text) : Prop := ∃ a b, t = a ++ (w ++ b) ∧ EndsApart a ∧ StartsApart b

/-! ## Kinds of text -/

/-- Spaces and tabs, if any. -/
abbrev Indent := { t : Text // ∀ c ∈ t, isGap c = true }

/-- Spaces and tabs, at least one. -/
abbrev Gaps := { t : Text // t ≠ [] ∧ ∀ c ∈ t, isGap c = true }

/-- White space, if any. -/
abbrev Blanks := { t : Text // AllBlank t }

/-- White space, at least one character. -/
abbrev Spaces := { t : Text // t ≠ [] ∧ AllBlank t }

/-- A word by itself. -/
abbrev Word := { w : Text // IsWord w }

theorem isSolid_word (w : Word) : IsSolid w.val :=
  ⟨w.2.1, fun c hc => isBlank_eq_false_of_isWord (w.2.2 c hc)⟩

/-! ## Words at the start of a text and in it -/

variable {w t b b' : Text} {x : Char}

/-- A text starts with one word at most. -/
theorem IsWord.append_inj {v r s : Text} (hw : IsWord w) (hv : IsWord v) (hr : StartsApart r)
    (hs : StartsApart s) (h : w ++ r = v ++ s) : w = v ∧ r = s :=
  append_inj_of_run hw.2 hv.2 hr hs h

theorem StartsApart.append (ht : StartsApart t) (hb : StartsApart b) : StartsApart (t ++ b) :=
  forall_head?_append ht hb

theorem EndsApart.append (ht : EndsApart t) (hb : EndsApart b) : EndsApart (t ++ b) :=
  forall_getLast?_append ht hb

theorem EndsApart.append_left (hb : EndsApart b) (hne : b ≠ []) (t : Text) : EndsApart (t ++ b) :=
  forall_getLast?_append_of_ne_nil hne hb

theorem HasWord.subset (h : HasWord w t) : w ⊆ t := by
  obtain ⟨a, b, rfl, -, -⟩ := h
  intro c hc
  exact List.mem_append_right a (List.mem_append_left b hc)

theorem endsApart_cons (hx : isWord x = false) : EndsApart (x :: t) ↔ EndsApart t := by
  unfold EndsApart
  rw [List.getLast?_cons]
  cases t.getLast? <;> simp [hx]

theorem startsApart_concat (hx : isWord x = false) : StartsApart (t ++ [x]) ↔ StartsApart t := by
  unfold StartsApart
  rw [List.head?_append]
  cases t.head? <;> simp [hx]

/-- A character in front that is no word character makes no word and breaks none. -/
theorem hasWord_cons (hw : IsWord w) (hx : isWord x = false) :
    HasWord w (x :: t) ↔ HasWord w t := by
  constructor
  · rintro ⟨a, b, h, ha, hb⟩
    cases a with
    | nil =>
      obtain ⟨c, w, rfl⟩ := List.exists_cons_of_ne_nil hw.1
      obtain ⟨rfl, -⟩ := List.cons.inj h
      exact absurd (hw.2 x List.mem_cons_self) (by simp [hx])
    | cons y a =>
      obtain ⟨rfl, rfl⟩ := List.cons.inj h
      exact ⟨a, b, rfl, (endsApart_cons hx).1 ha, hb⟩
  · rintro ⟨a, b, rfl, ha, hb⟩
    exact ⟨x :: a, b, rfl, (endsApart_cons hx).2 ha, hb⟩

/-- A character behind that is no word character makes no word and breaks none. -/
theorem hasWord_concat (hw : IsWord w) (hx : isWord x = false) :
    HasWord w (t ++ [x]) ↔ HasWord w t := by
  constructor
  · rintro ⟨a, b, h, ha, hb⟩
    rcases List.eq_nil_or_concat b with rfl | ⟨b, y, rfl⟩
    · obtain ⟨w, c, rfl⟩ := (List.eq_nil_or_concat w).resolve_left hw.1
      have hlast : x = c := by
        have := congrArg List.getLast? h
        simpa [← List.append_assoc] using this
      exact absurd (hw.2 c (by simp)) (by simp [← hlast, hx])
    · rw [List.concat_eq_append] at h hb
      rw [← List.append_assoc, ← List.append_assoc] at h
      obtain ⟨rfl, hy⟩ := List.append_inj' h rfl
      obtain rfl := List.singleton_inj.1 hy
      exact ⟨a, b, List.append_assoc _ _ _, ha, (startsApart_concat hx).1 hb⟩
  · rintro ⟨a, b, rfl, ha, hb⟩
    refine ⟨a, b ++ [x], ?_, ha, (startsApart_concat hx).2 hb⟩
    simp only [List.append_assoc]

/-- A word has no other word. -/
theorem IsWord.eq_of_hasWord (ht : IsWord t) (h : HasWord w t) : w = t := by
  obtain ⟨a, b, rfl, ha, hb⟩ := h
  have hnil : a = [] := by
    refine List.getLast?_eq_none_iff.1 (Option.eq_none_iff_forall_not_mem.2 fun c hc => ?_)
    have hword := ht.2 c (List.mem_append_left _ (List.mem_of_getLast? hc))
    rw [ha c hc] at hword
    cases hword
  have hnil' : b = [] := by
    refine List.head?_eq_none_iff.1 (Option.eq_none_iff_forall_not_mem.2 fun c hc => ?_)
    have hmem : c ∈ a ++ (w ++ b) :=
      List.mem_append_right a (List.mem_append_right w (List.mem_of_head? hc))
    have hword := ht.2 c hmem
    rw [hb c hc] at hword
    cases hword
  rw [hnil, hnil', List.nil_append, List.append_nil]

/-- Where no word goes on from one text to the next, a word of both is a word of one. -/
theorem HasWord.of_append {a : Text} (hw : IsWord w) (hab : a.EndsApart ∨ b.StartsApart)
    (h : HasWord w (a ++ b)) : HasWord w a ∨ HasWord w b := by
  obtain ⟨u, v, huv, hu, hv⟩ := h
  rcases List.append_eq_append_iff.1 huv with ⟨d, rfl, rfl⟩ | ⟨d, rfl, hd⟩
  · exact .inr ⟨d, v, rfl, forall_getLast?_of_append hu, hv⟩
  rcases List.append_eq_append_iff.1 hd with ⟨e, rfl, rfl⟩ | ⟨e, rfl, rfl⟩
  · refine .inl ⟨u, e, rfl, hu, fun c hc => hv c ?_⟩
    rw [List.head?_append, hc]
    rfl
  · -- the word would be cut into `d` and `e`
    by_cases hd : d = []
    · subst hd
      exact .inr ⟨[], v, rfl, fun c hc => (nomatch hc), hv⟩
    by_cases he : e = []
    · subst he
      exact .inl ⟨u, [], by simp, hu, fun c hc => (nomatch hc)⟩
    obtain ⟨d, x, rfl⟩ := (List.eq_nil_or_concat d).resolve_left hd
    obtain ⟨y, e, rfl⟩ := List.exists_cons_of_ne_nil he
    have hx : isWord x = true := hw.2 x (by simp)
    have hy : isWord y = true := hw.2 y (by simp)
    rcases hab with hab | hab
    · rw [hab x (by simp)] at hx
      cases hx
    · rw [hab y rfl] at hy
      cases hy

/-- White space around a text makes no word and breaks none. -/
theorem hasWord_surround (hw : IsWord w) (hb : AllBlank b) (hb' : AllBlank b') :
    HasWord w (b ++ t ++ b') ↔ HasWord w t := by
  have hfront : HasWord w (b ++ t) ↔ HasWord w t := by
    induction b with
    | nil => exact Iff.rfl
    | cons x b ih =>
      rw [List.cons_append, hasWord_cons hw (isWord_eq_false_of_isBlank (hb x List.mem_cons_self))]
      exact ih fun c hc => hb c (List.mem_cons_of_mem x hc)
  rw [← hfront]
  generalize b ++ t = u
  induction b' generalizing u with
  | nil => rw [List.append_nil]
  | cons x b' ih =>
    have hx := isWord_eq_false_of_isBlank (hb' x List.mem_cons_self)
    have hrest := ih (fun c hc => hb' c (List.mem_cons_of_mem x hc)) (u ++ [x])
    rw [List.append_cons]
    exact hrest.trans (hasWord_concat hw hx)

/-! ## Texts without words -/

/-- The text has no word characters. -/
def Wordless (t : Text) : Prop := ∀ c ∈ t, isWord c = false

instance (t : Text) : Decidable (Wordless t) := inferInstanceAs (Decidable (∀ c ∈ t, _))

theorem AllBlank.wordless (ht : AllBlank t) : Wordless t :=
  fun c hc => isWord_eq_false_of_isBlank (ht c hc)

namespace Wordless

theorem endsApart (ht : Wordless t) : EndsApart t := fun c hc => ht c (List.mem_of_getLast? hc)

theorem startsApart (ht : Wordless t) : StartsApart t := fun c hc => ht c (List.mem_of_head? hc)

theorem not_hasWord (ht : Wordless t) (hw : IsWord w) : ¬HasWord w t := by
  intro h
  obtain ⟨x, v, rfl⟩ := List.exists_cons_of_ne_nil hw.1
  have hx := hw.2 x List.mem_cons_self
  rw [ht x (h.subset List.mem_cons_self)] at hx
  cases hx

end Wordless

theorem startsApart_spaces (w : Spaces) (t : Text) : StartsApart (w.val ++ t) := by
  refine forall_head?_append_of_ne_nil (P := (isWord · = false)) w.2.1 ?_
  exact AllBlank.wordless w.2.2

/-- Where a word stands behind white space, a text that starts there and ends neither in that white
space nor in a word that goes on has the word. -/
theorem exists_of_blanks_word_append {v r r' : Text} (hw : IsWord w) (hv : v ≠ [])
    (hlast : ∀ c ∈ v.getLast?, isBlank c = false) (hr : StartsApart r) (hb : AllBlank b)
    (hr' : StartsApart r') (h : v ++ r = b ++ (w ++ r')) :
    ∃ z, v = b ++ (w ++ z) ∧ StartsApart z := by
  obtain ⟨x, w, rfl⟩ := List.exists_cons_of_ne_nil hw.1
  have hx := isBlank_eq_false_of_isWord (hw.2 x List.mem_cons_self)
  obtain ⟨b', y, v', rfl, hb', hy⟩ : ∃ b' y v', v = b' ++ y :: v' ∧
      (∀ c ∈ b', (!isBlank c) = false) ∧ (!isBlank y) = true := by
    refine exists_first ⟨_, List.getLast_mem hv, ?_⟩
    simp [hlast _ (List.getLast?_eq_some_getLast hv)]
  rw [List.append_assoc, List.cons_append, List.cons_append] at h
  obtain ⟨rfl, rfl, hrest⟩ :=
    append_cons_inj_of_run (by simpa using hb') hb (by simpa using hy) hx h
  -- the rest of the word is all that goes on behind its first character
  have hz : StartsApart (v'.dropWhile isWord) := by
    intro c hc
    have hd := List.head?_dropWhile_not isWord v'
    rw [hc] at hd
    exact hd
  have hsplit : v' = v'.takeWhile isWord ++ v'.dropWhile isWord :=
    List.takeWhile_append_dropWhile.symm
  have hword : v'.takeWhile isWord = w := by
    have hstop : StartsApart (v'.dropWhile isWord ++ r) := forall_head?_append hz hr
    have hfront : (v' ++ r).takeWhile isWord = v'.takeWhile isWord := by
      conv_lhs => rw [hsplit, List.append_assoc]
      exact takeWhile_append_stop (fun c hc => List.all_eq_true.1 List.all_takeWhile c hc) hstop
    rw [← hfront, hrest]
    exact takeWhile_append_stop (fun c hc => hw.2 c (List.mem_cons_of_mem _ hc)) hr'
  refine ⟨v'.dropWhile isWord, ?_, hz⟩
  conv_lhs => rw [hsplit, hword]
  rfl

end ImportScan.Text
