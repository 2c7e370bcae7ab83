import ImportScan.Text.Blank

/-!
# Trimmed texts

A text is trimmed if it has no white space at either end. Trimming makes a text so
(`isTrimmed_trim`), leaves a trimmed text as it is (`trim_eq_self`), and does not notice white space
that is put in front of a text (`trim_blanks_append`) or behind it (`trim_append_blanks`).
-/

namespace ImportScan

/-- Taking stops where the class stops. -/
theorem takeWhile_append_stop {α : Type} {p : α → Bool} {t rest : List α}
    (ht : ∀ x ∈ t, p x = true) (hrest : ∀ x ∈ rest.head?, p x = false) :
    (t ++ rest).takeWhile p = t := by
  rw [List.takeWhile_append_of_pos ht]
  cases rest with
  | nil => simp
  | cons x rest => simp [hrest x rfl]

namespace Text

/-- There is no white space at either end of the text. -/
structure IsTrimmed (t : Text) : Prop where
  start : ∀ c ∈ t.head?, isBlank c = false
  stop : ∀ c ∈ t.getLast?, isBlank c = false

/-- The text is white space. -/
def AllBlank (t : Text) : Prop := ∀ c ∈ t, isBlank c = true

/-! ## The ends of a text -/

section Ends

variable {P : Char → Prop} {a b : Text}

theorem forall_head?_append (ha : ∀ c ∈ a.head?, P c) (hb : ∀ c ∈ b.head?, P c) :
    ∀ c ∈ (a ++ b).head?, P c := by
  cases a with
  | nil => exact hb
  | cons x a => exact ha

theorem forall_head?_append_of_ne_nil (hne : a ≠ []) (ha : ∀ c ∈ a, P c) :
    ∀ c ∈ (a ++ b).head?, P c := by
  obtain ⟨x, a, rfl⟩ := List.exists_cons_of_ne_nil hne
  rintro c ⟨⟩
  exact ha x List.mem_cons_self

theorem forall_getLast?_append (ha : ∀ c ∈ a.getLast?, P c) (hb : ∀ c ∈ b.getLast?, P c) :
    ∀ c ∈ (a ++ b).getLast?, P c := by
  rw [List.getLast?_append]
  cases h : b.getLast? with
  | none => exact ha
  | some d =>
    rintro c ⟨⟩
    exact hb d h

/-- What holds of the end of a text holds of the end of its last part. -/
theorem forall_getLast?_of_append (h : ∀ c ∈ (a ++ b).getLast?, P c) : ∀ c ∈ b.getLast?, P c := by
  intro c hc
  refine h c ?_
  rw [List.getLast?_append, hc]
  rfl

theorem forall_getLast?_append_of_ne_nil (hne : b ≠ []) (hb : ∀ c ∈ b.getLast?, P c) :
    ∀ c ∈ (a ++ b).getLast?, P c := by
  intro c hc
  rw [List.getLast?_append, List.getLast?_eq_some_getLast hne] at hc
  exact hb c (by rwa [List.getLast?_eq_some_getLast hne])

end Ends

/-! ## At the start -/

theorem head?_trimStart {t : Text} {c : Char} (h : c ∈ (trimStart t).head?) :
    isBlank c = false := by
  have hd := List.head?_dropWhile_not isBlank t
  have hc : (t.dropWhile isBlank).head? = some c := h
  rw [hc] at hd
  exact hd

theorem trimStart_eq_self {t : Text} (h : ∀ c ∈ t.head?, isBlank c = false) : trimStart t = t := by
  cases t with
  | nil => rfl
  | cons c t =>
    unfold trimStart
    rw [List.dropWhile_cons_of_neg]
    simp [h c rfl]

theorem trimStart_blanks_append {b : Text} (hb : b.AllBlank) (t : Text) :
    trimStart (b ++ t) = trimStart t := List.dropWhile_append_of_pos hb

theorem trimStart_eq_nil {b : Text} (hb : b.AllBlank) : trimStart b = [] := by
  have h := trimStart_blanks_append hb []
  rwa [List.append_nil] at h

/-! ## At the end -/

theorem trimEnd_eq_reverse (t : Text) : trimEnd t = (trimStart t.reverse).reverse := rfl

theorem trimEnd_eq_self {t : Text} (h : ∀ c ∈ t.getLast?, isBlank c = false) : trimEnd t = t := by
  rw [trimEnd_eq_reverse, trimStart_eq_self, List.reverse_reverse]
  rwa [List.head?_reverse]

theorem trimEnd_append_blanks {b : Text} (hb : b.AllBlank) (t : Text) :
    trimEnd (t ++ b) = trimEnd t := by
  have hrev : AllBlank b.reverse := fun c hc => hb c (List.mem_reverse.1 hc)
  rw [trimEnd_eq_reverse, List.reverse_append, trimStart_blanks_append hrev, trimEnd_eq_reverse]

theorem getLast?_trimEnd {t : Text} {c : Char} (h : c ∈ (trimEnd t).getLast?) :
    isBlank c = false := by
  rw [trimEnd_eq_reverse, List.getLast?_reverse] at h
  exact head?_trimStart h

theorem trimEnd_isPrefix (t : Text) : trimEnd t <+: t := by
  have hs : trimStart t.reverse <:+ t.reverse := List.dropWhile_suffix isBlank
  rw [trimEnd_eq_reverse, ← List.reverse_suffix, List.reverse_reverse]
  exact hs

/-! ## At both ends -/

theorem isTrimmed_trim (t : Text) : IsTrimmed (trim t) := by
  refine ⟨?_, fun c hc => getLast?_trimEnd hc⟩
  intro c hc
  -- trimming the end leaves the first character, unless it leaves nothing
  obtain ⟨rest, hr⟩ := trimEnd_isPrefix (trimStart t)
  apply head?_trimStart (t := t)
  have hhead : (trimEnd (trimStart t)).head? = some c := hc
  rw [← hr, List.head?_append, hhead]
  rfl

theorem trim_eq_self {t : Text} (h : IsTrimmed t) : trim t = t := by
  unfold trim
  rw [trimStart_eq_self h.start, trimEnd_eq_self h.stop]

/-- A text without white space is trimmed. -/
theorem trim_eq_self_of_forall {t : Text} (h : ∀ c ∈ t, isBlank c = false) : trim t = t := by
  apply trim_eq_self
  constructor
  · exact fun c hc => h c (List.mem_of_head? hc)
  · exact fun c hc => h c (List.mem_of_getLast? hc)

theorem trim_blanks_append {b : Text} (hb : b.AllBlank) (t : Text) : trim (b ++ t) = trim t := by
  unfold trim
  rw [trimStart_blanks_append hb]

theorem trim_append_blanks {b : Text} (hb : b.AllBlank) (t : Text) : trim (t ++ b) = trim t := by
  have hstart : trimStart (t ++ b) = trimStart t ++ b ∨
      trimStart (t ++ b) = [] ∧ trimStart t = [] := by
    unfold trimStart
    rw [List.dropWhile_append]
    cases h : t.dropWhile isBlank with
    | nil => exact .inr ⟨trimStart_eq_nil hb, rfl⟩
    | cons c rest => exact .inl rfl
  unfold trim
  rcases hstart with h | ⟨h, h'⟩
  · rw [h, trimEnd_append_blanks hb]
  · rw [h, h']

/-- Trimming takes white space off both ends. -/
theorem exists_eq_append_trim (t : Text) :
    ∃ b b', t = b ++ (trim t ++ b') ∧ AllBlank b ∧ AllBlank b' := by
  have hcut (t : Text) : ∃ b, t = b ++ trimStart t ∧ AllBlank b := by
    refine ⟨t.takeWhile isBlank, List.takeWhile_append_dropWhile.symm, ?_⟩
    intro c hc
    exact List.all_eq_true.1 List.all_takeWhile c hc
  obtain ⟨b, hb, hblank⟩ := hcut t
  obtain ⟨b', hb', hblank'⟩ := hcut (trimStart t).reverse
  refine ⟨b, b'.reverse, ?_, hblank, ?_⟩
  · have hstart : trimStart t = trim t ++ b'.reverse := by
      have := congrArg List.reverse hb'
      rwa [List.reverse_reverse, List.reverse_append] at this
    rw [← hstart]
    exact hb
  · intro c hc
    exact hblank' c (List.mem_reverse.1 hc)

/-- What is not white space stays at the start. -/
theorem exists_trim_cons {c : Char} (hc : isBlank c = false) (t : Text) :
    ∃ r, trim (c :: t) = c :: r := by
  obtain ⟨b, b', h, hb, hb'⟩ := exists_eq_append_trim (c :: t)
  cases b with
  | cons d b =>
    obtain ⟨rfl, -⟩ := List.cons.inj h
    exact absurd (hb c List.mem_cons_self) (by simp [hc])
  | nil =>
    cases ht : trim (c :: t) with
    | cons d r =>
      rw [ht] at h
      obtain ⟨rfl, -⟩ := List.cons.inj h
      exact ⟨r, rfl⟩
    | nil =>
      have hmem : c ∈ b' := by
        rw [ht, List.nil_append, List.nil_append] at h
        exact h ▸ List.mem_cons_self
      exact absurd (hb' c hmem) (by simp [hc])

end Text
end ImportScan
