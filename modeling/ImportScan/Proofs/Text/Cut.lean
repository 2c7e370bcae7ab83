import ImportScan.Proofs.Text.Trim
import Mathlib.Data.List.Infix

/-!
# Where a text is cut first

A text has one first character of a class, so it is cut there in one way
(`append_cons_inj_of_first`). What stands before a character is read off a text that does not have
it (`before_append`), and a text without white space in front of white space is the first word
(`words_append`). What stands before a separator does not hold it (`not_isInfix_before`), and a
piece between separators is a stretch of the text (`isInfix_of_mem_fields`).
-/

namespace ImportScan.Text

variable {p : Char → Bool} {a b r s t : Text} {x y : Char}

/-- A text of a class has no character that is not of it. -/
theorem not_mem_of_class (ht : ∀ c ∈ t, p c = true) (hx : p x = false) : x ∉ t :=
  fun h => absurd (ht x h) (by simp [hx])

theorem takeWhile_append_cons (ha : ∀ c ∈ a, p c = false) (hx : p x = true) :
    (a ++ x :: r).takeWhile (!p ·) = a := by
  rw [List.takeWhile_append_of_pos (by simpa using ha), List.takeWhile_cons]
  simp [hx]

/-- Two cuts at the first character of a class are the same. -/
theorem append_cons_inj_of_first (ha : ∀ c ∈ a, p c = false) (hb : ∀ c ∈ b, p c = false)
    (hx : p x = true) (hy : p y = true) (h : a ++ x :: r = b ++ y :: s) :
    a = b ∧ x = y ∧ r = s := by
  have hab : a = b := by
    rw [← takeWhile_append_cons (r := r) ha hx, h, takeWhile_append_cons hb hy]
  subst hab
  obtain ⟨rfl, rfl⟩ := List.cons.inj (List.append_cancel_left h)
  exact ⟨rfl, rfl, rfl⟩

/-- A text starts in one way with a run of the class and a character that ends it. -/
theorem append_cons_inj_of_run (ha : ∀ c ∈ a, p c = true) (hb : ∀ c ∈ b, p c = true)
    (hx : p x = false) (hy : p y = false) (h : a ++ x :: r = b ++ y :: s) :
    a = b ∧ x = y ∧ r = s :=
  append_cons_inj_of_first (p := fun c => !p c) (by simpa using ha) (by simpa using hb)
    (by simpa using hx) (by simpa using hy) h

/-- A text starts in one way with a run of the class that nothing goes on with. -/
theorem append_inj_of_run (ha : ∀ c ∈ a, p c = true) (hb : ∀ c ∈ b, p c = true)
    (hr : ∀ c ∈ r.head?, p c = false) (hs : ∀ c ∈ s.head?, p c = false) (h : a ++ r = b ++ s) :
    a = b ∧ r = s := by
  have hab : a = b := by
    rw [← takeWhile_append_stop ha hr, h, takeWhile_append_stop hb hs]
  subst hab
  exact ⟨rfl, List.append_cancel_left h⟩

/-- A text with a character of the class has a first one. -/
theorem exists_first (h : ∃ c ∈ b, p c = true) :
    ∃ a x r, b = a ++ x :: r ∧ (∀ c ∈ a, p c = false) ∧ p x = true := by
  obtain ⟨x, hx⟩ := Option.isSome_iff_exists.1 (List.find?_isSome.2 h)
  obtain ⟨hp, a, r, hb, ha⟩ := List.find?_eq_some_iff_append.1 hx
  exact ⟨a, x, r, hb, by simpa using ha, hp⟩

/-! ## Before a character -/

theorem before_append_of_head {sep : Text} (hx : x ∈ sep.head?) (ha : x ∉ a) (t : Text) :
    before sep (a ++ t) = a ++ before sep t := by
  obtain ⟨rest, rfl⟩ := List.head?_eq_some_iff.1 hx
  induction a with
  | nil => rfl
  | cons c a ih =>
    obtain ⟨hc, ha⟩ := not_or.1 (ha ∘ List.mem_cons.2)
    rw [List.cons_append, before, if_neg, ih ha, List.cons_append]
    simp [hc]

theorem before_append (ha : x ∉ a) (t : Text) : before [x] (a ++ t) = a ++ before [x] t :=
  before_append_of_head rfl ha t

theorem before_cons_self (x : Char) (t : Text) : before [x] (x :: t) = [] := by
  rw [before, if_pos]
  simp

theorem before_eq_self (ha : x ∉ a) : before [x] a = a := by
  simpa using before_append ha []

/-- No separator stands in what is before the first. -/
theorem not_isInfix_before {sep : Text} (hsep : sep ≠ []) (t : Text) : ¬sep <:+: before sep t := by
  induction t with
  | nil =>
    intro h
    exact hsep (List.infix_nil.1 h)
  | cons c t ih =>
    rw [before]
    split
    · intro h
      exact hsep (List.infix_nil.1 h)
    · rename_i hno
      intro h
      rcases List.infix_cons_iff.1 h with h | h
      · have hprefix : c :: before sep t <+: c :: t :=
          (List.prefix_cons_inj c).2 (before_isPrefix _ _)
        exact hno (List.isPrefixOf_iff_prefix.2 (h.trans hprefix))
      · exact ih h

theorem not_mem_before (x : Char) (t : Text) : x ∉ before [x] t := by
  intro h
  exact not_isInfix_before (List.cons_ne_nil x []) t ((List.singleton_infix_iff x _).2 h)

/-! ## First segments -/

theorem mem_firstSegment {c : Char} (h : c ∈ firstSegment [x] t) : c ∈ t ∧ c ≠ x := by
  have hbefore := mem_of_mem_trim h
  refine ⟨mem_of_mem_trim ((before_isPrefix _ _).subset hbefore), ?_⟩
  rintro rfl
  exact not_mem_before c _ hbefore

/-- The first segment of a text starts with its first character, unless that is the separator or
white space. -/
theorem exists_firstSegment_cons {c : Char} (hc : isBlank c = false) (hx : c ≠ x) (t : Text) :
    ∃ r, firstSegment [x] (c :: t) = c :: r := by
  obtain ⟨r, hr⟩ := exists_trim_cons hc t
  have hbefore : before [x] (c :: r) = c :: before [x] r :=
    before_append (a := [c]) (by simpa using hx.symm) r
  rw [firstSegment, hr, hbefore]
  exact exists_trim_cons hc _

/-- What stands in front of the first separator of a text without white space is its first
segment. -/
theorem firstSegment_append (ha : x ∉ a) (hr : ∀ c ∈ r.head?, c = x)
    (hsolid : ∀ c ∈ a ++ r, isBlank c = false) : firstSegment [x] (a ++ r) = a := by
  have hbefore : before [x] (a ++ r) = a := by
    rw [before_append ha]
    cases r with
    | nil => exact List.append_nil a
    | cons y r => rw [hr y rfl, before_cons_self, List.append_nil]
  rw [firstSegment, trim_eq_self_of_forall hsolid, hbefore]
  exact trim_eq_self_of_forall fun c hc => hsolid c (List.mem_append_left r hc)

/-! ## Pieces -/

theorem isInfix_of_mem_fields {w : Text} (h : w ∈ fields p t) : w <:+: t := by
  have key : ∀ t, ∃ first others, fields p t = first :: others ∧ first <+: t ∧
      ∀ w ∈ others, w <:+: t := by
    intro t
    induction t with
    | nil => exact ⟨[], [], rfl, List.prefix_refl _, fun w hw => nomatch hw⟩
    | cons c t ih =>
      obtain ⟨first, others, hfields, hfirst, hothers⟩ := ih
      have hlater : ∀ w ∈ others, w <:+: c :: t := fun w hw => List.infix_cons (hothers w hw)
      rw [fields]
      split
      · refine ⟨[], fields p t, rfl, List.nil_prefix, ?_⟩
        rw [hfields]
        intro w hw
        rcases List.mem_cons.1 hw with rfl | hw
        · exact List.infix_cons hfirst.isInfix
        · exact hlater w hw
      · rw [hfields]
        exact ⟨c :: first, others, rfl, (List.prefix_cons_inj c).2 hfirst, hlater⟩
  obtain ⟨first, others, hfields, hfirst, hothers⟩ := key t
  rw [hfields] at h
  rcases List.mem_cons.1 h with rfl | h
  · exact hfirst.isInfix
  · exact hothers w h

theorem isInfix_of_mem_words {w : Text} (h : w ∈ words t) : w <:+: t :=
  isInfix_of_mem_fields (List.mem_filter.1 h).1

theorem mem_join {c : Char} {sep : Text} {ts : List Text} (h : c ∈ join sep ts) :
    c ∈ sep ∨ ∃ w ∈ ts, c ∈ w := by
  induction ts with
  | nil => cases h
  | cons w ts ih =>
    cases ts with
    | nil => exact .inr ⟨w, List.mem_cons_self, by simpa [join] using h⟩
    | cons v ts =>
      have hjoin : join sep (w :: v :: ts) = w ++ (sep ++ join sep (v :: ts)) := rfl
      rw [hjoin] at h
      rcases List.mem_append.1 h with h | h
      · exact .inr ⟨w, List.mem_cons_self, h⟩
      rcases List.mem_append.1 h with h | h
      · exact .inl h
      rcases ih h with h | ⟨u, hu, h⟩
      · exact .inl h
      · exact .inr ⟨u, List.mem_cons_of_mem w hu, h⟩

theorem fields_ne_nil (p : Char → Bool) (t : Text) : fields p t ≠ [] := by
  cases t with
  | nil => exact List.cons_ne_nil _ _
  | cons c t =>
    rw [fields]
    split
    · exact List.cons_ne_nil _ _
    · cases fields p t <;> exact List.cons_ne_nil _ _

/-- Behind a separator the text is cut as if it began there. -/
theorem fields_append_separator (hx : p x = true) (a r : Text) :
    fields p (a ++ x :: r) = fields p a ++ fields p r := by
  induction a with
  | nil =>
    have hempty : fields p [] = [[]] := rfl
    rw [List.nil_append, hempty, List.singleton_append, fields, if_pos hx]
  | cons c a ih =>
    obtain ⟨piece, pieces, hpieces⟩ := List.exists_cons_of_ne_nil (fields_ne_nil p a)
    rw [List.cons_append, fields, fields, ih, hpieces]
    split <;> rfl

theorem fields_eq_self (ha : ∀ c ∈ a, p c = false) : fields p a = [a] := by
  induction a with
  | nil => rfl
  | cons c a ih =>
    have hc : ¬p c = true := by simp [ha c List.mem_cons_self]
    rw [fields, if_neg hc, ih fun d hd => ha d (List.mem_cons_of_mem c hd)]
    rfl

theorem fields_append_cons (ha : ∀ c ∈ a, p c = false) (hx : p x = true) :
    fields p (a ++ x :: r) = a :: fields p r := by
  rw [fields_append_separator hx, fields_eq_self ha, List.singleton_append]

/-! ## The first word -/

/-- A text without white space is the first word where white space follows. -/
theorem words_append (hne : a ≠ []) (ha : ∀ c ∈ a, isBlank c = false)
    (hr : ∀ c ∈ r.head?, isBlank c = true) : words (a ++ r) = a :: words r := by
  unfold words
  cases r with
  | nil => rw [List.append_nil, fields_eq_self ha]; simp [hne, fields]
  | cons x r =>
    have hx : isBlank x = true := hr x rfl
    rw [fields_append_cons ha hx, fields, if_pos hx]
    simp [hne]

/-- White space in front makes no word. -/
theorem words_blanks_append (ha : a.AllBlank) : words (a ++ r) = words r := by
  induction a with
  | nil => rfl
  | cons c a ih =>
    have hc : isBlank c = true := ha c List.mem_cons_self
    rw [← ih fun d hd => ha d (List.mem_cons_of_mem c hd)]
    unfold words
    rw [List.cons_append, fields, if_pos hc]
    simp

end ImportScan.Text
