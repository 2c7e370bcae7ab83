import ImportScan.Lexis.Segment

/-!
# Which marker opens at a place

The marker that opens at a place is the longest of those that the text starts with there, and no two
markers that open at one place are equally long. So `markerAt?` is told by a property that does not
look into the search for the longest (`markerAt?_eq_some_iff`, `markerAt?_eq_none_iff`), and the cut
of a text goes on from one marker to the next (`segments_of_markerAt?`, `segments_induction`).
-/

namespace ImportScan

namespace Marker

theorem opens_iff {m : Marker} {t : Text} : m.opens t = true ↔ m.text <+: t :=
  List.isPrefixOf_iff_prefix

@[simp] theorem length_text (m : Marker) : m.text.length = m.length := rfl

theorem eq_of_text_eq {a b : Marker} (h : a.text = b.text) : a = b := by
  obtain ⟨c, s⟩ := a
  obtain ⟨d, t⟩ := b
  obtain ⟨rfl, rfl⟩ := List.cons.inj h
  rfl

theorem opens_append (m : Marker) (t : Text) : m.opens (m.text ++ t) = true :=
  opens_iff.2 (List.prefix_append _ _)

@[simp] theorem opens_nil (m : Marker) : m.opens [] = false := rfl

/-- A marker opens only where its first character stands. -/
theorem head_of_opens {m : Marker} {c : Char} {t : Text} (h : m.opens (c :: t) = true) :
    c = m.head := by
  obtain ⟨rest, hr⟩ := opens_iff.1 h
  exact (List.cons.inj hr).1.symm

theorem not_opens_of_head_ne {m : Marker} {c : Char} {t : Text} (h : c ≠ m.head) :
    m.opens (c :: t) = false := by
  cases ho : m.opens (c :: t) with
  | false => rfl
  | true => exact absurd (head_of_opens ho) h

/-- Of two markers that open at one place, the one that is not longer starts the other. -/
theorem opens_text_of_length_le {a b : Marker} {t : Text} (ha : a.opens t = true)
    (hb : b.opens t = true) (h : a.length ≤ b.length) : a.opens b.text = true :=
  opens_iff.2 (List.prefix_of_prefix_length_le (opens_iff.1 ha) (opens_iff.1 hb) h)

/-- Markers of one length that open at one place are the same. -/
theorem eq_of_opens_of_length_eq {a b : Marker} {t : Text} (ha : a.opens t = true)
    (hb : b.opens t = true) (h : a.length = b.length) : a = b :=
  eq_of_text_eq ((opens_iff.1 (opens_text_of_length_le ha hb (Nat.le_of_eq h))).eq_of_length h)

/-! ## The longest marker -/

/-- The choice between the longest so far and the next marker. -/
private theorem longest?_foldl (b : Marker) (ms : List Marker) :
    ∃ x, (ms.foldl (fun best m => match best with
        | none => some m
        | some b => if b.length < m.length then some m else some b) (some b)) = some x ∧
      x ∈ b :: ms ∧ ∀ m ∈ b :: ms, m.length ≤ x.length := by
  induction ms generalizing b with
  | nil => exact ⟨b, rfl, List.mem_cons_self, by simp⟩
  | cons m ms ih =>
    rw [List.foldl_cons]
    by_cases h : b.length < m.length
    · simp only [if_pos h]
      obtain ⟨x, hx, hm, hl⟩ := ih m
      refine ⟨x, hx, List.mem_cons_of_mem _ hm, ?_⟩
      intro a ha
      rcases List.mem_cons.1 ha with rfl | ha
      · exact Nat.le_trans (Nat.le_of_lt h) (hl m List.mem_cons_self)
      · exact hl a ha
    · simp only [if_neg h]
      obtain ⟨x, hx, hm, hl⟩ := ih b
      refine ⟨x, hx, ?_, ?_⟩
      · rcases List.mem_cons.1 hm with rfl | hm
        · exact List.mem_cons_self
        · exact List.mem_cons_of_mem _ (List.mem_cons_of_mem _ hm)
      · intro a ha
        rcases List.mem_cons.1 ha with rfl | ha
        · exact hl a List.mem_cons_self
        rcases List.mem_cons.1 ha with rfl | ha
        · exact Nat.le_trans (Nat.le_of_not_lt h) (hl b List.mem_cons_self)
        · exact hl a (List.mem_cons_of_mem _ ha)

theorem longest?_eq_none_iff {ms : List Marker} : longest? ms = none ↔ ms = [] := by
  cases ms with
  | nil => simp [longest?]
  | cons m ms =>
    obtain ⟨x, hx, -⟩ := longest?_foldl m ms
    have : longest? (m :: ms) = some x := hx
    simp [this]

theorem longest?_spec {ms : List Marker} {x : Marker} (h : longest? ms = some x) :
    x ∈ ms ∧ ∀ m ∈ ms, m.length ≤ x.length := by
  cases ms with
  | nil => cases h
  | cons m ms =>
    obtain ⟨y, hy, hm, hl⟩ := longest?_foldl m ms
    obtain rfl : y = x := Option.some.inj (hy.symm.trans h)
    exact ⟨hm, hl⟩

end Marker

namespace Lexis

/-! ## The marker at a place -/

theorem markerAt?_eq_none_iff {lx : Lexis} {t : Text} :
    lx.markerAt? t = none ↔ ∀ m ∈ lx.openers, m.opens t = false := by
  unfold markerAt?
  rw [Marker.longest?_eq_none_iff, List.filter_eq_nil_iff]
  simp

/-- The marker at a place opens there, and every other that does is shorter. -/
theorem markerAt?_eq_some_iff {lx : Lexis} {t : Text} {m : Marker} :
    lx.markerAt? t = some m ↔
      m ∈ lx.openers ∧ m.opens t = true ∧
        ∀ m' ∈ lx.openers, m'.opens t = true → m'.length ≤ m.length := by
  unfold markerAt?
  constructor
  · intro h
    obtain ⟨hm, hl⟩ := Marker.longest?_spec h
    obtain ⟨hm, ho⟩ := List.mem_filter.1 hm
    exact ⟨hm, ho, fun m' hm' ho' => hl m' (List.mem_filter.2 ⟨hm', ho'⟩)⟩
  · rintro ⟨hm, ho, hl⟩
    have hmem : m ∈ lx.openers.filter (·.opens t) := List.mem_filter.2 ⟨hm, ho⟩
    cases hx : Marker.longest? (lx.openers.filter (·.opens t)) with
    | none =>
      rw [Marker.longest?_eq_none_iff.1 hx] at hmem
      cases hmem
    | some x =>
      obtain ⟨hxm, hxl⟩ := Marker.longest?_spec hx
      obtain ⟨hx1, hx2⟩ := List.mem_filter.1 hxm
      have e : x.length = m.length := Nat.le_antisymm (hl x hx1 hx2) (hxl m hmem)
      rw [Marker.eq_of_opens_of_length_eq hx2 ho e]

theorem opens_of_markerAt? {lx : Lexis} {t : Text} {m : Marker} (h : lx.markerAt? t = some m) :
    m.opens t = true := (markerAt?_eq_some_iff.1 h).2.1

/-- No marker opens at a character that starts none. -/
theorem markerAt?_eq_none_of_head {lx : Lexis} {c : Char} {t : Text}
    (h : ∀ m ∈ lx.openers, c ≠ m.head) : lx.markerAt? (c :: t) = none :=
  markerAt?_eq_none_iff.2 fun m hm => Marker.not_opens_of_head_ne (h m hm)

/-! ## From one marker to the next -/

/-- A text with a marker at its start is cut behind what the marker opens. -/
theorem segments_of_markerAt? {lx : Lexis} {t : Text} {m : Marker} (h : lx.markerAt? t = some m) :
    lx.segments t = lx.segmentAt m t :: lx.segments (t.drop (lx.extent m t)) := by
  cases t with
  | nil => simpa using opens_of_markerAt? h
  | cons c rest =>
    have hpos := lx.extent_pos m (List.cons_ne_nil c rest)
    obtain ⟨k, hk⟩ := Nat.exists_eq_succ_of_ne_zero (Nat.ne_of_gt hpos)
    rw [segments_cons_marker h, hk]
    simp

/-- What holds of the empty text, and of a text if it holds behind its first segment, holds of every
text. -/
theorem segments_induction (lx : Lexis) {P : Text → Prop} (nil : P [])
    (code : ∀ c rest, lx.markerAt? (c :: rest) = none → P rest → P (c :: rest))
    (marker : ∀ t m, lx.markerAt? t = some m → P (t.drop (lx.extent m t)) → P t) (t : Text) :
    P t := by
  induction hn : t.length using Nat.strongRecOn generalizing t with
  | ind n ih =>
    cases t with
    | nil => exact nil
    | cons c rest =>
      simp only [List.length_cons] at hn
      cases hm : lx.markerAt? (c :: rest) with
      | none => exact code c rest hm (ih _ (by omega) rest rfl)
      | some m =>
        have hpos := lx.extent_pos m (List.cons_ne_nil c rest)
        refine marker _ m hm (ih _ ?_ _ rfl)
        simp only [List.length_drop, List.length_cons]
        omega

/-- Characters that start no marker are code. -/
theorem segments_code_append {lx : Lexis} {a : Text} (h : ∀ c ∈ a, ∀ m ∈ lx.openers, c ≠ m.head)
    (t : Text) : lx.segments (a ++ t) = a.map .code ++ lx.segments t := by
  induction a with
  | nil => rfl
  | cons c a ih =>
    have hc := h c List.mem_cons_self
    have ha := ih fun d hd => h d (List.mem_cons_of_mem _ hd)
    rw [List.cons_append, segments_cons_code (markerAt?_eq_none_of_head hc), ha]
    rfl

end Lexis
end ImportScan
