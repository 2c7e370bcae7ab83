import ImportScan.Proofs.Text.Cut

/-!
# White space collapsed

Joining the words of a text with spaces makes one space of every run of white space between two
words and drops the white space at the ends (`join_words`). `collapse` does this from left to right:
a run of white space in front of something else becomes a space (`collapse_blanks_append`), so the
collapsed text is read off piece by piece.
-/

namespace ImportScan.Text

variable {b r t : Text} {x : Char}

/-- The text with one space for each run of white space that something follows. -/
def collapse : Text → Text
  | [] => []
  | c :: t =>
    if isBlank c then if t.head?.all isBlank then collapse t else ' ' :: collapse t
    else c :: collapse t

/-- What becomes of white space in front of something else. -/
def space (b : Text) : Text := if b = [] then [] else [' ']

theorem allBlank_space (b : Text) : AllBlank (space b) := by
  unfold space
  split
  · exact fun c hc => nomatch hc
  · exact fun c hc => List.mem_singleton.1 hc ▸ rfl

theorem space_ne_nil (hb : b ≠ []) : space b ≠ [] := by
  rw [space, if_neg hb]
  exact List.cons_ne_nil _ _

/-- The text starts with a character that is no white space. -/
def StartsSolid (t : Text) : Prop := ∃ x ∈ t.head?, isBlank x = false

theorem startsSolid_cons (hx : isBlank x = false) (r : Text) : StartsSolid (x :: r) := ⟨x, rfl, hx⟩

theorem StartsSolid.exists_cons (ht : StartsSolid t) :
    ∃ x r, t = x :: r ∧ isBlank x = false := by
  obtain ⟨x, hx, hsolid⟩ := ht
  obtain ⟨r, rfl⟩ := List.head?_eq_some_iff.1 hx
  exact ⟨x, r, rfl, hsolid⟩

theorem isGap_eq_false_of_solid (ht : StartsSolid t) : ∀ c ∈ t.head?, isGap c = false := by
  obtain ⟨x, r, rfl, hx⟩ := ht.exists_cons
  intro c hc
  obtain rfl := Option.some.inj hc
  cases hgap : isGap x with
  | false => rfl
  | true => exact absurd (isBlank_of_isGap hgap) (by simp [hx])

theorem collapse_append (ht : ∀ c ∈ t, isBlank c = false) (r : Text) :
    collapse (t ++ r) = t ++ collapse r := by
  induction t with
  | nil => rfl
  | cons c t ih =>
    have hc : ¬isBlank c = true := by simp [ht c List.mem_cons_self]
    rw [List.cons_append, collapse, if_neg hc, ih fun d hd => ht d (List.mem_cons_of_mem c hd),
      List.cons_append]

theorem collapse_blanks (hb : AllBlank b) : collapse b = [] := by
  induction b with
  | nil => rfl
  | cons c b ih =>
    have hb' : AllBlank b := fun d hd => hb d (List.mem_cons_of_mem c hd)
    have hnext : b.head?.all isBlank = true := by
      cases b with
      | nil => rfl
      | cons d b => simpa using hb' d List.mem_cons_self
    rw [collapse, if_pos (hb c List.mem_cons_self), if_pos hnext, ih hb']

theorem collapse_blanks_append (hb : AllBlank b) (hr : StartsSolid r) :
    collapse (b ++ r) = space b ++ collapse r := by
  obtain ⟨x, r, rfl, hx⟩ := hr.exists_cons
  induction b with
  | nil => rfl
  | cons c b ih =>
    have hc : isBlank c = true := hb c List.mem_cons_self
    have hb' : AllBlank b := fun d hd => hb d (List.mem_cons_of_mem c hd)
    rw [List.cons_append, collapse, if_pos hc, ih hb']
    cases b with
    | nil =>
      rw [if_neg (by simp [hx])]
      rfl
    | cons d b =>
      have hd : isBlank d = true := hb' d List.mem_cons_self
      rw [if_pos (by simp [hd])]
      rfl

/-- A nonempty text without white space. -/
def IsSolid (w : Text) : Prop := w ≠ [] ∧ ∀ c ∈ w, isBlank c = false

instance (w : Text) : Decidable (IsSolid w) := inferInstanceAs (Decidable (_ ∧ _))

theorem IsSolid.startsSolid {w : Text} (hw : IsSolid w) (r : Text) : StartsSolid (w ++ r) := by
  obtain ⟨x, v, rfl⟩ := List.exists_cons_of_ne_nil hw.1
  exact startsSolid_cons (hw.2 x List.mem_cons_self) _

theorem collapse_piece {w : Text} (hb : AllBlank b) (hw : IsSolid w) (r : Text) :
    collapse (b ++ (w ++ r)) = space b ++ (w ++ collapse r) := by
  rw [collapse_blanks_append hb (hw.startsSolid r), collapse_append hw.2]

/-! ## Words -/

theorem words_cons_blank (hx : isBlank x = true) (t : Text) : words (x :: t) = words t :=
  words_blanks_append (a := [x]) fun _ hc => List.mem_singleton.1 hc ▸ hx

theorem words_cons_of_blank (hx : isBlank x = false) (ht : ∀ c ∈ t.head?, isBlank c = true) :
    words (x :: t) = [x] :: words t :=
  words_append (a := [x]) (List.cons_ne_nil x []) (fun _ hc => List.mem_singleton.1 hc ▸ hx) ht

/-- A character in front of a word belongs to it. -/
theorem exists_words_cons (hx : isBlank x = false) (ht : StartsSolid t) :
    ∃ w ws, words t = w :: ws ∧ words (x :: t) = (x :: w) :: ws := by
  obtain ⟨y, t, rfl, hy⟩ := ht.exists_cons
  obtain ⟨w, ws, hfields⟩ : ∃ w ws, fields isBlank (y :: t) = (y :: w) :: ws := by
    rw [fields, if_neg (by simp [hy])]
    cases fields isBlank t with
    | nil => exact ⟨[], [], rfl⟩
    | cons w ws => exact ⟨w, ws, rfl⟩
  have hfields' : fields isBlank (x :: y :: t) = (x :: y :: w) :: ws := by
    rw [fields, if_neg (by simp [hx]), hfields]
    rfl
  refine ⟨y :: w, ws.filter (!·.isEmpty), ?_, ?_⟩
  · rw [words, hfields]
    rfl
  · rw [words, hfields']
    rfl

/-- The first word of a text that starts with no white space starts with its first character. -/
theorem exists_words_cons_self (hx : isBlank x = false) (t : Text) :
    ∃ w ws, words (x :: t) = (x :: w) :: ws := by
  by_cases ht : StartsSolid t
  · obtain ⟨w, ws, -, hwords⟩ := exists_words_cons hx ht
    exact ⟨w, ws, hwords⟩
  · refine ⟨[], words t, words_cons_of_blank hx fun c hc => ?_⟩
    by_contra hsolid
    exact ht ⟨c, hc, by simpa using hsolid⟩

theorem join_singleton (sep w : Text) : join sep [w] = w := List.append_nil w

theorem join_cons_cons (sep w : Text) {ws : List Text} (hws : ws ≠ []) :
    join sep (w :: ws) = w ++ (sep ++ join sep ws) := by
  obtain ⟨v, ws, rfl⟩ := List.exists_cons_of_ne_nil hws
  rfl

theorem collapse_eq (t : Text) : collapse t =
    (if t.head?.any isBlank ∧ words t ≠ [] then [' '] else []) ++ join [' '] (words t) := by
  induction t with
  | nil => rfl
  | cons c t ih =>
    by_cases hc : isBlank c = true
    · rw [collapse, if_pos hc, words_cons_blank hc, ih]
      by_cases ht : StartsSolid t
      · obtain ⟨d, r, rfl, hd⟩ := ht.exists_cons
        obtain ⟨w, ws, hwords, -⟩ := exists_words_cons hd ht
        rw [if_neg (by simp [hd]), if_neg (by simp [hd]), if_pos (by simp [hc, hwords])]
        rfl
      · cases t with
        | nil => simp [words, fields]
        | cons d r =>
          have hd : isBlank d = true := by
            by_contra hd
            exact ht (startsSolid_cons (by simpa using hd) r)
          simp [hc, hd]
    · have hc : isBlank c = false := by simpa using hc
      have hlead : (if (c :: t).head?.any isBlank ∧ words (c :: t) ≠ [] then [' '] else []) = [] :=
        if_neg (by simp [hc])
      rw [collapse, if_neg (by simp [hc]), ih, hlead, List.nil_append]
      by_cases ht : StartsSolid t
      · -- the character belongs to the first word
        obtain ⟨w, ws, hwords, hwords'⟩ := exists_words_cons hc ht
        obtain ⟨d, r, rfl, hd⟩ := ht.exists_cons
        rw [if_neg (by simp [hd]), hwords, hwords']
        cases ws <;> rfl
      · have hblank : ∀ d ∈ t.head?, isBlank d = true := by
          intro d hd
          by_contra hsolid
          exact ht ⟨d, hd, by simpa using hsolid⟩
        rw [words_cons_of_blank hc hblank]
        by_cases hwords : words t = []
        · rw [if_neg (by simp [hwords]), hwords]
          rfl
        · have hhead : t.head?.any isBlank = true := by
            cases t with
            | nil => exact absurd rfl hwords
            | cons d r => simpa using hblank d rfl
          rw [if_pos ⟨hhead, hwords⟩, join_cons_cons _ _ hwords]
          rfl

/-- A text that starts with no white space, its words joined by spaces. -/
theorem join_words (ht : StartsSolid t) : join [' '] (words t) = collapse t := by
  obtain ⟨x, r, rfl, hx⟩ := ht.exists_cons
  rw [collapse_eq, if_neg (by simp [hx]), List.nil_append]

end ImportScan.Text
