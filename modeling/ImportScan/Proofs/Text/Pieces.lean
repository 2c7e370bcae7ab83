import ImportScan.Proofs.Text.Collapse
import ImportScan.Proofs.Text.TopLevel

/-!
# Cutting a list again

The pieces of a text are cut no further, and all but the last close their brackets (`ArePieces`).
Both are what the pieces need to be found again between separators (`ArePieces.rawParts_join`), and
both stay when white space goes from their ends and empty pieces are left out
(`ArePieces.members`), so the members of a list are its normal form (`topLevelParts_normal`).
A closing bracket without an opening one does not count, so no brackets need to match for this.
Where they do match, each member has both brackets of a pair or none (`ArePieces.balanced`).
-/

namespace ImportScan.Text

variable {m : ListMarks} {depth : Nat} {a b t : Text} {c : Char} {ts : List Text}

/-! ## Pieces -/

/-- The texts are cut no further, the first from the depth `depth` on, and behind all but the last
no bracket is open. -/
inductive ArePieces (m : ListMarks) : Nat → List Text → Prop
  | last {depth : Nat} {t : Text} (ht : IsUncut m depth t) : ArePieces m depth [t]
  | more {depth : Nat} {t : Text} {ts : List Text} (ht : IsUncut m depth t)
      (hclosed : depthBehind m depth t = 0) (hts : ArePieces m 0 ts) : ArePieces m depth (t :: ts)

theorem ArePieces.ne_nil (h : ArePieces m depth ts) : ts ≠ [] := by
  cases h <;> exact List.cons_ne_nil _ _

theorem ArePieces.isUncut_of_mem (h : ArePieces m depth ts) (hdepth : depth = 0) :
    ∀ t ∈ ts, IsUncut m 0 t := by
  induction h with
  | last ht => exact List.forall_mem_singleton.2 (hdepth ▸ ht)
  | more ht _ _ ih => exact List.forall_mem_cons.2 ⟨hdepth ▸ ht, ih rfl⟩

/-- Between separators the pieces are the text. -/
theorem join_rawParts (m : ListMarks) (depth : Nat) (t : Text) :
    join m.separator (rawParts m depth t) = t := by
  have hextend {pieces : List Text} (hne : pieces ≠ []) (c : Char) :
      join m.separator (extendFirst c pieces) = c :: join m.separator pieces := by
    obtain ⟨piece, pieces, rfl⟩ := List.exists_cons_of_ne_nil hne
    cases pieces <;> rfl
  induction t generalizing depth with
  | nil => rfl
  | cons c t ih =>
    rw [rawParts]
    split
    · rename_i hsep
      have hc : [c] = m.separator := by
        simp only [ListMarks.separates, Bool.and_eq_true, decide_eq_true_eq] at hsep
        exact hsep.1
      rw [join_cons_cons _ _ (rawParts_ne_nil _ _ _), ih, ← hc]
      rfl
    · rw [hextend (rawParts_ne_nil _ _ _), ih]

/-! ## Marks of one character -/

/-- Three different characters as marks, of which the brackets are no white space. -/
structure CharMarks where
  separator : Char
  opener : Char
  closer : Char
  separator_ne_opener : separator ≠ opener
  separator_ne_closer : separator ≠ closer
  opener_ne_closer : opener ≠ closer
  isBlank_opener : isBlank opener = false
  isBlank_closer : isBlank closer = false

namespace CharMarks

variable (k : CharMarks)

/-- The marks as the lists that the splitting of a list takes. -/
def marks : ListMarks := ⟨[k.separator], [k.opener], [k.closer]⟩

theorem depthAfter_eq (depth : Nat) (c : Char) : k.marks.depthAfter depth c =
    if c = k.opener then depth + 1 else if c = k.closer then depth - 1 else depth := by
  simp [ListMarks.depthAfter, marks]

theorem separates_eq (depth : Nat) (c : Char) :
    k.marks.separates depth c = (decide (c = k.separator) && decide (depth = 0)) := by
  simp [ListMarks.separates, marks]

theorem depthAfter_separator (depth : Nat) : k.marks.depthAfter depth k.separator = depth := by
  rw [depthAfter_eq, if_neg k.separator_ne_opener, if_neg k.separator_ne_closer]

theorem rawParts_separator (t : Text) :
    rawParts k.marks 0 (k.separator :: t) = [] :: rawParts k.marks 0 t := by
  have hsep : k.marks.separates 0 k.separator = true := by simp [separates_eq]
  rw [rawParts]
  simp only [depthAfter_separator, hsep, if_true]

end CharMarks

variable {k : CharMarks}

theorem arePieces_rawParts (depth : Nat) (t : Text) :
    ArePieces k.marks depth (rawParts k.marks depth t) := by
  induction t generalizing depth with
  | nil => exact .last isUncut_nil
  | cons c t ih =>
    rw [rawParts]
    split
    · -- a separator leaves the depth as it is, so no bracket is open in front of it
      rename_i hsep
      simp only [k.separates_eq, Bool.and_eq_true, decide_eq_true_eq] at hsep
      obtain ⟨rfl, hdepth⟩ := hsep
      rw [hdepth]
      rw [k.depthAfter_separator] at hdepth
      exact .more isUncut_nil hdepth (ih 0)
    · rename_i hsep
      rw [Bool.not_eq_true] at hsep
      have hnext := ih (k.marks.depthAfter depth c)
      generalize rawParts k.marks (k.marks.depthAfter depth c) t = pieces at hnext ⊢
      cases hnext with
      | last ht => exact .last (isUncut_cons.2 ⟨hsep, ht⟩)
      | more ht hclosed hts => exact .more (isUncut_cons.2 ⟨hsep, ht⟩) hclosed hts

/-- Between separators the pieces are found again. -/
theorem ArePieces.rawParts_join (h : ArePieces k.marks depth ts) :
    rawParts k.marks depth (join [k.separator] ts) = ts := by
  induction h with
  | last ht =>
    rw [join_singleton]
    exact ht
  | more ht hclosed hts ih =>
    rw [join_cons_cons _ _ hts.ne_nil, ht.rawParts_append, hclosed, List.singleton_append,
      k.rawParts_separator, ih, prepend, List.append_nil]

/-! ## Members -/

theorem depthBehind_blanks (hb : AllBlank b) : depthBehind k.marks depth b = depth := by
  induction b with
  | nil => rfl
  | cons c b ih =>
    have hc : isBlank c = true := hb c List.mem_cons_self
    have hopener : c ≠ k.opener := by
      rintro rfl
      exact absurd hc (by simp [k.isBlank_opener])
    have hcloser : c ≠ k.closer := by
      rintro rfl
      exact absurd hc (by simp [k.isBlank_closer])
    rw [depthBehind_cons, k.depthAfter_eq, if_neg hopener, if_neg hcloser]
    exact ih fun d hd => hb d (List.mem_cons_of_mem c hd)

/-- White space at the ends has no part in the depth. -/
theorem depthBehind_trim (t : Text) :
    depthBehind k.marks depth (trim t) = depthBehind k.marks depth t := by
  obtain ⟨b, b', ht, hb, hb'⟩ := exists_eq_append_trim t
  conv_rhs => rw [ht]
  rw [depthBehind_append, depthBehind_append, depthBehind_blanks hb, depthBehind_blanks hb']

theorem IsUncut.trim (h : IsUncut k.marks depth t) : IsUncut k.marks depth (trim t) := by
  obtain ⟨b, b', ht, hb, -⟩ := exists_eq_append_trim t
  rw [ht, isUncut_append, isUncut_append, depthBehind_blanks hb] at h
  exact h.2.1

/-- The pieces trimmed, without empty ones. -/
def members (ts : List Text) : List Text := (ts.map trim).filter (!·.isEmpty)

theorem topLevelParts_eq (m : ListMarks) (t : Text) :
    topLevelParts m t = members (rawParts m 0 t) := rfl

theorem members_cons (t : Text) (ts : List Text) :
    members (t :: ts) = (if trim t = [] then [] else [trim t]) ++ members ts := by
  unfold members
  rw [List.map_cons, List.filter_cons]
  by_cases h : trim t = [] <;> simp [h]

theorem mem_members (h : t ∈ members ts) : t ≠ [] ∧ IsTrimmed t := by
  obtain ⟨hmem, hne⟩ := List.mem_filter.1 h
  obtain ⟨u, -, rfl⟩ := List.mem_map.1 hmem
  exact ⟨by simpa using hne, isTrimmed_trim u⟩

theorem members_eq_self (h : ∀ t ∈ ts, t ≠ [] ∧ IsTrimmed t) : members ts = ts := by
  induction ts with
  | nil => rfl
  | cons t ts ih =>
    obtain ⟨⟨hne, ht⟩, hts⟩ := List.forall_mem_cons.1 h
    rw [members_cons, trim_eq_self ht, if_neg hne, ih hts]
    rfl

/-- The members are pieces again: one that is left out is white space. -/
theorem ArePieces.members (h : ArePieces k.marks depth ts) :
    members ts = [] ∨ ArePieces k.marks depth (members ts) := by
  induction h with
  | last ht =>
    rw [members_cons]
    split
    · exact .inl rfl
    · exact .inr (.last ht.trim)
  | @more depth t ts ht hclosed hts ih =>
    rw [members_cons]
    split
    · rename_i hblank
      obtain rfl : depth = 0 := by rwa [← depthBehind_trim, hblank] at hclosed
      exact ih
    · refine .inr ?_
      rcases ih with ih | ih
      · rw [ih]
        exact .last ht.trim
      · exact .more ht.trim ((depthBehind_trim t).trans hclosed) ih

/-! ## Characters -/

/-- White space and separators apart, the characters of the members are those of the pieces. -/
theorem flatMap_members {keep : Char → Bool} (hkeep : ∀ c, isBlank c = true → keep c = false)
    (ts : List Text) : (members ts).flatMap (·.filter keep) = ts.flatMap (·.filter keep) := by
  have hblanks {b : Text} (hb : AllBlank b) : b.filter keep = [] :=
    List.filter_eq_nil_iff.2 fun c hc => by simp [hkeep c (hb c hc)]
  have htrim (t : Text) : (trim t).filter keep = t.filter keep := by
    obtain ⟨b, b', ht, hb, hb'⟩ := exists_eq_append_trim t
    conv_rhs => rw [ht]
    rw [List.filter_append, List.filter_append, hblanks hb, hblanks hb', List.nil_append,
      List.append_nil]
  induction ts with
  | nil => rfl
  | cons t ts ih =>
    rw [members_cons, List.flatMap_append, List.flatMap_cons, ih, ← htrim t]
    split
    · rename_i h
      rw [h]
      rfl
    · rw [List.flatMap_singleton]

theorem filter_join {keep : Char → Bool} {sep : Text} (hsep : sep.filter keep = [])
    (ts : List Text) : (join sep ts).filter keep = ts.flatMap (·.filter keep) := by
  induction ts with
  | nil => rfl
  | cons t ts ih =>
    rw [List.flatMap_cons]
    by_cases hts : ts = []
    · rw [hts, join_singleton, List.flatMap_nil, List.append_nil]
    · rw [join_cons_cons _ _ hts, List.filter_append, List.filter_append, hsep, ih,
        List.nil_append]

/-! ## Balanced texts -/

/-- No closing bracket comes before its opening one, and all are closed at the end. -/
structure CharMarks.Balanced (k : CharMarks) (t : Text) : Prop where
  opened : ∀ u, u <+: t → u.count k.closer ≤ u.count k.opener
  closed : t.count k.closer = t.count k.opener

/-- Where every closing bracket has an opening one, the depth says how many are open. -/
theorem depthBehind_add_count (depth : Nat)
    (h : ∀ u, u <+: t → u.count k.closer ≤ depth + u.count k.opener) :
    depthBehind k.marks depth t + t.count k.closer = depth + t.count k.opener := by
  induction t generalizing depth with
  | nil => rfl
  | cons c t ih =>
    rw [depthBehind_cons, k.depthAfter_eq]
    have hcons (u : Text) (hu : u <+: t) :
        (c :: u).count k.closer ≤ depth + (c :: u).count k.opener :=
      h (c :: u) ((List.prefix_cons_inj c).2 hu)
    by_cases hopener : c = k.opener
    · subst hopener
      have hcount (u : Text) : (k.opener :: u).count k.closer = u.count k.closer :=
        List.count_cons_of_ne k.opener_ne_closer
      simp only [List.count_cons_self, hcount, if_true] at hcons ⊢
      have := ih (depth + 1) fun u hu => by
        have := hcons u hu
        omega
      omega
    · have hcount (u : Text) : (c :: u).count k.opener = u.count k.opener :=
        List.count_cons_of_ne hopener
      simp only [if_neg hopener, hcount] at hcons ⊢
      by_cases hcloser : c = k.closer
      · subst hcloser
        simp only [List.count_cons_self, if_true] at hcons ⊢
        have hdepth := hcons [] List.nil_prefix
        rw [List.count_nil, List.count_nil] at hdepth
        have := ih (depth - 1) fun u hu => by
          have := hcons u hu
          omega
        omega
      · have hcount (u : Text) : (c :: u).count k.closer = u.count k.closer :=
          List.count_cons_of_ne hcloser
        simp only [if_neg hcloser, hcount] at hcons ⊢
        exact ih depth hcons

/-- Of pieces that are balanced together each is balanced. -/
theorem ArePieces.balanced (h : ArePieces k.marks depth ts) (hdepth : depth = 0)
    (hbalanced : k.Balanced (join [k.separator] ts)) : ∀ t ∈ ts, k.Balanced t := by
  induction h with
  | last ht =>
    rw [join_singleton] at hbalanced
    exact List.forall_mem_singleton.2 hbalanced
  | @more depth t ts ht hclosed hts ih =>
    subst hdepth
    rw [join_cons_cons _ _ hts.ne_nil] at hbalanced
    have hopened (u : Text) (hu : u <+: t) : u.count k.closer ≤ u.count k.opener :=
      hbalanced.opened u (hu.trans (List.prefix_append t _))
    have hcount := depthBehind_add_count (k := k) (t := t) 0 fun u hu => by
      have := hopened u hu
      omega
    rw [hclosed, Nat.zero_add, Nat.zero_add] at hcount
    have hfront (c : Char) (hc : k.separator ≠ c) (u : Text) :
        (t ++ ([k.separator] ++ u)).count c = t.count c + u.count c := by
      rw [List.count_append, List.singleton_append, List.count_cons_of_ne hc]
    have hrest : k.Balanced (join [k.separator] ts) := by
      constructor
      · intro u hu
        have := hbalanced.opened (t ++ ([k.separator] ++ u))
          ((List.prefix_append_right_inj _).2 ((List.prefix_append_right_inj _).2 hu))
        rw [hfront _ k.separator_ne_closer, hfront _ k.separator_ne_opener] at this
        omega
      · have := hbalanced.closed
        rw [hfront _ k.separator_ne_closer, hfront _ k.separator_ne_opener] at this
        omega
    exact List.forall_mem_cons.2 ⟨⟨hopened, hcount⟩, ih rfl hrest⟩

theorem CharMarks.Balanced.trim (h : k.Balanced t) : k.Balanced (trim t) := by
  obtain ⟨b, b', ht, hb, hb'⟩ := exists_eq_append_trim t
  have hblanks {b : Text} (hb : AllBlank b) {c : Char} (hc : isBlank c = false) :
      b.count c = 0 := List.count_eq_zero.2 (not_mem_of_class hb hc)
  have hcount {c : Char} (hc : isBlank c = false) (u : Text) : (b ++ u).count c = u.count c := by
    rw [List.count_append, hblanks hb hc, Nat.zero_add]
  constructor
  · intro u hu
    have hprefix : b ++ u <+: t := by
      rw [ht]
      exact (List.prefix_append_right_inj b).2 (hu.trans (List.prefix_append _ _))
    have := h.opened (b ++ u) hprefix
    rwa [hcount k.isBlank_closer, hcount k.isBlank_opener] at this
  · have := h.closed
    rw [ht, hcount k.isBlank_closer, hcount k.isBlank_opener, List.count_append, List.count_append,
      hblanks hb' k.isBlank_closer, hblanks hb' k.isBlank_opener] at this
    exact this

/-! ## The normal form -/

/-- Between separators the members are found again. -/
theorem topLevelParts_join (t : Text) :
    topLevelParts k.marks (join [k.separator] (topLevelParts k.marks t)) =
      topLevelParts k.marks t := by
  have hself : members (topLevelParts k.marks t) = topLevelParts k.marks t :=
    members_eq_self fun _ => mem_members
  rcases (arePieces_rawParts (k := k) 0 t).members with hnil | hpieces
  · rw [topLevelParts_eq k.marks t, hnil]
    rfl
  · have hfound : rawParts k.marks 0 (join [k.separator] (topLevelParts k.marks t)) =
        topLevelParts k.marks t := hpieces.rawParts_join
    rw [topLevelParts_eq, hfound, hself]

/-- **The members of a list are its normal form**: none is empty, has white space at an end or is
cut further; between separators they are found again, with all characters of the list but white
space and separators; and if the brackets of the list match, those of each member do. -/
theorem topLevelParts_normal (k : CharMarks) (t : Text) :
    let parts := topLevelParts k.marks t
    let rejoined := join [k.separator] parts
    let keep := fun c => !isBlank c && c != k.separator
    (∀ part ∈ parts, part ≠ [] ∧ IsTrimmed part ∧ topLevelParts k.marks part = [part]) ∧
      topLevelParts k.marks rejoined = parts ∧
      rejoined.filter keep = t.filter keep ∧
      (k.Balanced t → ∀ part ∈ parts, k.Balanced part) := by
  intro parts rejoined keep
  have hpieces := arePieces_rawParts (k := k) 0 t
  have hjoin : join [k.separator] (rawParts k.marks 0 t) = t := join_rawParts k.marks 0 t
  refine ⟨?_, topLevelParts_join t, ?_, ?_⟩
  · intro part hpart
    obtain ⟨hne, htrimmed⟩ := mem_members hpart
    obtain ⟨piece, hpiece, rfl⟩ := exists_of_mem_topLevelParts hpart
    have huncut : rawParts k.marks 0 (trim piece) = [trim piece] :=
      (hpieces.isUncut_of_mem rfl piece hpiece).trim
    refine ⟨hne, htrimmed, ?_⟩
    rw [topLevelParts_eq, huncut]
    exact members_eq_self (List.forall_mem_singleton.2 ⟨hne, htrimmed⟩)
  · have hsep : [k.separator].filter keep = [] := by simp [keep]
    have hblank : ∀ c, isBlank c = true → keep c = false := fun c hc => by simp [keep, hc]
    calc rejoined.filter keep
        = parts.flatMap (·.filter keep) := filter_join hsep _
      _ = (rawParts k.marks 0 t).flatMap (·.filter keep) := flatMap_members hblank _
      _ = (join [k.separator] (rawParts k.marks 0 t)).filter keep := (filter_join hsep _).symm
      _ = t.filter keep := by rw [hjoin]
  · intro hbalanced part hpart
    obtain ⟨piece, hpiece, rfl⟩ := exists_of_mem_topLevelParts hpart
    exact (hpieces.balanced rfl (hjoin.symm ▸ hbalanced) piece hpiece).trim

/-- A list with a list in braces, white space around its members and an empty member. -/
theorem topLevelParts_normal_nested :
    let k : CharMarks := ⟨',', '{', '}', by decide, by decide, by decide, by decide, by decide⟩
    let t := " a{b , c} ,, d".toList
    let parts := ["a{b , c}".toList, "d".toList]
    topLevelParts k.marks t = parts ∧ k.Balanced t ∧
      (∀ part ∈ parts, topLevelParts k.marks part = [part]) ∧ ∀ part ∈ parts, k.Balanced part := by
  intro k t parts
  have hparts : topLevelParts k.marks t = parts := by decide
  have hbalanced : k.Balanced t := by
    refine ⟨fun u hu => ?_, by decide⟩
    have hinits : ∀ u ∈ t.inits, u.count k.closer ≤ u.count k.opener := by decide
    exact hinits u ((List.mem_inits u t).2 hu)
  obtain ⟨hpart, -, -, hmatch⟩ := topLevelParts_normal k t
  rw [hparts] at hpart hmatch
  exact ⟨hparts, hbalanced, fun part h => (hpart part h).2.2, hmatch hbalanced⟩

end ImportScan.Text
