import ImportScan.Proofs.Pattern.Ends

/-!
# Successive matches along a text

The search for matches goes from place to place: over a stretch where none starts, and over a match
to its end. Whatever goes along a text in this way (`Walks`) does so stretch by stretch
(`Walks.skip`, `Walks.over_match`). The matches stand in the order of their starts
(`pairwise_matchesFrom`), and one is found if all that start in front of it end in front of it
(`mem_matchesFrom_of_matchAt?`). A match is the first of the ends at its place (`matchAt?_eq`), so
there is none where there is no end (`matchAt?_eq_none_iff`).
-/

namespace ImportScan.Pattern

variable {ι : Type} [DecidableEq ι] {p : Pattern ι}

/-! ## At one place -/

theorem matchAt?_eq (p : Pattern ι) (c : Cursor) :
    p.matchAt? c = (p.ends ⟨c, []⟩).head?.map fun stop => ⟨c, stop⟩ := by
  unfold matchAt?
  rw [firstEnd_eq, findSome?_some_eq_head?]

theorem matchAt?_eq_none_iff {c : Cursor} : p.matchAt? c = none ↔ p.ends ⟨c, []⟩ = [] := by
  rw [matchAt?_eq, Option.map_eq_none_iff, List.head?_eq_none_iff]

theorem matchAt?_eq_none_of_forall {c : Cursor} (h : ∀ e, e ∉ p.ends ⟨c, []⟩) :
    p.matchAt? c = none :=
  matchAt?_eq_none_iff.2 (List.eq_nil_iff_forall_not_mem.2 h)

/-- A match ends at one of the ends. -/
theorem exists_mem_ends_of_matchAt? {c : Cursor} {m : Match ι} (h : p.matchAt? c = some m) :
    m.start = c ∧ m.stop ∈ p.ends ⟨c, []⟩ := by
  rw [matchAt?_eq] at h
  obtain ⟨stop, hstop, rfl⟩ := Option.map_eq_some_iff.1 h
  exact ⟨rfl, List.mem_of_head? hstop⟩

/-- What a match takes is the text between its ends. -/
theorem after_eq_of_matchAt? {c : Cursor} {m : Match ι} (h : p.matchAt? c = some m) :
    c.after = m.text ++ m.stop.cursor.after ∧ m.length = m.text.length := by
  obtain ⟨rfl, hstop⟩ := exists_mem_ends_of_matchAt? h
  obtain ⟨t, rest, hs, -, hcursor⟩ := isBehind_of_mem_ends (P := fun _ => True) (takes_any p) hstop
  dsimp only at hs hcursor
  have hlen : m.length = t.length := by
    rw [Match.length, hcursor, Cursor.offset_skip, Nat.add_sub_cancel_left]
    simp [hs]
  have htext : m.text = t := by
    rw [Match.text, hlen, hs, List.take_left]
  rw [htext, hcursor, Cursor.after_skip, hs, List.drop_left]
  exact ⟨rfl, hlen⟩

/-- A match takes no character that the pattern has in none of its classes. -/
theorem notMem_text_of_excludes {z : Char} (hp : p.excludes z = true) {c : Cursor} {m : Match ι}
    (h : p.matchAt? c = some m) : z ∉ m.text := by
  obtain ⟨rfl, hstop⟩ := exists_mem_ends_of_matchAt? h
  obtain ⟨t, rest, hafter, ht, hcursor⟩ := isBehind_of_mem_ends (takes_of_excludes hp) hstop
  have htext : m.text = t := by
    have hsplit := (after_eq_of_matchAt? h).1
    dsimp only at hafter
    rw [hcursor, Cursor.after_skip, hafter, List.drop_left] at hsplit
    exact (List.append_cancel_right hsplit).symm
  exact fun hz => ht z (htext ▸ hz) rfl

/-! ## One place after another -/

theorem matchesFrom_end {taken : Nat} {c : Cursor} (h : c.after = []) :
    p.matchesFrom taken c = if taken = 0 then (p.matchAt? c).toList else [] := by
  rw [matchesFrom.eq_def]
  split
  · rfl
  · rename_i h'
    simp [h] at h'

theorem matchesFrom_taken {taken : Nat} {c : Cursor} {x : Char} {rest : Text}
    (h : c.after = x :: rest) : p.matchesFrom (taken + 1) c = p.matchesFrom taken c.next := by
  rw [matchesFrom.eq_def]
  split
  · rename_i h'
    simp [h] at h'
  · rfl

theorem matchesFrom_none {c : Cursor} {x : Char} {rest : Text} (h : c.after = x :: rest)
    (hm : p.matchAt? c = none) : p.matchesFrom 0 c = p.matchesFrom 0 c.next := by
  rw [matchesFrom.eq_def]
  split
  · rename_i h'
    simp [h] at h'
  · simp only [hm]

theorem matchesFrom_some {c : Cursor} {x : Char} {rest : Text} {m : Match ι}
    (h : c.after = x :: rest) (hm : p.matchAt? c = some m) :
    p.matchesFrom 0 c = m :: p.matchesFrom (m.length - 1) c.next := by
  rw [matchesFrom.eq_def]
  split
  · rename_i h'
    simp [h] at h'
  · simp only [hm]

/-! ## Over a stretch of text -/

/-- No match starts in `t` where it stands between `a` and `b`. -/
def NoneIn (p : Pattern ι) (a t b : Text) : Prop :=
  ∀ u x v, t = u ++ x :: v → p.ends ⟨.between (a ++ u) (x :: (v ++ b)), []⟩ = []

theorem NoneIn.append {a t t' b : Text} (h : p.NoneIn a t (t' ++ b)) (h' : p.NoneIn (a ++ t) t' b) :
    p.NoneIn a (t ++ t') b := by
  intro u x v huv
  rcases List.append_eq_append_iff.1 huv with ⟨w, rfl, hw⟩ | ⟨w, rfl, hw⟩
  · rw [← List.append_assoc]
    exact h' w x v hw
  · cases w with
    | nil => simpa using h' [] x v hw.symm
    | cons y w =>
      rw [List.cons_append] at hw
      obtain ⟨rfl, rfl⟩ := List.cons.inj hw
      simpa using h u x w rfl

theorem NoneIn.cons {a t b : Text} {x : Char} (hx : p.ends ⟨.between a (x :: (t ++ b)), []⟩ = [])
    (h : p.NoneIn (a ++ [x]) t b) : p.NoneIn a (x :: t) b := by
  intro u y v huv
  cases u with
  | nil =>
    obtain ⟨rfl, rfl⟩ := List.cons.inj huv
    rwa [List.append_nil]
  | cons z u =>
    obtain ⟨rfl, hrest⟩ := List.cons.inj huv
    have hlater := h u y v hrest
    rwa [List.append_assoc] at hlater

theorem NoneIn.congr {q : Pattern ι} {a t b : Text} (h : p.NoneIn a t b)
    (hq : ∀ s, q.ends s = p.ends s) : q.NoneIn a t b := by
  intro u x v huv
  rw [hq]
  exact h u x v huv

/-- Farther on in such a text there is no end either. -/
theorem NoneIn.ends_skip {a t b : Text} {n : Nat} (h : p.NoneIn a t b) (hn : n < t.length) :
    p.ends (Point.skip n ⟨.between a (t ++ b), []⟩) = [] := by
  have hcut : t = t.take n ++ t[n] :: t.drop (n + 1) := by
    rw [← List.drop_eq_getElem_cons hn, List.take_append_drop]
  have hlength : (t.take n).length = n := List.length_take_of_le (Nat.le_of_lt hn)
  have htext : t ++ b = t.take n ++ t[n] :: (t.drop (n + 1) ++ b) := by
    rw [← List.cons_append, ← List.append_assoc, ← hcut]
  have hplace := Cursor.skip_between a (t.take n) (t[n] :: (t.drop (n + 1) ++ b))
  rw [hlength, ← htext] at hplace
  have hnone := h _ _ _ hcut
  rw [← hplace] at hnone
  exact hnone

/-- No match starts in a text without the characters that a match may start with. -/
theorem noneIn_of_head {P : Char → Prop} {a t b : Text}
    (hhead : ∀ s : Point ι, p.ends s ≠ [] → ∃ x rest, s.cursor.after = x :: rest ∧ P x)
    (ht : ∀ c ∈ t, ¬P c) : p.NoneIn a t b := by
  intro u x v huv
  refine Decidable.byContradiction fun hends => ?_
  obtain ⟨y, rest, hy, hP⟩ := hhead _ hends
  obtain ⟨rfl, -⟩ := List.cons.inj hy
  exact ht x (huv ▸ List.mem_append_right u List.mem_cons_self) hP

/-- At the end of a text no match starts if all start in front of a character. -/
theorem ends_end (h : ∀ s, ∀ e ∈ p.ends s, s.cursor.after ≠ []) (a : Text) :
    p.ends ⟨.between a [], []⟩ = [] :=
  List.eq_nil_iff_forall_not_mem.2 fun e he => h _ e he rfl

/-- Either no match starts in a text, or one starts at a first place. -/
theorem noneIn_or_exists_first (p : Pattern ι) (a t b : Text) : p.NoneIn a t b ∨
    ∃ u x v, t = u ++ x :: v ∧ p.NoneIn a u (x :: (v ++ b)) ∧
      p.ends ⟨.between (a ++ u) (x :: (v ++ b)), []⟩ ≠ [] := by
  induction t generalizing a with
  | nil =>
    left
    intro u x v huv
    simp at huv
  | cons x t ih =>
    by_cases hx : p.ends ⟨.between a (x :: (t ++ b)), []⟩ = []
    · rcases ih (a ++ [x]) with hrest | ⟨u, y, v, rfl, hnone, hends⟩
      · exact .inl (hrest.cons hx)
      · refine .inr ⟨x :: u, y, v, rfl, hnone.cons ?_, by simpa using hends⟩
        rwa [List.append_assoc, List.cons_append] at hx
    · exact .inr ⟨[], x, t, rfl, fun u y v huv => by simp at huv, by rwa [List.append_nil]⟩

/-! ## Going on from place to place -/

/-- A function goes along a text as the search for matches does: it goes over what is taken, it puts
`pass` of a character where no match starts, and `hit` of a match where one does. -/
structure Walks {β : Type} (p : Pattern ι) (f : Nat → Cursor → List β) (pass : Char → List β)
    (hit : Match ι → List β) : Prop where
  of_taken {n : Nat} {c : Cursor} {x : Char} {rest : Text} (h : c.after = x :: rest) :
    f (n + 1) c = f n c.next
  of_none {c : Cursor} {x : Char} {rest : Text} (h : c.after = x :: rest)
    (hm : p.matchAt? c = none) : f 0 c = pass x ++ f 0 c.next
  of_some {c : Cursor} {x : Char} {rest : Text} {m : Match ι} (h : c.after = x :: rest)
    (hm : p.matchAt? c = some m) : f 0 c = hit m ++ f (m.length - 1) c.next

namespace Walks

variable {β : Type} {f : Nat → Cursor → List β} {pass : Char → List β} {hit : Match ι → List β}
  {a t b : Text}

/-- A stretch in which no match starts is passed. -/
theorem skip (hf : p.Walks f pass hit) (h : p.NoneIn a t b) :
    f 0 (.between a (t ++ b)) = t.flatMap pass ++ f 0 (.between (a ++ t) b) := by
  induction t generalizing a with
  | nil => simp
  | cons x t ih =>
    have hfirst : p.ends ⟨.between (a ++ []) (x :: (t ++ b)), []⟩ = [] := h [] x t rfl
    have hrest : p.NoneIn (a ++ [x]) t b := by
      intro u y v huv
      have hlater := h (x :: u) y v (by rw [huv, List.cons_append])
      simpa using hlater
    rw [List.append_nil] at hfirst
    rw [List.cons_append, hf.of_none rfl (matchAt?_eq_none_iff.2 hfirst), Cursor.next_between,
      ih hrest]
    simp

theorem over_taken (hf : p.Walks f pass hit) (a t b : Text) :
    f t.length (.between a (t ++ b)) = f 0 (.between (a ++ t) b) := by
  induction t generalizing a with
  | nil => simp
  | cons x t ih =>
    rw [List.length_cons, List.cons_append, hf.of_taken (Cursor.after_between a _),
      Cursor.next_between, ih]
    simp

/-- Behind a match it goes on at the end of the match. -/
theorem over_match (hf : p.Walks f pass hit) {m : Match ι} (ht : t ≠ [])
    (hm : p.matchAt? (.between a (t ++ b)) = some m) (hlen : m.length = t.length) :
    f 0 (.between a (t ++ b)) = hit m ++ f 0 (.between (a ++ t) b) := by
  obtain ⟨x, t, rfl⟩ := List.exists_cons_of_ne_nil ht
  have hrest : m.length - 1 = t.length := by simp [hlen]
  rw [List.cons_append] at hm ⊢
  rw [hf.of_some (Cursor.after_between a _) hm, hrest, Cursor.next_between, hf.over_taken]
  simp

end Walks

theorem walks_matchesFrom (p : Pattern ι) :
    p.Walks p.matchesFrom (fun _ => []) (fun m => [m]) where
  of_taken := matchesFrom_taken
  of_none := matchesFrom_none
  of_some := matchesFrom_some

/-- Where no match starts, the search goes on. -/
theorem matchesFrom_skip {a t b : Text} (h : p.NoneIn a t b) :
    p.matchesFrom 0 (.between a (t ++ b)) = p.matchesFrom 0 (.between (a ++ t) b) := by
  have hskip := p.walks_matchesFrom.skip h
  rwa [List.flatMap_eq_nil_iff.2 fun _ _ => rfl, List.nil_append] at hskip

/-- Behind a match the search goes on at its end. -/
theorem matchesFrom_match {a t b : Text} {m : Match ι} (ht : t ≠ [])
    (hm : p.matchAt? (.between a (t ++ b)) = some m) (hlen : m.length = t.length) :
    p.matchesFrom 0 (.between a (t ++ b)) = m :: p.matchesFrom 0 (.between (a ++ t) b) :=
  p.walks_matchesFrom.over_match ht hm hlen

/-- Patterns that match alike at every place of a text have the same matches in it. -/
theorem matchesFrom_congr {q : Pattern ι} {taken : Nat} {c : Cursor}
    (h : ∀ d : Cursor, d.text = c.text → q.matchAt? d = p.matchAt? d) :
    q.matchesFrom taken c = p.matchesFrom taken c := by
  induction taken, c using matchesFrom.induct p with
  | case1 c hend => rw [matchesFrom_end hend, matchesFrom_end hend, h c rfl]
  | case2 taken c hend ht => rw [matchesFrom_end hend, matchesFrom_end hend, if_neg ht, if_neg ht]
  | case3 c x rest hafter taken ih =>
    rw [matchesFrom_taken hafter, matchesFrom_taken hafter,
      ih fun d hd => h d (hd.trans (c.text_skip 1))]
  | case4 c x rest hafter hm ih =>
    rw [matchesFrom_none hafter hm, matchesFrom_none hafter ((h c rfl).trans hm),
      ih fun d hd => h d (hd.trans (c.text_skip 1))]
  | case5 c x rest hafter m hm ih =>
    rw [matchesFrom_some hafter hm, matchesFrom_some hafter ((h c rfl).trans hm),
      ih fun d hd => h d (hd.trans (c.text_skip 1))]

/-- A match is found if every match that starts in front of it ends in front of it. -/
theorem mem_matchesFrom_of_matchAt? {taken : Nat} {a t b : Text} {m : Match ι}
    (hm : p.matchAt? (.between (a ++ t) b) = some m) (htaken : taken ≤ t.length)
    (ht : ∀ u x v m', t = u ++ x :: v → p.matchAt? (.between (a ++ u) (x :: (v ++ b))) = some m' →
      m'.length ≤ (x :: v).length) : m ∈ p.matchesFrom taken (.between a (t ++ b)) := by
  induction t generalizing taken a with
  | nil =>
    obtain rfl := Nat.le_zero.1 htaken
    rw [List.append_nil] at hm
    rw [List.nil_append]
    cases b with
    | nil =>
      rw [matchesFrom_end (Cursor.after_between a _), if_pos rfl]
      exact Option.mem_toList.2 hm
    | cons y b =>
      rw [matchesFrom_some (Cursor.after_between a _) hm]
      exact List.mem_cons_self
  | cons y t ih =>
    have hrest {taken : Nat} (htaken : taken ≤ t.length) :
        m ∈ p.matchesFrom taken (.between (a ++ [y]) (t ++ b)) := by
      refine ih (by rwa [List.append_assoc]) htaken fun u x v m' huv hm' => ?_
      refine ht (y :: u) x v m' (by rw [huv, List.cons_append]) ?_
      rwa [List.append_assoc] at hm'
    rw [List.cons_append]
    cases taken with
    | succ taken =>
      rw [matchesFrom_taken (Cursor.after_between a _), Cursor.next_between]
      exact hrest (Nat.le_of_succ_le_succ htaken)
    | zero =>
      cases hfirst : p.matchAt? (.between a (y :: (t ++ b))) with
      | none =>
        rw [matchesFrom_none (Cursor.after_between a _) hfirst, Cursor.next_between]
        exact hrest (Nat.zero_le _)
      | some m' =>
        have hlen := ht [] y t m' rfl (by rwa [List.append_nil])
        rw [matchesFrom_some (Cursor.after_between a _) hfirst, Cursor.next_between]
        exact List.mem_cons_of_mem m' (hrest (Nat.sub_le_of_le_add hlen))

/-- A match behind a character that the pattern never takes is found. -/
theorem mem_matchesIn_of_excludes {a b : Text} {m : Match ι}
    (ha : ∀ z ∈ a.getLast?, p.excludes z = true) (hm : p.matchAt? (.between a b) = some m) :
    m ∈ p.matchesIn (a ++ b) := by
  unfold matchesIn
  rw [Cursor.atStart_eq_between]
  refine mem_matchesFrom_of_matchAt? hm (Nat.zero_le _) fun u x v m' huv hm' => ?_
  obtain ⟨w, z, hw⟩ := (List.eq_nil_or_concat (x :: v)).resolve_left (List.cons_ne_nil x v)
  rw [List.concat_eq_append] at hw
  have hz : p.excludes z = true := ha z (by simp [huv, hw])
  obtain ⟨hafter, hlen⟩ := after_eq_of_matchAt? hm'
  rw [Cursor.after_between, ← List.cons_append] at hafter
  -- a longer match would take the last character in front
  refine Nat.le_of_not_lt fun hlong => notMem_text_of_excludes hz hm' ?_
  have hprefix : x :: v <+: m'.text :=
    List.prefix_of_prefix_length_le (List.prefix_append _ b) ⟨_, hafter.symm⟩ (by omega)
  exact hprefix.subset (hw ▸ List.mem_append_right w (List.mem_singleton_self z))

theorem offset_of_matchAt? {c : Cursor} {m : Match ι} (h : p.matchAt? c = some m) :
    m.offset = c.offset :=
  congrArg Cursor.offset (exists_mem_ends_of_matchAt? h).1

/-- A match from a place on is the preferred match at a place of the text that is not before it. -/
theorem exists_matchAt?_of_mem_matchesFrom {taken : Nat} {c : Cursor} {m : Match ι}
    (h : m ∈ p.matchesFrom taken c) :
    ∃ d, p.matchAt? d = some m ∧ c.offset ≤ d.offset ∧ d.text = c.text := by
  have later {c : Cursor}
      (h : ∃ d, p.matchAt? d = some m ∧ c.next.offset ≤ d.offset ∧ d.text = c.next.text) :
      ∃ d, p.matchAt? d = some m ∧ c.offset ≤ d.offset ∧ d.text = c.text := by
    obtain ⟨d, hd, hle, htext⟩ := h
    exact ⟨d, hd, Nat.le_trans c.offset_le_next hle, htext.trans (c.text_skip 1)⟩
  induction taken, c using matchesFrom.induct p with
  | case1 c hc =>
    rw [matchesFrom_end hc, if_pos rfl, Option.mem_toList] at h
    exact ⟨c, h, Nat.le_refl _, rfl⟩
  | case2 taken c hc ht =>
    rw [matchesFrom_end hc, if_neg ht] at h
    cases h
  | case3 c x rest hc taken ih =>
    rw [matchesFrom_taken hc] at h
    exact later (ih h)
  | case4 c x rest hc hm ih =>
    rw [matchesFrom_none hc hm] at h
    exact later (ih h)
  | case5 c x rest hc m' hm ih =>
    rw [matchesFrom_some hc hm] at h
    rcases List.mem_cons.1 h with rfl | h
    · exact ⟨c, hm, Nat.le_refl _, rfl⟩
    · exact later (ih h)

/-- No match from a place on starts before it. -/
theorem le_offset_of_mem_matchesFrom {taken : Nat} {c : Cursor} {m : Match ι}
    (h : m ∈ p.matchesFrom taken c) : c.offset ≤ m.offset := by
  obtain ⟨d, hd, hle, -⟩ := exists_matchAt?_of_mem_matchesFrom h
  rwa [offset_of_matchAt? hd]

/-- The matches stand in the order of their starts. -/
theorem pairwise_matchesFrom (p : Pattern ι) (taken : Nat) (c : Cursor) :
    (p.matchesFrom taken c).Pairwise fun m m' => m.offset ≤ m'.offset := by
  induction taken, c using matchesFrom.induct p with
  | case1 c hc =>
    rw [matchesFrom_end hc, if_pos rfl]
    cases p.matchAt? c <;> simp
  | case2 taken c hc ht =>
    rw [matchesFrom_end hc, if_neg ht]
    exact List.Pairwise.nil
  | case3 c x rest hc taken ih =>
    rw [matchesFrom_taken hc]
    exact ih
  | case4 c x rest hc hm ih =>
    rw [matchesFrom_none hc hm]
    exact ih
  | case5 c x rest hc m hm ih =>
    rw [matchesFrom_some hc hm]
    refine List.Pairwise.cons (fun m' hm' => ?_) ih
    rw [offset_of_matchAt? hm]
    exact Nat.le_trans c.offset_le_next (le_offset_of_mem_matchesFrom hm')

/-! ## Anywhere in a text -/

theorem isSome_search? {c : Cursor} :
    (p.search? c).isSome = true ↔
      ∃ n ≤ c.after.length, (p.matchAt? (c.skip n)).isSome = true := by
  fun_induction search? p c with
  | case1 c m hm => simpa using ⟨0, Nat.zero_le _, by simp [hm]⟩
  | case2 c hm h =>
    simp only [h, Option.isSome_none, Bool.false_eq_true, List.length_nil, Nat.le_zero, false_iff]
    rintro ⟨n, rfl, hn⟩
    simp [hm] at hn
  | case3 c hm x rest h ih =>
    rw [ih, (Cursor.after_next_cons h).1, h, List.length_cons]
    constructor
    · rintro ⟨n, hn, hs⟩
      exact ⟨n + 1, Nat.succ_le_succ hn, hs⟩
    · rintro ⟨n, hn, hs⟩
      cases n with
      | zero => simp [hm] at hs
      | succ n => exact ⟨n, Nat.le_of_succ_le_succ hn, hs⟩

/-- A pattern occurs in a text if it has an end from one of its places. -/
theorem occursIn_iff {t : Text} :
    p.occursIn t = true ↔ ∃ a b, t = a ++ b ∧ p.ends ⟨.between a b, []⟩ ≠ [] := by
  have hend (c : Cursor) : (p.matchAt? c).isSome = true ↔ p.ends ⟨c, []⟩ ≠ [] := by
    rw [Ne, ← matchAt?_eq_none_iff, Option.isSome_iff_ne_none]
  have hplace {a b : Text} :
      (Cursor.between [] (a ++ b)).skip a.length = Cursor.between a b := Cursor.skip_between [] a b
  unfold occursIn
  rw [isSome_search?, Cursor.atStart_eq_between]
  constructor
  · rintro ⟨n, hn, hs⟩
    have ht : (t.take n).length = n := List.length_take_of_le hn
    refine ⟨t.take n, t.drop n, (List.take_append_drop n t).symm, ?_⟩
    rw [← hend, ← hplace, List.take_append_drop, ht]
    exact hs
  · rintro ⟨a, b, rfl, hs⟩
    refine ⟨a.length, by simp, ?_⟩
    rw [hplace, hend]
    exact hs

end ImportScan.Pattern
