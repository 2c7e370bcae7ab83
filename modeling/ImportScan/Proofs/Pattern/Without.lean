import ImportScan.Proofs.Pattern.Matches
import Mathlib.Data.List.Basic

/-!
# Patterns without a piece

A pattern may take a character `x` at the start of a text `u` and nowhere else. What it is without
that piece has those of its ends up to which no `x` is taken (`Without`), and this goes through
every way to put patterns together. Where no match takes an `x` the pattern has the same matches
without the piece (`Without.matchesIn_eq`), and in a text without `u` none does
(`Without.notMem_text`).
-/

namespace ImportScan

/-- How many `x` stand in front of the point. -/
def Point.passed {ι : Type} (x : Char) (s : Point ι) : Nat := s.cursor.before.count x

namespace Pattern

variable {ι : Type} [DecidableEq ι] {p p' q q' : Pattern ι} {s e : Point ι} {x : Char} {u : Text}

/-- What leads to an end, and how many `x` it has. -/
theorem exists_passed (he : e ∈ p.ends s) : ∃ t, s.cursor.after = t ++ e.cursor.after ∧
    ∀ x, e.passed x = s.passed x + t.count x := by
  obtain ⟨t, rest, hs, -, hcursor⟩ := isBehind_of_mem_ends (takes_any p) he
  refine ⟨t, ?_, fun x => ?_⟩
  · rw [hcursor, Cursor.after_skip, hs, List.drop_left]
  · rw [Point.passed, Point.passed, hcursor, Cursor.before_skip, hs, List.take_left,
      List.count_append, List.count_reverse, Nat.add_comm]

theorem passed_le (x : Char) (he : e ∈ p.ends s) : s.passed x ≤ e.passed x := by
  obtain ⟨t, -, hpassed⟩ := exists_passed he
  have := hpassed x
  omega

theorem after_suffix_of_mem_ends (he : e ∈ p.ends s) : e.cursor.after <:+ s.cursor.after := by
  obtain ⟨t, hs, -⟩ := exists_passed he
  exact ⟨t, hs.symm⟩

theorem passed_le_of_mem_endsOfMany {greedy : Bool} {least rounds count : Nat}
    {most last : Option Nat} (he : e ∈ endsOfMany p.ends greedy least most rounds count last s) :
    s.passed x ≤ e.passed x :=
  of_mem_endsOfMany (Q := fun m => s.passed x ≤ m.passed x)
    (fun _ hm _ he => Nat.le_trans hm (passed_le x he)) (Nat.le_refl _) he

/-- Without the piece `u`, which alone makes it take an `x`, the pattern `p` is `q`. -/
structure Without (x : Char) (u : Text) (p q : Pattern ι) : Prop where
  ends (s : Point ι) : q.ends s = (p.ends s).filter fun e => e.passed x = s.passed x
  piece (s : Point ι) : ∀ e ∈ p.ends s, e.passed x ≠ s.passed x → u <:+: s.cursor.after

namespace Without

/-- A pattern that never takes `x` has no such piece. -/
theorem of_takes (hp : p.Takes (· ≠ x)) : Without x u p p := by
  have hsame (s : Point ι) : ∀ e ∈ p.ends s, e.passed x = s.passed x := by
    intro e he
    obtain ⟨t, rest, hs, ht, hcursor⟩ := isBehind_of_mem_ends hp he
    obtain ⟨t', hs', hpassed⟩ := exists_passed he
    rw [hcursor, Cursor.after_skip, hs, List.drop_left] at hs'
    obtain rfl := List.append_cancel_right hs'
    rw [hpassed, List.count_eq_zero.2 fun hmem => ht x hmem rfl, Nat.add_zero]
  exact ⟨fun s => (List.filter_eq_self.2 fun e he => decide_eq_true (hsame s e he)).symm,
    fun s e he hne => absurd (hsame s e he) hne⟩

/-- The piece itself, as the last resort of a pattern that never takes `x`. -/
theorem or_text (hp : p.Takes (· ≠ x)) (hx : x ∈ u) : Without x u (p ||| text u) p where
  ends s := by
    have hpiece : ((text u).ends s).filter (fun e => e.passed x = s.passed x) = [] := by
      refine List.filter_eq_nil_iff.2 fun e he => ?_
      obtain ⟨rest, hs, rfl⟩ := mem_ends_text.1 he
      obtain ⟨t, ht, hpassed⟩ := exists_passed he
      rw [hs, Point.after_skip_of_eq hs] at ht
      obtain rfl := List.append_cancel_right ht
      have hcount := List.count_pos_iff.2 hx
      rw [hpassed, decide_eq_true_eq]
      omega
    show p.ends s = (p.ends s ++ (text u).ends s).filter _
    rw [List.filter_append, hpiece, List.append_nil]
    exact (of_takes (u := u) hp).ends s
  piece s e he hne := by
    rcases mem_ends_or.1 he with he | he
    · exact (of_takes hp).piece s e he hne
    · obtain ⟨rest, hs, -⟩ := mem_ends_text.1 he
      exact hs ▸ (List.prefix_append u rest).isInfix

omit [DecidableEq ι] in
/-- What goes on behind an `x` that was taken is left out with it. -/
theorem flatMap_filter {f f' : Point ι → List (Point ι)} {l : List (Point ι)}
    (hl : ∀ m ∈ l, s.passed x ≤ m.passed x)
    (hf : ∀ m ∈ l, f' m = (f m).filter fun e => e.passed x = m.passed x)
    (hle : ∀ m ∈ l, ∀ e ∈ f m, m.passed x ≤ e.passed x) :
    (l.filter fun m => m.passed x = s.passed x).flatMap f' =
      (l.flatMap f).filter fun e => e.passed x = s.passed x := by
  induction l with
  | nil => rfl
  | cons m l ih =>
    have hrest := ih (fun m hm => hl m (List.mem_cons_of_mem _ hm))
      (fun m hm => hf m (List.mem_cons_of_mem _ hm)) fun m hm => hle m (List.mem_cons_of_mem _ hm)
    rw [List.flatMap_cons, List.filter_append, ← hrest]
    by_cases hm : m.passed x = s.passed x
    · rw [List.filter_cons_of_pos (by simpa using hm), List.flatMap_cons,
        hf m List.mem_cons_self, hm]
    · have hnone : ((f m).filter fun e => e.passed x = s.passed x) = [] := by
        refine List.filter_eq_nil_iff.2 fun e he => ?_
        have hsm := hl m List.mem_cons_self
        have hme := hle m List.mem_cons_self e he
        rw [decide_eq_true_eq]
        omega
      rw [List.filter_cons_of_neg (by simpa using hm), hnone, List.nil_append]

theorem append (hp : Without x u p p') (hq : Without x u q q') :
    Without x u (p ++ q) (p' ++ q') where
  ends s := by
    rw [ends_append, ends_append, hp.ends s]
    exact flatMap_filter (fun m hm => passed_le x hm) (fun m _ => hq.ends m)
      fun m _ e he => passed_le x he
  piece s e he hne := by
    obtain ⟨m, hm, he⟩ := mem_ends_append.1 he
    by_cases hsm : m.passed x = s.passed x
    · exact (hq.piece m e he (hsm ▸ hne)).trans (after_suffix_of_mem_ends hm).isInfix
    · exact hp.piece s m hm hsm

theorem or (hp : Without x u p p') (hq : Without x u q q') :
    Without x u (p ||| q) (p' ||| q') where
  ends s := by
    show p'.ends s ++ q'.ends s = (p.ends s ++ q.ends s).filter _
    rw [List.filter_append, hp.ends s, hq.ends s]
  piece s e he hne := by
    rcases mem_ends_or.1 he with he | he
    · exact hp.piece s e he hne
    · exact hq.piece s e he hne

theorem part (hp : Without x u p p') (i : ι) : Without x u (.part i p) (.part i p') where
  ends s := by
    rw [ends_part, ends_part, hp.ends s, List.filter_map]
    rfl
  piece s e he hne := by
    obtain ⟨m, hm, rfl⟩ := mem_ends_part.1 he
    exact hp.piece s m hm hne

/-- Round by round: what a round takes in front of the piece is led on from as before. -/
theorem endsOfMany_eq (hp : Without x u p p') (greedy : Bool) (least : Nat) (most : Option Nat)
    (rounds count : Nat) (last : Option Nat) (s : Point ι) :
    endsOfMany p'.ends greedy least most rounds count last s =
      (endsOfMany p.ends greedy least most rounds count last s).filter
        fun e => e.passed x = s.passed x := by
  induction rounds generalizing count last s with
  | zero => rfl
  | succ rounds ih =>
    have more (count : Nat) (last : Option Nat) :
        (p'.ends s).flatMap (endsOfMany p'.ends greedy least most rounds count last) =
          ((p.ends s).flatMap (endsOfMany p.ends greedy least most rounds count last)).filter
            fun e => e.passed x = s.passed x := by
      rw [hp.ends s]
      exact flatMap_filter (fun m hm => passed_le x hm) (fun m _ => ih count last m)
        fun m _ e he => passed_le_of_mem_endsOfMany he
    rw [endsOfMany, endsOfMany, more, more]
    split
    · rfl
    · split
      · cases greedy <;> simp
      · simp

theorem many (hp : Without x u p p') (greedy : Bool) (least : Nat) (most : Option Nat) :
    Without x u (.many greedy p least most) (.many greedy p' least most) where
  ends s := by
    rw [Pattern.ends, Pattern.ends]
    exact hp.endsOfMany_eq greedy least most _ _ _ s
  piece s e he := by
    -- a round either takes no `x` or starts where the piece is still ahead
    have hround (m : Point ι) (hm : m.cursor.after <:+ s.cursor.after ∧
        (m.passed x ≠ s.passed x → u <:+: s.cursor.after)) (e : Point ι) (he : e ∈ p.ends m) :
        e.cursor.after <:+ s.cursor.after ∧
          (e.passed x ≠ s.passed x → u <:+: s.cursor.after) := by
      refine ⟨(after_suffix_of_mem_ends he).trans hm.1, fun hne => ?_⟩
      by_cases hsm : m.passed x = s.passed x
      · exact (hp.piece m e he (hsm ▸ hne)).trans hm.1.isInfix
      · exact hm.2 hsm
    exact (of_mem_endsOfMany (Q := fun m => m.cursor.after <:+ s.cursor.after ∧
        (m.passed x ≠ s.passed x → u <:+: s.cursor.after))
      hround ⟨List.suffix_rfl, fun h => absurd rfl h⟩ he).2

/-! ## Matches -/

theorem mem_text_iff {c : Cursor} {m : Match ι} (hm : p.matchAt? c = some m) :
    x ∈ m.text ↔ m.stop.passed x ≠ (⟨c, []⟩ : Point ι).passed x := by
  obtain ⟨rfl, hstop⟩ := exists_mem_ends_of_matchAt? hm
  obtain ⟨t, hs, hpassed⟩ := exists_passed hstop
  have htext : m.text = t := List.append_cancel_right ((after_eq_of_matchAt? hm).1.symm.trans hs)
  rw [hpassed, htext, ← List.count_pos_iff]
  omega

theorem matchAt?_eq (h : Without x u p q) {c : Cursor}
    (hc : ∀ m, p.matchAt? c = some m → x ∉ m.text) : q.matchAt? c = p.matchAt? c := by
  cases hm : p.matchAt? c with
  | none =>
    rw [matchAt?_eq_none_iff, h.ends, matchAt?_eq_none_iff.1 hm, List.filter_nil]
  | some m =>
    have hkept : m.stop.passed x = (⟨c, []⟩ : Point ι).passed x :=
      not_not.1 ((mem_text_iff hm).not.1 (hc m hm))
    rw [Pattern.matchAt?_eq] at hm ⊢
    obtain ⟨stop, hhead, rfl⟩ := Option.map_eq_some_iff.1 hm
    obtain ⟨rest, hends⟩ := List.head?_eq_some_iff.1 hhead
    rw [h.ends, hends, List.filter_cons_of_pos (by simpa using hkept)]
    rfl

/-- Where no match takes an `x` the matches are the same without the piece. -/
theorem matchesFrom_eq (h : Without x u p q) {taken : Nat} {c : Cursor}
    (hc : ∀ m ∈ p.matchesFrom taken c, x ∉ m.text) :
    q.matchesFrom taken c = p.matchesFrom taken c := by
  induction taken, c using matchesFrom.induct p with
  | case1 c hend =>
    rw [matchesFrom_end hend, if_pos rfl] at hc
    rw [matchesFrom_end hend, matchesFrom_end hend, h.matchAt?_eq fun m hm => hc m (by simp [hm])]
  | case2 taken c hend ht => rw [matchesFrom_end hend, matchesFrom_end hend, if_neg ht, if_neg ht]
  | case3 c y rest hafter taken ih =>
    rw [matchesFrom_taken hafter] at hc
    rw [matchesFrom_taken hafter, matchesFrom_taken hafter, ih hc]
  | case4 c y rest hafter hm ih =>
    rw [matchesFrom_none hafter hm] at hc
    have hm' := h.matchAt?_eq (c := c) fun m hsome => by simp [hm] at hsome
    rw [matchesFrom_none hafter hm, matchesFrom_none hafter (hm'.trans hm), ih hc]
  | case5 c y rest hafter m hm ih =>
    rw [matchesFrom_some hafter hm] at hc
    have hm' := h.matchAt?_eq (c := c) fun m' hsome => by
      obtain rfl := Option.some.inj (hm.symm.trans hsome)
      exact hc m List.mem_cons_self
    rw [matchesFrom_some hafter hm, matchesFrom_some hafter (hm'.trans hm),
      ih fun m hm => hc m (List.mem_cons_of_mem _ hm)]

theorem matchesIn_eq (h : Without x u p q) {t : Text} (ht : ∀ m ∈ p.matchesIn t, x ∉ m.text) :
    q.matchesIn t = p.matchesIn t := h.matchesFrom_eq ht

/-- In a text that does not have the piece no match takes an `x`. -/
theorem notMem_text (h : Without x u p q) {t : Text} (ht : ¬u <:+: t) :
    ∀ m ∈ p.matchesIn t, x ∉ m.text := by
  intro m hm hx
  obtain ⟨c, hc, -, htext⟩ := exists_matchAt?_of_mem_matchesFrom hm
  obtain ⟨hstart, hstop⟩ := exists_mem_ends_of_matchAt? hc
  have hpiece := h.piece _ _ hstop ((mem_text_iff hc).1 hx)
  have hwhole : t = c.before.reverse ++ c.after := htext.symm
  rw [hwhole] at ht
  exact ht (hpiece.trans (List.suffix_append _ _).isInfix)

end Without
end Pattern
end ImportScan
