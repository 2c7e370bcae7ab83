import ImportScan.Proofs.Pattern.Matches
import ImportScan.Proofs.Text.HasWord

/-!
# The preferred end of a pattern

A match stops at the first of the ends at its place. Where the first end of every piece leads on,
the first end of the whole is that of its last piece, so the match of a text that is laid out for a
pattern is read off piece by piece (`Prefers.append`). A lazy run is the exception: it stops where
what follows has an end for the first time (`prefers_lazy_run_append`). A pattern that looks at
nothing but the text behind a place takes the same text first wherever that text follows
(`TakesFirst`), so it may be put behind any other (`Reads.append`).
-/

namespace ImportScan.Pattern

variable {ι : Type} [DecidableEq ι] {p q : Pattern ι} {s m e : Point ι}

/-- The first end of the pattern from `s` is `e`. -/
def Prefers (p : Pattern ι) (s e : Point ι) : Prop := (p.ends s).head? = some e

/-! ## Pieces -/

theorem prefers_here {test : Cursor → Bool} (h : test s.cursor = true) :
    (Pattern.here test).Prefers s s := by
  unfold Prefers
  rw [ends, if_pos h]
  rfl

theorem prefers_text {t rest : Text} (h : s.cursor.after = t ++ rest) :
    (text t).Prefers s (s.skip t.length) := by
  unfold Prefers
  rw [ends_text_of_eq h]
  rfl

theorem prefers_one {c : Char → Bool} {x : Char} {rest : Text} (h : s.cursor.after = x :: rest)
    (hx : c x = true) : (Pattern.one c).Prefers s (s.skip 1) := by
  unfold Prefers
  rw [ends_one h, if_pos hx]
  rfl

theorem Prefers.part (hp : p.Prefers s m) (i : ι) :
    (Pattern.part i p).Prefers s (m.mark i s.cursor) := by
  unfold Prefers at hp ⊢
  rw [ends_part, List.head?_map, hp]
  rfl

/-- A greedy run goes as far as its class does. -/
theorem prefers_run {c : Char → Bool} {least : Nat} {t rest : Text}
    (h : s.cursor.after = t ++ rest) (ht : ∀ x ∈ t, c x = true)
    (hrest : ∀ x ∈ rest.head?, c x = false) (hl : least ≤ t.length) :
    (Pattern.run true c least none).Prefers s (s.skip t.length) := by
  unfold Prefers
  rw [ends_run h ht hrest hl]
  rfl

/-! ## Put together -/

theorem Prefers.append (hp : p.Prefers s m) (hq : q.Prefers m e) : (p ++ q).Prefers s e := by
  unfold Prefers at hp hq ⊢
  obtain ⟨others, hends⟩ := List.head?_eq_some_iff.1 hp
  rw [ends_append, hends, List.flatMap_cons, List.head?_append, hq]
  rfl

theorem Prefers.or_left (hp : p.Prefers s e) : (p ||| q).Prefers s e := by
  unfold Prefers at hp ⊢
  have hends : (p ||| q).ends s = p.ends s ++ q.ends s := rfl
  rw [hends, List.head?_append, hp]
  rfl

theorem Prefers.or_right (hp : p.ends s = []) (hq : q.Prefers s e) : (p ||| q).Prefers s e := by
  unfold Prefers at hq ⊢
  have hends : (p ||| q).ends s = p.ends s ++ q.ends s := rfl
  rw [hends, hp, List.nil_append, hq]

theorem prefers_append_assoc {r : Pattern ι} :
    (p ++ q ++ r).Prefers s e ↔ (p ++ (q ++ r)).Prefers s e := by
  unfold Prefers
  rw [ends_append_assoc]

/-- A lazy run goes on until what follows has an end. -/
theorem prefers_lazy_run_append {c : Char → Bool} {least : Nat} {t rest : Text}
    (h : s.cursor.after = t ++ rest) (ht : ∀ x ∈ t, c x = true) (hl : least ≤ t.length)
    (hbefore : ∀ n < t.length, q.ends (s.skip n) = []) (hq : q.Prefers (s.skip t.length) e) :
    (Pattern.run false c least none ++ q).Prefers s e := by
  have hreach : t.length ≤ Cursor.reach c none 0 s.cursor.after := by
    rw [h]
    simp only [Cursor.reach]
    rw [List.takeWhile_append_of_pos ht, List.length_append]
    omega
  obtain ⟨more, hmore⟩ : ∃ more, Cursor.reach c none 0 s.cursor.after + 1 - least =
      (t.length - least) + (1 + more) := by
    refine ⟨Cursor.reach c none 0 s.cursor.after - t.length, ?_⟩
    omega
  have hlast : least + (t.length - least) = t.length := by omega
  have hnone : ((List.range' least (t.length - least)).flatMap fun n =>
      q.ends (s.skip n)) = [] := by
    refine List.flatMap_eq_nil_iff.2 fun n hn => hbefore n ?_
    have := List.mem_range'_1.1 hn
    omega
  have hends : (Pattern.run false c least none).ends s =
      (List.range' least (t.length - least)).map (fun n => s.skip n) ++
        (s.skip t.length :: (List.range' (t.length + 1) more).map fun n => s.skip n) := by
    rw [ends, Cursor.farthest_eq, Nat.zero_add, endsOfRun, hmore, ← List.range'_append_1,
      ← List.range'_append_1, hlast]
    simp [Point.skip, Function.comp_def]
  unfold Prefers at hq ⊢
  rw [ends_append, hends, List.flatMap_append, List.flatMap_map, hnone, List.nil_append,
    List.flatMap_cons, List.head?_append, hq]
  rfl

/-! ## Texts that are taken first -/

/-- Where the text `t` and then `rest` follow, the pattern takes `t` first. -/
def TakesFirst (p : Pattern ι) (t rest : Text) : Prop :=
  ∀ s : Point ι, s.cursor.after = t ++ rest → p.Prefers s (s.skip t.length)

section TakesFirst

variable {t t' rest : Text}

theorem takesFirst_empty (rest : Text) : (Pattern.empty : Pattern ι).TakesFirst [] rest :=
  fun _ _ => rfl

theorem takesFirst_text (t rest : Text) : (text t : Pattern ι).TakesFirst t rest :=
  fun _ h => prefers_text h

theorem takesFirst_one {c : Char → Bool} {x : Char} (hx : c x = true) (rest : Text) :
    (Pattern.one c : Pattern ι).TakesFirst [x] rest :=
  fun _ h => prefers_one h hx

theorem takesFirst_run {c : Char → Bool} {least : Nat} (ht : ∀ x ∈ t, c x = true)
    (hrest : ∀ x ∈ rest.head?, c x = false) (hl : least ≤ t.length) :
    (Pattern.run true c least none : Pattern ι).TakesFirst t rest :=
  fun _ h => prefers_run h ht hrest hl

theorem takesFirst_gaps1 (g : Text.Gaps) (hrest : ∀ x ∈ rest.head?, Text.isGap x = false) :
    (gaps1 : Pattern ι).TakesFirst g.val rest :=
  takesFirst_run g.2.2 hrest (List.length_pos_iff.2 g.2.1)

namespace TakesFirst

theorem append (hp : p.TakesFirst t (t' ++ rest)) (hq : q.TakesFirst t' rest) :
    (p ++ q).TakesFirst (t ++ t') rest := by
  intro s h
  rw [List.append_assoc] at h
  have hend := (hp s h).append (hq _ (Point.after_skip_of_eq h))
  rwa [Point.skip_skip, ← List.length_append] at hend

theorem or_left (hp : p.TakesFirst t rest) : (p ||| q).TakesFirst t rest :=
  fun s h => (hp s h).or_left

theorem or_right (hp : ∀ s : Point ι, s.cursor.after = t ++ rest → p.ends s = [])
    (hq : q.TakesFirst t rest) : (p ||| q).TakesFirst t rest :=
  fun s h => .or_right (hp s h) (hq s h)

theorem maybe (hp : p.TakesFirst t rest) : (maybe p).TakesFirst t rest := hp.or_left

theorem maybe_nil (hp : ∀ s : Point ι, s.cursor.after = rest → p.ends s = []) :
    (Pattern.maybe p).TakesFirst [] rest := or_right hp (takesFirst_empty rest)

end TakesFirst

theorem takesFirst_anyCase {k : Text} (h : t.map Text.fold = k.map Text.fold) (rest : Text) :
    (anyCase k : Pattern ι).TakesFirst t rest := by
  induction k generalizing t with
  | nil =>
    obtain rfl := List.map_eq_nil_iff.1 h
    exact takesFirst_empty rest
  | cons c k ih =>
    rw [List.map_cons, List.map_eq_cons_iff] at h
    obtain ⟨x, t, rfl, hx, ht⟩ := h
    have hfirst : (Pattern.one fun y => Text.fold y == Text.fold c : Pattern ι).TakesFirst [x]
        (t ++ rest) := fun _ hs => prefers_one hs (beq_iff_eq.2 hx)
    exact hfirst.append (ih ht)

/-! ### Repetitions -/

/-- The pattern first takes the texts one after the other, and then nothing more. -/
def TakesEach (p : Pattern ι) : List Text → Text → Prop
  | [], rest => ∀ s : Point ι, s.cursor.after = rest → p.ends s = []
  | t :: ts, rest => t ≠ [] ∧ p.TakesFirst t (ts.flatten ++ rest) ∧ p.TakesEach ts rest

/-- A greedy repetition goes on as long as its pattern takes texts, none of which is empty. -/
theorem head?_endsOfMany {ts : List Text} (hts : p.TakesEach ts rest)
    {least rounds count : Nat} {last : Option Nat} (hrounds : ts.length < rounds)
    (hleast : least ≤ count + ts.length) (hlast : ∀ o ∈ last, o < s.cursor.offset)
    (hs : s.cursor.after = ts.flatten ++ rest) :
    (endsOfMany p.ends true least none rounds count last s).head? =
      some (s.skip ts.flatten.length) := by
  induction ts generalizing rounds count last s with
  | nil =>
    obtain ⟨rounds, rfl⟩ := Nat.exists_eq_succ_of_ne_zero (Nat.ne_of_gt hrounds)
    have hcount : ¬count < least := by
      simp only [List.length_nil] at hleast
      omega
    rw [endsOfMany, if_neg hcount, hts s hs]
    split <;> rfl
  | cons t ts ih =>
    obtain ⟨rounds, rfl⟩ :=
      Nat.exists_eq_succ_of_ne_zero (Nat.ne_of_gt (Nat.zero_lt_of_lt hrounds))
    obtain ⟨hne, htakes, hts⟩ := hts
    rw [List.flatten_cons, List.append_assoc] at hs
    obtain ⟨others, hends⟩ := List.head?_eq_some_iff.1 (htakes s hs)
    have hpos := List.length_pos_iff.2 hne
    have hoffset : (s.skip t.length).cursor.offset = s.cursor.offset + t.length := by
      apply Cursor.offset_skip
      rw [hs, List.length_append]
      omega
    rw [List.length_cons] at hrounds hleast
    have hstep {last : Option Nat} (hlast : ∀ o ∈ last, o ≤ s.cursor.offset) :
        ((p.ends s).flatMap (endsOfMany p.ends true least none rounds (count + 1) last)).head? =
          some (s.skip (t :: ts).flatten.length) := by
      have hlast' : ∀ o ∈ last, o < (s.skip t.length).cursor.offset := by
        intro o ho
        have := hlast o ho
        omega
      have hnext : (endsOfMany p.ends true least none rounds (count + 1) last
          (s.skip t.length)).head? = some ((s.skip t.length).skip ts.flatten.length) :=
        ih hts (by omega) (by omega) hlast' (Point.after_skip_of_eq hs)
      rw [hends, List.flatMap_cons, List.head?_append, hnext, Point.skip_skip, List.flatten_cons,
        List.length_append]
      rfl
    have hnew : last ≠ some s.cursor.offset := by
      rintro rfl
      exact Nat.lt_irrefl _ (hlast _ rfl)
    rw [endsOfMany]
    split
    · exact hstep fun o ho => Nat.le_of_lt (hlast o ho)
    · rw [if_pos (by simp [hnew]), if_pos rfl, List.head?_append,
        hstep fun o ho => Nat.le_of_eq (Option.some.inj ho).symm]
      rfl

theorem takesFirst_many {ts : List Text} {least : Nat} (hts : p.TakesEach ts rest)
    (hleast : least ≤ ts.length) :
    (Pattern.many true p least none).TakesFirst ts.flatten rest := by
  intro s hs
  have hlength : ∀ {ts : List Text}, p.TakesEach ts rest → ts.length ≤ ts.flatten.length := by
    intro ts hts
    induction ts with
    | nil => exact Nat.zero_le _
    | cons t ts ih =>
      have hpos := List.length_pos_iff.2 hts.1
      have := ih hts.2.2
      rw [List.length_cons, List.flatten_cons, List.length_append]
      omega
  have hleft : s.cursor.left = ts.flatten.length + rest.length := by
    rw [Cursor.left_eq, hs, List.length_append]
  have hrounds : ts.length < least + s.cursor.left + 2 := by
    have := hlength hts
    omega
  exact head?_endsOfMany hts hrounds (by omega) (fun o ho => nomatch ho) hs

/-- From `s` the pattern first takes `u`, and `rest` follows. -/
def Reads (p : Pattern ι) (s : Point ι) (u rest : Text) : Prop :=
  s.cursor.after = u ++ rest ∧ p.Prefers s (s.skip u.length)

theorem reads_here {test : Cursor → Bool} (h : test s.cursor = true) :
    (Pattern.here test).Reads s [] s.cursor.after := ⟨rfl, prefers_here h⟩

namespace Reads

variable {u : Text}

theorem after_skip (hp : p.Reads s u rest) : (s.skip u.length).cursor.after = rest :=
  Point.after_skip_of_eq hp.1

theorem append (hp : p.Reads s u (t ++ rest)) (hq : q.TakesFirst t rest) :
    (p ++ q).Reads s (u ++ t) rest := by
  have hend := hp.2.append (hq _ hp.after_skip)
  rw [Point.skip_skip, ← List.length_append] at hend
  exact ⟨by rw [hp.1, List.append_assoc], hend⟩

end Reads
end TakesFirst

/-! ## The match -/

/-- The match at a place stops at the preferred end. -/
theorem exists_match_of_prefers {a t b : Text} (h : p.Prefers ⟨.between a (t ++ b), []⟩ e)
    (he : e.cursor.after = b) : ∃ m, p.matchAt? (.between a (t ++ b)) = some m ∧
      m.text = t ∧ ∀ i, m.part? i = e.part? i := by
  let c := Cursor.between a (t ++ b)
  have hm : p.matchAt? c = some ⟨c, e⟩ := by
    rw [matchAt?_eq, h]
    rfl
  refine ⟨_, hm, ?_, fun i => rfl⟩
  have hafter := (after_eq_of_matchAt? hm).1
  dsimp only at hafter
  rw [he] at hafter
  exact (List.append_cancel_right hafter).symm

end ImportScan.Pattern
