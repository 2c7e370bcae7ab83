import ImportScan.Pattern.Literal
import ImportScan.Pattern.Search
import ImportScan.Pattern.FirstEnd
import ImportScan.Proofs.Pattern.Place
import ImportScan.Proofs.Text.Trim

/-!
# Where a pattern ends

The ends of a pattern told by the text that they take, one statement for each way to build a
pattern. A text has at most one end (`ends_text`). Of the many ends of a greedy run only the
farthest matters if what follows cannot start inside the run (`flatMap_ends_run`), so a pattern
whose runs are followed so is read off from left to right. `Pattern.TakesJust` names the texts that
a pattern without parts and places takes, and `isBehind_of_mem_ends` bounds what any pattern takes
by the classes of its characters.
-/

namespace ImportScan

namespace Point

variable {ι : Type}

/-- The point `n` characters on, with the same parts. -/
def skip (n : Nat) (s : Point ι) : Point ι := s.at (s.cursor.skip n)

@[simp] theorem cursor_skip (n : Nat) (s : Point ι) : (s.skip n).cursor = s.cursor.skip n := rfl

@[simp] theorem part?_skip [DecidableEq ι] (n : Nat) (s : Point ι) (i : ι) :
    (s.skip n).part? i = s.part? i := rfl

@[simp] theorem skip_zero (s : Point ι) : s.skip 0 = s := rfl

theorem skip_skip (m n : Nat) (s : Point ι) : (s.skip m).skip n = s.skip (m + n) :=
  congrArg (Point.mk · s.parts) (Cursor.skip_skip m n s.cursor)

/-- What follows a point that a text leads to. -/
theorem after_skip_of_eq {s : Point ι} {t rest : Text} (h : s.cursor.after = t ++ rest) :
    (s.skip t.length).cursor.after = rest := by
  rw [cursor_skip, Cursor.after_skip, h, List.drop_left]

/-- Inside a text one of its characters follows. -/
theorem exists_after_skip {s : Point ι} {t rest : Text} {n : Nat}
    (h : s.cursor.after = t ++ rest) (hn : n < t.length) :
    ∃ x ∈ t, ∃ r, (s.skip n).cursor.after = x :: r := by
  refine ⟨t[n], List.getElem_mem hn, t.drop (n + 1) ++ rest, ?_⟩
  rw [cursor_skip, Cursor.after_skip, h, List.drop_append_of_le_length (Nat.le_of_lt hn),
    List.drop_eq_getElem_cons hn, List.cons_append]

/-- The part last marked is the text that was taken. -/
theorem part?_mark [DecidableEq ι] {start : Cursor} {t rest : Text} {s : Point ι}
    (h : start.after = t ++ rest) (hs : s.cursor = start.skip t.length) (i : ι) :
    (s.mark i start).part? i = some t := by
  have hlen : s.cursor.offset - start.offset = t.length := by
    rw [hs, Cursor.offset_skip (by simp [h]), Nat.add_sub_cancel_left]
  unfold part? mark
  rw [List.lookup_cons_self, hlen, Option.map_some, Span.text, h, List.take_left]

theorem part?_mark_of_ne [DecidableEq ι] {i j : ι} (h : j ≠ i) (start : Cursor) (s : Point ι) :
    (s.mark i start).part? j = s.part? j := by
  unfold part? mark
  rw [List.lookup_cons, beq_eq_false_iff_ne.2 h]

end Point

namespace Pattern

variable {ι : Type} [DecidableEq ι] {s e : Point ι}

/-! ## What an end is -/

theorem mem_ends_one {p : Char → Bool} :
    e ∈ (Pattern.one p).ends s ↔
      ∃ x rest, s.cursor.after = x :: rest ∧ p x = true ∧ e = s.skip 1 := by
  unfold ends
  cases hs : s.cursor.after with
  | nil => simp
  | cons x rest =>
    have hskip : s.at s.cursor.next = s.skip 1 := rfl
    cases hx : p x <;> simp [hx, hskip]

theorem mem_ends_append {p q : Pattern ι} : e ∈ (p ++ q).ends s ↔ ∃ m ∈ p.ends s, e ∈ q.ends m :=
  List.mem_flatMap

theorem mem_ends_or {p q : Pattern ι} : e ∈ (p ||| q).ends s ↔ e ∈ p.ends s ∨ e ∈ q.ends s :=
  List.mem_append

theorem mem_ends_here {test : Cursor → Bool} :
    e ∈ (Pattern.here test).ends s ↔ test s.cursor = true ∧ e = s := by
  unfold ends
  cases test s.cursor <;> simp

theorem mem_ends_part {i : ι} {p : Pattern ι} :
    e ∈ (Pattern.part i p).ends s ↔ ∃ m ∈ p.ends s, e = m.mark i s.cursor := by
  rw [ends, List.mem_map]
  exact exists_congr fun m => and_congr_right fun _ => eq_comm

theorem mem_ends_run_iff_reach {greedy : Bool} {p : Char → Bool} {least : Nat}
    {most : Option Nat} :
    e ∈ (Pattern.run greedy p least most).ends s ↔
      ∃ n, (least ≤ n ∧ n ≤ Cursor.reach p most 0 s.cursor.after) ∧ e = s.skip n := by
  have hends : e ∈ (Pattern.run greedy p least most).ends s ↔
      ∃ n ∈ List.range' least (Cursor.reach p most 0 s.cursor.after + 1 - least),
        s.skip n = e := by
    rw [ends, Cursor.farthest_eq, Nat.zero_add]
    cases greedy <;> simp [endsOfRun, Point.skip]
  rw [hends]
  refine exists_congr fun n => and_congr ?_ eq_comm
  rw [List.mem_range'_1]
  omega

/-- A run ends behind any part of it that is long enough. -/
theorem mem_ends_run {greedy : Bool} {p : Char → Bool} {least : Nat} :
    e ∈ (Pattern.run greedy p least none).ends s ↔
      ∃ t rest, s.cursor.after = t ++ rest ∧ (∀ x ∈ t, p x = true) ∧ least ≤ t.length ∧
        e = s.skip t.length := by
  rw [mem_ends_run_iff_reach]
  constructor
  · rintro ⟨n, ⟨hl, hn⟩, rfl⟩
    obtain ⟨t, rest, hs, ht, rfl⟩ := Cursor.exists_of_le_reach hn
    exact ⟨t, rest, hs, ht, hl, rfl⟩
  · rintro ⟨t, rest, hs, ht, hl, rfl⟩
    refine ⟨t.length, ⟨hl, ?_⟩, rfl⟩
    simp only [Cursor.reach]
    rw [hs, List.takeWhile_append_of_pos ht, List.length_append]
    omega

/-- A repetition that is asked for takes its pattern once at least. -/
theorem ends_ne_nil_of_mem_ends_many1 {p : Pattern ι} (he : e ∈ (many1 p).ends s) :
    p.ends s ≠ [] := by
  intro hnil
  have hrounds : 1 + s.cursor.left + 2 = s.cursor.left + 2 + 1 := by omega
  rw [many1, ends, hrounds, endsOfMany, if_pos Nat.zero_lt_one, hnil] at he
  cases he

/-- A repetition of what cannot be taken takes nothing. -/
theorem ends_many0_of_ends_eq_nil {p : Pattern ι} (hp : p.ends s = []) :
    (many0 p).ends s = [s] := by
  have hrounds : 0 + s.cursor.left + 2 = s.cursor.left + 1 + 1 := by omega
  rw [many0, ends, hrounds, endsOfMany, if_neg (Nat.lt_irrefl 0), hp]
  rfl

/-! ## Patterns with one end -/

theorem ends_one {p : Char → Bool} {x : Char} {rest : Text} (h : s.cursor.after = x :: rest) :
    (Pattern.one p).ends s = if p x then [s.skip 1] else [] := by
  have hskip : s.at s.cursor.next = s.skip 1 := rfl
  rw [ends, h]
  simp only [hskip]

theorem ends_part (i : ι) (p : Pattern ι) (s : Point ι) :
    (Pattern.part i p).ends s = (p.ends s).map (·.mark i s.cursor) := rfl

theorem ends_append (p q : Pattern ι) (s : Point ι) :
    (p ++ q).ends s = (p.ends s).flatMap q.ends := rfl

/-- A test in front lets the pattern match or not. -/
theorem ends_here_append (test : Cursor → Bool) (p : Pattern ι) (s : Point ι) :
    (Pattern.here test ++ p).ends s = if test s.cursor then p.ends s else [] := by
  rw [ends_append, ends]
  split
  · exact List.flatMap_singleton p.ends s
  · rfl

theorem ends_append_assoc (p q r : Pattern ι) (s : Point ι) :
    (p ++ q ++ r).ends s = (p ++ (q ++ r)).ends s := by
  simp only [ends_append, List.flatMap_assoc]
  rfl

theorem ends_or_append (p q r : Pattern ι) (s : Point ι) :
    ((p ||| q) ++ r).ends s = ((p ++ r) ||| (q ++ r)).ends s :=
  List.flatMap_append

theorem ends_text (t : Text) (s : Point ι) :
    (text t : Pattern ι).ends s =
      if t <+: s.cursor.after then [s.skip t.length] else [] := by
  have ends_char (c : Char) (s : Point ι) : (char c : Pattern ι).ends s =
      if [c] <+: s.cursor.after then [s.skip 1] else [] := by
    unfold char
    cases h : s.cursor.after with
    | nil => simp [ends, h]
    | cons x rest =>
      rw [ends_one h]
      by_cases hx : x = c
      · simp [hx]
      · simp [hx, Ne.symm hx]
  fun_induction text t generalizing s with
  | case1 => simp [ends]
  | case2 c => exact ends_char c s
  | case3 c t hne ih =>
    rw [ends_append, ends_char]
    cases h : s.cursor.after with
    | nil => simp
    | cons x rest =>
      by_cases hx : x = c
      · subst hx
        have hnext : (s.skip 1).cursor.after = rest := Point.after_skip_of_eq (t := [x]) h
        have hskip (n : Nat) : (s.skip 1).skip n = s.skip (n + 1) := by
          rw [Point.skip_skip, Nat.add_comm]
        rw [if_pos (by simp), List.flatMap_cons, List.flatMap_nil, List.append_nil, ih, hnext]
        simp [hskip]
      · simp [Ne.symm hx]

theorem ends_text_of_eq {t rest : Text} (h : s.cursor.after = t ++ rest) :
    (text t).ends s = [s.skip t.length] := by
  rw [ends_text, if_pos (h ▸ List.prefix_append t rest)]

theorem mem_ends_text {t : Text} :
    e ∈ (text t).ends s ↔ ∃ rest, s.cursor.after = t ++ rest ∧ e = s.skip t.length := by
  rw [ends_text]
  constructor
  · intro h
    split at h
    · rename_i hp
      obtain ⟨rest, hrest⟩ := hp
      exact ⟨rest, hrest.symm, List.mem_singleton.1 h⟩
    · cases h
  · rintro ⟨rest, hrest, rfl⟩
    rw [if_pos (hrest ▸ List.prefix_append t rest)]
    exact List.mem_singleton_self _

/-- A greedy run that the text behind it stops ends behind the whole run first. -/
theorem ends_run {p : Char → Bool} {least : Nat} {t rest : Text}
    (hs : s.cursor.after = t ++ rest) (ht : ∀ x ∈ t, p x = true)
    (hrest : ∀ x ∈ rest.head?, p x = false) (hl : least ≤ t.length) :
    (Pattern.run true p least none).ends s =
      s.skip t.length :: (List.range' least (t.length - least)).reverse.map fun n => s.skip n := by
  have hreach : Cursor.reach p none 0 s.cursor.after = t.length := by
    rw [hs]
    simp only [Cursor.reach]
    rw [takeWhile_append_stop ht hrest]
  have hcount : t.length + 1 - least = t.length - least + 1 := by omega
  have hlast : least + (t.length - least) = t.length := by omega
  rw [ends, Cursor.farthest_eq, Nat.zero_add, hreach]
  simp [endsOfRun, hcount, List.range'_concat, hlast, Point.skip]

/-- Only the farthest end of a greedy run counts if nothing leads on from inside it. -/
theorem flatMap_ends_run {p : Char → Bool} {least : Nat} {t rest : Text} {β : Type}
    {k : Point ι → List β} (hs : s.cursor.after = t ++ rest) (ht : ∀ x ∈ t, p x = true)
    (hrest : ∀ x ∈ rest.head?, p x = false) (hl : least ≤ t.length)
    (hk : ∀ n < t.length, k (s.skip n) = []) :
    ((Pattern.run true p least none).ends s).flatMap k = k (s.skip t.length) := by
  have hbefore : ∀ n ∈ (List.range' least (t.length - least)).reverse, k (s.skip n) = [] := by
    intro n hn
    have := List.mem_range'_1.1 (List.mem_reverse.1 hn)
    exact hk n (by omega)
  rw [ends_run hs ht hrest hl, List.flatMap_cons, List.flatMap_map,
    List.flatMap_eq_nil_iff.2 hbefore, List.append_nil]

/-! ## The texts that a pattern takes -/

/-- The pattern takes just the texts with the property, whatever they stand between, and keeps no
parts. -/
def TakesJust (p : Pattern ι) (L : Text → Prop) : Prop :=
  ∀ s e, e ∈ p.ends s ↔ ∃ t rest, s.cursor.after = t ++ rest ∧ L t ∧ e = s.skip t.length

theorem takesJust_text (t : Text) : (text t : Pattern ι).TakesJust (· = t) := by
  intro s e
  rw [mem_ends_text]
  constructor
  · rintro ⟨rest, hs, rfl⟩
    exact ⟨t, rest, hs, rfl, rfl⟩
  · rintro ⟨t, rest, hs, rfl, rfl⟩
    exact ⟨rest, hs, rfl⟩

theorem takesJust_one (p : Char → Bool) :
    (Pattern.one p : Pattern ι).TakesJust fun t => ∃ x, t = [x] ∧ p x = true := by
  intro s e
  rw [mem_ends_one]
  constructor
  · rintro ⟨x, rest, hs, hx, rfl⟩
    exact ⟨[x], rest, hs, ⟨x, rfl, hx⟩, rfl⟩
  · rintro ⟨_, rest, hs, ⟨x, rfl, hx⟩, rfl⟩
    exact ⟨x, rest, hs, hx, rfl⟩

theorem takesJust_run (greedy : Bool) (p : Char → Bool) (least : Nat) :
    (Pattern.run greedy p least none : Pattern ι).TakesJust
      fun t => (∀ x ∈ t, p x = true) ∧ least ≤ t.length := by
  intro s e
  rw [mem_ends_run]
  simp only [and_assoc]

namespace TakesJust

variable {p q : Pattern ι} {L M : Text → Prop}

theorem congr (hp : p.TakesJust L) (h : ∀ t, L t ↔ M t) : p.TakesJust M := by
  obtain rfl : L = M := funext fun t => propext (h t)
  exact hp

theorem append (hp : p.TakesJust L) (hq : q.TakesJust M) :
    (p ++ q).TakesJust fun t => ∃ a b, t = a ++ b ∧ L a ∧ M b := by
  intro s e
  rw [mem_ends_append]
  constructor
  · rintro ⟨m, hm, he⟩
    obtain ⟨a, rest, hs, ha, rfl⟩ := (hp s m).1 hm
    obtain ⟨b, rest', hrest, hb, rfl⟩ := (hq _ e).1 he
    rw [Point.after_skip_of_eq hs] at hrest
    subst hrest
    refine ⟨a ++ b, rest', by rw [hs, List.append_assoc], ⟨a, b, rfl, ha, hb⟩, ?_⟩
    rw [Point.skip_skip, List.length_append]
  · rintro ⟨t, rest, hs, ⟨a, b, rfl, ha, hb⟩, rfl⟩
    rw [List.append_assoc] at hs
    refine ⟨s.skip a.length, (hp s _).2 ⟨a, b ++ rest, hs, ha, rfl⟩, ?_⟩
    refine (hq _ _).2 ⟨b, rest, Point.after_skip_of_eq hs, hb, ?_⟩
    rw [Point.skip_skip, List.length_append]

theorem or (hp : p.TakesJust L) (hq : q.TakesJust M) :
    (p ||| q).TakesJust fun t => L t ∨ M t := by
  intro s e
  rw [mem_ends_or, hp s e, hq s e]
  constructor
  · rintro (⟨t, rest, hs, ht, he⟩ | ⟨t, rest, hs, ht, he⟩)
    · exact ⟨t, rest, hs, .inl ht, he⟩
    · exact ⟨t, rest, hs, .inr ht, he⟩
  · rintro ⟨t, rest, hs, ht | ht, he⟩
    · exact .inl ⟨t, rest, hs, ht, he⟩
    · exact .inr ⟨t, rest, hs, ht, he⟩

theorem maybe (hp : p.TakesJust L) : (maybe p).TakesJust fun t => L t ∨ t = [] :=
  hp.or (takesJust_text [])

theorem anyCase (k : Text) :
    (anyCase k : Pattern ι).TakesJust fun t => t.map Text.fold = k.map Text.fold := by
  induction k with
  | nil => exact (takesJust_text []).congr fun t => List.map_eq_nil_iff.symm
  | cons c k ih =>
    refine ((takesJust_one _).append ih).congr fun t => ?_
    rw [List.map_cons, List.map_eq_cons_iff]
    constructor
    · rintro ⟨_, b, rfl, ⟨x, rfl, hx⟩, hb⟩
      exact ⟨x, b, rfl, eq_of_beq hx, hb⟩
    · rintro ⟨x, b, rfl, hx, hb⟩
      exact ⟨[x], b, rfl, ⟨x, rfl, beq_iff_eq.2 hx⟩, hb⟩

/-- An end of the pattern, from a place where it takes the text. -/
theorem skip_mem_ends (hp : p.TakesJust L) {t rest : Text} (hs : s.cursor.after = t ++ rest)
    (ht : L t) : s.skip t.length ∈ p.ends s := (hp s _).2 ⟨t, rest, hs, ht, rfl⟩

end TakesJust

/-! ## Which characters a pattern takes -/

/-- Whether the pattern takes characters with the property `P` only. -/
def Takes (P : Char → Prop) : Pattern ι → Prop
  | .empty | .here _ | .ahead _ _ | .behind _ _ _ => True
  | .one p | .run _ p _ _ => ∀ c, p c = true → P c
  | .seq p q | .alt p q | .given _ p q => p.Takes P ∧ q.Takes P
  | .many _ p _ _ | .part _ p | .once p => p.Takes P
  | .again _ _ => ∀ c, P c

omit [DecidableEq ι] in
theorem takes_text {P : Char → Prop} {t : Text} (h : ∀ c ∈ t, P c) :
    (text t : Pattern ι).Takes P := by
  have takes_char {c : Char} (hc : P c) : (char c : Pattern ι).Takes P := by
    intro x hx
    rwa [eq_of_beq hx]
  fun_induction text t with
  | case1 => trivial
  | case2 c => exact takes_char (h c (List.mem_singleton_self c))
  | case3 c t _ ih =>
    exact ⟨takes_char (h c List.mem_cons_self), ih fun d hd => h d (List.mem_cons_of_mem c hd)⟩

omit [DecidableEq ι] in
theorem takes_any (p : Pattern ι) : p.Takes fun _ => True := by
  induction p with
  | empty | here | ahead | behind => trivial
  | one | run | again => exact fun _ => by simp
  | seq _ _ ihp ihq | alt _ _ ihp ihq | given _ _ _ ihp ihq => exact ⟨ihp, ihq⟩
  | many _ _ _ _ ih | part _ _ ih | once _ ih => exact ih

omit [DecidableEq ι] in
/-- Whether no class of the pattern has the character `z`. -/
def excludes (z : Char) : Pattern ι → Bool
  | .empty | .here _ | .ahead _ _ | .behind _ _ _ => true
  | .one p | .run _ p _ _ => !p z
  | .seq p q | .alt p q | .given _ p q => p.excludes z && q.excludes z
  | .many _ p _ _ | .part _ p | .once p => p.excludes z
  | .again _ _ => false

omit [DecidableEq ι] in
theorem takes_of_excludes {z : Char} {p : Pattern ι} (h : p.excludes z = true) :
    p.Takes (· ≠ z) := by
  have hclass {q : Char → Bool} (hq : (!q z) = true) : ∀ c, q c = true → c ≠ z := by
    rintro c hc rfl
    simp [hc] at hq
  induction p with
  | empty | here | ahead | behind => trivial
  | one q => exact hclass h
  | run greedy q least most => exact hclass h
  | seq p q ihp ihq | alt p q ihp ihq | given i p q ihp ihq =>
    obtain ⟨hp, hq⟩ := Bool.and_eq_true_iff.1 h
    exact ⟨ihp hp, ihq hq⟩
  | many greedy p least most ih | part i p ih | once p ih => exact ih h
  | again => cases h

/-- The end lies behind a text of characters with the property. -/
def IsBehind (P : Char → Prop) (c c' : Cursor) : Prop :=
  ∃ t rest, c.after = t ++ rest ∧ (∀ x ∈ t, P x) ∧ c' = c.skip t.length

theorem IsBehind.refl (P : Char → Prop) (c : Cursor) : IsBehind P c c := by
  refine ⟨[], c.after, rfl, ?_, rfl⟩
  intro x hx
  cases hx

theorem IsBehind.trans {P : Char → Prop} {c c' c'' : Cursor} (h : IsBehind P c c')
    (h' : IsBehind P c' c'') : IsBehind P c c'' := by
  obtain ⟨t, rest, hc, ht, rfl⟩ := h
  obtain ⟨u, rest', hc', hu, rfl⟩ := h'
  rw [Cursor.after_skip, hc, List.drop_left] at hc'
  subst hc'
  refine ⟨t ++ u, rest', by rw [hc, List.append_assoc], ?_, ?_⟩
  · intro x hx
    rcases List.mem_append.1 hx with hx | hx
    · exact ht x hx
    · exact hu x hx
  · rw [Cursor.skip_skip, List.length_append]

theorem isBehind_next {P : Char → Prop} {c : Cursor} {x : Char} {rest : Text}
    (h : c.after = x :: rest) (hx : P x) : IsBehind P c c.next := by
  refine ⟨[x], rest, h, ?_, rfl⟩
  intro y hy
  rwa [List.mem_singleton.1 hy]

omit [DecidableEq ι] in
/-- What every round keeps holds where a repetition ends. -/
theorem of_mem_endsOfMany {Q : Point ι → Prop} {body : Point ι → List (Point ι)}
    (hbody : ∀ s, Q s → ∀ e ∈ body s, Q e) {greedy : Bool} {least : Nat} {most : Option Nat}
    {rounds count : Nat} {last : Option Nat} {s e : Point ι} (hs : Q s)
    (he : e ∈ endsOfMany body greedy least most rounds count last s) : Q e := by
  induction rounds generalizing count last s with
  | zero => cases he
  | succ rounds ih =>
    have more {count : Nat} {last : Option Nat}
        (h : e ∈ (body s).flatMap (endsOfMany body greedy least most rounds count last)) :
        Q e := by
      obtain ⟨m, hm, he⟩ := List.mem_flatMap.1 h
      exact ih (hbody s hs m hm) he
    have stop (h : e = s) : Q e := h ▸ hs
    rw [endsOfMany] at he
    split at he
    · exact more he
    · split at he
      · split at he
        · rcases List.mem_append.1 he with he | he
          · exact more he
          · exact stop (List.mem_singleton.1 he)
        · rcases List.mem_cons.1 he with he | he
          · exact stop he
          · exact more he
      · exact stop (List.mem_singleton.1 he)

theorem isBehind_behindText? {P : Char → Prop} (hP : ∀ c, P c) {same : Char → Char → Bool}
    {t : Text} {c c' : Cursor} (h : behindText? same t c = some c') : IsBehind P c c' := by
  induction t generalizing c with
  | nil =>
    obtain rfl := Option.some.inj h
    exact .refl P c
  | cons x t ih =>
    rw [behindText?] at h
    split at h
    · cases h
    · rename_i y rest hc
      split at h
      · exact (isBehind_next hc (hP y)).trans (ih h)
      · cases h

omit [DecidableEq ι] in
/-- Looking ahead or behind does not move. -/
theorem cursor_of_look {wanted : Bool} {found : Option (Point ι)}
    (h : e ∈ match found with
      | some m => if wanted then [m.at s.cursor] else []
      | none => if wanted then [] else [s]) : e.cursor = s.cursor := by
  cases found <;> cases wanted <;> simp at h <;> subst h <;> rfl

/-- What a pattern takes is made of characters that it may take. -/
theorem isBehind_of_mem_ends {P : Char → Prop} {p : Pattern ι} (hp : p.Takes P)
    (he : e ∈ p.ends s) : IsBehind P s.cursor e.cursor := by
  have here {s e : Point ι} (h : e.cursor = s.cursor) : IsBehind P s.cursor e.cursor :=
    h ▸ .refl P _
  induction p generalizing s e with
  | empty => exact here (List.mem_singleton.1 he ▸ rfl)
  | one p =>
    obtain ⟨x, rest, hs, hx, rfl⟩ := mem_ends_one.1 he
    exact isBehind_next hs (hp x hx)
  | run greedy p least most =>
    obtain ⟨n, ⟨-, hn⟩, rfl⟩ := mem_ends_run_iff_reach.1 he
    obtain ⟨t, rest, hs, ht, rfl⟩ := Cursor.exists_of_le_reach hn
    exact ⟨t, rest, hs, fun x hx => hp x (ht x hx), rfl⟩
  | here test => exact here (congrArg Point.cursor (mem_ends_here.1 he).2)
  | seq p q ihp ihq =>
    obtain ⟨m, hm, he⟩ := List.mem_flatMap.1 he
    exact (ihp hp.1 hm).trans (ihq hp.2 he)
  | alt p q ihp ihq =>
    rcases List.mem_append.1 he with he | he
    · exact ihp hp.1 he
    · exact ihq hp.2 he
  | many greedy p least most ih =>
    refine of_mem_endsOfMany (Q := fun m => IsBehind P s.cursor m.cursor) ?_ (.refl P _) he
    intro m hm e he
    exact hm.trans (ih hp he)
  | part i p ih =>
    obtain ⟨m, hm, rfl⟩ := mem_ends_part.1 he
    have hmark : (m.mark i s.cursor).cursor = m.cursor := rfl
    rw [hmark]
    exact ih hp hm
  | again i same =>
    rw [ends] at he
    split at he
    · cases he
    · obtain ⟨c, hc, rfl⟩ := Option.map_eq_some_iff.1 (Option.mem_toList.1 he)
      exact isBehind_behindText? hp hc
  | ahead wanted p ih =>
    rw [ends] at he
    exact here (cursor_of_look he)
  | behind wanted width p ih =>
    rw [ends] at he
    exact here (cursor_of_look he)
  | once p ih => exact ih hp (List.mem_of_head? (Option.mem_toList.1 he))
  | given i p q ihp ihq =>
    rw [ends] at he
    split at he
    · exact ihp hp.1 he
    · exact ihq hp.2 he

end Pattern
end ImportScan
