import ImportScan.Proofs.Pattern.Behind
import Mathlib.Data.List.Forall2
import Mathlib.Data.List.TakeWhile

/-!
# Two texts matched in step

Two places see the same text, but at one of them it goes on behind a seam where it ends at the other
(`Alongside`). A pattern whose characters do not lead over the seam, and whose tests do not tell the
places apart, has corresponding ends at both (`carries_alongside`): the same text leads to each, and
the parts have the same texts. So the matches that start before the seam look the same in both texts
(`matchesFrom_alongside`).

`Carries R Q` says this of any two relations between places, so that patterns are put together step
by step: the relation that one step leads to is the one that the next starts from.
-/

namespace ImportScan

open List (Forall₂)

variable {ι : Type}

/-! ## Going the same way -/

namespace Cursor

/-- The same text leads from `c` to `d` and from `c'` to `d'`. -/
def Went (c c' d d' : Cursor) : Prop :=
  ∃ t r r', c.after = t ++ r ∧ c'.after = t ++ r' ∧ d = c.skip t.length ∧ d' = c'.skip t.length

theorem Went.refl (c c' : Cursor) : Went c c' c c' := ⟨[], c.after, c'.after, rfl, rfl, rfl, rfl⟩

theorem Went.trans {c c' d d' e e' : Cursor} (h : Went c c' d d') (h' : Went d d' e e') :
    Went c c' e e' := by
  obtain ⟨t, r, r', hc, hc', rfl, rfl⟩ := h
  obtain ⟨u, q, q', hr, hr', rfl, rfl⟩ := h'
  rw [after_skip, hc, List.drop_left] at hr
  rw [after_skip, hc', List.drop_left] at hr'
  subst hr hr'
  refine ⟨t ++ u, q, q', by rw [hc, List.append_assoc], by rw [hc', List.append_assoc], ?_, ?_⟩
  · rw [skip_skip, List.length_append]
  · rw [skip_skip, List.length_append]

theorem Went.exists_offset {c c' d d' : Cursor} (h : Went c c' d d') :
    ∃ n, d.offset = c.offset + n ∧ d'.offset = c'.offset + n ∧ c.left = d.left + n ∧
      c'.left = d'.left + n ∧ c.after.take n = c'.after.take n := by
  obtain ⟨t, r, r', hc, hc', rfl, rfl⟩ := h
  have hleft {c : Cursor} {r : Text} (h : c.after = t ++ r) :
      c.left = (c.skip t.length).left + t.length := by
    rw [left_eq, left_eq, after_skip, h, List.drop_left, List.length_append, Nat.add_comm]
  refine ⟨t.length, offset_skip ?_, offset_skip ?_, hleft hc, hleft hc', ?_⟩
  · simp [hc]
  · simp [hc']
  · rw [hc, hc', List.take_left, List.take_left]

end Cursor

namespace Point

/-- The labels and the texts of the parts. -/
def texts (s : Point ι) : List (ι × Text) := s.parts.map fun part => (part.1, part.2.text)

theorem part?_eq_lookup [DecidableEq ι] (s : Point ι) (i : ι) : s.part? i = s.texts.lookup i := by
  obtain ⟨c, parts⟩ := s
  unfold part? texts
  induction parts with
  | nil => rfl
  | cons part parts ih =>
    rw [List.map_cons, List.lookup_cons, List.lookup_cons]
    cases i == part.1 with
    | true => rfl
    | false => exact ih

/-- The same text leads from `c` to `e` and from `c'` to `e'`, where the places are related and the
parts have the same texts. -/
structure InStep (Q : Cursor → Cursor → Prop) (c c' : Cursor) (e e' : Point ι) : Prop where
  went : Cursor.Went c c' e.cursor e'.cursor
  places : Q e.cursor e'.cursor
  texts : e.texts = e'.texts

theorem InStep.mark {Q : Cursor → Cursor → Prop} {c c' : Cursor} {e e' : Point ι}
    (h : InStep Q c c' e e') (i : ι) : InStep Q c c' (e.mark i c) (e'.mark i c') where
  went := h.went
  places := h.places
  texts := by
    obtain ⟨n, hd, hd', -, -, htake⟩ := h.went.exists_offset
    have hspan {c d : Cursor} (h : d.offset = c.offset + n) :
        (Span.mk c (d.offset - c.offset)).text = c.after.take n := by
      rw [Span.text, h, Nat.add_sub_cancel_left]
    have htexts := h.texts
    unfold Point.texts at htexts ⊢
    unfold Point.mark
    rw [List.map_cons, List.map_cons, htexts, hspan hd, hspan hd', htake]

end Point

/-- What a match shows: where it starts, what it takes, and its parts. -/
def Match.look (m : Match ι) : Nat × Text × List (ι × Text) := (m.offset, m.text, m.stop.texts)

namespace Pattern

open Cursor (Went)
open Point (InStep)

/-! ## Step by step -/

variable {R R' Q Q' S : Cursor → Cursor → Prop}

section

variable [DecidableEq ι] {p q : Pattern ι}

/-- From related places the pattern has corresponding ends. -/
def Carries (R Q : Cursor → Cursor → Prop) (p : Pattern ι) : Prop :=
  ∀ s s' : Point ι, R s.cursor s'.cursor → s.texts = s'.texts →
    Forall₂ (InStep Q s.cursor s'.cursor) (p.ends s) (p.ends s')

theorem Carries.mono (h : p.Carries R Q) (hR : ∀ c c', R' c c' → R c c')
    (hQ : ∀ c c', Q c c' → Q' c c') : p.Carries R' Q' := by
  intro s s' hs ht
  exact (h s s' (hR _ _ hs) ht).imp fun e e' he => ⟨he.went, hQ _ _ he.places, he.texts⟩

theorem Carries.congr (h : p.Carries R Q) (hq : ∀ s, q.ends s = p.ends s) : q.Carries R Q := by
  intro s s' hs ht
  rw [hq, hq]
  exact h s s' hs ht

theorem carries_empty : (Pattern.empty : Pattern ι).Carries R R := by
  intro s s' hs ht
  exact .cons ⟨.refl _ _, hs, ht⟩ .nil

theorem carries_here {test : Cursor → Bool} (h : ∀ c c', R c c' → test c = test c') :
    (Pattern.here test : Pattern ι).Carries R R := by
  intro s s' hs ht
  rw [ends, ends, h _ _ hs]
  split
  · exact .cons ⟨.refl _ _, hs, ht⟩ .nil
  · exact .nil

theorem Carries.append (hp : p.Carries R Q) (hq : q.Carries Q S) : (p ++ q).Carries R S := by
  intro s s' hs ht
  refine List.rel_flatMap (hp s s' hs ht) fun m m' hm => ?_
  exact (hq m m' hm.places hm.texts).imp fun e e' he => ⟨hm.went.trans he.went, he.places, he.texts⟩

theorem Carries.or (hp : p.Carries R Q) (hq : q.Carries R Q) : (p ||| q).Carries R Q := by
  intro s s' hs ht
  exact List.rel_append (hp s s' hs ht) (hq s s' hs ht)

theorem Carries.part (hp : p.Carries R Q) (i : ι) : (Pattern.part i p).Carries R Q := by
  intro s s' hs ht
  rw [ends_part, ends_part, List.forall₂_map_left_iff, List.forall₂_map_right_iff]
  exact (hp s s' hs ht).imp fun e e' he => he.mark i

/-! ## Repetitions -/

/-- The rounds suffice for every iteration to come: each takes a character, but for the last one. -/
def Suffices (least rounds count : Nat) (last : Option Nat) (c : Cursor) : Prop :=
  least - count + c.left + (if last = some c.offset then 1 else 2) ≤ rounds

theorem Suffices.demanded {least rounds count n : Nat} {last : Option Nat} {c d : Cursor}
    (h : Suffices least (rounds + 1) count last c) (hcount : count < least)
    (hoffset : d.offset = c.offset + n) (hleft : c.left = d.left + n) :
    Suffices least rounds (count + 1) last d := by
  unfold Suffices at h ⊢
  by_cases hn : n = 0
  · rw [hn, Nat.add_zero] at hoffset
    rw [hoffset]
    omega
  · split
    · split at h <;> omega
    · split at h <;> omega

theorem Suffices.optional {least rounds count n : Nat} {last : Option Nat} {c d : Cursor}
    (h : Suffices least (rounds + 1) count last c) (hcount : ¬count < least)
    (hlast : last ≠ some c.offset) (hoffset : d.offset = c.offset + n)
    (hleft : c.left = d.left + n) :
    Suffices least rounds (count + 1) (some c.offset) d := by
  unfold Suffices at h ⊢
  rw [if_neg hlast] at h
  by_cases hn : n = 0
  · rw [hn, Nat.add_zero] at hoffset
    rw [hoffset, if_pos rfl]
    omega
  · split <;> omega

/-- Repetitions of what carries a relation carry it, however many rounds there are on either side
as long as they suffice. -/
theorem Carries.endsOfMany (hp : p.Carries R R) (hR : ∀ c c', R c c' → c.offset = c'.offset)
    {greedy : Bool} {least : Nat} {most : Option Nat} {rounds rounds' count : Nat}
    {last : Option Nat} {s s' : Point ι} (hs : R s.cursor s'.cursor) (ht : s.texts = s'.texts)
    (h : Suffices least rounds count last s.cursor)
    (h' : Suffices least rounds' count last s'.cursor) :
    Forall₂ (InStep R s.cursor s'.cursor)
      (endsOfMany p.ends greedy least most rounds count last s)
      (endsOfMany p.ends greedy least most rounds' count last s') := by
  induction rounds generalizing rounds' count last s s' with
  | zero =>
    unfold Suffices at h
    split at h <;> omega
  | succ rounds ih =>
    obtain ⟨rounds', rfl⟩ : ∃ n, rounds' = n + 1 := by
      refine Nat.exists_eq_succ_of_ne_zero fun hzero => ?_
      unfold Suffices at h'
      split at h' <;> omega
    have hoffset := hR _ _ hs
    -- the ends behind one more iteration, if the rounds left suffice behind it
    have more (last : Option Nat)
        (hnext : ∀ (d d' : Cursor) (n : Nat), d.offset = s.cursor.offset + n →
          d'.offset = s'.cursor.offset + n → s.cursor.left = d.left + n →
          s'.cursor.left = d'.left + n →
            Suffices least rounds (count + 1) last d ∧ Suffices least rounds' (count + 1) last d') :
        Forall₂ (InStep R s.cursor s'.cursor)
          ((p.ends s).flatMap (Pattern.endsOfMany p.ends greedy least most rounds (count + 1) last))
          ((p.ends s').flatMap
            (Pattern.endsOfMany p.ends greedy least most rounds' (count + 1) last)) := by
      refine List.rel_flatMap (hp s s' hs ht) fun m m' hm => ?_
      obtain ⟨n, hd, hd', hl, hl', -⟩ := hm.went.exists_offset
      obtain ⟨hsuff, hsuff'⟩ := hnext _ _ n hd hd' hl hl'
      exact (ih hm.places hm.texts hsuff hsuff').imp fun e e' he =>
        ⟨hm.went.trans he.went, he.places, he.texts⟩
    have stop : Forall₂ (InStep R s.cursor s'.cursor) [s] [s'] := .cons ⟨.refl _ _, hs, ht⟩ .nil
    rw [Pattern.endsOfMany, Pattern.endsOfMany, ← hoffset]
    by_cases hcount : count < least
    · rw [if_pos hcount, if_pos hcount]
      exact more last fun d d' n hd hd' hl hl' =>
        ⟨h.demanded hcount hd hl, h'.demanded hcount hd' hl'⟩
    · rw [if_neg hcount, if_neg hcount]
      by_cases hgo : (most.all (count < ·) && last != some s.cursor.offset) = true
      · rw [if_pos hgo, if_pos hgo]
        have hlast : last ≠ some s.cursor.offset := by
          simpa using (Bool.and_eq_true_iff.1 hgo).2
        have hmore := more (some s.cursor.offset) fun d d' n hd hd' hl hl' =>
          ⟨h.optional hcount hlast hd hl,
            hoffset ▸ h'.optional hcount (hoffset ▸ hlast) hd' hl'⟩
        cases greedy with
        | true => exact List.rel_append hmore stop
        | false => exact List.rel_append stop hmore
      · rw [if_neg hgo, if_neg hgo]
        exact stop

theorem Carries.many (hp : p.Carries R R) (hR : ∀ c c', R c c' → c.offset = c'.offset)
    (greedy : Bool) (least : Nat) (most : Option Nat) :
    (Pattern.many greedy p least most).Carries R R := by
  intro s s' hs ht
  rw [ends, ends]
  exact hp.endsOfMany hR hs ht (by simp [Suffices]) (by simp [Suffices])

end

/-! ## Up to a seam -/

/-- The places see the same text, which is live; it ends at the second place and goes on with `b` at
the first. -/
def Alongside (live : Text → Prop) (b : Text) (c c' : Cursor) : Prop :=
  ∃ a v, live v ∧ c = .between a (v ++ b) ∧ c' = .between a v

variable {P : Char → Prop} {live : Text → Prop} {b : Text}

theorem Alongside.offset {c c' : Cursor} (h : Alongside live b c c') : c.offset = c'.offset := by
  obtain ⟨a, v, -, rfl, rfl⟩ := h
  rw [Cursor.offset_between, Cursor.offset_between]

theorem Alongside.before {c c' : Cursor} (h : Alongside live b c c') : c.before = c'.before := by
  obtain ⟨a, v, -, rfl, rfl⟩ := h
  rw [Cursor.before_between, Cursor.before_between]

theorem Alongside.mono {live' : Text → Prop} (hlive : ∀ v, live v → live' v) {c c' : Cursor}
    (h : Alongside live b c c') : Alongside live' b c c' := by
  obtain ⟨a, v, hv, hc, hc'⟩ := h
  exact ⟨a, v, hlive v hv, hc, hc'⟩

/-- A character of `P` leads from one live text to another, and none leads over the end of it. -/
structure Seam (P : Char → Prop) (live : Text → Prop) (b : Text) : Prop where
  tail : ∀ x v, P x → live (x :: v) → live v
  stop : live [] → ∀ x ∈ b.head?, ¬P x

theorem Seam.drop (h : Seam P live b) {t v : Text} (ht : ∀ x ∈ t, P x) (hv : live (t ++ v)) :
    live v := by
  induction t with
  | nil => exact hv
  | cons x t ih =>
    exact ih (fun y hy => ht y (List.mem_cons_of_mem x hy))
      (h.tail x _ (ht x List.mem_cons_self) hv)

/-- A run does not go over the seam. -/
theorem Seam.takeWhile (h : Seam P live b) {p : Char → Bool} (hp : ∀ x, p x = true → P x)
    {v : Text} (hv : live v) : (v ++ b).takeWhile p = v.takeWhile p := by
  by_cases hall : ∀ x ∈ v, p x = true
  · have hnil : live [] := h.drop (t := v) (fun x hx => hp x (hall x hx)) (by simpa using hv)
    have hb : b.takeWhile p = [] := by
      cases b with
      | nil => rfl
      | cons x b => exact List.takeWhile_cons_of_neg fun hx => h.stop hnil x rfl (hp x hx)
    rw [List.takeWhile_append_of_pos hall, hb, List.append_nil, List.takeWhile_eq_self_iff.2 hall]
  · obtain ⟨x, hx, hpx⟩ : ∃ x ∈ v, p x ≠ true := by simpa using hall
    rw [List.takeWhile_append, if_neg]
    intro hlen
    exact hpx (List.takeWhile_eq_self_iff.1
      ((List.takeWhile_prefix p).eq_of_length hlen) x hx)

/-- Behind a text of `P` the places are alongside again. -/
theorem Seam.inStep (h : Seam P live b) {a t v : Text} (ht : ∀ x ∈ t, P x) (hv : live (t ++ v))
    {s s' : Point ι} (hs : s.cursor = .between a (t ++ v ++ b))
    (hs' : s'.cursor = .between a (t ++ v)) (htexts : s.texts = s'.texts) :
    InStep (Alongside live b) s.cursor s'.cursor (s.skip t.length) (s'.skip t.length) where
  went := by
    refine ⟨t, v ++ b, v, ?_, ?_, rfl, rfl⟩
    · rw [hs, Cursor.after_between, List.append_assoc]
    · rw [hs', Cursor.after_between]
  places := by
    refine ⟨a ++ t, v, h.drop ht hv, ?_, ?_⟩
    · rw [Point.cursor_skip, hs, List.append_assoc, Cursor.skip_between]
    · rw [Point.cursor_skip, hs', Cursor.skip_between]
  texts := htexts

variable [DecidableEq ι]

theorem Seam.carries_one (h : Seam P live b) {p : Char → Bool} (hp : ∀ x, p x = true → P x) :
    (Pattern.one p : Pattern ι).Carries (Alongside live b) (Alongside live b) := by
  rintro s s' ⟨a, v, hv, hs, hs'⟩ ht
  cases v with
  | nil =>
    have hnil : (Pattern.one p).ends s = [] := by
      refine List.eq_nil_iff_forall_not_mem.2 fun e he => ?_
      obtain ⟨x, rest, hx, hpx, -⟩ := mem_ends_one.1 he
      rw [hs, Cursor.after_between, List.nil_append] at hx
      exact h.stop hv x (by rw [hx]; rfl) (hp x hpx)
    have hnil' : (Pattern.one p).ends s' = [] := by
      rw [ends, hs']
      rfl
    rw [hnil, hnil']
    exact .nil
  | cons x v =>
    have hafter : s.cursor.after = x :: (v ++ b) := by
      rw [hs]
      rfl
    have hafter' : s'.cursor.after = x :: v := by
      rw [hs']
      rfl
    rw [ends_one hafter, ends_one hafter']
    by_cases hx : p x = true
    · rw [if_pos hx, if_pos hx]
      have hxP : ∀ y ∈ [x], P y := fun y hy => List.mem_singleton.1 hy ▸ hp x hx
      exact .cons (h.inStep (t := [x]) hxP hv hs hs' ht) .nil
    · rw [if_neg hx, if_neg hx]
      exact .nil

theorem Seam.carries_run (h : Seam P live b) {p : Char → Bool} (hp : ∀ x, p x = true → P x)
    (greedy : Bool) (least : Nat) : (Pattern.run greedy p least none : Pattern ι).Carries
      (Alongside live b) (Alongside live b) := by
  rintro s s' ⟨a, v, hv, hs, hs'⟩ ht
  have hreach : (s.cursor.farthest p none 0).1 = (v.takeWhile p).length := by
    rw [Cursor.farthest_eq, hs, Cursor.after_between, Nat.zero_add, Cursor.reach,
      h.takeWhile hp hv]
  have hreach' : (s'.cursor.farthest p none 0).1 = (v.takeWhile p).length := by
    rw [Cursor.farthest_eq, hs', Cursor.after_between, Nat.zero_add, Cursor.reach]
  -- both have an end for each count up to the length of the run
  have hcounts : ∀ n ≤ (v.takeWhile p).length,
      InStep (Alongside live b) s.cursor s'.cursor (s.skip n) (s'.skip n) := by
    intro n hn
    have hreaches : n ≤ Cursor.reach p none 0 v := hn
    obtain ⟨t, v, rfl, ht', rfl⟩ := Cursor.exists_of_le_reach hreaches
    exact h.inStep (fun x hx => hp x (ht' x hx)) hv hs hs' ht
  rw [ends, ends, hreach, hreach']
  simp only [endsOfRun, List.map_map, List.forall₂_map_left_iff, List.forall₂_map_right_iff,
    List.forall₂_same]
  intro n hn
  apply hcounts
  have hrange : n ∈ List.range' least ((v.takeWhile p).length + 1 - least) := by
    cases greedy
    · exact hn
    · exact List.mem_reverse.1 hn
  have := List.mem_range'_1.1 hrange
  omega

/-! ## Patterns put together -/

omit [DecidableEq ι] in
/-- Whether the pattern is put together from classes, unbounded runs and tests with the property
`T`. -/
def BuiltOn (T : (Cursor → Bool) → Prop) : Pattern ι → Prop
  | .empty | .one _ => True
  | .run _ _ _ most => most = none
  | .here test => T test
  | .seq p q | .alt p q => p.BuiltOn T ∧ q.BuiltOn T
  | .many _ p _ _ | .part _ p => p.BuiltOn T
  | .again _ _ | .ahead _ _ | .behind _ _ _ | .once _ | .given _ _ _ => False

section

omit [DecidableEq ι]

variable {T : (Cursor → Bool) → Prop} {p q : Pattern ι}

@[simp] theorem builtOn_append : (p ++ q).BuiltOn T ↔ p.BuiltOn T ∧ q.BuiltOn T := Iff.rfl

@[simp] theorem builtOn_or : (p ||| q).BuiltOn T ↔ p.BuiltOn T ∧ q.BuiltOn T := Iff.rfl

@[simp] theorem builtOn_maybe : (maybe p).BuiltOn T ↔ p.BuiltOn T := and_iff_left trivial

@[simp] theorem builtOn_part {i : ι} : (Pattern.part i p).BuiltOn T ↔ p.BuiltOn T := Iff.rfl

@[simp] theorem builtOn_many {greedy : Bool} {least : Nat} {most : Option Nat} :
    (Pattern.many greedy p least most).BuiltOn T ↔ p.BuiltOn T := Iff.rfl

@[simp] theorem builtOn_here {test : Cursor → Bool} :
    (Pattern.here test : Pattern ι).BuiltOn T ↔ T test := Iff.rfl

@[simp] theorem builtOn_one (c : Char → Bool) : (Pattern.one c : Pattern ι).BuiltOn T := trivial

@[simp] theorem builtOn_run (greedy : Bool) (c : Char → Bool) (least : Nat) :
    (Pattern.run greedy c least none : Pattern ι).BuiltOn T := rfl

@[simp] theorem builtOn_char (c : Char) : (char c : Pattern ι).BuiltOn T := trivial

@[simp] theorem builtOn_some0 (c : Char → Bool) : (some0 c : Pattern ι).BuiltOn T := rfl

@[simp] theorem builtOn_some1 (c : Char → Bool) : (some1 c : Pattern ι).BuiltOn T := rfl

@[simp] theorem builtOn_gaps0 : (gaps0 : Pattern ι).BuiltOn T := rfl

@[simp] theorem builtOn_gaps1 : (gaps1 : Pattern ι).BuiltOn T := rfl

@[simp] theorem builtOn_many0 : (many0 p).BuiltOn T ↔ p.BuiltOn T := Iff.rfl

@[simp] theorem builtOn_text (t : Text) : (text t : Pattern ι).BuiltOn T := by
  fun_induction text t with
  | case1 => trivial
  | case2 => trivial
  | case3 c t _ ih => exact ⟨trivial, ih⟩

@[simp] theorem builtOn_word (s : String) : (word s : Pattern ι).BuiltOn T := builtOn_text s.toList

@[simp] theorem builtOn_anyCase (t : Text) : (anyCase t : Pattern ι).BuiltOn T := by
  induction t with
  | nil => trivial
  | cons c t ih => exact ⟨trivial, ih⟩

end

omit [DecidableEq ι] in
theorem BuiltOn.overlooks {T : (Cursor → Bool) → Prop} {front : Text}
    (hT : ∀ test, T test → ∀ c, test (c.behind front) = test c) {p : Pattern ι}
    (hp : p.BuiltOn T) : p.Overlooks front := by
  induction p with
  | empty | one | run => trivial
  | here test => exact hT test hp
  | seq p q ihp ihq | alt p q ihp ihq => exact ⟨ihp hp.1, ihq hp.2⟩
  | many greedy p least most ih | part i p ih => exact ih hp
  | again | ahead | behind | once | given => exact hp.elim

/-- A pattern that neither its characters lead over the seam nor its tests let see it has
corresponding ends. -/
theorem carries_alongside (h : Seam P live b) {T : (Cursor → Bool) → Prop}
    (hT : ∀ test, T test → ∀ c c', Alongside live b c c' → test c = test c') {p : Pattern ι}
    (htakes : p.Takes P) (hp : p.BuiltOn T) :
    p.Carries (Alongside live b) (Alongside live b) := by
  induction p with
  | empty => exact carries_empty
  | one p => exact h.carries_one htakes
  | run greedy p least most =>
    obtain rfl : most = none := hp
    exact h.carries_run htakes greedy least
  | here test => exact carries_here (hT test hp)
  | seq p q ihp ihq => exact (ihp htakes.1 hp.1).append (ihq htakes.2 hp.2)
  | alt p q ihp ihq => exact (ihp htakes.1 hp.1).or (ihq htakes.2 hp.2)
  | many greedy p least most ih =>
    exact (ih htakes hp).many (fun c c' hc => hc.offset) greedy least most
  | part i p ih => exact (ih htakes hp).part i
  | again | ahead | behind | once | given => exact hp.elim

/-! ## The same matches -/

/-- From related places the preferred matches, if there are any, look the same. -/
theorem Carries.matchAt? {p : Pattern ι} (h : p.Carries R Q) {c c' : Cursor} (hc : R c c')
    (hoffset : c.offset = c'.offset) :
    (p.matchAt? c = none ∧ p.matchAt? c' = none) ∨
      ∃ m m', p.matchAt? c = some m ∧ p.matchAt? c' = some m' ∧ m.look = m'.look ∧
        Q m.stop.cursor m'.stop.cursor := by
  have hends := h ⟨c, []⟩ ⟨c', []⟩ hc rfl
  rw [matchAt?_eq, matchAt?_eq]
  cases hl : p.ends ⟨c, []⟩ with
  | nil =>
    rw [hl, List.forall₂_nil_left_iff] at hends
    rw [hends]
    exact .inl ⟨rfl, rfl⟩
  | cons e l =>
    rw [hl] at hends
    obtain ⟨e', l', he, -, hl'⟩ := List.forall₂_cons_left_iff.1 hends
    rw [hl']
    refine .inr ⟨⟨c, e⟩, ⟨c', e'⟩, rfl, rfl, ?_, he.places⟩
    obtain ⟨n, hd, hd', -, -, htake⟩ := he.went.exists_offset
    have hn : (Match.mk c e).length = n := by
      rw [Match.length, hd, Nat.add_sub_cancel_left]
    have hn' : (Match.mk c' e').length = n := by
      rw [Match.length, hd', Nat.add_sub_cancel_left]
    have htexts := he.texts
    unfold Match.look Match.offset Match.text
    rw [hn, hn', htexts]
    dsimp only at htake ⊢
    rw [htake, hoffset]

/-- The matches that start in a text look the same whether it ends or goes on, if none leads over
the seam. -/
theorem matchesFrom_alongside {p : Pattern ι}
    (hp : p.Carries (Alongside live b) (Alongside (fun _ => True) b)) {a v : Text} {taken : Nat}
    (hv : ∀ w, w <:+ v → w ≠ [] → live w) (htaken : taken ≤ v.length) :
    ∃ ms ms', p.matchesFrom taken (.between a (v ++ b)) =
        ms ++ p.matchesFrom 0 (.between (a ++ v) b) ∧
      p.matchesFrom taken (.between a v) = ms' ++ p.matchesFrom 0 (.between (a ++ v) []) ∧
      ms.map Match.look = ms'.map Match.look ∧
      ∀ m ∈ ms, m.offset + m.text.length ≤ a.length + v.length := by
  induction v generalizing a taken with
  | nil =>
    obtain rfl : taken = 0 := Nat.le_zero.1 htaken
    exact ⟨[], [], by simp, by simp, rfl, fun m hm => nomatch hm⟩
  | cons x v ih =>
    have hsuffix : ∀ w, w <:+ v → w ≠ [] → live w := fun w hw =>
      hv w (hw.trans (List.suffix_cons x v))
    have hnext {b : Text} : (Cursor.between a (x :: v ++ b)).next = .between (a ++ [x]) (v ++ b) :=
      Cursor.next_between a x (v ++ b)
    have hnext' : (Cursor.between a (x :: v)).next = .between (a ++ [x]) v :=
      Cursor.next_between a x v
    have hafter : (Cursor.between a (x :: v ++ b)).after = x :: (v ++ b) := rfl
    have hafter' : (Cursor.between a (x :: v)).after = x :: v := rfl
    have hplace (b : Text) : Cursor.between (a ++ [x] ++ v) b = .between (a ++ x :: v) b := by
      rw [List.append_assoc, List.singleton_append]
    cases taken with
    | succ taken =>
      obtain ⟨ms, ms', hms, hms', hlook, hlen⟩ :=
        ih (a := a ++ [x]) hsuffix (Nat.le_of_succ_le_succ htaken)
      rw [hplace] at hms hms'
      refine ⟨ms, ms', ?_, ?_, hlook, fun m hm => ?_⟩
      · rw [matchesFrom_taken hafter, hnext, hms]
      · rw [matchesFrom_taken hafter', hnext', hms']
      · have := hlen m hm
        simp only [List.length_append, List.length_cons, List.length_nil] at this ⊢
        omega
    | zero =>
      have hlive : live (x :: v) := hv _ (List.suffix_refl _) (List.cons_ne_nil x v)
      rcases hp.matchAt? ⟨a, x :: v, hlive, rfl, rfl⟩ (by simp) with
        ⟨hnone, hnone'⟩ | ⟨m, m', hm, hm', hlook, hstop⟩
      · obtain ⟨ms, ms', hms, hms', hlook, hlen⟩ :=
          ih (a := a ++ [x]) hsuffix (Nat.zero_le _)
        rw [hplace] at hms hms'
        refine ⟨ms, ms', ?_, ?_, hlook, fun m hm => ?_⟩
        · rw [matchesFrom_none hafter hnone, hnext, hms]
        · rw [matchesFrom_none hafter' hnone', hnext', hms']
        · have := hlen m hm
          simp only [List.length_append, List.length_cons, List.length_nil] at this ⊢
          omega
      · -- a match ends before the seam, so the search goes on from a place before it
        have htext : m.text = m'.text := congrArg (·.2.1) hlook
        obtain ⟨htake, hlength⟩ := after_eq_of_matchAt? hm
        have hlength' := (after_eq_of_matchAt? hm').2
        have hle : m.text.length ≤ v.length + 1 := by
          obtain ⟨a', w, -, hw, -⟩ := hstop
          have := congrArg List.length htake
          rw [hw] at this
          simp only [Cursor.after_between, List.length_append, List.length_cons] at this
          omega
        have htaken : m.text.length - 1 ≤ v.length := by omega
        obtain ⟨ms, ms', hms, hms', hlook', hlen⟩ := ih (a := a ++ [x]) hsuffix htaken
        rw [hplace] at hms hms'
        refine ⟨m :: ms, m' :: ms', ?_, ?_, ?_, ?_⟩
        · rw [matchesFrom_some hafter hm, hlength, hnext, hms,
            List.cons_append]
        · rw [matchesFrom_some hafter' hm', hlength', ← htext, hnext', hms',
            List.cons_append]
        · rw [List.map_cons, List.map_cons, hlook, hlook']
        · intro m₁ hm₁
          rcases List.mem_cons.1 hm₁ with rfl | hm₁
          · rw [offset_of_matchAt? hm, Cursor.offset_between, List.length_cons]
            omega
          · have := hlen m₁ hm₁
            simp only [List.length_append, List.length_cons, List.length_nil] at this ⊢
            omega

end Pattern
end ImportScan
