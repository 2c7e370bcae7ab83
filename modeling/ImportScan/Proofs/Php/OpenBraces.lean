import ImportScan.Proofs.Php.Scope
import Mathlib.Data.List.Induction

/-!
# The braces that are open

Reading the braces of a text from left to right puts an opening one on a stack and takes the last
one off at a closing one, if there is one (`openBraces`). The state from which the brace table is
made is this stack, with what the head of each brace says in its place (`braceState_eq`): one more
character changes both alike. So the table agrees with the stack at every offset, also where braces
do not match (`inside_bodies_iff`). The table has the braces in their order (`offsets_bodies`), so
its entry for an offset may be looked up by halving it (`bisect_eq`).
-/

namespace ImportScan.Php

open Grammar Text

variable {t : Text} {n : Nat}

/-! ## The stack of open braces -/

/-- Whether `c` opens or closes a block. -/
def isBrace (c : Char) : Bool := c == '{' || c == '}'

/-- What a character at an offset makes of the stack. -/
def pushBrace (stack : List Nat) (c : Char × Nat) : List Nat :=
  if c.1 = '{' then c.2 :: stack else if c.1 = '}' then stack.tail else stack

/-- The offsets of the braces that are open behind a text, the innermost first. -/
def openBraces (t : Text) : List Nat := t.zipIdx.foldl pushBrace []

/-- What stands in front of an offset since the last brace. -/
def headOf (code : Text) (n : Nat) : Text := ((code.take n).reverse.takeWhile (!isBrace ·)).reverse

/-- The word `namespace`, with no end of a statement or of a head behind it. -/
def DeclaresNamespace (head : Text) : Prop :=
  ∃ u r, head = u ++ ("namespace".toList ++ r) ∧ u.EndsApart ∧ r.StartsApart ∧ Unended r

theorem openBraces_concat (t : Text) (c : Char) :
    openBraces (t ++ [c]) = pushBrace (openBraces t) (c, t.length) := by
  unfold openBraces
  rw [List.zipIdx_append, List.foldl_append, Nat.zero_add]
  rfl

theorem lt_length_of_mem_openBraces (h : n ∈ openBraces t) : n < t.length := by
  induction t using List.reverseRecOn with
  | nil => cases h
  | append_singleton t c ih =>
    rw [List.length_append, List.length_singleton]
    rw [openBraces_concat, pushBrace] at h
    have hkept (h : n ∈ openBraces t) : n < t.length + 1 := Nat.lt_succ_of_lt (ih h)
    split at h
    · rcases List.mem_cons.1 h with rfl | h
      · exact Nat.lt_succ_self _
      · exact hkept h
    · split at h
      · exact hkept (List.mem_of_mem_tail h)
      · exact hkept h

theorem headOf_append (h : n ≤ t.length) (r : Text) : headOf (t ++ r) n = headOf t n := by
  unfold headOf
  rw [List.take_append_of_le_length h]

/-- The state of the table's scan, told by the stack. -/
theorem braceState_eq (t : Text) : braceState t = ⟨t.reverse.takeWhile (!isBrace ·),
    (openBraces t).map fun n => !endsInNamespace (headOf t n)⟩ := by
  induction t using List.reverseRecOn with
  | nil => rfl
  | append_singleton t c ih =>
    have hstep : braceState (t ++ [c]) = (braceState t).step c := BraceState.run_append _ _ _
    -- the heads of the braces that are open stay as they are
    have hkept (stack : List Nat) (hstack : ∀ n ∈ stack, n ∈ openBraces t) :
        stack.map (fun n => !endsInNamespace (headOf (t ++ [c]) n)) =
          stack.map (fun n => !endsInNamespace (headOf t n)) := by
      refine List.map_congr_left fun n hn => ?_
      rw [headOf_append (Nat.le_of_lt (lt_length_of_mem_openBraces (hstack n hn)))]
    rw [hstep, ih, openBraces_concat, BraceState.step, pushBrace, List.reverse_concat]
    dsimp only
    by_cases ho : c = '{'
    · have hhead : headOf (t ++ [c]) t.length = (t.reverse.takeWhile (!isBrace ·)).reverse := by
        rw [headOf_append (Nat.le_refl _), headOf, List.take_length]
      rw [if_pos ho, if_pos ho, List.map_cons, hhead, hkept _ fun _ => id,
        List.takeWhile_cons_of_neg (by simp [isBrace, ho])]
    · by_cases hc : c = '}'
      · rw [if_neg ho, if_neg ho, if_pos hc, if_pos hc,
          hkept _ fun _ => List.mem_of_mem_tail, List.map_tail,
          List.takeWhile_cons_of_neg (by simp [isBrace, hc])]
      · rw [if_neg ho, if_neg ho, if_neg hc, if_neg hc, hkept _ fun _ => id,
          List.takeWhile_cons_of_pos (by simp [isBrace, ho, hc])]

/-! ## The table -/

/-- The table has an entry for each brace, in their order. -/
theorem offsets_bodies (t : Text) :
    (bodies t).map (·.1) = (List.range t.length).filter fun n => t[n]?.any isBrace := by
  induction t using List.reverseRecOn with
  | nil => rfl
  | append_singleton t c ih =>
    have hbodies : bodies (t ++ [c]) =
        bodies t ++ BraceState.entries t.length (braceState t) [c] := by
      have happend := BraceState.entries_append 0 {} t [c]
      rwa [Nat.zero_add] at happend
    have hlast : (BraceState.entries t.length (braceState t) [c]).map (·.1) =
        [t.length].filter fun n => (t ++ [c])[n]?.any isBrace := by
      have hget : (t ++ [c])[t.length]? = some c := List.getElem?_concat_length
      have hbrace : isBrace c = true ↔ c = '{' ∨ c = '}' := by simp [isBrace]
      have hnil : BraceState.entries (t.length + 1) ((braceState t).step c) [] = [] := rfl
      rw [BraceState.entries_cons, hnil, List.append_nil, List.filter_singleton, hget,
        Option.any_some]
      by_cases hc : c = '{' ∨ c = '}'
      · rw [if_pos hc, hbrace.2 hc]
        rfl
      · rw [if_neg hc, Bool.eq_false_iff.2 (mt hbrace.1 hc)]
        rfl
    have hfront : ((List.range t.length).filter fun n => (t ++ [c])[n]?.any isBrace) =
        (List.range t.length).filter fun n => t[n]?.any isBrace := by
      refine List.filter_congr fun n hn => ?_
      rw [List.getElem?_append_left (List.mem_range.1 hn)]
    rw [hbodies, List.map_append, ih, hlast, List.length_append, List.length_singleton,
      List.range_succ, List.filter_append, hfront]

/-! ## Looking it up -/

/-- The first place from `lo` on and before `hi` whose number is greater than `x`, found by halving
what is between them; `hi` if there is none. -/
def bisect (xs : List Nat) (x lo hi : Nat) : Nat :=
  if lo < hi then
    if x < xs.getD ((lo + hi) / 2) 0 then bisect xs x lo ((lo + hi) / 2)
    else bisect xs x ((lo + hi) / 2 + 1) hi
  else lo
termination_by hi - lo

/-- Halving ends at the place `k` behind which the numbers are greater. -/
theorem bisect_eq_of_le {xs : List Nat} {x k lo hi : Nat}
    (hxs : ∀ i < xs.length, xs.getD i 0 ≤ x ↔ i < k) (hlo : lo ≤ k) (hk : k ≤ hi)
    (hhi : hi ≤ xs.length) : bisect xs x lo hi = k := by
  fun_induction bisect xs x lo hi with
  | case1 lo hi hlt hx ih =>
    have hmid := (hxs ((lo + hi) / 2) (by omega)).not.1 (Nat.not_le.2 hx)
    exact ih hlo (Nat.not_lt.1 hmid) (by omega)
  | case2 lo hi hlt hx ih =>
    have hmid := (hxs ((lo + hi) / 2) (by omega)).1 (Nat.not_lt.1 hx)
    exact ih hmid hk hhi
  | case3 lo hi hlt => omega

/-- Of numbers in ascending order those up to `x` come first. -/
theorem getD_le_iff {xs : List Nat} (hxs : xs.Pairwise (· < ·)) (x : Nat) {i : Nat}
    (hi : i < xs.length) : xs.getD i 0 ≤ x ↔ i < (xs.takeWhile (· ≤ x)).length := by
  induction xs generalizing i with
  | nil => exact absurd hi (Nat.not_lt_zero i)
  | cons y xs ih =>
    obtain ⟨hy, hxs⟩ := List.pairwise_cons.1 hxs
    by_cases hyx : y ≤ x
    · rw [List.takeWhile_cons_of_pos (by simpa using hyx), List.length_cons]
      cases i with
      | zero => exact iff_of_true hyx (Nat.succ_pos _)
      | succ i => exact (ih hxs (Nat.lt_of_succ_lt_succ hi)).trans Nat.succ_lt_succ_iff.symm
    · rw [List.takeWhile_cons_of_neg (by simpa using hyx), List.length_nil]
      refine iff_of_false ?_ (Nat.not_lt_zero i)
      cases i with
      | zero => exact hyx
      | succ i =>
        have hi' : i < xs.length := Nat.lt_of_succ_lt_succ hi
        have hlater : y < xs.getD i 0 := by
          rw [List.getD_eq_getElem?_getD, List.getElem?_eq_getElem hi', Option.getD_some]
          exact hy _ (List.getElem_mem hi')
        rw [List.getD_cons_succ]
        omega

theorem bisect_eq {xs : List Nat} (hxs : xs.Pairwise (· < ·)) (x : Nat) :
    bisect xs x 0 xs.length = (xs.takeWhile (· ≤ x)).length :=
  bisect_eq_of_le (fun _ hi => getD_le_iff hxs x hi) (Nat.zero_le _)
    (List.takeWhile_prefix _).length_le (Nat.le_refl _)

/-- What the entry in front of the first one behind an offset says, which is found by halving. -/
def insideByHalving (scopes : Scopes) (offset : Nat) : Bool :=
  let index := bisect (scopes.map (·.1)) offset 0 scopes.length
  0 < index && (scopes.map (·.2)).getD (index - 1) false

/-- Where the offsets ascend, halving finds the entry that counts. -/
theorem insideByHalving_eq {scopes : Scopes} (h : (scopes.map (·.1)).Pairwise (· < ·)) (n : Nat) :
    insideByHalving scopes n = scopes.inside n := by
  have hindex : bisect (scopes.map (·.1)) n 0 scopes.length =
      (scopes.takeWhile (·.1 ≤ n)).length := by
    have hlength : (scopes.map (·.1)).length = scopes.length := List.length_map _
    rw [← hlength, bisect_eq h, List.takeWhile_map, List.length_map]
    rfl
  have hfront : scopes.takeWhile (·.1 ≤ n) <+: scopes := List.takeWhile_prefix _
  unfold insideByHalving Scopes.inside
  rw [hindex]
  generalize scopes.takeWhile (·.1 ≤ n) = front at hfront
  obtain ⟨rest, rfl⟩ := hfront
  rcases List.eq_nil_or_concat front with rfl | ⟨front, e, rfl⟩
  · rfl
  · simp [List.getD_eq_getElem?_getD]

/-- **The brace table agrees with a plain scan**: at every offset it says whether one of the braces
that are open there has a head that does not end in a namespace declaration; and looking the entry
up by halving the table gives the same. -/
theorem inside_bodies_iff (code : Text) (n : Nat) :
    ((bodies code).inside n = true ↔
      ∃ i ∈ openBraces (code.take (n + 1)), ¬DeclaresNamespace (headOf code i)) ∧
    insideByHalving (bodies code) n = (bodies code).inside n := by
  constructor
  · have hhead : ∀ i ∈ openBraces (code.take (n + 1)),
        headOf (code.take (n + 1)) i = headOf code i := by
      intro i hi
      have happend := headOf_append (Nat.le_of_lt (lt_length_of_mem_openBraces hi))
        (code.drop (n + 1))
      rwa [List.take_append_drop, eq_comm] at happend
    rw [inside_bodies, braceState_eq, BraceState.inBody, List.any_map, List.any_eq_true]
    refine exists_congr fun i => and_congr_right fun hi => ?_
    rw [Function.comp_apply, hhead i hi, id_eq, Bool.not_eq_true', ← Bool.not_eq_true,
      endsInNamespace_iff_exists]
    rfl
  · apply insideByHalving_eq
    rw [offsets_bodies]
    exact List.pairwise_lt_range.filter _

end ImportScan.Php
