import ImportScan.Proofs.Grammar.Indented
import ImportScan.Proofs.Grammar.Seam

/-!
# One more space in front

Most forms of statement take the spaces and tabs at the place where they may start. So one more of
them in front of a text changes little (`Pattern.Gapped`): a match at the start of the text takes it
too, and all other matches are those of the text itself, farther on (`matchesIn_gap_cons`). The
statements are the same, in the same order, and so are the names (`namesIn_gap_cons`).
-/

namespace ImportScan

open Text

variable {x : Char} {t : Text}

/-! ## Matches that take the space -/

namespace Match

variable {ι : Type}

/-- The match once `x` is put in front of the text; at the start of the text it takes `x` too. -/
def widen (x : Char) (m : Match ι) : Match ι :=
  if m.offset = 0 then ⟨.between [] (x :: m.start.after), m.stop.behind [x]⟩ else m.behind [x]

theorem offset_widen (x : Char) (m : Match ι) :
    (m.widen x).offset = if m.offset = 0 then 0 else m.offset + 1 := by
  unfold widen
  split
  · rfl
  · rw [offset_behind, List.length_singleton, Nat.add_comm]

theorem length_widen (x : Char) {m : Match ι} (h : m.offset = 0) :
    (m.widen x).length = m.length + 1 := by
  have hzero : m.start.offset = 0 := h
  unfold widen
  rw [if_pos h, length, length, Point.cursor_behind, Cursor.offset_behind, hzero,
    Cursor.offset_between, List.length_singleton, List.length_nil, Nat.sub_zero, Nat.sub_zero,
    Nat.add_comm]

theorem part?_widen [DecidableEq ι] (x : Char) (m : Match ι) (i : ι) :
    (m.widen x).part? i = m.part? i := by
  unfold widen
  split
  · exact Point.part?_behind [x] m.stop i
  · exact part?_behind [x] m i

theorem firstOffset_widen (hx : isGap x = true) (m : Match Part) :
    (m.widen x).firstOffset = m.firstOffset + 1 := by
  by_cases h : m.offset = 0
  · have hstart : (m.widen x).start.after = x :: m.start.after := by
      unfold widen
      rw [if_pos h]
      rfl
    have htext : (m.widen x).text = x :: m.text := by
      rw [text, length_widen x h, hstart, List.take_succ_cons, text]
    rw [firstOffset, firstOffset, offset_widen, htext, if_pos h, h,
      List.takeWhile_cons_of_pos (isBlank_of_isGap hx), List.length_cons, Nat.add_assoc]
  · unfold widen
    rw [if_neg h, firstOffset_behind, List.length_singleton, Nat.add_comm]

end Match

namespace Pattern

variable {ι : Type} [DecidableEq ι] {p : Pattern ι}

/-- The test holds at the start of a text. With `x` in front it holds where it did, but not right
behind `x`. -/
structure OpensOnce (x : Char) (test : Cursor → Bool) : Prop where
  start : ∀ b, test (.between [] b) = true
  shut : ∀ b, test (.between [x] b) = false
  behind : ∀ c : Cursor, c.before ≠ [] → test (c.behind [x]) = test c

/-- The pattern takes spaces and tabs where a test lets it start, and what it goes on with does not
notice one more of them. -/
structure GappedBy (x : Char) (test : Cursor → Bool) (q p : Pattern ι) : Prop where
  ends : ∀ s, p.ends s = (Pattern.here test ++ gaps0 ++ q).ends s
  upfront : q.Upfront
  opens : OpensOnce x test
  overlooks : q.Overlooks [x]

/-- The pattern takes spaces and tabs at its start, and one more of them is not noticed. -/
def Gapped (x : Char) (p : Pattern ι) : Prop := ∃ test q, GappedBy x test q p

namespace Gapped

theorem matchAt?_nil (hp : p.Gapped x) (a : Text) : p.matchAt? (.between a []) = none := by
  obtain ⟨test, q, hp⟩ := hp
  refine matchAt?_eq_none_of_forall fun e he => ?_
  rw [hp.ends] at he
  obtain ⟨-, g, m, hafter, -, hsolid, -⟩ := exists_of_mem_ends_gapped hp.upfront he
  obtain ⟨y, r, hm, -⟩ := hsolid.exists_cons
  rw [hm] at hafter
  simpa using congrArg List.length hafter

theorem matchAt?_shut (hp : p.Gapped x) (b : Text) : p.matchAt? (.between [x] b) = none := by
  obtain ⟨test, q, hp⟩ := hp
  refine matchAt?_eq_none_of_forall fun e he => ?_
  rw [hp.ends] at he
  have htest := (exists_of_mem_ends_gapped hp.upfront he).1
  rw [hp.opens.shut] at htest
  cases htest

theorem matchAt?_behind (hp : p.Gapped x) {c : Cursor} (hc : c.before ≠ []) :
    p.matchAt? (c.behind [x]) = (p.matchAt? c).map (Match.behind [x]) := by
  obtain ⟨test, q, hp⟩ := hp
  have hends : p.ends ⟨c.behind [x], []⟩ = (p.ends ⟨c, []⟩).map (Point.behind [x]) := by
    have hrest : (gaps0 ++ q).Overlooks [x] := And.intro trivial hp.overlooks
    have hlater : (gaps0 ++ q).ends (Point.behind [x] ⟨c, []⟩) =
        ((gaps0 ++ q).ends ⟨c, []⟩).map (Point.behind [x]) := ends_behind hrest _
    rw [hp.ends, hp.ends, ends_append_assoc, ends_append_assoc, ends_append, ends_append, ends,
      ends, hp.opens.behind c hc]
    split
    · rw [List.flatMap_singleton, List.flatMap_singleton]
      exact hlater
    · rfl
  rw [matchAt?_eq, matchAt?_eq, hends, List.head?_map, Option.map_map, Option.map_map]
  rfl

/-- At the start of the text a match takes the space too. -/
theorem matchAt?_start (hp : p.Gapped x) (hx : isGap x = true) (t : Text) :
    p.matchAt? (.between [] (x :: t)) = (p.matchAt? (.between [] t)).map (Match.widen x) := by
  obtain ⟨test, q, hp⟩ := hp
  let g := t.takeWhile isGap
  let r := t.dropWhile isGap
  have hcut : t = g ++ r := List.takeWhile_append_dropWhile.symm
  have hg : ∀ c ∈ g, isGap c = true := fun c hc => List.all_eq_true.1 List.all_takeWhile c hc
  have hr : ∀ c ∈ r.head?, isGap c = false := by
    intro c hc
    have hhead := List.head?_dropWhile_not isGap t
    rw [hc] at hhead
    exact hhead
  -- the pattern goes on behind all the spaces and tabs
  have hends {s : Point ι} {g : Text} (hs : s.cursor = .between [] (g ++ r))
      (hg : ∀ c ∈ g, isGap c = true) : p.ends s = q.ends (s.skip g.length) := by
    have hafter : s.cursor.after = g ++ r := by rw [hs, Cursor.after_between]
    have htest : test s.cursor = true := hs ▸ hp.opens.start _
    rw [hp.ends, ends_append_assoc, ends_append, ends, if_pos htest, List.flatMap_singleton,
      ends_append]
    refine flatMap_ends_run hafter hg hr (Nat.zero_le _) fun n hn => ?_
    by_contra hne
    obtain ⟨y, rest, hy, hsolid⟩ := (hp.upfront _ hne).exists_cons
    obtain ⟨z, hz, rest', hz'⟩ := Point.exists_after_skip hafter hn
    obtain ⟨rfl, -⟩ := List.cons.inj (hy.symm.trans hz')
    rw [isBlank_of_isGap (hg y hz)] at hsolid
    cases hsolid
  let s : Point ι := ⟨.between [] t, []⟩
  let s' : Point ι := ⟨.between [] (x :: t), []⟩
  have hskip : s'.skip (x :: g).length = (s.skip g.length).behind [x] := by
    have hcursor : s'.cursor.skip (x :: g).length = (s.cursor.skip g.length).behind [x] := by
      simp only [s, s']
      rw [hcut, Cursor.skip_between, ← List.cons_append, Cursor.skip_between]
      simp
    unfold Point.skip Point.behind
    rw [hcursor]
    rfl
  have hwide : p.ends s' = (p.ends s).map (Point.behind [x]) := by
    have hxg : ∀ c ∈ x :: g, isGap c = true := by
      intro c hc
      rcases List.mem_cons.1 hc with rfl | hc
      · exact hx
      · exact hg c hc
    have hs' : s'.cursor = .between [] (x :: g ++ r) := by
      simp only [s', List.cons_append, ← hcut]
    have hs : s.cursor = .between [] (g ++ r) := by simp only [s, ← hcut]
    rw [hends hs' hxg, hends hs hg, hskip, ends_behind hp.overlooks]
  rw [matchAt?_eq, matchAt?_eq, hwide, List.head?_map, Option.map_map, Option.map_map]
  rfl

/-- With the space in front, a match at the start takes it too and the others are farther on. -/
theorem matchesIn_gap_cons (hp : p.Gapped x) (hx : isGap x = true) (t : Text) :
    p.matchesIn (x :: t) = (p.matchesIn t).map (Match.widen x) := by
  have hstart := hp.matchAt?_start hx t
  have hshut := hp.matchAt?_shut t
  have hfirst {t : Text} : p.matchesIn (x :: t) = p.matchesFrom 0 (.between [] (x :: t)) := rfl
  cases t with
  | nil =>
    rw [hp.matchAt?_nil] at hstart
    have hend : p.matchesIn [] = p.matchesFrom 0 (.between [] []) := rfl
    rw [hfirst, hend, matchesFrom_none (Cursor.after_between _ _) hstart, Cursor.next_between,
      matchesFrom_end (Cursor.after_between _ _), matchesFrom_end (Cursor.after_between _ _),
      if_pos rfl, if_pos rfl, hp.matchAt?_nil, hp.matchAt?_nil]
    rfl
  | cons y r =>
    have hlater (taken : Nat) : p.matchesFrom taken (.between [x, y] r) =
        (p.matchesFrom taken (.between [y] r)).map (Match.widen x) := by
      have hplace : Cursor.between [x, y] r = (Cursor.between [y] r).behind [x] := by
        rw [Cursor.behind_between]
        rfl
      have hnext : ∀ c : Cursor, c.before ≠ [] → c.next.before ≠ [] := by
        intro c hc
        cases h : c.after with
        | nil => rwa [Cursor.next_eq_self h]
        | cons z rest =>
          rw [(Cursor.after_next_cons h).2]
          exact List.cons_ne_nil _ _
      have hbefore : (Cursor.between [y] r).before ≠ [] := List.cons_ne_nil _ _
      rw [hplace, matchesFrom_behind_of hnext (fun c => hp.matchAt?_behind) taken hbefore]
      refine List.map_congr_left fun m hm => ?_
      have hle := le_offset_of_mem_matchesFrom hm
      rw [Cursor.offset_between, List.length_singleton] at hle
      rw [Match.widen, if_neg (by omega)]
    have hfirst' : p.matchesIn (y :: r) = p.matchesFrom 0 (.between [] (y :: r)) := rfl
    have hafter {a r : Text} {z : Char} : (Cursor.between a (z :: r)).after = z :: r := rfl
    rw [hfirst, hfirst']
    cases hm : p.matchAt? (.between [] (y :: r)) with
    | none =>
      rw [hm] at hstart
      rw [matchesFrom_none hafter hstart, matchesFrom_none hafter hm, Cursor.next_between,
        Cursor.next_between, List.nil_append, List.nil_append, matchesFrom_none hafter hshut,
        Cursor.next_between]
      exact hlater 0
    | some m =>
      rw [hm] at hstart
      have hstart' : p.matchAt? (.between [] (x :: y :: r)) = some (m.widen x) := hstart
      have hoffset : m.offset = 0 := (offset_of_matchAt? hm).trans (Cursor.offset_between _ _)
      have hlater' : p.matchesFrom m.length (.between [x] (y :: r)) =
          (p.matchesFrom (m.length - 1) (.between [y] r)).map (Match.widen x) := by
        cases m.length with
        | zero => rw [matchesFrom_none hafter hshut, Cursor.next_between]; exact hlater 0
        | succ n => rw [matchesFrom_taken hafter, Cursor.next_between]; exact hlater n
      rw [matchesFrom_some hafter hstart', matchesFrom_some hafter hm, Match.length_widen x hoffset,
        Nat.add_sub_cancel, Cursor.next_between, Cursor.next_between, List.nil_append,
        List.nil_append, List.map_cons]
      exact congrArg _ hlater'

end Gapped
/-- A match at the start of a text is the preferred one there. -/
theorem matchAt?_of_mem_matchesIn {m : Match ι} (hm : m ∈ p.matchesIn t) (h : m.offset = 0) :
    p.matchAt? (.between [] t) = some m := by
  have hm : m ∈ p.matchesFrom 0 (.between [] t) := hm
  cases t with
  | nil =>
    rw [matchesFrom_end (Cursor.after_between _ _), if_pos rfl] at hm
    exact Option.mem_toList.1 hm
  | cons y r =>
    have hlater {taken : Nat} : m ∉ p.matchesFrom taken (Cursor.between [] (y :: r)).next := by
      intro hmem
      have hle := le_offset_of_mem_matchesFrom hmem
      rw [Cursor.next_between, Cursor.offset_between, List.nil_append, List.length_singleton] at hle
      omega
    cases hfirst : p.matchAt? (.between [] (y :: r)) with
    | none =>
      rw [matchesFrom_none (Cursor.after_between _ _) hfirst] at hm
      exact absurd hm hlater
    | some m' =>
      rw [matchesFrom_some (Cursor.after_between _ _) hfirst] at hm
      rcases List.mem_cons.1 hm with rfl | hm
      · rfl
      · exact absurd hm hlater

end Pattern

/-! ## The same names -/


namespace Grammar

open Pattern

variable {g : Grammar}

/-- A space in front of a text does not matter. -/
theorem namesIn_gap_cons {code : Text} {void void' : Nat → Bool} (y : Char) (hx : isGap x = true)
    (hforms : ∀ s ∈ g.statements, s.pattern.Gapped x ∧ ReadsParts s)
    (hstart : ∀ s ∈ g.statements, (s.pattern.matchAt? (.between [] t)).isSome = true →
      void 0 = void' 0)
    (hlater : ∀ n, void (n + 1) = void' n) :
    g.namesIn void (x :: t) (y :: code) = g.namesIn void' t code := by
  have hfound : g.found (x :: t) = (g.found t).map (Prod.map id (Match.widen x)) := by
    have hall : (g.statements.flatMap fun s =>
          (s.pattern.matchesIn (x :: t)).map fun m => (s, m)) =
        (g.statements.flatMap fun s => (s.pattern.matchesIn t).map fun m => (s, m)).map
          (Prod.map id (Match.widen x)) := by
      rw [List.map_flatMap]
      refine List.flatMap_congr fun s hs => ?_
      rw [(hforms s hs).1.matchesIn_gap_cons hx, List.map_map, List.map_map]
      rfl
    unfold found
    rw [hall]
    refine (List.map_mergeSort ?_).symm
    intro a _ b _
    simp only [Prod.map_snd, Match.offset_widen, decide_eq_decide]
    split <;> split <;> omega
  have hcode (m : Match Part) : startsInCode (y :: code).toArray (m.widen x) =
      startsInCode code.toArray m := by
    unfold startsInCode
    rw [m.firstOffset_widen hx, List.getElem?_toArray, List.getElem?_toArray,
      List.getElem?_cons_succ]
  unfold namesIn
  rw [hfound, List.filter_map, List.flatMap_map]
  simp only [Function.comp_def, Prod.map_snd, Prod.map_fst, hcode, id_eq, Match.offset_widen]
  refine List.flatMap_congr fun s hs => ?_
  obtain ⟨hform, hm⟩ := mem_found.1 (List.mem_filter.1 hs).1
  have hvoid : void (if s.2.offset = 0 then 0 else s.2.offset + 1) = void' s.2.offset := by
    by_cases hzero : s.2.offset = 0
    · rw [if_pos hzero, hzero]
      apply hstart s.1 hform
      rw [matchAt?_of_mem_matchesIn hm hzero]
      rfl
    · rw [if_neg hzero]
      exact hlater _
  rw [hvoid, (hforms s.1 hform).2 _ s.2 fun i => Match.part?_widen x s.2 i]

end Grammar
end ImportScan
