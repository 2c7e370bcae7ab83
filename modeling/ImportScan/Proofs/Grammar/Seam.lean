import ImportScan.Proofs.Grammar.Scan
import ImportScan.Proofs.Pattern.InStep

/-!
# Imports on both sides of a seam

Where no statement leads over a seam in the text and none starts in the stretch at it, what the text
imports is what the front imports and then what the rest does (`namesIn_append`). The statements
found in front look as they do in the front alone, so they start in code in both or in neither, and
all of them start before those of the rest, so sorting keeps the two apart (`mergeSort_append`).
-/

namespace ImportScan

/-! ## Lists of what looks the same -/

section Sorting

variable {α : Type} {le : α → α → Bool} (htrans : ∀ a b c, le a b → le b c → le a c)
  (htotal : ∀ a b, le a b || le b a)

include htrans htotal in
/-- What comes strictly before the rest is sorted apart from it, wherever it stands in the list. -/
theorem mergeSort_eq_append {early : α → Bool} {l : List α}
    (h : ∀ x ∈ l, ∀ y ∈ l, early x = true → early y = false → le x y = true ∧ le y x = false) :
    l.mergeSort le = (l.filter early).mergeSort le ++ (l.filter (!early ·)).mergeSort le := by
  induction l with
  | nil => simp
  | cons y l ih =>
    have hl := ih fun x hx z hz => h x (List.mem_cons_of_mem y hx) z (List.mem_cons_of_mem y hz)
    obtain ⟨k, k', hk, hkl, hlt, hge⟩ := exists_mergeSort_cons htrans htotal y l
    have hmem {q : α → Bool} {x : α} (hx : x ∈ (l.filter q).mergeSort le) :
        x ∈ y :: l ∧ q x = true := by
      have hx := List.mem_filter.1 (List.mem_mergeSort.1 hx)
      exact ⟨List.mem_cons_of_mem y hx.1, hx.2⟩
    rw [hkl] at hl
    cases hy : early y with
    | true =>
      obtain ⟨j, j', hj, hjl, hjlt, hjge⟩ :=
        exists_mergeSort_cons htrans htotal y (l.filter early)
      rw [hjl, List.append_assoc] at hl
      obtain ⟨rfl, rfl⟩ := append_inj_of_le hl hlt hge hjlt (by
        intro x hx
        rcases List.mem_append.1 hx with hx | hx
        · exact hjge x hx
        · obtain ⟨hx, hlate⟩ := hmem hx
          exact (h y List.mem_cons_self x hx hy (by simpa using hlate)).1)
      rw [List.filter_cons_of_pos hy, List.filter_cons_of_neg (by simp [hy]), hk, hj]
      simp
    | false =>
      obtain ⟨j, j', hj, hjl, hjlt, hjge⟩ :=
        exists_mergeSort_cons htrans htotal y (l.filter (!early ·))
      rw [hjl, ← List.append_assoc] at hl
      obtain ⟨rfl, rfl⟩ := append_inj_of_le hl hlt hge (by
        intro x hx
        rcases List.mem_append.1 hx with hx | hx
        · obtain ⟨hx, hearly⟩ := hmem hx
          exact (h x hx y List.mem_cons_self hearly hy).2
        · exact hjlt x hx) hjge
      rw [List.filter_cons_of_neg (by simp [hy]), List.filter_cons_of_pos (by simp [hy]), hk, hj]
      simp

end Sorting

/-- Lists whose members look the same pairwise give the same results, if these can be told from the
look. -/
theorem flatMap_filter_congr {α β κ : Type} {look : α → κ} {q q' : α → Bool} {f f' : α → List β}
    {l l' : List α} (h : l.map look = l'.map look)
    (hq : ∀ a ∈ l, ∀ a', look a = look a' → q a = q' a')
    (hf : ∀ a ∈ l, ∀ a', look a = look a' → f a = f' a') :
    (l.filter q).flatMap f = (l'.filter q').flatMap f' := by
  induction l generalizing l' with
  | nil =>
    obtain rfl := List.map_eq_nil_iff.1 h.symm
    rfl
  | cons a l ih =>
    obtain ⟨a', l', rfl, ha, hl⟩ := List.map_eq_cons_iff.1 h.symm
    have hrest := ih hl.symm (fun b hb => hq b (List.mem_cons_of_mem a hb))
      fun b hb => hf b (List.mem_cons_of_mem a hb)
    rw [List.filter_cons, List.filter_cons, hq a List.mem_cons_self a' ha.symm]
    split
    · rw [List.flatMap_cons, List.flatMap_cons, hf a List.mem_cons_self a' ha.symm, hrest]
    · exact hrest

/-! ## What every match takes -/

namespace Pattern

variable {ι : Type} [DecidableEq ι] {P : Char → Prop} {p q : Pattern ι}

/-- Whatever the pattern takes has a character of `P`. -/
def Needs (P : Char → Prop) (p : Pattern ι) : Prop :=
  ∀ s, ∀ e ∈ p.ends s, ∃ t rest, s.cursor.after = t ++ rest ∧ (∃ x ∈ t, P x) ∧
    e.cursor = s.cursor.skip t.length

theorem Needs.mono {Q : Char → Prop} (hp : p.Needs P) (h : ∀ c, P c → Q c) : p.Needs Q := by
  intro s e he
  obtain ⟨t, rest, hs, ⟨x, hx, hPx⟩, hcursor⟩ := hp s e he
  exact ⟨t, rest, hs, ⟨x, hx, h x hPx⟩, hcursor⟩

theorem needs_text {t : Text} (ht : ∃ x ∈ t, P x) : (text t : Pattern ι).Needs P := by
  intro s e he
  obtain ⟨rest, hs, rfl⟩ := mem_ends_text.1 he
  exact ⟨t, rest, hs, ht, rfl⟩

/-- What one pattern takes and then what another takes. -/
theorem exists_of_mem_ends_append {s e : Point ι} (he : e ∈ (p ++ q).ends s) :
    ∃ m ∈ p.ends s, e ∈ q.ends m ∧ ∃ t u rest, s.cursor.after = t ++ (u ++ rest) ∧
      m.cursor.after = u ++ rest ∧ m.cursor = s.cursor.skip t.length ∧
      e.cursor = s.cursor.skip (t ++ u).length := by
  obtain ⟨m, hm, he⟩ := mem_ends_append.1 he
  obtain ⟨t, r, hs, -, hmt⟩ := isBehind_of_mem_ends (P := fun _ => True) (takes_any p) hm
  obtain ⟨u, rest, hr, -, heu⟩ := isBehind_of_mem_ends (P := fun _ => True) (takes_any q) he
  have hmr : m.cursor.after = r := by rw [hmt, Cursor.after_skip, hs, List.drop_left]
  rw [hmr] at hr
  subst hr
  refine ⟨m, hm, he, t, u, rest, hs, hmr, hmt, ?_⟩
  rw [heu, hmt, Cursor.skip_skip, List.length_append]

theorem Needs.append (hp : p.Needs P) (q : Pattern ι) : (p ++ q).Needs P := by
  intro s e he
  obtain ⟨m, hm, -, t, u, rest, hs, hmu, hmt, heu⟩ := exists_of_mem_ends_append he
  obtain ⟨t', rest', hs', ⟨x, hx, hPx⟩, hmt'⟩ := hp s m hm
  have htake : t ++ (u ++ rest) = t' ++ rest' := hs.symm.trans hs'
  have hafter : u ++ rest = rest' := by
    rw [← hmu, hmt', Cursor.after_skip, hs', List.drop_left]
  rw [hafter] at htake
  obtain rfl := List.append_cancel_right htake
  exact ⟨t ++ u, rest, by rw [hs, List.append_assoc], ⟨x, List.mem_append_left u hx, hPx⟩, heu⟩

theorem Needs.after (p : Pattern ι) (hq : q.Needs P) : (p ++ q).Needs P := by
  intro s e he
  obtain ⟨m, -, he, t, u, rest, hs, hmu, hmt, heu⟩ := exists_of_mem_ends_append he
  obtain ⟨u', rest', hm', ⟨x, hx, hPx⟩, heu'⟩ := hq m e he
  refine ⟨t ++ u', rest', ?_, ⟨x, List.mem_append_right t hx, hPx⟩, ?_⟩
  · rw [hs, ← hmu, hm', List.append_assoc]
  · rw [heu', hmt, Cursor.skip_skip, List.length_append]

theorem Needs.or (hp : p.Needs P) (hq : q.Needs P) : (p ||| q).Needs P := by
  intro s e he
  rcases mem_ends_or.1 he with he | he
  · exact hp s e he
  · exact hq s e he

theorem Needs.exists_mem_text (hp : p.Needs P) {c : Cursor} {m : Match ι}
    (hm : p.matchAt? c = some m) : ∃ x ∈ m.text, P x := by
  obtain ⟨rfl, hstop⟩ := exists_mem_ends_of_matchAt? hm
  obtain ⟨t, rest, hs, ht, hcursor⟩ := hp _ _ hstop
  have hafter := (after_eq_of_matchAt? hm).1
  dsimp only at hs hcursor
  have htext : m.text = t := by
    rw [hs, hcursor, Cursor.after_skip, hs, List.drop_left] at hafter
    exact (List.append_cancel_right hafter).symm
  rwa [htext]

theorem Needs.after_ne_nil (hp : p.Needs P) (s : Point ι) :
    ∀ e ∈ p.ends s, s.cursor.after ≠ [] := by
  intro e he
  obtain ⟨t, rest, hs, ⟨x, hx, -⟩, -⟩ := hp s e he
  rw [hs]
  exact List.append_ne_nil_of_left_ne_nil (List.ne_nil_of_mem hx) rest

theorem Needs.matchesFrom_nil (hp : p.Needs P) (a : Text) :
    p.matchesFrom 0 (.between a []) = [] := by
  rw [matchesFrom_end (Cursor.after_between a []), if_pos rfl,
    matchAt?_eq_none_iff.2 (ends_end hp.after_ne_nil a)]
  rfl

end Pattern

/-! ## Names on both sides -/

namespace Grammar

open Pattern

variable {g : Grammar}

/-- The names that a grammar reads off a text, of which `code` tells where code stands. Statements
at the offsets `void` give none. -/
def namesIn (g : Grammar) (void : Nat → Bool) (shown code : Text) : List Text :=
  ((g.found shown).filter fun s => startsInCode code.toArray s.2).flatMap fun s =>
    if void s.2.offset then [] else s.1.names s.2

/-- Grammars whose forms match alike in a text and read the same names off a match read the same
names off the text. -/
theorem namesIn_congr {g' : Grammar} {void : Nat → Bool} {shown code : Text}
    (h : (g.statements.map fun s => (s.names, s.pattern.matchesIn shown)) =
      g'.statements.map fun s => (s.names, s.pattern.matchesIn shown)) :
    g.namesIn void shown code = g'.namesIn void shown code := by
  let look (s : Statement × Match Part) := (s.1.names, s.2)
  have hfound (g : Grammar) : (g.found shown).map look =
      ((g.statements.map fun s => (s.names, s.pattern.matchesIn shown)).flatMap fun s =>
        s.2.map fun m => (s.1, m)).mergeSort fun a b => a.2.offset ≤ b.2.offset := by
    have hsort := List.map_mergeSort (f := look) (r := fun a b => a.2.offset ≤ b.2.offset)
      (s := fun a b => a.2.offset ≤ b.2.offset) (l := g.statements.flatMap fun s =>
        (s.pattern.matchesIn shown).map fun m => (s, m)) fun _ _ _ _ => rfl
    rw [List.flatMap_map, found, hsort, List.map_flatMap]
    simp only [List.map_map]
    rfl
  have hlook : (g.found shown).map look = (g'.found shown).map look := by rw [hfound, hfound, h]
  refine flatMap_filter_congr hlook (fun s _ s' hs => ?_) fun s _ s' hs => ?_
  · obtain ⟨-, hm⟩ := Prod.mk.inj hs
    rw [hm]
  · obtain ⟨hnames, hm⟩ := Prod.mk.inj hs
    rw [hm, hnames]

/-- A grammar reads the names off what cleaning leaves. -/
theorem imports_eq_namesIn (g : Grammar) (t : Text) :
    g.imports t = g.namesIn (g.scopes (g.lexis.cleaned g.strings t)).inside
      (g.lexis.cleaned g.strings t) (g.lexis.cleaned .blanked t) := imports_eq g t

/-- The names can be told from the parts of the match. -/
def ReadsParts (s : Statement) : Prop :=
  ∀ m m' : Match Part, (∀ i, m.part? i = m'.part? i) → s.names m = s.names m'

theorem part?_eq_of_look {m m' : Match Part} (h : m.look = m'.look) (i : Part) :
    m.part? i = m'.part? i := by
  have htexts : m.stop.texts = m'.stop.texts := congrArg (·.2.2) h
  unfold Match.part?
  rw [Point.part?_eq_lookup, Point.part?_eq_lookup, htexts]

theorem firstOffset_eq_of_look {m m' : Match Part} (h : m.look = m'.look) :
    m.firstOffset = m'.firstOffset := by
  have hoffset : m.offset = m'.offset := congrArg (·.1) h
  have htext : m.text = m'.text := congrArg (·.2.1) h
  unfold Match.firstOffset
  rw [hoffset, htext]

/-- A form of statement is found in front of a seam as in the front alone, and behind the seam as in
the rest alone. -/
structure Splits (s : Statement) (front seam rest : Text) : Prop where
  found : ∃ ms, s.pattern.matchesIn (front ++ (seam ++ rest)) =
      ms ++ (s.pattern.matchesIn rest).map (Match.behind (front ++ seam)) ∧
    ms.map Match.look = (s.pattern.matchesIn front).map Match.look ∧
    ∀ m ∈ ms, m.firstOffset < front.length
  names : ReadsParts s

/-- A form that no character leads over the seam, with tests that do not see what is beyond it. -/
theorem splits_of_carries {s : Statement} {live : Text → Prop} {front seam rest : Text}
    (hcarries : s.pattern.Carries (Alongside live (seam ++ rest))
      (Alongside (fun _ => True) (seam ++ rest)))
    (hlive : ∀ w, w <:+ front → w ≠ [] → live w)
    (hneeds : s.pattern.Needs fun c => Text.isBlank c = false)
    (hseam : s.pattern.NoneIn front seam rest) (hoverlooks : s.pattern.Overlooks (front ++ seam))
    (hnames : ReadsParts s) : Splits s front seam rest where
  found := by
    obtain ⟨ms, ms', hms, hms', hlook, hlen⟩ :=
      matchesFrom_alongside hcarries (a := []) hlive (Nat.zero_le _)
    rw [hneeds.matchesFrom_nil, List.append_nil] at hms'
    have hrest : s.pattern.matchesFrom 0 (.between ([] ++ front) (seam ++ rest)) =
        (s.pattern.matchesIn rest).map (Match.behind (front ++ seam)) := by
      have hplace : Cursor.between (front ++ seam) rest =
          (Cursor.between [] rest).behind (front ++ seam) := by
        rw [Cursor.behind_between, List.append_nil]
      rw [List.nil_append, matchesFrom_skip hseam, hplace, matchesFrom_behind hoverlooks]
      rfl
    rw [hrest] at hms
    refine ⟨ms, hms, hlook.trans (congrArg _ hms'.symm), fun m hm => ?_⟩
    obtain ⟨c, hc, -⟩ := exists_matchAt?_of_mem_matchesFrom (hms ▸ List.mem_append_left _ hm)
    obtain ⟨x, hx, hsolid⟩ := hneeds.exists_mem_text hc
    have hbound := hlen m hm
    have hlt : (m.text.takeWhile Text.isBlank).length < m.text.length := by
      refine Nat.lt_of_le_of_ne (List.takeWhile_prefix _).length_le fun heq => ?_
      have hall := List.takeWhile_eq_self_iff.1 ((List.takeWhile_prefix _).eq_of_length heq)
      rw [hall x hx] at hsolid
      cases hsolid
    rw [List.length_nil, Nat.zero_add] at hbound
    rw [Match.firstOffset]
    omega
  names := hnames

variable {front seam rest : Text}

/-- Statements and matches in the order of their starts. -/
def inOrder (l : List (Statement × Match Part)) : List (Statement × Match Part) :=
  l.mergeSort fun a b => a.2.offset ≤ b.2.offset

/-- The matches that each form gives. -/
def hits (forms : List Statement) (f : Statement → List (Match Part)) :
    List (Statement × Match Part) := forms.flatMap fun s => (f s).map fun m => (s, m)

theorem filter_hits (q : Match Part → Bool) (forms : List Statement)
    (f : Statement → List (Match Part)) :
    (hits forms f).filter (q ·.2) = hits forms fun s => (f s).filter q := by
  unfold hits
  rw [List.filter_flatMap]
  simp only [List.filter_map]
  rfl

theorem map_hits {κ : Type} (k : Match Part → κ) (forms : List Statement)
    (f : Statement → List (Match Part)) :
    (hits forms f).map (Prod.map id k) = forms.flatMap fun s => ((f s).map k).map (s, ·) := by
  unfold hits
  rw [List.map_flatMap]
  simp only [List.map_map]
  rfl

theorem inOrder_behind (a : Text) (l : List (Statement × Match Part)) :
    inOrder (l.map (Prod.map id (Match.behind a))) =
      (inOrder l).map (Prod.map id (Match.behind a)) := by
  refine (List.map_mergeSort ?_).symm
  intro x _ y _
  simp

theorem map_look_inOrder (l : List (Statement × Match Part)) :
    (inOrder l).map (Prod.map id Match.look) =
      (l.map (Prod.map id Match.look)).mergeSort fun a b => a.2.1 ≤ b.2.1 := by
  refine List.map_mergeSort ?_
  intro x _ y _
  rfl

/-- What is found in a text with a seam: what is found in the front, and then what is found in the
rest. -/
theorem found_append (h : ∀ s ∈ g.statements, Splits s front seam rest) :
    ∃ l, g.found (front ++ (seam ++ rest)) =
        l ++ (g.found rest).map (Prod.map id (Match.behind (front ++ seam))) ∧
      l.map (Prod.map id Match.look) = (g.found front).map (Prod.map id Match.look) ∧
      ∀ s ∈ l, s.1 ∈ g.statements ∧ s.2.firstOffset < front.length := by
  let all (s : Statement) := s.pattern.matchesIn (front ++ (seam ++ rest))
  let early (m : Match Part) : Bool := m.offset < front.length
  -- by their starts the matches of a form in the front and in the rest are told apart
  have hparts : ∀ s ∈ g.statements,
      ((all s).filter early).map Match.look = (s.pattern.matchesIn front).map Match.look ∧
      (all s).filter (!early ·) =
        (s.pattern.matchesIn rest).map (Match.behind (front ++ seam)) ∧
      ∀ m ∈ (all s).filter early, m.firstOffset < front.length := by
    intro s hs
    obtain ⟨ms, hall, hlook, hms⟩ := (h s hs).found
    have hearly : ∀ m ∈ ms, early m = true := fun m hm =>
      decide_eq_true (Nat.lt_of_le_of_lt (Nat.le_add_right _ _) (hms m hm))
    have hlate : ∀ m ∈ (s.pattern.matchesIn rest).map (Match.behind (front ++ seam)),
        early m = false := by
      intro m hm
      obtain ⟨m, -, rfl⟩ := List.mem_map.1 hm
      refine decide_eq_false fun hlt => ?_
      rw [Match.offset_behind, List.length_append] at hlt
      omega
    have hkeep : (all s).filter early = ms := by
      show List.filter _ (s.pattern.matchesIn _) = _
      rw [hall, List.filter_append, List.filter_eq_self.2 hearly,
        List.filter_eq_nil_iff.2 fun m hm => by simp [hlate m hm], List.append_nil]
    have hleave : (all s).filter (!early ·) =
        (s.pattern.matchesIn rest).map (Match.behind (front ++ seam)) := by
      show List.filter _ (s.pattern.matchesIn _) = _
      rw [hall, List.filter_append, List.filter_eq_nil_iff.2 fun m hm => by simp [hearly m hm],
        List.filter_eq_self.2 fun m hm => by simp [hlate m hm], List.nil_append]
    exact ⟨hkeep ▸ hlook, hleave, hkeep ▸ hms⟩
  have hsort : g.found (front ++ (seam ++ rest)) =
      inOrder (hits g.statements fun s => (all s).filter early) ++
        inOrder (hits g.statements fun s => (all s).filter (!early ·)) := by
    rw [← filter_hits, ← filter_hits]
    apply mergeSort_eq_append
    · intro x y z hxy hyz
      simp only [decide_eq_true_eq] at hxy hyz ⊢
      omega
    · intro x y
      simp only [Bool.or_eq_true, decide_eq_true_eq]
      omega
    · intro x _ y _ hx hy
      simp only [early, decide_eq_true_eq, decide_eq_false_iff_not] at hx hy ⊢
      omega
  refine ⟨_, hsort.trans (congrArg _ ?_), ?_, ?_⟩
  · have hrest : (hits g.statements fun s => (all s).filter (!early ·)) =
        (hits g.statements fun s => s.pattern.matchesIn rest).map
          (Prod.map id (Match.behind (front ++ seam))) := by
      rw [map_hits]
      exact List.flatMap_congr fun s hs => congrArg _ (hparts s hs).2.1
    rw [hrest, inOrder_behind]
    rfl
  · have hfront : g.found front = inOrder (hits g.statements fun s => s.pattern.matchesIn front) :=
      rfl
    rw [hfront, map_look_inOrder, map_look_inOrder, map_hits, map_hits]
    congr 1
    exact List.flatMap_congr fun s hs => congrArg _ (hparts s hs).1
  · intro s hs
    obtain ⟨form, hform, hmem⟩ := List.mem_flatMap.1 (List.mem_mergeSort.1 hs)
    obtain ⟨m, hm, rfl⟩ := List.mem_map.1 hmem
    exact ⟨hform, (hparts form hform).2.2 m hm⟩

/-- A text with a seam imports what its front does and then what its rest does. -/
theorem namesIn_append {codeFront codeSeam codeRest : Text} {void voidFront voidRest : Nat → Bool}
    (hfront : codeFront.length = front.length) (hseam : codeSeam.length = seam.length)
    (hvoid : ∀ n < front.length, void n = voidFront n)
    (hvoid' : ∀ n, void ((front ++ seam).length + n) = voidRest n)
    (h : ∀ s ∈ g.statements, Splits s front seam rest) :
    g.namesIn void (front ++ (seam ++ rest)) (codeFront ++ (codeSeam ++ codeRest)) =
      g.namesIn voidFront front codeFront ++ g.namesIn voidRest rest codeRest := by
  obtain ⟨l, hfound, hlook, hl⟩ := found_append h
  unfold namesIn
  rw [hfound, List.filter_append, List.flatMap_append]
  congr 1
  · refine flatMap_filter_congr hlook (fun s hs s' hss => ?_) fun s hs s' hss => ?_
    · have hsame : s.2.look = s'.2.look := congrArg (·.2) hss
      have hlt := (hl s hs).2
      unfold startsInCode
      rw [← firstOffset_eq_of_look hsame, List.getElem?_toArray, List.getElem?_toArray,
        List.getElem?_append_left (hfront ▸ hlt)]
    · have hform : s.1 = s'.1 := congrArg (·.1) hss
      have hsame : s.2.look = s'.2.look := congrArg (·.2) hss
      have hoffset : s.2.offset = s'.2.offset := congrArg (·.1) hsame
      have hlt : s.2.offset < front.length :=
        Nat.lt_of_le_of_lt (Nat.le_add_right _ _) (hl s hs).2
      rw [hvoid _ hlt, hoffset, ← hform,
        (h s.1 (hl s hs).1).names _ _ (part?_eq_of_look hsame)]
  · have hcode (m : Match Part) :
        startsInCode (codeFront ++ (codeSeam ++ codeRest)).toArray (m.behind (front ++ seam)) =
          startsInCode codeRest.toArray m := by
      rw [← List.append_assoc]
      exact startsInCode_behind (by simp [hfront, hseam]) m
    rw [List.filter_map, List.flatMap_map]
    simp only [Function.comp_def, Prod.map_snd, Prod.map_fst, hcode, id_eq, Match.offset_behind,
      hvoid']
    refine List.flatMap_congr fun s hs => ?_
    have hmem := (mem_found.1 (List.mem_filter.1 hs).1).1
    rw [(h s.1 hmem).names _ s.2 fun i => Match.part?_behind _ _ i]

/-- Where cleaning leaves a seam, a text without scopes imports what its front does and then what
its rest does. -/
theorem imports_append (hscopes : ∀ t, g.scopes t = []) {a b : Text}
    (hclean : ∀ contents, g.lexis.cleaned contents (a ++ (seam ++ b)) =
      g.lexis.cleaned contents a ++ (seam ++ g.lexis.cleaned contents b))
    (h : ∀ s ∈ g.statements,
      Splits s (g.lexis.cleaned g.strings a) seam (g.lexis.cleaned g.strings b)) :
    g.imports (a ++ (seam ++ b)) = g.imports a ++ g.imports b := by
  have hlength : (g.lexis.cleaned .blanked a).length = (g.lexis.cleaned g.strings a).length := by
    rw [Lexis.length_cleaned, Lexis.length_cleaned]
  rw [imports_eq_namesIn, imports_eq_namesIn, imports_eq_namesIn, hscopes, hscopes, hscopes,
    hclean, hclean]
  exact namesIn_append hlength rfl (fun _ _ => rfl) (fun _ => rfl) h

end Grammar
end ImportScan
