import ImportScan.Proofs.Pattern.Matches

/-!
# What the parts of a match hold

A part holds what the pattern marked as that part has taken. So if every pattern that is marked as
the part `i` takes only texts with a property (`Pattern.Marks`), then so does the part of every
match (`holds_of_mem_matchesIn`), whatever stands around it and however often it was marked.
-/

namespace ImportScan

variable {ι : Type} [DecidableEq ι] {i : ι} {L M : Text → Prop}

/-- The part `i`, if it was matched, has the property. -/
def Point.Holds (i : ι) (L : Text → Prop) (s : Point ι) : Prop := ∀ t ∈ s.part? i, L t

namespace Pattern

variable {p q : Pattern ι} {s e : Point ι}

/-! ## What a pattern takes -/

/-- Every end of the pattern lies behind a text with the property. -/
def TakesOnly (p : Pattern ι) (L : Text → Prop) : Prop :=
  ∀ s, ∀ e ∈ p.ends s, ∃ t rest, s.cursor.after = t ++ rest ∧ L t ∧
    e.cursor = s.cursor.skip t.length

theorem takesOnly_of_takes {P : Char → Prop} (hp : p.Takes P) :
    p.TakesOnly fun t => ∀ c ∈ t, P c := by
  intro s e he
  exact isBehind_of_mem_ends hp he

theorem TakesJust.takesOnly (hp : p.TakesJust L) : p.TakesOnly L := by
  intro s e he
  obtain ⟨t, rest, hs, ht, rfl⟩ := (hp s e).1 he
  exact ⟨t, rest, hs, ht, rfl⟩

theorem takesOnly_one (P : Char → Bool) :
    (Pattern.one P : Pattern ι).TakesOnly fun t => ∃ x, t = [x] ∧ P x = true :=
  (takesJust_one P).takesOnly

theorem TakesOnly.append (hp : p.TakesOnly L) (hq : q.TakesOnly M) :
    (p ++ q).TakesOnly fun t => ∃ a b, t = a ++ b ∧ L a ∧ M b := by
  intro s e he
  obtain ⟨m, hm, he⟩ := mem_ends_append.1 he
  obtain ⟨a, rest, hs, ha, hmc⟩ := hp s m hm
  obtain ⟨b, rest', hm', hb, hec⟩ := hq m e he
  rw [hmc, Cursor.after_skip, hs, List.drop_left] at hm'
  subst hm'
  refine ⟨a ++ b, rest', ?_, ⟨a, b, rfl, ha, hb⟩, ?_⟩
  · rw [hs, List.append_assoc]
  · rw [hec, hmc, Cursor.skip_skip, List.length_append]

theorem TakesOnly.part (hp : p.TakesOnly L) (i : ι) : (Pattern.part i p).TakesOnly L := by
  intro s e he
  obtain ⟨m, hm, rfl⟩ := mem_ends_part.1 he
  exact hp s m hm

/-! ## What a pattern marks -/

/-- Whatever the pattern marks as the part `i` has the property. -/
def Marks (i : ι) (L : Text → Prop) : Pattern ι → Prop
  | .empty | .one _ | .run _ _ _ _ | .here _ | .again _ _ => True
  | .seq p q | .alt p q | .given _ p q => p.Marks i L ∧ q.Marks i L
  | .many _ p _ _ | .ahead _ p | .behind _ _ p | .once p => p.Marks i L
  | .part j p => p.Marks i L ∧ (j = i → p.TakesOnly L)

theorem marks_text (t : Text) : (text t : Pattern ι).Marks i L := by
  fun_induction text t with
  | case1 => trivial
  | case2 => trivial
  | case3 c t _ ih => exact ⟨trivial, ih⟩

omit [DecidableEq ι] in
theorem anyCase_induction {P : Pattern ι → Prop} (nil : P .empty)
    (cons : ∀ f q, P q → P (.one f ++ q)) (t : Text) : P (anyCase t) := by
  induction t with
  | nil => exact nil
  | cons c t ih => exact cons _ _ ih

theorem marks_anyCase (t : Text) : (anyCase t : Pattern ι).Marks i L := by
  apply anyCase_induction
  · trivial
  · intro f q hq
    exact ⟨trivial, hq⟩

/-- A part that is marked holds what was taken. -/
theorem holds_mark {j : ι} (hp : j = i → p.TakesOnly L) (he : e ∈ p.ends s) (h : e.Holds i L) :
    (e.mark j s.cursor).Holds i L := by
  by_cases hj : j = i
  · subst hj
    obtain ⟨t, rest, hs, ht, hc⟩ := hp rfl s e he
    intro u hu
    rw [Point.part?_mark hs hc] at hu
    exact Option.some.inj hu ▸ ht
  · intro u hu
    rw [Point.part?_mark_of_ne (Ne.symm hj)] at hu
    exact h u hu

/-- Looking ahead or behind keeps the parts that were found there. -/
theorem holds_of_look {wanted : Bool} {found : Option (Point ι)} (hs : s.Holds i L)
    (hfound : ∀ m ∈ found, m.Holds i L)
    (h : e ∈ match found with
      | some m => if wanted then [m.at s.cursor] else []
      | none => if wanted then [] else [s]) : e.Holds i L := by
  cases found with
  | none =>
    cases wanted
    · exact List.mem_singleton.1 h ▸ hs
    · cases h
  | some m =>
    cases wanted
    · cases h
    · obtain rfl := List.mem_singleton.1 h
      exact hfound m rfl

/-- The parts of an end have the property if those in front have it. -/
theorem holds_of_mem_ends (hp : p.Marks i L) (hs : s.Holds i L) (he : e ∈ p.ends s) :
    e.Holds i L := by
  induction p generalizing s e with
  | empty => exact List.mem_singleton.1 he ▸ hs
  | one p =>
    obtain ⟨x, rest, -, -, rfl⟩ := mem_ends_one.1 he
    exact hs
  | run greedy p least most =>
    obtain ⟨n, -, rfl⟩ := mem_ends_run_iff_reach.1 he
    exact hs
  | here test => exact (mem_ends_here.1 he).2 ▸ hs
  | seq p q ihp ihq =>
    obtain ⟨m, hm, he⟩ := List.mem_flatMap.1 he
    exact ihq hp.2 (ihp hp.1 hs hm) he
  | alt p q ihp ihq =>
    rcases List.mem_append.1 he with he | he
    · exact ihp hp.1 hs he
    · exact ihq hp.2 hs he
  | many greedy p least most ih =>
    exact of_mem_endsOfMany (fun s hs e he => ih hp hs he) hs he
  | part j p ih =>
    obtain ⟨m, hm, rfl⟩ := mem_ends_part.1 he
    exact holds_mark hp.2 hm (ih hp.1 hs hm)
  | again j eq =>
    rw [ends] at he
    split at he
    · cases he
    · obtain ⟨c, -, rfl⟩ := Option.map_eq_some_iff.1 (Option.mem_toList.1 he)
      exact hs
  | ahead wanted p ih =>
    rw [ends] at he
    refine holds_of_look hs (fun m hm => ?_) he
    exact ih hp hs (List.mem_of_head? hm)
  | behind wanted width p ih =>
    rw [ends] at he
    refine holds_of_look hs (fun m hm => ?_) he
    obtain ⟨c, -, hm⟩ := Option.bind_eq_some_iff.1 hm
    exact ih (s := s.at c) hp hs (List.mem_of_head? hm)
  | once p ih => exact ih hp hs (List.mem_of_head? (Option.mem_toList.1 he))
  | given j p q ihp ihq =>
    rw [ends] at he
    split at he
    · exact ihp hp.1 hs he
    · exact ihq hp.2 hs he

/-! ## Matches in a text -/

theorem stop_mem_ends_of_mem_matchesFrom {taken : Nat} {c : Cursor} {m : Match ι}
    (h : m ∈ p.matchesFrom taken c) : m.stop ∈ p.ends ⟨m.start, []⟩ := by
  obtain ⟨d, hd, -⟩ := exists_matchAt?_of_mem_matchesFrom h
  obtain ⟨rfl, hstop⟩ := exists_mem_ends_of_matchAt? hd
  exact hstop

/-- A part of a match in a text has the property. -/
theorem holds_of_mem_matchesIn {t : Text} {m : Match ι} (hp : p.Marks i L)
    (hm : m ∈ p.matchesIn t) : ∀ u ∈ m.part? i, L u := by
  have hnone : (⟨m.start, []⟩ : Point ι).Holds i L := by
    intro u hu
    cases hu
  exact holds_of_mem_ends hp hnone (stop_mem_ends_of_mem_matchesFrom hm)

/-- A match that ends with a part has it. -/
theorem exists_part?_of_mem_matchesIn {t : Text} {m : Match ι} (hq : q.TakesOnly L)
    (hm : m ∈ (p ++ .part i q).matchesIn t) : ∃ u, m.part? i = some u ∧ L u := by
  obtain ⟨s, -, hend⟩ := mem_ends_append.1 (stop_mem_ends_of_mem_matchesFrom hm)
  obtain ⟨e, he, hmark⟩ := mem_ends_part.1 hend
  obtain ⟨u, rest, hs, hu, hc⟩ := hq s e he
  refine ⟨u, ?_, hu⟩
  unfold Match.part?
  rw [hmark]
  exact Point.part?_mark hs hc i

end Pattern
end ImportScan
