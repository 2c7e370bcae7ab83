import ImportScan.Dependency
import ImportScan.Proofs.Text.Trim
import Mathlib.Data.List.Perm.Basic

/-!
# Clean dependency lists

A dependency list is clean if no name is in it twice, and each is trimmed, not empty and not too
long. Every list that raw names become is clean (`isClean_normalize`). Which names are in it, and
that they stand in the order of the first raw names that they come from, leaves no other list
(`ListsOnce.unique`), so it is just the list of these (`normalize_exact`). Since the list of a list
is that list, raw names that are put together may each be made a list before.
-/

namespace ImportScan.Dependency

/-! ## Erasing duplicates -/

section EraseDups

variable {α : Type} [BEq α] [LawfulBEq α]

omit [LawfulBEq α] in
/-- Induction over a list, from what is left of the tail without the head. -/
theorem eraseDups_induction {motive : List α → Prop} (nil : motive [])
    (cons : ∀ a l, motive (l.filter fun b => !b == a) → motive (a :: l)) (l : List α) :
    motive l := by
  induction hn : l.length using Nat.strongRecOn generalizing l with
  | ind n ih =>
    cases l with
    | nil => exact nil
    | cons a l =>
      have hlen : (l.filter fun b => !b == a).length < n := by
        have := List.length_filter_le (fun b => !b == a) l
        simp only [List.length_cons] at hn
        omega
      exact cons a l (ih _ hlen _ rfl)

/-- What is left after erasing duplicates has none. -/
theorem nodup_eraseDups (l : List α) : l.eraseDups.Nodup := by
  induction l using eraseDups_induction with
  | nil => simp
  | cons a l ih =>
    rw [List.eraseDups_cons, List.nodup_cons]
    refine ⟨?_, ih⟩
    intro ha
    simpa using (List.mem_filter.1 (List.mem_eraseDups.1 ha)).2

/-- Erasing duplicates keeps the order of the first occurrences. -/
theorem pairwise_eraseDups (p : α → Bool) (l : List α) :
    (l.filter p).eraseDups.Pairwise fun a b => l.idxOf a < l.idxOf b := by
  induction l generalizing p with
  | nil => simp
  | cons a l ih =>
    -- what is kept of the tail and is not the head comes later by one
    have htail {p : α → Bool} (hp : p a = false) :
        (l.filter p).eraseDups.Pairwise fun b c => (a :: l).idxOf b < (a :: l).idxOf c := by
      refine (ih p).imp_of_mem fun {b c} hb hc hbc => ?_
      have hne {b : α} (hb : b ∈ (l.filter p).eraseDups) : a ≠ b := by
        rintro rfl
        have hkept := (List.mem_filter.1 (List.mem_eraseDups.1 hb)).2
        exact Bool.false_ne_true (hp.symm.trans hkept)
      rw [List.idxOf_cons_ne _ (hne hb), List.idxOf_cons_ne _ (hne hc)]
      exact Nat.succ_lt_succ hbc
    cases hp : p a with
    | false =>
      rw [List.filter_cons_of_neg (by simp [hp])]
      exact htail hp
    | true =>
      rw [List.filter_cons_of_pos hp, List.eraseDups_cons, List.filter_filter, List.pairwise_cons]
      refine ⟨?_, htail (by simp)⟩
      intro b hb
      have hne : a ≠ b := by
        rintro rfl
        simpa using (List.mem_filter.1 (List.mem_eraseDups.1 hb)).2
      rw [List.idxOf_cons_self, List.idxOf_cons_ne _ hne]
      exact Nat.succ_pos _

theorem filter_eraseDups (p : α → Bool) (l : List α) :
    l.eraseDups.filter p = (l.filter p).eraseDups := by
  induction l using eraseDups_induction with
  | nil => simp
  | cons a l ih =>
    have hcomm : (l.filter fun b => !b == a).filter p = (l.filter p).filter fun b => !b == a := by
      rw [List.filter_filter, List.filter_filter]
      exact List.filter_congr fun b _ => Bool.and_comm _ _
    rw [List.eraseDups_cons]
    cases hp : p a with
    | true =>
      rw [List.filter_cons_of_pos hp, List.filter_cons_of_pos hp, List.eraseDups_cons, ih, hcomm]
    | false =>
      have hself : (l.filter p).filter (fun b => !b == a) = l.filter p := by
        refine List.filter_eq_self.2 fun b hb => ?_
        have hne : b ≠ a := by
          rintro rfl
          exact Bool.false_ne_true (hp.symm.trans (List.mem_filter.1 hb).2)
        simpa using hne
      rw [List.filter_cons_of_neg (by simp [hp]), List.filter_cons_of_neg (by simp [hp]), ih,
        hcomm, hself]

theorem eraseDups_eq_self {l : List α} (hl : l.Nodup) : l.eraseDups = l := by
  induction l with
  | nil => rfl
  | cons a l ih =>
    obtain ⟨ha, hl⟩ := List.nodup_cons.1 hl
    have hself : l.filter (fun b => !b == a) = l := by
      refine List.filter_eq_self.2 fun b hb => ?_
      have hne : b ≠ a := by
        rintro rfl
        exact ha hb
      simpa using hne
    rw [List.eraseDups_cons, hself, ih hl]

/-- Duplicates may be erased piece by piece before. -/
theorem eraseDups_append_eraseDups (k l : List α) :
    (k.eraseDups ++ l.eraseDups).eraseDups = (k ++ l).eraseDups := by
  have hremove (l : List α) : l.removeAll k.eraseDups = l.removeAll k := by
    refine List.filter_congr fun a _ => ?_
    rw [Bool.eq_iff_iff]
    simp
  have hfilter : l.eraseDups.removeAll k = (l.removeAll k).eraseDups := filter_eraseDups _ l
  rw [List.eraseDups_append, List.eraseDups_append, eraseDups_eq_self (nodup_eraseDups k), hremove,
    hfilter, eraseDups_eq_self (nodup_eraseDups _)]

end EraseDups

/-! ## Clean lists -/

/-- No name is in the list twice, and each has 1 to `maxLength` characters and no white space at
either end. -/
structure IsClean (names : List Text) : Prop where
  nodup : names.Nodup
  nonempty : ∀ name ∈ names, 1 ≤ name.length
  bounded : ∀ name ∈ names, name.length ≤ maxLength
  trimmed : ∀ name ∈ names, name.IsTrimmed

/-- What stands in a dependency list was trimmed and kept. -/
theorem mem_normalize {names : List Text} {name : Text} :
    name ∈ normalize names ↔ isKept name = true ∧ ∃ raw ∈ names, raw.trim = name := by
  unfold normalize
  rw [List.mem_eraseDups, List.mem_filter, List.mem_map]
  exact and_comm

theorem isKept_iff {name : Text} :
    isKept name = true ↔ 1 ≤ name.length ∧ name.length ≤ maxLength := by
  cases name <;> simp [isKept]

theorem isClean_normalize (names : List Text) : IsClean (normalize names) := by
  refine ⟨nodup_eraseDups _, ?_, ?_, ?_⟩
  · intro name h
    exact (isKept_iff.1 (mem_normalize.1 h).1).1
  · intro name h
    exact (isKept_iff.1 (mem_normalize.1 h).1).2
  · intro name h
    obtain ⟨-, raw, -, rfl⟩ := mem_normalize.1 h
    exact raw.isTrimmed_trim

/-! ## The list of raw names -/

/-- The place of the first raw name that trims to `name`. -/
def firstPlace (names : List Text) (name : Text) : Nat := names.findIdx (·.trim == name)

/-- The list has each name once that some raw name trims to and that is neither empty nor too long,
in the order of the first such raw names. -/
structure ListsOnce (names list : List Text) : Prop where
  nodup : list.Nodup
  mem_iff : ∀ name, name ∈ list ↔
    (∃ raw ∈ names, raw.trim = name) ∧ 1 ≤ name.length ∧ name.length ≤ maxLength
  ordered : list.Pairwise fun a b => firstPlace names a < firstPlace names b

/-- There is one such list. -/
theorem ListsOnce.unique {names list list' : List Text} (h : ListsOnce names list)
    (h' : ListsOnce names list') : list = list' := by
  have hperm : list.Perm list' :=
    (List.perm_ext_iff_of_nodup h.nodup h'.nodup).2 fun name =>
      (h.mem_iff name).trans (h'.mem_iff name).symm
  refine hperm.eq_of_pairwise (fun a b _ _ hab hba => ?_) h.ordered h'.ordered
  exact absurd hab (Nat.lt_asymm hba)

theorem listsOnce_normalize (names : List Text) : ListsOnce names (normalize names) where
  nodup := nodup_eraseDups _
  mem_iff name := by
    rw [mem_normalize, isKept_iff]
    exact and_comm
  ordered := by
    have hplace : firstPlace names = ((names.map Text.trim).idxOf ·) := by
      funext name
      exact (List.findIdx_map names Text.trim (· == name)).symm
    rw [hplace]
    exact pairwise_eraseDups isKept (names.map Text.trim)

/-- Of names that are trimmed and kept only the duplicates go. -/
theorem normalize_of_forall {names : List Text}
    (h : ∀ name ∈ names, isKept name = true ∧ name.IsTrimmed) :
    normalize names = names.eraseDups := by
  have htrim : names.map Text.trim = names :=
    (List.map_congr_left fun name hname => Text.trim_eq_self (h name hname).2).trans
      (List.map_id names)
  unfold normalize
  rw [htrim, List.filter_eq_self.2 fun name hname => (h name hname).1]

theorem normalize_append (a b : List Text) :
    normalize (a ++ b) = normalize (normalize a ++ normalize b) := by
  have hclean {names : List Text} : ∀ name ∈ normalize names,
      isKept name = true ∧ name.IsTrimmed := fun name h =>
    ⟨(mem_normalize.1 h).1, (isClean_normalize names).trimmed name h⟩
  rw [normalize_of_forall (List.forall_mem_append.2 ⟨hclean, hclean⟩)]
  unfold normalize
  rw [eraseDups_append_eraseDups, List.map_append, List.filter_append]

/-- **The dependency list is exact**: it is the one list that has each kept name once, in the order
of the first raw names that trim to them; and of raw names put together it is the list of their two
lists put together. -/
theorem normalize_exact :
    (∀ names list, list = normalize names ↔ ListsOnce names list) ∧
      ∀ a b, normalize (a ++ b) = normalize (normalize a ++ normalize b) := by
  refine ⟨fun names list => ⟨?_, fun h => h.unique (listsOnce_normalize names)⟩, normalize_append⟩
  rintro rfl
  exact listsOnce_normalize names

end ImportScan.Dependency
