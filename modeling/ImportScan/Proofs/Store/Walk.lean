import Mathlib.Data.List.Basic
import Mathlib.Data.List.Infix
import Mathlib.Data.List.Induction
import ImportScan.Store

/-!
# Walking through a store

A path is followed from the root, one component after the other. Where it leads somewhere, the place
is told by its components alone (`walk_eq_ok`): two dots lead back to the directory that the
component before them was entered from, so the walk ends at the place that the components without
two dots name, and these lead there too. What a path with one more component leads to is told by
where the path itself leads (`find_child_of_node`, `find_child_of_no_node`), as long as the longer
path is not too long to be looked up (`Path.Fits`).
-/

namespace ImportScan

namespace Path

variable {p : Path} {parts : List Text} {x y : Text}

/-- The path is not too long to be looked up. A path with a null character is turned away whatever
its length is. -/
def Fits (p : Path) : Prop := p.hasNull = true ∨ Text.byteCount p.toText < Store.pathLimit

instance (p : Path) : Decidable p.Fits := inferInstanceAs (Decidable (_ ∨ _))

theorem hasNull_child : (p.child x).hasNull = (p.hasNull || x.contains (Char.ofNat 0)) := by
  simp [hasNull, anyNull, child]

@[simp] theorem name_child : (p.child x).name = x := by
  simp [name, child]

@[simp] theorem parent_child : (p.child x).parent = p := by
  simp [parent, child]

/-! ## Components without two dots -/

theorem folded_concat :
    folded (parts ++ [x]) = if x = up then (folded parts).dropLast else folded parts ++ [x] := by
  rw [folded, List.foldl_append]
  rfl

theorem folded_concat_name (hx : x ≠ up) : folded (parts ++ [x]) = folded parts ++ [x] := by
  rw [folded_concat, if_neg hx]

/-- What is left are components of the path, and no two dots. -/
theorem mem_folded (h : y ∈ folded parts) : y ∈ parts ∧ y ≠ up := by
  induction parts using List.reverseRecOn with
  | nil => cases h
  | append_singleton parts x ih =>
    have before (h : y ∈ folded parts) : y ∈ parts ++ [x] ∧ y ≠ up :=
      ⟨List.mem_append_left [x] (ih h).1, (ih h).2⟩
    by_cases hx : x = up
    · rw [folded_concat, if_pos hx] at h
      exact before (List.mem_of_mem_dropLast h)
    · rw [folded_concat_name hx] at h
      obtain h | h := List.mem_append.1 h
      · exact before h
      · obtain rfl := List.mem_singleton.1 h
        exact ⟨List.mem_append_right parts h, hx⟩

theorem anyNull_folded (h : anyNull parts = false) : anyNull (folded parts) = false := by
  rw [anyNull, List.any_eq_false] at h ⊢
  exact fun y hy => h y (mem_folded hy).1

end Path

namespace Store

variable {s : Store} {p : Path} {l : Location} {node : Node} {here next : Location × Node}
  {parts : List Text} {x : Text}

theorem fromRoot_child : s.fromRoot (p.child x) = s.fromRoot p ++ [x] :=
  (List.append_assoc _ p.parts [x]).symm

theorem find_eq_walk (hnull : p.hasNull = false) (hlimit : Text.byteCount p.toText < pathLimit) :
    s.find p = s.walk (s.fromRoot p) := by
  rw [find, if_neg (by simp [hnull]), if_neg (Nat.not_le.2 hlimit)]

/-- What is found is neither turned away nor too long. -/
theorem find_eq_ok_iff :
    s.find p = .ok here ↔
      p.hasNull = false ∧ Text.byteCount p.toText < pathLimit ∧
        s.walk (s.fromRoot p) = .ok here := by
  constructor
  · intro h
    by_cases hnull : p.hasNull = true
    · rw [find, if_pos hnull] at h
      cases h
    have hnull : p.hasNull = false := by simpa using hnull
    by_cases hlimit : pathLimit ≤ Text.byteCount p.toText
    · rw [find, if_neg (by simp [hnull]), if_pos hlimit] at h
      cases h
    rw [Nat.not_le] at hlimit
    exact ⟨hnull, hlimit, find_eq_walk hnull hlimit ▸ h⟩
  · rintro ⟨hnull, hlimit, h⟩
    rw [find_eq_walk hnull hlimit, h]

theorem find_of_not_fits (h : ¬p.Fits) : s.find p = .error .nameTooLong := by
  obtain ⟨hnull, hlimit⟩ := not_or.1 h
  rw [find, if_neg hnull, if_pos (Nat.not_lt.1 hlimit)]

/-- One component after those that lead somewhere. -/
theorem walk_concat (h : s.walk parts = .ok here) : s.walk (parts ++ [x]) = s.step here x := by
  rw [walk, List.foldlM_append, ← walk, h]
  exact bind_pure (s.step here x)

theorem exists_of_walk_concat (h : s.walk (parts ++ [x]) = .ok next) :
    ∃ here, s.walk parts = .ok here ∧ s.step here x = .ok next := by
  cases hparts : s.walk parts with
  | error e =>
    rw [walk, List.foldlM_append, ← walk, hparts] at h
    cases h
  | ok here => exact ⟨here, rfl, walk_concat hparts ▸ h⟩

/-! ## Names in a directory -/

/-- A component that can stand for something in a directory. -/
structure IsName (x : Text) : Prop where
  ne_up : x ≠ Path.up
  byteCount_le : Text.byteCount x ≤ maxNameBytes

/-- What a step does: up, or to what is in the store. -/
theorem step_cases (h : s.step here x = .ok next) :
    here.2 = .directory ∧
      (x = Path.up ∧ next = (here.1.dropLast, .directory) ∨
        IsName x ∧ next.1 = here.1 ++ [x] ∧ s.node? next.1 = some next.2) := by
  obtain ⟨l, _ | _⟩ := here
  · cases h
  refine ⟨rfl, ?_⟩
  simp only [step] at h
  by_cases hup : x = Path.up
  · rw [if_pos hup] at h
    cases h
    exact .inl ⟨hup, rfl⟩
  · rw [if_neg hup] at h
    by_cases hbytes : maxNameBytes < Text.byteCount x
    · rw [if_pos hbytes] at h
      cases h
    rw [if_neg hbytes] at h
    cases hnode : s.node? (l ++ [x]) with
    | none => simp [hnode] at h
    | some n =>
      simp only [hnode, Except.ok.injEq] at h
      subst h
      exact .inr ⟨⟨hup, Nat.not_lt.1 hbytes⟩, rfl, hnode⟩

/-- A step to a name leads to what is in the store under it. -/
theorem step_of_node (hx : IsName x) (h : s.node? (l ++ [x]) = some node) :
    s.step (l, .directory) x = .ok (l ++ [x], node) := by
  simp only [step, if_neg hx.ne_up, if_neg (Nat.not_lt.2 hx.byteCount_le), h]

theorem step_of_no_node (hx : IsName x) (h : s.node? (l ++ [x]) = none) :
    s.step (l, .directory) x = .error .missing := by
  simp only [step, if_neg hx.ne_up, if_neg (Nat.not_lt.2 hx.byteCount_le), h]

/-- A walk ends at the place that the components without two dots name, and these lead there. -/
theorem walk_eq_ok (h : s.walk parts = .ok (l, node)) :
    l = Path.folded parts ∧ s.walk l = .ok (l, node) := by
  induction parts using List.reverseRecOn generalizing l node with
  | nil =>
    cases h
    exact ⟨rfl, rfl⟩
  | append_singleton parts x ih =>
    obtain ⟨⟨before, kind⟩, hbefore, hstep⟩ := exists_of_walk_concat h
    obtain ⟨rfl, hself⟩ := ih hbefore
    obtain ⟨hkind, ⟨hx, hnext⟩ | ⟨hx, hnext, hnode⟩⟩ := step_cases hstep
    · obtain ⟨rfl, rfl⟩ := Prod.mk.inj hnext
      refine ⟨by rw [Path.folded_concat, if_pos hx], ?_⟩
      obtain hempty | ⟨init, y, hinit⟩ := List.eq_nil_or_concat (Path.folded parts)
      · rw [hempty]
        rfl
      · -- the last name left was entered from the directory that two dots lead back to
        rw [List.concat_eq_append] at hinit
        have hy : y ≠ Path.up := (Path.mem_folded (hinit ▸ List.mem_concat_self)).2
        rw [hinit] at hself
        obtain ⟨⟨here, kind'⟩, hhere, hlast⟩ := exists_of_walk_concat hself
        obtain ⟨hkind', ⟨hup, -⟩ | ⟨-, heq, -⟩⟩ := step_cases hlast
        · exact absurd hup hy
        · obtain rfl : init = here := List.append_inj_left' heq rfl
          obtain rfl : kind' = .directory := hkind'
          rwa [hinit, List.dropLast_concat]
    · obtain rfl : l = Path.folded parts ++ [x] := hnext
      obtain rfl : kind = .directory := hkind
      exact ⟨(Path.folded_concat_name hx.ne_up).symm,
        (walk_concat hself).trans (step_of_node hx hnode)⟩

/-! ## One more component -/

section Child

variable (hp : s.walk (s.fromRoot p) = .ok (l, .directory))
  (hnull : (p.child x).hasNull = false) (hfits : (p.child x).Fits)

include hp hnull hfits

/-- The path of a name in a directory is followed by a step from the directory. -/
theorem find_child : s.find (p.child x) = s.step (l, .directory) x := by
  have hlimit : Text.byteCount (p.child x).toText < pathLimit := by
    simpa [Path.Fits, hnull] using hfits
  rw [find_eq_walk hnull hlimit, fromRoot_child, walk_concat hp]

theorem find_child_of_node (hx : IsName x) (h : s.node? (l ++ [x]) = some node) :
    s.find (p.child x) = .ok (l ++ [x], node) := by
  rw [find_child hp hnull hfits, step_of_node hx h]

theorem find_child_of_no_node (hx : IsName x) (h : s.node? (l ++ [x]) = none) :
    s.find (p.child x) = .error .missing := by
  rw [find_child hp hnull hfits, step_of_no_node hx h]

end Child

/-! ## Resolved paths -/

/-- The path from the root to a location. -/
def pathTo (l : Location) : Path := ⟨.slash, l⟩

section Resolve

variable (h : s.find p = .ok (l, node))

include h

/-- A path with one more name is resolved to the name in the place where the path leads. -/
theorem resolve_child (hx : x ≠ Path.up) : s.resolve (p.child x) = (pathTo l).child x := by
  obtain ⟨-, -, hwalk⟩ := find_eq_ok_iff.1 h
  obtain ⟨rfl, -⟩ := walk_eq_ok hwalk
  rw [resolve, fromRoot_child, Path.folded_concat_name hx]
  rfl

/-- Its own names lead to a place that is found. -/
theorem walk_pathTo : s.walk (s.fromRoot (pathTo l)) = .ok (l, node) :=
  (walk_eq_ok (find_eq_ok_iff.1 h).2.2).2

theorem hasNull_pathTo : (pathTo l).hasNull = false := by
  obtain ⟨hnull, -, hwalk⟩ := find_eq_ok_iff.1 h
  obtain ⟨rfl, -⟩ := walk_eq_ok hwalk
  refine Path.anyNull_folded ?_
  have hstart : Path.anyNull (s.start p.root) = false := by
    cases p.root
    exacts [s.anyNull_workingDirectory, rfl, rfl]
  rw [fromRoot, Path.anyNull, List.any_append, ← Path.anyNull, hstart]
  exact hnull

end Resolve

end Store
end ImportScan
