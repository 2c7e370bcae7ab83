import Mathlib.Data.List.Basic
import Mathlib.Data.List.Nodup
import Mathlib.Data.List.Perm.Basic
import ImportScan.Proofs.Json.Sections

/-!
# The order of the packages of a manifest

The packages of a manifest come out section by section, the sections in their own order and not in
that of the document. In a manifest that repeats no key this is the document order of the names
(`Manifest.documentOrder`) up to the order of the sections: the same names come out, and if the
sections stand in their own order, the names stand as in the document; if no package is in two
sections, only then (`Parser.parse_json_order`).
-/

namespace ImportScan

namespace Json

/-! ## Documents without repeated keys -/

/-- No object repeats a key. -/
inductive Distinct : Json → Prop
  | null : Distinct .null
  | bool (b : Bool) : Distinct (.bool b)
  | number (spelling : Text) : Distinct (.number spelling)
  | string (s : Str) : Distinct (.string s)
  | array {items : List Json} (h : ∀ v ∈ items, Distinct v) : Distinct (.array items)
  | object {members : List (Str × Json)} (hkeys : (members.map (·.1)).Nodup)
    (h : ∀ m ∈ members, Distinct m.2) : Distinct (.object members)

theorem bind_of_notMem {key : Str} {bound : List (Str × Json)} (h : key ∉ bound.map (·.1))
    (v : Json) : bind key v bound = bound ++ [(key, v)] := by
  induction bound with
  | nil => rfl
  | cons m bound ih =>
    obtain ⟨hne, hrest⟩ : key ≠ m.1 ∧ key ∉ bound.map (·.1) := by simpa using h
    rw [bind, if_neg hne.symm, ih hrest, List.cons_append]

/-- Members with distinct keys are bound as they stand. -/
theorem bindAll_eq_append {bound members : List (Str × Json)}
    (h : ((bound ++ members).map (·.1)).Nodup) : bindAll bound members = bound ++ members := by
  induction members generalizing bound with
  | nil => rw [List.append_nil]; rfl
  | cons m members ih =>
    have hm : m.1 ∉ bound.map (·.1) := by
      rw [List.map_append, List.nodup_append] at h
      exact fun hm => h.2.2 m.1 hm m.1 (by simp) rfl
    rw [bindAll_cons, bind_of_notMem hm, ih (by simpa using h), List.append_assoc,
      List.singleton_append]

theorem settledItems_of_forall {items : List Json} (h : ∀ v ∈ items, v.settled = v) :
    settledItems items = items := by
  induction items with
  | nil => rfl
  | cons v items ih =>
    rw [settledItems, h v List.mem_cons_self, ih fun v hv => h v (List.mem_cons_of_mem _ hv)]

theorem settledMembers_of_forall {members : List (Str × Json)}
    (h : ∀ m ∈ members, m.2.settled = m.2) : settledMembers members = members := by
  rw [settledMembers_eq_map]
  have hmap : members.map (fun m => (m.1, m.2.settled)) = members.map id :=
    List.map_congr_left fun m hm => Prod.ext rfl (h m hm)
  rw [hmap, List.map_id]

/-- A value without repeated keys is settled. -/
theorem Distinct.settled_eq {v : Json} (h : v.Distinct) : v.settled = v := by
  induction h with
  | null | bool | number | string => rfl
  | array _ ih => rw [settled, settledItems_of_forall ih]
  | object hkeys _ ih =>
    rw [settled, settledMembers_of_forall ih, bindAll_eq_append (by simpa using hkeys),
      List.nil_append]

/-- A key that is not repeated has the value that stands with it. -/
theorem lookup_of_nodup {members : List (Str × Json)} (h : (members.map (·.1)).Nodup)
    {m : Str × Json} (hm : m ∈ members) : members.lookup m.1 = some m.2 := by
  obtain ⟨front, back, rfl⟩ := List.append_of_mem hm
  refine List.lookup_eq_some_iff.2 ⟨front, back, rfl, fun p hp => ?_⟩
  rw [List.map_append, List.nodup_append] at h
  exact bne_iff_ne.2 (h.2.2 p.1 (List.mem_map_of_mem hp) m.1 (by simp)).symm

end Json

/-! ## Two orders of the same sections -/

section

variable {α β : Type} (f : α → List β)

theorem flatMap_filter_ne_nil (l : List α) :
    (l.filter fun a => f a ≠ []).flatMap f = l.flatMap f := by
  induction l with
  | nil => rfl
  | cons a l ih =>
    by_cases ha : f a = []
    · rw [List.filter_cons_of_neg (by simp [ha]), ih, List.flatMap_cons, ha, List.nil_append]
    · rw [List.filter_cons_of_pos (by simp [ha]), List.flatMap_cons, ih, List.flatMap_cons]

variable {f}

/-- The pieces of a list without repetitions tell their order. -/
theorem eq_of_flatMap_eq {l l' : List α} (hl : ∀ a ∈ l, f a ≠ []) (hperm : l'.Perm l)
    (hnodup : (l.flatMap f).Nodup) (h : l'.flatMap f = l.flatMap f) : l' = l := by
  induction l generalizing l' with
  | nil => exact hperm.eq_nil
  | cons a l ih =>
    cases l' with
    | nil => exact hperm.nil_eq
    | cons b l' =>
      have hb : b = a := by
        by_contra hne
        have hbl : b ∈ l := List.mem_of_ne_of_mem hne (hperm.subset List.mem_cons_self)
        obtain ⟨x, xs, hx⟩ := List.exists_cons_of_ne_nil (hl b (List.mem_cons_of_mem _ hbl))
        obtain ⟨y, ys, hy⟩ := List.exists_cons_of_ne_nil (hl a List.mem_cons_self)
        rw [List.flatMap_cons, List.flatMap_cons, hx, hy] at h
        obtain rfl : x = y := (List.cons.inj h).1
        rw [List.flatMap_cons, List.nodup_append] at hnodup
        exact hnodup.2.2 x (hy ▸ List.mem_cons_self) x
          (List.mem_flatMap.2 ⟨b, hbl, hx ▸ List.mem_cons_self⟩) rfl
      subst hb
      rw [List.flatMap_cons, List.flatMap_cons] at h
      rw [List.flatMap_cons] at hnodup
      rw [ih (fun a ha => hl a (List.mem_cons_of_mem _ ha)) hperm.cons_inv
        (List.nodup_append.1 hnodup).2.1 (List.append_cancel_left h)]

end

namespace Manifest

/-! ## Sections in document order -/

/-- The packages of a member of the root, which has some if it is a section. -/
def sectionPackages (m : Json.Str × Json) : List Text :=
  if m.1 ∈ sections then m.2.keys.map Json.Str.toText else []

theorem mem_sections_of_packages {m : Json.Str × Json} (h : sectionPackages m ≠ []) :
    m.1 ∈ sections := by
  by_contra hkey
  exact h (if_neg hkey)

/-- The package names of all sections as they stand in the document. -/
def documentOrder : Json → List Text
  | .object members => members.flatMap sectionPackages
  | _ => []

/-- The keys of the sections that have packages as they stand in the document. -/
def sectionKeys : Json → List Json.Str
  | .object members => (members.filter fun m => sectionPackages m ≠ []).map (·.1)
  | _ => []

/-- The keys of the sections that have packages in their own order. -/
def ownOrder (document : Json) : List Json.Str :=
  sections.filter fun key => packagesUnder document key ≠ []

theorem packagesOf_eq (document : Json) :
    packagesOf document = (ownOrder document).flatMap (packagesUnder document) :=
  (flatMap_filter_ne_nil (packagesUnder document) sections).symm

theorem nodup_sections : sections.Nodup := by decide

section

variable {members : List (Json.Str × Json)} (hkeys : (members.map (·.1)).Nodup)

include hkeys

theorem packagesUnder_of_mem {m : Json.Str × Json} (hm : m ∈ members) :
    packagesUnder (.object members) m.1 = m.2.keys.map Json.Str.toText := by
  show (((members.lookup m.1).map Json.keys).getD []).map _ = _
  rw [Json.lookup_of_nodup hkeys hm]
  rfl

theorem documentOrder_eq : documentOrder (.object members) =
    (sectionKeys (.object members)).flatMap (packagesUnder (.object members)) := by
  rw [documentOrder, ← flatMap_filter_ne_nil, sectionKeys, List.flatMap_map]
  refine List.flatMap_congr fun m hm => ?_
  obtain ⟨hm, hsection⟩ := List.mem_filter.1 hm
  rw [packagesUnder_of_mem hkeys hm, sectionPackages,
    if_pos (mem_sections_of_packages (by simpa using hsection))]

/-- The same sections have packages in either order. -/
theorem sectionKeys_perm : (sectionKeys (.object members)).Perm (ownOrder (.object members)) := by
  have hnodup : (sectionKeys (.object members)).Nodup :=
    hkeys.sublist (List.filter_sublist.map _)
  refine (List.perm_ext_iff_of_nodup hnodup (nodup_sections.filter _)).2 fun key => ⟨fun h => ?_,
    fun h => ?_⟩
  · obtain ⟨m, hm, rfl⟩ := List.mem_map.1 h
    obtain ⟨hm, hsection⟩ := List.mem_filter.1 hm
    have hkey : m.1 ∈ sections := mem_sections_of_packages (by simpa using hsection)
    rw [sectionPackages, if_pos hkey] at hsection
    exact List.mem_filter.2 ⟨hkey, by rwa [packagesUnder_of_mem hkeys hm]⟩
  · obtain ⟨hkey, hpackages⟩ := List.mem_filter.1 h
    cases hlookup : members.lookup key with
    | none =>
      have hnone : packagesUnder (.object members) key = [] := by
        show (((members.lookup key).map Json.keys).getD []).map _ = []
        rw [hlookup]
        rfl
      simp [hnone] at hpackages
    | some v =>
      obtain ⟨front, back, hmembers, -⟩ := List.lookup_eq_some_iff.1 hlookup
      have hm : (key, v) ∈ members := by simp [hmembers]
      rw [packagesUnder_of_mem hkeys hm] at hpackages
      refine List.mem_map.2 ⟨(key, v), List.mem_filter.2 ⟨hm, ?_⟩, rfl⟩
      rwa [sectionPackages, if_pos hkey]

/-- Sections that stand in their own order are those of the own order. -/
theorem sectionKeys_eq (h : (sectionKeys (.object members)).Sublist sections) :
    sectionKeys (.object members) = ownOrder (.object members) :=
  (List.Nodup.perm_iff_eq_of_sublist nodup_sections h List.filter_sublist).1
    (sectionKeys_perm hkeys)

theorem packagesOf_perm :
    (packagesOf (.object members)).Perm (documentOrder (.object members)) := by
  rw [packagesOf_eq, documentOrder_eq hkeys]
  exact ((sectionKeys_perm hkeys).flatMap_right _).symm

theorem packagesOf_eq_documentOrder (h : (sectionKeys (.object members)).Sublist sections) :
    packagesOf (.object members) = documentOrder (.object members) := by
  rw [packagesOf_eq, documentOrder_eq hkeys, sectionKeys_eq hkeys h]

/-- If no package is in two sections, the order of the packages tells that of the sections. -/
theorem sublist_of_packagesOf_eq (hnodup : (documentOrder (.object members)).Nodup)
    (h : packagesOf (.object members) = documentOrder (.object members)) :
    (sectionKeys (.object members)).Sublist sections := by
  rw [← h, packagesOf_eq] at hnodup
  rw [packagesOf_eq, documentOrder_eq hkeys] at h
  have hpackages (key : Json.Str) (hkey : key ∈ ownOrder (.object members)) :
      packagesUnder (.object members) key ≠ [] := by
    simpa using (List.mem_filter.1 hkey).2
  rw [eq_of_flatMap_eq hpackages (sectionKeys_perm hkeys) hnodup h.symm]
  exact List.filter_sublist

end

end Manifest

open Manifest in
/-- The packages of a manifest without repeated keys are those that it lists, in document order only
if its sections stand in their own order, or packages are in several sections. -/
theorem Parser.parse_json_order (room : Nat) (d : Json.Document) (hread : d.IsRead room)
    (hdistinct : d.tree.Distinct) :
    (Parser.json room).parse d.text = .ok (packagesOf d.tree) ∧
      (packagesOf d.tree).Perm (documentOrder d.tree) ∧
      ((sectionKeys d.tree).Sublist sections → packagesOf d.tree = documentOrder d.tree) ∧
      ((documentOrder d.tree).Nodup → packagesOf d.tree = documentOrder d.tree →
        (sectionKeys d.tree).Sublist sections) := by
  have hparse : (Parser.json room).parse d.text = .ok (packagesOf d.tree) := by
    have hpackages := packages_text hread
    rwa [hdistinct.settled_eq] at hpackages
  refine ⟨hparse, ?_⟩
  generalize d.tree = tree at hdistinct ⊢
  cases hdistinct with
  | null | bool | number | string | array =>
    exact ⟨.refl _, fun _ => rfl, fun _ _ => List.nil_sublist _⟩
  | object hkeys _ =>
    exact ⟨packagesOf_perm hkeys, packagesOf_eq_documentOrder hkeys, sublist_of_packagesOf_eq hkeys⟩

section Witness

open Json Manifest

/-- A section with one package. -/
def onePackage (name : Letters) : Written :=
  .object (.last (.bare name) (.string [.plain '1' (by decide)]) .nothing)

/-- A manifest whose sections do not stand in their own order. -/
def swappedSections : Document where
  before := .nothing
  value := .object (.more (.bare (.plain "devDependencies".toList (by decide)))
    (onePackage [.plain 'a' (by decide)]) .nothing
    (.last dependenciesKey (onePackage [.plain 'b' (by decide)]) .nothing))
  after := .nothing

theorem distinct_onePackage (name : Letters) : (onePackage name).tree.Distinct :=
  .object (List.nodup_singleton _) (List.forall_mem_singleton.2 (.string _))

theorem Parser.parse_json_swappedSections :
    swappedSections.IsRead 400 ∧ swappedSections.tree.Distinct ∧
      (Parser.json 400).parse swappedSections.text = .ok ["b".toList, "a".toList] ∧
      documentOrder swappedSections.tree = ["a".toList, "b".toList] := by
  have hread : swappedSections.IsRead 400 := by decide
  have hdistinct : swappedSections.tree.Distinct :=
    .object (by decide) (List.forall_mem_cons.2
      ⟨distinct_onePackage _, List.forall_mem_singleton.2 (distinct_onePackage _)⟩)
  have hpackages : packagesOf swappedSections.tree = ["b".toList, "a".toList] := by decide
  have horder : documentOrder swappedSections.tree = ["a".toList, "b".toList] := by decide
  exact ⟨hread, hdistinct, hpackages ▸ (Parser.parse_json_order 400 _ hread hdistinct).1, horder⟩

end Witness

end ImportScan
