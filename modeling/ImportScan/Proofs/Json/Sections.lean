import ImportScan.Language
import ImportScan.Proofs.Json.Reading

/-!
# The packages of a written manifest

A manifest declares packages in its sections (`Manifest.declared`): the keys of the object that a
section key is bound to last, each key once. However the manifest is written, these are the names
that come out (`Parser.parse_json_text`). Keys may be repeated at the root as well as within a
section, and may be spelled with escapes.
-/

namespace ImportScan

namespace Manifest

/-- The packages that a document declares: section by section, the distinct keys of the object that
the section key is bound to last, in the order in which they come first. -/
def declared : Json → List Text
  | .object members => sections.flatMap fun key => match members.reverse.lookup key with
    | some (.object packages) => (packages.map (·.1)).eraseDups.map Json.Str.toText
    | _ => []
  | _ => []

/-- The value that is bound last, settled. -/
theorem get?_settled (key : Json.Str) (members : List (Json.Str × Json)) :
    (Json.object members).settled.get? key = (members.reverse.lookup key).map Json.settled := by
  have hmap (ms : List (Json.Str × Json)) :
      (ms.map fun m => (m.1, m.2.settled)).lookup key = (ms.lookup key).map Json.settled := by
    induction ms with
    | nil => rfl
    | cons m ms ih =>
      rw [List.map_cons, List.lookup_cons, List.lookup_cons, ih]
      cases key == m.1 <;> rfl
  show (Json.bindAll [] (Json.settledMembers members)).lookup key = _
  rw [Json.lookup_bindAll, Json.settledMembers_eq_map, ← List.map_reverse, hmap, List.lookup_nil,
    Option.or_none]

/-- The keys of a settled object are the distinct ones. -/
theorem keys_settled (members : List (Json.Str × Json)) :
    (Json.object members).settled.keys = (members.map (·.1)).eraseDups := by
  have hkeys : (members.map fun m => (m.1, m.2.settled)).map (·.1) = members.map (·.1) := by
    rw [List.map_map]
    rfl
  show (Json.bindAll [] (Json.settledMembers members)).map (·.1) = _
  rw [Json.keys_bindAll, Json.settledMembers_eq_map, hkeys, List.map_nil, List.removeAll_nil,
    List.nil_append]

theorem packagesOf_settled (document : Json) :
    packagesOf document.settled = declared document := by
  cases document with
  | null | bool | number | string | array => rfl
  | object members =>
    refine congrArg (sections.flatMap ·) (funext fun key => ?_)
    rw [packagesUnder, get?_settled, Option.map_map]
    cases members.reverse.lookup key with
    | none => rfl
    | some v =>
      cases v with
      | null | bool | number | string | array => rfl
      | object packages => exact congrArg (List.map Json.Str.toText) (keys_settled packages)

theorem packages_text {room : Nat} {d : Json.Document} (hread : d.IsRead room) :
    packages room d.text = .ok (packagesOf d.tree.settled) := by
  rw [packages, d.read_text, (d.fault?_eq_none_iff room).2 hread]
  rfl

end Manifest

/-- The packages of a manifest within the limits of reading are those that it declares, however it
is written; a document that is no object declares none. -/
theorem Parser.parse_json_text (room : Nat) (d : Json.Document) (hread : d.IsRead room) :
    (Parser.json room).parse d.text = .ok (Manifest.declared d.tree) ∧
      ((∀ members, d.tree ≠ .object members) → (Parser.json room).parse d.text = .ok []) := by
  have hparse : (Parser.json room).parse d.text = .ok (Manifest.declared d.tree) := by
    rw [← Manifest.packagesOf_settled]
    exact Manifest.packages_text hread
  refine ⟨hparse, fun hroot => ?_⟩
  rw [hparse]
  cases htree : d.tree with
  | null | bool | number | string | array => rfl
  | object members => exact absurd htree (hroot members)

section Witness

open Json

/-- The key of a section. -/
def dependenciesKey : Key := .bare (.plain "dependencies".toList (by decide))

/-- A manifest that binds a section key and a package name twice, the second time with an escape,
and that has a name beyond the first plane. -/
def repeatedKeys : Document where
  before := ⟨['\n'], by decide⟩
  value := .object (.more dependenciesKey (.emptyArray .nothing) .nothing
    (.last (Key.bare
        (.unit (.small 0 0 6 4) (by decide) :: Letters.plain "ependencies".toList (by decide)))
      (.object (.more (Key.bare (.plain "b".toList (by decide))) .null .nothing
        (.more (Key.bare [.pair { UnitDigits.small 13 8 3 13 with first := .ofNat 13 true }
            { UnitDigits.small 13 14 0 0 with first := .ofNat 13 true } (by decide) (by decide)])
          (.bool true) ⟨[' '], by decide⟩
          (.last (Key.bare [.unit (.small 0 0 6 2) (by decide)])
            (.number ⟨true, ⟨['0'], by decide⟩, fun _ => rfl, some ⟨['5'], by decide⟩, none⟩)
            .nothing))))
      ⟨['\t'], by decide⟩))
  after := .nothing

theorem Parser.parse_json_repeatedKeys :
    repeatedKeys.IsRead 400 ∧
      repeatedKeys.text = ("\n\x7b\"dependencies\":[],\"\\u0064ependencies\":\x7b\"b\":null," ++
        "\"\\uD83d\\uDe00\":true ,\"\\u0062\":-0.5\x7d\t\x7d").toList ∧
      (Parser.json 400).parse repeatedKeys.text = .ok ["b".toList, "😀".toList] := by
  have hread : repeatedKeys.IsRead 400 := by decide
  have hdeclared : Manifest.declared repeatedKeys.tree = ["b".toList, "😀".toList] := by decide
  exact ⟨hread, rfl, hdeclared ▸ (Parser.parse_json_text 400 repeatedKeys hread).1⟩

end Witness

end ImportScan
