import ImportScan.Json.Basic

/-!
# Repeated keys

A JSON object as it stands in a document may bind a key more than once. Reading binds the members of
an object one after the other (`bindAll`), so the value that is read, `settled`, has every key once:
in the place where it came first (`keys_bindAll`), and with the value that it was given last
(`lookup_bindAll`).
-/

namespace ImportScan.Json

/-- Members bound in turn, behind those already bound. -/
def bindAll (bound members : List (Str × Json)) : List (Str × Json) :=
  members.foldl (fun bound m => bind m.1 m.2 bound) bound

theorem bindAll_cons (bound members : List (Str × Json)) (m : Str × Json) :
    bindAll bound (m :: members) = bindAll (bind m.1 m.2 bound) members := rfl

/-! ## What is bound -/

/-- A key has the value that it was given last. -/
theorem lookup_bindAll (key : Str) (bound members : List (Str × Json)) :
    (bindAll bound members).lookup key = (members.reverse.lookup key).or (bound.lookup key) := by
  induction members generalizing bound with
  | nil => rfl
  | cons m members ih =>
    obtain ⟨k, v⟩ := m
    rw [bindAll_cons, ih, lookup_bind, List.reverse_cons, List.lookup_append]
    by_cases hk : key = k
    · subst hk
      simp
    · have hother : List.lookup key [(k, v)] = none := by
        rw [List.lookup_cons, beq_eq_false_iff_ne.2 hk]
        rfl
      rw [if_neg hk, hother, Option.or_none]

/-- The keys stand in the order in which they came first. -/
theorem keys_bindAll (bound members : List (Str × Json)) :
    (bindAll bound members).map (·.1) =
      bound.map (·.1) ++ ((members.map (·.1)).removeAll (bound.map (·.1))).eraseDups := by
  induction members generalizing bound with
  | nil => simp [bindAll, List.removeAll]
  | cons m members ih =>
    obtain ⟨key, v⟩ := m
    rw [bindAll_cons, ih, keys_bind, List.map_cons, List.cons_removeAll]
    by_cases hkey : key ∈ bound.map (·.1)
    · rw [if_pos hkey, if_neg (by simpa using hkey)]
    · have hothers : (members.map (·.1)).removeAll (bound.map (·.1) ++ [key]) =
          ((members.map (·.1)).removeAll (bound.map (·.1))).filter fun k => !k == key := by
        unfold List.removeAll
        rw [List.filter_filter]
        refine List.filter_congr fun k _ => ?_
        rw [Bool.eq_iff_iff]
        simp [and_comm]
      rw [if_neg hkey, if_pos (by simpa using hkey), List.eraseDups_cons, hothers,
        List.append_assoc, List.singleton_append]

/-! ## Settled values -/

mutual

/-- The value with every object settled: each key once. -/
def settled : Json → Json
  | .null => .null
  | .bool b => .bool b
  | .number t => .number t
  | .string s => .string s
  | .array items => .array (settledItems items)
  | .object members => .object (bindAll [] (settledMembers members))
termination_by structural v => v

/-- The values, settled one by one. -/
def settledItems : List Json → List Json
  | [] => []
  | v :: items => settled v :: settledItems items
termination_by structural items => items

/-- The members with their values settled. -/
def settledMembers : List (Str × Json) → List (Str × Json)
  | [] => []
  | m :: members => settledMember m :: settledMembers members
termination_by structural members => members

/-- The member with its value settled. -/
def settledMember : Str × Json → Str × Json
  | (key, v) => (key, settled v)
termination_by structural m => m

end

theorem settledMembers_eq_map (members : List (Str × Json)) :
    settledMembers members = members.map fun m => (m.1, m.2.settled) := by
  induction members with
  | nil => rfl
  | cons m members ih =>
    obtain ⟨key, v⟩ := m
    rw [settledMembers, ih]
    rfl

end ImportScan.Json
