import ImportScan.Text.Basic

/-!
# JSON documents

An object keeps its members in the order in which their keys were first bound; a later value for a
key takes the place of the earlier one (`bind`). A number keeps its spelling. A string may hold
surrogates without their partners, which no text does.
-/

namespace ImportScan

namespace Json

/-- A character, or a surrogate without its partner. -/
inductive CodePoint where
  | char (c : Char)
  | surrogate (n : Nat)
deriving DecidableEq, Repr

/-- A string, as the list of its code points. -/
abbrev Str := List CodePoint

namespace Str

/-- The string of a text. -/
def ofText (t : Text) : Str := t.map .char

/-- The text of a string, with the replacement character for surrogates. -/
def toText (s : Str) : Text := s.map fun
  | .char c => c
  | .surrogate _ => '\uFFFD'

@[simp] theorem toText_ofText (t : Text) : (ofText t).toText = t := by
  rw [toText, ofText, List.map_map]
  exact List.map_id t

end Str
end Json

/-- A JSON value. -/
inductive Json where
  | null
  | bool (b : Bool)
  | number (spelling : Text)
  | string (s : Json.Str)
  | array (items : List Json)
  | object (members : List (Json.Str × Json))

namespace Json

/-- The members with `key` bound to `value`: in its place if it was bound before, at the end if
not. -/
def bind (key : Str) (value : Json) : List (Str × Json) → List (Str × Json)
  | [] => [(key, value)]
  | m :: rest => if m.1 = key then (key, value) :: rest else m :: bind key value rest

/-- The key bound last has its new value, and the others keep theirs. -/
theorem lookup_bind (key key' : Str) (value : Json) (members : List (Str × Json)) :
    (bind key value members).lookup key' =
      if key' = key then some value else members.lookup key' := by
  have cons (k : Str) (v : Json) (rest : List (Str × Json)) :
      ((k, v) :: rest).lookup key' = if key' = k then some v else rest.lookup key' := by
    by_cases e : key' = k
    · simp [e]
    · rw [List.lookup_cons, beq_eq_false_iff_ne.2 e, if_neg e]
  induction members with
  | nil => rw [bind, cons]
  | cons m rest ih =>
    obtain ⟨k, v⟩ := m
    unfold bind
    split
    · rename_i hk
      subst hk
      rw [cons, cons]
      split <;> rfl
    · rename_i hk
      rw [cons, cons, ih]
      by_cases e : key' = k
      · simp [e, hk]
      · simp [e]

/-- A key is bound where it was bound first. -/
theorem keys_bind (key : Str) (value : Json) (members : List (Str × Json)) :
    (bind key value members).map (·.1) =
      if key ∈ members.map (·.1) then members.map (·.1) else members.map (·.1) ++ [key] := by
  induction members with
  | nil => simp [bind]
  | cons m rest ih =>
    unfold bind
    by_cases hm : m.1 = key
    · simp [hm]
    · have hk : key ≠ m.1 := fun h => hm h.symm
      rw [if_neg hm, List.map_cons, ih, List.map_cons]
      by_cases hr : key ∈ rest.map (·.1)
      · rw [if_pos hr, if_pos (List.mem_cons_of_mem _ hr)]
      · rw [if_neg hr, if_neg (List.not_mem_cons_of_ne_of_not_mem hk hr), List.cons_append]

/-- The value bound to a key in an object. -/
def get? (key : Str) : Json → Option Json
  | .object members => members.lookup key
  | _ => none

/-- The keys of an object, in order; none for other values. -/
def keys : Json → List Str
  | .object members => members.map (·.1)
  | _ => []

end Json

/-- Why a text is not read as a JSON document. -/
inductive JsonError where
  /-- It does not follow the grammar. -/
  | malformed
  /-- An integer has more digits than are converted. -/
  | integerTooLong
  /-- Arrays and objects are nested too deep. -/
  | nestingTooDeep
deriving DecidableEq, Repr

end ImportScan
