import ImportScan.Yaml.Plain

/-!
# Nodes of a document

A node is a part of a document together with what it comes to. Values are made in rounds: the first
round makes the root, and a collection met in one round is filled in the next, so the first fault
of a document is the first of its earliest round (`Node.firstFault?`), wherever it stands in the
text. A merge key takes the pairs of other mappings in front of its own, so own pairs win. A
collection cannot be a key of a mapping.
-/

namespace ImportScan.Yaml

/-- What a node is to the mapping that it is a key of. -/
inductive Role where
  | plain
  /-- It merges other mappings into this one. -/
  | merge
  /-- It stands for the value of the mapping. -/
  | equals
deriving DecidableEq, Repr

/-- A part of a document. -/
structure Node where
  value : Value
  /-- The first fault of each round, from the one on in which the node is met. -/
  faults : List (Option Error) := []
  role : Role := .plain
  /-- The text of a scalar, or of a mapping that stands for one. -/
  spelled : Option Text := none
  /-- The pairs of a mapping, with merge keys carried out. -/
  pairs : Except Error (List (Node × Node)) := .error .malformed
  /-- The members of a sequence. -/
  members : Option (List Node) := none

namespace Node

/-- The first fault of each round, of two that share their rounds. -/
def joinFaults : List (Option Error) → List (Option Error) → List (Option Error)
  | [], faults' => faults'
  | faults, [] => faults
  | f :: faults, f' :: faults' => (f <|> f') :: joinFaults faults faults'

/-- The first fault of each round, of nodes met one after another. -/
def allFaults (nodes : List Node) : List (Option Error) :=
  nodes.foldl (fun faults n => joinFaults faults n.faults) []

/-- The first fault of a node. -/
def firstFault? (n : Node) : Option Error := n.faults.findSome? id

/-- A node that cannot be made. -/
def faulty (e : Error) : Node := { value := .null, faults := [some e] }

/-- A node that can be made, but not be filled. -/
def unfillable (value : Value) (e : Error) : Node := { value, faults := [none, some e] }

/-! ## Scalars -/

/-- The value that a text spells as data of a kind. -/
def readScalar (kind : Kind) (t : Text) : Except Error Value := match kind with
  | .null => .ok .null
  | .bool => return .bool (← Schema.toBool t)
  | .int => return .int (← Schema.toInt t)
  | .float => return .float (← Schema.toFloat t)
  | .text => .ok (.text t)
  | .date => do Schema.checkDate t; return .date
  | .bytes => return .bytes (← Schema.toBytes t)
  | .merge | .equals | .sequence | .mapping | .set | .orderedMapping | .pairs => .error .malformed

/-- The empty collection of a kind; none for kinds of scalars. -/
def emptyOf? : Kind → Option Value
  | .sequence | .orderedMapping | .pairs => some (.sequence [])
  | .mapping => some (.mapping [])
  | .set => some (.set [])
  | _ => none

/-- The role of a scalar of a kind. -/
def roleOf : Option Kind → Role
  | some .merge => .merge
  | some .equals => .equals
  | _ => .plain

/-- A scalar with its kind, if its tag names one. -/
def scalar (kind : Option Kind) (t : Text) : Node :=
  let made := match kind with
    | none => faulty .malformed
    | some kind => match emptyOf? kind, readScalar kind t with
      | some empty, _ => unfillable empty .malformed
      | none, .ok value => { value }
      | none, .error e => faulty e
  { made with role := roleOf kind, spelled := some t }

/-! ## Sequences -/

/-- A member of a list of pairs, which must be a mapping of one pair. -/
def asPair (n : Node) : Node := match n.pairs with
  | .ok [_] => n
  | _ => faulty .malformed

/-- A sequence with its kind, if its tag names one. The members of an ordered mapping or a list of
pairs are mappings of one pair each. -/
def sequence (kind : Option Kind) (members : List Node) : Node :=
  let made (members : List Node) : Node :=
    { value := .sequence (members.map (·.value)), faults := none :: allFaults members }
  let filled := match kind with
    | some .sequence => made members
    | some .orderedMapping | some .pairs => made (members.map asPair)
    | some kind => match emptyOf? kind with
      | some empty => unfillable empty .malformed
      | none => faulty .malformed
    | none => faulty .malformed
  { filled with members := some members }

/-! ## Mappings -/

/-- The pairs that a merge key takes from its value: of a mapping its own, of a sequence those of
its members, the last first. -/
def taken (n : Node) : Except Error (List (Node × Node)) := match n.members with
  | some members => do return (← members.mapM (·.pairs)).reverse.flatten
  | none => n.pairs

/-- The pairs of a mapping as they are written, with merge keys carried out. -/
def ownPairs (written : List (Node × Node)) : Except Error (List (Node × Node)) := do
  let merged ← (written.filter (·.1.role = .merge)).mapM (·.2.taken)
  let own := (written.filter (·.1.role ≠ .merge)).map fun (k, v) =>
    match k.role, k.spelled with
    | .equals, some t => (scalar (some .text) t, v)
    | _, _ => (k, v)
  return merged.flatten ++ own

/-- Whether a value can be a key. -/
def isKey : Value → Bool
  | .sequence _ | .mapping _ | .set _ | .enclosing _ => false
  | _ => true

/-- The first fault of each round of a pair: its key is made and tried, then its value. -/
def pairFaults (pair : Node × Node) : List (Option Error) :=
  let tried := if isKey pair.1.value then [] else [some .malformed]
  joinFaults (joinFaults pair.1.faults tried) pair.2.faults

/-- A mapping with its kind, if its tag names one. Data of the kinds of scalars are read off the
special key. -/
def mapping (kind : Option Kind) (written : List (Node × Node)) : Node :=
  let pairs := ownPairs written
  let spelled := (written.find? (·.1.role = .equals)).bind (·.2.spelled)
  let made (collect : List (Value × Value) → Value) : Node := match pairs with
    | .error e => unfillable (collect []) e
    | .ok pairs =>
      { value := collect (pairs.map fun (k, v) => (k.value, v.value))
        faults := none :: pairs.foldl (fun faults p => joinFaults faults (pairFaults p)) [] }
  let filled := match kind with
    | some .mapping => made .mapping
    | some .set => made .set
    | some kind => match emptyOf? kind, spelled with
      | some empty, _ => unfillable empty .malformed
      | none, some t => scalar (some kind) t
      | none, none => faulty .malformed
    | none => faulty .malformed
  { filled with role := .plain, spelled, pairs }

/-! ## Collections in themselves -/

/-- A collection as a part of itself. -/
def enclosing (isMapping : Bool) : Node :=
  { value := .enclosing isMapping
    pairs := if isMapping then .ok [] else .error .malformed
    members := if isMapping then none else some [] }

end Node
end ImportScan.Yaml
