import ImportScan.Yaml.Node
import ImportScan.Yaml.Token

/-!
# Documents as values

The tokens of a document are put together to one node, and only a whole document is made: what is
wrong with its tokens comes before any fault in making it. An alias stands for the node of its
anchor; inside the collection that an anchor names, for the collection itself. What stopped the scan
counts only where the tokens before it have been put together.
-/

namespace ImportScan.Yaml

/-! ## Building -/

/-- What an anchor names. -/
inductive Anchored where
  | complete (n : Node)
  | unfinished (isMapping : Bool)

/-- How far the tokens of a document are put together. -/
structure Builder where
  tokens : List Token
  /-- What stopped the scan behind the tokens. -/
  scanFault : Option Error
  anchors : List (Text × Anchored) := []
  handles : List (Text × Text) := []

/-- A step of the building. -/
abbrev Building := StateT Builder (Except Error)

namespace Building

/-- How many collections may be open at once. -/
def maxNesting : Nat := 480

/-- The tokens are no document. -/
def fail {α : Type} : Building α := throw .malformed

/-- The next token; none at the end of the text. -/
def peek : Building (Option Token) := do
  let b ← get
  match b.tokens.head?, b.scanFault with
  | none, some e => throw e
  | token?, _ => return token?

/-- Steps over the next token. -/
def drop : Building Unit := modify fun b => { b with tokens := b.tokens.drop 1 }

/-- Steps over the token `t` if it is next. -/
def accept (t : Token) : Building Bool := do
  if (← peek) = some t then
    drop
    return true
  return false

/-- Steps over the token `t`, which must be next. -/
def expect (t : Token) : Building Unit := do
  unless ← accept t do fail

/-- Whether one of the tokens is next. -/
def isNext (ts : List Token) : Building Bool := do
  match ← peek with
  | some t => return ts.contains t
  | none => return false

/-- Names a node by an anchor. -/
def anchor (name : Option Text) (a : Anchored) : Building Unit := do
  if let some name := name then
    modify fun b => { b with anchors := (name, a) :: b.anchors }

/-- The full text of a tag. -/
def fullTag (handle : Option Text) (suffix : Text) : Building Text := do
  match handle with
  | none => return suffix
  | some h => match (← get).handles.lookup h with
    | some start => return start ++ suffix
    | none => fail

/-- An anchor and a tag, in either order, if they are next. -/
def properties : Building (Option Text × Option Text) := do
  let anchorName : Building (Option Text) := do
    match ← peek with
    | some (.anchor name) => do drop; return some name
    | _ => return none
  let tagText : Building (Option (Option Text × Text)) := do
    match ← peek with
    | some (.tag handle suffix) => do drop; return some (handle, suffix)
    | _ => return none
  let first ← anchorName
  let tag ← tagText
  let name ← if first.isSome then pure first else anchorName
  let tag ← match tag with
    | some (handle, suffix) => some <$> fullTag handle suffix
    | none => pure none
  if let some n := name then
    if ((← get).anchors.lookup n).isSome then fail
  return (name, tag)

/-- Where a node stands: what may be one there. -/
inductive Position where
  | flow
  | block
  /-- In a block mapping, where a sequence need not be indented. -/
  | blockValue
deriving DecidableEq, Repr

/-- How to build a node at a position. -/
abbrev NodeAt := Position → Building Node

/-- The node where nothing is written. -/
def nothing : Node := .scalar (some .null) []

/-- A node at a position, or nothing if one of the tokens `ends` is next. -/
def nodeUnless (node : NodeAt) (position : Position) (ends : List Token) : Building Node := do
  if ← isNext ends then return nothing else node position

/-- The entries of a sequence, behind those already built, last first, each behind its mark. -/
def entries (node : NodeAt) (ends : List Token) : (fuel : Nat) → List Node → Building (List Node)
  | 0, _ => fail
  | fuel + 1, built => do
    if ← accept .blockEntry then
      entries node ends fuel ((← nodeUnless node .block ends) :: built)
    else return built.reverse

/-- The pairs of a block mapping, behind those already built, last first. -/
def blockPairs (node : NodeAt) : (fuel : Nat) → List (Node × Node) →
    Building (List (Node × Node))
  | 0, _ => fail
  | fuel + 1, built => do
    if ← accept .key then
      let k ← nodeUnless node .blockValue [.key, .value, .blockEnd]
      let v ← if ← accept .value then nodeUnless node .blockValue [.key, .value, .blockEnd]
        else pure nothing
      blockPairs node fuel ((k, v) :: built)
    else return built.reverse

/-- The pair behind its key mark inside brackets that `stop` closes. -/
def flowPair (node : NodeAt) (stop : Token) : Building (Node × Node) := do
  let k ← nodeUnless node .flow [.value, .flowEntry, stop]
  let v ← if ← accept .value then nodeUnless node .flow [.flowEntry, stop] else pure nothing
  return (k, v)

/-- The entries between brackets, behind those already built, last first: each a pair behind a key
mark, or a node. -/
def flowEntries (node : NodeAt) (stop : Token) : (fuel : Nat) →
    List (Node × Node ⊕ Node) → Building (List (Node × Node ⊕ Node))
  | 0, _ => fail
  | fuel + 1, built => do
    if ← accept stop then return built.reverse
    unless built.isEmpty do expect .flowEntry
    if ← accept .key then
      flowEntries node stop fuel (.inl (← flowPair node stop) :: built)
    else if ← accept stop then return built.reverse
    else flowEntries node stop fuel (.inr (← node .flow) :: built)

/-- The kind of a collection: the one that its tag names, or else the usual one. -/
def collectionKind (usual : Kind) (tag : Option Text) : Option Kind := match tag with
  | none | some ['!'] => some usual
  | some tag => Kind.ofTag? tag

/-- The kind of a scalar: the one that its tag names. Without a tag a plain scalar is of the kind
that it is written like, and any other a text. -/
def scalarKind (plain : Bool) (tag : Option Text) (t : Text) : Option Kind := match tag with
  | none => some (if plain then Schema.ofPlain t else .text)
  | some ['!'] => some (Schema.ofPlain t)
  | some tag => Kind.ofTag? tag

/-- The collection that a token opens, at a position; none if it opens none there. -/
def collection? (node : NodeAt) (position : Position) (token : Token) (tag : Option Text) :
    Option (Bool × Building Node) :=
  let fuel : Building Nat := do return (← get).tokens.length + 1
  let sequence := Node.sequence (collectionKind .sequence tag)
  let mapping := Node.mapping (collectionKind .mapping tag)
  match token with
  | .flowSequenceStart => some (false, do
    drop
    let items ← flowEntries node .flowSequenceEnd (← fuel) []
    return sequence (items.map fun e => match e with
      | .inl pair => .mapping (some .mapping) [pair]
      | .inr n => n))
  | .flowMappingStart => some (true, do
    drop
    let items ← flowEntries node .flowMappingEnd (← fuel) []
    return mapping (items.map fun e => match e with
      | .inl pair => pair
      | .inr k => (k, nothing)))
  | .blockEntry =>
    if position = .blockValue then some (false, do
      return sequence (← entries node [.blockEntry, .key, .value, .blockEnd] (← fuel) []))
    else none
  | .blockSequenceStart =>
    if position = .flow then none
    else some (false, do
      drop
      let items ← entries node [.blockEntry, .blockEnd] (← fuel) []
      expect .blockEnd
      return sequence items)
  | .blockMappingStart =>
    if position = .flow then none
    else some (true, do
      drop
      let pairs ← blockPairs node (← fuel) []
      expect .blockEnd
      return mapping pairs)
  | _ => none

/-- The node at a position when `room` more collections may be opened. -/
def node : (room : Nat) → NodeAt
  | room, position => do
    if let some (.reference name) := (← peek) then
      drop
      match (← get).anchors.lookup name with
      | some (.complete n) => return n
      | some (.unfinished isMapping) => return .enclosing isMapping
      | none => fail
    let (name, tag) ← properties
    match ← peek with
    | some (.scalar plain t) =>
      drop
      let n := Node.scalar (scalarKind plain tag t) t
      anchor name (.complete n)
      return n
    | token? =>
      match room with
      | 0 =>
        match token?.bind fun t => collection? (fun _ => fail) position t tag with
        | some _ => throw (.failed .nestingTooDeep)
        | none => emptyNode name tag
      | room + 1 =>
        match token?.bind fun t => collection? (node room) position t tag with
        | some (isMapping, build) =>
          anchor name (.unfinished isMapping)
          let n ← build
          anchor name (.complete n)
          return n
        | none => emptyNode name tag
where
  /-- The empty scalar that an anchor or tag alone stands for. -/
  emptyNode (name tag : Option Text) : Building Node := do
    if name.isNone && tag.isNone then fail
    let n := Node.scalar (scalarKind (tag.all (· == ['!'])) tag []) []
    anchor name (.complete n)
    return n

/-- The handles that every document may use. -/
def commonHandles : List (Text × Text) :=
  [(['!'], ['!']), (['!', '!'], Kind.tagStart)]

/-- The directives before a document: at most one version, and no handle twice. -/
def directives : (fuel : Nat) → (versions : Nat) → Building Unit
  | 0, _ => fail
  | fuel + 1, versions => do
    match ← peek with
    | some (.versionDirective major) =>
      drop
      if versions ≠ 0 || major ≠ 1 then fail
      directives fuel (versions + 1)
    | some (.tagDirective handle start) =>
      drop
      if ((← get).handles.lookup handle).isSome then fail
      modify fun b => { b with handles := (handle, start) :: b.handles }
      directives fuel versions
    | some .otherDirective => do drop; directives fuel versions
    | _ => return ()

/-- Steps over the marks at the end of a document. -/
def endMarks : (fuel : Nat) → Building Unit
  | 0 => return ()
  | fuel + 1 => do if ← accept .documentEnd then endMarks fuel

/-- The one document of the tokens; nothing if there is none. -/
def document : Building Node := do
  let fuel := (← get).tokens.length + 1
  if (← peek).isNone then return nothing
  let isMarked : Bool := match ← peek with
    | some (.versionDirective _) | some (.tagDirective _ _) | some .otherDirective
    | some .documentStart => true
    | _ => false
  let n ←
    if isMarked then do
      directives fuel 0
      expect .documentStart
      modify fun b => { b with handles := b.handles ++ commonHandles }
      match ← peek with
      | none | some (.versionDirective _) | some (.tagDirective _ _) | some .otherDirective
      | some .documentStart | some .documentEnd => pure nothing
      | _ => node maxNesting .block
    else do
      modify fun b => { b with handles := commonHandles }
      node maxNesting .block
  endMarks fuel
  if (← peek).isSome then fail
  return n

end Building

/-- The value of the document in a text; nothing if the text holds none. -/
def readDocument : Reader Failure := fun t => do
  let (tokens, scanFault) := Token.ofText t
  let (n, _) ← Building.document.run { tokens, scanFault }
  match n.firstFault? with
  | some e => .error e
  | none => .ok n.value

end ImportScan.Yaml
