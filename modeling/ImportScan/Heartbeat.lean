import ImportScan.Config
import ImportScan.Detect
import ImportScan.Table

/-!
# Batches of heartbeats

A heartbeat tells of activity on an entity. Before a batch of them is handed on, every heartbeat of
a file gets the dependencies of that file (`annotate`), unless the settings hide the file, its
language is not known, or it cannot be read. Heartbeats are kept in a roster under their names, and
a batch lists names, so one heartbeat may be listed twice.
-/

namespace ImportScan

/-- The kinds of entities that have tags. -/
inductive EntityType where
  | file
  | app
  | domain
deriving DecidableEq, Repr

namespace EntityType

/-- Every kind of entity. -/
def all : List EntityType := [.file, .app, .domain]

/-- The constant that stands for a kind in a program. -/
def constant : EntityType → String
  | .file => "FILE"
  | .app => "APP"
  | .domain => "DOMAIN"

/-- The tag of a kind. -/
def tag : EntityType → String
  | .file => "file"
  | .app => "app"
  | .domain => "domain"

end EntityType

/-- One unit of activity. -/
structure Heartbeat where
  entity : Text
  /-- The tag of the kind of entity, known or not. -/
  entityType : Text
  language : Option Text := none
  localFile : Option Text := none
  dependencies : Option (List Text) := none
deriving DecidableEq, Repr

namespace Heartbeat

/-- Whether the entity is a file. -/
def isFile (h : Heartbeat) : Bool := h.entityType == EntityType.file.tag.toList

/-- The spelling of the path that the file is read from: the local one, if there is one. -/
def readPath (h : Heartbeat) : Text := match h.localFile with
  | none | some [] => h.entity
  | some path => path

/-- Whether the language is known. -/
def hasKnownLanguage (h : Heartbeat) : Bool := h.language.any Language.isKnownTag

/-- The heartbeat with the dependencies of its file. -/
def annotate (room : Nat) (c : Config) (s : Store) (h : Heartbeat) :
    Logged (Except Manifest.Error Heartbeat) :=
  if !h.isFile then ⟨.ok h, []⟩
  else if c.hides h.entity then ⟨.ok h, [.hidden h.entity]⟩
  else if !h.hasKnownLanguage then ⟨.ok h, [.unknownLanguage h.entity]⟩
  else
    let found := detect room s (.ofText h.readPath) h.readPath h.language
    match found.outcome with
    | .ok names => ⟨.ok { h with dependencies := some names }, found.log⟩
    | .error (.read e) => ⟨.ok h, found.log ++ [.unreadable h.entity e]⟩
    | .error (.manifest e) => ⟨.error e, found.log⟩

end Heartbeat

/-! ## Rosters -/

/-- Heartbeats under their names. -/
abbrev Roster := Table Text Heartbeat

namespace Roster

/-- The heartbeats with these names, each with its name. -/
def members (r : Roster) (ids : List Text) : List (Text × Heartbeat) :=
  ids.filterMap fun id => (r.get? id).map fun h => (id, h)

/-- The roster with the listed heartbeats annotated, one after another, up to the first whose
dependencies cannot be told. -/
def annotateAll (room : Nat) (c : Config) (s : Store) : List Text → Roster →
    Logged (Roster × Option Manifest.Error)
  | [], r => ⟨(r, none), []⟩
  | id :: ids, r => match r.get? id with
    | none => annotateAll room c s ids r
    | some h =>
      let one := h.annotate room c s
      match one.outcome with
      | .error e => ⟨(r, some e), one.log⟩
      | .ok h =>
        let rest := annotateAll room c s ids (r.put id h)
        ⟨rest.outcome, one.log ++ rest.log⟩

end Roster

/-! ## Handling a batch -/

/-- What takes a batch of heartbeats, each with its name. -/
abbrev Handler (ε ρ : Type) := List (Text × Heartbeat) → Except ε ρ

/-- Why a batch is not handled. -/
inductive BatchError (ε : Type) where
  /-- The dependencies of a file cannot be told. -/
  | manifest (e : Manifest.Error)
  /-- The handler failed. -/
  | handler (e : ε)

/-- What handling a batch leads to. -/
structure Handled (ε ρ : Type) where
  roster : Roster
  log : List Event
  /-- The names in each batch that was handed on. -/
  forwarded : List (List Text)
  result : Except (BatchError ε) ρ

/-- Annotates a batch and hands it on. -/
def withDetection {ε ρ : Type} (room : Nat) (c : Config) (s : Store) (next : Handler ε ρ)
    (ids : List Text) (r : Roster) : Handled ε ρ :=
  let annotated := r.annotateAll room c s ids
  match annotated.outcome with
  | (roster, some e) => ⟨roster, annotated.log, [], .error (.manifest e)⟩
  | (roster, none) =>
    let batch := roster.members ids
    ⟨roster, annotated.log, [batch.map (·.1)], (next batch).mapError .handler⟩

end ImportScan
