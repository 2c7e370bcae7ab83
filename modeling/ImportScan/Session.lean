import ImportScan.Heartbeat

/-!
# Sessions

A session is a store that changes, settings that can be replaced, and a roster of heartbeats. Its
steps answer one after another; a step that fails leaves the settings as they were. Batches are
handed on to any handler.
-/

namespace ImportScan

/-- The report of a handler on one heartbeat. -/
structure Report where
  status : Nat
  heartbeat : Option Text := none
  errors : List Text := []
deriving DecidableEq, Repr

/-- A step of a session, with handlers that fail in ways `η`. -/
inductive Step (η : Type) where
  | write (path : Text) (bytes : ByteArray)
  | makeDirectory (path : Text)
  | delete (path : Text)
  /-- Finds the dependencies of a file; `asPath` spells the path in log records as it is read. -/
  | detect (path : Text) (language : Option Text) (asPath : Bool)
  | read (path : Text)
  | loadConfig (path : Text)
  | usePatterns (given : List Spelling)
  | hides (entity : Text)
  | heartbeat (id : Text) (h : Heartbeat)
  | handle (ids : List Text) (next : Handler η (List Report))

/-- The answer of a step, on a host whose reader of documents has failures `ε` of its own. -/
inductive Answer (ε η : Type) where
  | done
  | detected (found : Logged (Except DetectError (List Text)))
  | text (t : Except ReadError Text)
  | patterns (spellings : Except (LoadError ε) (List Text))
  | hidden (b : Bool)
  /-- What handling a batch led to, and the heartbeats listed, as they are now. -/
  | handled (h : Handled η (List Report)) (heartbeats : List Heartbeat)

/-- The state of a session. -/
structure Session where
  store : Store := {}
  config : Config := {}
  roster : Roster := {}

namespace Session

variable {ε η : Type}

/-- The answer that new settings give, and the session with them if they are usable. -/
def useConfig (s : Session) : Except (LoadError ε) Config → Answer ε η × Session
  | .ok config => (.patterns (.ok config.spellings), { s with config })
  | .error e => (.patterns (.error e), s)

variable (host : Host ε)

/-- The answer of a step, and the session behind it. -/
def step (s : Session) : Step η → Answer ε η × Session
  | .write path bytes => (.done, { s with store := s.store.write (.ofText path) bytes })
  | .makeDirectory path => (.done, { s with store := s.store.makeDirectory (.ofText path) })
  | .delete path => (.done, { s with store := s.store.delete (.ofText path) })
  | .detect path language asPath =>
    let p := Path.ofText path
    let shown := if asPath then p.toText else path
    (.detected (ImportScan.detect host.room s.store p shown language), s)
  | .read path => (.text (Source.read s.store (.ofText path)), s)
  | .loadConfig path => s.useConfig (Config.load host s.store (.ofText path))
  | .usePatterns given => s.useConfig (Config.ofPatterns host given)
  | .hides entity => (.hidden (s.config.hides entity), s)
  | .heartbeat id h => (.done, { s with roster := s.roster.put id h })
  | .handle ids next =>
    let h := withDetection host.room s.config s.store next ids s.roster
    (.handled h ((h.roster.members ids).map (·.2)), { s with roster := h.roster })

/-- The answers of steps, one after another. -/
def run (s : Session) : List (Step η) → List (Answer ε η)
  | [] => []
  | step :: steps =>
    let (answer, s) := s.step host step
    answer :: run s steps

end Session
end ImportScan
