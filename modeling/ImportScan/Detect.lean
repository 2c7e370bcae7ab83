import ImportScan.Dependency
import ImportScan.Log

/-!
# Dependencies of a file

The file is read, its text goes to the parser of its language, and the names found become a
dependency list.
-/

namespace ImportScan

/-- Why the dependencies of a file are not told. -/
inductive DetectError where
  | read (e : ReadError)
  | manifest (e : Manifest.Error)
deriving DecidableEq, Repr

/-- An outcome together with the log records on the way to it. -/
structure Logged (α : Type) where
  outcome : α
  log : List Event

/-- The dependencies of the file at a path. `shown` is how log records spell the path, and `room`
how many arrays and objects of a manifest may be open at once. -/
def detect (room : Nat) (s : Store) (path : Path) (shown : Text) (language : Option Text) :
    Logged (Except DetectError (List Text)) :=
  let parser := Parser.ofTag? room language
  match Source.read s path with
  | .error e => ⟨.error (.read e), []⟩
  | .ok t => ⟨((parser.parse t).map Dependency.normalize).mapError .manifest,
      [.parsing shown language parser]⟩

section Detect

variable {room : Nat} {s : Store} {path : Path} {t : Text} {shown : Text} {language : Option Text}

theorem detect_of_unreadable {e : ReadError} (hr : Source.read s path = .error e) :
    detect room s path shown language = ⟨.error (.read e), []⟩ := by
  unfold detect
  rw [hr]

theorem detect_of_fault {e : Manifest.Error} (hr : Source.read s path = .ok t)
    (hp : (Parser.ofTag? room language).parse t = .error e) :
    detect room s path shown language =
      ⟨.error (.manifest e), [.parsing shown language (Parser.ofTag? room language)]⟩ := by
  unfold detect
  rw [hr]
  dsimp only
  rw [hp]
  rfl

theorem detect_of_ok {names : List Text} (hr : Source.read s path = .ok t)
    (hp : (Parser.ofTag? room language).parse t = .ok names) :
    detect room s path shown language =
      ⟨.ok (Dependency.normalize names),
        [.parsing shown language (Parser.ofTag? room language)]⟩ := by
  unfold detect
  rw [hr]
  dsimp only
  rw [hp]
  rfl

end Detect
end ImportScan
