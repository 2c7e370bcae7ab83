import ImportScan.Path
import ImportScan.Table

/-!
# File stores

A store holds files and directories, each under the names that lead to it from the root. A path is
followed from the root, name by name: a path that starts with no slash goes through the working
directory first. Two dots lead to the directory above, and any other component must be in the
directory reached so far; a name of more than 255 bytes can be in none. The store also knows the
home directories of users, which a tilde at the start of a path stands for.
-/

namespace ImportScan

/-- What a name in a store stands for. -/
inductive Node where
  | file (bytes : ByteArray)
  | directory

/-- A place in a store: the names that lead to it from the root. -/
abbrev Location := List Text

/-- Files and directories. The directories that lead to one are in the store too. -/
structure Store where
  nodes : Table Location Node := {}
  workingDirectory : Location := []
  /-- The working directory can be named. -/
  anyNull_workingDirectory : Path.anyNull workingDirectory = false := by rfl
  /-- The home directories by the names of users; that of the user at work is under no name. -/
  homes : Table Text Path := {}

/-- Why nothing is found at a path. -/
inductive AccessError where
  | missing
  | notDirectory
  | nameTooLong
  | nullCharacter
deriving DecidableEq, Repr

namespace Store

/-- The most bytes of a name. -/
def maxNameBytes : Nat := 255

/-- One more than the most bytes of a path. -/
def pathLimit : Nat := 4096

/-- The node at a location; the root is a directory. -/
def node? (s : Store) (l : Location) : Option Node :=
  if l = [] then some .directory else s.nodes.get? l

/-- Where a path starts. -/
def start (s : Store) : PathRoot → Location
  | .here => s.workingDirectory
  | .slash | .twoSlashes => []

/-- The components of a path from the root. -/
def fromRoot (s : Store) (p : Path) : List Text := s.start p.root ++ p.parts

/-- One component further. -/
def step (s : Store) (here : Location × Node) (name : Text) :
    Except AccessError (Location × Node) :=
  match here.2 with
  | .file _ => .error .notDirectory
  | .directory =>
    if name = Path.up then .ok (here.1.dropLast, .directory)
    else if maxNameBytes < Text.byteCount name then .error .nameTooLong
    else match s.node? (here.1 ++ [name]) with
      | none => .error .missing
      | some n => .ok (here.1 ++ [name], n)

/-- Where components lead from the root. -/
def walk (s : Store) (parts : List Text) : Except AccessError (Location × Node) :=
  parts.foldlM s.step ([], .directory)

/-- Where a path leads, and what is there. -/
def find (s : Store) (p : Path) : Except AccessError (Location × Node) :=
  if p.hasNull then .error .nullCharacter
  else if pathLimit ≤ Text.byteCount p.toText then .error .nameTooLong
  else s.walk (s.fromRoot p)

/-- The path from the root without two dots. It is told by the components alone, whatever is in the
store. -/
def resolve (s : Store) (p : Path) : Path := ⟨.slash, Path.folded (s.fromRoot p)⟩

/-! ## Changes -/

/-- The store with a node at a location, in the place of what was there. -/
def put (l : Location) (n : Node) (s : Store) : Store := { s with nodes := s.nodes.put l n }

/-- The store with a directory at a location, unless something is there. -/
def ensureDirectory (l : Location) (s : Store) : Store :=
  match s.node? l with
  | some _ => s
  | none => s.put l .directory

/-- The store with the directories that components lead through, and the location of the last. -/
def makeDirectories (s : Store) (parts : List Text) : Store × Location :=
  parts.foldl (fun (s, here) name =>
    if name = Path.up then (s, here.dropLast)
    else (s.ensureDirectory (here ++ [name]), here ++ [name])) (s, [])

/-- The store with a file at a path; the directories that lead to it are made. -/
def write (s : Store) (p : Path) (bytes : ByteArray) : Store :=
  let (s, directory) := s.makeDirectories (s.fromRoot p.parent)
  s.put (directory ++ [p.name]) (.file bytes)

/-- The store with a directory at a path. -/
def makeDirectory (s : Store) (p : Path) : Store := (s.makeDirectories (s.fromRoot p)).1

/-- The store without what is at a path and below it. -/
def delete (s : Store) (p : Path) : Store := match s.find p with
  | .ok (l, _) => { s with nodes := s.nodes.remove l.isPrefixOf }
  | .error _ => s

end Store
end ImportScan
