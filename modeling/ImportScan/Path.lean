import ImportScan.Text.Bytes
import ImportScan.Text.Blank

/-!
# Paths

A path is read once and kept as its components: repeated slashes, single dots and a slash at the end
say nothing and vanish, while two dots stay. Exactly two slashes at the start are a root of their
own.
-/

namespace ImportScan

/-- Where a path starts. -/
inductive PathRoot where
  | here
  | slash
  | twoSlashes
deriving DecidableEq, Repr

/-- A path as its components. -/
structure Path where
  root : PathRoot
  parts : List Text
deriving DecidableEq, Repr

namespace Path

/-- The component that leads to the directory above. -/
def up : Text := ['.', '.']

/-- The path that a text spells. -/
def ofText (t : Text) : Path :=
  let slashes := (t.takeWhile (· == '/')).length
  { root := if slashes = 0 then .here else if slashes = 2 then .twoSlashes else .slash
    parts := (Text.fields (· == '/') t).filter fun p => p ≠ [] ∧ p ≠ ['.'] }

/-- The spelling of a path without anything that says nothing. -/
def toText (p : Path) : Text :=
  let joined := Text.join ['/'] p.parts
  match p.root with
  | .here => if p.parts.isEmpty then ['.'] else joined
  | .slash => '/' :: joined
  | .twoSlashes => '/' :: '/' :: joined

/-- The last component; empty if there is none. -/
def name (p : Path) : Text := p.parts.getLast?.getD []

/-- The path without its last component. -/
def parent (p : Path) : Path := { p with parts := p.parts.dropLast }

/-- The path with another component. -/
def child (p : Path) (name : Text) : Path := { p with parts := p.parts ++ [name] }

/-- Components without two dots: each pair takes the component before it along, if there is one. -/
def folded (parts : List Text) : List Text :=
  parts.foldl (fun front part => if part = up then front.dropLast else front ++ [part]) []

/-- Whether a null character stands in a component. -/
def anyNull (parts : List Text) : Bool := parts.any (·.contains (Char.ofNat 0))

/-- Whether a null character stands in the path; then nothing can be opened by it. -/
def hasNull (p : Path) : Bool := anyNull p.parts

end Path
end ImportScan
