import ImportScan.Json.Reader

/-!
# Package manifests

A manifest is a JSON object whose dependency sections are objects with the package names as keys. A
text that is no JSON document, or no object, names no packages; but an integer too long or nesting
too deep is reported. A name shows the replacement character for a surrogate without its partner.
-/

namespace ImportScan.Manifest

/-- The keys of the dependency sections, in the order in which they are read. -/
def sections : List Json.Str :=
  ["dependencies", "devDependencies", "peerDependencies", "optionalDependencies"].map fun key =>
    .ofText key.toList

/-- The package names in the section of a document with this key. -/
def packagesUnder (document : Json) (key : Json.Str) : List Text :=
  (((document.get? key).map Json.keys).getD []).map Json.Str.toText

/-- The package names of a document. -/
def packagesOf (document : Json) : List Text := sections.flatMap (packagesUnder document)

/-- Why the packages of a text are not told. -/
inductive Error where
  | integerTooLong
  | nestingTooDeep
deriving DecidableEq, Repr

/-- The package names of a manifest text in which `room` arrays and objects may be open at once. -/
def packages (room : Nat) (t : Text) : Except Error (List Text) :=
  match Json.read room t with
  | .ok document => .ok (packagesOf document)
  | .error .malformed => .ok []
  | .error .integerTooLong => .error .integerTooLong
  | .error .nestingTooDeep => .error .nestingTooDeep

end ImportScan.Manifest
