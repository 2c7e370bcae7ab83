import ImportScan.Text.Blank

/-!
# Lists with separators at the top level

A list whose members may hold bracketed lists of their own is cut only at the separators outside all
brackets. A closing bracket without an opening one is ignored, so the depth never falls below zero.
-/

namespace ImportScan.Text

/-- The marks of a bracketed list. A mark that is not one character long never occurs. -/
structure ListMarks where
  separator : Text
  opener : Text
  closer : Text
deriving DecidableEq, Repr

/-- Commas between members, braces around inner lists. -/
def ListMarks.braced : ListMarks := ⟨[','], ['{'], ['}']⟩

/-- The depth behind `c`. -/
def ListMarks.depthAfter (m : ListMarks) (depth : Nat) (c : Char) : Nat :=
  if [c] = m.opener then depth + 1 else if [c] = m.closer then depth - 1 else depth

/-- Whether `c` separates members, `depth` being the depth behind it. -/
def ListMarks.separates (m : ListMarks) (depth : Nat) (c : Char) : Bool :=
  [c] = m.separator && depth = 0

/-- The pieces between the separators at the top level, when `depth` brackets are open. -/
def rawParts (m : ListMarks) (depth : Nat) : Text → List Text
  | [] => [[]]
  | c :: rest =>
    let depth := m.depthAfter depth c
    if m.separates depth c then [] :: rawParts m depth rest
    else extendFirst c (rawParts m depth rest)

/-- The members of a bracketed list: the pieces, trimmed, without empty ones. -/
def topLevelParts (m : ListMarks) (t : Text) : List Text :=
  ((rawParts m 0 t).map trim).filter (!·.isEmpty)

end ImportScan.Text
