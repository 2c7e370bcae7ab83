import ImportScan.Text.Blank

/-!
# Dependency lists

Raw names become a dependency list by trimming, dropping what is empty or too long, and keeping the
first of equal names.
-/

namespace ImportScan.Dependency

/-- The most characters of a dependency name. -/
def maxLength : Nat := 200

/-- Whether a trimmed name is kept. -/
def isKept (name : Text) : Bool := !name.isEmpty && name.length ≤ maxLength

/-- The dependency list of raw names, in the order in which they first occur. -/
def normalize (names : List Text) : List Text :=
  ((names.map Text.trim).filter isKept).eraseDups

end ImportScan.Dependency
