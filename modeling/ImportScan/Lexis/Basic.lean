import ImportScan.Text.Basic

/-!
# The lexis of a language

The markers that tell code from comments and strings. A marker is never empty (it is a first
character and a rest), so whatever a marker opens takes at least one character. Where several
markers could open at one place the longest does: a triple quote wins over a single one
(`markerAt?`). A marker with several roles opens a line comment before a block comment, and a block
comment before a string (`opening`).
-/

namespace ImportScan

/-- A nonempty text that opens or closes a comment or a string. -/
structure Marker where
  head : Char
  tail : Text
deriving DecidableEq, Repr

namespace Marker

/-- The text of the marker. -/
def text (m : Marker) : Text := m.head :: m.tail

/-- The number of characters of the marker. -/
def length (m : Marker) : Nat := m.text.length

/-- Whether `t` starts with the marker. -/
def opens (m : Marker) (t : Text) : Bool := m.text.isPrefixOf t

/-- The marker with this text, unless it is empty. -/
def ofText? : Text → Option Marker
  | [] => none
  | c :: rest => some ⟨c, rest⟩

/-- The longest of some markers; of equally long ones the first. -/
def longest? (ms : List Marker) : Option Marker :=
  ms.foldl (fun best m => match best with
    | none => some m
    | some b => if b.length < m.length then some m else some b) none

theorem length_pos (m : Marker) : 0 < m.length := by simp [length, text]

end Marker

/-- The markers of a language, and whether its block comments nest. -/
structure Lexis where
  /-- Markers of comments that end with the line. -/
  line : List Marker := []
  /-- Openers of block comments, each with its closer; a later pair with the same opener counts. -/
  block : List (Marker × Marker) := []
  /-- Quotes of strings that end with the line. -/
  quotes : List Marker := []
  /-- Quotes of strings that may hold newlines. -/
  multilineQuotes : List Marker := []
  /-- Whether a block comment may hold others. -/
  nestedBlocks : Bool := false
deriving DecidableEq, Repr

/-- What a marker opens. -/
inductive Opening where
  | lineComment
  | blockComment (closer : Marker)
  | string (multiline : Bool)
deriving DecidableEq, Repr

namespace Lexis

/-- All markers that open something. -/
def openers (lx : Lexis) : List Marker :=
  lx.line ++ lx.block.map (·.1) ++ lx.quotes ++ lx.multilineQuotes

/-- The marker that opens at the start of `t`. -/
def markerAt? (lx : Lexis) (t : Text) : Option Marker :=
  Marker.longest? (lx.openers.filter (·.opens t))

/-- What the marker `m` opens. -/
def opening (lx : Lexis) (m : Marker) : Opening :=
  if m ∈ lx.line then .lineComment
  else match lx.block.reverse.lookup m with
    | some closer => .blockComment closer
    | none => .string (m ∈ lx.multilineQuotes)

end Lexis
end ImportScan
