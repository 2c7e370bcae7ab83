import ImportScan.Text.Basic

/-!
# Documents of settings

The value of a document, and why a text has none. The readers of documents are not all alike in how
they fail: what is no document is `malformed`, and what else goes wrong is a failure of a kind that
the reader names.
-/

namespace ImportScan.Yaml

/-- The value of a document or of a part of it. -/
inductive Value where
  | null
  | bool (b : Bool)
  | int (n : Int)
  | float (x : Float)
  | text (t : Text)
  | bytes (b : List Nat)
  | date
  | sequence (items : List Value)
  /-- Pairs in the order in which they are bound; of pairs with one key the last counts. -/
  | mapping (pairs : List (Value × Value))
  | set (pairs : List (Value × Value))
  /-- A collection that this value is a part of: a mapping, or else a sequence. -/
  | enclosing (isMapping : Bool)

/-- Why a text is not read as a document, by a reader with failures `ε` of its own. -/
inductive ReadError (ε : Type) where
  /-- It does not follow the grammar, or uses what is not defined. -/
  | malformed
  /-- The reader fails in another way. -/
  | failed (failure : ε)
deriving DecidableEq, Repr

/-- A reader of documents. -/
abbrev Reader (ε : Type) := Text → Except (ReadError ε) Value

/-- The value that a mapping binds to a text. -/
def Value.get? (key : Text) : Value → Option Value
  | .mapping pairs => (pairs.reverse.find? fun p => match p.1 with
    | .text t => t == key
    | _ => false).map (·.2)
  | _ => none

end ImportScan.Yaml
