import ImportScan.Decimal.Shortest
import ImportScan.Pattern.Reader
import ImportScan.Pattern.Search
import ImportScan.Source
import ImportScan.Text.Quoted
import ImportScan.Yaml.Basic

/-!
# Detection settings

The settings are patterns: a file whose name one of them matches is never looked into. They are
written as a list of patterns, or stand in a settings file, where `sanitize.file_patterns` is a
truth value, a pattern or a list. Without a settings file there are none. `Config.fileOf` says which
file a path names: of a directory the settings file in it, of any other path the one beside it. The
document in a settings file is read by the host.
-/

namespace ImportScan

/-- What a program takes from its surroundings and does not define itself; nothing is known of it
but what the types say. The reader of settings documents fails in ways `ε` of its own. -/
structure Host (ε : Type) where
  readDocument : Yaml.Reader ε
  /-- The character with a name, if there is one. -/
  characterNamed : Text → Option Char
  /-- How many arrays and objects of a manifest may be open at once. -/
  room : Nat

/-- A pattern as it is given: its spelling, and whether letter case counts from the start. -/
structure Spelling where
  text : Text
  ignoreCase : Bool := false
deriving DecidableEq, Repr

/-- A pattern with its spelling. -/
structure FilePattern where
  spelling : Text
  pattern : Pattern Nat

/-- Detection settings. -/
structure Config where
  patterns : List FilePattern := []

/-- Why settings are not usable. -/
inductive ConfigError where
  /-- The settings file cannot be read. -/
  | unreadable
  /-- The settings file is no document. -/
  | unparsable
  /-- The document is not a mapping. -/
  | notMapping
  /-- The patterns are given as something else. -/
  | wrongPatterns
  /-- A pattern is not one. -/
  | invalidPattern (spelling : Text)
deriving DecidableEq, Repr

/-- Why settings are not loaded, on a host whose reader of documents has failures `ε` of its own. -/
inductive LoadError (ε : Type) where
  | config (e : ConfigError)
  /-- A pattern repeats more often than can be counted. -/
  | repetitionTooLarge
  /-- The reader of documents fails on what is no fault of the document. -/
  | document (failure : ε)
  /-- A number has more digits than are written out. -/
  | numberTooLong
  /-- The home directory of a user is not known. -/
  | unknownHome
  /-- A null character stands in the path. -/
  | nullCharacter
  /-- A name in the path is too long. -/
  | nameTooLong
deriving DecidableEq, Repr

/-! ## Wording -/

namespace Config

/-- The name of a settings file. -/
def fileName : String := ".depscan.yml"

end Config

/-- The message for settings that are not usable. -/
def ConfigError.message : ConfigError → Text
  | .unreadable => ("Failed to read " ++ Config.fileName).toList
  | .unparsable => ("Failed to parse " ++ Config.fileName).toList
  | .notMapping => (Config.fileName ++ " must contain a mapping at the root").toList
  | .wrongPatterns => "sanitize.file_patterns must be a boolean, string or list of strings".toList
  | .invalidPattern spelling => "Invalid sanitization pattern ".toList ++ Text.quoted spelling

namespace Config

section Settings

variable {ε : Type} (host : Host ε)

/-! ## Patterns -/

/-- The pattern with a spelling. -/
def readPattern (given : Spelling) : Except (LoadError ε) FilePattern :=
  match Pattern.read host.characterNamed { ignoreCase := given.ignoreCase } given.text with
  | .ok p => .ok ⟨given.text, p⟩
  | .error .invalid => .error (.config (.invalidPattern given.text))
  | .error .repetitionTooLarge => .error .repetitionTooLarge

/-- The settings with these patterns. -/
def ofPatterns (given : List Spelling) : Except (LoadError ε) Config := do
  return ⟨← given.mapM (readPattern host)⟩

/-- The spellings of the patterns. -/
def spellings (c : Config) : List Text := c.patterns.map (·.spelling)

/-- Whether a file with this name must not be looked into. -/
def hides (c : Config) (entity : Text) : Bool := c.patterns.any (·.pattern.occursIn entity)

/-! ## Documents -/

/-- The pattern that matches every name. -/
def everything : Text := ['.', '*']

/-- Whether a document says nothing: it holds nothing, or an empty or false value. -/
def saysNothing : Yaml.Value → Bool
  | .null => true
  | .bool b => !b
  | .int n => n == 0
  | .float x => x == 0.0
  | .text t => t.isEmpty
  | .bytes b => b.isEmpty
  | .sequence items => items.isEmpty
  | .mapping pairs | .set pairs => pairs.isEmpty
  | .date | .enclosing _ => false

/-- The most digits of a whole number that is written out. -/
def maxDigits : Nat := 4300

/-- The spelling that a member of a list of patterns gives: a text itself, a number or truth value
written out; none for other members. -/
def spellingOf? : Yaml.Value → Except (LoadError ε) (Option Text)
  | .text t => .ok (some t)
  | .bool b => .ok (some (if b then "True" else "False").toList)
  | .int n =>
    if n.natAbs < Nat.pow 10 maxDigits then .ok (some (Decimal.ofInt n))
    else .error .numberTooLong
  | .float x => .ok (some (Decimal.ofFloat x))
  | _ => .ok none

/-- The patterns that a value gives. -/
def patternsOf : Yaml.Value → Except (LoadError ε) (List Text)
  | .null => .ok []
  | .bool b => .ok (if b then [everything] else [])
  | .text t => .ok [t]
  | .sequence items => do return (← items.mapM spellingOf?).filterMap id
  | .bytes b => .ok (b.map Decimal.ofNat)
  | _ => .error (.config .wrongPatterns)

/-- The patterns that a document gives. -/
def ofDocument (document : Yaml.Value) : Except (LoadError ε) (List Text) :=
  if saysNothing document then .ok []
  else match document with
    | .mapping _ =>
      let sanitize := match document.get? "sanitize".toList with
        | some (.enclosing _) => some document
        | other => other
      match sanitize.bind (·.get? "file_patterns".toList) with
      | some v => patternsOf v
      | none => .ok []
    | _ => .error (.config .notMapping)

/-- The text with every line end as a line feed. -/
def plainLines : Text → Text
  | [] => []
  | '\r' :: '\n' :: rest => '\n' :: plainLines rest
  | '\r' :: rest => '\n' :: plainLines rest
  | c :: rest => c :: plainLines rest

/-- The settings that the bytes of a settings file give. -/
def ofBytes (bytes : ByteArray) : Except (LoadError ε) Config := do
  match (Text.ofBytes? bytes).map plainLines with
  | none => .error (.config .unreadable)
  | some t =>
    if (Text.trim t).isEmpty then return {}
    match host.readDocument t with
    | .ok document => ofPatterns host ((← ofDocument document).map fun t => { text := t })
    | .error .malformed => .error (.config .unparsable)
    | .error (.failed failure) => .error (.document failure)

/-! ## Settings files -/

/-- The path with a home directory in the place of a tilde and the name of a user; none if the user
has no home. -/
def expandHome? (s : Store) (p : Path) : Option Path := match p.root, p.parts with
  | .here, ('~' :: user) :: parts =>
    (s.homes.get? user).map fun home => { home with parts := home.parts ++ parts }
  | _, _ => some p

/-- Whether a path leads to a directory. A name too long is an error, whatever else is missing
means no. -/
def isDirectory (s : Store) (p : Path) : Except (LoadError ε) Bool := match s.find p with
  | .ok (_, .directory) => .ok true
  | .ok (_, .file _) => .ok false
  | .error .nameTooLong => .error .nameTooLong
  | .error _ => .ok false

/-- The path of the settings file that a path names. -/
def fileOf (s : Store) (p : Path) : Except (LoadError ε) Path := do
  match expandHome? s p with
  | none => .error .unknownHome
  | some p =>
    if ← isDirectory s p then return p.child fileName.toList
    if p.name = fileName.toList then return p
    return p.parent.child fileName.toList

/-- The settings that a path names. The settings file is looked up from the root, along its path
without two dots. -/
def load (s : Store) (p : Path) : Except (LoadError ε) Config := do
  let file ← fileOf s p
  if file.hasNull then .error .nullCharacter
  match s.find (s.resolve file) with
  | .ok (_, .file bytes) => ofBytes host bytes
  | .ok (_, .directory) => .error (.config .unreadable)
  | .error .nameTooLong => .error .nameTooLong
  | .error _ => return {}

end Settings

end Config
end ImportScan
