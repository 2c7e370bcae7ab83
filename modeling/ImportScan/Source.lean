import ImportScan.Store

/-!
# Reading source files

A source file is read whole if it is not larger than `maxBytes` and is the encoding of a text; one
byte order mark at its start is left out. The size is looked at first.
-/

namespace ImportScan

/-- Why a file is not read. -/
inductive ReadFailure where
  | access (e : AccessError)
  | isDirectory
  | tooLarge
  | notText
deriving DecidableEq, Repr

/-- A file that is not read, and why. -/
structure ReadError where
  path : Path
  failure : ReadFailure
deriving DecidableEq, Repr

namespace Source

/-- The most bytes of a source file. -/
def maxBytes : Nat := 2097152

/-- A text without a byte order mark at its start. -/
def dropMark : Text → Text
  | [] => []
  | c :: rest => if c = '\uFEFF' then rest else c :: rest

/-- The text that the bytes of a file stand for. -/
def decode (bytes : ByteArray) : Except ReadFailure Text :=
  if maxBytes < bytes.size then .error .tooLarge
  else match Text.ofBytes? bytes with
    | some t => .ok (dropMark t)
    | none => .error .notText

theorem decode_toBytes {t : Text} (h : Text.byteCount t ≤ maxBytes) :
    decode (Text.toBytes t) = .ok (dropMark t) := by
  rw [decode, Text.size_toBytes, if_neg (by omega), Text.ofBytes?_toBytes]

/-- The text of the file at a path. -/
def read (s : Store) (p : Path) : Except ReadError Text :=
  match s.find p with
  | .error e => .error ⟨p, .access e⟩
  | .ok (_, .directory) => .error ⟨p, .isDirectory⟩
  | .ok (_, .file bytes) => (decode bytes).mapError (⟨p, ·⟩)

end Source

/-! ## Wording -/

/-- The reason given for a file that is not read. -/
def ReadFailure.reason : ReadFailure → String
  | .access .missing => "No such file or directory"
  | .access .notDirectory => "Not a directory"
  | .access .nameTooLong => "File name too long"
  | .access .nullCharacter => "embedded null byte"
  | .isDirectory => "Is a directory"
  | .tooLarge => "file exceeds 2097152 bytes"
  | .notText => "not valid UTF-8 text"

/-- The message for a file that is not read. -/
def ReadError.message (e : ReadError) : Text :=
  "Failed to read ".toList ++ e.path.toText ++ ": ".toList ++ e.failure.reason.toList

end ImportScan
