import ImportScan.Text.Basic

/-!
# Texts as bytes

The bytes of a text are its UTF-8 encoding, and a byte array is a text only if it is the encoding of
one: no overlong form, no surrogate and nothing above the last code point. Main statements: decoding
gives back what was encoded (`ofBytes?_toBytes`), what can be decoded is an encoding
(`toBytes_of_ofBytes?`), and bytes can be counted without encoding (`size_toBytes`).
-/

namespace ImportScan.Text

/-- The encoding of a text. -/
def toBytes (t : Text) : ByteArray := (String.ofList t).toByteArray

/-- The text that a byte array encodes. -/
def ofBytes? (b : ByteArray) : Option Text := b.utf8Decode?.map Array.toList

/-- The number of bytes of the encoding of a text. -/
def byteCount (t : Text) : Nat := t.foldl (fun n c => n + c.utf8Size) 0

@[simp] theorem ofBytes?_toBytes (t : Text) : ofBytes? (toBytes t) = some t := by
  simp [ofBytes?, toBytes]

theorem toBytes_of_ofBytes? {b : ByteArray} {t : Text} (h : ofBytes? b = some t) :
    toBytes t = b := by
  unfold ofBytes? at h
  obtain ⟨a, ha, rfl⟩ := Option.map_eq_some_iff.1 h
  have hs : b.utf8Decode?.isSome = true := by simp [ha]
  have := ByteArray.utf8Encode_get_utf8Decode? (b := b) (h := hs)
  simpa [toBytes, ha] using this

theorem byteCount_cons (c : Char) (t : Text) : byteCount (c :: t) = c.utf8Size + byteCount t := by
  have foldl_add (t : Text) (n : Nat) :
      t.foldl (fun n c => n + c.utf8Size) n = n + byteCount t := by
    induction t generalizing n with
    | nil => rfl
    | cons c t ih =>
      unfold byteCount
      rw [List.foldl_cons, List.foldl_cons, ih, ih (0 + c.utf8Size)]
      omega
  unfold byteCount
  rw [List.foldl_cons, foldl_add, Nat.zero_add]
  rfl

theorem byteCount_replicate (n : Nat) (c : Char) :
    byteCount (List.replicate n c) = n * c.utf8Size := by
  induction n with
  | zero => simp [byteCount]
  | succ n ih => rw [List.replicate_succ, byteCount_cons, ih, Nat.succ_mul, Nat.add_comm]

theorem size_toBytes (t : Text) : (toBytes t).size = byteCount t := by
  unfold toBytes
  rw [String.toByteArray_ofList]
  induction t with
  | nil => rfl
  | cons c t ih =>
    rw [List.utf8Encode_cons, ByteArray.size_append, ih, List.utf8Encode_singleton, byteCount_cons]
    simp

end ImportScan.Text
