import ImportScan.Source

/-!
# Which files are read

A file is read if it is there, not too large, and the encoding of a text (`read_eq_ok_iff`). What
reading a file leads to is told by its bytes alone, the size before the encoding (`read_file`).
-/

namespace ImportScan

namespace Text

/-- The bytes are the UTF-8 encoding of the text, character by character. -/
def Encodes (bytes : ByteArray) (t : Text) : Prop :=
  bytes = (t.flatMap String.utf8EncodeChar).toByteArray

theorem encodes_iff {bytes : ByteArray} {t : Text} : Encodes bytes t ↔ toBytes t = bytes := by
  rw [Encodes, toBytes, String.toByteArray_ofList, List.utf8Encode]
  exact eq_comm

/-- What cannot be decoded is the encoding of no text. -/
theorem ofBytes?_eq_none_iff {bytes : ByteArray} :
    ofBytes? bytes = none ↔ ¬∃ t, Encodes bytes t := by
  rw [Option.eq_none_iff_forall_ne_some, not_exists]
  refine forall_congr' fun t => not_congr ?_
  rw [encodes_iff]
  exact ⟨toBytes_of_ofBytes?, fun h => h ▸ ofBytes?_toBytes t⟩

end Text

namespace Source

theorem decode_eq_ok_iff {bytes : ByteArray} {t : Text} :
    decode bytes = .ok t ↔
      bytes.size ≤ maxBytes ∧ ∃ u, Text.toBytes u = bytes ∧ dropMark u = t := by
  unfold decode
  constructor
  · intro h
    split at h
    · cases h
    · rename_i hsize
      cases hu : Text.ofBytes? bytes with
      | none => simp [hu] at h
      | some u =>
        simp only [hu, Except.ok.injEq] at h
        exact ⟨by omega, u, Text.toBytes_of_ofBytes? hu, h⟩
  · rintro ⟨hsize, u, rfl, rfl⟩
    rw [if_neg (by omega), Text.ofBytes?_toBytes]

/-- A file is read if it is there, has at most `maxBytes`, and is the encoding of a text. -/
theorem read_eq_ok_iff {s : Store} {p : Path} {t : Text} :
    read s p = .ok t ↔
      ∃ place u, s.find p = .ok (place, .file (Text.toBytes u)) ∧
        (Text.toBytes u).size ≤ maxBytes ∧ dropMark u = t := by
  unfold read
  constructor
  · intro h
    split at h
    · cases h
    · cases h
    · rename_i place bytes hfind
      cases hd : decode bytes with
      | error e =>
        rw [hd] at h
        cases h
      | ok t' =>
        rw [hd] at h
        have ht : t' = t := Except.ok.inj h
        obtain ⟨hsize, u, rfl, hu⟩ := decode_eq_ok_iff.1 hd
        exact ⟨place, u, hfind, hsize, hu.trans ht⟩
  · rintro ⟨place, u, hfind, hsize, rfl⟩
    simp only [hfind]
    rw [decode_eq_ok_iff.2 ⟨hsize, u, rfl, rfl⟩]
    rfl

/-! ## The bytes of a file -/

section Bytes

variable {bytes : ByteArray} {u : Text}

theorem dropMark_eq_self (h : u.head? ≠ some '\uFEFF') : dropMark u = u := by
  cases u with
  | nil => rfl
  | cons c u =>
    rw [dropMark, if_neg]
    rintro rfl
    exact h rfl

theorem decode_of_encodes (hsize : bytes.size ≤ maxBytes) (hu : Text.Encodes bytes u) :
    decode bytes = .ok (dropMark u) :=
  decode_eq_ok_iff.2 ⟨hsize, u, Text.encodes_iff.1 hu, rfl⟩

theorem decode_of_not_encodes (hsize : bytes.size ≤ maxBytes) (h : ¬∃ u, Text.Encodes bytes u) :
    decode bytes = .error .notText := by
  rw [decode, if_neg (Nat.not_lt.2 hsize), Text.ofBytes?_eq_none_iff.2 h]

end Bytes

theorem read_of_find {s : Store} {p : Path} {place : Location} {bytes : ByteArray}
    (h : s.find p = .ok (place, .file bytes)) :
    read s p = (decode bytes).mapError (ReadError.mk p) := by
  rw [read, h]

/-- **Reading a file**: more bytes than the limit are too many whatever they are; up to the limit
the encoding of a text is read as that text, without one byte order mark at its start; all else is
not text. So a text that starts with no mark is read back, alone and behind a mark. -/
theorem read_file {s : Store} {p : Path} {place : Location} {bytes : ByteArray}
    (h : s.find p = .ok (place, .file bytes)) :
    (maxBytes < bytes.size → ∃ e, read s p = .error e ∧ e.path = p ∧
        e.failure.reason = "file exceeds 2097152 bytes") ∧
      (bytes.size ≤ maxBytes → ∀ u, Text.Encodes bytes u →
        (∀ r, u = '\uFEFF' :: r → read s p = .ok r) ∧
          (u.head? ≠ some '\uFEFF' → read s p = .ok u)) ∧
      (bytes.size ≤ maxBytes → (¬∃ u, Text.Encodes bytes u) → ∃ e, read s p = .error e ∧
        e.path = p ∧ e.failure.reason = "not valid UTF-8 text") ∧
      ∀ u : Text, u.head? ≠ some '\uFEFF' →
        (Text.Encodes bytes u → Text.byteCount u ≤ maxBytes → read s p = .ok u) ∧
          (Text.Encodes bytes ('\uFEFF' :: u) → 3 + Text.byteCount u ≤ maxBytes →
            read s p = .ok u) := by
  rw [read_of_find h]
  have hok (hsize : bytes.size ≤ maxBytes) {u : Text} (hu : Text.Encodes bytes u) :
      (decode bytes).mapError (ReadError.mk p) = .ok (dropMark u) := by
    rw [decode_of_encodes hsize hu]
    rfl
  have hcount {u : Text} (hu : Text.Encodes bytes u) : bytes.size = Text.byteCount u := by
    rw [← Text.encodes_iff.1 hu, Text.size_toBytes]
  refine ⟨fun hsize => ?_, fun hsize u hu => ⟨?_, fun hmark => ?_⟩, fun hsize hnone => ?_,
    fun u hmark => ⟨fun hu hsize => ?_, fun hu hsize => ?_⟩⟩
  · rw [decode, if_pos hsize]
    exact ⟨_, rfl, rfl, rfl⟩
  · rintro r rfl
    exact hok hsize hu
  · rw [hok hsize hu, dropMark_eq_self hmark]
  · rw [decode_of_not_encodes hsize hnone]
    exact ⟨_, rfl, rfl, rfl⟩
  · rw [hok (hcount hu ▸ hsize) hu, dropMark_eq_self hmark]
  · have hlimit : bytes.size ≤ maxBytes := by
      have hthree : Char.utf8Size '\uFEFF' = 3 := rfl
      rwa [hcount hu, Text.byteCount_cons, hthree]
    exact hok hlimit hu

/-- Of two byte order marks one is left. -/
theorem read_file_twoMarks :
    let p := Path.ofText "a.py".toList
    let t : Text := ['\uFEFF', '\uFEFF', 'x']
    let s := ({} : Store).write p (Text.toBytes t)
    s.find p = .ok (["a.py".toList], .file (Text.toBytes t)) ∧
      Text.Encodes (Text.toBytes t) t ∧ read s p = .ok ['\uFEFF', 'x'] := by
  intro p t s
  have hfind : s.find p = .ok (["a.py".toList], .file (Text.toBytes t)) := rfl
  have ht : Text.Encodes (Text.toBytes t) t := Text.encodes_iff.2 rfl
  have hsize : (Text.toBytes t).size ≤ maxBytes := by
    rw [Text.size_toBytes]
    decide
  obtain ⟨-, hread, -⟩ := read_file hfind
  exact ⟨hfind, ht, (hread hsize t ht).1 _ rfl⟩

end Source
end ImportScan
