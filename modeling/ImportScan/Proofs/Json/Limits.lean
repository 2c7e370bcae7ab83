import ImportScan.Manifest

/-!
# Manifests that are given up on

Two families of texts that the reader of documents gives up on: an integer with more digits than are
converted (`packages_digits`), and arrays nested deeper than there is room for (`packages_arrays`).
Both are errors of a manifest, not texts without packages.
-/

namespace ImportScan

namespace Json

theorem skipSpace_cons {c : Char} (h : isSpace c = false) (t : Text) :
    skipSpace (c :: t) = c :: t := by
  simp [skipSpace, h]

/-! ## Long integers -/

theorem takeWhile_isDecimal_ones (n : Nat) :
    (List.replicate n '1').takeWhile Text.isDecimal = List.replicate n '1' := by
  rw [List.takeWhile_replicate]
  rfl

theorem readNumber_ones {n : Nat} (h : maxIntegerDigits < n) :
    readNumber [] (List.replicate n '1') = .error .integerTooLong := by
  obtain ⟨k, rfl⟩ : ∃ k, n = k + 1 := ⟨n - 1, by omega⟩
  have hwhole := takeWhile_isDecimal_ones (k + 1)
  rw [List.replicate_succ] at hwhole ⊢
  simp [readNumber, hwhole, fraction, exponent, h]

theorem readScalar_ones {n : Nat} (h : maxIntegerDigits < n) :
    readScalar (List.replicate n '1') = .error .integerTooLong := by
  have hnum := readNumber_ones h
  obtain ⟨k, rfl⟩ : ∃ k, n = k + 1 := ⟨n - 1, by omega⟩
  rw [List.replicate_succ] at hnum ⊢
  simpa [readScalar, dropWord?] using hnum

/-- What starts no string, array or object is a literal or a number. -/
theorem readValue_scalar {c : Char} (h1 : c ≠ '"') (h2 : c ≠ '[') (h3 : c ≠ '{')
    (most room : Nat) (rest : Text) :
    readValue most room (c :: rest) = readScalar (c :: rest) := by
  cases room <;> simp [readValue, h1, h2, h3]

theorem read_ones {n : Nat} (h : maxIntegerDigits < n) (room : Nat) :
    read room (List.replicate n '1') = .error .integerTooLong := by
  have hscalar := readScalar_ones h
  obtain ⟨k, rfl⟩ : ∃ k, n = k + 1 := ⟨n - 1, by omega⟩
  rw [List.replicate_succ] at hscalar ⊢
  rw [read, skipSpace_cons (by decide), readValue_scalar (by decide) (by decide) (by decide),
    hscalar]
  rfl

/-! ## Deep arrays -/

/-- One bracket more than there is room for is too many. -/
theorem readValue_arrays {most : Nat} (hm : 0 < most) (room : Nat) (t : Text) :
    readValue most room (List.replicate (room + 1) '[' ++ t) = .error .nestingTooDeep := by
  obtain ⟨fuel, rfl⟩ : ∃ fuel, most = fuel + 1 := ⟨most - 1, by omega⟩
  induction room with
  | zero => rfl
  | succ room ih =>
    rw [List.replicate_succ, List.cons_append] at ih ⊢
    rw [List.replicate_succ, List.cons_append, readValue, skipSpace_cons (by decide)]
    -- the array is not empty, so its first item is read, with one bracket less
    change readItems (readValue (fuel + 1) room) (fuel + 1) []
      ('[' :: (List.replicate room '[' ++ t)) = _
    rw [readItems, ih]
    rfl

theorem read_arrays {n room : Nat} (h : room < n) :
    read room (List.replicate n '[') = .error .nestingTooDeep := by
  obtain ⟨k, rfl⟩ : ∃ k, n = room + 1 + k := Nat.exists_eq_add_of_le h
  have hpos : 0 < room + 1 + k := by omega
  have hdeep := readValue_arrays hpos room (List.replicate k '[')
  have hskip : skipSpace (List.replicate (room + 1) '[' ++ List.replicate k '[') =
      List.replicate (room + 1) '[' ++ List.replicate k '[' := by
    rw [List.replicate_succ, List.cons_append, skipSpace_cons (by decide)]
  rw [← List.replicate_append_replicate, read, hskip, List.length_append, List.length_replicate,
    List.length_replicate, hdeep]
  rfl

end Json

namespace Manifest

theorem packages_digits {n : Nat} (h : Json.maxIntegerDigits < n) (room : Nat) :
    packages room (List.replicate n '1') = .error .integerTooLong := by
  rw [packages, Json.read_ones h]

theorem packages_arrays {n room : Nat} (h : room < n) :
    packages room (List.replicate n '[') = .error .nestingTooDeep := by
  rw [packages, Json.read_arrays h]

end Manifest
end ImportScan
