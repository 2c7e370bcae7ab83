import ImportScan.Proofs.Json.Limits
import ImportScan.Proofs.Json.Syntax
import ImportScan.Proofs.Text.Trim

/-!
# Reading written strings and numbers

Each piece of a string or a number is taken off the front of a text, whatever follows: a letter in
any of its forms adds the character that it stands for (`readString_letter`), and so a string is
read as its characters (`readString_body`). A number is read as it is spelled, unless it is an
integer too long to be converted (`readNumber_size`); only what goes on with a number may not follow
it (`EndsNumber`).
-/

namespace ImportScan.Json

open Text

/-! ## Letters -/

theorem HexDigit.digitValue_char (d : HexDigit) : digitValue d.char = d.value := by
  obtain ⟨value, capital⟩ := d
  revert value capital
  decide

theorem UnitDigits.codeUnit?_text (u : UnitDigits) (rest : Text) :
    codeUnit? (u.text ++ rest) = some (u.value, rest) := by
  have hvalue := HexDigit.digitValue_char
  have hhex (d : HexDigit) : isHex d.char = true := by
    rw [isHex, hvalue]
    exact decide_eq_true d.value.isLt
  have hnumber : Text.number 16 u.text = u.value := by
    simp only [Text.number, UnitDigits.text, UnitDigits.value, List.foldl_cons, List.foldl_nil,
      hvalue]
    omega
  have htake : (u.text ++ rest).take 4 = u.text := rfl
  have hspelled : hexNumber? 4 (u.text ++ rest) = some u.value := by
    simp only [hexNumber?, htake, hnumber]
    simp [UnitDigits.text, hhex]
  rw [codeUnit?, hspelled]
  rfl

theorem ShortEscape.simpleEscape?_letter (e : ShortEscape) :
    simpleEscape? e.letter = some e.char := by
  cases e <;> rfl

theorem isHighSurrogate_iff (n : Nat) :
    isHighSurrogate n = true ↔ 0xD800 ≤ n ∧ n < 0xDC00 := by
  simp [isHighSurrogate]
  omega

theorem isLowSurrogate_iff (n : Nat) : isLowSurrogate n = true ↔ 0xDC00 ≤ n ∧ n < 0xE000 := by
  simp [isLowSurrogate]
  omega

/-- A code unit of its own is the number of its character. -/
theorem unicodeEscape?_unit {u : UnitDigits} (h : u.value < 0xD800 ∨ 0xE000 ≤ u.value)
    (rest : Text) : unicodeEscape? (u.text ++ rest) = some (.char (Char.ofNat u.value), rest) := by
  have hhigh : isHighSurrogate u.value = false := by
    rw [← Bool.not_eq_true, isHighSurrogate_iff]
    omega
  have hlow : isLowSurrogate u.value = false := by
    rw [← Bool.not_eq_true, isLowSurrogate_iff]
    omega
  simp [unicodeEscape?, u.codeUnit?_text, ofUnit, hhigh, hlow]

/-- Two surrogates make one character. -/
theorem unicodeEscape?_pair {high low : UnitDigits}
    (hhigh : 0xD800 ≤ high.value ∧ high.value < 0xDC00)
    (hlow : 0xDC00 ≤ low.value ∧ low.value < 0xE000) (rest : Text) :
    unicodeEscape? (high.text ++ '\\' :: 'u' :: (low.text ++ rest)) =
      some (.char (Char.ofNat (0x10000 + 0x400 * (high.value - 0xD800) + (low.value - 0xDC00))),
        rest) := by
  simp [unicodeEscape?, UnitDigits.codeUnit?_text, (isHighSurrogate_iff _).2 hhigh,
    (isLowSurrogate_iff _).2 hlow, Nat.mul_comm 0x400]

theorem readString_unicode {t rest : Text} {c : CodePoint}
    (h : unicodeEscape? t = some (c, rest)) (read : Str) :
    readString read ('\\' :: 'u' :: t) = readString (c :: read) rest := by
  rw [readString.eq_3]
  split
  · rename_i h'
    obtain ⟨rfl, rfl⟩ := Prod.mk.inj (Option.some.inj (h'.symm.trans h))
    rfl
  · rename_i h'
    rw [h] at h'
    cases h'

/-- A letter is read as the character that it stands for. -/
theorem readString_letter (l : Letter) (read : Str) (rest : Text) :
    readString read (l.text ++ rest) = readString (.char l.char :: read) rest := by
  cases l with
  | plain c h =>
    obtain ⟨hc, hquote, hback⟩ := h
    show readString read (c :: rest) = _
    rw [readString.eq_5 _ _ _ hquote (fun _ h => absurd h hback) fun _ _ h => absurd h hback,
      if_neg (by simp [hback]; omega)]
    rfl
  | short e =>
    have hu : e.letter ≠ 'u' := by cases e <;> decide
    show readString read ('\\' :: e.letter :: rest) = _
    rw [readString.eq_4 _ _ _ hu, e.simpleEscape?_letter]
    rfl
  | unit u h => exact readString_unicode (unicodeEscape?_unit h rest) read
  | pair high low hhigh hlow =>
    have hescape := unicodeEscape?_pair hhigh hlow rest
    rw [← List.cons_append, ← List.cons_append, ← List.append_assoc] at hescape
    exact readString_unicode hescape read

/-- A string is read as its characters. -/
theorem readString_body (ls : Letters) (read : Str) (rest : Text) :
    readString read (ls.body ++ '"' :: rest) = .ok (read.reverse ++ ls.chars, rest) := by
  induction ls generalizing read with
  | nil => simp [Letters.body, Letters.chars, readString.eq_2]
  | cons l ls ih =>
    have hbody : Letters.body (l :: ls) = l.text ++ Letters.body ls := List.flatMap_cons
    have hchars : Letters.chars (l :: ls) = .char l.char :: Letters.chars ls := rfl
    rw [hbody, hchars, List.append_assoc, readString_letter, ih, List.reverse_cons,
      List.append_assoc, List.singleton_append]

/-! ## Numbers -/

theorem ne_of_isDecimal {c x : Char} (hc : isDecimal c = true) (hx : isDecimal x = false) :
    c ≠ x := by
  rintro rfl
  rw [hc] at hx
  cases hx

/-- What stands behind the digits of a number is no digit. -/
def EndsDigits (t : Text) : Prop := ∀ c ∈ t.head?, isDecimal c = false

/-- Nothing goes on with a number. -/
def EndsNumber (t : Text) : Prop :=
  ∀ c ∈ t.head?, isDecimal c = false ∧ c ≠ '.' ∧ c ≠ 'e' ∧ c ≠ 'E'

theorem EndsNumber.endsDigits {t : Text} (h : EndsNumber t) : EndsDigits t :=
  fun c hc => (h c hc).1

theorem Digits.takeWhile_append (ds : Digits) {t : Text} (ht : EndsDigits t) :
    (ds.val ++ t).takeWhile isDecimal = ds.val := takeWhile_append_stop ds.2.2 ht

theorem Digits.dropWhile_append (ds : Digits) {t : Text} (ht : EndsDigits t) :
    (ds.val ++ t).dropWhile isDecimal = t := by
  rw [List.dropWhile_append_of_pos ds.2.2]
  cases t with
  | nil => rfl
  | cons c t => rw [List.dropWhile_cons_of_neg (by simp [ht c rfl])]

theorem Digits.isEmpty (ds : Digits) : ds.val.isEmpty = false := by
  simpa using ds.2.1

section

variable (n : Number) {t : Text} (ht : EndsNumber t)

include ht

theorem endsDigits_exponentText : EndsDigits (n.exponentText ++ t) := by
  unfold Number.exponentText
  cases n.exponent with
  | none => exact ht.endsDigits
  | some e =>
    rintro c ⟨⟩
    rcases e.mark.2 with h | h <;> rw [h] <;> rfl

theorem endsDigits_fractionText : EndsDigits (n.fractionText ++ (n.exponentText ++ t)) := by
  have hends := endsDigits_exponentText n ht
  unfold Number.fractionText
  cases n.fraction with
  | none => exact hends
  | some ds =>
    rintro c ⟨⟩
    rfl

theorem fraction_append : fraction (n.fractionText ++ (n.exponentText ++ t)) =
    (n.fractionText, n.exponentText ++ t) := by
  have hends := endsDigits_exponentText n ht
  unfold Number.fractionText
  cases n.fraction with
  | some ds =>
    show fraction ('.' :: (ds.val ++ (n.exponentText ++ t))) = _
    simp [fraction, ds.takeWhile_append hends, ds.dropWhile_append hends, ds.isEmpty]
  | none =>
    show fraction (n.exponentText ++ t) = ([], n.exponentText ++ t)
    have hdot : ∀ rest, n.exponentText ++ t ≠ '.' :: rest := by
      unfold Number.exponentText
      intro rest h
      cases hexp : n.exponent with
      | none =>
        rw [hexp] at h
        obtain rfl : t = '.' :: rest := h
        exact (ht '.' rfl).2.1 rfl
      | some e =>
        rw [hexp] at h
        obtain ⟨hmark, -⟩ := List.cons.inj h
        rcases e.mark.2 with h' | h' <;> rw [h'] at hmark <;> cases hmark
    unfold fraction
    split
    · rename_i rest h
      exact absurd h (hdot rest)
    · rfl

theorem exponent_append : exponent (n.exponentText ++ t) = (n.exponentText, t) := by
  unfold Number.exponentText
  cases n.exponent with
  | none =>
    show exponent t = ([], t)
    cases t with
    | nil => rfl
    | cons c t =>
      obtain ⟨-, -, he, hE⟩ := ht c rfl
      simp [exponent.eq_def, he, hE]
  | some e =>
    obtain ⟨⟨mark, hmark⟩, ⟨sign, hsign⟩, ds⟩ := e
    have htake := ds.takeWhile_append ht.endsDigits
    have hdrop := ds.dropWhile_append ht.endsDigits
    show exponent (mark :: (sign ++ ds.val ++ t)) = (mark :: (sign ++ ds.val), t)
    obtain ⟨c, r, hds⟩ := List.exists_cons_of_ne_nil ds.2.1
    have hc : isDecimal c = true := ds.2.2 c (hds ▸ List.mem_cons_self)
    have hplus : c ≠ '+' := ne_of_isDecimal hc rfl
    have hminus : c ≠ '-' := ne_of_isDecimal hc rfl
    rw [hds, List.cons_append] at htake hdrop
    rcases hsign with rfl | rfl | rfl <;>
      simp [exponent.eq_def, hmark, hds, hplus, hminus, htake, hdrop]

/-- A number is read as it is spelled, unless it is an integer too long. -/
theorem readNumber_size (sign : Text) : readNumber sign (n.size ++ t) =
    if n.isLong then .error .integerTooLong else .ok (.number (sign ++ n.size), t) := by
  have htake : (n.size ++ t).takeWhile isDecimal = n.whole.val := by
    rw [Number.size, List.append_assoc, List.append_assoc,
      n.whole.takeWhile_append (endsDigits_fractionText n ht)]
  have hdrop : (n.size ++ t).drop n.whole.val.length =
      n.fractionText ++ (n.exponentText ++ t) := by
    rw [Number.size, List.append_assoc, List.append_assoc, List.drop_left]
  have hfraction : n.fractionText.isEmpty = n.fraction.isNone := by
    unfold Number.fractionText
    cases n.fraction <;> rfl
  have hexponent : n.exponentText.isEmpty = n.exponent.isNone := by
    unfold Number.exponentText
    cases n.exponent <;> rfl
  unfold readNumber
  extract_lets whole
  have hwhole : whole = n.whole.val := by
    simp only [whole]
    split
    · rename_i rest h
      rw [h] at htake
      have hhead : n.whole.val.head? = some '0' := htake ▸ rfl
      exact (n.leading hhead).symm
    · exact htake
  rw [hwhole, n.whole.isEmpty, hdrop, fraction_append n ht]
  simp only [exponent_append n ht, hfraction, hexponent]
  simp [Number.isLong, Number.size]

end

theorem Number.exists_size_eq_cons (n : Number) :
    ∃ c rest, n.size = c :: rest ∧ isDecimal c = true := by
  obtain ⟨c, rest, hwhole⟩ := List.exists_cons_of_ne_nil n.whole.2.1
  exact ⟨c, rest ++ (n.fractionText ++ n.exponentText), by rw [size, hwhole, List.cons_append],
    n.whole.2.2 c (hwhole ▸ List.mem_cons_self)⟩

/-- A number starts with a digit or its sign. -/
theorem Number.exists_text_eq_cons (n : Number) :
    ∃ c rest, n.text = c :: rest ∧ (c = '-' ∨ isDecimal c = true) := by
  obtain ⟨c, rest, hsize, hc⟩ := n.exists_size_eq_cons
  rw [text, signText, hsize]
  cases n.negative with
  | true => exact ⟨'-', _, rfl, .inl rfl⟩
  | false => exact ⟨c, _, rfl, .inr hc⟩

/-- No word starts as a number does. -/
theorem readScalar_number (n : Number) {t : Text} (ht : EndsNumber t) : readScalar (n.text ++ t) =
    if n.isLong then .error .integerTooLong else .ok (.number n.text, t) := by
  obtain ⟨c, r, hsize, hc⟩ := n.exists_size_eq_cons
  have hword {x : Char} (hx : isDecimal x = false) : (x == c) = false :=
    beq_eq_false_iff_ne.2 (ne_of_isDecimal hc hx).symm
  have hplain (u : Text) : readScalar (c :: u) = readNumber [] (c :: u) := by
    simp only [readScalar, dropWord?, String.reduceToList, List.isPrefixOf, List.find?,
      hword (x := 'n') rfl, hword (x := 't') rfl, hword (x := 'f') rfl, hword (x := 'N') rfl,
      hword (x := 'I') rfl, hword (x := '-') rfl, Bool.false_and, Bool.false_eq_true, if_false]
    split
    · rename_i h
      exact absurd (List.cons.inj h).1 (ne_of_isDecimal hc rfl)
    · rfl
  have hminus (u : Text) : readScalar ('-' :: c :: u) = readNumber ['-'] (c :: u) := by
    simp [readScalar, dropWord?, List.isPrefixOf, hword (x := 'I') rfl]
  have hread := readNumber_size n ht n.signText
  rw [hsize, List.cons_append] at hread
  rw [Number.text, hsize]
  cases hneg : n.negative <;> rw [Number.signText, hneg] at hread ⊢
  · exact (hplain _).trans hread
  · exact (hminus _).trans hread

end ImportScan.Json
