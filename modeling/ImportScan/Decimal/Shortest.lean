import ImportScan.Text.Basic

/-!
# The shortest decimal of a floating-point number

A floating-point number stands for every real that rounds to it. Its decimal has the fewest digits
among the decimals in that interval; of two with that many digits the nearer, and of two equally
near ones the even. All arithmetic is exact: the number is `num / den` and the interval is compared
in fourths of its last place.
-/

namespace ImportScan.Decimal

/-- A positive decimal: `digits · 10 ^ exponent`. -/
structure Digits where
  digits : Nat
  exponent : Int
deriving DecidableEq, Repr

/-- A finite positive binary number `mantissa · 2 ^ exponent`, and whether the gap below it is half
the gap above. -/
structure Binary where
  mantissa : Nat
  exponent : Int
  narrowBelow : Bool
deriving DecidableEq, Repr

/-- The binary number of the bits of a finite positive double. -/
def Binary.ofBits (bits : Nat) : Binary :=
  let fraction : Nat := bits % Nat.pow 2 52
  let biased : Nat := bits / Nat.pow 2 52 % Nat.pow 2 11
  if biased = 0 then ⟨fraction, -1074, false⟩
  else ⟨fraction + Nat.pow 2 52, (biased : Int) - 1075, fraction == 0 && 1 < biased⟩

namespace Binary

/-- `n · 2 ^ e · 10 ^ d` as a numerator and a denominator. -/
def scaled (n : Nat) (e d : Int) : Nat × Nat :=
  (n * Nat.pow 2 e.toNat * Nat.pow 10 d.toNat, Nat.pow 2 (-e).toNat * Nat.pow 10 (-d).toNat)

/-- Whether the decimal `c · 10 ^ d` lies in the interval of the number. The ends belong to it if
the mantissa is even. -/
def rounds (b : Binary) (c : Nat) (d : Int) : Bool :=
  let (n, m) := scaled c (2 - b.exponent) d
  let lo := (4 * b.mantissa - if b.narrowBelow then 1 else 2) * m
  let hi := (4 * b.mantissa + 2) * m
  if b.mantissa % 2 = 0 then lo ≤ n && n ≤ hi else lo < n && n < hi

/-- The candidate for a decimal in steps of `10 ^ d`, if one of the two neighbours of the number on
that grid lies in its interval. -/
def onGrid? (b : Binary) (d : Int) : Option Digits :=
  let (n, m) := scaled b.mantissa b.exponent (-d)
  let below := n / m
  let above := below + 1
  let nearBelow := 2 * (n - below * m) < m || (2 * (n - below * m) = m && below % 2 = 0)
  match below ≠ 0 && b.rounds below d, b.rounds above d with
  | true, true => some ⟨if nearBelow then below else above, d⟩
  | true, false => some ⟨below, d⟩
  | false, true => some ⟨above, d⟩
  | false, false => none

/-- The exponent `k` with `10 ^ (k - 1) ≤ number < 10 ^ k`. -/
def magnitude (b : Binary) : Int :=
  let (n, m) := scaled b.mantissa b.exponent 0
  if m ≤ n then ((Nat.toDigits 10 (n / m)).length : Int)
  else match (List.range 400).find? fun j => m ≤ n * Nat.pow 10 j with
    | some j => 1 - (j : Int)
    | none => 0

/-- The shortest decimal: on the coarsest grid that has a candidate. Seventeen digits always do. -/
def shortest (b : Binary) : Digits :=
  let k := b.magnitude
  ((List.range 17).findSome? fun (n : Nat) => b.onGrid? (k - (n + 1))).getD ⟨b.mantissa, b.exponent⟩

end Binary

/-! ## Notation -/

/-- The text of a natural number. -/
def ofNat (n : Nat) : Text := Nat.toDigits 10 n

/-- The text of an integer. -/
def ofInt (n : Int) : Text := if n < 0 then '-' :: ofNat n.natAbs else ofNat n.natAbs

/-- A positive decimal in the notation of floating-point numbers: positional from `10 ^ -4` up to
`10 ^ 16`, with a zero behind the point of a whole number; otherwise with one digit before the point
and an exponent of at least two digits. -/
def floatNotation (d : Digits) : Text :=
  let all := ofNat d.digits
  let ds := (all.reverse.dropWhile (· == '0')).reverse
  let point : Int := (all.length : Int) + d.exponent
  if -4 < point && point ≤ 16 then
    if point ≤ 0 then '0' :: '.' :: List.replicate (-point).toNat '0' ++ ds
    else if (ds.length : Int) ≤ point then
      ds ++ List.replicate (point - ds.length).toNat '0' ++ ['.', '0']
    else ds.take point.toNat ++ '.' :: ds.drop point.toNat
  else
    let e := point - 1
    let places := ofNat e.natAbs
    ds.take 1 ++ (if ds.length = 1 then [] else '.' :: ds.drop 1) ++
      ['e', if e < 0 then '-' else '+'] ++ (if places.length < 2 then '0' :: places else places)

/-- The text of a floating-point number. -/
def ofFloat (x : Float) : Text :=
  if x.isNaN then "nan".toList
  else
    let bits := x.toBits.toNat
    let sign : Text := if bits / Nat.pow 2 63 = 1 then ['-'] else []
    let magnitude := bits % Nat.pow 2 63
    sign ++
      if magnitude = 0 then "0.0".toList
      else if x.isInf then "inf".toList
      else floatNotation (Binary.ofBits magnitude).shortest

/-- The floating-point number nearest to `digits · 10 ^ exponent`. -/
def toFloat (digits : Nat) (exponent : Int) : Float :=
  let size := ((Nat.toDigits 10 digits).length : Int) + exponent
  if digits = 0 || size < -330 then 0.0
  else if 310 < size then 1.0 / 0.0
  else Float.ofScientific digits (exponent < 0) exponent.natAbs

end ImportScan.Decimal
