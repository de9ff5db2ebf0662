import ModuleAssembly.Number.Decimal

/-!
# Double-precision numbers

The numbers of the binary format with fifty-three bits of significand. A finite one is a sign, a
significand and an exponent in canonical form, so equal fields mean the same number and a zero
keeps its sign. `Double.round` takes an exact fraction to the nearest number of the format, a tie
to the even significand, and a fraction beyond the largest finite number to infinity.
-/

set_option autoImplicit false

namespace ModuleAssembly.Number

/-! ## Representation -/

/-- The pairs of significand and exponent that stand for one value each: the significand has
fifty-three bits, or fewer at the least exponent. -/
def Canonical (significand : Nat) (exponent : Int) : Prop :=
  significand < Nat.pow 2 53 ∧ -1074 ≤ exponent ∧ exponent ≤ 971 ∧
    (Nat.pow 2 52 ≤ significand ∨ exponent = -1074)

instance (significand : Nat) (exponent : Int) : Decidable (Canonical significand exponent) :=
  inferInstanceAs (Decidable (_ ∧ _ ∧ _ ∧ (_ ∨ _)))

/-- The finite number `± significand * 2 ^ exponent`. -/
structure Finite where
  negative : Bool
  significand : Nat
  exponent : Int
  canonical : Canonical significand exponent
deriving DecidableEq

/-- The number is a zero of either sign. -/
def Finite.isZero (f : Finite) : Bool := f.significand == 0

/-- The magnitude of `x` is less than that of `y`; the signs do not count. -/
def Finite.isBelow (x y : Finite) : Bool :=
  x.significand * Nat.pow 2 (x.exponent - y.exponent).toNat
    < y.significand * Nat.pow 2 (y.exponent - x.exponent).toNat

/-- A number of the format. -/
inductive Double where
  | finite (value : Finite)
  | infinite (negative : Bool)
  | nan
deriving DecidableEq

namespace Double

/-- The finite number with these fields; a significand that does not fit any more has grown
beyond the format and gives an infinity. -/
def ofFields (negative : Bool) (significand : Nat) (exponent : Int) : Double :=
  if h : Canonical significand exponent then .finite ⟨negative, significand, exponent, h⟩
  else .infinite negative

/-- The number with these sixty-four bits: a sign, eleven bits of exponent and fifty-two of
fraction. -/
def ofBits (bits : Nat) : Double :=
  let negative := bits / Nat.pow 2 63 % 2 == 1
  let biased : Nat := bits / Nat.pow 2 52 % Nat.pow 2 11
  let fraction : Nat := bits % Nat.pow 2 52
  if biased = 2047 then if fraction = 0 then .infinite negative else .nan
  else if biased = 0 then ofFields negative fraction (-1074)
  else ofFields negative (Nat.pow 2 52 + fraction) ((biased : Int) - 1075)

/-! ## Rounding -/

/-- The quotient rounded to the nearest whole number, a tie to the even one. -/
def divideToEven (a b : Nat) : Nat :=
  if 2 * (a % b) < b then a / b
  else if b < 2 * (a % b) then a / b + 1
  else a / b + a / b % 2

/-- The fraction `num / den` divided by `2 ^ q`, as numerator and denominator. -/
def scaleDown (num den : Nat) (q : Int) : Nat × Nat :=
  (num * Nat.pow 2 (-q).toNat, den * Nat.pow 2 q.toNat)

/-- The exponent of the largest power of two that is at most `num / den`. -/
def floorLog2 (num den : Nat) : Int :=
  let e : Int := num.log2 - den.log2
  let scaled := scaleDown num den e
  if scaled.2 ≤ scaled.1 then e else e - 1

/-- The exponent at which `num / den` has a canonical significand. -/
def exponentOf (num den : Nat) : Int := max (floorLog2 num den - 52) (-1074)

/-- The number nearest to `num / den`, with the given sign. -/
def round (negative : Bool) (num den : Nat) : Double :=
  if num = 0 then ofFields negative 0 (-1074)
  else
    let q := exponentOf num den
    let scaled := scaleDown num den q
    let m := divideToEven scaled.1 scaled.2
    if m = Nat.pow 2 53 then ofFields negative (Nat.pow 2 52) (q + 1) else ofFields negative m q

/-- The number nearest to a decimal. A decimal whose first digit stands beyond every number of
the format is settled by the place of its point, so no huge power of ten is computed. -/
def ofDecimal (negative : Bool) (d : Decimal) : Double :=
  if d.coefficient = 0 then ofFields negative 0 (-1074)
  else if 310 < d.point then .infinite negative
  else if d.point < -330 then ofFields negative 0 (-1074)
  else round negative (d.coefficient * Nat.pow 10 d.exponent.toNat) (Nat.pow 10 (-d.exponent).toNat)

/-- The number nearest to a whole number. -/
def ofInt (n : Int) : Double := ofDecimal (n < 0) ⟨n.natAbs, 0⟩

end Double

end ModuleAssembly.Number
