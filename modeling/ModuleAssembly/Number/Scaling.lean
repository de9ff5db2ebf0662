import ModuleAssembly.Number.Double

/-!
# Scaling by powers of ten

Products and quotients of finite numbers, each rounded to the nearest number of the format, and
scaling by a power of ten, which is built from them. The power itself is a number of the format
and so rounded before it is used. It is exact up to ten to the twenty-second; beyond that, a
scaled number may differ in its last bits from the number nearest to the exact value.
-/

set_option autoImplicit false

namespace ModuleAssembly.Number

/-- The number nearest to ten to the `k`, infinite from ten to the 309th on. -/
def Double.powerOfTen (k : Nat) : Double := .ofDecimal false ⟨1, k⟩

namespace Finite

/-! ## Product and quotient -/

/-- The magnitude as a fraction, with its numerator and its denominator. -/
def fraction (x : Finite) : Nat × Nat := Double.scaleDown x.significand 1 (-x.exponent)

/-- The number nearest to the product. -/
def mul (x y : Finite) : Double :=
  .round (x.negative != y.negative) (x.fraction.1 * y.fraction.1) (x.fraction.2 * y.fraction.2)

/-- The number nearest to the quotient by `y`, which is not a zero. -/
def div (x y : Finite) : Double :=
  .round (x.negative != y.negative) (x.fraction.1 * y.fraction.2) (x.fraction.2 * y.fraction.1)

/-! ## Powers of ten -/

/-- The product with ten to the `k`. A power beyond the format leaves a zero as it is and takes
every other number to infinity. -/
def timesPower (x : Finite) (k : Nat) : Double :=
  match Double.powerOfTen k with
  | .finite p => x.mul p
  | _ => if x.isZero then .finite x else .infinite x.negative

/-- The quotient by ten to the `k`. A power beyond the format takes every number to a zero. -/
def overPower (x : Finite) (k : Nat) : Double :=
  match Double.powerOfTen k with
  | .finite p => x.div p
  | _ => .ofFields x.negative 0 (-1074)

/-- The number divided `steps` times by ten to the 308th, the last power of the format, and then
by ten to the `rest`. Nothing is left to divide once it has become a zero. -/
def overPowers (x : Finite) (rest : Nat) : Nat → Double
  | 0 => x.overPower rest
  | steps + 1 =>
    match x.overPower 308 with
    | .finite y => if y.isZero then .finite y else y.overPowers rest steps
    | beyond => beyond

/-- The number times ten to the `n`. -/
def scale (x : Finite) (n : Int) : Double :=
  if 0 ≤ n then x.timesPower n.toNat else x.overPowers (n.natAbs % 308) (n.natAbs / 308)

end Finite

end ModuleAssembly.Number
