import ModuleAssembly.Number.Double

/-!
# Shortest decimals

The decimal with the fewest digits that reads back as a given number, which means that the number
is the nearest one to the decimal. Every finite number has an exact decimal expansion. Dropping
digits of that expansion from its end and rounding what is left down or up gives the two nearest
points of a coarser decimal grid, and the coarsest grid with a point that reads back is the
answer. When both neighbours read back the nearer one is taken, and an exact tie goes as `Tie`
says.
-/

set_option autoImplicit false

namespace ModuleAssembly.Number

/-- Which of two equally near neighbours is taken: always the upper one, or the even one. -/
inductive Tie where
  | up
  | even
deriving DecidableEq

namespace Finite

/-- The exact decimal value of the magnitude. -/
def exact (f : Finite) : Decimal :=
  if 0 ≤ f.exponent then ⟨f.significand * Nat.pow 2 f.exponent.toNat, 0⟩
  else ⟨f.significand * Nat.pow 5 (-f.exponent).toNat, f.exponent⟩

/-- The decimal, taken with the sign of `f`, is nearest to `f` among all numbers. -/
def readsFrom (f : Finite) (d : Decimal) : Bool :=
  Double.ofDecimal f.negative d == .finite f

/-- Of the neighbours `low` and `low + 1`, the nearer one to `low + rest / unit`. -/
def nearer (tie : Tie) (low rest unit : Nat) : Nat :=
  if 2 * rest < unit then low
  else if unit < 2 * rest then low + 1
  else
    match tie with
    | .up => low + 1
    | .even => low + low % 2

/-- The first decimal that reads back as `f`, where `dropped` digits of `full` are dropped at
first and one digit less each time. -/
def firstReading (f : Finite) (tie : Tie) (full : Decimal) : Nat → Decimal
  | 0 => full
  | dropped + 1 =>
    let unit := Nat.pow 10 (dropped + 1)
    let low := full.coefficient / unit
    let place := full.exponent + (dropped + 1)
    match f.readsFrom ⟨low, place⟩, f.readsFrom ⟨low + 1, place⟩ with
    | true, true => ⟨nearer tie low (full.coefficient % unit) unit, place⟩
    | true, false => ⟨low, place⟩
    | false, true => ⟨low + 1, place⟩
    | false, false => firstReading f tie full dropped

/-- The shortest decimal that reads back as the magnitude of `f`. -/
def shortest (f : Finite) (tie : Tie) : Decimal :=
  firstReading f tie f.exact f.exact.digits.length

end Finite

end ModuleAssembly.Number
