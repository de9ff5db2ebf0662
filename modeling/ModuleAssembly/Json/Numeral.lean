import ModuleAssembly.Json.Basic
import ModuleAssembly.Number.Numeral
import ModuleAssembly.Number.Scaling

/-!
# Numerals of JSON text

A number as it is written, and its value. A numeral without a point and without an exponent is a
whole number when it is in range. Every other numeral is read in double precision, in two steps
that both round: as many leading digits as fit sixty-four bits make a whole number, and that one
is scaled by the power of ten that the point, the exponent and the digits left out ask for. The
value is the number nearest to the numeral when its digits are below two to the fifty-third and
the power is at most the twenty-second in either direction, and otherwise it may differ from the
nearest in its last bits.
-/

set_option autoImplicit false

namespace ModuleAssembly

open Number (Decimal Double digitValue signed)

/-- A number as it is written: its sign, the digits in front of the point and behind it, and the
exponent, where there is one. A point has digits on both sides. -/
structure Numeral where
  negative : Bool
  whole : List Char
  fraction : List Char
  exponent : Option Int

namespace Numeral

/-- Writes digits behind `n` as long as the value fits sixty-four bits. The result is the value
and the digits that are left, from the first one that does not fit. -/
def append (n : Nat) : List Char → Nat × List Char
  | [] => (n, [])
  | d :: ds =>
    let longer := 10 * n + digitValue d
    if longer < Nat.pow 2 64 then append longer ds else (n, d :: ds)

/-- The decimal that is read for the digits. A digit left out in front of the point still counts
for its place; one left out behind the point does not count. The digits behind the point are
tried even where a digit in front of it is left out. -/
def decimal (n : Numeral) : Decimal :=
  let front := append 0 n.whole
  let back := append front.1 n.fraction
  let behind : Int := n.fraction.length - back.2.length
  ⟨back.1, front.2.length - behind + n.exponent.getD 0⟩

/-- The value in double precision, unless it is out of range. -/
def real? (n : Numeral) : Option JsonNumber :=
  match Double.round n.negative n.decimal.coefficient 1 with
  | .finite x =>
    match x.scale n.decimal.exponent with
    | .finite y => some (.real y)
    | _ => none
  | _ => none

/-- The whole number that a numeral without a point and an exponent stands for. The negative zero
is not one of them, as a whole number has one zero. -/
def whole? (n : Numeral) : Option Whole :=
  match n.fraction, n.exponent with
  | [], none =>
    let magnitude := Number.ofDigits n.whole
    if n.negative ∧ magnitude = 0 then none else Whole.ofInt? (signed n.negative magnitude)
  | _, _ => none

/-- The value: a whole number where there is one, and otherwise in double precision. A numeral
out of range has none. -/
def value? (n : Numeral) : Option JsonNumber :=
  match n.whole? with
  | some w => some (.whole w)
  | none => n.real?

end Numeral

end ModuleAssembly
