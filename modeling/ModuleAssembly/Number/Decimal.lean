/-!
# Decimals

A decimal is a coefficient and a power of ten. The text of a decimal comes in two layouts:
positional, with the point at its place and zeros where digits are missing, and scientific, with
one digit before the point and an exponent. Which of the two is written, whether a whole value shows
its point, and whether an exponent that is not negative has a sign, is decided where the text is
used.
-/

set_option autoImplicit false

namespace ModuleAssembly.Number

/-- The decimal digits of a whole number, with a minus sign in front of a negative one. -/
def intText (n : Int) : List Char :=
  if n < 0 then '-' :: Nat.toDigits 10 n.natAbs else Nat.toDigits 10 n.natAbs

/-- The value `coefficient * 10 ^ exponent`. -/
structure Decimal where
  coefficient : Nat
  exponent : Int
deriving DecidableEq, Repr

namespace Decimal

/-- The digits of the coefficient, most significant first. -/
def digits (d : Decimal) : List Char := Nat.toDigits 10 d.coefficient

/-- The place of the point, counted from before the first digit: the value is
`0.digits * 10 ^ point`. -/
def point (d : Decimal) : Int := d.digits.length + d.exponent

/-- `n` zeros, none when `n` is negative. -/
def zeros (n : Int) : List Char := List.replicate n.toNat '0'

/-- The positional layout. A value without a fractional part has no point. -/
def positional (d : Decimal) : List Char :=
  if d.point ≤ 0 then '0' :: '.' :: (zeros (-d.point) ++ d.digits)
  else if (d.digits.length : Int) ≤ d.point then
    d.digits ++ zeros (d.point - d.digits.length)
  else d.digits.take d.point.toNat ++ '.' :: d.digits.drop d.point.toNat

/-- The sign and the digits of an exponent; the sign is always written. -/
def exponentText (n : Int) : List Char :=
  (if n < 0 then '-' else '+') :: Nat.toDigits 10 n.natAbs

/-- The digits with a point behind the first one, if others follow. -/
def mantissa (d : Decimal) : List Char :=
  match d.digits with
  | first :: second :: rest => first :: '.' :: second :: rest
  | short => short

/-- The scientific layout, with a sign in front of the exponent. -/
def scientific (d : Decimal) : List Char := d.mantissa ++ 'e' :: exponentText (d.point - 1)

/-- The scientific layout, with a sign in front of a negative exponent only. -/
def exponential (d : Decimal) : List Char := d.mantissa ++ 'e' :: intText (d.point - 1)

/-- A whole value: no digit stands behind the point. -/
def isWhole (d : Decimal) : Bool := (d.digits.length : Int) ≤ d.point

end Decimal

end ModuleAssembly.Number
