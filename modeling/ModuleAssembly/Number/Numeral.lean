import ModuleAssembly.Number.Double

/-!
# Numerals

Readers of numbers written as text. A whole numeral is an optional sign and decimal digits, and
is accepted when its value fits sixty-four bits with a sign. A real numeral is an optional sign
followed by a decimal fraction with an optional exponent, or by one of the words for infinity
and not-a-number in any case; it is read as the nearest double-precision number.
-/

set_option autoImplicit false

namespace ModuleAssembly.Number

/-! ## Digits -/

/-- An ASCII decimal digit. -/
def isDigit (c : Char) : Bool := '0' ≤ c && c ≤ '9'

/-- The value of a digit. -/
def digitValue (c : Char) : Nat := c.toNat - '0'.toNat

/-- The value of a list of digits, most significant first. -/
def ofDigits (cs : List Char) : Nat := cs.foldl (fun n c => 10 * n + digitValue c) 0

/-- The sign in front of `cs`, `true` for a minus, and what follows it. -/
def splitSign : List Char → Bool × List Char
  | [] => (false, [])
  | c :: rest =>
    if c = '-' then (true, rest) else if c = '+' then (false, rest) else (false, c :: rest)

/-- `n` with a minus sign when `negative` holds. -/
def signed (negative : Bool) (n : Nat) : Int := if negative then -(n : Int) else n

/-! ## Whole numerals -/

/-- The value of a whole numeral of any size. -/
def readWhole? (cs : List Char) : Option Int :=
  let (negative, body) := splitSign cs
  if body ≠ [] ∧ body.all isDigit then some (signed negative (ofDigits body)) else none

/-- The sixty-four bit integer with the value `n`, if there is one. -/
def toInt64? (n : Int) : Option Int64 :=
  if -(Int.pow 2 63) ≤ n ∧ n < Int.pow 2 63 then some (Int64.ofInt n) else none

/-- The value of a whole numeral that fits sixty-four bits. -/
def readInt64? (s : String) : Option Int64 := (readWhole? s.toList).bind toInt64?

/-! ## Real numerals -/

/-- An exponent: nothing at all, or `e` in either case and a whole numeral. -/
def readExponent? : List Char → Option Int
  | [] => some 0
  | c :: rest => if c = 'e' ∨ c = 'E' then readWhole? rest else none

/-- The value of digits, a fraction and an exponent; a digit must stand before or behind the
point. -/
def readFraction? (cs : List Char) : Option Decimal :=
  let whole := cs.takeWhile isDigit
  let (fraction, rest) :=
    match cs.dropWhile isDigit with
    | '.' :: tail => (tail.takeWhile isDigit, tail.dropWhile isDigit)
    | tail => ([], tail)
  if whole ++ fraction = [] then none
  else (readExponent? rest).map fun e => ⟨ofDigits (whole ++ fraction), e - fraction.length⟩

/-- The number that a word stands for, in any case. -/
def readWord? (negative : Bool) (cs : List Char) : Option Double :=
  let word := String.ofList (cs.map Char.toLower)
  if word = "inf" ∨ word = "infinity" then some (.infinite negative)
  else if word = "nan" then some .nan
  else none

/-- The number nearest to a real numeral. -/
def readDouble? (s : String) : Option Double :=
  let (negative, body) := splitSign s.toList
  match readWord? negative body with
  | some x => some x
  | none => (readFraction? body).map (Double.ofDecimal negative)

end ModuleAssembly.Number
