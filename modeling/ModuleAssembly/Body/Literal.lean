import ModuleAssembly.Number.Shortest
import ModuleAssembly.Text.Affix
import ModuleAssembly.Text.Quoted

/-!
# Literals

The written forms of numbers, bytes and strings in a generated module. A finite number is written
with the fewest digits that read back: positionally from a millionth up to ten to the twenty-first,
and scientifically elsewhere, with a sign in front of the exponent. The other numbers are written by
their names in the standard library. `readBytes?` takes the literal of a byte sequence apart
again.
-/

set_option autoImplicit false

namespace ModuleAssembly.Literal

open Number (Double Finite)

/-! ## Numbers -/

/-- The number nearest to a millionth. Smaller magnitudes are written scientifically. -/
def millionth : Finite := ⟨false, 4722366482869645, -72, by decide⟩

/-- Ten to the twenty-first. Magnitudes from there on are written scientifically. -/
def sextillion : Finite := ⟨false, 7629394531250000, 17, by decide⟩

/-- The minus of a negative number. -/
def sign (x : Finite) : List Char := if x.negative then ['-'] else []

/-- Writes a plus in front of an exponent without a sign. -/
def withPlus (cs : List Char) : List Char :=
  match cs.dropWhile fun c => c != 'e' with
  | 'e' :: power =>
    if power.head? = some '-' then cs
    else (cs.takeWhile fun c => c != 'e') ++ 'e' :: '+' :: power
  | _ => cs

/-- The literal of a finite number; both zeros are written alike. -/
def finite (x : Finite) : String :=
  let digits := x.shortest .up
  if x.isZero then "0"
  else if x.isBelow millionth || !x.isBelow sextillion then
    String.ofList (withPlus (sign x ++ digits.exponential))
  else String.ofList (sign x ++ digits.positional)

/-- The literal of a number. -/
def number : Double → String
  | .nan => "globalThis.Number.NaN"
  | .infinite false => "globalThis.Number.POSITIVE_INFINITY"
  | .infinite true => "globalThis.Number.NEGATIVE_INFINITY"
  | .finite x => finite x

/-! ## Bytes -/

/-- A hexadecimal digit in upper case. -/
def hexDigit (n : Nat) : Char := (Nat.digitChar n).toUpper

/-- A byte with two hexadecimal digits. -/
def byte (b : UInt8) : String :=
  String.ofList ['0', 'x', hexDigit (b.toNat / 16), hexDigit (b.toNat % 16)]

/-- The literal of a byte sequence. -/
def bytes (bs : List UInt8) : String :=
  if bs.isEmpty then "new Uint8Array(0)"
  else "new Uint8Array([" ++ ", ".intercalate (bs.map byte) ++ "])"

/-- The value of a hexadecimal digit in upper case. -/
def hexValue? (c : Char) : Option Nat :=
  if '0' ≤ c ∧ c ≤ '9' then some (c.toNat - '0'.toNat)
  else if 'A' ≤ c ∧ c ≤ 'F' then some (c.toNat - 'A'.toNat + 10)
  else none

/-- Reads a byte with two hexadecimal digits. -/
def readByte? : List Char → Option UInt8
  | ['0', 'x', high, low] =>
    match hexValue? high, hexValue? low with
    | some h, some l => some (UInt8.ofNat (16 * h + l))
    | _, _ => none
  | _ => none

/-- Reads the bytes between the brackets of a literal. -/
def readByteList? (cs : List Char) : Option (List UInt8) :=
  match cs.splitOn ',' with
  | [] => none
  | first :: rest => do
    let b ← readByte? first
    let bs ← rest.mapM fun part => (Text.dropFront? [' '] part).bind readByte?
    some (b :: bs)

/-- Reads the literal of a byte sequence. -/
def readBytes? (s : String) : Option (List UInt8) :=
  if s = "new Uint8Array(0)" then some []
  else do
    let rest ← Text.dropFront? "new Uint8Array([".toList s.toList
    let inner ← Text.dropBack? "])".toList rest
    readByteList? inner

/-! ## Strings and truth values -/

/-- The literal of a string. -/
def string (s : String) : String := Text.Quoted.write s

/-- The literal of a truth value. -/
def bool (b : Bool) : String := if b then "true" else "false"

end ModuleAssembly.Literal
