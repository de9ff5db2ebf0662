/-!
# Base64

The standard padded encoding of bytes: three bytes become four characters of a sixty-four
letter alphabet, and a last group of one or two bytes is filled up with `=` signs. `decode?`
is strict. It takes exactly the texts that `encode` gives, so it refuses a missing or surplus
`=`, a character outside the alphabet, and a last character whose unused low bits are set.
-/

set_option autoImplicit false

namespace ModuleAssembly.Text.Base64

/-! ## The alphabet -/

/-- The sixty-four letters in the order of the values they stand for. -/
def alphabet : List Char :=
  "ABCDEFGHIJKLMNOPQRSTUVWXYZabcdefghijklmnopqrstuvwxyz0123456789+/".toList

/-- The letter of a value below sixty-four. -/
def letter (n : Nat) : Char := alphabet.getD n 'A'

/-- The value of a letter. -/
def value? (c : Char) : Option Nat :=
  if 'A' ≤ c ∧ c ≤ 'Z' then some (c.toNat - 'A'.toNat)
  else if 'a' ≤ c ∧ c ≤ 'z' then some (c.toNat - 'a'.toNat + 26)
  else if '0' ≤ c ∧ c ≤ '9' then some (c.toNat - '0'.toNat + 52)
  else if c = '+' then some 62
  else if c = '/' then some 63
  else none

/-! ## Encoding -/

/-- The characters of a byte sequence, group by group. -/
def encodeChars : List UInt8 → List Char
  | [] => []
  | [a] =>
    [letter (a.toNat / 4), letter (a.toNat % 4 * 16), '=', '=']
  | [a, b] =>
    [letter (a.toNat / 4), letter (a.toNat % 4 * 16 + b.toNat / 16),
      letter (b.toNat % 16 * 4), '=']
  | a :: b :: c :: rest =>
    letter (a.toNat / 4) :: letter (a.toNat % 4 * 16 + b.toNat / 16)
      :: letter (b.toNat % 16 * 4 + c.toNat / 64) :: letter (c.toNat % 64) :: encodeChars rest

/-- The padded encoding of a byte sequence. -/
def encode (bytes : List UInt8) : String := String.ofList (encodeChars bytes)

/-! ## Decoding -/

/-- The bytes of the last group of four characters, which may be padded. -/
def lastGroup? (a b c d : Char) : Option (List UInt8) :=
  match value? a, value? b with
  | some x, some y =>
    if c = '=' then
      if d = '=' ∧ y % 16 = 0 then some [UInt8.ofNat (x * 4 + y / 16)] else none
    else
      match value? c with
      | none => none
      | some z =>
        if d = '=' then
          if z % 4 = 0 then
            some [UInt8.ofNat (x * 4 + y / 16), UInt8.ofNat (y % 16 * 16 + z / 4)]
          else none
        else
          (value? d).map fun w =>
            [UInt8.ofNat (x * 4 + y / 16), UInt8.ofNat (y % 16 * 16 + z / 4),
              UInt8.ofNat (z % 4 * 64 + w)]
  | _, _ => none

/-- The bytes of a group of four letters. -/
def fullGroup? (a b c d : Char) : Option (List UInt8) :=
  match value? a, value? b, value? c, value? d with
  | some x, some y, some z, some w =>
    some [UInt8.ofNat (x * 4 + y / 16), UInt8.ofNat (y % 16 * 16 + z / 4),
      UInt8.ofNat (z % 4 * 64 + w)]
  | _, _, _, _ => none

/-- The bytes of a text made of groups of four characters; only the last may be padded. -/
def decodeChars? : List Char → Option (List UInt8)
  | [] => some []
  | [a, b, c, d] => lastGroup? a b c d
  | a :: b :: c :: d :: rest =>
    match fullGroup? a b c d, decodeChars? rest with
    | some group, some bytes => some (group ++ bytes)
    | _, _ => none
  | _ => none

/-- The bytes that a padded text stands for. -/
def decode? (s : String) : Option (List UInt8) := decodeChars? s.toList

end ModuleAssembly.Text.Base64
