import ModuleAssembly.Json.Basic
import ModuleAssembly.Number.Shortest

/-!
# Writing JSON

The compact text of a value has no space outside strings. The canonical text is the compact text
of the sorted value, so values that differ only in the order of members share it. The indented
text puts each item and member on a line of its own, two spaces deeper than its container.
-/

set_option autoImplicit false

namespace ModuleAssembly

open Number (Finite Decimal intText)

/-! ## Scalars -/

/-- The written form of one character inside a JSON string: quotes, backslashes and control
characters are escaped, with a short form where there is one. -/
def Json.escape (c : Char) : List Char :=
  if c = '"' then ['\\', '"']
  else if c = '\\' then ['\\', '\\']
  else if c = '\n' then ['\\', 'n']
  else if c = '\r' then ['\\', 'r']
  else if c = '\t' then ['\\', 't']
  else if c.toNat = 8 then ['\\', 'b']
  else if c.toNat = 12 then ['\\', 'f']
  else if c.toNat < 32 then
    ['\\', 'u', '0', '0', Nat.digitChar (c.toNat / 16), Nat.digitChar (c.toNat % 16)]
  else [c]

/-- The characters of a JSON string, quotes included. -/
def Json.quote (s : String) : List Char := '"' :: (s.toList.flatMap Json.escape ++ ['"'])

/-- The magnitude of a non-zero number: positional with at least one digit behind the point from
`10 ^ -5` up to `10 ^ 16`, and scientific elsewhere. -/
def JsonNumber.magnitudeText (d : Decimal) : List Char :=
  if -4 ≤ d.point ∧ d.point ≤ 16 then
    if d.isWhole then d.positional ++ ['.', '0'] else d.positional
  else d.scientific

/-- The text of a double-precision number, the shortest one to which it is the nearest number; of
two equally short and equally near ones the even one. `Numeral.value?` rounds twice, so it does
not always read the text back as the same number. -/
def JsonNumber.realText (x : Finite) : List Char :=
  (if x.negative then ['-'] else []) ++
    if x.isZero then ['0', '.', '0'] else JsonNumber.magnitudeText (x.shortest .even)

/-- The text of a number. -/
def JsonNumber.chars : JsonNumber → List Char
  | .whole n => intText n.value
  | .real x => realText x

namespace Json

/-! ## The compact text -/

mutual

/-- The characters of the compact text. -/
def chars : Json → List Char
  | .null => ['n', 'u', 'l', 'l']
  | .bool true => ['t', 'r', 'u', 'e']
  | .bool false => ['f', 'a', 'l', 's', 'e']
  | .number n => n.chars
  | .string s => quote s
  | .array items => '[' :: ([','].intercalate (itemChars items) ++ [']'])
  | .object members => '\x7b' :: ([','].intercalate (memberChars members) ++ ['\x7d'])

/-- The compact text of each item. -/
def itemChars : List Json → List (List Char)
  | [] => []
  | v :: rest => v.chars :: itemChars rest

/-- The compact text of each member: key, colon, value. -/
def memberChars : List (String × Json) → List (List Char)
  | [] => []
  | (k, v) :: rest => (quote k ++ ':' :: v.chars) :: memberChars rest

end

/-- The compact text. -/
def compact (v : Json) : String := String.ofList v.chars

/-- The compact text of the value with all its members in order. -/
def canonical (v : Json) : String := v.sorted.compact

/-! ## The indented text -/

/-- A line break and the indentation of depth `n`. -/
def lineStart (n : Nat) : List Char := '\n' :: List.replicate (2 * n) ' '

mutual

/-- The characters of the indented text of a value inside `n` containers. -/
def indentedChars (n : Nat) : Json → List Char
  | .array (v :: rest) =>
    '[' :: ([','].intercalate (indentedItems (n + 1) (v :: rest)) ++ lineStart n ++ [']'])
  | .object (m :: rest) =>
    '\x7b' :: ([','].intercalate (indentedMembers (n + 1) (m :: rest)) ++ lineStart n ++ ['\x7d'])
  | .array [] => ['[', ']']
  | .object [] => ['\x7b', '\x7d']
  | .null => ['n', 'u', 'l', 'l']
  | .bool true => ['t', 'r', 'u', 'e']
  | .bool false => ['f', 'a', 'l', 's', 'e']
  | .number x => x.chars
  | .string s => quote s

/-- The indented text of each item, on a line of its own. -/
def indentedItems (n : Nat) : List Json → List (List Char)
  | [] => []
  | v :: rest => (lineStart n ++ v.indentedChars n) :: indentedItems n rest

/-- The indented text of each member, on a line of its own. -/
def indentedMembers (n : Nat) : List (String × Json) → List (List Char)
  | [] => []
  | (k, v) :: rest =>
    (lineStart n ++ quote k ++ ':' :: ' ' :: v.indentedChars n) :: indentedMembers n rest

end

/-- The indented text. -/
def indented (v : Json) : String := String.ofList (v.indentedChars 0)

end Json

end ModuleAssembly
