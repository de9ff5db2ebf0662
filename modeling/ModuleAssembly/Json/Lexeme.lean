import ModuleAssembly.Json.Fault
import ModuleAssembly.Json.Numeral

/-!
# Lexemes of JSON text

The pieces a JSON text falls into: punctuation, words, numbers and strings. `Lexeme.ofChars` cuts
a text into lexemes from left to right and stops at the first piece that is broken. A broken
piece tells what is wrong with it twice, for a reader that wants its value and for a reader that
only passes over it, because the latter does not look at the size of a number or at the pairing
of surrogates. The same holds for a number out of range and a string with an unpaired surrogate,
which are complete but have no value.
-/

set_option autoImplicit false

namespace ModuleAssembly

open Number (isDigit ofDigits signed)

/-- A piece of text that is not a lexeme. `read` is the fault met by a reader of the value and
`skip` the one met by a reader that passes over it. -/
inductive Breakage where
  /-- Nothing is left of the text. -/
  | ended
  /-- A string is broken. -/
  | inString (read skip : Fault)
  /-- A word or a number is broken, or nothing starts with this character. -/
  | elsewhere (read skip : Fault)
deriving DecidableEq

/-- The fault met where a value is read. -/
def Breakage.read : Breakage → Fault
  | .ended => .ended
  | .inString read _ => read
  | .elsewhere read _ => read

/-- The fault met where a value is passed over. -/
def Breakage.skip : Breakage → Fault
  | .ended => .ended
  | .inString _ skip => skip
  | .elsewhere _ skip => skip

/-- The fault met where a string has to stand. -/
def Breakage.readString : Breakage → Fault
  | .ended => .ended
  | .inString read _ => read
  | .elsewhere _ _ => .malformed

/-- The fault met where a string has to stand and is passed over. -/
def Breakage.skipString : Breakage → Fault
  | .ended => .ended
  | .inString _ skip => skip
  | .elsewhere _ _ => .malformed

/-- A piece of JSON text. -/
inductive Lexeme where
  | openArray
  | closeArray
  | openObject
  | closeObject
  | comma
  | colon
  | null
  | bool (b : Bool)
  /-- A number, without a value when it is out of range. -/
  | number (n : Option JsonNumber)
  /-- A string, without a value when it holds an unpaired surrogate. -/
  | string (s : Option String)
  | broken (b : Breakage)
deriving DecidableEq

namespace Lexeme

/-- A character that may stand between lexemes. -/
def isSpace (c : Char) : Bool := c == ' ' || c == '\n' || c == '\t' || c == '\r'

/-- The piece after which nothing is read: a character that starts no lexeme. -/
def stray : Breakage := .elsewhere .malformed .malformed

/-! ## Words -/

/-- Reads the rest of a word; `found` is the lexeme of the whole word. -/
def scanWord (found : Lexeme) : List Char → List Char → Lexeme × List Char
  | [], cs => (found, cs)
  | _ :: _, [] => (.broken (.elsewhere .ended .ended), [])
  | e :: es, c :: cs => if c = e then scanWord found es cs else (.broken stray, [])

/-! ## Strings -/

/-- The value of a hexadecimal digit in either case. -/
def hexValue? (c : Char) : Option Nat :=
  if isDigit c then some (c.toNat - '0'.toNat)
  else if 'a' ≤ c ∧ c ≤ 'f' then some (c.toNat - 'a'.toNat + 10)
  else if 'A' ≤ c ∧ c ≤ 'F' then some (c.toNat - 'A'.toNat + 10)
  else none

/-- The value of four hexadecimal digits. -/
def hexValue4? (a b c d : Char) : Option Nat :=
  match hexValue? a, hexValue? b, hexValue? c, hexValue? d with
  | some w, some x, some y, some z => some (((w * 16 + x) * 16 + y) * 16 + z)
  | _, _, _, _ => none

/-- The character that a backslash and a letter other than `u` stand for. -/
def shortEscape? (c : Char) : Option Char :=
  if c = '"' ∨ c = '\\' ∨ c = '/' then some c
  else if c = 'b' then some (Char.ofNat 8)
  else if c = 'f' then some (Char.ofNat 12)
  else if c = 'n' then some '\n'
  else if c = 'r' then some '\r'
  else if c = 't' then some '\t'
  else none

/-- A unit of a string: a character, or one half of a surrogate pair. -/
inductive Piece where
  | char (c : Char)
  | lead (n : Nat)
  | trail (n : Nat)

/-- The unit that an escaped number stands for. -/
def Piece.ofNat (n : Nat) : Piece :=
  if 0xD800 ≤ n ∧ n < 0xDC00 then .lead n
  else if 0xDC00 ≤ n ∧ n < 0xE000 then .trail n
  else .char (Char.ofNat n)

/-- The units up to the closing quote and what follows it, or the fault that comes first. An
escaped number takes four bytes of text, whatever stands there. -/
def scanPieces : List Char → List Piece × Except Fault (List Char)
  | [] => ([], .error .ended)
  | '"' :: rest => ([], .ok rest)
  | '\\' :: 'u' :: a :: b :: c :: d :: rest =>
    match hexValue4? a b c d with
    | some n => let r := scanPieces rest; (.ofNat n :: r.1, r.2)
    | none => ([], .error .malformed)
  | '\\' :: 'u' :: short =>
    ([], .error (if (String.ofList short).utf8ByteSize < 4 then .ended else .malformed))
  | '\\' :: e :: rest =>
    match shortEscape? e with
    | some c => let r := scanPieces rest; (.char c :: r.1, r.2)
    | none => ([], .error .malformed)
  | ['\\'] => ([], .error .ended)
  | c :: rest =>
    if c.toNat < 0x20 then ([], .error .malformed)
    else let r := scanPieces rest; (.char c :: r.1, r.2)

/-- The characters of a complete string, when every surrogate is paired. -/
def joinPieces : List Piece → Option (List Char)
  | [] => some []
  | .char c :: rest => (joinPieces rest).map (c :: ·)
  | .lead m :: .trail n :: rest =>
    (joinPieces rest).map
      (Char.ofNat (0x10000 + (m - 0xD800) * 0x400 + (n - 0xDC00)) :: ·)
  | .lead _ :: _ => none
  | .trail _ :: _ => none

/-- A surrogate is already known to be unpaired; a leading one at the end may still be paired. -/
def hasUnpaired : List Piece → Bool
  | [] => false
  | .char _ :: rest => hasUnpaired rest
  | .lead _ :: .trail _ :: rest => hasUnpaired rest
  | [.lead _] => false
  | .lead _ :: _ => true
  | .trail _ :: _ => true

/-- Reads a string whose opening quote is behind. -/
def scanString (cs : List Char) : Lexeme × List Char :=
  match scanPieces cs with
  | (pieces, .ok rest) => (.string ((joinPieces pieces).map String.ofList), rest)
  | (pieces, .error fault) =>
    (.broken (.inString (if hasUnpaired pieces then .malformed else fault) fault), [])

/-! ## Numbers -/

/-- What is wrong with a number that misses a digit in front of `rest`. A reader that passes over
numbers does not tell the end of the text from a wrong character. -/
def missingDigit : List Char → Lexeme × List Char
  | [] => (.broken (.elsewhere .ended .malformed), [])
  | _ :: _ => (.broken stray, [])

/-- Reads the digits of an exponent; `sign` is the sign in front of them. -/
def scanExponentDigits (negative sign : Bool) (whole fraction : List Char) (cs : List Char) :
    Lexeme × List Char :=
  match cs.takeWhile isDigit with
  | [] => missingDigit cs
  | ds =>
    let exponent := signed sign (ofDigits ds)
    (.number (Numeral.value? ⟨negative, whole, fraction, some exponent⟩), cs.dropWhile isDigit)

/-- Reads what follows the `e` of an exponent. -/
def scanExponent (negative : Bool) (whole fraction : List Char) : List Char → Lexeme × List Char
  | '-' :: cs => scanExponentDigits negative true whole fraction cs
  | '+' :: cs => scanExponentDigits negative false whole fraction cs
  | cs => scanExponentDigits negative false whole fraction cs

/-- Reads what follows a point. -/
def scanFraction (negative : Bool) (whole : List Char) (cs : List Char) : Lexeme × List Char :=
  match cs.takeWhile isDigit with
  | [] => missingDigit cs
  | fraction =>
    match cs.dropWhile isDigit with
    | 'e' :: rest => scanExponent negative whole fraction rest
    | 'E' :: rest => scanExponent negative whole fraction rest
    | rest => (.number (Numeral.value? ⟨negative, whole, fraction, none⟩), rest)

/-- Reads what follows the digits in front of the point. -/
def scanTail (negative : Bool) (whole : List Char) : List Char → Lexeme × List Char
  | '.' :: rest => scanFraction negative whole rest
  | 'e' :: rest => scanExponent negative whole [] rest
  | 'E' :: rest => scanExponent negative whole [] rest
  | rest => (.number (Numeral.value? ⟨negative, whole, [], none⟩), rest)

/-- Reads a number whose sign is behind. A zero in front of other digits is refused. -/
def scanNumber (negative : Bool) (cs : List Char) : Lexeme × List Char :=
  match cs.takeWhile isDigit with
  | [] => missingDigit cs
  | '0' :: _ :: _ => (.broken stray, [])
  | whole => scanTail negative whole (cs.dropWhile isDigit)

/-! ## The text -/

/-- Reads the lexeme that starts with `c`. -/
def scan (c : Char) (rest : List Char) : Lexeme × List Char :=
  if c = '[' then (.openArray, rest)
  else if c = ']' then (.closeArray, rest)
  else if c = '\x7b' then (.openObject, rest)
  else if c = '\x7d' then (.closeObject, rest)
  else if c = ',' then (.comma, rest)
  else if c = ':' then (.colon, rest)
  else if c = '"' then scanString rest
  else if c = 'n' then scanWord .null ['u', 'l', 'l'] rest
  else if c = 't' then scanWord (.bool true) ['r', 'u', 'e'] rest
  else if c = 'f' then scanWord (.bool false) ['a', 'l', 's', 'e'] rest
  else if c = '-' then scanNumber true rest
  else if isDigit c then scanNumber false (c :: rest)
  else (.broken stray, [])

/-- The lexemes of `cs`, at most `fuel` of them. -/
def scanAll : Nat → List Char → List Lexeme
  | 0, _ => []
  | fuel + 1, cs =>
    match cs.dropWhile isSpace with
    | [] => []
    | c :: rest =>
      match scan c rest with
      | (.broken b, _) => [.broken b]
      | (l, rest') => l :: scanAll fuel rest'

/-- The lexemes of a text. A lexeme takes at least one character, so there are no more lexemes
than characters. -/
def ofChars (cs : List Char) : List Lexeme := scanAll cs.length cs

end Lexeme

end ModuleAssembly
