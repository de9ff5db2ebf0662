import ModuleAssembly.Number.Double
import ModuleAssembly.Table

/-!
# JSON values

A JSON number is a whole number that fits sixty-four bits, with or without a sign, or a finite
double-precision number; the two kinds never mix, so `1` and `1.0` are different values. The
members of an object are a list of pairs. A value that was read has its members in a table, in
ascending order of the keys and one for each key, and `Json.sorted` brings any value into that
form.
-/

set_option autoImplicit false

namespace ModuleAssembly

open Number (Finite Double)

/-- A whole number between the least signed and the greatest unsigned sixty-four bit number. -/
structure Whole where
  value : Int
  lower : -(Int.pow 2 63) ≤ value
  upper : value < Int.pow 2 64
deriving DecidableEq

/-- The whole number `n`, when it is in range. -/
def Whole.ofInt? (n : Int) : Option Whole :=
  if h : -(Int.pow 2 63) ≤ n ∧ n < Int.pow 2 64 then some ⟨n, h.1, h.2⟩ else none

/-- A JSON number. -/
inductive JsonNumber where
  | whole (n : Whole)
  | real (x : Finite)
deriving DecidableEq

/-- The number in double precision; a whole number is rounded to the nearest. -/
def JsonNumber.toDouble : JsonNumber → Double
  | .whole n => Double.ofInt n.value
  | .real x => .finite x

/-- A JSON value. -/
inductive Json where
  | null
  | bool (b : Bool)
  | number (n : JsonNumber)
  | string (s : String)
  | array (items : List Json)
  | object (members : List (String × Json))

namespace Json

/-! ## Views -/

/-- The text of a string value. -/
def string? : Json → Option String
  | .string s => some s
  | _ => none

/-- The truth value of a boolean value. -/
def bool? : Json → Option Bool
  | .bool b => some b
  | _ => none

/-- The value of the first member with this key. -/
def member? (key : String) : Json → Option Json
  | .object members => Table.find? key members
  | _ => none

/-! ## Order of members -/

mutual

/-- The value with the members of every object at every depth in ascending order of their keys,
one for each key. -/
def sorted : Json → Json
  | .array items => .array (sortedItems items)
  | .object members => .object (Table.ofPairs (sortedMembers members))
  | scalar => scalar

/-- `sorted` on each item. -/
def sortedItems : List Json → List Json
  | [] => []
  | v :: rest => v.sorted :: sortedItems rest

/-- `sorted` on the value of each member. -/
def sortedMembers : List (String × Json) → List (String × Json)
  | [] => []
  | (k, v) :: rest => (k, v.sorted) :: sortedMembers rest

end

/-! ## Depth -/

mutual

/-- How deep arrays and objects nest; a scalar has depth zero. -/
def depth : Json → Nat
  | .array items => depthItems items + 1
  | .object members => depthMembers members + 1
  | _ => 0

/-- The greatest depth of an item. -/
def depthItems : List Json → Nat
  | [] => 0
  | v :: rest => max v.depth (depthItems rest)

/-- The greatest depth of a member's value. -/
def depthMembers : List (String × Json) → Nat
  | [] => 0
  | (_, v) :: rest => max v.depth (depthMembers rest)

end

end Json

end ModuleAssembly
