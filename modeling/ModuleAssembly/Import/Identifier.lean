import ModuleAssembly.Body.Symbol
import ModuleAssembly.Error

/-!
# Identifiers

Within a module no two symbols share an identifier. Symbols get their identifiers in turn: the
declared name when it is still free, and otherwise the name with the least free suffix.
-/

set_option autoImplicit false

namespace ModuleAssembly
/-! ## Aliases -/

/-- The alias of a name with the suffix `k`. -/
def aliasOf (name : String) (k : Nat) : String := name ++ "$" ++ String.ofList (Nat.toDigits 10 k)

/-- The least number from `k` on, within `fuel` steps, whose alias is not taken. -/
def leastFree (name : String) (taken : List String) : Nat → Nat → Nat
  | 0, k => k
  | fuel + 1, k =>
    if aliasOf name k ∈ taken then leastFree name taken fuel (k + 1) else k

/-- The greatest suffix of an alias. -/
def maxSuffix : Nat := Nat.pow 2 32 - 1

/-- The free alias of a name with the least suffix. One of the first suffixes is free, since there
are only so many names taken. -/
def freeAlias (name : String) (taken : List String) : Except Error String :=
  let k := leastFree name taken taken.length 1
  if k ≤ maxSuffix then .ok (aliasOf name k) else .error (.aliasExhaustion name)

/-! ## Assignment -/

/-- Gives every symbol in turn an identifier that is not taken: its own name, or an alias. -/
def assign (taken : List String) : List SymbolKey → Except Error (List (SymbolKey × String))
  | [] => .ok []
  | key :: rest =>
    if key.name ∈ taken then do
      let other ← freeAlias key.name taken
      let more ← assign (other :: taken) rest
      .ok ((key, other) :: more)
    else do
      let more ← assign (key.name :: taken) rest
      .ok ((key, key.name) :: more)

end ModuleAssembly
