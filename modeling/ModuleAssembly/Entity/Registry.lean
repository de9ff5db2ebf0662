import ModuleAssembly.Body.Symbol
import ModuleAssembly.Entity.Basic
import ModuleAssembly.Entity.Naming
import ModuleAssembly.Error
import ModuleAssembly.Table

/-!
# The registry

The registry knows the entities of a run by their type names, the last one registered under each
name. It resolves a type name to a symbol in two steps: it looks the name up among the symbols
given out before, and where there is none it settles the symbol from the entity and remembers it.
A symbol that was once given out is never replaced.
-/

set_option autoImplicit false

namespace ModuleAssembly

/-- The entities of a run and the symbols given out so far. -/
structure Registry where
  naming : Naming
  entities : Table Entity := []
  settled : Table Symbol := []
deriving DecidableEq

namespace Registry

/-- Registers an entity, in place of an earlier one with its type name. -/
def register (r : Registry) (e : Entity) : Registry :=
  { r with entities := r.entities.insert e.typeName e }

/-- A registry with the given entities, registered in order. -/
def ofEntities (naming : Naming) (es : List Entity) : Registry :=
  es.foldl register { naming }

/-- The entity with this type name. -/
def get? (r : Registry) (typeName : String) : Option Entity := r.entities.find? typeName

/-- All entities in the order of their type names. -/
def list (r : Registry) : List Entity := r.entities.map Prod.snd

/-- The symbol that an entity is declared as. -/
def symbolOf (r : Registry) (e : Entity) : Symbol :=
  ⟨e.localName, r.naming.importPath e.file, false⟩

/-! ## Resolution in two steps -/

/-- The symbol given out for a type name before. -/
def lookup? (r : Registry) (typeName : String) : Option Symbol := r.settled.find? typeName

/-- Settles the symbol of a type name, unless that happened in the meantime. -/
def settle (r : Registry) (typeName : String) : Except Error Symbol × Registry :=
  match r.get? typeName with
  | none => (.error (.unknownEntity typeName), r)
  | some e =>
    match r.lookup? typeName with
    | some s => (.ok s, r)
    | none =>
      let s := r.symbolOf e
      (.ok s, { r with settled := r.settled.insert typeName s })

/-- The symbol of a type name. -/
def resolve (r : Registry) (typeName : String) : Except Error Symbol × Registry :=
  match r.lookup? typeName with
  | some s => (.ok s, r)
  | none => r.settle typeName

/-- The symbol of a reference, as a type where the reference asks for it. -/
def resolveUse (r : Registry) (ref : EntityUse) : Except Error Symbol × Registry :=
  let (s, r') := r.resolve ref.typeName
  (s.map fun s => s.usedAs ref.typeOnly, r')

end Registry

end ModuleAssembly
