import ModuleAssembly.Text.Affix

/-!
# Entities

An entity is a message or an enum that a schema file declares. Its type name is qualified by the
package of the schema; the name it is declared under in the generated module leaves the package
out and joins the rest of the qualified name by underscores.
-/

set_option autoImplicit false

namespace ModuleAssembly

/-- What an entity is. -/
inductive EntityKind where
  | message
  | enum
deriving DecidableEq

/-- The name of a kind. -/
def EntityKind.name : EntityKind → String
  | .message => "message"
  | .enum => "enum"

/-- A message or an enum of a schema file. -/
structure Entity where
  typeName : String
  kind : EntityKind
  file : String
  package : Option String := none
deriving DecidableEq

namespace Entity

/-- The type name without the package in front of it. A package counts only if a dot follows it. -/
def unqualified (e : Entity) : List Char :=
  let full := e.typeName.toList
  match e.package with
  | none => full
  | some package =>
    if package = "" then full
    else ((Text.dropFront? package.toList full).bind (Text.dropFront? ['.'])).getD full

/-- The name under which the generated module declares the entity. -/
def localName (e : Entity) : String :=
  String.ofList (e.unqualified.map fun c => if c = '.' then '_' else c)

end Entity

/-- A reference to an entity by its type name. -/
structure EntityUse where
  typeName : String
  typeOnly : Bool := false
deriving DecidableEq

end ModuleAssembly
