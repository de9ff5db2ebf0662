import ModuleAssembly.Import.Identifier
import ModuleAssembly.Import.Path
import ModuleAssembly.Import.Statement
import ModuleAssembly.Text.Lowercase

/-!
# Import resolution

The imports of a module follow from its body. Symbols at home in the module keep their declared
names. Every other symbol is imported once and gets an identifier that nothing else in the module
has. `Resolution.ofTokens` gives the import statements and the identifier of every symbol.

The statements are grouped by home, in the order in which the homes first occur. A home has one
statement for the names that are used as types only and one for the others.
-/

set_option autoImplicit false

namespace ModuleAssembly
/-- The imports of a module and the identifier of each of its symbols. -/
structure Resolution where
  statements : List ImportStatement
  identifiers : List (SymbolKey × String)
deriving DecidableEq

namespace Resolution

/-! ## Results -/

/-- A module without symbols. -/
def empty : Resolution := ⟨[], []⟩

/-- The identifier of a symbol. -/
def identifier? (r : Resolution) (s : Symbol) : Option String := r.identifiers.lookup s.key

/-- The written import statements, each on a line of its own. -/
def block (r : Resolution) : String := String.join (r.statements.map fun s => s.text ++ "\n")

/-! ## The symbols of a body -/

/-- The symbols in a list of tokens, in order. -/
def symbols (tokens : List Token) : List Symbol := tokens.filterMap Token.symbol?

/-- The identities of the symbols that the module at `path` declares itself, each once. -/
def localKeys (path : String) (ss : List Symbol) : List SymbolKey :=
  ((ss.filter fun s => s.isLocalTo path).map Symbol.key).eraseDups

/-- The identities of the symbols that the module at `path` has to import, each once, in the order
of their first occurrence. -/
def foreignKeys (path : String) (ss : List Symbol) : List SymbolKey :=
  ((ss.filter fun s => !s.isLocalTo path).map Symbol.key).eraseDups

/-- Some reference needs more than the type. -/
def isValue (ss : List Symbol) (key : SymbolKey) : Bool :=
  ss.any fun s => s.key == key && !s.typeOnly

/-! ## Statements -/

/-- The entry of a symbol in an import statement: the alias is written when it differs from the
declared name. -/
def importEntry (entry : SymbolKey × String) : ImportEntry :=
  ⟨entry.1.name, if entry.2 = entry.1.name then none else some entry.2⟩

/-- A statement for these symbols, or none when there are no symbols. -/
def statement? (lower : String → String) (typeOnly : Bool) (source : String)
    (entries : List (SymbolKey × String)) : Option ImportStatement :=
  if entries.isEmpty then none
  else some ⟨typeOnly, source, ImportEntry.sort lower (entries.map importEntry)⟩

/-- The statements that import from one home, types first. -/
def statementsFor (lower : String → String) (path : String) (ss : List Symbol)
    (entries : List (SymbolKey × String)) (home : String) : List ImportStatement :=
  let here := entries.filter fun e => e.1.home == home
  let source := ImportPath.relativeTo path home
  (statement? lower true source (here.filter fun e => !isValue ss e.1)).toList
    ++ (statement? lower false source (here.filter fun e => isValue ss e.1)).toList

/-! ## The imports of a module -/

/-- The imports of the module at `path` with the given body, for any lower-casing of names. -/
def ofTokensWith (lower : String → String) (path : String) (tokens : List Token) :
    Except Error Resolution := do
  let ss := symbols tokens
  let own := localKeys path ss
  let foreign := foreignKeys path ss
  let entries ← assign (own.map SymbolKey.name) foreign
  let homes := (foreign.map SymbolKey.home).eraseDups
  .ok ⟨homes.flatMap (statementsFor lower path ss entries),
    own.map (fun key => (key, key.name)) ++ entries⟩

/-- The imports of the module at `path` with the given body. -/
def ofTokens (path : String) (tokens : List Token) : Except Error Resolution :=
  ofTokensWith Text.lowercase path tokens

end Resolution

end ModuleAssembly
