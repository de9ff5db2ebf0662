import ModuleAssembly.Text.Affix
import ModuleAssembly.Text.Quoted

/-!
# Import statements

An import statement names the module it imports from and the names it imports, each with the alias
it is bound to if that is not the name itself. Names within a statement are in the order of their
lower-case forms, and of the names themselves where those agree. `ImportStatement.read?` takes the
written form of a statement apart again.
-/

set_option autoImplicit false

namespace ModuleAssembly

/-! ## Names -/

/-- A name in an import statement, with the alias it is bound to if not itself. -/
structure ImportEntry where
  name : String
  renamed : Option String := none
deriving DecidableEq

namespace ImportEntry

/-- The identifier that the module uses for the imported name. -/
def bound (n : ImportEntry) : String := n.renamed.getD n.name

/-- The written form. -/
def text (n : ImportEntry) : String :=
  match n.renamed with
  | some other => n.name ++ " as " ++ other
  | none => n.name

/-- Reads the written form of an entry, whose names hold no space. -/
def read? (cs : List Char) : Option ImportEntry :=
  match cs.splitOn ' ' with
  | [name] => some ⟨String.ofList name, none⟩
  | [name, ['a', 's'], other] => some ⟨String.ofList name, some (String.ofList other)⟩
  | _ => none

/-- The order of names within a statement: by the lower-case form, then by the name itself. -/
def before (lower : String → String) (a b : ImportEntry) : Bool :=
  if lower a.name = lower b.name then decide (a.name ≤ b.name)
  else decide (lower a.name ≤ lower b.name)

/-- Puts a name in front of the first one that it does not come after. -/
def insert (lower : String → String) (n : ImportEntry) : List ImportEntry → List ImportEntry
  | [] => [n]
  | m :: rest => if n.before lower m then n :: m :: rest else m :: insert lower n rest

/-- The names in their order within a statement. -/
def sort (lower : String → String) (names : List ImportEntry) : List ImportEntry :=
  names.foldr (insert lower) []

end ImportEntry

/-! ## Statements -/

/-- An import statement. -/
structure ImportStatement where
  typeOnly : Bool
  source : String
  names : List ImportEntry
deriving DecidableEq

/-- The written form, without a line break. -/
def ImportStatement.text (s : ImportStatement) : String :=
  (if s.typeOnly then "import type " else "import ") ++ "\x7b"
    ++ ", ".intercalate (s.names.map ImportEntry.text) ++ "\x7d from "
    ++ Text.Quoted.write s.source ++ ";"

namespace ImportStatement

/-- Reads the names between the braces: entries with a comma and a space between them. -/
def readEntries? (cs : List Char) : Option (List ImportEntry) :=
  match cs.splitOn ',' with
  | [] => none
  | first :: rest => do
    let e ← ImportEntry.read? first
    let es ← rest.mapM fun part => (Text.dropFront? [' '] part).bind ImportEntry.read?
    some (e :: es)

/-- Reads what follows the keywords: the names in braces, and the source as a literal. -/
def readTail? (typeOnly : Bool) (cs : List Char) : Option ImportStatement := do
  let inner ← Text.dropFront? ['\x7b'] cs
  let names ← readEntries? (inner.takeWhile fun c => c != '\x7d')
  let rest ← Text.dropFront? "\x7d from ".toList (inner.dropWhile fun c => c != '\x7d')
  match Text.Quoted.readChars rest with
  | some (source, [';']) => some ⟨typeOnly, String.ofList source, names⟩
  | _ => none

/-- Reads the written form of a statement whose names hold neither spaces nor punctuation. -/
def read? (line : String) : Option ImportStatement := do
  let rest ← Text.dropFront? "import ".toList line.toList
  match Text.dropFront? "type ".toList rest with
  | some rest => readTail? true rest
  | none => readTail? false rest

end ImportStatement

end ModuleAssembly
