import ModuleAssembly.Import.Resolution
import ModuleAssembly.Preamble
import ModuleAssembly.Body.Item

/-!
# Output files

An output file collects the body of a module as tokens, line by line, and a preamble. A line is
added as a whole or not at all. When the file is finished its imports are resolved and its parts
are put together: the preamble, the import statements, and the body with every symbol replaced by
its identifier. A file with an empty body gives no artifact unless it is to be kept.
-/

set_option autoImplicit false

namespace ModuleAssembly

/-! ## Assembly -/

/-- The final text of a module. -/
structure Artifact where
  name : String
  content : String
deriving DecidableEq

/-- The written form of a token. A symbol that was not resolved keeps its declared name. -/
def Resolution.written (r : Resolution) : Token → String
  | .text s => s
  | .symbol s => (r.identifier? s).getD s.name

/-- The written form of a body. -/
def Resolution.body (r : Resolution) (tokens : List Token) : String :=
  String.join (tokens.map r.written)

/-- A preamble with one blank line behind it. -/
def preambleBlock : Option String → String
  | none => ""
  | some s => (if s.toList.getLast? = some '\n' then s else s ++ "\n") ++ "\n"

/-- The import statements with one blank line behind them. -/
def importBlock (r : Resolution) : String := if r.block = "" then "" else r.block ++ "\n"

/-- The text of a module, unless it is empty and not to be kept. -/
def assemble (preamble : Option String) (r : Resolution) (tokens : List Token)
    (keepEmpty : Bool) : Option String :=
  if r.body tokens = "" ∧ keepEmpty = false then none
  else some (preambleBlock preamble ++ importBlock r ++ r.body tokens)

/-! ## Files -/

/-- A module that is being written. -/
structure OutputFile where
  name : String
  importPath : String
  preamble : Option String := none
  tokens : List Token := []
  keepEmpty : Bool
deriving DecidableEq

namespace OutputFile

/-- A file without content. -/
def create (settings : Settings) (name importPath : String) : OutputFile :=
  { name, importPath, keepEmpty := settings.keepEmptyFiles }

/-- The file with the preamble of a schema file. -/
def withPreamble (f : OutputFile) (settings : Settings) (schema : Schema) : OutputFile :=
  { f with preamble := some (Preamble.text settings schema) }

/-- The file with another answer to whether it is kept when it is empty. -/
def withKeepEmpty (f : OutputFile) (keepEmpty : Bool) : OutputFile := { f with keepEmpty }

/-- The file with more tokens at the end of its body. -/
def append (f : OutputFile) (tokens : List Token) : OutputFile :=
  { f with tokens := f.tokens ++ tokens }

/-! ## Lines -/

/-- The tokens of a line: those of its items, and a line break. -/
def lineTokens (lib : RuntimeLibrary) (items : List Item) : Inquiry (List Token) := do
  let tokens ← (Item.seq items).tokens lib
  pure (tokens ++ [.text "\n"])

/-- Adds a line. -/
def print (f : OutputFile) (lib : RuntimeLibrary) (items : List Item) :
    Inquiry OutputFile := do
  let tokens ← lineTokens lib items
  pure (f.append tokens)

/-- Adds lines one by one. -/
def printAll (f : OutputFile) (lib : RuntimeLibrary) : List (List Item) → Inquiry OutputFile
  | [] => pure f
  | items :: rest => do
    let f' ← f.print lib items
    printAll f' lib rest

/-- Fragments and values in turn, starting with a fragment. -/
def interleave : List String → List Item → List Item
  | [], _ => []
  | s :: fragments, [] => .text s :: interleave fragments []
  | s :: fragments, p :: values => .text s :: p :: interleave fragments values

/-- The items of a template: there is one value between any two fragments. -/
def templateItems (fragments : List String) (values : List Item) :
    Except Error (List Item) :=
  if values.length < fragments.length - 1 then .error (.unsupported "missing template value")
  else if fragments.length - 1 < values.length then
    .error (.unsupported "extra template value")
  else .ok (interleave fragments values)

/-- Adds a line that is given as a template. -/
def printTemplate (f : OutputFile) (lib : RuntimeLibrary) (fragments : List String)
    (values : List Item) : Inquiry OutputFile := do
  let items ← Inquiry.ofExcept (templateItems fragments values)
  f.print lib items

/-! ## Symbols -/

/-- A name that this file declares. -/
def exported (f : OutputFile) (name : String) : Symbol := ⟨name, f.importPath, false⟩

/-! ## Finishing -/

/-- The imports of the file. -/
def resolution (f : OutputFile) : Except Error Resolution :=
  Resolution.ofTokens f.importPath f.tokens

/-- The finished module; there is none for an empty file that is not kept. -/
def artifact? (f : OutputFile) : Except Error (Option Artifact) := do
  let r ← f.resolution
  .ok ((assemble f.preamble r f.tokens f.keepEmpty).map fun content => ⟨f.name, content⟩)

end OutputFile

end ModuleAssembly
