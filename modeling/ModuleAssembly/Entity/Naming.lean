import ModuleAssembly.Text.Affix

/-!
# Names of modules

Where the module of a schema file is written and how it is imported. The name of the module is the
name of the schema file without its extension, with a suffix. A module is imported by its name
without the file extension, with the import extension in its place.
-/

set_option autoImplicit false

namespace ModuleAssembly

/-- How generated modules are named. -/
structure Naming where
  /-- Put behind the name of the schema file. -/
  suffix : String
  /-- Put behind the name of a module to import it. -/
  importExtension : String
deriving DecidableEq

namespace Naming

/-- The name of a schema file without its extension. -/
def stem (schemaFile : String) : String :=
  String.ofList (Text.withoutBack ".proto".toList schemaFile.toList)

/-- The import path of the module of a schema file. -/
def importPath (n : Naming) (schemaFile : String) : String :=
  "./" ++ stem schemaFile ++ n.suffix ++ n.importExtension

/-- The name of the module of a schema file, with a file extension. -/
def outputName (n : Naming) (schemaFile extension : String) : String :=
  stem schemaFile ++ n.suffix ++ "." ++ extension

/-- The name of an output file without its extension. A dot before the last slash starts no
extension. -/
def outputStem (name : String) : String :=
  let reversed := name.toList.reverse
  match reversed.dropWhile fun c => c != '.' with
  | [] => name
  | _ :: front =>
    if '/' ∈ reversed.takeWhile fun c => c != '.' then name else String.ofList front.reverse

/-- The import path of an output file. -/
def outputPath (n : Naming) (name : String) : String :=
  "./" ++ outputStem name ++ n.importExtension

end Naming

end ModuleAssembly
