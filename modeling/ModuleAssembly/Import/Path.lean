/-!
# Import paths

An import path names a module, either by its place in the project (`./a/b.js`) or as a package
(`@scope/name`). Project paths are written into a module relative to the directory of that module:
up as many levels as its directory lies below the common ancestor, then down to the target.
Package paths are written as they are. `follow` says where a path leads, and so what it means for a
path to lead back to its target.
-/

set_option autoImplicit false

namespace ModuleAssembly.ImportPath

/-- The path names a place in the project. -/
def isRelative (path : String) : Bool := path.startsWith "./" || path.startsWith "../"

/-- The characters of a path without one leading `./`. -/
def withoutDot : List Char → List Char
  | '.' :: '/' :: rest => rest
  | cs => cs

/-- The non-empty segments of a path, leaving out one leading `./`. -/
def segments (path : String) : List String :=
  (((withoutDot path.toList).splitOn '/').filter fun cs => !cs.isEmpty).map String.ofList

/-- The number of segments two lists have in common at their front. -/
def commonLength : List String → List String → Nat
  | a :: as, b :: bs => if a = b then commonLength as bs + 1 else 0
  | _, _ => 0

/-- The segments that lead from the directory `source` to `target`. -/
def route (source target : List String) : List String :=
  let shared := commonLength source target
  List.replicate (source.length - shared) ".." ++ target.drop shared

/-- The path written in the module at `importer` to import the module at `path`. -/
def relativeTo (importer path : String) : String :=
  if isRelative path then
    let joined := "/".intercalate (route (segments importer).dropLast (segments path))
    if isRelative joined then joined else "./" ++ joined
  else path

/-! ## Following a path -/

/-- Where one segment leads from a place, which is given by its segments, last one first. A dot
stays, two dots go up one level, and every other segment goes down. Above the root there is one
more level for every two dots. -/
def enter (place : List String) (segment : String) : List String :=
  if segment = "." then place
  else if segment = ".." then
    match place with
    | [] => [".."]
    | last :: up => if last = ".." then ".." :: place else up
  else segment :: place

/-- Where segments lead from a place. -/
def follow (place route : List String) : List String := route.foldl enter place

/-- The place in the project that a project path names. -/
def place (path : String) : List String := follow [] (segments path)

end ModuleAssembly.ImportPath
