import ModuleAssembly.Error

/-!
# File trees

A file tree holds text files by the places where they lie, and a working directory. Opening a path
in it follows the segments of the path one by one, from the root or from the working directory.
The first segment that leads nowhere decides why a path cannot be opened, whatever stands behind
it; only the length of the path as a whole is looked at before its segments are.
-/

set_option autoImplicit false

namespace ModuleAssembly

/-- Text files, each with the segments that lead to it from the root, and a working directory. -/
structure FileTree where
  files : List (List String × String)
  home : List String := []

namespace FileTree

/-! ## Limits -/

/-- The greatest number of bytes in a segment. -/
def segmentLimit : Nat := 255

/-- The greatest number of bytes in a path. -/
def pathLimit : Nat := 4095

/-! ## Nodes -/

/-- What a path leads to. -/
inductive Node where
  | directory (place : List String)
  | file (content : String)
deriving DecidableEq

/-- There is a directory at every place above a file, and at and above the working directory. -/
def isDirectory (t : FileTree) (place : List String) : Bool :=
  place.isPrefixOf t.home || t.files.any fun f => place.isPrefixOf f.1

/-- What lies at a place. -/
def node (t : FileTree) (place : List String) : Except ReadError Node :=
  match t.files.lookup place with
  | some content => .ok (.file content)
  | none => if t.isDirectory place then .ok (.directory place) else .error .notFound

/-! ## Following a path -/

/-- The segments of a path. A slash at either end has an empty segment beside it. -/
def segments (path : String) : List String := (path.toList.splitOn '/').map String.ofList

/-- Where a segment leads. An empty segment and a dot stay in their directory, and two dots go up
one level, but not above the root. No segment leads on from a file. -/
def step (t : FileTree) (segment : String) : Node → Except ReadError Node
  | .file _ => .error .notADirectory
  | .directory place =>
    if segment = "" ∨ segment = "." then .ok (.directory place)
    else if segment = ".." then .ok (.directory place.dropLast)
    else if segmentLimit < segment.utf8ByteSize then .error .nameTooLong
    else t.node (place ++ [segment])

/-- Where segments lead, one after the other. -/
def follow (t : FileTree) : Node → List String → Except ReadError Node
  | n, [] => .ok n
  | n, segment :: rest => do
    let next ← t.step segment n
    t.follow next rest

/-- Where a path starts: at the root if it begins with a slash. -/
def start (t : FileTree) (path : String) : Node :=
  .directory (if path.startsWith "/" then [] else t.home)

/-- What a path leads to. -/
def find (t : FileTree) (path : String) : Except ReadError Node :=
  if path = "" then .error .notFound
  else if pathLimit < path.utf8ByteSize then .error .nameTooLong
  else t.follow (t.start path) (segments path)

/-- The text of the file that a path leads to. -/
def read (t : FileTree) (path : String) : Except ReadError String := do
  match ← t.find path with
  | .file content => .ok content
  | .directory _ => .error .isDirectory

end FileTree

end ModuleAssembly
