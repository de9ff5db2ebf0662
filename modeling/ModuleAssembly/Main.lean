import ModuleAssembly.Command

/-!
# The program

Reads the arguments and the plan file, and writes the reply.
-/

set_option autoImplicit false

open ModuleAssembly

/-- The reason why a file could not be opened or read. -/
def readErrorOf : IO.Error → ReadError
  | .inappropriateType _ code _ => if code = 21 then .isDirectory else .notADirectory
  | .invalidArgument .. => .nameTooLong
  | .permissionDenied .. => .denied
  | _ => .notFound

/-- The text of a file. -/
def readText (path : String) : IO (Except ReadError String) := do
  try
    let bytes ← IO.FS.readBinFile path
    match String.fromUTF8? bytes with
    | some s => return .ok s
    | none => return .error .notUtf8
  catch e => return .error (readErrorOf e)

/-- The entry point. -/
def main (args : List String) : IO UInt32 := do
  match Command.parse args with
  | none => do
    IO.eprintln "usage: [--plan FILE] entities"
    IO.eprintln "       [--plan FILE] generate [--parameter TEXT] [--manifest-only]"
    return 2
  | some command => do
    let content ← readText command.plan
    let reply := command.reply content
    IO.print reply.output
    return reply.code.toUInt32
