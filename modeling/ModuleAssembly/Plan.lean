import ModuleAssembly.Run

/-!
# Plans

A plan is a whole run written down: the settings, the entities, and the lines of every file as
JSON values. Running a plan prints all files line by line and then collects them. The first error
ends the run.
-/

set_option autoImplicit false

namespace ModuleAssembly

/-- A file of a plan. -/
structure PlannedFile where
  name : String
  schema : Option Schema := none
  keepEmpty : Option Bool := none
  lines : List Json := []

/-- A run written down. -/
structure Plan where
  settings : Settings := {}
  entities : List Entity := []
  files : List PlannedFile := []

namespace PlannedFile

/-- The file before anything is printed. -/
def start (p : PlannedFile) (run : Run) : OutputFile :=
  let f := run.openFile p.name
  let f := match p.schema with
    | some schema => f.withPreamble run.settings schema
    | none => f
  match p.keepEmpty with
  | some keepEmpty => f.withKeepEmpty keepEmpty
  | none => f

/-- Prints a JSON value as one line. -/
def printLine (lib : RuntimeLibrary) (f : OutputFile) (line : Json) : Inquiry OutputFile := do
  let p ← Inquiry.ofExcept (Item.ofJson f.importPath line)
  f.print lib [p]

/-- Prints JSON values line by line. -/
def printLines (lib : RuntimeLibrary) (f : OutputFile) : List Json → Inquiry OutputFile
  | [] => pure f
  | line :: rest => do
    let f' ← printLine lib f line
    printLines lib f' rest

/-- The file with all its lines. -/
def build (p : PlannedFile) (run : Run) : Inquiry OutputFile :=
  printLines run.library (p.start run) p.lines

end PlannedFile

namespace Plan

/-- The files with all their lines. -/
def build (run : Run) : List PlannedFile → Inquiry (List OutputFile)
  | [] => pure []
  | p :: rest => do
    let f ← p.build run
    let fs ← build run rest
    pure (f :: fs)

/-- The settings of a plan after an optional parameter string. -/
def effectiveSettings (plan : Plan) : Option String → Except Error Settings
  | none => .ok plan.settings
  | some parameter => plan.settings.applied parameter

/-- The output of a plan, with an optional parameter string that changes its settings. -/
def output (plan : Plan) (parameter : Option String) : Except Error Output := do
  let settings ← plan.effectiveSettings parameter
  let run : Run := ⟨settings⟩
  let files ← ((build run plan.files).run (run.registry plan.entities)).1
  run.collect files

end Plan

end ModuleAssembly
