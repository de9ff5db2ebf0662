import ModuleAssembly.Manifest

/-!
# Runs

A run has settings, a registry and a runtime library. It opens output files, named directly or
after a schema file, and collects finished files into an output with a manifest. The first error
ends a collection.
-/

set_option autoImplicit false

namespace ModuleAssembly

/-- What all files of a run share, apart from the registry. -/
structure Run where
  settings : Settings
deriving DecidableEq

/-- The artifacts of a run and their manifest. -/
structure Output where
  files : List Artifact
  manifest : Manifest
deriving DecidableEq

namespace Run

/-- The runtime library of the run. -/
def library (run : Run) : RuntimeLibrary := ⟨run.settings.runtimePackage⟩

/-- The names of the run's modules. -/
def naming (run : Run) : Naming := run.settings.naming

/-- The registry of a run with the given entities. -/
def registry (run : Run) (entities : List Entity) : Registry :=
  Registry.ofEntities run.naming entities

/-! ## Opening files -/

/-- The import path of an output file. -/
def importPathOf (run : Run) (name : String) : String := run.naming.outputPath name

/-- A new file with the given name. -/
def openFile (run : Run) (name : String) : OutputFile :=
  OutputFile.create run.settings name (run.importPathOf name)

/-- A new file with the given name and import path. -/
def openFileAt (run : Run) (name importPath : String) : OutputFile :=
  OutputFile.create run.settings name importPath

/-- The extension of files that are named after a schema file. -/
def extension (run : Run) : String := run.settings.target.getD "ts"

/-- A new file named after a schema file, with its preamble. -/
def openFileFor (run : Run) (schema : Schema) : OutputFile :=
  (run.openFile (run.naming.outputName schema.name run.extension)).withPreamble run.settings schema

/-! ## Collecting files -/

/-- The artifacts of files, up to the first error. -/
def artifacts : List OutputFile → Except Error (List Artifact)
  | [] => .ok []
  | f :: rest => do
    let a ← f.artifact?
    let as ← artifacts rest
    .ok (a.toList ++ as)

/-- The output of a run with the given artifacts. -/
def output (run : Run) (as : List Artifact) : Output :=
  ⟨as, Manifest.ofArtifacts run.settings.pluginName run.settings.pluginVersion as⟩

/-- The output of a run with the given files. -/
def collect (run : Run) (files : List OutputFile) : Except Error Output :=
  (artifacts files).map run.output

end Run

end ModuleAssembly
