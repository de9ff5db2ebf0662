import ModuleAssembly.Entity.Naming
import ModuleAssembly.Error
import ModuleAssembly.Text.Blank

/-!
# Settings

The settings of a run, and the parameter string that changes them. A parameter string is a list
of options separated by commas; blanks around an option do not count, and neither do empty
options. An option is a key, or a key and a value with an equals sign in between. The options take
effect one by one, so those in front of a refused one stay in effect. A string that is accepted is
kept for the banner of the generated modules.
-/

set_option autoImplicit false

namespace ModuleAssembly

/-- The settings of a run. -/
structure Settings where
  pluginName : String := "protoc-gen-es"
  pluginVersion : String := "v0.2.1"
  /-- The last accepted parameter string that was not empty. -/
  parameter : Option String := none
  /-- The extension of modules that are named after a schema file. -/
  target : Option String := none
  keepEmptyFiles : Bool := false
  tsNocheck : Bool := true
  eslintDisable : Bool := true
  importExtension : String := ".js"
  fileSuffix : String := "_pb"
  runtimePackage : String := "@bufbuild/protobuf"
deriving DecidableEq

namespace Settings

/-- The names of modules under these settings. -/
def naming (s : Settings) : Naming := ⟨s.fileSuffix, s.importExtension⟩

/-! ## Options -/

/-- The key and the value of an option: what stands before and behind the first equals sign. -/
def keyAndValue (option : List Char) : String × String :=
  (String.ofList (option.takeWhile fun c => c != '='),
    String.ofList ((option.dropWhile fun c => c != '=').drop 1))

/-- The truth value of a switch; a switch without a value is on. -/
def readSwitch (key value : String) : Except ParameterError Bool :=
  if value = "" ∨ value = "true" ∨ value = "1" then .ok true
  else if value = "false" ∨ value = "0" then .ok false
  else .error (.notBoolean key value)

/-- The settings after one option. -/
def withOption (s : Settings) (key value : String) : Except ParameterError Settings :=
  if key = "keep_empty_files" then
    (readSwitch key value).map fun b => { s with keepEmptyFiles := b }
  else if key = "ts_nocheck" then
    (readSwitch key value).map fun b => { s with tsNocheck := b }
  else if key = "eslint_disable" then
    (readSwitch key value).map fun b => { s with eslintDisable := b }
  else if key = "import_extension" then
    .ok { s with importExtension := if value = "none" then "" else value }
  else if key = "target" then
    if value = "" then .error .missingTarget else .ok { s with target := some value }
  else .error (.unknownOption key)

/-- The settings after a list of options, and the error that ended it. -/
def withOptions (s : Settings) : List (List Char) → Settings × Option ParameterError
  | [] => (s, none)
  | option :: rest =>
    let (key, value) := keyAndValue option
    match s.withOption key value with
    | .ok s' => withOptions s' rest
    | .error e => (s, some e)

/-! ## Parameters -/

/-- The options of a parameter string. -/
def options (parameter : String) : List (List Char) :=
  ((parameter.toList.splitOn ',').map Text.trim).filter fun cs => !cs.isEmpty

/-- The settings after a parameter string, and the reason why it was refused. -/
def apply (s : Settings) (parameter : String) : Settings × Option ParameterError :=
  match s.withOptions (options parameter) with
  | (s', some e) => (s', some e)
  | (s', none) =>
    (if parameter = "" then s' else { s' with parameter := some parameter }, none)

/-- The settings after a parameter string that has to be accepted. -/
def applied (s : Settings) (parameter : String) : Except Error Settings :=
  match s.apply parameter with
  | (_, some e) => .error (.invalidParameter e)
  | (s', none) => .ok s'

end Settings

end ModuleAssembly
