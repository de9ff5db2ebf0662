import ModuleAssembly.Json.Fault

/-!
# Errors

The causes for which an assembly stops, and the wording of each in one place.
-/

set_option autoImplicit false

namespace ModuleAssembly

/-- Why a parameter string is refused. -/
inductive ParameterError where
  /-- A switch has a value that is neither true nor false. -/
  | notBoolean (key value : String)
  /-- The target is empty. -/
  | missingTarget
  /-- No option has this name. -/
  | unknownOption (key : String)
deriving DecidableEq

/-- Why a file cannot be read as text. -/
inductive ReadError where
  | notFound
  | isDirectory
  | notADirectory
  /-- A path, or a segment of it, has too many bytes. -/
  | nameTooLong
  | denied
  | notUtf8
deriving DecidableEq

/-- Why an assembly stops. -/
inductive Error where
  /-- There is no printed form for a value of this kind. -/
  | unsupported (kind : String)
  /-- A name is imported from nowhere. -/
  | missingSource (name : String)
  /-- Every alias of a name is taken. -/
  | aliasExhaustion (name : String)
  /-- No entity has this type name. -/
  | unknownEntity (typeName : String)
  | invalidParameter (cause : ParameterError)
  /-- A text is not the JSON value it should be. -/
  | serialization (fault : Fault)
  /-- A file cannot be read. -/
  | unreadable (cause : ReadError)
deriving DecidableEq

/-- The wording of a refused parameter. -/
def ParameterError.message : ParameterError → String
  | .notBoolean key value => key ++ "=" ++ value ++ ": expected true or false"
  | .missingTarget => "target requires a value"
  | .unknownOption key => "unknown option \"" ++ key ++ "\""

/-- The wording of a file that cannot be read. -/
def ReadError.message : ReadError → String
  | .notFound => "No such file or directory (os error 2)"
  | .isDirectory => "Is a directory (os error 21)"
  | .notADirectory => "Not a directory (os error 20)"
  | .nameTooLong => "File name too long (os error 36)"
  | .denied => "Permission denied (os error 13)"
  | .notUtf8 => "stream did not contain valid UTF-8"

/-- The wording of an error. -/
def Error.message : Error → String
  | .unsupported kind => "Cannot print value of kind " ++ kind
  | .missingSource name => "Import of " ++ name ++ " requested without a source path"
  | .aliasExhaustion name => "Ran out of alias suffixes for " ++ name
  | .unknownEntity typeName => "Unknown entity: " ++ typeName
  | .invalidParameter cause => "Invalid plugin parameter: " ++ cause.message
  | .serialization fault => "Serialization error: " ++ fault.message
  | .unreadable cause => "I/O error: " ++ cause.message

end ModuleAssembly
