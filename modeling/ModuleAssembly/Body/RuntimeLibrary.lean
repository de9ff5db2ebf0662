import ModuleAssembly.Body.Symbol

/-!
# The runtime library

The symbols of the package that generated modules build on. Half of them are interfaces, which a
module only ever uses as types.
-/

set_option autoImplicit false

namespace ModuleAssembly

/-- A symbol of the runtime library. -/
inductive RuntimeName where
  | message
  | proto2
  | proto3
  | protoInt64
  | partialMessage
  | plainMessage
  | fieldList
  | binaryReadOptions
  | jsonReadOptions
  | jsonValue
deriving DecidableEq

namespace RuntimeName

/-- All symbols of the library. -/
def all : List RuntimeName :=
  [message, proto2, proto3, protoInt64, partialMessage, plainMessage, fieldList,
    binaryReadOptions, jsonReadOptions, jsonValue]

/-- The name under which the library declares the symbol. -/
def declared : RuntimeName → String
  | message => "Message"
  | proto2 => "proto2"
  | proto3 => "proto3"
  | protoInt64 => "protoInt64"
  | partialMessage => "PartialMessage"
  | plainMessage => "PlainMessage"
  | fieldList => "FieldList"
  | binaryReadOptions => "BinaryReadOptions"
  | jsonReadOptions => "JsonReadOptions"
  | jsonValue => "JsonValue"

/-- The symbol is an interface. -/
def isInterface : RuntimeName → Bool
  | message | proto2 | proto3 | protoInt64 => false
  | _ => true

end RuntimeName

/-- The runtime library of a run: the package it is imported from. -/
structure RuntimeLibrary where
  package : String
deriving DecidableEq

/-- A symbol of the library, as a type if it is an interface. -/
def RuntimeLibrary.symbol (lib : RuntimeLibrary) (name : RuntimeName) : Symbol :=
  ⟨name.declared, lib.package, name.isInterface⟩

end ModuleAssembly
