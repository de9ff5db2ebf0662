import ModuleAssembly.Json.Decoder
import ModuleAssembly.Json.Printer
import ModuleAssembly.Plan

/-!
# JSON formats

How settings, schema files, entities, artifacts and plans are written as JSON. Every record has a
decoder and an encoder. The encoder writes every field; a field that is absent is written as null.
-/

set_option autoImplicit false

namespace ModuleAssembly

open Decoder (text flag optional list)

/-- A text that may be absent. -/
def Json.ofOption (s : Option String) : Json :=
  match s with
  | some s => .string s
  | none => .null

/-! ## Settings -/

namespace Settings

/-- The format of settings: every field has a default. -/
def format : Record Settings where
  blank := {}
  fields :=
    [.of "pluginName" false text fun s v => { s with pluginName := v },
     .of "pluginVersion" false text fun s v => { s with pluginVersion := v },
     .of "parameter" false (optional text) fun s v => { s with parameter := v },
     .of "target" false (optional text) fun s v => { s with target := v },
     .of "keepEmptyFiles" false flag fun s v => { s with keepEmptyFiles := v },
     .of "tsNocheck" false flag fun s v => { s with tsNocheck := v },
     .of "eslintDisable" false flag fun s v => { s with eslintDisable := v },
     .of "importExtension" false text fun s v => { s with importExtension := v },
     .of "fileSuffix" false text fun s v => { s with fileSuffix := v },
     .of "runtimePackage" false text fun s v => { s with runtimePackage := v }]

/-- The settings as a JSON value. -/
def toJson (s : Settings) : Json :=
  .object
    [("eslintDisable", .bool s.eslintDisable), ("fileSuffix", .string s.fileSuffix),
     ("importExtension", .string s.importExtension), ("keepEmptyFiles", .bool s.keepEmptyFiles),
     ("parameter", Json.ofOption s.parameter), ("pluginName", .string s.pluginName),
     ("pluginVersion", .string s.pluginVersion), ("runtimePackage", .string s.runtimePackage),
     ("target", Json.ofOption s.target), ("tsNocheck", .bool s.tsNocheck)]

end Settings

/-! ## Schema files -/

namespace Comments

/-- The format of comments. -/
def format : Record Comments where
  blank := {}
  fields :=
    [.of "leadingDetached" false (list text) fun c v => { c with detached := v },
     .of "leading" false text fun c v => { c with leading := v }]

/-- The comments as a JSON value. -/
def toJson (c : Comments) : Json :=
  .object
    [("leading", .string c.leading), ("leadingDetached", .array (c.detached.map .string))]

end Comments

namespace Schema

/-- The format of a schema file; its name has to be there. -/
def format : Record Schema where
  blank := { name := "" }
  fields :=
    [.of "name" true text fun s v => { s with name := v },
     .of "package" false (optional text) fun s v => { s with package := v },
     .of "syntax" false text fun s v => { s with edition := v },
     .of "syntaxComments" false Comments.format.decoder fun s v => { s with editionComments := v },
     .of "packageComments" false Comments.format.decoder
      fun s v => { s with packageComments := v }]

/-- The schema file as a JSON value. -/
def toJson (s : Schema) : Json :=
  .object
    [("name", .string s.name), ("package", Json.ofOption s.package),
     ("packageComments", s.packageComments.toJson), ("syntax", .string s.edition),
     ("syntaxComments", s.editionComments.toJson)]

end Schema

/-! ## Entities -/

/-- The kinds by their names. -/
def EntityKind.names : List (String × EntityKind) := [("message", .message), ("enum", .enum)]

namespace Entity

/-- The format of an entity; only its package may be left out. -/
def format : Record Entity where
  blank := { typeName := "", kind := .message, file := "" }
  fields :=
    [.of "typeName" true text fun e v => { e with typeName := v },
     .of "kind" true (Decoder.choice EntityKind.names) fun e v => { e with kind := v },
     .of "file" true text fun e v => { e with file := v },
     .of "package" false (optional text) fun e v => { e with package := v }]

/-- The entity as a JSON value. -/
def toJson (e : Entity) : Json :=
  .object
    [("file", .string e.file), ("kind", .string e.kind.name), ("package", Json.ofOption e.package),
     ("typeName", .string e.typeName)]

/-- The entities of a list in JSON text. -/
def listOfText (source : String) : Except Error (List Entity) :=
  ((list format.decoder).ofText source).mapError .serialization

end Entity

/-- The format of a reference to an entity. -/
def EntityUse.format : Record EntityUse where
  blank := { typeName := "" }
  fields :=
    [.of "typeName" true text fun r v => { r with typeName := v },
     .of "typeOnly" false flag fun r v => { r with typeOnly := v }]

/-! ## Artifacts -/

namespace Artifact

/-- The format of an artifact. -/
def format : Record Artifact where
  blank := ⟨"", ""⟩
  fields :=
    [.of "name" true text fun a v => { a with name := v },
     .of "content" true text fun a v => { a with content := v }]

/-- The artifact as a JSON value. -/
def toJson (a : Artifact) : Json :=
  .object [("content", .string a.content), ("name", .string a.name)]

end Artifact

/-- The output of a run as a JSON value. -/
def Output.toJson (o : Output) : Json :=
  .object [("files", .array (o.files.map Artifact.toJson)), ("manifest", o.manifest.toJson)]

/-! ## Plans -/

namespace PlannedFile

/-- The format of a file of a plan; its name has to be there. -/
def format : Record PlannedFile where
  blank := { name := "" }
  fields :=
    [.of "name" true text fun p v => { p with name := v },
     .of "schemaFile" false (optional Schema.format.decoder) fun p v => { p with schema := v },
     .of "keepEmpty" false (optional flag) fun p v => { p with keepEmpty := v },
     .of "lines" false (list Decoder.json) fun p v => { p with lines := v }]

/-- The file of a plan as a JSON value. -/
def toJson (p : PlannedFile) : Json :=
  .object
    [("keepEmpty", match p.keepEmpty with
      | some b => .bool b
      | none => .null),
     ("lines", .array p.lines), ("name", .string p.name),
     ("schemaFile", match p.schema with
      | some s => s.toJson
      | none => .null)]

end PlannedFile

namespace Plan

/-- The format of a plan: every field has a default. -/
def format : Record Plan where
  blank := {}
  fields :=
    [.of "settings" false Settings.format.decoder fun p v => { p with settings := v },
     .of "entities" false (list Entity.format.decoder) fun p v => { p with entities := v },
     .of "files" false (list PlannedFile.format.decoder) fun p v => { p with files := v }]

/-- The plan as a JSON value. -/
def toJson (p : Plan) : Json :=
  .object
    [("entities", .array (p.entities.map Entity.toJson)),
     ("files", .array (p.files.map PlannedFile.toJson)), ("settings", p.settings.toJson)]

/-- The plan in a JSON text. -/
def ofText (source : String) : Except Error Plan :=
  (format.decoder.ofText source).mapError .serialization

end Plan

end ModuleAssembly
