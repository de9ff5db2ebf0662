import ModuleAssembly.Digest.Sha256
import ModuleAssembly.Json.Printer
import ModuleAssembly.OutputFile

/-!
# Manifests

A manifest lists the artifacts of a run with the digests of their contents, so that two runs can
be compared without their files. Its own digest is taken of the canonical JSON text of the
generator, the version and the list.
-/

set_option autoImplicit false

namespace ModuleAssembly

/-- The digest of an artifact's content. -/
def Artifact.hash (a : Artifact) : String := Sha256.hex a.content

/-- An artifact in a manifest. -/
structure FileDigest where
  name : String
  hash : String
deriving DecidableEq

/-- The record of a run. -/
structure Manifest where
  generator : String
  version : String
  files : List FileDigest
  manifestHash : String
deriving DecidableEq

/-- The entry as a JSON value. -/
def FileDigest.toJson (e : FileDigest) : Json :=
  .object [("hash", .string e.hash), ("name", .string e.name)]

namespace Manifest

/-- The entry of an artifact. -/
def entryOf (a : Artifact) : FileDigest := ⟨a.name, a.hash⟩

/-- The value whose canonical text is hashed. -/
def hashedJson (generator version : String) (files : List FileDigest) : Json :=
  .object [("files", .array (files.map FileDigest.toJson)), ("generator", .string generator),
    ("version", .string version)]

/-- The manifest of a run. -/
def ofArtifacts (generator version : String) (artifacts : List Artifact) : Manifest :=
  let files := artifacts.map entryOf
  ⟨generator, version, files, Sha256.hex (hashedJson generator version files).canonical⟩

/-- The manifest as a JSON value. -/
def toJson (m : Manifest) : Json :=
  .object [("files", .array (m.files.map FileDigest.toJson)),
    ("generator", .string m.generator), ("manifestHash", .string m.manifestHash),
    ("version", .string m.version)]

end Manifest

end ModuleAssembly
