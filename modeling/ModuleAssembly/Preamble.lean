import ModuleAssembly.Body.DocBlock
import ModuleAssembly.Settings

/-!
# Preambles

The preamble of a generated module stands above its imports: the comments of the schema file's
syntax statement, a banner with the generator and the schema file, the lines that silence linters,
and the comments of the package statement. Every line of a comment becomes a line comment, and a
blank line follows every comment.
-/

set_option autoImplicit false

namespace ModuleAssembly

/-- The comments in front of a statement of a schema file. -/
structure Comments where
  /-- Comments with a blank line behind them. -/
  detached : List String := []
  /-- The comment right in front of the statement; empty if there is none. -/
  leading : String := ""
deriving DecidableEq

/-- A schema file, as far as the preamble shows it. -/
structure Schema where
  name : String
  package : Option String := none
  /-- The version of the schema language. -/
  edition : String := "proto3"
  /-- The comments of the statement that gives the edition, usually the header of the file. -/
  editionComments : Comments := {}
  packageComments : Comments := {}
deriving DecidableEq

namespace Preamble

/-! ## Comments -/

/-- A comment as line comments, with a blank line behind it. -/
def commentBlock (comment : String) : List Char :=
  ((commentLines comment).flatMap fun line => '/' :: '/' :: (line ++ ['\n'])) ++ ['\n']

/-- The comments that are written: all detached ones, and the leading one unless it is empty. -/
def written (c : Comments) : List String :=
  c.detached ++ if c.leading = "" then [] else [c.leading]

/-- All comments in front of a statement. -/
def comments (c : Comments) : List Char := (written c).flatMap commentBlock

/-! ## The banner -/

/-- A text that is there and not empty. -/
def nonEmpty? (s : Option String) : Option String := s.filter fun s => s != ""

/-- The line that names the generator. -/
def generatorLine (s : Settings) : String :=
  "// @generated by " ++ s.pluginName ++ " " ++ s.pluginVersion
    ++ match nonEmpty? s.parameter with
      | some parameter => " with parameter \"" ++ parameter ++ "\""
      | none => ""

/-- The line that names the schema file. -/
def schemaLine (schema : Schema) : String :=
  "// @generated from file " ++ schema.name ++ " ("
    ++ (match nonEmpty? schema.package with
      | some package => "package " ++ package ++ ", "
      | none => "")
    ++ "syntax " ++ schema.edition ++ ")"

/-- The lines that silence linters. -/
def suppressions (s : Settings) : List String :=
  (if s.eslintDisable then ["/* eslint-disable */"] else [])
    ++ if s.tsNocheck then ["/* @ts-nocheck */"] else []

/-- The banner, with a blank line behind it. -/
def banner (s : Settings) (schema : Schema) : List Char :=
  ((generatorLine s :: schemaLine schema :: suppressions s).flatMap fun line =>
    line.toList ++ ['\n']) ++ ['\n']

/-! ## The preamble -/

/-- The preamble of a module generated from a schema file. The blank line at the end of its last
part is left to the module. -/
def text (s : Settings) (schema : Schema) : String :=
  String.ofList (Text.withoutBack ['\n']
    (comments schema.editionComments ++ banner s schema ++ comments schema.packageComments))

end Preamble

end ModuleAssembly
