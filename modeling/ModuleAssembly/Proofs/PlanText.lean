import ModuleAssembly.Format
import ModuleAssembly.Proofs.Records

/-!
# Plans as text

Every format of a plan reads what its encoder writes: the decoder names the fields in one order
and fills in what is left out, the encoder writes all of them in the order of their names, and an
absent value is written as null. So a plan that was written as canonical JSON and is read again is
the plan that was written (`Plan.ofText_toJson_canonical`), and it runs the same way.
-/

set_option autoImplicit false

namespace ModuleAssembly

open Decoder (reads_text reads_flag reads_choice reads_option reads_list_map reads_json)
open Number (Finite)

/-! ## Formats -/

theorem Decoder.reads_ofOption (s : Option String) :
    (optional text).Reads (Json.ofOption s) s :=
  reads_option s reads_text (by simp) (by cases s <;> rfl)

open Decoder (reads_ofOption)

theorem Settings.reads_toJson (s : Settings) : format.decoder.Reads s.toJson s := by
  have hkeys : format.Complete ["eslintDisable", "fileSuffix", "importExtension",
      "keepEmptyFiles", "parameter", "pluginName", "pluginVersion", "runtimePackage", "target",
      "tsNocheck"] := by
    decide
  refine Record.reads_object hkeys ?_
  refine .field rfl (reads_flag s.eslintDisable) ?_
  refine .field rfl (reads_text s.fileSuffix) ?_
  refine .field rfl (reads_text s.importExtension) ?_
  refine .field rfl (reads_flag s.keepEmptyFiles) ?_
  refine .field rfl (reads_ofOption s.parameter) ?_
  refine .field rfl (reads_text s.pluginName) ?_
  refine .field rfl (reads_text s.pluginVersion) ?_
  refine .field rfl (reads_text s.runtimePackage) ?_
  refine .field rfl (reads_ofOption s.target) ?_
  refine .field rfl (reads_flag s.tsNocheck) ?_
  exact .nil s

theorem Comments.reads_toJson (c : Comments) : format.decoder.Reads c.toJson c := by
  have hkeys : format.Complete ["leading", "leadingDetached"] := by
    decide
  refine Record.reads_object hkeys ?_
  refine .field rfl (reads_text c.leading) ?_
  refine .field rfl (reads_list_map fun s _ => reads_text s) ?_
  exact .nil c

theorem Schema.reads_toJson (s : Schema) : format.decoder.Reads s.toJson s := by
  have hkeys : format.Complete
      ["name", "package", "packageComments", "syntax", "syntaxComments"] := by
    decide
  refine Record.reads_object hkeys ?_
  refine .field rfl (reads_text s.name) ?_
  refine .field rfl (reads_ofOption s.package) ?_
  refine .field rfl s.packageComments.reads_toJson ?_
  refine .field rfl (reads_text s.edition) ?_
  refine .field rfl s.editionComments.reads_toJson ?_
  exact .nil s

theorem EntityKind.lookup_name (kind : EntityKind) : names.lookup kind.name = some kind := by
  cases kind with
  | message => rfl
  | enum => rfl

theorem Entity.reads_toJson (e : Entity) : format.decoder.Reads e.toJson e := by
  have hkeys : format.Complete ["file", "kind", "package", "typeName"] := by
    decide
  refine Record.reads_object hkeys ?_
  refine .field rfl (reads_text e.file) ?_
  refine .field rfl (reads_choice e.kind.lookup_name) ?_
  refine .field rfl (reads_ofOption e.package) ?_
  refine .field rfl (reads_text e.typeName) ?_
  exact .nil e

theorem PlannedFile.reads_toJson {p : PlannedFile} (h : ∀ line ∈ p.lines, line.Ordered) :
    format.decoder.Reads p.toJson p := by
  have hlines : (Decoder.list Decoder.json).Reads (.array p.lines) p.lines := by
    have hread : (Decoder.list Decoder.json).Reads (.array (p.lines.map id)) p.lines :=
      reads_list_map fun line hline => reads_json (h line hline)
    rwa [List.map_id] at hread
  have hkeys : format.Complete ["keepEmpty", "lines", "name", "schemaFile"] := by
    decide
  refine Record.reads_object hkeys ?_
  refine .field rfl
    (reads_option p.keepEmpty reads_flag (by simp) (by cases p.keepEmpty <;> rfl)) ?_
  refine .field rfl hlines ?_
  refine .field rfl (reads_text p.name) ?_
  refine .field rfl (reads_option p.schema Schema.reads_toJson (by simp [Schema.toJson])
    (by cases p.schema <;> rfl)) ?_
  exact .nil p

namespace Plan

theorem reads_toJson {plan : Plan} (h : ∀ p ∈ plan.files, ∀ line ∈ p.lines, line.Ordered) :
    format.decoder.Reads plan.toJson plan := by
  have hkeys : format.Complete ["entities", "files", "settings"] := by
    decide
  refine Record.reads_object hkeys ?_
  refine .field rfl (reads_list_map fun e _ => e.reads_toJson) ?_
  refine .field rfl (reads_list_map fun p hp => PlannedFile.reads_toJson (h p hp)) ?_
  refine .field rfl plan.settings.reads_toJson ?_
  exact .nil plan

/-! ## The plan that was written -/

/-- **A plan that was written is read back as it was**, whatever its settings, entities, files and
strings are, and gives the same output or the same error. Its lines are JSON values with the
members of every object in a table, as in every value that was read, the text nests no deeper than
a reader goes, and the double-precision numbers in it are read as themselves. -/
theorem ofText_toJson_canonical (plan : Plan) (hdepth : plan.toJson.depth ≤ nestingLimit)
    (hlines : ∀ p ∈ plan.files, ∀ line ∈ p.lines, line.Ordered)
    (hreals : Json.AllReadBack plan.toJson.reals) :
    ofText plan.toJson.canonical = .ok plan ∧
      ∀ parameter, ((ofText plan.toJson.canonical).bind fun reloaded => reloaded.output parameter)
        = plan.output parameter := by
  have hread : ofText plan.toJson.canonical = .ok plan := by
    rw [ofText, (reads_toJson hlines).ofText_canonical hdepth hreals]
    rfl
  refine ⟨hread, fun parameter => ?_⟩
  rw [hread]
  rfl

/-- The double-precision number `0.1`. -/
def tenth : Finite := ⟨false, 7205759403792794, -56, by decide⟩

/-- The double-precision number `-1e22`. -/
def largePower : Finite := ⟨true, 4768371582031250, 21, by decide⟩

/-- Lines of every kind. -/
def printedLines : List Json :=
  [.null, .bool true, .string "a\r\n\"b\"", .number (.real tenth),
    .array [.number (.whole ⟨-7, by decide, by decide⟩), .array [], .object []],
    .object [("from", .string "./x.js"), ("import", .object [("n", .number (.real largePower))])]]

/-- A plan with values that are absent and values that are there, and with strings that need
escapes. -/
def mixed : Plan where
  settings := { parameter := some "target=js", keepEmptyFiles := true, fileSuffix := "_\"gen\"" }
  entities := [⟨"p.Foo", .message, "a.proto", some "p"⟩, ⟨"Bar", .enum, "b\\c.proto", none⟩]
  files :=
    [{ name := "m_pb.ts"
       schema := some
        { name := "m.proto", package := some "p"
          editionComments := ⟨["two\nlines", "\x01 \x7f é"], "\ttext, [like] \"json\": \x7b"⟩ }
       keepEmpty := some false
       lines := printedLines },
      { name := "" }]

theorem mixed_readBack :
    (mixed.toJson.depth ≤ nestingLimit ∧ (∀ p ∈ mixed.files, ∀ line ∈ p.lines, line.Ordered) ∧
      Json.AllReadBack mixed.toJson.reals) ∧
    ofText mixed.toJson.canonical = .ok mixed ∧
    ∀ parameter, ((ofText mixed.toJson.canonical).bind fun reloaded => reloaded.output parameter)
      = mixed.output parameter := by
  have hdepth : mixed.toJson.depth ≤ nestingLimit := by decide
  have hlines : ∀ p ∈ mixed.files, ∀ line ∈ p.lines, line.Ordered := by
    have hkeys : List.Pairwise (· < ·) ["from", "import"] := by decide
    have hkey : List.Pairwise (· < ·) ["n"] := by decide
    have hprinted : ∀ line ∈ printedLines, line.Ordered :=
      Json.orderedItems_iff.mp ⟨trivial, trivial, trivial, trivial,
        ⟨trivial, trivial, ⟨.nil, trivial⟩, trivial⟩,
        ⟨hkeys, trivial, ⟨hkey, trivial, trivial⟩, trivial⟩, trivial⟩
    have hempty : ∀ line ∈ ([] : List Json), line.Ordered := fun _ h => absurd h List.not_mem_nil
    exact List.forall_mem_cons.mpr ⟨hprinted, List.forall_mem_cons.mpr
      ⟨hempty, fun _ h => absurd h List.not_mem_nil⟩⟩
  have hreals : Json.AllReadBack mixed.toJson.reals := by
    intro x hx
    have hmem : x ∈ [tenth, largePower] := hx
    rw [JsonNumber.readsBack_iff]
    rcases List.mem_pair.mp hmem with rfl | rfl
    · decide +kernel
    · decide +kernel
  exact ⟨⟨hdepth, hlines, hreals⟩, ofText_toJson_canonical mixed hdepth hlines hreals⟩

end Plan

end ModuleAssembly
