import ModuleAssembly.Proofs.FileHistory
import ModuleAssembly.Proofs.ImportBlock
import ModuleAssembly.Run

/-!
# The two names of a module

The module of a schema file is named in two ways. Its output file is named after the schema file,
and the import path of the file is found by taking the file extension off again; the home of the
entities of the schema file is found from the schema file at once. The two agree exactly when the
file extension has neither a dot nor a slash (`Naming.outputPath_outputName_eq_iff`). Then the
module declares the entities of its schema file itself, and otherwise it imports them from
elsewhere.
-/

set_option autoImplicit false

namespace ModuleAssembly

/-! ## Taking the extension off -/

namespace Naming

/-- Behind the last dot stands the extension, unless there is a slash behind it. -/
theorem outputStem_of_dot_not_mem (front : String) {tail : String} (h : '.' ∉ tail.toList) :
    outputStem (front ++ "." ++ tail)
      = if '/' ∈ tail.toList then front ++ "." ++ tail else front := by
  have hreverse : (front ++ "." ++ tail).toList.reverse
      = tail.toList.reverse ++ '.' :: front.toList.reverse := by
    simp [String.toList_append]
  -- the last dot is the first one from behind, and no character of `tail` is it
  have htail : ∀ c ∈ tail.toList.reverse, (c != '.') = true := by
    intro c hc
    rw [bne_iff_ne]
    rintro rfl
    exact h (List.mem_reverse.mp hc)
  have htake : (tail.toList.reverse ++ '.' :: front.toList.reverse).takeWhile (fun c => c != '.')
      = tail.toList.reverse := by
    rw [List.takeWhile_append_of_pos htail]
    simp
  have hdrop : (tail.toList.reverse ++ '.' :: front.toList.reverse).dropWhile (fun c => c != '.')
      = '.' :: front.toList.reverse := by
    rw [List.dropWhile_append_of_pos htail]
    simp
  simp only [outputStem, hreverse, htake, hdrop, List.mem_reverse, List.reverse_reverse,
    String.ofList_toList]

theorem append_dot_ne (front more : String) : front ++ "." ++ more ≠ front := by
  intro h
  have hlength := congrArg (fun s : String => s.toList.length) h
  simp [String.toList_append] at hlength

/-- A text with a dot has a part in front of its last dot and one behind it. -/
theorem exists_last_dot {text : String} (h : '.' ∈ text.toList) :
    ∃ more tail : String, text = more ++ "." ++ tail ∧ '.' ∉ tail.toList := by
  obtain ⟨back, front, hsplit, hback⟩ :=
    List.eq_append_cons_of_mem (List.mem_reverse.mpr h)
  refine ⟨String.ofList front.reverse, String.ofList back.reverse, ?_, ?_⟩
  · have hlist : text.toList = front.reverse ++ '.' :: back.reverse := by
      rw [← List.reverse_reverse text.toList, hsplit]
      simp
    rw [← String.toList_inj, hlist]
    simp [String.toList_append]
  · simpa using hback

/-- **Taking the extension off.** What was put behind a name is taken off again exactly if it has
neither a dot nor a slash. -/
theorem outputStem_eq_iff (front extension : String) :
    outputStem (front ++ "." ++ extension) = front
      ↔ '.' ∉ extension.toList ∧ '/' ∉ extension.toList := by
  by_cases hdot : '.' ∈ extension.toList
  · -- only what stands behind the last dot is taken off, if anything is
    obtain ⟨more, tail, rfl, htail⟩ := exists_last_dot hdot
    have hname : front ++ "." ++ (more ++ "." ++ tail) = front ++ "." ++ more ++ "." ++ tail := by
      simp only [String.append_assoc]
    have hne : outputStem (front ++ "." ++ (more ++ "." ++ tail)) ≠ front := by
      rw [hname, outputStem_of_dot_not_mem _ htail]
      split
      · rw [← hname]
        exact append_dot_ne front _
      · exact append_dot_ne front more
    exact iff_of_false hne fun h => h.1 hdot
  · rw [outputStem_of_dot_not_mem front hdot]
    by_cases hslash : '/' ∈ extension.toList
    · rw [if_pos hslash]
      exact iff_of_false (append_dot_ne front extension) fun h => h.2 hslash
    · rw [if_neg hslash]
      exact iff_of_true rfl ⟨hdot, hslash⟩

/-- The two names of the module of a schema file agree exactly under the same condition. -/
theorem outputPath_outputName_eq_iff (n : Naming) (schemaFile extension : String) :
    n.outputPath (n.outputName schemaFile extension) = n.importPath schemaFile
      ↔ '.' ∉ extension.toList ∧ '/' ∉ extension.toList := by
  have hpath : n.importPath schemaFile
      = "./" ++ (stem schemaFile ++ n.suffix) ++ n.importExtension := by
    simp only [importPath, String.append_assoc]
  rw [← outputStem_eq_iff (stem schemaFile ++ n.suffix) extension, hpath]
  unfold outputPath outputName
  rw [String.append_left_inj, String.append_right_inj]

end Naming

/-! ## The entities of a schema file -/

/-- The file has a reference in its body to the entity `e` of the schema file: `s` is the symbol
that the registry gives out for it. -/
structure OutputFile.RefersTo (f : OutputFile) (registry : Registry) (schema : Schema) (e : Entity)
    (s : Symbol) : Prop where
  known : registry.get? e.typeName = some e
  declared : e.file = schema.name
  resolved : ∃ typeOnly,
    ((Inquiry.resolve ⟨e.typeName, typeOnly⟩).run registry).1 = .ok s
  printed : Token.symbol s ∈ f.tokens

namespace Run

/-- The file that a run opens for a schema file, after a history of calls. -/
def fileFor (run : Run) (schema : Schema) (calls : List FileCall) : OutputFile :=
  (run.openFileFor schema).afterCalls run.settings run.library calls

/-- **The two names of a module.** When they agree, and what the module of a schema file does with
the entities of that schema file if they do and if they do not. -/
structure HousesEntities (run : Run) (entities : List Entity) (schema : Schema) : Prop where
  /-- The import path of the file is the home of the entities exactly if the file extension has
  neither a dot nor a slash. -/
  importPath_eq_iff : (run.openFileFor schema).importPath
      = (run.registry entities).naming.importPath schema.name
    ↔ '.' ∉ run.extension.toList ∧ '/' ∉ run.extension.toList
  /-- Then an entity stands in the file under its local name, and no import is its. -/
  declares : '.' ∉ run.extension.toList → '/' ∉ run.extension.toList →
    ∀ (calls : List FileCall) (e : Entity) (s : Symbol) (r : Resolution),
      (run.fileFor schema calls).RefersTo (run.registry entities) schema e s →
      (run.fileFor schema calls).resolution = .ok r →
        r.written (.symbol s) = e.localName ∧
          ∀ n ∈ r.imported, ¬ Resolution.IsImportOf (run.fileFor schema calls).importPath
            (run.fileFor schema calls).tokens r s.key n
  /-- Otherwise the file imports it. -/
  imports : '.' ∈ run.extension.toList ∨ '/' ∈ run.extension.toList →
    ∀ (calls : List FileCall) (e : Entity) (s : Symbol) (r : Resolution),
      (run.fileFor schema calls).RefersTo (run.registry entities) schema e s →
      (run.fileFor schema calls).resolution = .ok r →
        ∃ n ∈ r.imported, Resolution.IsImportOf (run.fileFor schema calls).importPath
          (run.fileFor schema calls).tokens r s.key n

theorem naming_registry (run : Run) (entities : List Entity) :
    (run.registry entities).naming = run.naming := by
  unfold registry
  rw [Registry.ofEntities_eq]

theorem importPath_fileFor (run : Run) (schema : Schema) (calls : List FileCall) :
    (run.fileFor schema calls).importPath = (run.openFileFor schema).importPath := by
  unfold fileFor
  rw [OutputFile.afterCalls_eq]

section

variable {run : Run} {entities : List Entity} {schema : Schema}

/-- The symbol of an entity has its local name, and its home is that of the schema file. -/
theorem key_of_refersTo {f : OutputFile} {e : Entity} {s : Symbol}
    (h : f.RefersTo (run.registry entities) schema e s) :
    s.key = ⟨run.naming.importPath schema.name, e.localName⟩ := by
  obtain ⟨typeOnly, hresolved⟩ := h.resolved
  have hanswer : (run.registry entities).answer e.typeName
      = .ok ((run.registry entities).symbolOf e) := by
    have hfresh : (run.registry entities).lookup? e.typeName = none :=
      Registry.lookup?_ofEntities run.naming entities e.typeName
    rw [Registry.answer_of_not_lookup hfresh, h.known]
  rw [Inquiry.run_eq_eval, Inquiry.resolve, Inquiry.eval, Inquiry.eval, hanswer] at hresolved
  cases hresolved
  rw [Symbol.key_usedAs, Registry.symbolOf, naming_registry, h.declared]
  rfl

/-- The paths of a file agree exactly if its extension has neither a dot nor a slash. -/
theorem importPath_openFileFor_eq_iff (run : Run) (schema : Schema) :
    (run.openFileFor schema).importPath = run.naming.importPath schema.name
      ↔ '.' ∉ run.extension.toList ∧ '/' ∉ run.extension.toList :=
  run.naming.outputPath_outputName_eq_iff schema.name run.extension

/-- An entity of the schema file is at home in the file under the same condition. -/
theorem home_eq_importPath_iff {calls : List FileCall} {e : Entity} {s : Symbol}
    (h : (run.fileFor schema calls).RefersTo (run.registry entities) schema e s) :
    s.home = (run.fileFor schema calls).importPath
      ↔ '.' ∉ run.extension.toList ∧ '/' ∉ run.extension.toList := by
  have hhome : s.home = run.naming.importPath schema.name :=
    congrArg SymbolKey.home (key_of_refersTo h)
  rw [importPath_fileFor, hhome, eq_comm, importPath_openFileFor_eq_iff]

end

/-- Every run houses the entities of every schema file in this way. -/
theorem housesEntities (run : Run) (entities : List Entity) (schema : Schema) :
    run.HousesEntities entities schema := by
  refine ⟨?_, ?_, ?_⟩
  · rw [naming_registry]
    exact importPath_openFileFor_eq_iff run schema
  · intro hdot hslash calls e s r hrefers hr
    have hs : s ∈ Resolution.symbols (run.fileFor schema calls).tokens :=
      List.mem_filterMap.mpr ⟨.symbol s, hrefers.printed, rfl⟩
    have hhome := (home_eq_importPath_iff hrefers).mpr ⟨hdot, hslash⟩
    have hident := Resolution.lookup_identifiers_of_local hr hs hhome
    refine ⟨?_, ?_⟩
    · rw [Resolution.written, Resolution.identifier?, hident]
      exact congrArg SymbolKey.name (key_of_refersTo hrefers)
    · -- the import would bind the name that the module declares itself
      intro n hn himport
      have hbound : s.name = n.entry.bound := Option.some.inj (hident.symm.trans himport.bound)
      exact Resolution.name_not_mem_boundNames hr hs hhome (hbound ▸ List.mem_map_of_mem hn)
  · intro hextension calls e s r hrefers hr
    have hs : s ∈ Resolution.symbols (run.fileFor schema calls).tokens :=
      List.mem_filterMap.mpr ⟨.symbol s, hrefers.printed, rfl⟩
    have hhome : s.home ≠ (run.fileFor schema calls).importPath := by
      rw [Ne, home_eq_importPath_iff hrefers, not_and_or, not_not, not_not]
      exact hextension
    exact Resolution.exists_isImportOf hr ⟨hhome, s, hs, rfl⟩

/-- A run whose target has a dot. -/
def dotted : Run := ⟨{ parameter := some "target=d.ts", target := some "d.ts" }⟩

/-- The entity `Person` of a schema file. -/
def person : Entity := ⟨"example.Person", .message, "proto/person.proto", some "example"⟩

/-- The file for the schema file of `person`, which exports the name `Person` and then refers to the
entity. -/
def dottedFile : OutputFile :=
  let exported := (dotted.openFileFor { name := "proto/person.proto" }).exported "Person"
  dotted.fileFor { name := "proto/person.proto" }
    [.print (dotted.registry [person]) [.text "export class ", .symbol exported],
      .print (dotted.registry [person]) [.text "type A = ", .entity ⟨"example.Person", false⟩]]

/-- The target is accepted, and the file imports what it declares from another module. -/
theorem dottedFile_importsItself :
    Settings.applied {} "target=d.ts" = .ok dotted.settings ∧
      dottedFile.name = "proto/person_pb.d.ts" ∧
      dottedFile.importPath = "./proto/person_pb.d.js" ∧
      (dotted.registry [person]).naming.importPath "proto/person.proto" = "./proto/person_pb.js" ∧
      dottedFile.resolution.map Resolution.statements
        = .ok [⟨false, "./person_pb.js", [⟨"Person", some "Person$1"⟩]⟩] := by
  decide +kernel

end Run

end ModuleAssembly
