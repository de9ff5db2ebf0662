import ModuleAssembly.Proofs.Parameters
import ModuleAssembly.Proofs.PlanFiles
import ModuleAssembly.Proofs.Relocation

/-!
# The import extension reaches nothing but sources

The import extension stands behind the homes of entities and behind the import path of every file.
These are put together at different places, but they all start with a dot and a slash, and a
package does not. So changing the extension renames the homes apart (`extended_injective`) and
moves every file along with its symbols (`PlannedFile.printed_eq_moved`), and a moved file is
finished to the same parts, apart from the sources of its import statements.
-/

set_option autoImplicit false

namespace ModuleAssembly

/-! ## Settings -/

namespace Settings

/-- The settings with another import extension. -/
def withExtension (s : Settings) (extension : String) : Settings :=
  { s with importExtension := extension }

/-- The settings with an empty import extension. -/
def withoutExtension (s : Settings) : Settings := s.withExtension ""

/-- Settings that are the same up to the import extension. -/
theorem exists_eq_withExtension {s s' : Settings} (h : s.withoutExtension = s'.withoutExtension) :
    ∃ extension, s' = s.withExtension extension := by
  refine ⟨s'.importExtension, ?_⟩
  have hback : s' = s'.withoutExtension.withExtension s'.importExtension := rfl
  rw [hback, ← h]
  rfl

/-- **A parameter does the same to settings that differ in the extension only.** It is refused by
both for the same reason, or both differ in the extension only afterwards. -/
theorem applied_congr {s s' : Settings} (h : s.withoutExtension = s'.withoutExtension)
    (parameter : String) :
    (s.applied parameter).map withoutExtension = (s'.applied parameter).map withoutExtension := by
  obtain ⟨extension, rfl⟩ := exists_eq_withExtension h
  -- the changes that the parameter makes are the same ones for both
  unfold applied
  rw [apply_eq, apply_eq]
  cases (Changes.ofParameter parameter).2 with
  | some e => rfl
  | none => rfl

end Settings

/-! ## Homes -/

/-- A project path with an extension behind it. A path that does not start with a dot and a slash
names a package and stays as it is. -/
def extended (extension home : String) : String :=
  if home.toList.take 2 = ['.', '/'] then home ++ extension else home

theorem extended_project (extension rest : String) :
    extended extension ("./" ++ rest) = "./" ++ rest ++ extension := by
  have hstart : ("./" ++ rest).toList.take 2 = ['.', '/'] := by
    rw [String.toList_append]
    rfl
  rw [extended, if_pos hstart]

theorem extended_package (extension : String) {package : String}
    (h : ∀ rest, package ≠ "./" ++ rest) : extended extension package = package := by
  refine if_neg fun hstart => h (String.ofList (package.toList.drop 2)) ?_
  have htail : (String.ofList (package.toList.drop 2)).toList = package.toList.drop 2 :=
    String.toList_ofList
  rw [← String.toList_inj, String.toList_append, htail]
  calc package.toList
      = package.toList.take 2 ++ package.toList.drop 2 := (List.take_append_drop 2 _).symm
    _ = "./".toList ++ package.toList.drop 2 := congrArg (· ++ package.toList.drop 2) hstart

/-- Different homes stay different: no package becomes a project path. -/
theorem extended_injective (extension : String) : Function.Injective (extended extension) := by
  intro a b h
  by_cases ha : ∃ rest, a = "./" ++ rest
  · obtain ⟨rest, rfl⟩ := ha
    rw [extended_project] at h
    by_cases hb : ∃ rest', b = "./" ++ rest'
    · obtain ⟨rest', rfl⟩ := hb
      rw [extended_project] at h
      exact (String.append_left_inj extension).mp h
    · -- an extended project path is one, and a package is none
      rw [extended_package extension (not_exists.mp hb), String.append_assoc] at h
      exact absurd ⟨_, h.symm⟩ hb
  · rw [extended_package extension (not_exists.mp ha)] at h
    by_cases hb : ∃ rest', b = "./" ++ rest'
    · obtain ⟨rest', rfl⟩ := hb
      rw [extended_project, String.append_assoc] at h
      exact absurd ⟨_, h⟩ ha
    · rw [extended_package extension (not_exists.mp hb)] at h
      exact h

namespace Naming

/-- The same suffix, with nothing behind the names of modules. -/
def withoutExtension (n : Naming) : Naming := { n with importExtension := "" }

/-- The home of an entity is the one without extension, extended. -/
theorem importPath_eq_extended (n : Naming) (schemaFile : String) :
    n.importPath schemaFile
      = extended n.importExtension (n.withoutExtension.importPath schemaFile) := by
  simp only [importPath, withoutExtension, String.append_empty, String.append_assoc]
  rw [extended_project]
  simp only [String.append_assoc]

/-- So is the import path of an output file. -/
theorem outputPath_eq_extended (n : Naming) (name : String) :
    n.outputPath name = extended n.importExtension (n.withoutExtension.outputPath name) := by
  simp only [outputPath, withoutExtension, String.append_empty]
  rw [extended_project]

end Naming

/-! ## Files -/

/-- The registry answers with the symbols that it would answer with without an extension, moved. -/
theorem Run.answer_registry (settings : Settings) (entities : List Entity) :
    (Run.registry ⟨settings⟩ entities).answer
      = movedAnswer (extended settings.importExtension)
        (Run.registry ⟨settings.withoutExtension⟩ entities).answer := by
  funext t
  unfold movedAnswer Run.registry
  rw [Registry.answer_ofEntities, Registry.answer_ofEntities]
  cases (Registry.entityTable entities).find? t with
  | none => rfl
  | some e =>
      show Except.ok (⟨e.localName, settings.naming.importPath e.file, false⟩ : Symbol) = _
      rw [Naming.importPath_eq_extended]
      rfl

namespace PlannedFile

/-- A file is opened at an extended path; its preamble does not show the extension. -/
theorem start_eq_moved (settings : Settings) (p : PlannedFile) :
    p.start ⟨settings⟩ = (p.start ⟨settings.withoutExtension⟩).moved
      (extended settings.importExtension) := by
  have hopen : Run.openFile ⟨settings⟩ p.name
      = (Run.openFile ⟨settings.withoutExtension⟩ p.name).moved
        (extended settings.importExtension) := by
    show OutputFile.create settings p.name (settings.naming.outputPath p.name) = _
    rw [Naming.outputPath_eq_extended]
    rfl
  unfold start
  rw [hopen]
  cases p.schema with
  | none =>
      cases p.keepEmpty with
      | none => rfl
      | some keepEmpty => rfl
  | some schema =>
      cases p.keepEmpty with
      | none => rfl
      | some keepEmpty => rfl

/-- **A file under another extension.** It is printed as it would be without one, and moved. -/
theorem printed_eq_moved {settings : Settings} (entities : List Entity) {p : PlannedFile}
    (hpackage : ∀ rest, settings.runtimePackage ≠ "./" ++ rest)
    (hlines : Item.anyReadsImport p.lines = false) :
    p.printed settings entities = (p.printed settings.withoutExtension entities).map
      (OutputFile.moved (extended settings.importExtension)) := by
  rw [printed_eq_eval, printed_eq_eval]
  show (p.build _).eval _ = ((p.build _).eval _).map _
  unfold build
  rw [start_eq_moved, Run.answer_registry]
  exact eval_printLines_moved (extended_package settings.importExtension hpackage) _ _ hlines

end PlannedFile

/-! ## Plans -/

/-- Modules that are the same but for the places that they import from. -/
structure ModuleParts.SameButSources (m m' : ModuleParts) : Prop where
  name : m.name = m'.name
  preamble : m.preamble = m'.preamble
  body : m.body = m'.body
  /-- The statements agree one by one in everything but their sources. -/
  statements : List.Forall₂ (fun st st' : ImportStatement =>
    st.typeOnly = st'.typeOnly ∧ st.names = st'.names) m.statements m'.statements

theorem ModuleParts.sameButSources_of_eq {m m' : ModuleParts}
    (h : m.withoutSources = m'.withoutSources) : m.SameButSources m' := by
  simp only [withoutSources, ModuleParts.mk.injEq] at h
  obtain ⟨hname, hpreamble, hstatements, hbody⟩ := h
  refine ⟨hname, hpreamble, hbody, ?_⟩
  refine (forall₂_of_map_eq hstatements).imp fun st st' hst => ?_
  simp only [ImportStatement.withoutSource, ImportStatement.mk.injEq, true_and] at hst
  exact hst

namespace Plan

/-- The plan with another import extension in its settings. -/
def withImportExtension (plan : Plan) (extension : String) : Plan :=
  { plan with settings := plan.settings.withExtension extension }

/-- The parameter leaves both plans with settings that are the same up to the extension. -/
theorem effectiveSettings_congr {plan plan' : Plan}
    (h : plan.settings.withoutExtension = plan'.settings.withoutExtension)
    (parameter : Option String) :
    (plan.effectiveSettings parameter).map Settings.withoutExtension
      = (plan'.effectiveSettings parameter).map Settings.withoutExtension := by
  cases parameter with
  | none => exact congrArg Except.ok h
  | some parameter => exact Settings.applied_congr h parameter

theorem effectiveSettings_runtimePackage {plan : Plan} {parameter : Option String}
    {settings : Settings} (h : plan.effectiveSettings parameter = .ok settings) :
    settings.runtimePackage = plan.settings.runtimePackage := by
  cases parameter with
  | none =>
      cases h
      rfl
  | some parameter => exact Settings.applied_runtimePackage h

/-! ### Modules of a plan -/

/-- The modules of a plan, taken apart. -/
def parts (plan : Plan) (parameter : Option String) : Except Error (List ModuleParts) := do
  let settings ← plan.effectiveSettings parameter
  let run : Run := ⟨settings⟩
  let files ← ((build run plan.files).run (run.registry plan.entities)).1
  let ms ← files.mapM OutputFile.parts?
  .ok (ms.flatMap Option.toList)

/-- The modules of files that are printed one by one, taken apart. -/
def partsOf (settings : Settings) (entities : List Entity) (files : List PlannedFile) :
    Except Error (List ModuleParts) :=
  (files.mapM (PlannedFile.printed settings entities)).bind fun fs =>
    (fs.mapM OutputFile.parts?).map fun ms => ms.flatMap Option.toList

/-- Files are printed and finished one by one; a file that is left out has no module. -/
theorem partsOf_eq_ok_iff {settings : Settings} {entities : List Entity}
    {files : List PlannedFile} {ms : List ModuleParts} :
    partsOf settings entities files = .ok ms ↔ ∃ os,
      List.Forall₂ (fun p o => (p.printed settings entities).bind OutputFile.parts? = .ok o) files
        os ∧ ms = os.flatMap Option.toList := by
  have hrounds : ∀ os, List.Forall₂
        (fun p o => (p.printed settings entities).bind OutputFile.parts? = .ok o) files os ↔
      (files.mapM (PlannedFile.printed settings entities)).bind (List.mapM OutputFile.parts?)
        = .ok os := fun os => mapM_eq_ok_iff.symm.trans mapM_bind_mapM_eq_ok.symm
  simp only [hrounds]
  unfold partsOf
  simp only [except_bind_eq_ok, except_map_eq_ok]
  constructor
  · rintro ⟨fs, hfs, os, hos, rfl⟩
    exact ⟨os, ⟨fs, hfs, hos⟩, rfl⟩
  · rintro ⟨os, ⟨fs, hfs, hos⟩, rfl⟩
    exact ⟨fs, hfs, os, hos, rfl⟩

/-- The files of a plan are printed with the answers of the start. -/
theorem parts_eq (plan : Plan) (parameter : Option String) :
    plan.parts parameter = (plan.effectiveSettings parameter).bind fun settings =>
      partsOf settings plan.entities plan.files := by
  unfold parts
  cases plan.effectiveSettings parameter with
  | error e => rfl
  | ok settings =>
      show ((build ⟨settings⟩ plan.files).run (Run.registry ⟨settings⟩ plan.entities)).1.bind _ = _
      rw [run_build, except_bind_ok, partsOf]
      refine congrArg _ (funext fun fs => ?_)
      cases fs.mapM OutputFile.parts? with
      | error e => rfl
      | ok ms => rfl

/-- The files of the output are the modules put together. -/
theorem output_files_eq (plan : Plan) (parameter : Option String) :
    (plan.output parameter).map Output.files
      = (plan.parts parameter).map fun ms => ms.map ModuleParts.artifact := by
  rw [parts_eq]
  cases h : plan.effectiveSettings parameter with
  | error e =>
      unfold output
      rw [h]
      rfl
  | ok settings =>
      rw [output_eq h, except_bind_ok, partsOf]
      cases plan.files.mapM (PlannedFile.printed settings plan.entities) with
      | error e => rfl
      | ok fs =>
          rw [except_bind_ok, except_bind_ok, Run.collect, Run.artifacts_eq_mapM,
            mapM_eq_map_mapM fun f _ => f.artifact?_eq_parts?]
          cases fs.mapM OutputFile.parts? with
          | error e => rfl
          | ok ms => exact congrArg Except.ok (flatMap_toList_map ModuleParts.artifact ms)

/-- Without the extension, the modules of files are the same apart from their sources. -/
theorem partsOf_withoutExtension {settings : Settings} (entities : List Entity)
    {files : List PlannedFile} (hpackage : ∀ rest, settings.runtimePackage ≠ "./" ++ rest)
    (hlines : ∀ p ∈ files, Item.anyReadsImport p.lines = false) :
    (partsOf settings entities files).map (fun ms => ms.map ModuleParts.withoutSources)
      = (partsOf settings.withoutExtension entities files).map
        fun ms => ms.map ModuleParts.withoutSources := by
  have hmoved := extended_injective settings.importExtension
  -- both rounds over the files are compared: printing, and then finishing
  have hprinted : files.mapM (PlannedFile.printed settings entities)
      = (files.mapM (PlannedFile.printed settings.withoutExtension entities)).map
        fun fs => fs.map (OutputFile.moved (extended settings.importExtension)) :=
    mapM_eq_map_mapM fun p hp => PlannedFile.printed_eq_moved entities hpackage (hlines p hp)
  have hforget : ∀ fs : List OutputFile,
      ((fs.mapM OutputFile.parts?).map fun ms => ms.flatMap Option.toList).map
          (fun ms => ms.map ModuleParts.withoutSources)
        = (fs.mapM fun f : OutputFile =>
            f.parts?.map fun m => m.map ModuleParts.withoutSources).map
          fun ms => ms.flatMap Option.toList := by
    intro fs
    rw [mapM_eq_map_mapM (g := OutputFile.parts?) fun f _ => rfl]
    cases fs.mapM OutputFile.parts? with
    | error e => rfl
    | ok ms => exact congrArg Except.ok (flatMap_toList_map ModuleParts.withoutSources ms).symm
  unfold partsOf
  rw [hprinted]
  cases files.mapM (PlannedFile.printed settings.withoutExtension entities) with
  | error e => rfl
  | ok fs =>
      rw [except_map_ok, except_bind_ok, except_bind_ok, hforget, hforget, List.mapM_map]
      exact congrArg _ (congrArg (fun f => List.mapM f fs)
        (funext fun f => OutputFile.parts?_moved hmoved f))

/-- Plans that differ in the import extension only have the same modules apart from their
sources. -/
theorem parts_withImportExtension (plan : Plan) (parameter : Option String)
    (extension extension' : String)
    (hpackage : ∀ rest, plan.settings.runtimePackage ≠ "./" ++ rest)
    (hlines : ∀ p ∈ plan.files, Item.anyReadsImport p.lines = false) :
    ((plan.withImportExtension extension).parts parameter).map
        (fun ms => ms.map ModuleParts.withoutSources)
      = ((plan.withImportExtension extension').parts parameter).map
        fun ms => ms.map ModuleParts.withoutSources := by
  have hbefore : (plan.withImportExtension extension).settings.withoutExtension
      = (plan.withImportExtension extension').settings.withoutExtension := rfl
  have hsettings := effectiveSettings_congr hbefore parameter
  -- the modules apart from their sources are a function of the settings without the extension
  have hbare : ∀ e : String, ((plan.withImportExtension e).parts parameter).map
        (fun ms => ms.map ModuleParts.withoutSources)
      = (((plan.withImportExtension e).effectiveSettings parameter).map
          Settings.withoutExtension).bind fun settings =>
        (partsOf settings plan.entities plan.files).map
          fun ms => ms.map ModuleParts.withoutSources := by
    intro e
    rw [parts_eq]
    cases hs : (plan.withImportExtension e).effectiveSettings parameter with
    | error err => rfl
    | ok settings =>
        have hsame : settings.runtimePackage
            = (plan.withImportExtension e).settings.runtimePackage :=
          effectiveSettings_runtimePackage hs
        rw [except_bind_ok, except_map_ok, except_bind_ok]
        exact partsOf_withoutExtension plan.entities (hsame ▸ hpackage) hlines
  rw [hbare, hbare, hsettings]

/-- **The import extension reaches nothing but sources.** What it means that two plans give the same
with this parameter, apart from the sources of import statements. -/
inductive OnlySourcesDiffer (plan plan' : Plan) (parameter : Option String) : Prop where
  /-- Both fail with the same error. -/
  | failed {e : Error} (error : plan.output parameter = .error e)
      (error' : plan'.output parameter = .error e)
  /-- Both give artifacts that are put together from modules with the same names, preambles and
  bodies, and with import statements that agree one by one except for their sources. -/
  | finished {o o' : Output} {ms ms' : List ModuleParts} (output : plan.output parameter = .ok o)
      (output' : plan'.output parameter = .ok o') (parts : plan.parts parameter = .ok ms)
      (parts' : plan'.parts parameter = .ok ms') (files : o.files = ms.map ModuleParts.artifact)
      (files' : o'.files = ms'.map ModuleParts.artifact)
      (same : List.Forall₂ ModuleParts.SameButSources ms ms')

/-- Plans that differ in the import extension only give the same apart from the sources, unless a
line names an import or the runtime package looks like a project path. -/
theorem onlySourcesDiffer_withImportExtension (plan : Plan) (parameter : Option String)
    (extension extension' : String)
    (hpackage : ∀ rest, plan.settings.runtimePackage ≠ "./" ++ rest)
    (hlines : ∀ p ∈ plan.files, Item.anyReadsImport p.lines = false) :
    OnlySourcesDiffer (plan.withImportExtension extension) (plan.withImportExtension extension')
      parameter := by
  have hparts := parts_withImportExtension plan parameter extension extension' hpackage hlines
  have hfiles := output_files_eq (plan.withImportExtension extension) parameter
  have hfiles' := output_files_eq (plan.withImportExtension extension') parameter
  -- an output fails exactly as its modules do
  cases hms : (plan.withImportExtension extension).parts parameter with
  | error e =>
      rw [hms, except_map_error, eq_comm, except_map_eq_error] at hparts
      rw [hms, except_map_error, except_map_eq_error] at hfiles
      rw [hparts, except_map_error, except_map_eq_error] at hfiles'
      exact .failed hfiles hfiles'
  | ok ms =>
      rw [hms, except_map_ok, eq_comm, except_map_eq_ok] at hparts
      obtain ⟨ms', hms', hsame⟩ := hparts
      rw [hms, except_map_ok, except_map_eq_ok] at hfiles
      rw [hms', except_map_ok, except_map_eq_ok] at hfiles'
      obtain ⟨o, ho, hfiles⟩ := hfiles
      obtain ⟨o', ho', hfiles'⟩ := hfiles'
      refine .finished ho ho' hms hms' hfiles hfiles' ?_
      exact (forall₂_of_map_eq hsame.symm).imp fun m m' h => ModuleParts.sameButSources_of_eq h

/-- A plan whose modules need symbols of each other, of the runtime library and of their own. -/
def linked : Plan where
  entities := [⟨"p.Foo", .message, "a.proto", some "p"⟩, ⟨"p.Bar", .enum, "m.proto", some "p"⟩]
  files :=
    [{ name := "m_pb.ts", schema := some { name := "m.proto" }, lines :=
        [.array [.string "export ", .object [("export", .string "Foo")]],
          .array [.object [("type", .string "p.Foo")], .object [("type", .string "p.Bar")]],
          .object [("int64", .string "0")]] },
      { name := "n_pb.ts" }]

/-- The statements of its modules with an extension. The empty file is left out. -/
def linkedStatements (extension : String) : Option (List (List ImportStatement)) :=
  ((linked.withImportExtension extension).parts (some "target=js")).toOption.map fun ms =>
    ms.map ModuleParts.statements

theorem linked_onlySourcesDiffer :
    ((∀ rest, linked.settings.runtimePackage ≠ "./" ++ rest) ∧
      ∀ p ∈ linked.files, Item.anyReadsImport p.lines = false) ∧
    OnlySourcesDiffer (linked.withImportExtension ".js") (linked.withImportExtension "")
      (some "target=js") ∧
    linkedStatements ".js" = some [[⟨false, "./a_pb.js", [⟨"Foo", some "Foo$1"⟩]⟩,
      ⟨false, "@bufbuild/protobuf", [⟨"protoInt64", none⟩]⟩]] ∧
    linkedStatements "" = some [[⟨false, "./a_pb", [⟨"Foo", some "Foo$1"⟩]⟩,
      ⟨false, "@bufbuild/protobuf", [⟨"protoInt64", none⟩]⟩]] := by
  have hpackage : ∀ rest, linked.settings.runtimePackage ≠ "./" ++ rest := by
    intro rest h
    have hfirst := congrArg (fun s : String => s.toList.head?) h
    simp [linked] at hfirst
  have hlines : ∀ p ∈ linked.files, Item.anyReadsImport p.lines = false := by decide +kernel
  exact ⟨⟨hpackage, hlines⟩,
    onlySourcesDiffer_withImportExtension linked (some "target=js") ".js" "" hpackage hlines,
    by decide +kernel, by decide +kernel⟩

end Plan

end ModuleAssembly
