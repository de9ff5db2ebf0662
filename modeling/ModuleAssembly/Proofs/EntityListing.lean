import ModuleAssembly.Command
import ModuleAssembly.Proofs.ByteOrder
import ModuleAssembly.Proofs.ImportExtension
import ModuleAssembly.Proofs.LineLeaves
import ModuleAssembly.Proofs.PlanText

/-!
# The listing of entities

Listing the entities of a plan and running the plan each fill a registry of their own. The listing
names and places the last entity of every type name. A run asks its registry when a leaf of a line
refers to a type, and gives the symbol its identifier only when the file is finished. The two agree:
the registry of a run answers the type names of the rows, and no others, with the symbols that the
rows describe (`Plan.answer_eq_ok_iff`). So a row tells how a reference to its type is written in
every file, and where it is imported from (`Command.entities_foretell_generate`).
-/

set_option autoImplicit false

namespace ModuleAssembly

/-! ## Rows -/

/-- A row of the listing. -/
structure EntityRow where
  typeName : String
  kind : EntityKind
  localName : String
  importPath : String
deriving DecidableEq

namespace EntityRow

/-- The row as it is listed. -/
def toJson (row : EntityRow) : Json :=
  .object
    [("importPath", .string row.importPath), ("kind", .string row.kind.name),
     ("localName", .string row.localName), ("typeName", .string row.typeName)]

/-- The symbol that the row describes. -/
def symbol (row : EntityRow) : Symbol := ⟨row.localName, row.importPath, false⟩

end EntityRow

/-- The row of an entity. -/
def Entity.row (naming : Naming) (e : Entity) : EntityRow :=
  ⟨e.typeName, e.kind, e.localName, naming.importPath e.file⟩

namespace Plan

/-- The rows that are listed for a plan. -/
def rows (plan : Plan) : List EntityRow :=
  (Registry.ofEntities plan.settings.naming plan.entities).list.map
    (Entity.row plan.settings.naming)

theorem entityRows_eq (plan : Plan) :
    Command.entityRows plan = .array (plan.rows.map EntityRow.toJson) := by
  have hnaming : (Registry.ofEntities plan.settings.naming plan.entities).naming
      = plan.settings.naming := by rw [Registry.ofEntities_eq]
  unfold Command.entityRows rows
  dsimp only
  rw [List.map_map]
  refine congrArg Json.array (List.map_congr_left fun e _ => ?_)
  rw [Command.entityRow, hnaming]
  rfl

section

variable {plan : Plan}

/-- A row describes the last entity of its type name. -/
theorem mem_rows_iff {row : EntityRow} : row ∈ plan.rows ↔ ∃ e,
    Registry.lastNamed? plan.entities row.typeName = some e ∧
      row = e.row plan.settings.naming := by
  simp only [rows, List.mem_map, Registry.mem_list_ofEntities]
  constructor
  · rintro ⟨e, he, rfl⟩
    exact ⟨e, he, rfl⟩
  · rintro ⟨e, he, rfl⟩
    exact ⟨e, he, rfl⟩

theorem row_mem_rows {t : String} {e : Entity}
    (h : Registry.lastNamed? plan.entities t = some e) :
    e.row plan.settings.naming ∈ plan.rows := by
  obtain rfl := Registry.typeName_of_lastNamed? h
  exact mem_rows_iff.mpr ⟨e, h, rfl⟩

/-- The type names of entities have rows, and no others. -/
theorem exists_row_iff {t : String} :
    (∃ row ∈ plan.rows, row.typeName = t) ↔ ∃ e ∈ plan.entities, e.typeName = t := by
  rw [← Registry.exists_lastNamed?_iff]
  constructor
  · rintro ⟨row, hrow, rfl⟩
    obtain ⟨e, he, -⟩ := mem_rows_iff.mp hrow
    exact ⟨e, he⟩
  · rintro ⟨e, he⟩
    exact ⟨_, row_mem_rows he, Registry.typeName_of_lastNamed? he⟩

theorem rows_ascending (plan : Plan) :
    (plan.rows.map fun row => Text.bytes row.typeName).Pairwise (· < ·) := by
  have h := Registry.list_ofEntities_ascending plan.settings.naming plan.entities
  rw [List.pairwise_map] at h
  rw [rows, List.map_map, List.pairwise_map]
  exact h.imp fun hlt => Text.lt_iff_bytes_lt.mp hlt

/-- **Rows and answers.** The registry of a run answers the type names of the rows, with the symbols
that the rows describe. -/
theorem answer_eq_ok_iff {t : String} {s : Symbol} :
    (Run.registry ⟨plan.settings⟩ plan.entities).answer t = .ok s ↔
      ∃ row ∈ plan.rows, row.typeName = t ∧ s = row.symbol := by
  rw [Run.registry, Run.naming, Registry.answer_ofEntities_eq_ok_iff]
  constructor
  · rintro ⟨e, he, rfl⟩
    exact ⟨_, row_mem_rows he, Registry.typeName_of_lastNamed? he, rfl⟩
  · rintro ⟨row, hrow, rfl, rfl⟩
    obtain ⟨e, he, hrow⟩ := mem_rows_iff.mp hrow
    exact ⟨e, he, by rw [hrow]; rfl⟩

/-- There is one row for a type name. -/
theorem eq_of_mem_rows {row row' : EntityRow} (hrow : row ∈ plan.rows) (hrow' : row' ∈ plan.rows)
    (h : row.typeName = row'.typeName) : row = row' := by
  obtain ⟨e, he, heq⟩ := mem_rows_iff.mp hrow
  obtain ⟨e', he', heq'⟩ := mem_rows_iff.mp hrow'
  rw [h] at he
  cases he.symm.trans he'
  exact heq.trans heq'.symm

end

end Plan

/-! ## References -/

/-- A leaf that refers to a type is read as a reference to it, whatever module it is in. -/
theorem Json.ofJson_of_refersTo {leaf : Json} {t : String} (hleaf : ∀ items, leaf ≠ .array items)
    (h : leaf.RefersTo t) (home : String) :
    ∃ typeOnly, Item.ofJson home leaf = .ok (.entity ⟨t, typeOnly⟩) := by
  obtain ⟨home', p, hp, ht⟩ := h
  cases Item.ofJson_eq_ok_iff.mp hp with
  | @object members _ _ _ hk hgives =>
      cases hgives with
      | entity typeName =>
          rw [Item.typeNames, List.mem_singleton] at ht
          subst ht
          refine ⟨Item.asksForType members, ?_⟩
          rw [Item.ofJson_of_deciding hk]
          exact Item.readUnder_of_gives (.entity t)
      | _ => exact absurd ht List.not_mem_nil
  | array _ => exact absurd rfl (hleaf _)
  | _ => exact absurd ht List.not_mem_nil

/-- Such a leaf adds the symbol that the registry answers. -/
theorem PlannedFile.leafTokens_of_refersTo {lib : RuntimeLibrary} {r : Registry} {home : String}
    {leaf : Json} {t : String} {part : List Token} (hleaf : ∀ items, leaf ≠ .array items)
    (h : leaf.RefersTo t) (hpart : leafTokens lib r home leaf = .ok part) :
    ∃ s typeOnly, r.answer t = .ok s ∧ part = [.symbol (s.usedAs typeOnly)] := by
  obtain ⟨typeOnly, hread⟩ := Json.ofJson_of_refersTo hleaf h home
  rw [leafTokens, hread, except_bind_ok, Inquiry.run_eq_eval, Item.eval_tokens_entity,
    except_map_eq_ok] at hpart
  obtain ⟨s, hs, hpart⟩ := hpart
  exact ⟨s, typeOnly, hs, hpart.symm⟩

/-- **What a row tells.** A reference to the type of the row is written as this text in the module
at `path` with the imports of `r`. -/
structure EntityRow.Foretells (row : EntityRow) (path : String) (r : Resolution) (text : String) :
    Prop where
  /-- The text is the identifier of the symbol that the row describes. -/
  identifier : r.identifiers.lookup row.symbol.key = some text
  /-- In another module the text is bound by one entry of the block, which imports the declared
  name from the module of the row. -/
  imported : path ≠ row.importPath → ∃ n ∈ r.imported, n.entry.bound = text ∧
    n.entry.name = row.localName ∧ n.source = ImportPath.relativeTo path row.importPath ∧
      ∀ n' ∈ r.imported, n'.entry.bound = text → n' = n
  /-- In the module of the row it is the declared name, and no entry binds it. -/
  declared : path = row.importPath → text = row.localName ∧ text ∉ r.boundNames

/-- What is written for the symbol of a row is what the row tells. -/
theorem EntityRow.foretells_written {row : EntityRow} {path : String} {tokens : List Token}
    {r : Resolution} (hr : Resolution.ofTokens path tokens = .ok r) {s : Symbol}
    (hs : Token.symbol s ∈ tokens) (hkey : s.key = row.symbol.key) :
    row.Foretells path r (r.written (.symbol s)) := by
  obtain ⟨hidentifier, hdeclared, himported⟩ := Resolution.standsFor_written hr hs
  have hhome : s.home = row.importPath := congrArg SymbolKey.home hkey
  have hname : s.name = row.localName := congrArg SymbolKey.name hkey
  refine ⟨hkey ▸ hidentifier, fun hpath => ?_, fun hpath => ?_⟩
  · obtain ⟨n, hn, himport, hwritten⟩ := himported fun hlocal => hpath (hlocal.symm.trans hhome)
    have hsource : n.source = ImportPath.relativeTo path row.importPath := by
      rw [himport.source, hkey]
      rfl
    refine ⟨n, hn, hwritten.symm, himport.name.trans hname, hsource, fun n' hn' hbound => ?_⟩
    -- no two entries bind one name
    exact List.inj_on_of_nodup_map (Resolution.boundNames_nodup hr) hn' hn (hbound.trans hwritten)
  · have hlocal : s.home = path := hhome.trans hpath.symm
    rw [hdeclared hlocal]
    exact ⟨hname, Resolution.name_not_mem_boundNames hr (Resolution.mem_symbols.mpr hs) hlocal⟩

/-! ## Files -/

namespace Plan

/-- What a leaf is written as, in the module at `path` with the imports of `r`. -/
structure LeafText (plan : Plan) (path : String) (r : Resolution) (leaf : Json) (text : String) :
    Prop where
  /-- The text is that of the tokens which the leaf adds. -/
  written : ∃ part, PlannedFile.leafTokens (Run.library ⟨plan.settings⟩)
    (Run.registry ⟨plan.settings⟩ plan.entities) path leaf = .ok part ∧ text = r.body part
  /-- A type that the leaf refers to is listed. -/
  listed : ∀ t, leaf.RefersTo t → ∃ row ∈ plan.rows, row.typeName = t
  /-- The text is what the row of this type tells. -/
  foretold : ∀ row ∈ plan.rows, leaf.RefersTo row.typeName → row.Foretells path r text

/-- How a file of a plan is finished in a run without a parameter. -/
inductive FinishedAs (plan : Plan) (p : PlannedFile) : Option ModuleParts → Prop where
  /-- A file that is left out has no lines. -/
  | leftOut (h : p.lines = []) : FinishedAs plan p none
  /-- The body of any other file is written line by line and leaf by leaf, and its statements are
  those of the same resolution. -/
  | written {f : OutputFile} {r : Resolution} {texts : List (List String)}
      (hf : p.printed plan.settings plan.entities = .ok f) (hr : f.resolution = .ok r)
      (h : List.Forall₂ (fun line ts => List.Forall₂
        (plan.LeafText (Run.importPathOf ⟨plan.settings⟩ p.name) r) line.leaves ts) p.lines texts) :
      FinishedAs plan p (some
        { name := p.name, preamble := f.preamble, statements := r.statements
          body := String.join (texts.map fun ts => String.join ts ++ "\n") })

section

variable {plan : Plan}

/-- A leaf that adds its tokens to a body is written as the rows tell. -/
theorem leafText_body {path : String} {tokens : List Token} {r : Resolution}
    (hr : Resolution.ofTokens path tokens = .ok r) {leaf : Json}
    (hleaf : ∀ items, leaf ≠ .array items) {part : List Token}
    (hpart : PlannedFile.leafTokens (Run.library ⟨plan.settings⟩)
      (Run.registry ⟨plan.settings⟩ plan.entities) path leaf = .ok part)
    (hsubset : part ⊆ tokens) : plan.LeafText path r leaf (r.body part) := by
  -- a reference adds the symbol of the row of its type
  have hsymbol : ∀ t, leaf.RefersTo t → ∃ row ∈ plan.rows, row.typeName = t ∧
      ∃ typeOnly, part = [.symbol (row.symbol.usedAs typeOnly)] := by
    intro t ht
    obtain ⟨s, typeOnly, hs, hpart⟩ := PlannedFile.leafTokens_of_refersTo hleaf ht hpart
    obtain ⟨row, hrow, htypeName, rfl⟩ := answer_eq_ok_iff.mp hs
    exact ⟨row, hrow, htypeName, typeOnly, hpart⟩
  refine ⟨⟨part, hpart, rfl⟩, fun t ht => ?_, fun row hrow ht => ?_⟩
  · obtain ⟨row, hrow, htypeName, -⟩ := hsymbol t ht
    exact ⟨row, hrow, htypeName⟩
  · obtain ⟨row', hrow', htypeName, typeOnly, rfl⟩ := hsymbol row.typeName ht
    obtain rfl := eq_of_mem_rows hrow' hrow htypeName
    rw [Resolution.body_singleton]
    exact EntityRow.foretells_written hr (hsubset (List.mem_singleton_self _))
      (Symbol.key_usedAs ..)

/-- So is every leaf of the lines that a body is made of. -/
theorem leafTexts_of_forall₂ {path : String} {lines : List Json}
    {parts : List (List (List Token))}
    (h : List.Forall₂ (PlannedFile.LeavesAdd (Run.library ⟨plan.settings⟩)
      (Run.registry ⟨plan.settings⟩ plan.entities) path) lines parts) {r : Resolution}
    (hr : Resolution.ofTokens path (parts.flatMap fun ps => ps.flatten ++ [.text "\n"]) = .ok r) :
    List.Forall₂ (fun line texts => List.Forall₂ (plan.LeafText path r) line.leaves texts) lines
      (parts.map fun ps => ps.map r.body) := by
  rw [List.forall₂_map_right_iff]
  refine forall₂_imp_of_mem h fun line _ ps hps hline => ?_
  rw [List.forall₂_map_right_iff]
  refine forall₂_imp_of_mem hline fun leaf hleaf part hpart hadds => ?_
  have hsubset : part ⊆ parts.flatMap fun ps => ps.flatten ++ [.text "\n"] := fun t ht =>
    List.mem_flatMap.mpr
      ⟨ps, hps, List.mem_append_left _ (List.mem_flatten.mpr ⟨part, hpart, ht⟩)⟩
  exact leafText_body hr (fun _ => Item.not_array_of_mem_leaves hleaf _) hadds hsubset

/-- **A finished file.** Every leaf of its lines is written as the rows tell. -/
theorem finishedAs_of_parts? {p : PlannedFile} {o : Option ModuleParts}
    (h : (p.printed plan.settings plan.entities).bind OutputFile.parts? = .ok o) :
    plan.FinishedAs p o := by
  obtain ⟨f, hf, hparts⟩ := except_bind_eq_ok.mp h
  obtain ⟨r, hr, rfl⟩ := except_map_eq_ok.mp hparts
  unfold OutputFile.partsWith
  split
  · next hempty =>
      refine .leftOut ?_
      by_contra hne
      -- a line leaves its line break in the body
      exact PlannedFile.body_ne_empty_of_printed hf hne r hempty.1
  · obtain ⟨parts, hadded, rfl⟩ := PlannedFile.printed_eq_ok_iff.mp hf
    have hname : ((p.start ⟨plan.settings⟩).append
        (parts.flatMap fun ps => ps.flatten ++ [.text "\n"])).name = p.name :=
      PlannedFile.name_start ..
    rw [PlannedFile.tokens_append_start, Resolution.body_lines, hname]
    refine .written hf hr (leafTexts_of_forall₂ hadded ?_)
    rw [← PlannedFile.importPath_start]
    rwa [OutputFile.resolution, PlannedFile.tokens_append_start] at hr

end

/-! ## Plans -/

/-- **The listing tells what a run does.** -/
structure Foretold (plan : Plan) : Prop where
  /-- The rows are in strictly ascending order of the bytes of their type names. -/
  ascending : (plan.rows.map fun row => Text.bytes row.typeName).Pairwise (· < ·)
  /-- There is a row for every type name in the list of entities, and for no other. -/
  exists_row_iff : ∀ t, (∃ row ∈ plan.rows, row.typeName = t) ↔
    ∃ e ∈ plan.entities, e.typeName = t
  /-- Each row describes the last entity of its type name. -/
  last : ∀ row ∈ plan.rows, ∃ e, Registry.lastNamed? plan.entities row.typeName = some e ∧
    row = e.row plan.settings.naming
  /-- In the output without a parameter, all references are written as the rows tell. -/
  finished : ∀ o, plan.output none = .ok o → ∃ ms : List (Option ModuleParts),
    List.Forall₂ plan.FinishedAs plan.files ms ∧
      o.files = (ms.flatMap Option.toList).map ModuleParts.artifact

theorem foretold (plan : Plan) : plan.Foretold where
  ascending := plan.rows_ascending
  exists_row_iff _ := plan.exists_row_iff
  last _ hrow := mem_rows_iff.mp hrow
  finished o ho := by
    have hfiles := output_files_eq plan none
    rw [ho, except_map_ok, eq_comm, except_map_eq_ok, parts_eq] at hfiles
    obtain ⟨ms, hms, hartifacts⟩ := hfiles
    -- the modules are finished file by file
    obtain ⟨os, hos, rfl⟩ := partsOf_eq_ok_iff.mp hms
    exact ⟨os, hos.imp fun _ _ => finishedAs_of_parts?, hartifacts.symm⟩

end Plan

/-! ## The command line -/

namespace Command

/-- A job is done with the plan that the command line names. -/
theorem run_eq_jobReply {tree : FileTree} {args : List String} {path : String} {job : Job}
    {plan : Plan} (hargs : parse args = some ⟨path, job⟩)
    (hplan : loadPlan (tree.read path) = .ok plan) : run tree args = jobReply job plan := by
  rw [run, hargs]
  dsimp only
  rw [reply, hplan]

/-- **The two jobs.** For every plan that loads, the one job lists the rows, and these tell what the
other one does when it is given no parameter and succeeds. -/
theorem entities_foretell_generate {tree : FileTree} {args args' : List String} {path : String}
    {manifestOnly : Bool} {plan : Plan} (hlist : parse args = some ⟨path, .entities⟩)
    (hrun : parse args' = some ⟨path, .generate none manifestOnly⟩)
    (hplan : loadPlan (tree.read path) = .ok plan) :
    run tree args = .ofJson 0 (.array (plan.rows.map EntityRow.toJson)) ∧ plan.Foretold ∧
      ((run tree args').code = 0 → ∃ o, plan.output none = .ok o ∧
        run tree args' = .ofJson 0 (outputJson manifestOnly o)) := by
  rw [run_eq_jobReply hlist hplan, run_eq_jobReply hrun hplan]
  refine ⟨?_, plan.foretold, fun hcode => ?_⟩
  · rw [jobReply, Plan.entityRows_eq]
  · rw [jobReply] at hcode ⊢
    cases ho : plan.output none with
    | ok o => exact ⟨o, rfl, rfl⟩
    | error e =>
        rw [ho] at hcode
        cases hcode

/-- A plan with an entity that a later one replaces, one whose package does not stand in front of
its type name, and two that are declared under one name. Each of its modules declares what the other
one imports. -/
def twoModules : Plan where
  entities :=
    [⟨"q.Foo", .enum, "lib/q.proto", some "q"⟩, ⟨"p.Foo", .enum, "old.proto", none⟩,
      ⟨"p.x.Bar", .message, "p.proto", some "x"⟩, ⟨"p.Foo", .message, "p.proto", some "p"⟩]
  files :=
    [{ name := "p_pb.ts", lines :=
        [.array [.object [("type", .string "p.Foo")], .string " ",
          .array [.object [("type", .string "q.Foo")]]]] },
      { name := "lib/q_pb.ts", lines :=
        [.object [("type", .string "q.Foo")],
          .object [("type", .string "p.Foo"), ("typeOnly", .bool true)],
          .object [("type", .string "p.x.Bar")]] }]

/-- Its rows. -/
def twoModulesRows : List EntityRow :=
  [⟨"p.Foo", .message, "Foo", "./p_pb.js"⟩, ⟨"p.x.Bar", .message, "p_x_Bar", "./p_pb.js"⟩,
    ⟨"q.Foo", .enum, "Foo", "./lib/q_pb.js"⟩]

/-- Its modules. -/
def twoModulesFiles : List Artifact :=
  [⟨"p_pb.ts", "import \x7bFoo as Foo$1\x7d from \"./lib/q_pb.js\";\n\nFoo Foo$1\n"⟩,
    ⟨"lib/q_pb.ts", "import type \x7bFoo as Foo$1\x7d from \"../p_pb.js\";\n"
      ++ "import \x7bp_x_Bar\x7d from \"../p_pb.js\";\n\nFoo\nFoo$1\np_x_Bar\n"⟩]

/-- A file tree with nothing but a plan. -/
def planTree (source : String) : FileTree := ⟨[(["plan.json"], source)], []⟩

theorem read_planTree (source : String) : (planTree source).read "plan.json" = .ok source := by
  have hsegments : FileTree.segments "plan.json" = ["plan.json"] := by decide +kernel
  have hstart : (planTree source).start "plan.json" = .directory [] := congrArg _ (ite_self _)
  have hstep : (planTree source).step "plan.json" (.directory []) = .ok (.file source) := by
    rw [FileTree.step, if_neg (by decide), if_neg (by decide), if_neg (by decide)]
    rfl
  have hfind : (planTree source).find "plan.json" = .ok (.file source) := by
    rw [FileTree.find, if_neg (by decide), if_neg (by decide), hstart, hsegments,
      FileTree.follow, hstep]
    rfl
  rw [FileTree.read, hfind]
  rfl

/-- A file tree with the plan. -/
def twoModulesTree : FileTree := planTree twoModules.toJson.canonical

theorem loadPlan_twoModulesTree : loadPlan (twoModulesTree.read "plan.json") = .ok twoModules := by
  have hread : twoModulesTree.read "plan.json" = .ok twoModules.toJson.canonical :=
    read_planTree _
  have hlines : ∀ p ∈ twoModules.files, ∀ line ∈ p.lines, line.Ordered := by
    have href : ∀ t, (Json.object [("type", .string t)]).Ordered := fun t =>
      ⟨List.pairwise_singleton .., trivial, trivial⟩
    have hkeys : List.Pairwise (· < ·) ["type", "typeOnly"] := by decide
    refine List.forall_mem_cons.mpr ⟨Json.orderedItems_iff.mp ?_, List.forall_mem_cons.mpr
      ⟨Json.orderedItems_iff.mp ?_, fun _ h => absurd h List.not_mem_nil⟩⟩
    · exact ⟨⟨href _, trivial, ⟨href _, trivial⟩, trivial⟩, trivial⟩
    · exact ⟨href _, ⟨hkeys, trivial, trivial, trivial⟩, href _, trivial⟩
  have hdepth : twoModules.toJson.depth ≤ nestingLimit := by decide
  have hreals : Json.AllReadBack twoModules.toJson.reals := fun _ hx => absurd hx List.not_mem_nil
  rw [hread, loadPlan, Plan.ofText, (Plan.reads_toJson hlines).ofText_canonical hdepth hreals]
  rfl

theorem twoModules_foretold :
    (parse ["entities"] = some ⟨"plan.json", .entities⟩ ∧
      parse ["-p", "plan.json", "generate"] = some ⟨"plan.json", .generate none false⟩ ∧
      loadPlan (twoModulesTree.read "plan.json") = .ok twoModules) ∧
    run twoModulesTree ["entities"] = .ofJson 0 (.array (twoModulesRows.map EntityRow.toJson)) ∧
    twoModules.Foretold ∧ ∃ o, twoModules.output none = .ok o ∧ o.files = twoModulesFiles ∧
      run twoModulesTree ["-p", "plan.json", "generate"] = .ofJson 0 (outputJson false o) := by
  have hlist : parse ["entities"] = some ⟨"plan.json", .entities⟩ := by decide +kernel
  have hrun : parse ["-p", "plan.json", "generate"]
      = some ⟨"plan.json", .generate none false⟩ := by decide +kernel
  have hload := loadPlan_twoModulesTree
  have hrows : twoModules.rows = twoModulesRows := by decide +kernel
  have hfiles : (twoModules.output none).toOption.map Output.files = some twoModulesFiles := by
    decide +kernel
  obtain ⟨o, ho, hfiles⟩ := Option.map_eq_some_iff.mp hfiles
  rw [except_toOption_eq_some] at ho
  obtain ⟨hrun', hforetold, hgenerate⟩ := entities_foretell_generate hlist hrun hload
  have hcode : (run twoModulesTree ["-p", "plan.json", "generate"]).code = 0 := by
    rw [run_eq_jobReply hrun hload, jobReply, ho]
    rfl
  obtain ⟨o', ho', hreply⟩ := hgenerate hcode
  cases ho.symm.trans ho'
  rw [hrows] at hrun'
  exact ⟨⟨hlist, hrun, hload⟩, hrun', hforetold, o, ho, hfiles, hreply⟩

end Command

end ModuleAssembly
