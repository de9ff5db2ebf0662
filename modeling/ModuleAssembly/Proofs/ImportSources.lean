import ModuleAssembly.Proofs.ImportExtension
import ModuleAssembly.Proofs.ImportTargets
import ModuleAssembly.Proofs.LineLeaves

/-!
# Where imports come from

A symbol gets into the body of a planned module in one of four ways: a leaf of a line is a
sixty-four bit integer, refers to an entity, imports a name or exports one (`Item.Uses`). The home
of the symbol is the package of the runtime library, the module of the entity, the source that the
leaf gives, or the module itself. Of these only the package can be empty, and a path is written as
an empty one only if it is empty. So a module imports from nowhere exactly if the package is empty
and a line holds a sixty-four bit integer (`Plan.sources_ne_empty_iff`).
-/

set_option autoImplicit false

namespace ModuleAssembly

/-! ## Written paths -/

namespace ImportPath

/-- No path but the empty one is written as the empty one. -/
theorem relativeTo_eq_empty_iff {importer path : String} :
    relativeTo importer path = "" ↔ path = "" := by
  cases h : isRelative path with
  | true =>
      -- a project path is written as one, and the empty path is none
      have hwritten := isRelative_relativeTo importer h
      constructor
      · intro hempty
        rw [hempty] at hwritten
        exact absurd hwritten (by decide)
      · rintro rfl
        exact absurd h (by decide)
  | false => rw [relativeTo_of_package importer h]

end ImportPath

/-! ## Bodies and their imports -/

/-- Some symbol of a body has no home. -/
def Homeless (tokens : List Token) : Prop := ∃ s, Token.symbol s ∈ tokens ∧ s.home = ""

theorem homeless_append {front back : List Token} :
    Homeless (front ++ back) ↔ Homeless front ∨ Homeless back := by
  simp only [Homeless, List.mem_append, or_and_right, exists_or]

theorem homeless_flatten {parts : List (List Token)} :
    Homeless parts.flatten ↔ ∃ part ∈ parts, Homeless part := by
  simp only [Homeless, List.mem_flatten]
  constructor
  · rintro ⟨s, ⟨part, hpart, hs⟩, hhome⟩
    exact ⟨part, hpart, s, hs, hhome⟩
  · rintro ⟨part, hpart, s, hs, hhome⟩
    exact ⟨s, ⟨part, hpart, hs⟩, hhome⟩

theorem not_homeless_text (t : String) : ¬ Homeless [.text t] := by
  simp [Homeless]

namespace Resolution

/-- **Imports from nowhere.** A module with a path has a statement without a source exactly if its
body uses a symbol without a home. -/
theorem exists_source_eq_empty_iff {path : String} {tokens : List Token} {r : Resolution}
    (hpath : path ≠ "") (h : ofTokens path tokens = .ok r) :
    (∃ st ∈ r.statements, st.source = "") ↔ Homeless tokens := by
  constructor
  · rintro ⟨st, hst, hsource⟩
    -- every statement has a name, which is the import of a symbol
    obtain ⟨entry, hentry⟩ := List.exists_mem_of_ne_nil _ (names_ne_nil h hst)
    have himported : ⟨st.typeOnly, st.source, entry⟩ ∈ r.imported :=
      List.mem_flatMap.mpr ⟨st, hst, List.mem_map_of_mem hentry⟩
    obtain ⟨key, ⟨-, s, hs, rfl⟩, himport⟩ := exists_isForeign h himported
    refine ⟨s, mem_symbols.mp hs, ?_⟩
    exact ImportPath.relativeTo_eq_empty_iff.mp (himport.source.symm.trans hsource)
  · rintro ⟨s, hs, hhome⟩
    have hforeign : IsForeign path tokens s.key :=
      ⟨fun hkey => hpath (hkey.symm.trans hhome), s, mem_symbols.mpr hs, rfl⟩
    obtain ⟨n, hn, himport⟩ := exists_isImportOf h hforeign
    obtain ⟨st, hst, hnames⟩ := List.mem_flatMap.mp hn
    obtain ⟨entry, -, rfl⟩ := List.mem_map.mp hnames
    exact ⟨st, hst, himport.source.trans (ImportPath.relativeTo_eq_empty_iff.mpr hhome)⟩

end Resolution

/-! ## The symbols of leaves -/

namespace Json

/-- A leaf is a sixty-four bit integer. -/
def isInt64 (leaf : Json) : Bool := (leaf.member? "int64").isSome

/-- Some leaf of a line is a sixty-four bit integer. -/
def holdsInt64 (line : Json) : Bool := line.leaves.any isInt64

theorem holdsInt64_iff {line : Json} :
    line.holdsInt64 = true ↔ ∃ leaf ∈ line.leaves, leaf.isInt64 = true := List.any_eq_true

/-- The key for these integers decides as soon as it is there. -/
theorem isInt64_object_iff {members : List (String × Json)} {k : ItemKey} {v : Json}
    (hk : ItemKey.deciding? members = some (k, v)) :
    (object members).isInt64 = true ↔ k = .int64 := by
  rw [isInt64, member?, Option.isSome_iff_exists]
  constructor
  · rintro ⟨v', hv'⟩
    cases hk.symm.trans (Item.deciding?_int64 hv')
    rfl
  · rintro rfl
    obtain ⟨k, -, hvalue⟩ := List.exists_of_findSome?_eq_some hk
    obtain ⟨v', hv', heq⟩ := Option.map_eq_some_iff.mp hvalue
    cases heq
    rw [Item.value?_of_not_isName rfl] at hv'
    exact ⟨v, hv'⟩

end Json

namespace Item

/-- An item that is printed uses a symbol. -/
inductive Uses (lib : RuntimeLibrary) (ans : String → Except Error Symbol) : Item → Symbol → Prop
    where
  | int64 (n : Int64) : Uses lib ans (.int64 n) (lib.symbol .protoInt64)
  | symbol (s : Symbol) : Uses lib ans (.symbol s) s
  | entity {ref : EntityUse} {s : Symbol} (hs : ans ref.typeName = .ok s) :
      Uses lib ans (.entity ref) (s.usedAs ref.typeOnly)

section

variable {lib : RuntimeLibrary} {ans : String → Except Error Symbol}

theorem mem_int64Tokens {n : Int64} {s : Symbol} :
    Token.symbol s ∈ int64Tokens lib n ↔ s = lib.symbol .protoInt64 := by
  unfold int64Tokens
  split
  · simp
  · simp

/-- A leaf adds the symbols that it uses. -/
theorem mem_tokens_iff {p : Item} (hp : ∀ ps, p ≠ .seq ps) {tokens : List Token}
    (h : (p.tokens lib).eval ans = .ok tokens) {s : Symbol} :
    Token.symbol s ∈ tokens ↔ p.Uses lib ans s := by
  cases p with
  | int64 n =>
      cases h
      rw [mem_int64Tokens]
      constructor
      · rintro rfl
        exact .int64 n
      · rintro ⟨⟩
        rfl
  | symbol s' =>
      cases h
      rw [List.mem_singleton, Token.symbol.injEq]
      constructor
      · rintro rfl
        exact .symbol s
      · rintro ⟨⟩
        rfl
  | entity ref =>
      rw [eval_tokens_entity, except_map_eq_ok] at h
      obtain ⟨s', hs', rfl⟩ := h
      rw [List.mem_singleton, Token.symbol.injEq]
      constructor
      · rintro rfl
        exact .entity hs'
      · rintro (_ | _ | hs)
        cases hs.symm.trans hs'
        rfl
  | seq items => exact absurd rfl (hp items)
  | _ =>
      cases h
      exact ⟨fun hs => absurd hs (by simp), nofun⟩

/-- Exactly the leaves with the key for integers stand for integers. -/
theorem isInt64_iff_of_standsFor {home : String} {leaf : Json} {p : Item}
    (h : leaf.StandsFor home p) : leaf.isInt64 = true ↔ ∃ n, p = .int64 n := by
  cases h with
  | object hk hgives =>
      rw [Json.isInt64_object_iff hk]
      cases hgives with
      | whole _ => exact ⟨fun _ => ⟨_, rfl⟩, fun _ => rfl⟩
      | wholeText _ => exact ⟨fun _ => ⟨_, rfl⟩, fun _ => rfl⟩
      | _ => exact ⟨nofun, nofun⟩
  | _ => exact ⟨nofun, nofun⟩

/-- An export is at home in its module, and an import with an empty source is refused. -/
theorem home_ne_empty_of_standsFor {home : String} (hhome : home ≠ "") {leaf : Json} {s : Symbol}
    (h : leaf.StandsFor home (.symbol s)) : s.home ≠ "" := by
  cases h with
  | object _ hgives =>
      cases hgives with
      | imported _ hsource => exact hsource
      | exported _ => exact hhome

/-- **The homes of what a leaf uses.** If the module and the entities have homes, only an integer
can use a symbol without one. -/
theorem exists_uses_homeless_iff {home : String} (hhome : home ≠ "")
    (hans : ∀ t s, ans t = .ok s → s.home ≠ "") {leaf : Json} {p : Item}
    (h : leaf.StandsFor home p) :
    (∃ s, p.Uses lib ans s ∧ s.home = "") ↔ lib.package = "" ∧ leaf.isInt64 = true := by
  rw [isInt64_iff_of_standsFor h]
  constructor
  · rintro ⟨s, huses, hempty⟩
    cases huses with
    | int64 n => exact ⟨hempty, n, rfl⟩
    | symbol s => exact absurd hempty (home_ne_empty_of_standsFor hhome h)
    | @entity ref s hs =>
        have hsame : (s.usedAs ref.typeOnly).home = s.home :=
          congrArg SymbolKey.home (Symbol.key_usedAs s ref.typeOnly)
        exact absurd (hsame.symm.trans hempty) (hans _ s hs)
  · rintro ⟨hempty, n, rfl⟩
    exact ⟨lib.symbol .protoInt64, .int64 n, hempty⟩

end

end Item

/-! ## The symbols of lines -/

namespace PlannedFile

section

variable {lib : RuntimeLibrary} {r : Registry} {home : String}

/-- What a leaf adds has a symbol without a home only if the leaf is an integer. -/
theorem homeless_iff_of_leafTokens (hhome : home ≠ "")
    (hans : ∀ t s, r.answer t = .ok s → s.home ≠ "") {line leaf : Json} (hleaf : leaf ∈ line.leaves)
    {part : List Token} (h : leafTokens lib r home leaf = .ok part) :
    Homeless part ↔ lib.package = "" ∧ leaf.isInt64 = true := by
  -- a leaf adds what it uses, and what that can be follows from what the leaf stands for
  obtain ⟨p, hp, htokens⟩ := except_bind_eq_ok.mp h
  rw [Inquiry.run_eq_eval] at htokens
  have hstands := Item.ofJson_eq_ok_iff.mp hp
  have hseq := Item.not_seq_of_standsFor (Item.not_array_of_mem_leaves hleaf) hstands
  rw [← Item.exists_uses_homeless_iff hhome hans hstands]
  simp only [Homeless, Item.mem_tokens_iff hseq htokens]

/-- What a line adds has one only if the line holds an integer. -/
theorem exists_homeless_iff_of_leavesAdd (hhome : home ≠ "")
    (hans : ∀ t s, r.answer t = .ok s → s.home ≠ "") {line : Json} {parts : List (List Token)}
    (h : LeavesAdd lib r home line parts) :
    (∃ part ∈ parts, Homeless part) ↔ lib.package = "" ∧ line.holdsInt64 = true := by
  rw [Json.holdsInt64_iff]
  calc (∃ part ∈ parts, Homeless part)
      ↔ ∃ leaf ∈ line.leaves, lib.package = "" ∧ leaf.isInt64 = true :=
        (exists_mem_iff_of_forall₂ h fun _ hleaf _ hpart =>
          (homeless_iff_of_leafTokens hhome hans hleaf hpart).symm).symm
    _ ↔ lib.package = "" ∧ ∃ leaf ∈ line.leaves, leaf.isInt64 = true :=
        ⟨fun ⟨leaf, hleaf, hempty, hint⟩ => ⟨hempty, leaf, hleaf, hint⟩,
          fun ⟨hempty, leaf, hleaf, hint⟩ => ⟨leaf, hleaf, hempty, hint⟩⟩

/-- **All lines.** -/
theorem homeless_iff_of_forall₂ (hhome : home ≠ "")
    (hans : ∀ t s, r.answer t = .ok s → s.home ≠ "") {lines : List Json}
    {parts : List (List (List Token))} (h : List.Forall₂ (LeavesAdd lib r home) lines parts) :
    Homeless (parts.flatMap fun ps => ps.flatten ++ [.text "\n"]) ↔
      lib.package = "" ∧ ∃ line ∈ lines, line.holdsInt64 = true :=
  calc Homeless (parts.flatMap fun ps => ps.flatten ++ [.text "\n"])
      ↔ ∃ ps ∈ parts, ∃ part ∈ ps, Homeless part := by
        rw [List.flatMap_def, homeless_flatten]
        simp only [List.mem_map, exists_exists_and_eq_and, homeless_append, homeless_flatten,
          not_homeless_text, or_false]
    _ ↔ ∃ line ∈ lines, lib.package = "" ∧ line.holdsInt64 = true :=
        (exists_mem_iff_of_forall₂ h fun _ _ _ hps =>
          (exists_homeless_iff_of_leavesAdd hhome hans hps).symm).symm
    _ ↔ lib.package = "" ∧ ∃ line ∈ lines, line.holdsInt64 = true :=
        ⟨fun ⟨line, hline, hempty, hint⟩ => ⟨hempty, line, hline, hint⟩,
          fun ⟨hempty, line, hline, hint⟩ => ⟨line, hline, hempty, hint⟩⟩

end

end PlannedFile

/-! ## Files -/

/-- Every entity that a run is asked for has a home. -/
theorem Run.home_answer_ne_empty {run : Run} {entities : List Entity} (t : String) (s : Symbol)
    (h : (run.registry entities).answer t = .ok s) : s.home ≠ "" := by
  rw [registry, Registry.answer_ofEntities] at h
  cases he : (Registry.entityTable entities).find? t with
  | none =>
      rw [he] at h
      cases h
  | some e =>
      rw [he] at h
      cases h
      simp [Naming.importPath]

namespace PlannedFile

variable {settings : Settings} {entities : List Entity}

/-- **A finished file.** It imports from nowhere exactly if the package of the runtime library is
empty and one of its lines holds an integer. -/
theorem exists_source_eq_empty_iff {p : PlannedFile} {o : Option ModuleParts}
    (h : (p.printed settings entities).bind OutputFile.parts? = .ok o) :
    (∃ m ∈ o.toList, ∃ st ∈ m.statements, st.source = "") ↔
      settings.runtimePackage = "" ∧ ∃ line ∈ p.lines, line.holdsInt64 = true := by
  obtain ⟨f, hf, hparts⟩ := except_bind_eq_ok.mp h
  obtain ⟨r, hr, rfl⟩ := except_map_eq_ok.mp hparts
  have hsource : (∃ st ∈ r.statements, st.source = "") ↔
      settings.runtimePackage = "" ∧ ∃ line ∈ p.lines, line.holdsInt64 = true := by
    obtain ⟨parts, hadded, rfl⟩ := printed_eq_ok_iff.mp hf
    have hpath : Run.importPathOf ⟨settings⟩ p.name ≠ "" := by
      simp [Run.importPathOf, Naming.outputPath]
    have hstart : (p.start ⟨settings⟩).importPath ≠ "" := by rwa [importPath_start]
    rw [Resolution.exists_source_eq_empty_iff hstart hr, tokens_append_start]
    exact homeless_iff_of_forall₂ hpath Run.home_answer_ne_empty hadded
  unfold OutputFile.partsWith
  split
  · next hempty =>
      -- a file that is left out has no lines
      have hlines : p.lines = [] := by
        by_contra hne
        exact body_ne_empty_of_printed hf hne r hempty.1
      simp [hlines]
  · simpa using hsource

end PlannedFile

namespace Plan

/-- Files import from nowhere exactly if one of them does. -/
theorem exists_source_eq_empty_iff {settings : Settings} {entities : List Entity}
    {files : List PlannedFile} {ms : List ModuleParts}
    (h : partsOf settings entities files = .ok ms) :
    (∃ m ∈ ms, ∃ st ∈ m.statements, st.source = "") ↔
      settings.runtimePackage = "" ∧ ∃ p ∈ files, ∃ line ∈ p.lines, line.holdsInt64 = true := by
  obtain ⟨os, hos, rfl⟩ := partsOf_eq_ok_iff.mp h
  calc (∃ m ∈ os.flatMap Option.toList, ∃ st ∈ m.statements, st.source = "")
      ↔ ∃ o ∈ os, ∃ m ∈ o.toList, ∃ st ∈ m.statements, st.source = "" := by
        simp only [List.mem_flatMap]
        exact ⟨fun ⟨m, ⟨o, ho, hm⟩, hst⟩ => ⟨o, ho, m, hm, hst⟩,
          fun ⟨o, ho, m, hm, hst⟩ => ⟨m, ⟨o, ho, hm⟩, hst⟩⟩
    _ ↔ ∃ p ∈ files, settings.runtimePackage = "" ∧ ∃ line ∈ p.lines, line.holdsInt64 = true :=
        (exists_mem_iff_of_forall₂ hos fun p _ o ho =>
          (PlannedFile.exists_source_eq_empty_iff ho).symm).symm
    _ ↔ settings.runtimePackage = "" ∧ ∃ p ∈ files, ∃ line ∈ p.lines, line.holdsInt64 = true :=
        ⟨fun ⟨p, hp, hempty, hline⟩ => ⟨hempty, p, hp, hline⟩,
          fun ⟨hempty, p, hp, hline⟩ => ⟨p, hp, hempty, hline⟩⟩

/-- **No import without a source.** In the output of a plan every statement has a source exactly if
the package of the runtime library is not empty or no line of a file holds a sixty-four bit
integer. -/
theorem sources_ne_empty_iff {plan : Plan} {parameter : Option String} {o : Output}
    (h : plan.output parameter = .ok o) :
    ∃ ms, plan.parts parameter = .ok ms ∧ o.files = ms.map ModuleParts.artifact ∧
      ((∀ m ∈ ms, ∀ st ∈ m.statements, st.source ≠ "") ↔
        plan.settings.runtimePackage ≠ "" ∨
          ∀ p ∈ plan.files, ∀ line ∈ p.lines, line.holdsInt64 = false) := by
  have hfiles := output_files_eq plan parameter
  rw [h, except_map_ok, eq_comm, except_map_eq_ok] at hfiles
  obtain ⟨ms, hms, hartifacts⟩ := hfiles
  refine ⟨ms, hms, hartifacts.symm, ?_⟩
  rw [parts_eq, except_bind_eq_ok] at hms
  obtain ⟨settings, hsettings, hms⟩ := hms
  have hnone := not_congr (exists_source_eq_empty_iff hms)
  -- the parameter leaves the package as it is
  rw [effectiveSettings_runtimePackage hsettings] at hnone
  push Not at hnone
  simpa [← imp_iff_not_or] using hnone

/-- A plan whose module gets symbols in all four ways, with this package of the runtime library. -/
def fourWays (package : String) : Plan where
  settings := { runtimePackage := package }
  entities := [⟨"p.Foo", .message, "a.proto", some "p"⟩]
  files :=
    [{ name := "m_pb.ts", lines :=
        [.array [.object [("import", .string "Bar"), ("from", .string "./b_pb.js")],
            .object [("export", .string "Baz")], .object [("type", .string "p.Foo")]],
          .array [.object [("int64", .string "1")]]] }]

/-- The text of its module. -/
def fourWaysText (package : String) : String :=
  "import \x7bBar\x7d from \"./b_pb.js\";\nimport \x7bFoo\x7d from \"./a_pb.js\";\n"
    ++ "import \x7bprotoInt64\x7d from \"" ++ package ++ "\";\n\n"
    ++ "BarBazFoo\nprotoInt64.parse(\"1\")\n"

theorem fourWays_sources_ne_empty : ∃ o, (fourWays "rt").output none = .ok o ∧
    o.files = [⟨"m_pb.ts", fourWaysText "rt"⟩] ∧ ∃ ms, (fourWays "rt").parts none = .ok ms ∧
      o.files = ms.map ModuleParts.artifact ∧
      ((∀ m ∈ ms, ∀ st ∈ m.statements, st.source ≠ "") ↔
        "rt" ≠ "" ∨ ∀ p ∈ (fourWays "rt").files, ∀ line ∈ p.lines, line.holdsInt64 = false) := by
  have hfiles : ((fourWays "rt").output none).toOption.map Output.files
      = some [⟨"m_pb.ts", fourWaysText "rt"⟩] := by decide +kernel
  obtain ⟨o, ho, hfiles⟩ := Option.map_eq_some_iff.mp hfiles
  have h := except_toOption_eq_some.mp ho
  exact ⟨o, h, hfiles, sources_ne_empty_iff h⟩

/-- Without a package the symbol of the runtime library is imported from nowhere. -/
theorem fourWays_source_eq_empty :
    ((fourWays "").output none).toOption.map Output.files
      = some [⟨"m_pb.ts", fourWaysText ""⟩] ∧
    ((fourWays "").parts none).toOption.map (fun ms => ms.map ModuleParts.statements)
      = some [[⟨false, "./b_pb.js", [⟨"Bar", none⟩]⟩, ⟨false, "./a_pb.js", [⟨"Foo", none⟩]⟩,
          ⟨false, "", [⟨"protoInt64", none⟩]⟩]] := by
  exact ⟨by decide +kernel, by decide +kernel⟩

end Plan

end ModuleAssembly
