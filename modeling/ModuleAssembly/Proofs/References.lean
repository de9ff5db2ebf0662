import Mathlib.Data.List.Induction
import ModuleAssembly.Proofs.PlanFiles

/-!
# Entities that a plan refers to

Printing a plan asks the registry for the type names in its lines and for no others
(`PlannedFile.eval_build_congr`), and a registry that was just filled answers with the last entity
of each name (`Registry.find?_entityTable`). So the order of the entities, those that a later one
replaces, and those that no line refers to leave no trace in the output.
-/

set_option autoImplicit false

namespace ModuleAssembly

/-! ## The last entity of a name -/

namespace Registry

/-- The last entity of a list with this type name. -/
def lastNamed? (es : List Entity) (typeName : String) : Option Entity :=
  (es.filter fun e => e.typeName == typeName).getLast?

theorem lastNamed?_concat (es : List Entity) (e : Entity) (t : String) :
    lastNamed? (es ++ [e]) t = if e.typeName = t then some e else lastNamed? es t := by
  unfold lastNamed?
  rw [List.filter_append]
  by_cases he : e.typeName = t
  · simp [he]
  · simp [he]

/-- The last entity of a name has that name. -/
theorem typeName_of_lastNamed? {es : List Entity} {t : String} {e : Entity}
    (h : lastNamed? es t = some e) : e.typeName = t := by
  have hmem := List.mem_of_getLast? h
  simpa using (List.mem_filter.mp hmem).2

/-- There is a last entity of a name exactly if there is one at all. -/
theorem exists_lastNamed?_iff {es : List Entity} {t : String} :
    (∃ e, lastNamed? es t = some e) ↔ ∃ e ∈ es, e.typeName = t := by
  rw [← Option.isSome_iff_exists, lastNamed?, List.getLast?_isSome]
  simp only [ne_eq, List.filter_eq_nil_iff, beq_iff_eq, not_forall, not_not]
  simp only [exists_prop]

/-- The entity that counts is the last one of its name. -/
theorem find?_entityTable (es : List Entity) (t : String) :
    (entityTable es).find? t = lastNamed? es t := by
  induction es using List.reverseRecOn with
  | nil => rfl
  | append_singleton es e ih =>
      have hlast : entityTable (es ++ [e]) = (entityTable es).insert e.typeName e := by
        simp [entityTable]
      rw [hlast, lastNamed?_concat]
      by_cases he : e.typeName = t
      · rw [if_pos he, ← he, Table.find?_insert_self]
      · rw [if_neg he, Table.find?_insert_of_ne (Ne.symm he), ih]

/-- Registries that were filled with the same last entity of a name answer it alike. -/
theorem answer_ofEntities_congr (naming : Naming) {es es' : List Entity} {t : String}
    (h : lastNamed? es t = lastNamed? es' t) :
    (ofEntities naming es).answer t = (ofEntities naming es').answer t := by
  rw [answer_ofEntities, answer_ofEntities, find?_entityTable, find?_entityTable, h]

end Registry

/-! ## The names in an item -/

namespace Item

mutual

/-- The type names of the entities that an item refers to, at any depth. -/
def typeNames : Item → List String
  | .entity ref => [ref.typeName]
  | .seq items => typeNamesOfAll items
  | _ => []

/-- The type names in several items. -/
def typeNamesOfAll : List Item → List String
  | [] => []
  | p :: rest => p.typeNames ++ typeNamesOfAll rest

end

section

variable {ans ans' : String → Except Error Symbol}

mutual

/-- Answers that agree on the names in an item print it alike. -/
theorem eval_tokens_congr (lib : RuntimeLibrary) : ∀ p : Item,
    (∀ t ∈ p.typeNames, ans t = ans' t) → (p.tokens lib).eval ans = (p.tokens lib).eval ans'
  | .text s, _ => rfl
  | .bool b, _ => rfl
  | .number x, _ => rfl
  | .int64 n, _ => rfl
  | .bytes bs, _ => rfl
  | .symbol s, _ => rfl
  | .entity ref, h => by
      have href : ans ref.typeName = ans' ref.typeName := h ref.typeName (by simp [typeNames])
      have hask : (Inquiry.resolve ref).eval ans = (Inquiry.resolve ref).eval ans' := by
        show (ans ref.typeName).map _ = (ans' ref.typeName).map _
        rw [href]
      rw [tokens, Inquiry.eval_bind, Inquiry.eval_bind, hask]
      rfl
  | .seq items, h => eval_tokensOfAll_congr lib items h

theorem eval_tokensOfAll_congr (lib : RuntimeLibrary) : ∀ items : List Item,
    (∀ t ∈ typeNamesOfAll items, ans t = ans' t) →
      (tokensOfAll lib items).eval ans = (tokensOfAll lib items).eval ans'
  | [], _ => rfl
  | p :: rest, h => by
      have hp : (p.tokens lib).eval ans = (p.tokens lib).eval ans' :=
        eval_tokens_congr lib p fun t ht => h t (List.mem_append_left _ ht)
      have hrest : (tokensOfAll lib rest).eval ans = (tokensOfAll lib rest).eval ans' :=
        eval_tokensOfAll_congr lib rest fun t ht => h t (List.mem_append_right _ ht)
      simp only [tokensOfAll, Inquiry.eval_bind, hp, hrest]
      rfl

end

end

end Item

/-! ## The names in a file -/

/-- A line of JSON values refers to an entity: it stands for an item in some module, and the item
has the type name. -/
def Json.RefersTo (line : Json) (typeName : String) : Prop :=
  ∃ home p, Item.ofJson home line = .ok p ∧ typeName ∈ p.typeNames

namespace PlannedFile

variable {ans ans' : String → Except Error Symbol}

/-- One line is printed alike, or refused for the same reason. -/
theorem eval_printLine_congr (lib : RuntimeLibrary) (f : OutputFile) {line : Json}
    (h : ∀ t, line.RefersTo t → ans t = ans' t) :
    (printLine lib f line).eval ans = (printLine lib f line).eval ans' := by
  unfold printLine
  rw [Inquiry.eval_bind, Inquiry.eval_bind, Inquiry.eval_ofExcept, Inquiry.eval_ofExcept]
  cases hread : Item.ofJson f.importPath line with
  | error e => rfl
  | ok p =>
      have hp : ∀ t ∈ (Item.seq [p]).typeNames, ans t = ans' t := by
        intro t ht
        rw [Item.typeNames, Item.typeNamesOfAll, Item.typeNamesOfAll, List.append_nil] at ht
        exact h t ⟨f.importPath, p, hread, ht⟩
      rw [except_bind_ok, except_bind_ok, OutputFile.eval_print, OutputFile.eval_print,
        OutputFile.eval_lineTokens, OutputFile.eval_lineTokens, Item.eval_tokens_congr lib _ hp]

/-- So are all lines, one after the other: whichever line is the first to fail with one kind of
answers is the first to fail with the other. -/
theorem eval_printLines_congr (lib : RuntimeLibrary) (f : OutputFile) {lines : List Json}
    (h : ∀ line ∈ lines, ∀ t, line.RefersTo t → ans t = ans' t) :
    (printLines lib f lines).eval ans = (printLines lib f lines).eval ans' := by
  induction lines generalizing f with
  | nil => rfl
  | cons line rest ih =>
      obtain ⟨hline, hrest⟩ := List.forall_mem_cons.mp h
      unfold printLines
      rw [Inquiry.eval_bind, Inquiry.eval_bind, eval_printLine_congr lib f hline]
      cases (printLine lib f line).eval ans' with
      | error e => rfl
      | ok f' => exact ih f' hrest

/-- **What a file asks.** A file is printed alike with answers that agree on the names in its
lines. -/
theorem eval_build_congr (run : Run) (p : PlannedFile)
    (h : ∀ line ∈ p.lines, ∀ t, line.RefersTo t → ans t = ans' t) :
    (p.build run).eval ans = (p.build run).eval ans' :=
  eval_printLines_congr run.library (p.start run) h

/-- A file is printed alike in runs with the same last entity of each name in its lines. -/
theorem printed_congr (settings : Settings) {es es' : List Entity} {p : PlannedFile}
    (h : ∀ line ∈ p.lines, ∀ t, line.RefersTo t →
      Registry.lastNamed? es t = Registry.lastNamed? es' t) :
    p.printed settings es = p.printed settings es' := by
  rw [printed_eq_eval, printed_eq_eval]
  exact eval_build_congr ⟨settings⟩ p fun line hline t ht =>
    Registry.answer_ofEntities_congr settings.naming (h line hline t ht)

end PlannedFile

/-! ## The names in a plan -/

namespace Plan

/-- Some line of the plan refers to the entity with this type name. -/
def RefersTo (plan : Plan) (typeName : String) : Prop :=
  ∃ p ∈ plan.files, ∃ line ∈ p.lines, line.RefersTo typeName

/-- **Only the last entities that are referred to count.** Plans with the same settings and files,
and with the same last entity of each type name that a line refers to, give the same output or fail
with the same error. -/
theorem output_eq_of_lastNamed? {plan plan' : Plan} (hsettings : plan.settings = plan'.settings)
    (hfiles : plan.files = plan'.files)
    (hentities : ∀ t, plan.RefersTo t →
      Registry.lastNamed? plan.entities t = Registry.lastNamed? plan'.entities t)
    (parameter : Option String) : plan.output parameter = plan'.output parameter := by
  have heffective : plan.effectiveSettings parameter = plan'.effectiveSettings parameter := by
    unfold effectiveSettings
    rw [hsettings]
  cases hs : plan.effectiveSettings parameter with
  | error e =>
      have hs' : plan'.effectiveSettings parameter = .error e := by rw [← heffective, hs]
      unfold output
      rw [hs, hs']
      rfl
  | ok settings =>
      have hs' : plan'.effectiveSettings parameter = .ok settings := by rw [← heffective, hs]
      have hprinted : ∀ p ∈ plan.files,
          p.printed settings plan.entities = p.printed settings plan'.entities := by
        intro p hp
        exact PlannedFile.printed_congr settings fun line hline t ht =>
          hentities t ⟨p, hp, line, hline, ht⟩
      have hall : plan.files.mapM (PlannedFile.printed settings plan.entities)
          = plan.files.mapM (PlannedFile.printed settings plan'.entities) := mapM_congr hprinted
      rw [output_eq hs, output_eq hs', hall, hfiles]

/-- A plan that refers to `p.Foo` only, with an older `p.Foo` and another entity in its list. -/
def cluttered : Plan where
  entities :=
    [⟨"p.Foo", .enum, "old.proto", none⟩, ⟨"p.Bar", .enum, "b.proto", some "p"⟩,
      ⟨"p.Foo", .message, "a.proto", some "p"⟩]
  files :=
    [{ name := "m_pb.ts", lines :=
        [.array [.string "type A = ", .object [("type", .string "p.Foo")]],
          .object [("type", .string "p.Foo"), ("typeOnly", .bool true)]] }]

/-- The same plan with other entities around the last `p.Foo`. -/
def tidied : Plan :=
  { cluttered with
    entities := [⟨"p.Foo", .message, "a.proto", some "p"⟩, ⟨"q.Baz", .enum, "c.proto", none⟩] }

theorem eq_of_refersTo_cluttered {t : String} (h : cluttered.RefersTo t) : t = "p.Foo" := by
  obtain ⟨p, hp, line, hline, home, item, hitem, ht⟩ := h
  simp only [cluttered, List.mem_singleton] at hp
  subst hp
  rcases List.mem_pair.mp hline with rfl | rfl
  · have hread : Item.ofJson home
        (.array [.string "type A = ", .object [("type", .string "p.Foo")]])
        = .ok (.seq [.text "type A = ", .entity ⟨"p.Foo", false⟩]) := rfl
    rw [hread] at hitem
    cases hitem
    simpa [Item.typeNames, Item.typeNamesOfAll] using ht
  · have hread : Item.ofJson home
        (.object [("type", .string "p.Foo"), ("typeOnly", .bool true)])
        = .ok (.entity ⟨"p.Foo", true⟩) := rfl
    rw [hread] at hitem
    cases hitem
    simpa [Item.typeNames] using ht

theorem cluttered_output_eq :
    (cluttered.settings = tidied.settings ∧ cluttered.files = tidied.files ∧
      ∀ t, cluttered.RefersTo t →
        Registry.lastNamed? cluttered.entities t = Registry.lastNamed? tidied.entities t) ∧
    cluttered.output (some "target=js") = tidied.output (some "target=js") ∧
    (cluttered.output (some "target=js")).toOption.map Output.files = some [⟨"m_pb.ts",
      "import \x7bFoo\x7d from \"./a_pb.js\";\n\ntype A = Foo\nFoo\n"⟩] := by
  have hsettings : cluttered.settings = tidied.settings := rfl
  have hfiles : cluttered.files = tidied.files := rfl
  have hentities : ∀ t, cluttered.RefersTo t →
      Registry.lastNamed? cluttered.entities t = Registry.lastNamed? tidied.entities t := by
    intro t ht
    rw [eq_of_refersTo_cluttered ht]
    decide
  exact ⟨⟨hsettings, hfiles, hentities⟩,
    output_eq_of_lastNamed? hsettings hfiles hentities (some "target=js"), by decide +kernel⟩

end Plan

end ModuleAssembly
