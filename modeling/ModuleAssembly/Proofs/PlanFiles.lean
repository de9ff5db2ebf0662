import ModuleAssembly.Plan
import ModuleAssembly.Proofs.FileContent

/-!
# The files of a plan do not influence one another

All files of a plan are printed with one registry, and only then is the first of them finished.
What the registry remembers cannot be seen, so every file is printed as if it were the only one
(`Plan.run_build`); and finishing a file asks nothing. So a plan gives what its files give one by
one, and fails as the first file that fails alone.
-/

set_option autoImplicit false

namespace ModuleAssembly

/-! ## One file -/

namespace PlannedFile

theorem name_start (run : Run) (p : PlannedFile) : (p.start run).name = p.name := by
  unfold start
  cases p.schema <;> cases p.keepEmpty <;> rfl

theorem tokens_start (run : Run) (p : PlannedFile) : (p.start run).tokens = [] := by
  unfold start
  cases p.schema <;> cases p.keepEmpty <;> rfl

theorem importPath_start (run : Run) (p : PlannedFile) :
    (p.start run).importPath = run.importPathOf p.name := by
  unfold start
  cases p.schema <;> cases p.keepEmpty <;> rfl

theorem tokens_append_start (run : Run) (p : PlannedFile) (tokens : List Token) :
    ((p.start run).append tokens).tokens = tokens := by
  rw [OutputFile.append, tokens_start, List.nil_append]

variable (settings : Settings) (entities : List Entity)

/-- The file with all its lines, in a run in which nothing else is printed. -/
def printed (p : PlannedFile) : Except Error OutputFile :=
  let run : Run := ⟨settings⟩
  ((p.build run).run (run.registry entities)).1

/-- The file is printed with the answers that the registry gives at the start. -/
theorem printed_eq_eval : printed settings entities = fun p : PlannedFile =>
    (p.build ⟨settings⟩).eval (Run.registry ⟨settings⟩ entities).answer :=
  funext fun _ => Inquiry.run_eq_eval _ _

/-- The finished file, in a run in which nothing else is printed. -/
def finished (p : PlannedFile) : Except Error (Option Artifact) :=
  (p.printed settings entities).bind OutputFile.artifact?

end PlannedFile

/-- A file that cannot be finished has run out of aliases. -/
theorem OutputFile.artifact?_eq_error {f : OutputFile} {e : Error} (h : f.artifact? = .error e) :
    ∃ name, e = .aliasExhaustion name := by
  rcases except_bind_eq_error.mp h with hr | ⟨r, -, hr⟩
  · exact Resolution.ofTokensWith_eq_error hr
  · cases hr

/-- The artifacts of files are those of each file; a file that is left out has none. -/
theorem Run.artifacts_eq_mapM (files : List OutputFile) :
    artifacts files
      = (files.mapM OutputFile.artifact?).map fun as => as.flatMap Option.toList := by
  induction files with
  | nil => rfl
  | cons f rest ih =>
      rw [artifacts, ih, mapM_cons_eq_bind]
      cases f.artifact? with
      | error e => rfl
      | ok a => cases rest.mapM OutputFile.artifact? <;> rfl

/-! ## Lists of files -/

namespace Plan

/-- The files of a plan are printed one by one, each with the answers of the start. -/
theorem eval_build (ans : String → Except Error Symbol) (run : Run) (files : List PlannedFile) :
    (build run files).eval ans = files.mapM fun p => (p.build run).eval ans := by
  induction files with
  | nil => rfl
  | cons p rest ih =>
      unfold build
      rw [List.mapM_cons, ← ih, Inquiry.eval_bind]
      cases (p.build run).eval ans with
      | error e => rfl
      | ok f =>
          rw [except_bind_ok, Inquiry.eval_bind]
          rfl

/-- Every file is printed as if it were the only one. -/
theorem run_build (settings : Settings) (entities : List Entity) (files : List PlannedFile) :
    ((build ⟨settings⟩ files).run (Run.registry ⟨settings⟩ entities)).1
      = files.mapM (PlannedFile.printed settings entities) := by
  rw [Inquiry.run_eq_eval, eval_build, PlannedFile.printed_eq_eval]

section

variable {settings : Settings} {entities : List Entity} {plan : Plan} {parameter : Option String}

/-- Then the files are finished, the first error ending the plan. -/
theorem output_eq (h : plan.effectiveSettings parameter = .ok settings) :
    plan.output parameter = (plan.files.mapM (PlannedFile.printed settings plan.entities)).bind
      (Run.collect ⟨settings⟩) := by
  unfold output
  rw [h, ← run_build]
  rfl

/-- A plan gives what its files give, one by one. -/
theorem output_eq_ok_iff (h : plan.effectiveSettings parameter = .ok settings) {o : Output} :
    plan.output parameter = .ok o ↔ ∃ as,
      List.Forall₂ (fun p a => p.finished settings plan.entities = .ok a) plan.files as ∧
        o = Run.output ⟨settings⟩ (as.flatMap Option.toList) := by
  have hfinished : ∀ as, plan.files.mapM (PlannedFile.finished settings plan.entities) = .ok as ↔
      (plan.files.mapM (PlannedFile.printed settings plan.entities)).bind
        (List.mapM OutputFile.artifact?) = .ok as := fun as => mapM_bind_mapM_eq_ok.symm
  simp only [← mapM_eq_ok_iff, hfinished, except_bind_eq_ok, output_eq h, Run.collect,
    Run.artifacts_eq_mapM, except_map_eq_ok]
  constructor
  · rintro ⟨fs, hfs, _, ⟨as, has, rfl⟩, rfl⟩
    exact ⟨as, ⟨fs, hfs, has⟩, rfl⟩
  · rintro ⟨as, ⟨fs, hfs, has⟩, rfl⟩
    exact ⟨fs, hfs, _, ⟨as, has, rfl⟩, rfl⟩

/-- The plan with only one of its files. -/
def only (plan : Plan) (p : PlannedFile) : Plan := { plan with files := [p] }

/-- A plan with one file gives what the file gives. -/
theorem output_only (h : plan.effectiveSettings parameter = .ok settings) (p : PlannedFile) :
    (plan.only p).output parameter = (p.finished settings plan.entities).map fun a =>
      Run.output ⟨settings⟩ a.toList := by
  have honly : (plan.only p).effectiveSettings parameter = .ok settings := h
  rw [output_eq honly]
  show ([p].mapM (PlannedFile.printed settings plan.entities)).bind _ = _
  rw [mapM_cons_eq_bind, PlannedFile.finished]
  cases p.printed settings plan.entities with
  | error e => rfl
  | ok f =>
      show (Run.artifacts [f]).map _ = _
      rw [Run.artifacts_eq_mapM, mapM_cons_eq_bind, except_bind_ok]
      cases f.artifact? with
      | error e => rfl
      | ok a =>
          cases a with
          | none => rfl
          | some a => rfl

end

/-! ## The whole plan -/

/-- **The files of a plan do not influence one another.** What it means that a plan gives with this
parameter what its files give one by one. -/
structure FilesIndependent (plan : Plan) (parameter : Option String) : Prop where
  /-- The plan succeeds exactly when each of its files does alone. -/
  succeeds_iff : (∃ o, plan.output parameter = .ok o) ↔
    ∀ p ∈ plan.files, ∃ part, (plan.only p).output parameter = .ok part
  /-- Its artifacts are those of its files, in order. A file that is left out has none. -/
  files : ∀ o, plan.output parameter = .ok o → ∃ parts : List Output,
    List.Forall₂ (fun p part => (plan.only p).output parameter = .ok part ∧
      part.files.length ≤ 1) plan.files parts ∧
      o.files = parts.flatMap Output.files
  /-- Its manifest has an entry for every artifact, in the same order. -/
  manifest : ∀ o, plan.output parameter = .ok o →
    o.manifest.files = o.files.map fun a => ⟨a.name, Sha256.hex a.content⟩
  /-- It fails as the first file that fails alone, whatever follows, except that running out of
  aliases is noticed last. -/
  fails : ∀ front p back e, plan.files = front ++ p :: back →
    (∀ q ∈ front, ∃ part, (plan.only q).output parameter = .ok part) →
    (plan.only p).output parameter = .error e → (∀ name, e ≠ .aliasExhaustion name) →
    plan.output parameter = .error e

/-- The files of every plan are independent, with every parameter that its settings accept. -/
theorem filesIndependent_of_accepted {plan : Plan} {parameter : Option String}
    {settings : Settings} (h : plan.effectiveSettings parameter = .ok settings) :
    FilesIndependent plan parameter := by
  have hone : ∀ p part, (plan.only p).output parameter = .ok part ↔
      ∃ a, p.finished settings plan.entities = .ok a ∧ Run.output ⟨settings⟩ a.toList = part := by
    intro p part
    rw [output_only h, except_map_eq_ok]
  refine ⟨?_, ?_, ?_, ?_⟩
  · calc (∃ o, plan.output parameter = .ok o)
        ↔ ∃ as, plan.files.mapM (PlannedFile.finished settings plan.entities) = .ok as := by
          simp only [output_eq_ok_iff h, mapM_eq_ok_iff]
          exact ⟨fun ⟨_, as, has, _⟩ => ⟨as, has⟩, fun ⟨as, has⟩ => ⟨_, as, has, rfl⟩⟩
      _ ↔ ∀ p ∈ plan.files, ∃ a, p.finished settings plan.entities = .ok a :=
          exists_mapM_eq_ok_iff
      _ ↔ ∀ p ∈ plan.files, ∃ part, (plan.only p).output parameter = .ok part := by
          simp only [hone]
          exact forall₂_congr fun p _ =>
            ⟨fun ⟨a, ha⟩ => ⟨_, a, ha, rfl⟩, fun ⟨_, a, ha, _⟩ => ⟨a, ha⟩⟩
  · intro o ho
    obtain ⟨as, has, rfl⟩ := (output_eq_ok_iff h).mp ho
    refine ⟨as.map fun a => Run.output ⟨settings⟩ a.toList, ?_, ?_⟩
    · rw [List.forall₂_map_right_iff]
      refine has.imp fun p a ha => ⟨(hone p _).mpr ⟨a, ha, rfl⟩, ?_⟩
      cases a with
      | none => exact Nat.zero_le 1
      | some a => exact Nat.le_refl 1
    · rw [List.flatMap_map]
      rfl
  · intro o ho
    obtain ⟨as, -, rfl⟩ := (output_eq_ok_iff h).mp ho
    rfl
  · intro front p back e hfiles hfront hp he
    -- the file fails while it is printed, because finishing it can only run out of aliases
    have hprinted : p.printed settings plan.entities = .error e := by
      rw [output_only h, except_map_eq_error] at hp
      rcases except_bind_eq_error.mp hp with hprinted | ⟨f, -, hf⟩
      · exact hprinted
      · obtain ⟨name, rfl⟩ := OutputFile.artifact?_eq_error hf
        exact absurd rfl (he name)
    have hbefore : ∀ q ∈ front, ∃ f, q.printed settings plan.entities = .ok f := by
      intro q hq
      obtain ⟨part, hpart⟩ := hfront q hq
      obtain ⟨a, ha, -⟩ := (hone q part).mp hpart
      obtain ⟨f, hf, -⟩ := except_bind_eq_ok.mp ha
      exact ⟨f, hf⟩
    rw [output_eq h, hfiles, mapM_append_cons_eq_error hbefore hprinted, except_bind_error]

/-- A plan with two files that share an entity, an empty file, and a file that fails. -/
def shared : Plan where
  entities := [⟨"p.Foo", .message, "a.proto", some "p"⟩]
  files :=
    [{ name := "x_pb.ts", lines := [.object [("type", .string "p.Foo")]] }, { name := "y_pb.ts" },
      { name := "z_pb.ts", lines := [.object [("type", .string "p.Foo")], .bool true] },
      { name := "w_pb.ts", lines := [.object [("type", .string "p.Foo")], .null] }]

/-- The last file makes the whole plan fail, and without it the others are finished. -/
theorem shared_filesIndependent :
    shared.effectiveSettings (some "target=js")
        = .ok { parameter := some "target=js", target := some "js" } ∧
      FilesIndependent shared (some "target=js") ∧
      shared.output (some "target=js") = .error (.unsupported "null") ∧
      ({ shared with files := shared.files.take 3 }.output none).toOption.map Output.files
        = some [⟨"x_pb.ts", "import \x7bFoo\x7d from \"./a_pb.js\";\n\nFoo\n"⟩,
          ⟨"z_pb.ts", "import \x7bFoo\x7d from \"./a_pb.js\";\n\nFoo\ntrue\n"⟩] := by
  have haccepted : shared.effectiveSettings (some "target=js")
      = .ok { parameter := some "target=js", target := some "js" } := by decide +kernel
  exact ⟨haccepted, filesIndependent_of_accepted haccepted, by decide +kernel, by decide +kernel⟩

end Plan

end ModuleAssembly
