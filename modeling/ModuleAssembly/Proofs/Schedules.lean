import ModuleAssembly.Proofs.Lists
import ModuleAssembly.Proofs.Memo
import ModuleAssembly.Proofs.Results
import ModuleAssembly.Workers

/-!
# Workers do not notice each other

Workers that build files of one run share the memory of the registry, and between the two steps of
one worker any number of steps of the others may happen. A registry remembers nothing but symbols
of entities that it knows (`Registry.Knows`), so settling a type name late gives the answer that
resolving it at once would have given. Hence a step of a worker changes neither what the registry
would answer nor what any worker will end up with (`Workers.Step.keeps`), and a whole schedule does
not either: every worker gets what it would get on its own.
-/

set_option autoImplicit false

namespace ModuleAssembly

/-! ## The memory between two steps -/

namespace Registry

/-- Every type name whose symbol is remembered belongs to an entity. -/
def Knows (r : Registry) : Prop :=
  ∀ t s, r.lookup? t = some s → ∃ e, r.get? t = some e

/-- Settling a type name is as good as resolving it, also when others have settled it meanwhile. -/
theorem settle_eq_resolve {r : Registry} (h : r.Knows) (t : String) :
    r.settle t = r.resolve t := by
  unfold resolve
  cases hl : r.lookup? t with
  | none => rfl
  | some s =>
      obtain ⟨e, he⟩ := h t s hl
      unfold settle
      rw [he, hl]

/-- What is remembered is never replaced. -/
theorem lookup?_resolve {r : Registry} {t u : String} {s : Symbol} (h : r.lookup? u = some s) :
    (r.resolve t).2.lookup? u = some s := by
  rw [lookup?_resolve_eq, h, Option.some_or]

theorem Knows.resolve {r : Registry} (h : r.Knows) (t : String) : (r.resolve t).2.Knows := by
  intro u s hu
  rw [get?_resolve]
  rw [lookup?_resolve_eq] at hu
  rcases Option.or_eq_some_iff.mp hu with hold | ⟨-, hnew⟩
  · exact h u s hold
  · -- only a type name with an entity is newly remembered
    split at hnew
    · obtain ⟨e, he, -⟩ := Option.map_eq_some_iff.mp hnew
      exact ⟨e, he⟩
    · cases hnew

/-- A registry that was just filled remembers nothing. -/
theorem knows_ofEntities (naming : Naming) (es : List Entity) : (ofEntities naming es).Knows := by
  intro t s h
  rw [lookup?_ofEntities] at h
  cases h

end Registry

/-! ## What is left to do -/

/-- A failure that is an ordinary result is the failure that there would be. -/
theorem Inquiry.eval_attempt {α : Type} (ans : String → Except Error Symbol) (q : Inquiry α) :
    q.attempt.eval ans = .ok (q.eval ans) := by
  induction q with
  | done result => rfl
  | ask typeName next ih => exact ih (ans typeName)

/-- How many questions an inquiry asks when they are answered by `ans`. -/
def Inquiry.questions {α : Type} (ans : String → Except Error Symbol) : Inquiry α → Nat
  | .done _ => 0
  | .ask typeName next => (next (ans typeName)).questions ans + 1

namespace Worker

variable {α : Type}

/-- What a worker ends up with when its questions are answered by `ans`. -/
def eval (ans : String → Except Error Symbol) : Worker α → Except Error α
  | .ready rest => rest.eval ans
  | .settling typeName next => (next (ans typeName)).eval ans

/-- The greatest number of steps that a worker still takes: two for every question. -/
def stepsLeft (ans : String → Except Error Symbol) : Worker α → Nat
  | .ready rest => 2 * rest.questions ans
  | .settling typeName next => 2 * (next (ans typeName)).questions ans + 1

theorem step?_ask (r : Registry) (t : String) (next : Except Error Symbol → Inquiry α) :
    step? r (.ready (.ask t next)) = match r.lookup? t with
      | some s => some (.ready (next (.ok s)), r)
      | none => some (.settling t next, r) := rfl

theorem step?_settling (r : Registry) (t : String) (next : Except Error Symbol → Inquiry α) :
    step? r (.settling t next) = some (.ready (next (r.settle t).1), (r.settle t).2) := rfl

/-- **One step of a worker.** A look-up that answers, a look-up that does not, or settling a name;
the answers are those that the registry would give at once. -/
theorem step?_cases {r r' : Registry} {w w' : Worker α} (hr : r.Knows)
    (h : w.step? r = some (w', r')) :
    (∃ t next, w = .ready (.ask t next) ∧ w' = .ready (next (r.answer t)) ∧ r' = r) ∨
      (∃ t next, w = .ready (.ask t next) ∧ w' = .settling t next ∧ r' = r) ∨
      (∃ t next, w = .settling t next ∧ w' = .ready (next (r.answer t)) ∧
        r' = (r.resolve t).2) := by
  cases w with
  | ready rest =>
      cases rest with
      | done result => cases h
      | ask t next =>
          rw [step?_ask] at h
          cases hl : r.lookup? t with
          | some s =>
              rw [hl] at h
              cases h
              refine .inl ⟨t, next, rfl, ?_, rfl⟩
              rw [Registry.answer_of_lookup hl]
          | none =>
              rw [hl] at h
              cases h
              exact .inr (.inl ⟨t, next, rfl, rfl, rfl⟩)
  | settling t next =>
      rw [step?_settling, Registry.settle_eq_resolve hr] at h
      cases h
      exact .inr (.inr ⟨t, next, rfl, rfl, rfl⟩)

/-- A worker that has not finished can take a step, whatever the others have done. -/
theorem exists_step?_of_result?_eq_none (r : Registry) {w : Worker α} (h : w.result? = none) :
    ∃ w' r', w.step? r = some (w', r') := by
  cases w with
  | ready rest =>
      cases rest with
      | done result => cases h
      | ask t next =>
          rw [step?_ask]
          cases r.lookup? t with
          | some s => exact ⟨_, _, rfl⟩
          | none => exact ⟨_, _, rfl⟩
  | settling t next => exact ⟨_, _, rfl⟩

/-- A finished worker ends up with its result. -/
theorem eval_of_result? {ans : String → Except Error Symbol} {w : Worker α}
    {result : Except Error α} (h : w.result? = some result) : w.eval ans = result := by
  cases w with
  | ready rest =>
      cases rest with
      | done result' =>
          cases h
          rfl
      | ask t next => cases h
  | settling t next => cases h

/-- What a worker is told is what the registry would answer at once. -/
theorem answer_of_told? {r : Registry} (hr : r.Knows) {w : Worker α} {t : String}
    {a : Except Error Symbol} (h : w.told? r = some (t, a)) : r.answer t = a := by
  cases w with
  | ready rest =>
      cases rest with
      | done result => cases h
      | ask t' next =>
          obtain ⟨s, hl, heq⟩ := Option.map_eq_some_iff.mp h
          cases heq
          exact Registry.answer_of_lookup hl
  | settling t' next =>
      have hanswer : r.answer t' = (r.settle t').1 := by
        rw [Registry.settle_eq_resolve hr]
        rfl
      cases h
      exact hanswer

end Worker

/-! ## Schedules -/

namespace Workers

variable {α : Type}

/-- What a schedule keeps from the state `(r, ws)` to the state `(r', ws')`. -/
structure Keeps (r : Registry) (ws : List (Worker α)) (r' : Registry) (ws' : List (Worker α)) :
    Prop where
  /-- The registry would give the same answers. -/
  answer : r'.answer = r.answer
  knows : r'.Knows
  /-- What was remembered is remembered. -/
  lookup : ∀ t s, r.lookup? t = some s → r'.lookup? t = some s
  /-- The workers end up with the same. -/
  eval : ws'.map (Worker.eval r.answer) = ws.map (Worker.eval r.answer)

/-- The greatest number of steps that workers still take. -/
def stepsLeft (ans : String → Except Error Symbol) : List (Worker α) → Nat
  | [] => 0
  | w :: rest => w.stepsLeft ans + stepsLeft ans rest

theorem stepsLeft_append (ans : String → Except Error Symbol) (front back : List (Worker α)) :
    stepsLeft ans (front ++ back) = stepsLeft ans front + stepsLeft ans back := by
  induction front with
  | nil => simp only [List.nil_append, stepsLeft, Nat.zero_add]
  | cons w rest ih =>
      rw [List.cons_append, stepsLeft, stepsLeft, ih]
      omega

theorem Keeps.refl {r : Registry} (h : r.Knows) (ws : List (Worker α)) : Keeps r ws r ws :=
  ⟨rfl, h, fun _ _ hs => hs, rfl⟩

theorem Keeps.trans {r r' r'' : Registry} {ws ws' ws'' : List (Worker α)}
    (h : Keeps r ws r' ws') (h' : Keeps r' ws' r'' ws'') : Keeps r ws r'' ws'' := by
  refine ⟨h'.answer.trans h.answer, h'.knows, fun t s hs => h'.lookup t s (h.lookup t s hs), ?_⟩
  have heval := h'.eval
  rw [h.answer] at heval
  exact heval.trans h.eval

/-- The registry after a step of one worker, and what is kept of the worker. -/
theorem keeps_of_step? {r r' : Registry} {w w' : Worker α} (hr : r.Knows)
    (h : w.step? r = some (w', r')) :
    Keeps r [w] r' [w'] ∧ w'.stepsLeft r.answer < w.stepsLeft r.answer := by
  rcases Worker.step?_cases hr h with ⟨t, next, rfl, rfl, rfl⟩ | ⟨t, next, rfl, rfl, rfl⟩ |
    ⟨t, next, rfl, rfl, rfl⟩
  · refine ⟨⟨rfl, hr, fun _ _ hs => hs, rfl⟩, ?_⟩
    simp only [Worker.stepsLeft, Inquiry.questions]
    omega
  · refine ⟨⟨rfl, hr, fun _ _ hs => hs, rfl⟩, ?_⟩
    simp only [Worker.stepsLeft, Inquiry.questions]
    omega
  · refine ⟨⟨funext (Registry.answer_resolve r t), hr.resolve t,
      fun _ _ hs => Registry.lookup?_resolve hs, rfl⟩, ?_⟩
    simp only [Worker.stepsLeft]
    omega

/-- **One step of any worker.** It keeps everything and brings the workers nearer to their end. -/
theorem Step.keeps {r r' : Registry} {ws ws' : List (Worker α)} (hr : r.Knows)
    (h : Step r ws r' ws') :
    Keeps r ws r' ws' ∧ stepsLeft r.answer ws' < stepsLeft r.answer ws := by
  cases h with
  | @of r' front back w w' hstep =>
      obtain ⟨hkeeps, hless⟩ := keeps_of_step? hr hstep
      refine ⟨⟨hkeeps.answer, hkeeps.knows, hkeeps.lookup, ?_⟩, ?_⟩
      · have heval : w'.eval r.answer = w.eval r.answer := List.singleton_inj.mp hkeeps.eval
        rw [List.map_append, List.map_append, List.map_cons, List.map_cons, heval]
      · rw [stepsLeft_append, stepsLeft_append, stepsLeft, stepsLeft]
        omega

/-- **A schedule.** Any number of steps of the workers keeps everything. -/
theorem Steps.keeps {r r' : Registry} {ws ws' : List (Worker α)} (hr : r.Knows)
    (h : Steps r ws r' ws') : Keeps r ws r' ws' := by
  induction h with
  | refl r ws => exact Keeps.refl hr ws
  | head first rest ih =>
      have hfirst := (first.keeps hr).1
      exact hfirst.trans (ih hfirst.knows)

/-- No schedule goes on for ever. -/
theorem not_endless {states : Nat → Registry × List (Worker α)} (hr : (states 0).1.Knows) :
    ¬ ∀ n, Step (states n).1 (states n).2 (states (n + 1)).1 (states (n + 1)).2 := by
  intro h
  -- all answers are those of the start, so the steps that are left are counted alike everywhere
  have hkeeps : ∀ n, Keeps (states 0).1 (states 0).2 (states n).1 (states n).2 := by
    intro n
    induction n with
    | zero => exact Keeps.refl hr _
    | succ n ih => exact ih.trans ((h n).keeps ih.knows).1
  have hless : ∀ n, stepsLeft (states 0).1.answer (states n).2 + n
      ≤ stepsLeft (states 0).1.answer (states 0).2 := by
    intro n
    induction n with
    | zero => exact Nat.le_refl _
    | succ n ih =>
        have hstep := ((h n).keeps (hkeeps n).knows).2
        rw [(hkeeps n).answer] at hstep
        omega
  have := hless (stepsLeft (states 0).1.answer (states 0).2 + 1)
  omega

/-! ### Schedules that are given by turns -/

theorem Steps.trans {r r' r'' : Registry} {ws ws' ws'' : List (Worker α)}
    (h : Steps r ws r' ws') (h' : Steps r' ws' r'' ws'') : Steps r ws r'' ws'' := by
  induction h with
  | refl r ws => exact h'
  | head first rest ih => exact .head first (ih h')

theorem steps_turn (i : Nat) (state : Registry × List (Worker α)) :
    Steps state.1 state.2 (turn i state).1 (turn i state).2 := by
  unfold turn
  cases hstep : (state.2[i]?).bind (Worker.step? state.1) with
  | none => exact .refl _ _
  | some next =>
      obtain ⟨w, hw, hstep⟩ := Option.bind_eq_some_iff.mp hstep
      obtain ⟨hi, hget⟩ := List.getElem?_eq_some_iff.mp hw
      have hset : state.2.set i next.1 = state.2.take i ++ next.1 :: state.2.drop (i + 1) := by
        rw [List.set_eq_take_append_cons_drop, if_pos hi]
      have hsplit : state.2 = state.2.take i ++ w :: state.2.drop (i + 1) := by
        rw [← hget, List.getElem_cons_drop, List.take_append_drop]
      have hone : Steps state.1 (state.2.take i ++ w :: state.2.drop (i + 1)) next.2
          (state.2.take i ++ next.1 :: state.2.drop (i + 1)) := .head (.of hstep) (.refl _ _)
      rw [← hsplit, ← hset] at hone
      exact hone

/-- Turns of workers are a schedule. -/
theorem steps_follow (turns : List Nat) (state : Registry × List (Worker α)) :
    Steps state.1 state.2 (follow turns state).1 (follow turns state).2 := by
  induction turns generalizing state with
  | nil => exact .refl _ _
  | cons i rest ih => exact (steps_turn i state).trans (ih (turn i state))

/-! ## Files of workers -/

/-- The registries that workers leave behind, whatever their jobs were and however far they came. -/
inductive LeftBehind (lib : RuntimeLibrary) (empty : Registry) : Registry → Prop where
  | untouched : LeftBehind lib empty empty
  | after {r r' : Registry} {jobs : List FileJob} {ws : List (Worker FileReport)}
      (start : LeftBehind lib empty r)
      (schedule : Steps r (jobs.map (FileJob.worker lib)) r' ws) : LeftBehind lib empty r'

theorem LeftBehind.knows {lib : RuntimeLibrary} {empty r : Registry} (hempty : empty.Knows)
    (h : LeftBehind lib empty r) : r.Knows ∧ r.answer = empty.answer := by
  induction h with
  | untouched => exact ⟨hempty, rfl⟩
  | after start schedule ih =>
      have hkeeps := schedule.keeps ih.1
      exact ⟨hkeeps.knows, hkeeps.answer.trans ih.2⟩

/-- Whatever prints fail, there is a report in the end. -/
theorem exists_eval_printEach (ans : String → Except Error Symbol) (lib : RuntimeLibrary)
    (f : OutputFile) (prints : List Print) :
    ∃ x, (FileJob.printEach lib f prints).eval ans = .ok x := by
  induction prints generalizing f with
  | nil => exact ⟨_, rfl⟩
  | cons p rest ih =>
      unfold FileJob.printEach
      rw [Inquiry.eval_bind, Inquiry.eval_attempt, except_bind_ok]
      cases (p.into lib f).eval ans with
      | ok f' =>
          obtain ⟨x, hx⟩ := ih f'
          refine ⟨(none :: x.1, x.2), ?_⟩
          dsimp only
          rw [Inquiry.eval_bind, hx]
          rfl
      | error e =>
          obtain ⟨x, hx⟩ := ih f
          refine ⟨(some e :: x.1, x.2), ?_⟩
          dsimp only
          rw [Inquiry.eval_bind, hx]
          rfl

theorem exists_eval_work (ans : String → Except Error Symbol) (lib : RuntimeLibrary)
    (job : FileJob) : ∃ report, (job.work lib).eval ans = .ok report := by
  obtain ⟨x, hx⟩ := exists_eval_printEach ans lib job.file job.prints
  refine ⟨⟨x.1, x.2.tokens, x.2.artifact?⟩, ?_⟩
  unfold FileJob.work
  rw [Inquiry.eval_bind, hx]
  rfl

/-- **Workers do not notice each other.** What it means that a schedule of workers with these jobs,
which has come to the state `(r, ws)`, does to each of them what `empty`, a registry that remembers
nothing yet, would do to it alone. -/
structure OnTheirOwn (lib : RuntimeLibrary) (empty : Registry) (jobs : List FileJob) (r : Registry)
    (ws : List (Worker FileReport)) : Prop where
  /-- There is one worker for each job. Once it has finished, it has the report that it would have
  alone: the same errors, the same body and the same artifact. -/
  report : List.Forall₂ (fun job w => ∃ report, ((job.work lib).run empty).1 = .ok report ∧
    ∀ result, w.result? = some result → result = .ok report) jobs ws
  /-- A worker that has not finished can take a step. -/
  progress : ∀ front w back, ws = front ++ w :: back → w.result? = none →
    ∃ r' w', Step r ws r' (front ++ w' :: back)
  /-- The schedule does not go on for ever. -/
  ends : ∀ states : Nat → Registry × List (Worker FileReport), states 0 = (r, ws) →
    ¬ ∀ n, Step (states n).1 (states n).2 (states (n + 1)).1 (states (n + 1)).2
  /-- A symbol that is remembered is never replaced. -/
  kept : ∀ t s, r.lookup? t = some s → ∀ r' ws', Steps r ws r' ws' → r'.lookup? t = some s
  /-- A worker that asks for a type name is told what `empty` would answer, so whoever asks for it
  and whenever, the answer is the same. -/
  told : ∀ w ∈ ws, ∀ t a, w.told? r = some (t, a) → a = (empty.resolve t).1

/-- Every schedule leaves the workers on their own, whatever earlier workers left behind. -/
theorem steps_onTheirOwn {lib : RuntimeLibrary} {naming : Naming} {entities : List Entity}
    {jobs : List FileJob} {r r' : Registry} {ws : List (Worker FileReport)}
    (hr : LeftBehind lib (Registry.ofEntities naming entities) r)
    (h : Steps r (jobs.map (FileJob.worker lib)) r' ws) :
    OnTheirOwn lib (Registry.ofEntities naming entities) jobs r' ws := by
  obtain ⟨hknows, hanswer⟩ := hr.knows (Registry.knows_ofEntities naming entities)
  have hkeeps := h.keeps hknows
  refine ⟨?_, ?_, ?_, ?_, ?_⟩
  · have heval := hkeeps.eval
    rw [List.map_map] at heval
    refine (forall₂_of_map_eq heval.symm).imp fun job w hw => ?_
    obtain ⟨report, hreport⟩ := exists_eval_work r.answer lib job
    refine ⟨report, ?_, fun result hresult => ?_⟩
    · rw [Inquiry.run_eq_eval, ← hanswer, hreport]
    · have hend : (job.work lib).eval r.answer = w.eval r.answer := hw
      rw [← Worker.eval_of_result? hresult, ← hend, hreport]
  · rintro front w back rfl hw
    obtain ⟨w', r'', hstep⟩ := Worker.exists_step?_of_result?_eq_none r' hw
    exact ⟨r'', w', .of hstep⟩
  · intro states hstart
    have hstates : (states 0).1.Knows := by
      rw [hstart]
      exact hkeeps.knows
    exact not_endless hstates
  · intro t s hs r'' ws'' hlater
    exact (hlater.keeps hkeeps.knows).lookup t s hs
  · intro w _ t a htold
    rw [← Worker.answer_of_told? hkeeps.knows htold, hkeeps.answer, hanswer]
    rfl

/-- A registry with two entities. -/
def racingRegistry : Registry :=
  Registry.ofEntities ⟨"_pb", ".js"⟩
    [⟨"p.Foo", .message, "a.proto", some "p"⟩, ⟨"p.Baz", .enum, "b.proto", some "p"⟩]

/-- The library of the racing workers. -/
def racingLibrary : RuntimeLibrary := ⟨"@bufbuild/protobuf"⟩

/-- A job for an earlier worker. -/
def racingEarlier : List FileJob :=
  [⟨OutputFile.create {} "w_pb.ts" "./w_pb.js",
    [.line [.entity ⟨"p.Baz", false⟩, .entity ⟨"p.Foo", false⟩]]⟩]

/-- What the earlier worker leaves behind: it has settled `p.Baz` and has only looked up `p.Foo`. -/
def racingStart : Registry :=
  (follow [0, 0, 0] (racingRegistry, racingEarlier.map (FileJob.worker racingLibrary))).1

/-- Two jobs that need `p.Foo`. The second one asks for a name that nobody knows before. -/
def racingJobs : List FileJob :=
  [⟨OutputFile.create {} "x_pb.ts" "./x_pb.js",
      [.line [.entity ⟨"p.Foo", false⟩, .entity ⟨"p.Baz", true⟩]]⟩,
    ⟨OutputFile.create {} "y_pb.ts" "./y_pb.js",
      [.line [.text "lost", .entity ⟨"p.Bar", false⟩], .line [.entity ⟨"p.Foo", true⟩]]⟩]

/-- Both workers look `p.Foo` up before either settles it, and the first one settles it first. -/
def racing : Registry × List (Worker FileReport) :=
  follow [1, 1, 1, 0, 0, 1, 0] (racingStart, racingJobs.map (FileJob.worker racingLibrary))

/-- What the racing workers report. -/
def racingReports : List (Option (List (Option Error) × Option (Option Artifact))) :=
  racing.2.map fun w => (w.result?.bind Except.toOption).map fun report =>
    (report.errors, report.artifact.toOption)

theorem racing_onTheirOwn :
    LeftBehind racingLibrary racingRegistry racingStart ∧
      Steps racingStart (racingJobs.map (FileJob.worker racingLibrary)) racing.1 racing.2 ∧
      OnTheirOwn racingLibrary racingRegistry racingJobs racing.1 racing.2 ∧
      racingReports =
        [some ([none], some (some ⟨"x_pb.ts", "import \x7bFoo\x7d from \"./a_pb.js\";\n"
            ++ "import type \x7bBaz\x7d from \"./b_pb.js\";\n\nFooBaz\n"⟩)),
          some ([some (.unknownEntity "p.Bar"), none], some (some ⟨"y_pb.ts",
            "import type \x7bFoo\x7d from \"./a_pb.js\";\n\nFoo\n"⟩))] := by
  have hstart : LeftBehind racingLibrary racingRegistry racingStart :=
    .after .untouched (steps_follow [0, 0, 0]
      (racingRegistry, racingEarlier.map (FileJob.worker racingLibrary)))
  have hsteps : Steps racingStart (racingJobs.map (FileJob.worker racingLibrary)) racing.1
      racing.2 :=
    steps_follow [1, 1, 1, 0, 0, 1, 0]
      (racingStart, racingJobs.map (FileJob.worker racingLibrary))
  exact ⟨hstart, hsteps, steps_onTheirOwn hstart hsteps, by decide +kernel⟩

end Workers

end ModuleAssembly
