import ModuleAssembly.Run

/-!
# Workers

Several workers may build files of one run at the same time. All they share is the registry, and
all they do to it are its two steps: looking a type name up, and settling the symbol of a type
name that was not found. Between the two steps of one worker any number of steps of the others may
happen. `Workers.Step` is one step of any worker, and `Workers.inTurn` is the schedule in which
each worker runs to its end before the next one starts.
-/

set_option autoImplicit false

namespace ModuleAssembly

/-- A worker between two steps. -/
inductive Worker (α : Type) where
  /-- About to look up the next type name, or finished. -/
  | ready (rest : Inquiry α)
  /-- The type name was not found and has to be settled. -/
  | settling (typeName : String) (next : Except Error Symbol → Inquiry α)

namespace Worker

variable {α : Type}

/-- The result of a finished worker. -/
def result? : Worker α → Option (Except Error α)
  | .ready (.done result) => some result
  | _ => none

/-- One step of a worker; a finished worker has none. -/
def step? (r : Registry) : Worker α → Option (Worker α × Registry)
  | .ready (.done _) => none
  | .ready (.ask typeName next) =>
    match r.lookup? typeName with
    | some s => some (.ready (next (.ok s)), r)
    | none => some (.settling typeName next, r)
  | .settling typeName next =>
    let (answer, r') := r.settle typeName
    some (.ready (next answer), r')

/-- The type name that the next step of a worker settles the answer to, and the answer. A look-up
that finds nothing answers nothing yet. -/
def told? (r : Registry) : Worker α → Option (String × Except Error Symbol)
  | .ready (.done _) => none
  | .ready (.ask typeName _) => (r.lookup? typeName).map fun s => (typeName, .ok s)
  | .settling typeName _ => some (typeName, (r.settle typeName).1)

end Worker

namespace Workers

variable {α : Type}

/-- One step of one worker, with the registry before and after it. -/
inductive Step : Registry → List (Worker α) → Registry → List (Worker α) → Prop where
  | of {r r' : Registry} {front back : List (Worker α)} {w w' : Worker α}
      (h : w.step? r = some (w', r')) : Step r (front ++ w :: back) r' (front ++ w' :: back)

/-- Any number of steps of the workers, in any order. -/
inductive Steps : Registry → List (Worker α) → Registry → List (Worker α) → Prop where
  | refl (r : Registry) (ws : List (Worker α)) : Steps r ws r ws
  | head {r r' r'' : Registry} {ws ws' ws'' : List (Worker α)} (first : Step r ws r' ws')
      (rest : Steps r' ws' r'' ws'') : Steps r ws r'' ws''

/-- The state after a turn of worker `i`: one step, or nothing if there is no such worker or it has
finished. -/
def turn (i : Nat) (state : Registry × List (Worker α)) : Registry × List (Worker α) :=
  match (state.2[i]?).bind (Worker.step? state.1) with
  | some (w, r) => (r, state.2.set i w)
  | none => state

/-- The state after turns of the given workers, one after the other. -/
def follow (turns : List Nat) (state : Registry × List (Worker α)) :
    Registry × List (Worker α) :=
  turns.foldl (fun state i => turn i state) state

/-- The results of inquiries that are put to the registry one after the other. -/
def inTurn (r : Registry) : List (Inquiry α) → List (Except Error α) × Registry
  | [] => ([], r)
  | q :: rest =>
    let (result, r') := q.run r
    let (results, r'') := inTurn r' rest
    (result :: results, r'')

/-- What a worker does for a file: it prints all lines and finishes the file. -/
def fileWork (run : Run) (name : String) (lines : List (List Item)) :
    Inquiry (Option Artifact) := do
  let f ← (run.openFile name).printAll run.library lines
  Inquiry.ofExcept f.artifact?

end Workers

/-! ## Jobs -/

/-- A call that prints a line. -/
inductive Print where
  | line (items : List Item)
  | template (fragments : List String) (values : List Item)

/-- The file with the line of a print. -/
def Print.into (lib : RuntimeLibrary) (f : OutputFile) : Print → Inquiry OutputFile
  | .line items => f.print lib items
  | .template fragments values => f.printTemplate lib fragments values

/-- A file for a worker to build: as it is created, and what is to be printed into it. -/
structure FileJob where
  file : OutputFile
  prints : List Print

/-- What a worker finds out about its file. -/
structure FileReport where
  /-- The error of every print, in order; a print that succeeded has none. -/
  errors : List (Option Error)
  /-- The body after the last print. -/
  tokens : List Token
  artifact : Except Error (Option Artifact)

namespace FileJob

/-- Prints line by line. A print that fails leaves the file as it was, and the next one follows. -/
def printEach (lib : RuntimeLibrary) (f : OutputFile) :
    List Print → Inquiry (List (Option Error) × OutputFile)
  | [] => pure ([], f)
  | p :: rest => do
    match ← (p.into lib f).attempt with
    | .ok f' =>
      let (errors, last) ← printEach lib f' rest
      pure (none :: errors, last)
    | .error e =>
      let (errors, last) ← printEach lib f rest
      pure (some e :: errors, last)

/-- What a worker does for a job: it prints, whatever fails, and then finishes the file. -/
def work (lib : RuntimeLibrary) (job : FileJob) : Inquiry FileReport := do
  let (errors, f) ← printEach lib job.file job.prints
  pure ⟨errors, f.tokens, f.artifact?⟩

/-- The worker before its first step. -/
def worker (lib : RuntimeLibrary) (job : FileJob) : Worker FileReport := .ready (job.work lib)

end FileJob

end ModuleAssembly
