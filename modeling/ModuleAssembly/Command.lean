import ModuleAssembly.FileTree
import ModuleAssembly.Format

/-!
# The command line

The command line names a plan file and a job: to list the entities of the plan, or to run it. The
plan is named before the job. Every answer but that to a wrong command line is a JSON value in
indented form, followed by a line break, and comes with an exit code: zero for success, one for a
plan that cannot be loaded, two for a run that fails and for a wrong command line.
-/

set_option autoImplicit false

namespace ModuleAssembly

/-- What the command line asks for. -/
inductive Job where
  | entities
  | generate (parameter : Option String) (manifestOnly : Bool)
deriving DecidableEq

/-- A command line: the path of the plan and the job. -/
structure Command where
  plan : String
  job : Job
deriving DecidableEq

namespace Command

/-! ## Arguments -/

/-- The path of the plan when none is given. -/
def defaultPlan : String := "plan.json"

/-- A word that may be the value of an option: it is no option itself. A lone dash is a word. -/
def isWord (arg : String) : Bool := arg == "-" || !arg.startsWith "-"

/-- What follows `front` in an argument. -/
def after? (front arg : String) : Option String :=
  (Text.dropFront? front.toList arg.toList).map String.ofList

/-- The arguments of the job that lists entities: none, but for a mark that ends the options. -/
def parseEntities (args : List String) : Option Job :=
  if args = [] ∨ args = ["--"] then some .entities else none

/-- The arguments of the job that runs the plan, each at most once. -/
def parseGenerate (parameter : Option String) (manifestOnly : Bool) :
    List String → Option Job
  | [] => some (.generate parameter manifestOnly)
  | arg :: rest =>
    if arg = "--" then
      if rest = [] then some (.generate parameter manifestOnly) else none
    else if arg = "--manifest-only" then
      if manifestOnly then none else parseGenerate parameter true rest
    else if arg = "--parameter" then
      match rest with
      | value :: rest =>
        if isWord value ∧ parameter = none then parseGenerate (some value) manifestOnly rest
        else none
      | [] => none
    else
      match after? "--parameter=" arg with
      | some value =>
        if parameter = none then parseGenerate (some value) manifestOnly rest else none
      | none => none

/-- The value that an argument gives to the plan option by itself. -/
def planValue? (arg : String) : Option String :=
  match after? "--plan=" arg with
  | some value => some value
  | none =>
    match after? "-p=" arg with
    | some value => some value
    | none => after? "-p" arg

/-- The arguments in front of the job; `plan` is the path that was given so far. -/
def parseFrom (plan : Option String) : List String → Option Command
  | [] => none
  | arg :: rest =>
    if arg = "entities" then
      (parseEntities rest).map fun job => ⟨plan.getD defaultPlan, job⟩
    else if arg = "generate" then
      (parseGenerate none false rest).map fun job => ⟨plan.getD defaultPlan, job⟩
    else if plan ≠ none then none
    else if arg = "--plan" ∨ arg = "-p" then
      match rest with
      | value :: rest => if isWord value ∧ value ≠ "" then parseFrom (some value) rest else none
      | [] => none
    else
      match planValue? arg with
      | some value => if value = "" then none else parseFrom (some value) rest
      | none => none

/-- The command of a list of arguments. -/
def parse (args : List String) : Option Command := parseFrom none args

/-! ## Answers -/

/-- An answer: the exit code and the text for the standard output. -/
structure Reply where
  code : Nat
  output : String
deriving DecidableEq

/-- The reply with a JSON value. -/
def Reply.ofJson (code : Nat) (v : Json) : Reply := ⟨code, v.indented ++ "\n"⟩

/-- The reply to a wrong command line. -/
def usageReply : Reply := ⟨2, ""⟩

/-- The value that reports a failure. -/
def failureJson (message : String) : Json :=
  .object [("error", .string message), ("success", .bool false)]

/-- What stands in front of the reason why a plan was not loaded. -/
def loadFailure : String := "Failed to load plan: "

/-- An entity as it is listed. -/
def entityRow (r : Registry) (e : Entity) : Json :=
  .object
    [("importPath", .string (r.naming.importPath e.file)), ("kind", .string e.kind.name),
     ("localName", .string e.localName), ("typeName", .string e.typeName)]

/-- The entities of a plan, listed in the order of their type names. -/
def entityRows (plan : Plan) : Json :=
  let r := Registry.ofEntities plan.settings.naming plan.entities
  .array (r.list.map (entityRow r))

/-- The value that reports the output of a run. -/
def outputJson (manifestOnly : Bool) (o : Output) : Json :=
  if manifestOnly then .object [("manifest", o.manifest.toJson), ("success", .bool true)]
  else .object [("output", o.toJson), ("success", .bool true)]

/-- Does the job with a plan. -/
def jobReply (job : Job) (plan : Plan) : Reply :=
  match job with
  | .entities => .ofJson 0 (entityRows plan)
  | .generate parameter manifestOnly =>
    match plan.output parameter with
    | .ok o => .ofJson 0 (outputJson manifestOnly o)
    | .error e => .ofJson 2 (failureJson e.message)

/-- The plan in the text of a file. -/
def loadPlan (content : Except ReadError String) : Except Error Plan :=
  match content with
  | .ok source => Plan.ofText source
  | .error cause => .error (.unreadable cause)

/-- The reply to a command, given the content of the plan file. -/
def reply (c : Command) (content : Except ReadError String) : Reply :=
  match loadPlan content with
  | .ok plan => jobReply c.job plan
  | .error e => .ofJson 1 (failureJson (loadFailure ++ e.message))

/-- The reply to a list of arguments, where the plan file is looked up in a file tree. -/
def run (tree : FileTree) (args : List String) : Reply :=
  match parse args with
  | some c => c.reply (tree.read c.plan)
  | none => usageReply

end Command

end ModuleAssembly
