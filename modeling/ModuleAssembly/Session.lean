import ModuleAssembly.Workers

/-!
# Sessions

A session is a run under way: the registry, and the files that were opened, in order. Every action
on a session gives a new session and an answer. A file that is finished or collected is gone, and
an action on it answers that there is no such file. An action that fails leaves every file as it
was.
-/

set_option autoImplicit false

namespace ModuleAssembly

/-- A run under way. -/
structure Session where
  run : Run
  registry : Registry
  /-- The files in the order in which they were opened; finished files leave a gap. -/
  files : List (Option OutputFile) := []
  /-- How often the imports of a file were resolved. -/
  resolutions : Nat := 0

/-- Something to do in a session. Files are given by the order in which they were opened. -/
inductive Action where
  | openFile (name : String)
  | openFileFor (schema : Schema)
  | openFileAt (name importPath : String)
  | setPreamble (file : Nat) (schema : Schema)
  | setKeepEmpty (file : Nat) (keepEmpty : Bool)
  | print (file : Nat) (items : List Item)
  | printTemplate (file : Nat) (fragments : List String) (values : List Item)
  | decode (file : Nat) (value : Json)
  | render (file : Nat) (value : Item)
  | exportName (file : Nat) (name : String)
  | importEntity (file : Nat) (ref : EntityUse)
  | importNamed (file : Nat) (name source : String)
  | declare (name home : String)
  | resolve (typeName : String)
  | finish (file : Nat)
  | collect

/-- What an action answers. -/
inductive Answer where
  /-- The file that was opened. -/
  | opened (file : OutputFile)
  | done
  /-- The tokens of a new line, and the number of tokens the file has now. -/
  | printed (line : List Token) (total : Nat)
  | decoded (value : Item)
  | rendered (tokens : List Token)
  | symbol (s : Symbol)
  | finished (artifact : Option Artifact)
  | collected (output : Output)
  | failed (cause : Error)
  | noSuchFile

namespace Session

/-- A session with the given settings and entities. -/
def start (settings : Settings) (entities : List Entity) : Session :=
  let run : Run := ⟨settings⟩
  { run, registry := run.registry entities }

/-- The file that was opened as number `i`, unless it is gone. -/
def file? (s : Session) (i : Nat) : Option OutputFile := (s.files[i]?).join

/-- The files that are still there. -/
def openFiles (s : Session) : List OutputFile := s.files.filterMap id

/-- Adds a file. -/
def addFile (s : Session) (f : OutputFile) : Session × Answer :=
  ({ s with files := s.files ++ [some f] }, .opened f)

/-- Puts a file in the place of file `i`. -/
def replace (s : Session) (i : Nat) (f : OutputFile) : Session :=
  { s with files := s.files.set i (some f) }

/-- Does something with file `i`, if it is there. -/
def withFile (s : Session) (i : Nat) (act : OutputFile → Session × Answer) : Session × Answer :=
  match s.file? i with
  | some f => act f
  | none => (s, .noSuchFile)

/-- Puts the questions of an inquiry to the registry. -/
def inquire {α : Type} (s : Session) (q : Inquiry α) : Except Error α × Session :=
  let (result, registry) := q.run s.registry
  (result, { s with registry })

/-- Adds a line to file `i`. -/
def addLine (s : Session) (i : Nat) (f : OutputFile) (line : Inquiry OutputFile) :
    Session × Answer :=
  match s.inquire line with
  | (.ok f', s') =>
    (s'.replace i f', .printed (f'.tokens.drop f.tokens.length) f'.tokens.length)
  | (.error e, s') => (s', .failed e)

/-- Answers with a symbol. -/
def answerSymbol (s : Session) (q : Inquiry Symbol) : Session × Answer :=
  match s.inquire q with
  | (.ok symbol, s') => (s', .symbol symbol)
  | (.error e, s') => (s', .failed e)

/-- Finishes file `i`, which is gone after that. -/
def finishFile (s : Session) (i : Nat) (f : OutputFile) : Session × Answer :=
  let s' := { s with files := s.files.set i none, resolutions := s.resolutions + 1 }
  match f.artifact? with
  | .ok artifact => (s', .finished artifact)
  | .error e => (s', .failed e)

/-- Collects all files, which are gone after that. -/
def collectFiles (s : Session) : Session × Answer :=
  let s' := { s with
    files := s.files.map fun _ => none, resolutions := s.resolutions + s.openFiles.length }
  match s.run.collect s.openFiles with
  | .ok output => (s', .collected output)
  | .error e => (s', .failed e)

/-- One action. -/
def act (s : Session) : Action → Session × Answer
  | .openFile name => s.addFile (s.run.openFile name)
  | .openFileFor schema => s.addFile (s.run.openFileFor schema)
  | .openFileAt name importPath => s.addFile (s.run.openFileAt name importPath)
  | .setPreamble i schema => s.withFile i fun f =>
    (s.replace i (f.withPreamble s.run.settings schema), .done)
  | .setKeepEmpty i keepEmpty => s.withFile i fun f =>
    (s.replace i (f.withKeepEmpty keepEmpty), .done)
  | .print i items => s.withFile i fun f => s.addLine i f (f.print s.run.library items)
  | .printTemplate i fragments values => s.withFile i fun f =>
    s.addLine i f (f.printTemplate s.run.library fragments values)
  | .decode i value => s.withFile i fun f =>
    match Item.ofJson f.importPath value with
    | .ok p => (s, .decoded p)
    | .error e => (s, .failed e)
  | .render i value => s.withFile i fun _ =>
    match s.inquire (value.tokens s.run.library) with
    | (.ok tokens, s') => (s', .rendered tokens)
    | (.error e, s') => (s', .failed e)
  | .exportName i name => s.withFile i fun f => (s, .symbol (f.exported name))
  | .importEntity i ref => s.withFile i fun _ => s.answerSymbol (Inquiry.resolve ref)
  | .importNamed i name source => s.withFile i fun _ =>
    s.answerSymbol (Inquiry.ofExcept (Item.importedSymbol name source))
  | .declare name home => (s, .symbol ⟨name, home, false⟩)
  | .resolve typeName => s.answerSymbol (Inquiry.resolve ⟨typeName, false⟩)
  | .finish i => s.withFile i fun f => s.finishFile i f
  | .collect => s.collectFiles

/-- Actions one after the other, with their answers. -/
def actAll (s : Session) : List Action → Session × List Answer
  | [] => (s, [])
  | a :: rest =>
    let (s', answer) := s.act a
    let (s'', answers) := actAll s' rest
    (s'', answer :: answers)

/-- Files that workers build, each on its own, with the given lines. -/
def parallel (s : Session) (names : List String) (lines : List (List Item)) :
    Session × List (Except Error (Option Artifact)) :=
  let (results, registry) :=
    Workers.inTurn s.registry (names.map fun name => Workers.fileWork s.run name lines)
  ({ s with registry }, results)

end Session

end ModuleAssembly
