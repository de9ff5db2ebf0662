import Mathlib.Data.List.Forall2
import ModuleAssembly.Session
import ModuleAssembly.Proofs.FileHistory

/-!
# Sessions by their history

A session is followed by its transcript, the actions with their answers. One action changes the
files in one of a few ways, apart from what the registry remembers (`Effect`, `act_effect`); what
it remembers cannot be seen in any later answer (`Agree.act`). So the body of a file is made of
the lines of the prints that succeeded, a failure leaves the files as they were, and the failed
prints can be deleted from a session without a trace.
-/

set_option autoImplicit false

namespace ModuleAssembly

/-! ## Transcripts -/

/-- The file that an action prints into, and the items that it prints. -/
def Action.printed? : Action → Option (Nat × Except Error (List Item))
  | .print i items => some (i, .ok items)
  | .printTemplate i fragments values => some (i, OutputFile.templateItems fragments values)
  | _ => none

/-- The action takes file `i` away. -/
def Action.takes (i : Nat) : Action → Bool
  | .finish j => j == i
  | .collect => true
  | _ => false

/-- The answer to a print that succeeded. -/
def Answer.isPrinted : Answer → Bool
  | .printed .. => true
  | _ => false

/-- The answer to an action that failed. -/
def Answer.isFailed : Answer → Bool
  | .failed _ => true
  | _ => false

theorem Answer.exists_of_isFailed {answer : Answer} (h : answer.isFailed = true) :
    ∃ e, answer = .failed e := by
  cases answer with
  | failed e => exact ⟨e, rfl⟩
  | _ => cases h

namespace Session

/-- Actions with their answers. -/
def transcript (s : Session) (actions : List Action) : List (Action × Answer) :=
  actions.zip (s.actAll actions).2

theorem transcript_cons (s : Session) (a : Action) (rest : List Action) :
    s.transcript (a :: rest) = (a, (s.act a).2) :: (s.act a).1.transcript rest := rfl

theorem actAll_cons (s : Session) (a : Action) (rest : List Action) :
    s.actAll (a :: rest)
      = (((s.act a).1.actAll rest).1, (s.act a).2 :: ((s.act a).1.actAll rest).2) := rfl

/-- The prints into file `i` that succeeded. -/
def printsInto (i : Nat) (history : List (Action × Answer)) : List (Action × Answer) :=
  history.filter fun entry => entry.1.printed?.map Prod.fst == some i && entry.2.isPrinted

/-- The transcript without the prints that failed. -/
def withoutFailedPrints (history : List (Action × Answer)) : List (Action × Answer) :=
  history.filter fun entry => !(entry.1.printed?.isSome && entry.2.isFailed)

/-- The rendering of items. -/
def rendering (lib : RuntimeLibrary) (registry : Registry) (items : List Item) :
    Except Error (List Token) :=
  (((Item.seq items).tokens lib).run registry).1

/-- The line of a print that succeeded: the rendering of its items and a line break. -/
def IsLineOf (lib : RuntimeLibrary) (registry : Registry) (entry : Action × Answer)
    (line : List Token) : Prop :=
  ∃ i items tokens total, entry.1.printed? = some (i, .ok items) ∧
    rendering lib registry items = .ok tokens ∧ line = tokens ++ [.text "\n"] ∧
    entry.2 = .printed line total

/-! ## Sessions up to the memory of the registry -/

/-- The sessions are the same, except that their registries may remember different answers. -/
structure Agree (s t : Session) : Prop where
  run : s.run = t.run
  answer : s.registry.answer = t.registry.answer
  files : s.files = t.files
  resolutions : s.resolutions = t.resolutions

theorem Agree.refl (s : Session) : Agree s s := ⟨rfl, rfl, rfl, rfl⟩

theorem Agree.symm {s t : Session} (h : Agree s t) : Agree t s :=
  ⟨h.run.symm, h.answer.symm, h.files.symm, h.resolutions.symm⟩

theorem Agree.trans {s t u : Session} (h : Agree s t) (h' : Agree t u) : Agree s u :=
  ⟨h.run.trans h'.run, h.answer.trans h'.answer, h.files.trans h'.files,
    h.resolutions.trans h'.resolutions⟩

/-- The session after an inquiry. -/
def asked {α : Type} (s : Session) (q : Inquiry α) : Session :=
  { s with registry := (q.run s.registry).2 }

/-- An inquiry is answered as the registry would answer at the start. -/
theorem inquire_eq {α : Type} (s : Session) (q : Inquiry α) :
    s.inquire q = (q.eval s.registry.answer, s.asked q) := by
  rw [← Inquiry.run_eq_eval]
  rfl

theorem agree_asked {α : Type} (s : Session) (q : Inquiry α) : Agree s (s.asked q) :=
  ⟨rfl, (Inquiry.answer_run s.registry q).symm, rfl, rfl⟩

theorem Agree.asked {α : Type} {s t : Session} (h : Agree s t) (q : Inquiry α) :
    Agree (s.asked q) (t.asked q) :=
  ((agree_asked s q).symm.trans h).trans (agree_asked t q)

theorem Agree.replace {s t : Session} (h : Agree s t) (i : Nat) (f : OutputFile) :
    Agree (s.replace i f) (t.replace i f) :=
  ⟨h.run, h.answer, congrArg (List.set · i (some f)) h.files, h.resolutions⟩

theorem Agree.file? {s t : Session} (h : Agree s t) (i : Nat) : s.file? i = t.file? i := by
  unfold Session.file?
  rw [h.files]

/-! ## Equal answers -/

/-- Equal answers, and sessions that agree. -/
def Same (x y : Session × Answer) : Prop := x.2 = y.2 ∧ Agree x.1 y.1

theorem Agree.withFile {s t : Session} (h : Agree s t) (i : Nat)
    {act act' : OutputFile → Session × Answer} (hact : ∀ f, Same (act f) (act' f)) :
    Same (s.withFile i act) (t.withFile i act') := by
  unfold Session.withFile
  rw [h.file? i]
  cases t.file? i with
  | none => exact ⟨rfl, h⟩
  | some f => exact hact f

theorem Agree.addFile {s t : Session} (h : Agree s t) (f : OutputFile) :
    Same (s.addFile f) (t.addFile f) :=
  ⟨rfl, h.run, h.answer, congrArg (· ++ [some f]) h.files, h.resolutions⟩

theorem Agree.addLine {s t : Session} (h : Agree s t) (i : Nat) (f : OutputFile)
    (line : Inquiry OutputFile) : Same (s.addLine i f line) (t.addLine i f line) := by
  unfold Session.addLine
  rw [inquire_eq, inquire_eq, h.answer]
  cases line.eval t.registry.answer with
  | error e => exact ⟨rfl, h.asked line⟩
  | ok f' => exact ⟨rfl, (h.asked line).replace i f'⟩

theorem Agree.answerSymbol {s t : Session} (h : Agree s t) (q : Inquiry Symbol) :
    Same (s.answerSymbol q) (t.answerSymbol q) := by
  unfold Session.answerSymbol
  rw [inquire_eq, inquire_eq, h.answer]
  cases q.eval t.registry.answer with
  | error e => exact ⟨rfl, h.asked q⟩
  | ok symbol => exact ⟨rfl, h.asked q⟩

theorem Agree.finishFile {s t : Session} (h : Agree s t) (i : Nat) (f : OutputFile) :
    Same (s.finishFile i f) (t.finishFile i f) := by
  have hagree : Agree { s with files := s.files.set i none, resolutions := s.resolutions + 1 }
      { t with files := t.files.set i none, resolutions := t.resolutions + 1 } :=
    ⟨h.run, h.answer, congrArg (List.set · i none) h.files, congrArg (· + 1) h.resolutions⟩
  unfold Session.finishFile
  cases f.artifact? with
  | error e => exact ⟨rfl, hagree⟩
  | ok artifact => exact ⟨rfl, hagree⟩

theorem Agree.collectFiles {s t : Session} (h : Agree s t) :
    Same s.collectFiles t.collectFiles := by
  have hopen : s.openFiles = t.openFiles := congrArg (List.filterMap id) h.files
  have hagree : Agree
      { s with
        files := s.files.map fun _ => none, resolutions := s.resolutions + s.openFiles.length }
      { t with
        files := t.files.map fun _ => none, resolutions := t.resolutions + t.openFiles.length } :=
    ⟨h.run, h.answer, congrArg (List.map fun _ => none) h.files,
      congrArg₂ (· + ·) h.resolutions (congrArg List.length hopen)⟩
  have hcollect : s.run.collect s.openFiles = t.run.collect t.openFiles := by rw [h.run, hopen]
  unfold Session.collectFiles
  rw [hcollect]
  cases t.run.collect t.openFiles with
  | error e => exact ⟨rfl, hagree⟩
  | ok output => exact ⟨rfl, hagree⟩

/-- **The memory cannot be seen in a session.** Sessions that agree give the same answer to every
action, and agree after it. -/
theorem Agree.act {s t : Session} (h : Agree s t) (a : Action) : Same (s.act a) (t.act a) := by
  cases a with
  | openFile name =>
      show Same (s.addFile (s.run.openFile name)) (t.addFile (t.run.openFile name))
      rw [h.run]
      exact h.addFile _
  | openFileFor schema =>
      show Same (s.addFile (s.run.openFileFor schema)) (t.addFile (t.run.openFileFor schema))
      rw [h.run]
      exact h.addFile _
  | openFileAt name importPath =>
      show Same (s.addFile (s.run.openFileAt name importPath))
        (t.addFile (t.run.openFileAt name importPath))
      rw [h.run]
      exact h.addFile _
  | setPreamble i schema =>
      refine h.withFile i fun f => ⟨rfl, ?_⟩
      rw [h.run]
      exact h.replace i _
  | setKeepEmpty i keepEmpty => exact h.withFile i fun f => ⟨rfl, h.replace i _⟩
  | print i items =>
      refine h.withFile i fun f => ?_
      rw [h.run]
      exact h.addLine i f _
  | printTemplate i fragments values =>
      refine h.withFile i fun f => ?_
      rw [h.run]
      exact h.addLine i f _
  | decode i value =>
      refine h.withFile i fun f => ?_
      cases Item.ofJson f.importPath value with
      | error e => exact ⟨rfl, h⟩
      | ok p => exact ⟨rfl, h⟩
  | render i value =>
      refine h.withFile i fun f => ?_
      rw [inquire_eq, inquire_eq, h.run, h.answer]
      cases (value.tokens t.run.library).eval t.registry.answer with
      | error e => exact ⟨rfl, h.asked _⟩
      | ok tokens => exact ⟨rfl, h.asked _⟩
  | exportName i name => exact h.withFile i fun f => ⟨rfl, h⟩
  | importEntity i ref => exact h.withFile i fun f => h.answerSymbol _
  | importNamed i name source => exact h.withFile i fun f => h.answerSymbol _
  | declare name home => exact ⟨rfl, h⟩
  | resolve typeName => exact h.answerSymbol _
  | finish i => exact h.withFile i fun f => h.finishFile i f
  | collect => exact h.collectFiles

/-! ## What an action does -/

/-- What an action with this answer leaves of a session, apart from the memory of the registry. -/
inductive Effect (s : Session) : Action → Session → Answer → Prop where
  | nothing {a : Action} {answer : Answer} (hanswer : answer.isPrinted = false) :
      Effect s a s answer
  | opened {a : Action} {f : OutputFile} (hempty : f.tokens = []) :
      Effect s a (s.addFile f).1 (.opened f)
  | set {a : Action} {i : Nat} {f f' : OutputFile} (hfile : s.file? i = some f)
      (htokens : f'.tokens = f.tokens) : Effect s a (s.replace i f') .done
  | printed {a : Action} {i : Nat} {f : OutputFile} {items : List Item} {tokens : List Token}
      {total : Nat} (hfile : s.file? i = some f) (hprinted : a.printed? = some (i, .ok items))
      (hitems : rendering s.run.library s.registry items = .ok tokens) :
      Effect s a (s.replace i (f.append (tokens ++ [.text "\n"])))
        (.printed (tokens ++ [.text "\n"]) total)
  | finished {i : Nat} {answer : Answer} (hanswer : answer.isPrinted = false) :
      Effect s (.finish i)
        { s with files := s.files.set i none, resolutions := s.resolutions + 1 } answer
  | collected {answer : Answer} (hanswer : answer.isPrinted = false) :
      Effect s .collect
        { s with
          files := s.files.map fun _ => none
          resolutions := s.resolutions + s.openFiles.length } answer

/-- The session and the answer are an effect of the action, apart from what is remembered. -/
def HasEffect (s : Session) (a : Action) (x : Session × Answer) : Prop :=
  ∃ t, Effect s a t x.2 ∧ Agree t x.1

theorem hasEffect_withFile {s : Session} {a : Action} {i : Nat}
    {act : OutputFile → Session × Answer}
    (h : ∀ f, s.file? i = some f → HasEffect s a (act f)) : HasEffect s a (s.withFile i act) := by
  unfold Session.withFile
  cases hfile : s.file? i with
  | none => exact ⟨s, .nothing rfl, Agree.refl s⟩
  | some f => exact h f hfile

theorem hasEffect_answerSymbol (s : Session) (a : Action) (q : Inquiry Symbol) :
    HasEffect s a (s.answerSymbol q) := by
  unfold Session.answerSymbol
  rw [inquire_eq]
  cases q.eval s.registry.answer with
  | error e => exact ⟨s, .nothing rfl, agree_asked s q⟩
  | ok symbol => exact ⟨s, .nothing rfl, agree_asked s q⟩

/-- A print appends the rendering of its items and a line break. -/
theorem eval_print_rendering (lib : RuntimeLibrary) (registry : Registry) (f : OutputFile)
    (items : List Item) :
    (f.print lib items).eval registry.answer
      = (rendering lib registry items).map fun tokens => f.append (tokens ++ [.text "\n"]) := by
  rw [OutputFile.eval_print, OutputFile.eval_lineTokens, rendering, Inquiry.run_eq_eval]
  cases ((Item.seq items).tokens lib).eval registry.answer with
  | error e => rfl
  | ok tokens => rfl

/-- A line is added as a whole or not at all. -/
theorem hasEffect_addLine {s : Session} {a : Action} {i : Nat} {f : OutputFile}
    {items : Except Error (List Item)} {line : Inquiry OutputFile} (hfile : s.file? i = some f)
    (hprinted : a.printed? = some (i, items))
    (hline : line.eval s.registry.answer
      = (items.bind (rendering s.run.library s.registry)).map
          fun tokens => f.append (tokens ++ [.text "\n"])) :
    HasEffect s a (s.addLine i f line) := by
  unfold Session.addLine
  rw [inquire_eq, hline]
  cases items with
  | error e => exact ⟨s, .nothing rfl, agree_asked s line⟩
  | ok items =>
      rw [except_bind_ok]
      cases hitems : rendering s.run.library s.registry items with
      | error e => exact ⟨s, .nothing rfl, agree_asked s line⟩
      | ok tokens =>
          -- the answer shows what the file has more than before
          have hdrop : (f.append (tokens ++ [.text "\n"])).tokens.drop f.tokens.length
              = tokens ++ [.text "\n"] := List.drop_left
          rw [except_map_ok]
          dsimp only
          rw [hdrop]
          exact ⟨_, .printed hfile hprinted hitems, (agree_asked s line).replace i _⟩

theorem hasEffect_addFile (s : Session) (a : Action) {f : OutputFile} (hempty : f.tokens = []) :
    HasEffect s a (s.addFile f) := ⟨_, .opened hempty, Agree.refl _⟩

/-- **One action.** -/
theorem act_effect (s : Session) (a : Action) : HasEffect s a (s.act a) := by
  cases a with
  | openFile name => exact hasEffect_addFile s _ rfl
  | openFileFor schema => exact hasEffect_addFile s _ rfl
  | openFileAt name importPath => exact hasEffect_addFile s _ rfl
  | setPreamble i schema =>
      exact hasEffect_withFile fun f hfile =>
        ⟨s.replace i (f.withPreamble s.run.settings schema), .set hfile rfl, Agree.refl _⟩
  | setKeepEmpty i keepEmpty =>
      exact hasEffect_withFile fun f hfile =>
        ⟨s.replace i (f.withKeepEmpty keepEmpty), .set hfile rfl, Agree.refl _⟩
  | print i items =>
      exact hasEffect_withFile fun f hfile =>
        hasEffect_addLine hfile rfl (eval_print_rendering _ _ f items)
  | printTemplate i fragments values =>
      refine hasEffect_withFile fun f hfile => hasEffect_addLine hfile rfl ?_
      rw [OutputFile.eval_printTemplate]
      cases OutputFile.templateItems fragments values with
      | error e => rfl
      | ok items => exact eval_print_rendering _ _ f items
  | decode i value =>
      refine hasEffect_withFile fun f hfile => ?_
      cases Item.ofJson f.importPath value with
      | error e => exact ⟨s, .nothing rfl, Agree.refl s⟩
      | ok p => exact ⟨s, .nothing rfl, Agree.refl s⟩
  | render i value =>
      refine hasEffect_withFile fun f hfile => ?_
      rw [inquire_eq]
      cases (value.tokens s.run.library).eval s.registry.answer with
      | error e => exact ⟨s, .nothing rfl, agree_asked s _⟩
      | ok tokens => exact ⟨s, .nothing rfl, agree_asked s _⟩
  | exportName i name =>
      exact hasEffect_withFile fun f hfile => ⟨s, .nothing rfl, Agree.refl s⟩
  | importEntity i ref => exact hasEffect_withFile fun f hfile => hasEffect_answerSymbol s _ _
  | importNamed i name source =>
      exact hasEffect_withFile fun f hfile => hasEffect_answerSymbol s _ _
  | declare name home => exact ⟨s, .nothing rfl, Agree.refl s⟩
  | resolve typeName => exact hasEffect_answerSymbol s _ _
  | finish i =>
      refine hasEffect_withFile fun f hfile => ?_
      unfold Session.finishFile
      cases f.artifact? with
      | error e => exact ⟨_, .finished rfl, Agree.refl _⟩
      | ok artifact => exact ⟨_, .finished rfl, Agree.refl _⟩
  | collect =>
      show HasEffect s .collect s.collectFiles
      unfold Session.collectFiles
      cases s.run.collect s.openFiles with
      | error e => exact ⟨_, .collected rfl, Agree.refl _⟩
      | ok output => exact ⟨_, .collected rfl, Agree.refl _⟩

/-! ## Failures -/

/-- A failure leaves every file as it was, unless the action takes it away. -/
theorem file?_of_failed {s : Session} {a : Action} {e : Error} (h : (s.act a).2 = .failed e)
    {i : Nat} (htakes : a.takes i = false) : (s.act a).1.file? i = s.file? i := by
  obtain ⟨t, heffect, hagree⟩ := act_effect s a
  rw [← hagree.file? i]
  rw [h] at heffect
  -- a failed action has no effect on the files, or takes some away
  cases heffect with
  | nothing hanswer => rfl
  | @finished j answer hanswer =>
      have hij : j ≠ i := by simpa [Action.takes] using htakes
      simp only [file?]
      rw [List.getElem?_set_ne hij]
  | collected hanswer => cases htakes

/-- A print that fails leaves nothing but what the registry remembers. -/
theorem agree_of_failed_print {s : Session} {a : Action} (hprint : a.printed?.isSome = true)
    (h : (s.act a).2.isFailed = true) : Agree s (s.act a).1 := by
  obtain ⟨t, heffect, hagree⟩ := act_effect s a
  obtain ⟨e, he⟩ := Answer.exists_of_isFailed h
  rw [he] at heffect
  cases heffect with
  | nothing hanswer => exact hagree
  | finished hanswer => cases hprint
  | collected hanswer => cases hprint

/-- The rest of a session without the prints that failed. -/
theorem actAll_withoutFailedPrints {s t : Session} (h : Agree s t) (actions : List Action) :
    (t.actAll ((withoutFailedPrints (s.transcript actions)).map Prod.fst)).2
        = (withoutFailedPrints (s.transcript actions)).map Prod.snd ∧
      Agree (s.actAll actions).1
        (t.actAll ((withoutFailedPrints (s.transcript actions)).map Prod.fst)).1 := by
  induction actions generalizing s t with
  | nil => exact ⟨rfl, h⟩
  | cons a rest ih =>
      rw [transcript_cons]
      by_cases hlost : a.printed?.isSome && (s.act a).2.isFailed
      · -- the deleted print changes nothing that the other session could see
        have hdrop : withoutFailedPrints ((a, (s.act a).2) :: (s.act a).1.transcript rest)
            = withoutFailedPrints ((s.act a).1.transcript rest) :=
          List.filter_cons_of_neg (by simp [hlost])
        rw [hdrop, actAll_cons]
        obtain ⟨hprint, hfailed⟩ := Bool.and_eq_true_iff.mp hlost
        exact ih ((agree_of_failed_print hprint hfailed).symm.trans h)
      · have hkeep : withoutFailedPrints ((a, (s.act a).2) :: (s.act a).1.transcript rest)
            = (a, (s.act a).2) :: withoutFailedPrints ((s.act a).1.transcript rest) :=
          List.filter_cons_of_pos (by simp [hlost])
        rw [hkeep, List.map_cons, List.map_cons, actAll_cons, actAll_cons]
        obtain ⟨hanswer, hagree⟩ := h.act a
        obtain ⟨hanswers, hrest⟩ := ih hagree
        exact ⟨congrArg₂ List.cons hanswer.symm hanswers, hrest⟩

/-! ## Files by their number -/

theorem file?_eq_some {s : Session} {i : Nat} {f : OutputFile} :
    s.file? i = some f ↔ s.files[i]? = some (some f) := Option.join_eq_some_iff

theorem lt_length_of_file? {s : Session} {i : Nat} {f : OutputFile} (h : s.file? i = some f) :
    i < s.files.length := (List.getElem?_eq_some_iff.mp (file?_eq_some.mp h)).1

theorem file?_addFile {s : Session} {f f' : OutputFile} {i : Nat}
    (h : (s.addFile f).1.file? i = some f') :
    s.file? i = some f' ∨ i = s.files.length ∧ f' = f := by
  have hget : (s.files ++ [some f])[i]? = some (some f') := file?_eq_some.mp h
  rcases Nat.lt_trichotomy i s.files.length with hlt | heq | hgt
  · rw [List.getElem?_append_left hlt] at hget
    exact .inl (file?_eq_some.mpr hget)
  · rw [heq, List.getElem?_concat_length] at hget
    exact .inr ⟨heq, (Option.some.inj (Option.some.inj hget)).symm⟩
  · rw [List.getElem?_eq_none (by rw [List.length_append]; exact hgt)] at hget
    cases hget

theorem file?_set {s : Session} {i j : Nat} {x : Option OutputFile} {f : OutputFile} {n : Nat}
    (h : { s with files := s.files.set i x, resolutions := n }.file? j = some f) :
    i = j ∧ x = some f ∨ i ≠ j ∧ s.file? j = some f := by
  have hget : (s.files.set i x)[j]? = some (some f) := file?_eq_some.mp h
  by_cases hij : i = j
  · subst hij
    have hlt : i < s.files.length := by
      have hlt := (List.getElem?_eq_some_iff.mp hget).1
      rwa [List.length_set] at hlt
    rw [List.getElem?_set_self hlt] at hget
    exact .inl ⟨rfl, Option.some.inj hget⟩
  · rw [List.getElem?_set_ne hij] at hget
    exact .inr ⟨hij, file?_eq_some.mpr hget⟩

/-! ## Bodies -/

/-- The body of every file is made of its lines so far; files that are not open yet have none. -/
structure Logged (lib : RuntimeLibrary) (registry : Registry) (history : List (Action × Answer))
    (s : Session) : Prop where
  library : s.run.library = lib
  answer : s.registry.answer = registry.answer
  log : ∀ i f, s.file? i = some f → ∃ lines,
    List.Forall₂ (IsLineOf lib registry) (printsInto i history) lines ∧ f.tokens = lines.flatten
  fresh : ∀ i, s.files.length ≤ i → printsInto i history = []

section

variable {lib : RuntimeLibrary} {registry : Registry} {history : List (Action × Answer)}

/-- An entry counts only for the file that it prints into. -/
theorem printsInto_append_of_not {i : Nat} {entry : Action × Answer}
    (h : entry.2.isPrinted = false ∨ entry.1.printed?.map Prod.fst ≠ some i) :
    printsInto i (history ++ [entry]) = printsInto i history := by
  unfold printsInto
  rw [List.filter_append, List.filter_singleton]
  rcases h with hanswer | hfile
  · simp [hanswer]
  · simp [beq_eq_false_iff_ne.mpr hfile]

theorem printsInto_append_of_printed {i : Nat} {items : Except Error (List Item)}
    {entry : Action × Answer} (hprinted : entry.1.printed? = some (i, items))
    (hanswer : entry.2.isPrinted = true) :
    printsInto i (history ++ [entry]) = printsInto i history ++ [entry] := by
  unfold printsInto
  rw [List.filter_append, List.filter_singleton]
  simp [hprinted, hanswer]

theorem Logged.agree {s t : Session} (h : Logged lib registry history s) (hagree : Agree s t) :
    Logged lib registry history t := by
  refine ⟨by rw [← hagree.run, h.library], by rw [← hagree.answer, h.answer], ?_, ?_⟩
  · intro i f hfile
    exact h.log i f ((hagree.file? i).trans hfile)
  · intro i hi
    exact h.fresh i (by rwa [hagree.files])

/-- An action that prints nothing and opens no file keeps the bodies. -/
theorem Logged.quiet {s t : Session} {a : Action} {answer : Answer}
    (h : Logged lib registry history s) (hanswer : answer.isPrinted = false)
    (hrun : t.run = s.run) (hregistry : t.registry = s.registry)
    (hlength : t.files.length = s.files.length)
    (hfiles : ∀ i f, t.file? i = some f → ∃ f', s.file? i = some f' ∧ f.tokens = f'.tokens) :
    Logged lib registry (history ++ [(a, answer)]) t := by
  refine ⟨by rw [hrun, h.library], by rw [hregistry, h.answer], ?_, ?_⟩
  · intro i f hfile
    obtain ⟨f', hfile', htokens⟩ := hfiles i f hfile
    rw [printsInto_append_of_not (.inl hanswer), htokens]
    exact h.log i f' hfile'
  · intro i hi
    rw [printsInto_append_of_not (.inl hanswer)]
    exact h.fresh i (by rwa [← hlength])

/-- One action keeps the bodies made of their lines. -/
theorem Logged.effect {s t : Session} {a : Action} {answer : Answer}
    (h : Logged lib registry history s) (heffect : Effect s a t answer) :
    Logged lib registry (history ++ [(a, answer)]) t := by
  cases heffect with
  | nothing hanswer => exact h.quiet hanswer rfl rfl rfl fun i f hfile => ⟨f, hfile, rfl⟩
  | @opened _ f hempty =>
      refine ⟨h.library, h.answer, ?_, ?_⟩
      · intro i f' hfile
        rw [printsInto_append_of_not (.inl rfl)]
        rcases file?_addFile hfile with hold | ⟨hi, rfl⟩
        · exact h.log i f' hold
        · -- nothing can have been printed into a file with this number before
          have hnone : printsInto i history = [] := h.fresh i (Nat.le_of_eq hi.symm)
          rw [hnone]
          exact ⟨[], .nil, hempty⟩
      · intro i hi
        have hlength : (s.addFile f).1.files.length = s.files.length + 1 := by simp [addFile]
        rw [printsInto_append_of_not (.inl rfl)]
        exact h.fresh i (by omega)
  | @set _ i f f' hfile htokens =>
      refine h.quiet rfl rfl rfl List.length_set fun j g hg => ?_
      rcases file?_set hg with ⟨rfl, hx⟩ | ⟨-, hold⟩
      · cases hx
        exact ⟨f, hfile, htokens⟩
      · exact ⟨g, hold, rfl⟩
  | @printed _ i f items tokens total hfile hprinted hitems =>
      refine ⟨h.library, h.answer, ?_, ?_⟩
      · intro j g hg
        rcases file?_set hg with ⟨rfl, hx⟩ | ⟨hij, hold⟩
        · -- the file that is printed into has one line more
          cases hx
          obtain ⟨lines, hlines, hlog⟩ := h.log i f hfile
          rw [printsInto_append_of_printed hprinted rfl]
          refine ⟨lines ++ [tokens ++ [.text "\n"]], ?_, ?_⟩
          · -- the rendering is the one that the registry would have given at the start
            have hstart : rendering lib registry items = .ok tokens := by
              rw [rendering, Inquiry.run_eq_eval, ← h.answer, ← h.library]
              rw [rendering, Inquiry.run_eq_eval] at hitems
              exact hitems
            have hline : IsLineOf lib registry (a, .printed (tokens ++ [.text "\n"]) total)
                (tokens ++ [.text "\n"]) := ⟨i, items, tokens, total, hprinted, hstart, rfl, rfl⟩
            exact List.rel_append hlines (.cons hline .nil)
          · rw [List.flatten_append, ← hlog, List.flatten_singleton]
            rfl
        · rw [printsInto_append_of_not (.inr (by simpa [hprinted] using hij))]
          exact h.log j g hold
      · intro j hj
        have hlength : (s.replace i (f.append (tokens ++ [.text "\n"]))).files.length
            = s.files.length := List.length_set
        have hi : i < s.files.length := lt_length_of_file? hfile
        have hij : i ≠ j := by omega
        rw [printsInto_append_of_not (.inr (by simpa [hprinted] using hij))]
        exact h.fresh j (by omega)
  | finished hanswer =>
      refine h.quiet hanswer rfl rfl List.length_set fun j g hg => ?_
      rcases file?_set hg with ⟨-, hx⟩ | ⟨-, hold⟩
      · cases hx
      · exact ⟨g, hold, rfl⟩
  | collected hanswer =>
      refine h.quiet hanswer rfl rfl (List.length_map _) fun j g hg => ?_
      obtain ⟨x, -, hx⟩ := List.mem_map.mp (List.mem_of_getElem? (file?_eq_some.mp hg))
      cases hx

/-- So do any actions. -/
theorem Logged.actAll {s : Session} (h : Logged lib registry history s) (actions : List Action) :
    Logged lib registry (history ++ s.transcript actions) (s.actAll actions).1 := by
  induction actions generalizing s history with
  | nil =>
      rw [show s.transcript [] = [] from rfl, List.append_nil]
      exact h
  | cons a rest ih =>
      obtain ⟨t, heffect, hagree⟩ := act_effect s a
      have hnext := ih ((h.effect heffect).agree hagree)
      rw [List.append_assoc, List.singleton_append] at hnext
      exact hnext

end

/-! ## Sessions -/

/-- **Prints are atomic.** Whatever is done in a session: the body of every file is made of the
lines of the prints into it that succeeded, in order; an action that fails leaves every file as it
was that it does not take away; and without the prints that failed all other actions are answered
in the same way, and the same files are left. -/
theorem actAll_prints_atomic (run : Run) (registry : Registry) (actions : List Action) :
    let s : Session := { run, registry }
    let kept := withoutFailedPrints (s.transcript actions)
    (∀ i f, (s.actAll actions).1.file? i = some f → ∃ lines,
      List.Forall₂ (IsLineOf run.library registry) (printsInto i (s.transcript actions)) lines ∧
        f.tokens = lines.flatten) ∧
    (∀ a e, ((s.actAll actions).1.act a).2 = .failed e → ∀ i, a.takes i = false →
      ((s.actAll actions).1.act a).1.file? i = (s.actAll actions).1.file? i) ∧
    (s.actAll (kept.map Prod.fst)).2 = kept.map Prod.snd ∧
    (s.actAll (kept.map Prod.fst)).1.files = (s.actAll actions).1.files := by
  intro s kept
  have hstart : Logged run.library registry [] s := by
    refine ⟨rfl, rfl, fun i f hfile => ?_, fun i _ => rfl⟩
    exact absurd (lt_length_of_file? hfile) (Nat.not_lt_zero i)
  obtain ⟨hanswers, hagree⟩ := actAll_withoutFailedPrints (Agree.refl s) actions
  refine ⟨?_, ?_, hanswers, hagree.files.symm⟩
  · intro i f hfile
    exact (hstart.actAll actions).log i f hfile
  · intro a e hfailed i htakes
    exact file?_of_failed hfailed htakes

/-- A print that fails may leave something remembered all the same. -/
example :
    ((start {} [⟨"p.Foo", .message, "a.proto", some "p"⟩]).actAll [.openFile "m_pb.ts",
        .print 0 [.seq [.entity ⟨"p.Foo", false⟩], .entity ⟨"p.Bar", false⟩]]).1.registry.settled
      = [("p.Foo", ⟨"Foo", "./a_pb.js", false⟩)] := by
  decide +kernel

end Session

end ModuleAssembly
