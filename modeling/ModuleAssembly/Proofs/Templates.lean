import ModuleAssembly.Proofs.SessionHistory

/-!
# Templates

A template is a line that is given as fragments with values between them. It has one value for each
gap, or it is refused before any of its values is looked at (`Session.act_printTemplate_eq_failed`).
Otherwise it is the line in which fragments and values take turns: the action that prints the
template is the action that prints this line (`Session.act_printTemplate_eq_act_print`).
-/

set_option autoImplicit false

namespace ModuleAssembly

namespace OutputFile

/-! ## Fragments and values in turn -/

/-- There is one value for each gap between two fragments; where there is no fragment, there is no
value either. -/
def FillsGaps (fragments : List String) (values : List Item) : Prop :=
  values.length + 1 = fragments.length ∨ (values.length = 0 ∧ fragments.length = 0)

/-- The fragments are the items at the even places, and the values those at the odd ones. -/
structure Alternates (fragments : List String) (values items : List Item) : Prop where
  fragment : ∀ i, items[2 * i]? = (fragments[i]?).map Item.text
  value : ∀ i, items[2 * i + 1]? = values[i]?

/-- Fragments and values take turns in one way. -/
theorem Alternates.unique {fragments : List String} {values items items' : List Item}
    (h : Alternates fragments values items) (h' : Alternates fragments values items') :
    items = items' := by
  refine List.ext_getElem? fun j => ?_
  obtain ⟨i, rfl | rfl⟩ : ∃ i, j = 2 * i ∨ j = 2 * i + 1 := ⟨j / 2, by omega⟩
  · rw [h.fragment, h'.fragment]
  · rw [h.value, h'.value]

theorem alternates_interleave {fragments : List String} {values : List Item}
    (h : FillsGaps fragments values) :
    Alternates fragments values (interleave fragments values) := by
  induction fragments generalizing values with
  | nil =>
      obtain rfl : values = [] := by
        rcases h with h | h
        · cases h
        · exact List.length_eq_zero_iff.mp h.1
      exact ⟨fun i => rfl, fun i => rfl⟩
  | cons s fragments ih =>
      cases values with
      | nil =>
          obtain rfl : fragments = [] := by
            rcases h with h | ⟨-, h⟩
            · exact List.length_eq_zero_iff.mp (Nat.succ.inj h).symm
            · cases h
          refine ⟨fun i => ?_, fun i => rfl⟩
          cases i with
          | zero => rfl
          | succ i => rfl
      | cons p values =>
          have hrest : FillsGaps fragments values := by
            rcases h with h | ⟨h, -⟩
            · exact .inl (Nat.succ.inj h)
            · cases h
          -- two places further on stands what the rest has
          refine ⟨fun i => ?_, fun i => ?_⟩
          · cases i with
            | zero => rfl
            | succ i => exact (ih hrest).fragment i
          · cases i with
            | zero => rfl
            | succ i => exact (ih hrest).value i

/-! ## Templates -/

theorem templateItems_of_fillsGaps {fragments : List String} {values : List Item}
    (h : FillsGaps fragments values) :
    templateItems fragments values = .ok (interleave fragments values) := by
  unfold FillsGaps at h
  unfold templateItems
  rw [if_neg (by omega), if_neg (by omega)]

theorem templateItems_of_missing {fragments : List String} {values : List Item}
    (h : values.length + 1 < fragments.length) :
    templateItems fragments values = .error (.unsupported "missing template value") := by
  unfold templateItems
  rw [if_pos (by omega)]

theorem templateItems_of_extra {fragments : List String} {values : List Item}
    (hvalues : values ≠ []) (h : fragments.length ≤ values.length) :
    templateItems fragments values = .error (.unsupported "extra template value") := by
  have hpos : 0 < values.length := List.length_pos_iff.mpr hvalues
  unfold templateItems
  rw [if_neg (by omega), if_pos (by omega)]

/-- Gaps that are not filled lack a value, or there are values for which there is no gap. -/
theorem missing_or_extra {fragments : List String} {values : List Item}
    (h : ¬ FillsGaps fragments values) :
    values.length + 1 < fragments.length ∨ (values ≠ [] ∧ fragments.length ≤ values.length) := by
  unfold FillsGaps at h
  rw [← List.length_pos_iff]
  omega

end OutputFile

namespace Session

open OutputFile (FillsGaps Alternates interleave)

/-- A template with one value for each gap is printed as a line. -/
theorem act_printTemplate_eq_act_print (s : Session) (i : Nat) {fragments : List String}
    {values : List Item} (h : FillsGaps fragments values) :
    s.act (.printTemplate i fragments values) = s.act (.print i (interleave fragments values)) := by
  have hprint : ∀ f : OutputFile, f.printTemplate s.run.library fragments values
      = f.print s.run.library (interleave fragments values) := by
    intro f
    unfold OutputFile.printTemplate
    rw [OutputFile.templateItems_of_fillsGaps h]
    rfl
  show s.withFile i _ = s.withFile i _
  simp only [hprint]

theorem act_printTemplate {s : Session} {i : Nat} {f : OutputFile} (hfile : s.file? i = some f)
    (fragments : List String) (values : List Item) :
    s.act (.printTemplate i fragments values)
      = s.addLine i f (f.printTemplate s.run.library fragments values) := by
  show s.withFile i _ = _
  unfold withFile
  rw [hfile]

/-- A template that is no line is refused, and its values are not printed. -/
theorem act_printTemplate_eq_failed {s : Session} {i : Nat} {f : OutputFile}
    (hfile : s.file? i = some f) {fragments : List String} {values : List Item} {e : Error}
    (h : OutputFile.templateItems fragments values = .error e) :
    s.act (.printTemplate i fragments values) = (s, .failed e) := by
  have hprint : f.printTemplate s.run.library fragments values = Inquiry.ofExcept (.error e) := by
    unfold OutputFile.printTemplate
    rw [h]
    rfl
  rw [act_printTemplate hfile, hprint]
  rfl

/-- A line that is not added leaves the files as they were. -/
theorem files_addLine_of_not_printed {s : Session} {i : Nat} {f : OutputFile}
    {line : Inquiry OutputFile} (h : (s.addLine i f line).2.isPrinted = false) :
    (s.addLine i f line).1.files = s.files := by
  unfold addLine at h ⊢
  rw [inquire_eq] at h ⊢
  cases hline : line.eval s.registry.answer with
  | error e => rfl
  | ok f' =>
      rw [hline] at h
      cases h

/-- **Templates are lines.** What it means that a template is printed into file `i` as the line in
which its fragments and values take turns. -/
structure PrintedInTurn (s : Session) (i : Nat) (fragments : List String) (values : List Item) :
    Prop where
  /-- With one value for each gap the answer and the session after it, hence the file, are those of
  the line. -/
  same : FillsGaps fragments values → ∃ items, Alternates fragments values items ∧
    s.act (.printTemplate i fragments values) = s.act (.print i items)
  /-- With fewer values it fails, whatever the values are. -/
  missing : values.length + 1 < fragments.length →
    s.act (.printTemplate i fragments values)
      = (s, .failed (.unsupported "missing template value"))
  /-- With more values it fails, whatever the values are. -/
  extra : values ≠ [] → fragments.length ≤ values.length →
    s.act (.printTemplate i fragments values)
      = (s, .failed (.unsupported "extra template value"))
  /-- It succeeds exactly if there is one value for each gap and printing the line succeeds. -/
  succeeds_iff : (s.act (.printTemplate i fragments values)).2.isPrinted = true ↔
    FillsGaps fragments values ∧ ∃ items, Alternates fragments values items ∧
      (s.act (.print i items)).2.isPrinted = true
  /-- If it fails, all files are as they were. -/
  unchanged : (s.act (.printTemplate i fragments values)).2.isPrinted = false →
    (s.act (.printTemplate i fragments values)).1.files = s.files

/-- Every template is printed so into every file that is open. -/
theorem printTemplate_inTurn {s : Session} {i : Nat} {f : OutputFile} (hfile : s.file? i = some f)
    (fragments : List String) (values : List Item) : PrintedInTurn s i fragments values := by
  have hmissing : values.length + 1 < fragments.length →
      s.act (.printTemplate i fragments values)
        = (s, .failed (.unsupported "missing template value")) := fun h =>
    act_printTemplate_eq_failed hfile (OutputFile.templateItems_of_missing h)
  have hextra : values ≠ [] → fragments.length ≤ values.length →
      s.act (.printTemplate i fragments values)
        = (s, .failed (.unsupported "extra template value")) := fun hvalues h =>
    act_printTemplate_eq_failed hfile (OutputFile.templateItems_of_extra hvalues h)
  refine ⟨fun h => ?_, hmissing, hextra, ?_, ?_⟩
  · exact ⟨_, OutputFile.alternates_interleave h, act_printTemplate_eq_act_print s i h⟩
  · constructor
    · intro h
      have hfills : FillsGaps fragments values := by
        by_contra hnot
        rcases OutputFile.missing_or_extra hnot with hlt | ⟨hvalues, hle⟩
        · rw [hmissing hlt] at h
          cases h
        · rw [hextra hvalues hle] at h
          cases h
      rw [act_printTemplate_eq_act_print s i hfills] at h
      exact ⟨hfills, _, OutputFile.alternates_interleave hfills, h⟩
    · rintro ⟨hfills, items, hitems, h⟩
      rw [act_printTemplate_eq_act_print s i hfills,
        (OutputFile.alternates_interleave hfills).unique hitems]
      exact h
  · intro h
    rw [act_printTemplate hfile] at h ⊢
    exact files_addLine_of_not_printed h

/-- A session with a file that has a line. -/
def begun : Session :=
  ((start {} [⟨"p.Foo", .message, "a.proto", some "p"⟩]).actAll
    [.openFile "m_pb.ts", .print 0 [.text "// m"]]).1

/-- The file of the session. -/
def begunFile : OutputFile :=
  { name := "m_pb.ts", importPath := "./m_pb.js", tokens := [.text "// m", .text "\n"],
    keepEmpty := false }

/-- A template with a sequence as a value. -/
theorem begun_inTurn :
    begun.file? 0 = some begunFile ∧
      PrintedInTurn begun 0 ["const ", " = ", ""]
        [.text "x", .seq [.entity ⟨"p.Foo", false⟩, .seq [], .text "()"]] ∧
      ((begun.act (.printTemplate 0 ["const ", " = ", ""]
        [.text "x", .seq [.entity ⟨"p.Foo", false⟩, .seq [], .text "()"]])).1.file? 0).map
          OutputFile.tokens
        = some [.text "// m", .text "\n", .text "const ", .text "x", .text " = ",
          .symbol ⟨"Foo", "./a_pb.js", false⟩, .text "()", .text "", .text "\n"] := by
  have hfile : begun.file? 0 = some begunFile := by decide +kernel
  exact ⟨hfile, printTemplate_inTurn hfile _ _, by decide +kernel⟩

end Session

end ModuleAssembly
