import ModuleAssembly.OutputFile
import ModuleAssembly.Proofs.Memo
import ModuleAssembly.Proofs.Results

/-!
# Files by their history

A file that is being written is determined by the calls that were made on it: its body is made of
the lines of the prints that succeeded, and its preamble and its answer to whether it is kept are
the last ones that were set (`afterCalls_eq`). A call that fails leaves no mark on the file.
-/

set_option autoImplicit false

namespace ModuleAssembly

/-! ## Lines -/

namespace OutputFile

theorem eval_lineTokens (ans : String → Except Error Symbol) (lib : RuntimeLibrary)
    (items : List Item) :
    (lineTokens lib items).eval ans
      = (((Item.seq items).tokens lib).eval ans).map fun tokens => tokens ++ [.text "\n"] := by
  unfold lineTokens
  rw [Inquiry.eval_bind]
  cases ((Item.seq items).tokens lib).eval ans with
  | error e => rfl
  | ok tokens => rfl

theorem newline_mem_lineTokens {ans : String → Except Error Symbol} {lib : RuntimeLibrary}
    {items : List Item} {line : List Token} (h : (lineTokens lib items).eval ans = .ok line) :
    Token.text "\n" ∈ line := by
  rw [eval_lineTokens] at h
  obtain ⟨tokens, -, rfl⟩ := except_map_eq_ok.mp h
  simp

/-- A print adds the line of its items, or fails as their rendering fails. -/
theorem eval_print (ans : String → Except Error Symbol) (lib : RuntimeLibrary) (f : OutputFile)
    (items : List Item) :
    (f.print lib items).eval ans = ((lineTokens lib items).eval ans).map f.append := by
  unfold print
  rw [Inquiry.eval_bind]
  cases (lineTokens lib items).eval ans with
  | error e => rfl
  | ok line => rfl

/-- A template is printed as the line of its items, if it has any. -/
theorem eval_printTemplate (ans : String → Except Error Symbol) (lib : RuntimeLibrary)
    (f : OutputFile) (fragments : List String) (values : List Item) :
    (f.printTemplate lib fragments values).eval ans
      = (templateItems fragments values).bind fun items => (f.print lib items).eval ans := by
  unfold printTemplate
  rw [Inquiry.eval_bind, Inquiry.eval_ofExcept]

end OutputFile

/-! ## Calls -/

/-- A call on a file that is being written. A print finds the registry in some state; other files
may have been written with it before. -/
inductive FileCall where
  | setPreamble (schema : Schema)
  | setKeepEmpty (keepEmpty : Bool)
  | print (registry : Registry) (items : List Item)
  | printTemplate (registry : Registry) (fragments : List String) (values : List Item)

namespace FileCall

/-- The call prints a line. -/
def isPrint : FileCall → Bool
  | .print .. | .printTemplate .. => true
  | _ => false

/-- The schema file whose preamble the call sets. -/
def schema? : FileCall → Option Schema
  | .setPreamble schema => some schema
  | _ => none

/-- The answer to whether an empty file is kept that the call sets. -/
def keepEmpty? : FileCall → Option Bool
  | .setKeepEmpty keepEmpty => some keepEmpty
  | _ => none

/-- The line that the call adds: none if it fails or does not print. -/
def line? (lib : RuntimeLibrary) : FileCall → Option (List Token)
  | .print registry items => ((OutputFile.lineTokens lib items).eval registry.answer).toOption
  | .printTemplate registry fragments values =>
    ((OutputFile.templateItems fragments values).bind fun items =>
      (OutputFile.lineTokens lib items).eval registry.answer).toOption
  | _ => none

end FileCall

namespace OutputFile

section

variable (settings : Settings) (lib : RuntimeLibrary)

/-- What a call answers: the file after it, or why it fails. -/
def answerTo (f : OutputFile) : FileCall → Except Error OutputFile
  | .setPreamble schema => .ok (f.withPreamble settings schema)
  | .setKeepEmpty keepEmpty => .ok (f.withKeepEmpty keepEmpty)
  | .print registry items => ((f.print lib items).run registry).1
  | .printTemplate registry fragments values =>
    ((f.printTemplate lib fragments values).run registry).1

/-- The file after a call; a call that fails leaves it as it was. -/
def afterCall (f : OutputFile) (c : FileCall) : OutputFile :=
  match f.answerTo settings lib c with
  | .ok f' => f'
  | .error _ => f

/-- The file after a history of calls. -/
def afterCalls (f : OutputFile) (calls : List FileCall) : OutputFile :=
  calls.foldl (afterCall settings lib) f

/-- Some call of the history printed a line and succeeded. -/
def HasPrinted (f : OutputFile) (calls : List FileCall) : Prop :=
  ∃ before c rest f', calls = before ++ c :: rest ∧ c.isPrint = true ∧
    (f.afterCalls settings lib before).answerTo settings lib c = .ok f'

/-- The last preamble that was set. -/
def lastPreamble (calls : List FileCall) : Option String :=
  (calls.filterMap FileCall.schema?).getLast?.map (Preamble.text settings)

/-- Whether the file is kept when it is empty: what was set last, or what the settings say. -/
def keepEmptyInForce (calls : List FileCall) : Bool :=
  (calls.filterMap FileCall.keepEmpty?).getLast?.getD settings.keepEmptyFiles

end

section

variable {settings : Settings} {lib : RuntimeLibrary}

/-- A call that prints appends its line, if it has one. -/
theorem answerTo_toOption {f : OutputFile} {c : FileCall} (hc : c.isPrint = true) :
    (f.answerTo settings lib c).toOption = (c.line? lib).map f.append := by
  cases c with
  | setPreamble schema => cases hc
  | setKeepEmpty keepEmpty => cases hc
  | print registry items =>
      rw [answerTo, FileCall.line?, Inquiry.run_eq_eval, eval_print, except_toOption_map]
  | printTemplate registry fragments values =>
      rw [answerTo, FileCall.line?, Inquiry.run_eq_eval, eval_printTemplate]
      cases templateItems fragments values with
      | error e => rfl
      | ok items => rw [except_bind_ok, except_bind_ok, eval_print, except_toOption_map]

/-- A call that prints succeeds exactly when it has a line. -/
theorem answerTo_eq_ok_iff {f : OutputFile} {c : FileCall} (hc : c.isPrint = true) :
    (∃ f', f.answerTo settings lib c = .ok f') ↔ ∃ line, c.line? lib = some line := by
  simp only [← except_toOption_eq_some, answerTo_toOption hc, Option.map_eq_some_iff]
  constructor
  · rintro ⟨f', line, hline, -⟩
    exact ⟨line, hline⟩
  · rintro ⟨line, hline⟩
    exact ⟨f.append line, line, hline, rfl⟩

theorem afterCall_eq_getD (f : OutputFile) (c : FileCall) :
    f.afterCall settings lib c = (f.answerTo settings lib c).toOption.getD f := by
  unfold afterCall
  cases f.answerTo settings lib c with
  | error e => rfl
  | ok f' => rfl

/-- A call that prints appends its line; nothing else of the file changes. -/
theorem afterCall_of_isPrint (f : OutputFile) {c : FileCall} (hc : c.isPrint = true) :
    f.afterCall settings lib c = f.append ((c.line? lib).getD []) := by
  rw [afterCall_eq_getD, answerTo_toOption hc]
  cases c.line? lib with
  | none => simp [append]
  | some line => rfl

/-- **One call.** It adds its line, and sets what it sets. -/
theorem afterCall_eq (f : OutputFile) (c : FileCall) :
    f.afterCall settings lib c = { f with
      tokens := f.tokens ++ (c.line? lib).getD []
      preamble := (c.schema?.map (Preamble.text settings)).or f.preamble
      keepEmpty := c.keepEmpty?.getD f.keepEmpty } := by
  cases c with
  | setPreamble schema =>
      simp [afterCall, answerTo, withPreamble, FileCall.line?, FileCall.schema?,
        FileCall.keepEmpty?]
  | setKeepEmpty keepEmpty =>
      simp [afterCall, answerTo, withKeepEmpty, FileCall.line?, FileCall.schema?,
        FileCall.keepEmpty?]
  | print registry items => exact afterCall_of_isPrint f rfl
  | printTemplate registry fragments values => exact afterCall_of_isPrint f rfl

/-- **A history of calls.** The file has the lines of the calls that have one, and what was set
last. -/
theorem afterCalls_eq (f : OutputFile) (calls : List FileCall) :
    f.afterCalls settings lib calls = { f with
      tokens := f.tokens ++ (calls.filterMap (FileCall.line? lib)).flatten
      preamble := (lastPreamble settings calls).or f.preamble
      keepEmpty := (calls.filterMap FileCall.keepEmpty?).getLast?.getD f.keepEmpty } := by
  induction calls generalizing f with
  | nil => simp [afterCalls, lastPreamble]
  | cons c calls ih =>
      have hstep : f.afterCalls settings lib (c :: calls)
          = (f.afterCall settings lib c).afterCalls settings lib calls := rfl
      rw [hstep, ih, afterCall_eq]
      -- what the first call sets counts only if no later call sets it again
      congr 1
      · cases hs : c.schema? with
        | none => simp [lastPreamble, hs]
        | some schema => cases hl : (calls.filterMap FileCall.schema?).getLast? <;>
            simp [lastPreamble, hs, hl, List.getLast?_cons]
      · cases hl : c.line? lib with
        | none => simp [hl]
        | some line => simp [hl]
      · cases hk : c.keepEmpty? with
        | none => simp [hk]
        | some b => simp [hk, List.getLast?_cons]

/-- The line of a call ends with a line break. -/
theorem newline_mem_line {c : FileCall} {line : List Token} (h : c.line? lib = some line) :
    Token.text "\n" ∈ line := by
  cases c with
  | setPreamble schema => cases h
  | setKeepEmpty keepEmpty => cases h
  | print registry items => exact newline_mem_lineTokens (except_toOption_eq_some.mp h)
  | printTemplate registry fragments values =>
      obtain ⟨items, -, hline⟩ := except_bind_eq_ok.mp (except_toOption_eq_some.mp h)
      exact newline_mem_lineTokens hline

/-- Something was printed exactly when some call has a line. -/
theorem hasPrinted_iff {f : OutputFile} {calls : List FileCall} :
    HasPrinted settings lib f calls ↔ ∃ c ∈ calls, ∃ line, c.line? lib = some line := by
  constructor
  · rintro ⟨before, c, rest, f', rfl, hc, hok⟩
    exact ⟨c, by simp, (answerTo_eq_ok_iff hc).mp ⟨f', hok⟩⟩
  · rintro ⟨c, hmem, line, hline⟩
    obtain ⟨before, rest, rfl⟩ := List.append_of_mem hmem
    have hc : c.isPrint = true := by
      cases c with
      | setPreamble schema => cases hline
      | setKeepEmpty keepEmpty => cases hline
      | print registry items => rfl
      | printTemplate registry fragments values => rfl
    have hanswer : ∃ f', (f.afterCalls settings lib before).answerTo settings lib c = .ok f' :=
      (answerTo_eq_ok_iff hc).mpr ⟨line, hline⟩
    obtain ⟨f', hok⟩ := hanswer
    exact ⟨before, c, rest, f', rfl, hc, hok⟩

end

end OutputFile

end ModuleAssembly
