import ModuleAssembly.Proofs.FileHistory
import ModuleAssembly.Proofs.ItemGrammar
import ModuleAssembly.Proofs.RegistryHistory

/-!
# Lines and their leaves

Arrays only group what is printed. A value is read leaf by leaf, and the item it is read as is
printed leaf by leaf, so a line is the row of its leaves (`PlannedFile.printLine_eq_leaves`): lines
with the same leaves ask the registry for the same names and add the same tokens. All leaves are read
before the first is printed. Hence a line fails for an entity that is not registered only if every
leaf can be read (`PlannedFile.printLine_byLeaves`), and a file that is printed has what the leaves
of its lines add, line by line (`PlannedFile.printed_eq_ok_iff`).
-/

set_option autoImplicit false

namespace ModuleAssembly

/-! ## Items -/

namespace Item

section

variable (lib : RuntimeLibrary)

theorem tokensOfAll_singleton (p : Item) : tokensOfAll lib [p] = p.tokens lib := by
  simp [tokensOfAll]

theorem tokensOfAll_append (ps qs : List Item) :
    tokensOfAll lib (ps ++ qs) = (do
      let front ← tokensOfAll lib ps
      let back ← tokensOfAll lib qs
      pure (front ++ back)) := by
  induction ps with
  | nil => simp [tokensOfAll]
  | cons p ps ih =>
      simp only [List.cons_append, tokensOfAll, ih, bind_assoc, pure_bind, List.append_assoc]

mutual

/-- **An item is printed leaf by leaf.** -/
theorem tokensOfAll_leaves : ∀ p : Item, tokensOfAll lib p.leaves = p.tokens lib
  | .text _ => tokensOfAll_singleton lib _
  | .bool _ => tokensOfAll_singleton lib _
  | .number _ => tokensOfAll_singleton lib _
  | .int64 _ => tokensOfAll_singleton lib _
  | .bytes _ => tokensOfAll_singleton lib _
  | .symbol _ => tokensOfAll_singleton lib _
  | .entity _ => tokensOfAll_singleton lib _
  | .seq items => tokensOfAll_leavesOfAll items

theorem tokensOfAll_leavesOfAll : ∀ items : List Item,
    tokensOfAll lib (leavesOfAll items) = tokensOfAll lib items
  | [] => rfl
  | p :: rest => by
      rw [leavesOfAll, tokensOfAll_append, tokensOfAll_leaves p, tokensOfAll_leavesOfAll rest,
        tokensOfAll]

end

theorem eval_tokensOfAll (ans : String → Except Error Symbol) (ps : List Item) :
    (tokensOfAll lib ps).eval ans
      = (ps.mapM fun p : Item => (p.tokens lib).eval ans).map List.flatten := by
  induction ps with
  | nil => rfl
  | cons p ps ih =>
      simp only [tokensOfAll, Inquiry.eval_bind, ih, mapM_cons_eq_bind]
      cases (p.tokens lib).eval ans with
      | error e => rfl
      | ok front =>
          cases ps.mapM fun p : Item => (p.tokens lib).eval ans with
          | error e => rfl
          | ok parts => rfl

end

theorem eval_tokens_entity (ans : String → Except Error Symbol) (lib : RuntimeLibrary)
    (ref : EntityUse) :
    ((Item.entity ref).tokens lib).eval ans
      = (ans ref.typeName).map fun s => [.symbol (s.usedAs ref.typeOnly)] := by
  rw [tokens, Inquiry.eval_bind]
  show ((ans ref.typeName).map fun s => s.usedAs ref.typeOnly).bind _ = _
  cases ans ref.typeName with
  | error e => rfl
  | ok s => rfl

/-- Only an entity can fail to be printed. -/
theorem eval_tokens_eq_error_iff {ans : String → Except Error Symbol} {lib : RuntimeLibrary}
    {p : Item} (hp : ∀ ps, p ≠ .seq ps) {e : Error} :
    (p.tokens lib).eval ans = .error e
      ↔ ∃ ref, p = .entity ref ∧ ans ref.typeName = .error e := by
  cases p with
  | entity ref => simp [eval_tokens_entity, except_map_eq_error]
  | seq items => exact absurd rfl (hp items)
  | _ => exact ⟨nofun, nofun⟩

end Item

/-! ## Lines -/

/-- Items are printed as their leaves. -/
theorem OutputFile.print_leaves (f : OutputFile) (lib : RuntimeLibrary) (p : Item) :
    f.print lib p.leaves = f.print lib [p] := by
  have hline : lineTokens lib p.leaves = lineTokens lib [p] := by
    unfold lineTokens
    rw [Item.tokens, Item.tokens, Item.tokensOfAll_leaves, Item.tokensOfAll_singleton]
  unfold print
  rw [hline]

theorem OutputFile.eval_print_items (ans : String → Except Error Symbol) (lib : RuntimeLibrary)
    (f : OutputFile) (items : List Item) :
    (f.print lib items).eval ans = (items.mapM fun p : Item => (p.tokens lib).eval ans).map
      fun parts => f.append (parts.flatten ++ [.text "\n"]) := by
  rw [eval_print, eval_lineTokens, Item.tokens, Item.eval_tokensOfAll]
  cases items.mapM fun p : Item => (p.tokens lib).eval ans with
  | error e => rfl
  | ok parts => rfl

namespace PlannedFile

/-- **A line is printed leaf by leaf**: as the row of what its leaves are read as. -/
theorem printLine_eq_leaves (lib : RuntimeLibrary) (f : OutputFile) (line : Json) :
    printLine lib f line
      = Inquiry.ofExcept (line.leaves.mapM (Item.ofJson f.importPath)) >>= f.print lib := by
  rw [← Item.map_leaves_ofJson, Inquiry.ofExcept_map_bind]
  unfold printLine
  congr 1
  funext p
  exact (f.print_leaves lib p).symm

/-- First all leaves are read, and then their tokens are added. -/
theorem eval_printLine (ans : String → Except Error Symbol) (lib : RuntimeLibrary) (f : OutputFile)
    (line : Json) :
    (printLine lib f line).eval ans
      = ((line.leaves.mapM (Item.ofJson f.importPath)).bind
          (List.mapM fun p : Item => (p.tokens lib).eval ans)).map
        fun parts => f.append (parts.flatten ++ [.text "\n"]) := by
  simp only [printLine_eq_leaves, Inquiry.eval_bind, Inquiry.eval_ofExcept,
    OutputFile.eval_print_items]
  cases line.leaves.mapM (Item.ofJson f.importPath) with
  | error e => rfl
  | ok ps => rfl

section

variable {lib : RuntimeLibrary} {f : OutputFile} {line : Json}

/-- A line that is refused is not printed, and nothing is asked. -/
theorem run_printLine_of_refused {e : Error} (h : Item.ofJson f.importPath line = .error e)
    (r : Registry) : (printLine lib f line).run r = (.error e, r) := by
  unfold printLine
  rw [h]
  rfl

/-- A line that stands for an item without entities is printed, and nothing is asked. -/
theorem run_printLine_of_literal {p : Item} {tokens : List Token}
    (h : Item.ofJson f.importPath line = .ok p) (hp : p.tokens lib = pure tokens) (r : Registry) :
    (printLine lib f line).run r = (.ok (f.append (tokens ++ [.text "\n"])), r) := by
  have hprint : f.print lib [p] = pure (f.append (tokens ++ [.text "\n"])) := by
    rw [OutputFile.print, OutputFile.lineTokens, Item.tokens, Item.tokensOfAll_singleton, hp]
    rfl
  unfold printLine
  rw [h]
  show (f.print lib [p]).run r = _
  rw [hprint]
  rfl

end

/-- The tokens of a value that is printed on its own. -/
def leafTokens (lib : RuntimeLibrary) (r : Registry) (home : String) (leaf : Json) :
    Except Error (List Token) :=
  (Item.ofJson home leaf).bind fun p => ((p.tokens lib).run r).1

/-- The first leaf that cannot be read is refused for this reason. -/
def FirstRefused (home : String) (leaves : List Json) (e : Error) : Prop :=
  ∃ front leaf back, leaves = front ++ leaf :: back ∧
    (∀ l ∈ front, ∃ p, Item.ofJson home l = .ok p) ∧ Item.ofJson home leaf = .error e

/-- Every leaf can be read, and this is the type name of the first that refers to an entity that is
not registered. -/
def FirstUnregistered (r : Registry) (home : String) (leaves : List Json) (typeName : String) :
    Prop :=
  (∀ l ∈ leaves, ∃ p, Item.ofJson home l = .ok p) ∧
    ∃ front leaf back ref, leaves = front ++ leaf :: back ∧
      (∀ l ∈ front, ∀ ref, Item.ofJson home l = .ok (.entity ref) →
        ∃ e, r.get? ref.typeName = some e) ∧
      Item.ofJson home leaf = .ok (.entity ref) ∧ ref.typeName = typeName ∧
      r.get? typeName = none

section

variable {lib : RuntimeLibrary} {r : Registry}

theorem run_printLine (f : OutputFile) (line : Json) :
    ((printLine lib f line).run r).1
      = ((line.leaves.mapM (Item.ofJson f.importPath)).bind
          (List.mapM fun p : Item => ((p.tokens lib).run r).1)).map
        fun parts => f.append (parts.flatten ++ [.text "\n"]) := by
  simp only [Inquiry.run_eq_eval]
  exact eval_printLine r.answer lib f line

end

/-- What the leaves of a line add to the module at `home`, one by one. -/
def LeavesAdd (lib : RuntimeLibrary) (r : Registry) (home : String) (line : Json)
    (parts : List (List Token)) : Prop :=
  List.Forall₂ (fun leaf part => leafTokens lib r home leaf = .ok part) line.leaves parts

section

variable {lib : RuntimeLibrary} {r : Registry}

/-- One line adds what its leaves add, and a line break. -/
theorem eval_printLine_eq_ok_iff {f f' : OutputFile} {line : Json} :
    (printLine lib f line).eval r.answer = .ok f' ↔ ∃ parts,
      LeavesAdd lib r f.importPath line parts ∧ f' = f.append (parts.flatten ++ [.text "\n"]) := by
  rw [← Inquiry.run_eq_eval, run_printLine, except_map_eq_ok]
  simp only [mapM_bind_mapM_eq_ok, mapM_eq_ok_iff]
  exact exists_congr fun parts => and_congr_right fun _ => eq_comm

/-- **Several lines** add what each of them adds. The induction is on the lines, for every file that
they are added to. -/
theorem eval_printLines_eq_ok_iff {f f' : OutputFile} {lines : List Json} :
    (printLines lib f lines).eval r.answer = .ok f' ↔ ∃ parts,
      List.Forall₂ (LeavesAdd lib r f.importPath) lines parts ∧
        f' = f.append (parts.flatMap fun ps => ps.flatten ++ [.text "\n"]) := by
  induction lines generalizing f with
  | nil =>
      have hsame : f.append [] = f := by rw [OutputFile.append, List.append_nil]
      rw [printLines]
      simp only [List.forall₂_nil_left_iff, exists_eq_left, List.flatMap_nil, hsame]
      show Except.ok f = .ok f' ↔ f' = f
      rw [Except.ok.injEq, eq_comm]
  | cons line lines ih =>
      simp only [printLines, Inquiry.eval_bind, except_bind_eq_ok, eval_printLine_eq_ok_iff,
        List.forall₂_cons_left_iff]
      have happend : ∀ front back, (f.append front).append back = f.append (front ++ back) := by
        intro front back
        simp only [OutputFile.append, List.append_assoc]
      constructor
      · rintro ⟨_, ⟨ps, hps, rfl⟩, hrest⟩
        obtain ⟨parts, hparts, rfl⟩ := ih.mp hrest
        exact ⟨ps :: parts, ⟨ps, parts, hps, hparts, rfl⟩, by rw [happend, List.flatMap_cons]⟩
      · rintro ⟨_, ⟨ps, parts, hps, hparts, rfl⟩, rfl⟩
        refine ⟨_, ⟨ps, hps, rfl⟩, ih.mpr ⟨parts, hparts, ?_⟩⟩
        rw [happend, List.flatMap_cons]

/-- Any lines at all add a line break. -/
theorem newline_mem_of_forall₂ {home : String} {lines : List Json}
    {parts : List (List (List Token))} (h : List.Forall₂ (LeavesAdd lib r home) lines parts)
    (hlines : lines ≠ []) :
    Token.text "\n" ∈ parts.flatMap fun ps => ps.flatten ++ [.text "\n"] := by
  cases h with
  | nil => exact absurd rfl hlines
  | cons _ _ => simp

end

/-- **A printed file** is a started one with what its lines add. -/
theorem printed_eq_ok_iff {settings : Settings} {entities : List Entity} {p : PlannedFile}
    {f : OutputFile} :
    let run : Run := ⟨settings⟩
    p.printed settings entities = .ok f ↔ ∃ parts,
      List.Forall₂ (LeavesAdd run.library (run.registry entities) (run.importPathOf p.name)) p.lines
        parts ∧ f = (p.start run).append (parts.flatMap fun ps => ps.flatten ++ [.text "\n"]) := by
  intro run
  rw [printed_eq_eval, ← importPath_start]
  exact eval_printLines_eq_ok_iff

/-- A file with lines has a body, whatever identifiers its symbols get. -/
theorem body_ne_empty_of_printed {settings : Settings} {entities : List Entity} {p : PlannedFile}
    {f : OutputFile} (h : p.printed settings entities = .ok f) (hlines : p.lines ≠ [])
    (r : Resolution) : r.body f.tokens ≠ "" := by
  obtain ⟨parts, hparts, rfl⟩ := printed_eq_ok_iff.mp h
  rw [tokens_append_start]
  exact Resolution.body_ne_empty (newline_mem_of_forall₂ hparts hlines)

section

variable {lib : RuntimeLibrary} {naming : Naming} {history : List RegistryCall} {home : String}

/-- Printing a leaf fails if it refers to an entity that is not registered, and only so. -/
theorem leafTokens_eq_error_iff {leaf : Json} {p : Item} (hleaf : ∀ items, leaf ≠ .array items)
    (hp : Item.ofJson home leaf = .ok p) {e : Error} :
    leafTokens lib (Registry.afterCalls naming history) home leaf = .error e ↔ ∃ ref,
      p = .entity ref ∧ (Registry.afterCalls naming history).get? ref.typeName = none ∧
        e = .unknownEntity ref.typeName := by
  have hseq : ∀ ps, p ≠ .seq ps := Item.not_seq_of_standsFor hleaf (Item.ofJson_eq_ok_iff.mp hp)
  unfold leafTokens
  rw [hp, except_bind_ok, Inquiry.run_eq_eval, Item.eval_tokens_eq_error_iff hseq]
  simp only [Registry.answer_afterCalls_eq_error_iff]

/-- When every leaf can be read, printing the leaves fails as the first that refers to an entity
that is not registered. -/
theorem mapM_leafTokens_eq_error_iff {leaves : List Json}
    (hleaves : ∀ leaf ∈ leaves, ∀ items, leaf ≠ .array items)
    (hread : ∀ leaf ∈ leaves, ∃ p, Item.ofJson home leaf = .ok p) {e : Error} :
    leaves.mapM (leafTokens lib (Registry.afterCalls naming history) home) = .error e ↔
      ∃ t, FirstUnregistered (Registry.afterCalls naming history) home leaves t ∧
        e = .unknownEntity t := by
  rw [mapM_eq_error_iff]
  constructor
  · rintro ⟨front, leaf, back, rfl, hfront, hleaf⟩
    have hmem : leaf ∈ front ++ leaf :: back := List.mem_append_right front (List.mem_cons_self ..)
    obtain ⟨p, hp⟩ := hread leaf hmem
    obtain ⟨ref, rfl, hnone, rfl⟩ := (leafTokens_eq_error_iff (hleaves leaf hmem) hp).mp hleaf
    refine ⟨ref.typeName, ⟨hread, front, leaf, back, ref, rfl, ?_, hp, rfl, hnone⟩, rfl⟩
    intro l hl ref' hl'
    obtain ⟨tokens, htokens⟩ := hfront l hl
    cases hget : (Registry.afterCalls naming history).get? ref'.typeName with
    | some e => exact ⟨e, rfl⟩
    | none =>
        have hfails : leafTokens lib (Registry.afterCalls naming history) home l
            = .error (.unknownEntity ref'.typeName) :=
          (leafTokens_eq_error_iff (hleaves l (List.mem_append_left _ hl)) hl').mpr
            ⟨ref', rfl, hget, rfl⟩
        cases htokens.symm.trans hfails
  · rintro ⟨t, ⟨-, front, leaf, back, ref, rfl, hfront, hp, rfl, hnone⟩, rfl⟩
    have hmem : leaf ∈ front ++ leaf :: back := List.mem_append_right front (List.mem_cons_self ..)
    refine ⟨front, leaf, back, rfl, fun l hl => ?_,
      (leafTokens_eq_error_iff (hleaves leaf hmem) hp).mpr ⟨ref, rfl, hnone, rfl⟩⟩
    have hl' : l ∈ front ++ leaf :: back := List.mem_append_left _ hl
    obtain ⟨q, hq⟩ := hread l hl'
    cases htokens : leafTokens lib (Registry.afterCalls naming history) home l with
    | ok tokens => exact ⟨tokens, rfl⟩
    | error e =>
        obtain ⟨ref', rfl, hget, -⟩ := (leafTokens_eq_error_iff (hleaves l hl') hq).mp htokens
        obtain ⟨e', he'⟩ := hfront l hl ref' hq
        cases hget.symm.trans he'

end

/-- **A line depends on its leaves only.** What it means that a line is printed into a file leaf by
leaf. -/
structure PrintedByLeaves (lib : RuntimeLibrary) (r : Registry) (f : OutputFile) (line : Json) :
    Prop where
  /-- A line with the same leaves is printed alike: the same tokens are added or the same error is
  given, and the registry is asked for the same names. -/
  same : ∀ line', line'.leaves = line.leaves →
    (printLine lib f line').run r = (printLine lib f line).run r
  /-- The tokens that are added are those of the leaves, in order, and a line break. -/
  added_iff : ∀ f', ((printLine lib f line).run r).1 = .ok f' ↔ ∃ parts,
    List.Forall₂ (fun leaf part => leafTokens lib r f.importPath leaf = .ok part) line.leaves
      parts ∧ f' = f.append (parts.flatten ++ [.text "\n"])
  /-- A line fails as the first leaf that cannot be read, and only if all can be read, as the first
  entity that is not registered. -/
  fails_iff : ∀ e, ((printLine lib f line).run r).1 = .error e ↔
    FirstRefused f.importPath line.leaves e ∨
      ∃ t, FirstUnregistered r f.importPath line.leaves t ∧ e = .unknownEntity t

/-- Every line is printed so into every file, with every registry that calls can lead to. -/
theorem printLine_byLeaves (naming : Naming) (history : List RegistryCall) (lib : RuntimeLibrary)
    (f : OutputFile) (line : Json) :
    PrintedByLeaves lib (Registry.afterCalls naming history) f line := by
  have hleaves : ∀ leaf ∈ line.leaves, ∀ items, leaf ≠ .array items :=
    fun _ => Item.not_array_of_mem_leaves
  refine ⟨fun line' h => ?_, fun f' => ?_, fun e => ?_⟩
  · rw [printLine_eq_leaves, printLine_eq_leaves, h]
  · rw [run_printLine, except_map_eq_ok]
    -- reading and then printing the leaves is doing both with one leaf after the other
    simp only [mapM_bind_mapM_eq_ok, mapM_eq_ok_iff]
    exact exists_congr fun parts => and_congr_right fun _ => eq_comm
  · rw [run_printLine, except_map_eq_error, except_bind_eq_error, mapM_eq_error_iff]
    refine or_congr Iff.rfl ?_
    -- once all leaves are read, printing what was read is printing the leaves
    constructor
    · rintro ⟨ps, hps, he⟩
      rw [mapM_of_mapM_eq_ok hps] at he
      exact (mapM_leafTokens_eq_error_iff hleaves (exists_mapM_eq_ok_iff.mp ⟨ps, hps⟩)).mp he
    · rintro ⟨t, ht, rfl⟩
      obtain ⟨ps, hps⟩ := exists_mapM_eq_ok_iff.mpr ht.1
      refine ⟨ps, hps, ?_⟩
      rw [mapM_of_mapM_eq_ok hps]
      exact (mapM_leafTokens_eq_error_iff hleaves ht.1).mpr ⟨t, ht, rfl⟩

end PlannedFile

end ModuleAssembly
