import ModuleAssembly.Proofs.LineLeaves
import ModuleAssembly.Proofs.WholeNumerals

/-!
# Integer literals

A sixty-four bit integer is given by a whole number or by any of its numerals in a string
(`Json.SpellsInt`). It is printed the same way however a line spells it, no two integers are printed
alike, and what is no numeral of such an integer is refused (`PlannedFile.printLine_int64`).
-/

set_option autoImplicit false

namespace ModuleAssembly

namespace Number

/-! ## Numerals in quotes -/

/-- A numeral needs no escape in a string. -/
theorem escape_of_mem_intText {n : Int} {c : Char} (h : c ∈ intText n) :
    Text.Quoted.escape c = [c] := by
  have hcases := minus_or_isDigit_of_mem_intText h
  have hne : ∀ d, d ≠ '-' → isDigit d = false → c ≠ d := by
    rintro d hminus hdigit rfl
    rcases hcases with h | h
    · exact hminus h
    · rw [hdigit] at h
      cases h
  rw [Text.Quoted.escape, if_neg (hne _ (by decide) (by decide)),
    if_neg (hne _ (by decide) (by decide)), if_neg (hne _ (by decide) (by decide)),
    if_neg (hne _ (by decide) (by decide))]

/-- The literal of a numeral is the numeral in quotes. -/
theorem string_intText (n : Int) :
    Literal.string (String.ofList (intText n)) = "\"" ++ String.ofList (intText n) ++ "\"" := by
  have hplain : (intText n).flatMap Text.Quoted.escape = intText n := by
    rw [List.flatMap_congr fun c hc => escape_of_mem_intText hc]
    exact List.flatMap_singleton' _
  have hchars : Literal.string (String.ofList (intText n))
      = String.ofList ('"' :: (intText n ++ ['"'])) := by
    rw [Literal.string, Text.Quoted.write, String.toList_ofList, Text.Quoted.writeChars, hplain]
  rw [hchars, ← String.toList_inj]
  simp

/-! ## Sixty-four bit integers -/

/-- The integers that fit sixty-four bits with a sign. -/
def IsInt64 (n : Int) : Prop := -(Int.pow 2 63) ≤ n ∧ n < Int.pow 2 63

theorem isInt64_toInt (i : Int64) : IsInt64 i.toInt := ⟨i.le_toInt, i.toInt_lt⟩

theorem exists_toInt_eq {n : Int} (h : IsInt64 n) : ∃ i : Int64, i.toInt = n :=
  ⟨Int64.ofInt n, toInt64?_eq_some_iff.mp (if_pos h)⟩

theorem readInt64?_eq_some_iff {s : String} {i : Int64} :
    readInt64? s = some i ↔ IsNumeralOf i.toInt s.toList := by
  rw [readInt64?, Option.bind_eq_some_iff]
  constructor
  · rintro ⟨n, hn, hi⟩
    rw [toInt64?_eq_some_iff.mp hi]
    exact readWhole?_eq_some_iff.mp hn
  · exact fun h => ⟨i.toInt, readWhole?_eq_some_iff.mpr h, toInt64?_eq_some_iff.mpr rfl⟩

end Number

open Number (IsNumeralOf IsInt64 intText readInt64?)

/-- A JSON value spells an integer as a whole number, or by one of its numerals in a string. -/
inductive Json.SpellsInt (n : Int) : Json → Prop where
  | whole {w : Whole} (h : w.value = n) : SpellsInt n (.number (.whole w))
  | text {s : String} (h : IsNumeralOf n s.toList) : SpellsInt n (.string s)

theorem Json.SpellsInt.unique {n m : Int} {v : Json} (hn : v.SpellsInt n) (hm : v.SpellsInt m) :
    n = m := by
  cases hn with
  | whole hn =>
      cases hm with
      | whole hm => exact hn.symm.trans hm
  | text hn =>
      cases hm with
      | text hm => exact hn.unique hm

theorem Item.int64Of_eq_some_iff_spells {v : Json} {i : Int64} :
    int64Of v = some i ↔ v.SpellsInt i.toInt := by
  rw [int64Of_eq_some_iff]
  constructor
  · rintro (⟨w, rfl, hw⟩ | ⟨s, rfl, hs⟩)
    · exact .whole hw.symm
    · exact .text (Number.readInt64?_eq_some_iff.mp hs)
  · rintro (hw | hs)
    · exact .inl ⟨_, rfl, hw.symm⟩
    · exact .inr ⟨_, rfl, Number.readInt64?_eq_some_iff.mpr hs⟩

/-! ## Lines -/

/-- What is printed for the integer `n`: the constant of the runtime library for zero, and a call
with the shortest text that is read as `n` for every other integer. -/
inductive PrintsInt64 (lib : RuntimeLibrary) (n : Int) : List Token → Prop where
  | zero (h : n = 0) : PrintsInt64 lib n [.symbol (lib.symbol .protoInt64), .text ".zero"]
  | call (h : n ≠ 0) (d : String) (hread : (readInt64? d).map Int64.toInt = some n)
      (hshortest : ∀ d', (readInt64? d').map Int64.toInt = some n → d' = d ∨ d.length < d'.length) :
      PrintsInt64 lib n
        [.symbol (lib.symbol .protoInt64), .text ".parse(", .text ("\"" ++ d ++ "\""), .text ")"]

namespace Item

theorem prints_int64Tokens (lib : RuntimeLibrary) (i : Int64) :
    PrintsInt64 lib i.toInt (int64Tokens lib i) := by
  unfold int64Tokens
  by_cases hzero : i = 0
  · rw [if_pos hzero]
    subst hzero
    exact .zero rfl
  · rw [if_neg hzero, Number.string_intText]
    have hne : i.toInt ≠ 0 := fun h => hzero (Int64.toInt_inj.mp h)
    refine .call hne _ ?_ ?_
    · have hnumeral : IsNumeralOf i.toInt (String.ofList (intText i.toInt)).toList := by
        rw [String.toList_ofList]
        exact Number.isNumeralOf_intText _
      rw [Number.readInt64?_eq_some_iff.mpr hnumeral, Option.map_some]
    · intro d' hd'
      obtain ⟨j, hj, hji⟩ := Option.map_eq_some_iff.mp hd'
      have hnumeral := Number.readInt64?_eq_some_iff.mp hj
      rw [hji] at hnumeral
      refine hnumeral.eq_or_length_lt.imp (fun heq => ?_) fun hlt => ?_
      · rw [← heq, String.ofList_toList]
      · rwa [String.length_ofList]

end Item

/-- Different integers are printed differently. -/
theorem PrintsInt64.unique {lib : RuntimeLibrary} {n m : Int} {tokens : List Token}
    (hn : PrintsInt64 lib n tokens) (hm : PrintsInt64 lib m tokens) : n = m := by
  cases hn with
  | zero hn =>
      generalize htokens : [Token.symbol (lib.symbol .protoInt64), Token.text ".zero"] = ts at hm
      cases hm with
      | zero hm => rw [hn, hm]
      | call _ d _ _ => simp at htokens
  | call hn d hread _ =>
      generalize htokens : [Token.symbol (lib.symbol .protoInt64), Token.text ".parse(",
        Token.text ("\"" ++ d ++ "\""), Token.text ")"] = ts at hm
      cases hm with
      | zero _ => simp at htokens
      | call _ d' hread' _ =>
          simp only [List.cons.injEq, Token.text.injEq, and_true, true_and,
            String.append_left_inj, String.append_right_inj] at htokens
          rw [htokens] at hread
          exact Option.some.inj (hread.symm.trans hread')

namespace PlannedFile

/-- **Sixty-four bit integers survive.** What it means that the lines with the key `int64` are
printed into a file by the integers that they spell. -/
structure KeepsInt64 (lib : RuntimeLibrary) (f : OutputFile) (r : Registry) : Prop where
  /-- All spellings of an integer give the same tokens: the shortest text that is read as it. -/
  printed : ∀ n, IsInt64 n → ∃ tokens, PrintsInt64 lib n tokens ∧
    ∀ (v : Json) members, v.SpellsInt n → Table.find? "int64" members = some v →
      (printLine lib f (.object members)).run r = (.ok (f.append (tokens ++ [.text "\n"])), r)
  /-- Lines that are printed alike spell the same integer. -/
  distinct : ∀ (v w : Json) members members' n m, v.SpellsInt n → w.SpellsInt m → IsInt64 n →
    IsInt64 m → Table.find? "int64" members = some v → Table.find? "int64" members' = some w →
      (printLine lib f (.object members)).run r = (printLine lib f (.object members')).run r →
        n = m
  /-- Whatever spells no such integer is refused, and no session changes. -/
  refused : ∀ (v : Json) members, (∀ n, IsInt64 n → ¬ v.SpellsInt n) →
    Table.find? "int64" members = some v →
      (printLine lib f (.object members)).run r
          = (.error (.unsupported ("int64 " ++ v.compact)), r) ∧
        ∀ (s : Session) (i : Nat), s.file? i = some f →
          s.act (.decode i (.object members))
            = (s, .failed (.unsupported ("int64 " ++ v.compact)))

/-- A line that spells an integer is printed as this integer. -/
theorem run_printLine_int64 {lib : RuntimeLibrary} {f : OutputFile} {v : Json}
    {members : List (String × Json)} {i : Int64} (hv : v.SpellsInt i.toInt)
    (hmember : Table.find? "int64" members = some v) (r : Registry) :
    (printLine lib f (.object members)).run r
      = (.ok (f.append (Item.int64Tokens lib i ++ [.text "\n"])), r) := by
  have hitem : Item.ofJson f.importPath (.object members) = .ok (.int64 i) := by
    rw [Item.ofJson_of_deciding (Item.deciding?_int64 hmember), Item.readUnder,
      Item.int64Of_eq_some_iff_spells.mpr hv]
  exact run_printLine_of_literal hitem rfl r

/-- A line that spells no integer in range is refused. -/
theorem ofJson_int64_eq_error {home : String} {v : Json} {members : List (String × Json)}
    (hv : ∀ n, IsInt64 n → ¬ v.SpellsInt n) (hmember : Table.find? "int64" members = some v) :
    Item.ofJson home (.object members) = .error (.unsupported ("int64 " ++ v.compact)) := by
  have hnone : Item.int64Of v = none := by
    rw [Option.eq_none_iff_forall_ne_some]
    exact fun i hi => hv _ (Number.isInt64_toInt i) (Item.int64Of_eq_some_iff_spells.mp hi)
  rw [Item.ofJson_of_deciding (Item.deciding?_int64 hmember), Item.readUnder, hnone]
  rfl

/-- They are printed so into every file of every run. -/
theorem printLine_int64 (lib : RuntimeLibrary) (f : OutputFile) (r : Registry) :
    KeepsInt64 lib f r := by
  refine ⟨fun n hn => ?_, ?_, fun v members hv hmember => ?_⟩
  · obtain ⟨i, rfl⟩ := Number.exists_toInt_eq hn
    exact ⟨_, Item.prints_int64Tokens lib i, fun v members hv hmember =>
      run_printLine_int64 hv hmember r⟩
  · intro v w members members' n m hv hw hn hm hmember hmember' hsame
    obtain ⟨i, rfl⟩ := Number.exists_toInt_eq hn
    obtain ⟨j, rfl⟩ := Number.exists_toInt_eq hm
    rw [run_printLine_int64 hv hmember, run_printLine_int64 hw hmember', Prod.mk.injEq,
      Except.ok.injEq] at hsame
    have htokens : Item.int64Tokens lib i = Item.int64Tokens lib j := by
      have hbody := congrArg OutputFile.tokens hsame.1
      exact List.append_cancel_right (List.append_cancel_left hbody)
    have hi := Item.prints_int64Tokens lib i
    rw [htokens] at hi
    exact hi.unique (Item.prints_int64Tokens lib j)
  · have hrefused : ∀ home, Item.ofJson home (.object members) = _ := fun home =>
      ofJson_int64_eq_error hv hmember
    exact ⟨run_printLine_of_refused (hrefused _) r, fun s i hfile =>
      Session.act_decode_eq_failed hfile (hrefused _)⟩

end PlannedFile

end ModuleAssembly
