import Mathlib.Logic.Function.Basic
import ModuleAssembly.Body.Literal

/-!
# String literals

A literal is read from left to right: a backslash takes the character after it, and the first quote
that is not taken ends the literal. What is read stays read when the text goes on
(`Text.Quoted.readBody_append`), so a reader that ends at the last character of a literal ends at no
earlier one, and ends there whatever follows. Hence the literal of a text stands for this text and
for no other (`Literal.string_standsFor`).
-/

set_option autoImplicit false

namespace ModuleAssembly

namespace Text.Quoted

/-! ## The reader -/

/-- What is read stays read when the text goes on. -/
theorem readBody_append {cs s rest : List Char} (h : readBody cs = some (s, rest))
    (more : List Char) : readBody (cs ++ more) = some (s, rest ++ more) := by
  fun_induction readBody cs generalizing s with
  | case1 => cases h
  | case2 => cases h
  | case3 c cs ih =>
      obtain ⟨⟨t, rest'⟩, ht, heq⟩ := Option.map_eq_some_iff.mp h
      cases heq
      rw [List.cons_append, List.cons_append, readBody, ih ht]
      rfl
  | case4 cs =>
      cases h
      rfl
  | case5 c cs hend htaken hquote ih =>
      obtain ⟨⟨t, rest'⟩, ht, heq⟩ := Option.map_eq_some_iff.mp h
      cases heq
      have hbackslash : c ≠ '\\' := by
        rintro rfl
        cases cs with
        | nil => exact hend rfl rfl
        | cons d cs => exact htaken d cs rfl rfl
      rw [List.cons_append, readBody, if_neg hquote, ih ht]
      · rfl
      · exact fun heq => absurd heq hbackslash
      · exact fun _ _ heq => absurd heq hbackslash

/-- A reader that ends at the last character has not ended before. -/
theorem readBody_eq_none_of_append {front rest s : List Char}
    (h : readBody (front ++ rest) = some (s, [])) (hrest : rest ≠ []) : readBody front = none := by
  cases hfront : readBody front with
  | none => rfl
  | some r =>
      obtain ⟨t, left⟩ := r
      have hread := (readBody_append hfront rest).symm.trans h
      have hleft : left ++ rest = [] := congrArg Prod.snd (Option.some.inj hread)
      exact absurd (List.append_eq_nil_iff.mp hleft).2 hrest

/-! ## Literals -/

/-- **What it means to be a literal of a text.** -/
structure StandsFor (literal s : String) : Prop where
  /-- It starts and ends with a quote. -/
  enclosed : ∃ inner, literal.toList = '"' :: (inner ++ ['"'])
  /-- It has no line break. -/
  oneLine : ∀ c ∈ literal.toList, c ≠ '\r' ∧ c ≠ '\n'
  /-- Behind the first quote the text is read, and the reader ends at the last character. -/
  read : readBody literal.toList.tail = some (s.toList, [])
  /-- It ends at no earlier character. -/
  notBefore : ∀ front rest, literal.toList.tail = front ++ rest → rest ≠ [] → readBody front = none
  /-- It ends there whatever follows. -/
  followed : ∀ more, readBody (literal.toList.tail ++ more) = some (s.toList, more)

/-- A literal stands for one text. -/
theorem StandsFor.unique {literal s t : String} (hs : StandsFor literal s)
    (ht : StandsFor literal t) : s = t := by
  have hread := hs.read.symm.trans ht.read
  exact String.toList_inj.mp (congrArg Prod.fst (Option.some.inj hread))

theorem standsFor_write (s : String) : StandsFor (write s) s := by
  have hchars : (write s).toList = writeChars s.toList := String.toList_ofList
  have hread : readBody (write s).toList.tail = some (s.toList, []) := by
    have hliteral := readChars_writeChars s.toList []
    rw [List.append_nil] at hliteral
    rw [hchars]
    exact hliteral
  refine ⟨⟨s.toList.flatMap escape, hchars⟩, fun c hc => ?_, hread, ?_, ?_⟩
  · rw [hchars] at hc
    exact not_lineBreak_of_mem_writeChars hc
  · intro front rest hsplit hrest
    rw [hsplit] at hread
    exact readBody_eq_none_of_append hread hrest
  · exact readBody_append hread

end Text.Quoted

/-- **Every text has a literal of its own**, which stands for the text. -/
theorem Literal.string_standsFor :
    (∀ s, Text.Quoted.StandsFor (string s) s) ∧ Function.Injective string := by
  refine ⟨Text.Quoted.standsFor_write, fun s t h => ?_⟩
  have ht : Text.Quoted.StandsFor (string s) t := by
    rw [h]
    exact Text.Quoted.standsFor_write t
  exact (Text.Quoted.standsFor_write s).unique ht

end ModuleAssembly
