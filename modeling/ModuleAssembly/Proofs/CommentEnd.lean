import Mathlib.Data.List.Infix
import ModuleAssembly.Body.DocBlock

/-!
# Where a documentation block ends

A comment ends at the first `*/` in its text. The texts of a documentation block have none of their
own (`DocBlock.closings_protect`), but a line that starts with a slash makes one together with the
star in front of it. So a block has one `*/` for each such line besides the one at its end
(`DocBlock.closings_indented`), and it ends where it should exactly if there are no such lines.
-/

set_option autoImplicit false

namespace ModuleAssembly

/-! ## Places where a comment ends -/

/-- The number of places in a text at which a comment ends. -/
def closings (cs : List Char) : Nat := cs.tails.countP fun rest => ['*', '/'].isPrefixOf rest

/-- A comment ends at the end of the text, and nowhere else in it. -/
def ClosesAtEnd (text : String) : Prop := closings text.toList = 1 ∧ "*/".toList <:+ text.toList

@[simp] theorem closings_nil : closings [] = 0 := rfl

theorem closings_cons (c : Char) (cs : List Char) :
    closings (c :: cs) = closings cs + if c = '*' ∧ cs.head? = some '/' then 1 else 0 := by
  have hprefix : ['*', '/'].isPrefixOf (c :: cs) = decide (c = '*' ∧ cs.head? = some '/') := by
    rw [Bool.eq_iff_iff, decide_eq_true_eq]
    cases cs with
    | nil => simp [List.isPrefixOf]
    | cons d cs =>
        simp only [List.isPrefixOf, Bool.and_true, Bool.and_eq_true, beq_iff_eq, List.head?_cons,
          Option.some.injEq]
        exact and_congr eq_comm eq_comm
  unfold closings
  rw [List.tails_cons, List.countP_cons, hprefix]
  simp only [decide_eq_true_eq]

/-- Where two texts meet, a comment ends if the one has the star and the other the slash. -/
theorem closings_append (front back : List Char) :
    closings (front ++ back) = closings front + closings back
      + if front.getLast? = some '*' ∧ back.head? = some '/' then 1 else 0 := by
  induction front with
  | nil => simp
  | cons c front ih =>
      rw [List.cons_append, closings_cons, closings_cons, ih]
      cases front with
      | nil => simp
      | cons d front =>
          -- behind `c` there is a letter of the front, so the seam is that of the shorter front
          rw [List.cons_append, List.head?_cons, List.head?_cons, List.getLast?_cons_cons]
          omega

/-- No comment ends in a text without stars, nor where it goes on. -/
theorem closings_append_of_not_mem {front : List Char} (h : '*' ∉ front) (back : List Char) :
    closings (front ++ back) = closings back := by
  induction front with
  | nil => rfl
  | cons c front ih =>
      rw [List.mem_cons, not_or] at h
      rw [List.cons_append, closings_cons, if_neg fun hc => h.1 hc.1.symm, ih h.2, Nat.add_zero]

/-- No comment ends where a line ends. -/
theorem closings_line_append (line back : List Char) :
    closings (line ++ '\n' :: back) = closings line + closings back := by
  rw [closings_append, closings_cons, if_neg fun h => absurd h.1 (by decide),
    if_neg fun h => absurd h.2 (by simp)]
  rfl

/-! ## Lines -/

theorem linesOf_newline (cs : List Char) : linesOf ('\n' :: cs) = [] :: linesOf cs := by
  unfold linesOf
  rw [List.splitOn_cons_eq_if_modifyHead, if_pos (by decide)]

theorem linesOf_cons {c : Char} (h : c ≠ '\n') (cs : List Char) :
    linesOf (c :: cs) = (linesOf cs).modifyHead (List.cons c) := by
  unfold linesOf
  rw [List.splitOn_cons_eq_if_modifyHead, if_neg (by simpa using h)]

theorem exists_linesOf_eq_cons (cs : List Char) : ∃ line rest, linesOf cs = line :: rest :=
  List.exists_cons_of_ne_nil (List.splitOn_ne_nil '\n' cs)

/-- The first line of a text starts with a slash exactly if the text does. -/
theorem head?_of_linesOf_eq_cons {cs line : List Char} {rest : List (List Char)}
    (h : linesOf cs = line :: rest) : line.head? = some '/' ↔ cs.head? = some '/' := by
  cases cs with
  | nil =>
      cases h
      rfl
  | cons c cs =>
      by_cases hc : c = '\n'
      · subst hc
        rw [linesOf_newline] at h
        cases h
        simp
      · obtain ⟨first, others, hfirst⟩ := exists_linesOf_eq_cons cs
        rw [linesOf_cons hc, hfirst] at h
        cases h
        rfl

namespace DocBlock

/-! ## Protected texts -/

/-- A letter is kept; a star is parted from a slash behind it. -/
theorem protect_cons (c : Char) (cs : List Char) :
    protect (c :: cs)
      = (if c = '*' ∧ cs.head? = some '/' then ['*', '\\'] else [c]) ++ protect cs := by
  cases cs with
  | nil => simp [protect]
  | cons d cs =>
      by_cases h : c = '*' ∧ d = '/'
      · obtain ⟨rfl, rfl⟩ := h
        simp [protect]
      · rw [protect, if_neg (by simpa using h), List.singleton_append]
        rintro rest rfl hrest
        cases hrest
        exact h ⟨rfl, rfl⟩

theorem head?_protect (cs : List Char) : (protect cs).head? = cs.head? := by
  cases cs with
  | nil => rfl
  | cons c cs =>
      rw [protect_cons]
      split
      · next h => rw [h.1]; rfl
      · rfl

/-- **Protection.** No comment ends in a protected text. -/
theorem closings_protect (cs : List Char) : closings (protect cs) = 0 := by
  induction cs with
  | nil => rfl
  | cons c cs ih =>
      rw [protect_cons]
      split
      · simp [closings_cons, ih]
      · next h => rw [List.singleton_append, closings_cons, ih, head?_protect, if_neg h]

/-- Protecting a text protects its lines. -/
theorem linesOf_protect (cs : List Char) : linesOf (protect cs) = (linesOf cs).map protect := by
  induction cs with
  | nil => rfl
  | cons c cs ih =>
      by_cases hc : c = '\n'
      · subst hc
        rw [protect_cons, if_neg fun h => absurd h.1 (by decide), List.singleton_append,
          linesOf_newline, linesOf_newline, ih]
        rfl
      · obtain ⟨line, rest, hlines⟩ := exists_linesOf_eq_cons cs
        -- what stands behind `c` in its line is a slash exactly if it is one in the text
        have hhead : line.head? = some '/' ↔ cs.head? = some '/' := head?_of_linesOf_eq_cons hlines
        rw [protect_cons, linesOf_cons hc, hlines, List.modifyHead_cons, List.map_cons,
          protect_cons]
        simp only [hhead]
        split
        · rw [List.cons_append, List.singleton_append, linesOf_cons (by decide),
            linesOf_cons (by decide), ih, hlines]
          rfl
        · rw [List.singleton_append, linesOf_cons hc, ih, hlines]
          rfl

/-! ## Blocks -/

theorem lines_ofTexts (texts : List String) :
    (ofTexts texts).lines = (texts.flatMap commentLines).map protect := by
  have hadd : ∀ (texts : List String) (b : DocBlock),
      (texts.foldl add b).lines = b.lines ++ (texts.flatMap commentLines).map protect := by
    intro texts
    induction texts with
    | nil => simp
    | cons text texts ih =>
        intro b
        rw [List.foldl_cons, ih, add, linesOf_protect, List.flatMap_cons, List.map_append,
          List.append_assoc, commentLines]
  exact hadd texts empty

/-- A line is in the block with a star in front of it, so a slash at its front ends a comment. -/
theorem closings_lines {indent : List Char} (hindent : '*' ∉ indent) (lines : List (List Char))
    (back : List Char) :
    closings ((lines.map protect).flatMap (fun line => indent ++ ' ' :: '*' :: (line ++ ['\n']))
        ++ back)
      = (lines.countP fun line => line.head? = some '/') + closings back := by
  induction lines with
  | nil => simp
  | cons line lines ih =>
      have hhead : ∀ more, (protect line ++ '\n' :: more).head? = some '/'
          ↔ line.head? = some '/' := by
        intro more
        rw [List.head?_append, head?_protect]
        cases line.head? <;> simp
      rw [List.map_cons, List.flatMap_cons]
      simp only [List.append_assoc, List.cons_append, List.nil_append]
      -- the blank in front of the star ends nothing, the star does if the line starts with a slash
      rw [closings_append_of_not_mem hindent, closings_cons, if_neg fun h => absurd h.1 (by decide),
        closings_cons, closings_line_append, closings_protect, ih, List.countP_cons]
      simp only [hhead, true_and, decide_eq_true_eq]
      omega

/-- **The ends of a comment in a block.** There is one for each line that starts with a slash, and
one more at the end of the block. -/
theorem closings_indentedChars (texts : List String) {indent : List Char} (hindent : '*' ∉ indent) :
    closings ((ofTexts texts).indentedChars indent)
      = ((texts.flatMap commentLines).countP fun line => line.head? = some '/') + 1 := by
  have hlast : closings (indent ++ [' ', '*', '/']) = 1 := by
    rw [closings_append_of_not_mem hindent]
    rfl
  unfold indentedChars
  rw [lines_ofTexts]
  simp only [List.append_assoc, List.cons_append]
  rw [closings_append_of_not_mem hindent]
  -- the slash of the opening line is in front of its stars, so no comment ends there
  simp only [closings_cons]
  rw [closings_lines hindent, hlast]
  simp

theorem isEmpty_ofTexts {texts : List String} (h : texts ≠ []) :
    (ofTexts texts).isEmpty = false := by
  obtain ⟨text, rest, rfl⟩ := List.exists_cons_of_ne_nil h
  obtain ⟨line, others, hlines⟩ := exists_linesOf_eq_cons (Text.withoutBack ['\n'] text.toList)
  rw [isEmpty, lines_ofTexts, List.flatMap_cons, commentLines, hlines]
  rfl

/-- **Where a block ends.** A block of at least one text, indented by blanks, is one comment exactly
if no line of its texts starts with a slash. -/
theorem closesAtEnd_indented_iff {texts : List String} {indent : String} (htexts : texts ≠ [])
    (hindent : ∀ c ∈ indent.toList, c = ' ' ∨ c = '\t') :
    ClosesAtEnd ((ofTexts texts).indented indent)
      ↔ ∀ text ∈ texts, ∀ line ∈ commentLines text, line.head? ≠ some '/' := by
  have hstar : '*' ∉ indent.toList := by
    intro h
    rcases hindent '*' h with h | h
    · cases h
    · cases h
  have hchars : ((ofTexts texts).indented indent).toList
      = (ofTexts texts).indentedChars indent.toList := by
    rw [indented, isEmpty_ofTexts htexts]
    exact String.toList_ofList
  have hend : "*/".toList <:+ (ofTexts texts).indentedChars indent.toList := by
    have hback : "*/".toList <:+ [' ', '*', '/'] := by decide
    exact hback.trans (List.suffix_append _ _)
  unfold ClosesAtEnd
  rw [hchars, closings_indentedChars texts hstar, and_iff_left hend, Nat.add_eq_right,
    List.countP_eq_zero]
  simp only [List.mem_flatMap, decide_eq_true_eq, forall_exists_index, and_imp]
  exact ⟨fun h text htext line hline => h line text htext hline,
    fun h line text htext hline => h text htext line hline⟩

/-- Lines that look like the end of a comment and are none. -/
def harmless : List String := ["**/ a *//", " / b\n*\\/ c\n"]

theorem harmless_closesAtEnd :
    (harmless ≠ [] ∧ (∀ c ∈ " \t".toList, c = ' ' ∨ c = '\t') ∧
      ∀ text ∈ harmless, ∀ line ∈ commentLines text, line.head? ≠ some '/') ∧
    ClosesAtEnd ((ofTexts harmless).indented " \t") := by
  have htexts : harmless ≠ [] := by decide
  have hindent : ∀ c ∈ " \t".toList, c = ' ' ∨ c = '\t' := by simp
  have hlines : ∀ text ∈ harmless, ∀ line ∈ commentLines text, line.head? ≠ some '/' := by
    decide +kernel
  exact ⟨⟨htexts, hindent, hlines⟩, (closesAtEnd_indented_iff htexts hindent).mpr hlines⟩

/-- A text that starts with a slash ends the comment, and its rest stands behind the comment. -/
theorem slash_not_closesAtEnd :
    (ofTexts ["/ alert(1);"]).indented "" = "/**\n */ alert(1);\n */" ∧
      closings ((ofTexts ["/ alert(1);"]).indented "").toList = 2 ∧
      ¬ ClosesAtEnd ((ofTexts ["/ alert(1);"]).indented "") := by
  have hblock : (ofTexts ["/ alert(1);"]).indented "" = "/**\n */ alert(1);\n */" := by
    decide +kernel
  have hclosings : closings ((ofTexts ["/ alert(1);"]).indented "").toList = 2 := by
    decide +kernel
  refine ⟨hblock, hclosings, ?_⟩
  rintro ⟨hone, -⟩
  rw [hclosings] at hone
  cases hone

end DocBlock

end ModuleAssembly
