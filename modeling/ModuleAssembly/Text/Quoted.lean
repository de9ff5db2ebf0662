/-!
# Double-quoted string literals

The written form of a text as a double-quoted literal, and the reader that takes it apart
again. A literal is a quote, the escaped characters, and a quote. Only four characters are
escaped: the backslash, the quote, and the two line breaks CR and LF, so a literal never
spans lines. The reader takes a backslash together with the character after it and stops at
the first quote that no backslash protects.
-/

set_option autoImplicit false

namespace ModuleAssembly.Text.Quoted

/-! ## Writing -/

/-- The written form of one character inside a literal. -/
def escape (c : Char) : List Char :=
  if c = '\\' then ['\\', '\\']
  else if c = '"' then ['\\', '"']
  else if c = '\r' then ['\\', 'r']
  else if c = '\n' then ['\\', 'n']
  else [c]

/-- The characters of the literal of `cs`, both quotes included. -/
def writeChars (cs : List Char) : List Char := '"' :: (cs.flatMap escape ++ ['"'])

/-- The double-quoted literal of a text. -/
def write (s : String) : String := String.ofList (writeChars s.toList)

/-! ## Reading -/

/-- The character that a backslash and `c` stand for: `n` and `r` name the line breaks, every
other character stands for itself. -/
def unescape (c : Char) : Char :=
  if c = 'n' then '\n' else if c = 'r' then '\r' else c

/-- Reads the rest of a literal whose opening quote is already behind, and gives the text and
what follows the closing quote. There is no result when the closing quote is missing. -/
def readBody : List Char → Option (List Char × List Char)
  | [] => none
  | '\\' :: [] => none
  | '\\' :: c :: rest => (readBody rest).map fun r => (unescape c :: r.1, r.2)
  | c :: rest =>
    if c = '"' then some ([], rest)
    else (readBody rest).map fun r => (c :: r.1, r.2)

/-- Reads a literal from the front of `cs`. -/
def readChars : List Char → Option (List Char × List Char)
  | c :: rest => if c = '"' then readBody rest else none
  | [] => none

/-- Reads a text that is one literal and nothing else. -/
def read (s : String) : Option String :=
  match readChars s.toList with
  | some (cs, []) => some (String.ofList cs)
  | _ => none

/-! ## Reading what was written -/

/-- A character is written as a backslash and a character that is read as it, or as it is. -/
theorem escape_cases (c : Char) :
    (∃ d, escape c = ['\\', d] ∧ unescape d = c ∧ d ≠ '\r' ∧ d ≠ '\n') ∨
      (escape c = [c] ∧ c ≠ '\\' ∧ c ≠ '"' ∧ c ≠ '\r' ∧ c ≠ '\n') := by
  by_cases hbackslash : c = '\\'
  · subst hbackslash
    exact .inl ⟨'\\', rfl, rfl, by decide, by decide⟩
  by_cases hquote : c = '"'
  · subst hquote
    exact .inl ⟨'"', rfl, rfl, by decide, by decide⟩
  by_cases hreturn : c = '\r'
  · subst hreturn
    exact .inl ⟨'r', rfl, rfl, by decide, by decide⟩
  by_cases hnewline : c = '\n'
  · subst hnewline
    exact .inl ⟨'n', rfl, rfl, by decide, by decide⟩
  refine .inr ⟨?_, hbackslash, hquote, hreturn, hnewline⟩
  rw [escape, if_neg hbackslash, if_neg hquote, if_neg hreturn, if_neg hnewline]

/-- What is written for one character is read as this character. -/
theorem readBody_escape (c : Char) (rest : List Char) :
    readBody (escape c ++ rest) = (readBody rest).map fun r => (c :: r.1, r.2) := by
  rcases escape_cases c with ⟨d, hd, rfl, -⟩ | ⟨hc, hbackslash, hquote, -⟩
  · rw [hd]
    rfl
  · rw [hc, List.singleton_append, readBody, if_neg hquote]
    · exact fun heq => absurd heq hbackslash
    · exact fun _ _ heq => absurd heq hbackslash

/-- A literal is read up to its closing quote, whatever follows it. -/
theorem readChars_writeChars (cs rest : List Char) :
    readChars (writeChars cs ++ rest) = some (cs, rest) := by
  have hbody : readBody (cs.flatMap escape ++ '"' :: rest) = some (cs, rest) := by
    induction cs with
    | nil => rfl
    | cons c cs ih =>
        rw [List.flatMap_cons, List.append_assoc, readBody_escape, ih]
        rfl
  rw [writeChars, List.cons_append, List.append_assoc, List.singleton_append]
  exact hbody

/-- A literal does not span lines. -/
theorem not_lineBreak_of_mem_writeChars {cs : List Char} {d : Char} (h : d ∈ writeChars cs) :
    d ≠ '\r' ∧ d ≠ '\n' := by
  simp only [writeChars, List.mem_cons, List.mem_append, List.mem_flatMap, List.not_mem_nil,
    or_false] at h
  rcases h with rfl | ⟨c, -, hd⟩ | rfl
  · decide
  · rcases escape_cases c with ⟨e, he, -, hreturn, hnewline⟩ | ⟨hc, -, -, hreturn, hnewline⟩
    · rw [he] at hd
      rcases List.mem_cons.mp hd with rfl | hd
      · decide
      · rw [List.mem_singleton] at hd
        subst hd
        exact ⟨hreturn, hnewline⟩
    · rw [hc, List.mem_singleton] at hd
      subst hd
      exact ⟨hreturn, hnewline⟩
  · decide

end ModuleAssembly.Text.Quoted
