import ModuleAssembly.Json.Decoder
import ModuleAssembly.Proofs.Numerals
import Mathlib.Data.List.Forall2

/-!
# The lexemes of written JSON

The compact text of a value is cut into the lexemes that one expects of it (`Json.lexemes`): the
escapes of a string are undone, and nothing runs into what follows it. Whole numbers are read as
what they are. A double-precision number may be read as a neighbour, since reading rounds twice;
the values considered here have none for which it does (`JsonNumber.ReadsBack`).
-/

set_option autoImplicit false

namespace ModuleAssembly

open Number (Finite)

/-! ## Strings -/

namespace Lexeme

/-- The escape of a control character stands for it. -/
theorem scanPieces_unicode {n : Nat} (h : n < 32) (tail : List Char) :
    scanPieces ('\\' :: 'u' :: '0' :: '0' :: Nat.digitChar (n / 16) :: Nat.digitChar (n % 16)
        :: tail)
      = (.char (Char.ofNat n) :: (scanPieces tail).1, (scanPieces tail).2) := by
  have hvalues : ∀ n < 32,
      hexValue4? '0' '0' (Nat.digitChar (n / 16)) (Nat.digitChar (n % 16)) = some n := by
    decide
  have hpiece : Piece.ofNat n = .char (Char.ofNat n) := by
    rw [Piece.ofNat, if_neg (by omega), if_neg (by omega)]
  rw [scanPieces, hvalues n h]
  simp only [hpiece]

/-- A character that needs no escape stands for itself. -/
theorem scanPieces_plain {c : Char} (hquote : c ≠ '"') (hslash : c ≠ '\\') (hc : ¬ c.toNat < 32)
    (tail : List Char) :
    scanPieces (c :: tail) = (.char c :: (scanPieces tail).1, (scanPieces tail).2) := by
  rw [scanPieces, if_neg hc]
  all_goals simp [hquote, hslash]

/-- What is written for a character is read as that character. -/
theorem scanPieces_escape (c : Char) (tail : List Char) :
    scanPieces (Json.escape c ++ tail)
      = (.char c :: (scanPieces tail).1, (scanPieces tail).2) := by
  -- backspace and form feed are told by their numbers
  have hofNat : ∀ {n}, c.toNat = n → c = Char.ofNat n := by
    rintro n rfl
    exact c.ofNat_toNat.symm
  unfold Json.escape
  split
  · next h => subst h; rfl
  split
  · next h => subst h; rfl
  split
  · next h => subst h; rfl
  split
  · next h => subst h; rfl
  split
  · next h => subst h; rfl
  split
  · next h => rw [hofNat h]; rfl
  split
  · next h => rw [hofNat h]; rfl
  split
  · next h =>
      have hread := scanPieces_unicode h tail
      rwa [c.ofNat_toNat] at hread
  · next hquote hslash _ _ _ _ _ hc => exact scanPieces_plain hquote hslash hc tail

theorem scanPieces_flatMap_escape (cs rest : List Char) :
    scanPieces (cs.flatMap Json.escape ++ '"' :: rest) = (cs.map .char, .ok rest) := by
  induction cs with
  | nil => rfl
  | cons c cs ih =>
      rw [List.flatMap_cons, List.append_assoc, scanPieces_escape, ih, List.map_cons]

theorem joinPieces_map_char (cs : List Char) : joinPieces (cs.map .char) = some cs := by
  induction cs with
  | nil => rfl
  | cons c cs ih => rw [List.map_cons, joinPieces, ih, Option.map_some]

/-- **A written string is one lexeme.** Its value is the string, whatever characters it has and
whatever follows. -/
theorem starts_quote (s : String) (rest : List Char) :
    Starts (.string (some s)) (Json.quote s ++ rest) rest := by
  have hscan : scanString (s.toList.flatMap Json.escape ++ ['"'] ++ rest)
      = (.string (some s), rest) := by
    rw [List.append_assoc, scanString, List.singleton_append, scanPieces_flatMap_escape]
    simp only [joinPieces_map_char, Option.map_some, String.ofList_toList]
  rw [Json.quote]
  exact starts_of_scan (by decide) hscan

/-! ## Runs of lexemes -/

/-- The lexemes of `cs` are `ls`, where at least as many are asked for as there are characters. -/
def Lexes (cs : List Char) (ls : List Lexeme) : Prop :=
  ∀ fuel, cs.length ≤ fuel → scanAll fuel cs = ls

theorem Lexes.nil : Lexes [] [] := by
  intro fuel _
  cases fuel with
  | zero => rfl
  | succ fuel => rfl

/-- One more lexeme in front. -/
theorem Lexes.cons {l : Lexeme} {ls : List Lexeme} {cs rest : List Char} (h : Starts l cs rest)
    (hl : ∀ b, l ≠ .broken b) (hrest : Lexes rest ls) : Lexes cs (l :: ls) := by
  obtain ⟨c, tail, rfl, hspace, hscan, hlength⟩ := h
  intro fuel hfuel
  cases fuel with
  | zero => cases hfuel
  | succ fuel =>
      have hle : rest.length ≤ fuel := by
        rw [List.length_cons] at hfuel
        omega
      have hdrop : (c :: tail).dropWhile isSpace = c :: tail := by
        rw [List.dropWhile_cons, hspace, if_neg Bool.false_ne_true]
      rw [scanAll, hdrop]
      simp only [hscan, hrest fuel hle]

theorem Lexes.ofChars_eq {cs : List Char} {ls : List Lexeme} (h : Lexes cs ls) :
    ofChars cs = ls :=
  h cs.length (Nat.le_refl _)

/-- The characters that are lexemes by themselves. -/
def marks : List (Char × Lexeme) :=
  [('[', .openArray), (']', .closeArray), ('\x7b', .openObject), ('\x7d', .closeObject),
    (',', .comma), (':', .colon)]

theorem scan_mark {c : Char} {l : Lexeme} (h : (c, l) ∈ marks) (rest : List Char) :
    isSpace c = false ∧ scan c rest = (l, rest) ∧ ∀ b, l ≠ .broken b := by
  simp only [marks, List.mem_cons, Prod.mk.injEq, List.not_mem_nil, or_false] at h
  rcases h with ⟨rfl, rfl⟩ | ⟨rfl, rfl⟩ | ⟨rfl, rfl⟩ | ⟨rfl, rfl⟩ | ⟨rfl, rfl⟩ | ⟨rfl, rfl⟩
  all_goals exact ⟨by decide, rfl, by simp⟩

/-- One more mark in front. -/
theorem Lexes.mark {c : Char} {l : Lexeme} {rest : List Char} {ls : List Lexeme}
    (h : (c, l) ∈ marks) (hrest : Lexes rest ls) : Lexes (c :: rest) (l :: ls) := by
  obtain ⟨hspace, hscan, hl⟩ := scan_mark h rest
  exact .cons ⟨c, rest, rfl, hspace, hscan, Nat.le_refl _⟩ hl hrest

/-! ## Texts that stand for lexemes -/

/-- Wherever the characters stand in front of a delimiter, they are these lexemes. -/
structure Spells (cs : List Char) (ls : List Lexeme) : Prop where
  lexes {rest : List Char} {after : List Lexeme} :
    Delimited rest → Lexes rest after → Lexes (cs ++ rest) (ls ++ after)

theorem Spells.ofChars_eq {cs : List Char} {ls : List Lexeme} (h : Spells cs ls) :
    ofChars cs = ls := by
  have hlexes := h.lexes Delimited.nil Lexes.nil
  rw [List.append_nil, List.append_nil] at hlexes
  exact hlexes.ofChars_eq

/-- A single lexeme. -/
theorem spells_of_starts {l : Lexeme} {cs : List Char} (hl : ∀ b, l ≠ .broken b)
    (h : ∀ {rest}, Delimited rest → Starts l (cs ++ rest) rest) : Spells cs [l] :=
  ⟨fun hr hafter => .cons (h hr) hl hafter⟩

theorem delimited_cons {c : Char} (hc : c = ',' ∨ c = ']' ∨ c = '\x7d') (rest : List Char) :
    Delimited (c :: rest) := by
  intro c' hc'
  cases hc'
  exact hc

/-- A colon or an opening bracket may stand in front of anything. -/
theorem Spells.opened {c : Char} {l : Lexeme} {cs : List Char} {ls : List Lexeme}
    (hl : (c, l) ∈ marks) (h : Spells cs ls) : Spells (c :: cs) (l :: ls) :=
  ⟨fun hr hafter => .mark hl (h.lexes hr hafter)⟩

/-- A closing bracket ends what stands in front of it. -/
theorem Spells.closed {c : Char} {l : Lexeme} {cs : List Char} {ls : List Lexeme}
    (hl : (c, l) ∈ marks) (hc : c = ',' ∨ c = ']' ∨ c = '\x7d') (h : Spells cs ls) :
    Spells (cs ++ [c]) (ls ++ [l]) := by
  refine ⟨fun {rest after} _ hafter => ?_⟩
  have hlast : Lexes (c :: rest) (l :: after) := .mark hl hafter
  rw [List.append_assoc, List.append_assoc]
  exact h.lexes (delimited_cons hc rest) hlast

theorem spells_nil : Spells [] [] := ⟨fun _ hafter => hafter⟩

/-- Texts with commas between them. -/
theorem spells_intercalate {css : List (List Char)} {lss : List (List Lexeme)}
    (h : List.Forall₂ Spells css lss) :
    Spells ([','].intercalate css) ([Lexeme.comma].intercalate lss) := by
  induction h with
  | nil => exact spells_nil
  | @cons cs ls css lss hhead htail ih =>
      cases htail with
      | nil =>
          rw [List.intercalate_singleton, List.intercalate_singleton]
          exact hhead
      | cons hnext hrest =>
          -- the comma delimits what stands in front of it
          refine ⟨fun hr hafter => ?_⟩
          have htail := ih.lexes hr hafter
          have hcomma : Lexes (',' :: _) (.comma :: _) := .mark (by decide) htail
          have hall := hhead.lexes (delimited_cons (.inl rfl) _) hcomma
          rw [List.intercalate_cons_cons, List.intercalate_cons_cons]
          simpa only [List.append_assoc, List.cons_append, List.nil_append] using hall

end Lexeme

/-! ## Numbers that read back -/

/-- The text of the number is read as that number. -/
def JsonNumber.ReadsBack (n : JsonNumber) : Prop :=
  Json.ofText (Json.number n).compact = .ok (.number n)

namespace JsonNumber

open Lexeme (Spells)

theorem spells_number (n : JsonNumber) : Spells n.chars [.number n.numeral.value?] :=
  Lexeme.spells_of_starts (by simp) fun hr => n.starts_chars hr

/-- Whether a number reads back is a question about its numeral. -/
theorem readsBack_iff (n : JsonNumber) : n.ReadsBack ↔ n.numeral.value? = some n := by
  have hdraft : Draft.ofText (Json.number n).compact = (.number n.numeral.value?, []) := by
    rw [Draft.ofText, Json.compact, String.toList_ofList, Json.chars,
      n.spells_number.ofChars_eq]
    rfl
  unfold ReadsBack Json.ofText Decoder.ofText
  rw [hdraft]
  cases n.numeral.value? with
  | none =>
      constructor
      · intro h
        cases h
      · intro h
        cases h
  | some m =>
      constructor
      · intro h
        cases h
        rfl
      · intro h
        cases h
        rfl

theorem readsBack_whole (n : Whole) : ReadsBack (.whole n) :=
  (readsBack_iff _).mpr (value?_numeral_whole n)

/-- Reading rounds twice: the text `-2251799813685247.8` is read as the next number. -/
example : (numeral (.real ⟨true, 9007199254740991, -2, by decide⟩)).value?
    = some (.real ⟨true, 4503599627370496, -1, by decide⟩) := by
  decide +kernel

end JsonNumber

/-! ## The lexemes of a value -/

namespace Json

mutual

/-- The double-precision numbers in a value, in the order of the text. -/
def reals : Json → List Finite
  | .number (.real x) => [x]
  | .array items => realsOfItems items
  | .object members => realsOfMembers members
  | _ => []

/-- The double-precision numbers in the items. -/
def realsOfItems : List Json → List Finite
  | [] => []
  | v :: rest => v.reals ++ realsOfItems rest

/-- The double-precision numbers in the values of the members. -/
def realsOfMembers : List (String × Json) → List Finite
  | [] => []
  | (_, v) :: rest => v.reals ++ realsOfMembers rest

end

mutual

/-- The lexemes of the compact text. -/
def lexemes : Json → List Lexeme
  | .null => [.null]
  | .bool b => [.bool b]
  | .number n => [.number (some n)]
  | .string s => [.string (some s)]
  | .array items => .openArray :: ([Lexeme.comma].intercalate (itemLexemes items) ++ [.closeArray])
  | .object members =>
    .openObject :: ([Lexeme.comma].intercalate (memberLexemes members) ++ [.closeObject])

/-- The lexemes of each item. -/
def itemLexemes : List Json → List (List Lexeme)
  | [] => []
  | v :: rest => v.lexemes :: itemLexemes rest

/-- The lexemes of each member. -/
def memberLexemes : List (String × Json) → List (List Lexeme)
  | [] => []
  | (k, v) :: rest => (.string (some k) :: .colon :: v.lexemes) :: memberLexemes rest

end

/-- Every double-precision number in the list is read as itself. -/
def AllReadBack (xs : List Finite) : Prop := ∀ x ∈ xs, (JsonNumber.real x).ReadsBack

theorem AllReadBack.left {xs ys : List Finite} (h : AllReadBack (xs ++ ys)) : AllReadBack xs :=
  fun x hx => h x (List.mem_append_left _ hx)

theorem AllReadBack.right {xs ys : List Finite} (h : AllReadBack (xs ++ ys)) : AllReadBack ys :=
  fun x hx => h x (List.mem_append_right _ hx)

open Lexeme (Spells)

theorem spells_number {n : JsonNumber} (h : n.ReadsBack) : Spells n.chars [.number (some n)] := by
  have hspells := n.spells_number
  rwa [n.readsBack_iff.mp h] at hspells

/-- A member is its key, a colon and its value. -/
theorem spells_member (k : String) {cs : List Char} {ls : List Lexeme} (h : Spells cs ls) :
    Spells (quote k ++ ':' :: cs) (.string (some k) :: .colon :: ls) := by
  refine ⟨fun hr hafter => ?_⟩
  have hcolon : Spells (':' :: cs) (.colon :: ls) := h.opened (by decide)
  rw [List.append_assoc]
  exact .cons (Lexeme.starts_quote k _) (by simp) (hcolon.lexes hr hafter)

mutual

/-- **The text of a value is cut into its lexemes**, in front of any delimiter. -/
theorem spells_chars : ∀ v : Json, AllReadBack v.reals → Spells v.chars v.lexemes
  | .null, _ => Lexeme.spells_of_starts (by simp) fun _ => Lexeme.starts_of_scan (by decide) rfl
  | .bool true, _ =>
    Lexeme.spells_of_starts (by simp) fun _ => Lexeme.starts_of_scan (by decide) rfl
  | .bool false, _ =>
    Lexeme.spells_of_starts (by simp) fun _ => Lexeme.starts_of_scan (by decide) rfl
  | .number (.whole n), _ => spells_number (JsonNumber.readsBack_whole n)
  | .number (.real x), h => spells_number (h x (List.mem_singleton_self x))
  | .string s, _ => Lexeme.spells_of_starts (by simp) fun _ => Lexeme.starts_quote s _
  | .array items, h => by
      have hitems := Lexeme.spells_intercalate (spells_itemChars items h)
      exact (hitems.closed (by decide) (by decide)).opened (by decide)
  | .object members, h => by
      have hmembers := Lexeme.spells_intercalate (spells_memberChars members h)
      exact (hmembers.closed (by decide) (by decide)).opened (by decide)

theorem spells_itemChars : ∀ items : List Json, AllReadBack (realsOfItems items) →
    List.Forall₂ Spells (itemChars items) (itemLexemes items)
  | [], _ => .nil
  | v :: rest, h => .cons (spells_chars v h.left) (spells_itemChars rest h.right)

theorem spells_memberChars : ∀ members : List (String × Json),
    AllReadBack (realsOfMembers members) →
      List.Forall₂ Spells (memberChars members) (memberLexemes members)
  | [], _ => .nil
  | (k, v) :: rest, h =>
    .cons (spells_member k (spells_chars v h.left)) (spells_memberChars rest h.right)

end

/-- The lexemes of the compact text. -/
theorem ofChars_compact {v : Json} (h : AllReadBack v.reals) :
    Lexeme.ofChars v.compact.toList = v.lexemes := by
  rw [compact, String.toList_ofList]
  exact (spells_chars v h).ofChars_eq

end Json

end ModuleAssembly
