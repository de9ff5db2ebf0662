import ModuleAssembly.Proofs.MemberOrder
import ModuleAssembly.Proofs.NumeralValues
import ModuleAssembly.Text.Blank

/-!
# Compact texts

The compact text of a value has no blank outside its strings (`Json.not_isBlank_of_mem_outside`), and
no two values have one text (`Json.compact_injective`). The latter needs no reader that gives every
number back. The first lexeme tells the kind of a value, strings and brackets end where they are
closed, and a number ends in front of the delimiter, so from the left there is one way to take a text
apart.
-/

set_option autoImplicit false

namespace ModuleAssembly

open Number (isDigit)
open Lexeme (Delimited Starts delimited_cons)

namespace Json

/-! ## Texts of items and members -/

theorem itemChars_eq_map (items : List Json) : itemChars items = items.map chars := by
  induction items with
  | nil => rfl
  | cons v rest ih => rw [itemChars, ih, List.map_cons]

/-- The text of a member. -/
def memberText (m : String × Json) : List Char := quote m.1 ++ ':' :: m.2.chars

theorem memberChars_eq_map (members : List (String × Json)) :
    memberChars members = members.map memberText := by
  induction members with
  | nil => rfl
  | cons m rest ih => rw [memberChars, ih, List.map_cons, memberText]

theorem chars_array (items : List Json) :
    chars (.array items) = '[' :: ([','].intercalate (items.map chars) ++ [']']) := by
  rw [chars, itemChars_eq_map]

theorem chars_object (members : List (String × Json)) :
    chars (.object members) = '\x7b' :: ([','].intercalate (members.map memberText) ++ ['\x7d']) := by
  rw [chars, memberChars_eq_map]

/-- The parts behind the first one each have a comma in front. -/
theorem intercalate_map_cons {α : Type} (f : α → List Char) (a : α) (l : List α) :
    [','].intercalate ((a :: l).map f) = f a ++ l.flatMap fun b => ',' :: f b := by
  induction l generalizing a with
  | nil => simp
  | cons b l ih =>
      rw [List.map_cons, List.map_cons, List.intercalate_cons_cons, ← List.map_cons, ih,
        List.flatMap_cons]
      simp

/-! ## Outside of strings -/

mutual

/-- The characters of a JSON text outside of its strings. -/
def outside : List Char → List Char
  | [] => []
  | '"' :: rest => inside rest
  | c :: rest => c :: outside rest

/-- The same for a text that starts within a string. A backslash hides the character behind it. -/
def inside : List Char → List Char
  | [] => []
  | '"' :: rest => outside rest
  | '\\' :: _ :: rest => inside rest
  | _ :: rest => inside rest

end

/-- The blank in the string is not seen, the one behind the comma is. -/
example : outside "[\" \\\" \", 1]".toList = ['[', ',', ' ', '1', ']'] := by rfl

theorem outside_cons {c : Char} (hc : c ≠ '"') (rest : List Char) :
    outside (c :: rest) = c :: outside rest := by
  rw [outside]
  exact hc

theorem inside_cons {c : Char} (hquote : c ≠ '"') (hslash : c ≠ '\\') (rest : List Char) :
    inside (c :: rest) = inside rest := by
  rw [inside]
  · exact hquote
  · exact fun e _ h => absurd h hslash

/-- What is written for a character does not end the string. -/
theorem inside_escape (c : Char) (rest : List Char) : inside (escape c ++ rest) = inside rest := by
  have hdigits : ∀ n < 32, inside ('0' :: '0' :: Nat.digitChar (n / 16) :: Nat.digitChar (n % 16)
      :: rest) = inside rest := by
    intro n hn
    have hplain : ∀ n < 16, Nat.digitChar n ≠ '"' ∧ Nat.digitChar n ≠ '\\' := by decide
    obtain ⟨hquote, hslash⟩ := hplain (n / 16) (by omega)
    obtain ⟨hquote', hslash'⟩ := hplain (n % 16) (by omega)
    rw [inside_cons (by decide) (by decide), inside_cons (by decide) (by decide),
      inside_cons hquote hslash, inside_cons hquote' hslash']
  unfold escape
  split
  · rfl
  split
  · rfl
  split
  · rfl
  split
  · rfl
  split
  · rfl
  split
  · rfl
  split
  · rfl
  split
  · next h => exact hdigits c.toNat h
  · next hquote hslash _ _ _ _ _ _ => exact inside_cons hquote hslash rest

theorem outside_quote (s : String) (rest : List Char) : outside (quote s ++ rest) = outside rest := by
  have hchars : ∀ cs : List Char, inside (cs.flatMap escape ++ '"' :: rest) = outside rest := by
    intro cs
    induction cs with
    | nil => rfl
    | cons c cs ih => rw [List.flatMap_cons, List.append_assoc, inside_escape, ih]
  have hstart : quote s ++ rest = '"' :: (s.toList.flatMap escape ++ '"' :: rest) := by
    rw [quote, List.cons_append, List.append_assoc, List.singleton_append]
  rw [hstart]
  exact hchars s.toList

/-! ## Texts without blanks -/

/-- No blank stands outside of the strings of a text. -/
def BlankFree (cs : List Char) : Prop := ∀ c ∈ outside cs, Text.isBlank c = false

/-- In front of a text without blanks, the characters add none. -/
def Tight (cs : List Char) : Prop := ∀ rest, BlankFree rest → BlankFree (cs ++ rest)

theorem Tight.blankFree {cs : List Char} (h : Tight cs) : BlankFree cs := by
  have hnil : BlankFree [] := fun c hc => absurd hc List.not_mem_nil
  have hfree := h [] hnil
  rwa [List.append_nil] at hfree

theorem tight_nil : Tight [] := fun _ h => h

theorem Tight.append {cs ds : List Char} (hcs : Tight cs) (hds : Tight ds) : Tight (cs ++ ds) := by
  intro rest h
  rw [List.append_assoc]
  exact hcs _ (hds rest h)

theorem Tight.cons {c : Char} {cs : List Char} (hc : c ≠ '"') (hblank : Text.isBlank c = false)
    (hcs : Tight cs) : Tight (c :: cs) := by
  intro rest h
  rw [BlankFree, List.cons_append, outside_cons hc]
  exact List.forall_mem_cons.mpr ⟨hblank, hcs rest h⟩

theorem tight_of_forall {cs : List Char} (h : ∀ c ∈ cs, c ≠ '"' ∧ Text.isBlank c = false) :
    Tight cs := by
  induction cs with
  | nil => exact tight_nil
  | cons c cs ih =>
      obtain ⟨⟨hc, hblank⟩, hcs⟩ := List.forall_mem_cons.mp h
      exact (ih hcs).cons hc hblank

/-- The same by evaluation, for a fixed word. -/
theorem tight_of_all {cs : List Char} (h : cs.all (fun c => c != '"' && !Text.isBlank c) = true) :
    Tight cs := by
  refine tight_of_forall fun c hc => ?_
  have hboth := List.all_eq_true.mp h c hc
  rwa [Bool.and_eq_true, bne_iff_ne, Bool.not_eq_true'] at hboth

theorem tight_quote (s : String) : Tight (quote s) := by
  intro rest h
  rw [BlankFree, outside_quote]
  exact h

theorem tight_intercalate {α : Type} {f : α → List Char} {l : List α} (h : ∀ a ∈ l, Tight (f a)) :
    Tight ([','].intercalate (l.map f)) := by
  cases l with
  | nil => exact tight_nil
  | cons a l =>
      obtain ⟨ha, hl⟩ := List.forall_mem_cons.mp h
      rw [intercalate_map_cons]
      refine ha.append ?_
      induction l with
      | nil => exact tight_nil
      | cons b l ih =>
          obtain ⟨hb, hl'⟩ := List.forall_mem_cons.mp hl
          rw [List.flatMap_cons]
          refine Tight.append (hb.cons (by decide) (by decide)) (ih ?_ hl')
          exact List.forall_mem_cons.mpr ⟨ha, hl'⟩

end Json

namespace Numeral

/-- The characters of numerals. -/
theorem mem_chars {n : Numeral} (h : n.Proper) {c : Char} (hc : c ∈ n.chars) :
    isDigit c = true ∨ c ∈ ['-', '+', '.', 'e'] := by
  have hsign : ∀ {b : Bool} {x y : Char}, c = (if b then x else y) → c = x ∨ c = y := by
    intro b x y heq
    cases b with
    | true => exact .inl heq
    | false => exact .inr heq
  rcases List.mem_append.mp hc with hc | hc
  · split at hc
    · rw [List.mem_singleton.mp hc]
      exact .inr (by decide)
    · cases hc
  rcases List.mem_append.mp hc with hc | hc
  · rcases List.mem_append.mp hc with hc | hc
    · exact .inl (h.whole_digits c hc)
    · unfold fractionChars at hc
      split at hc
      · cases hc
      · rcases List.mem_cons.mp hc with rfl | hc
        · exact .inr (by decide)
        · exact .inl (h.fraction_digits c hc)
  · unfold exponentChars at hc
    split at hc
    · cases hc
    · rcases List.mem_cons.mp hc with rfl | hc
      · exact .inr (by decide)
      · rcases List.mem_cons.mp hc with hc | hc
        · split at hc
          · subst hc
            exact .inr (by decide)
          · subst hc
            exact .inr (by decide)
        · exact .inl (Number.isDigit_of_mem_toDigits hc)

end Numeral

namespace JsonNumber

/-- No other character stands in the text of a number. -/
theorem ne_of_mem_chars {n : JsonNumber} {c d : Char} (hc : c ∈ n.chars)
    (hdigit : isDigit d = false) (hd : d ∉ ['-', '+', '.', 'e']) : c ≠ d := by
  rintro rfl
  rw [← chars_numeral] at hc
  rcases n.numeral.mem_chars n.numeral_proper hc with h | h
  · rw [hdigit] at h
    cases h
  · exact hd h

theorem not_isBlank_of_mem_chars {n : JsonNumber} {c : Char} (hc : c ∈ n.chars) :
    Text.isBlank c = false := by
  rw [← chars_numeral] at hc
  rcases Numeral.mem_chars n.numeral_proper hc with h | h
  · rw [isDigit, Bool.and_eq_true, decide_eq_true_eq, decide_eq_true_eq, Char.le_def,
      Char.le_def] at h
    have hbounds : 48 ≤ c.toNat ∧ c.toNat ≤ 57 := h
    unfold Text.isBlank Text.isBlankPoint
    simp
    omega
  · have hmarks : ['-', '+', '.', 'e'].all (fun c => !Text.isBlank c) = true := by decide
    have hmark := List.all_eq_true.mp hmarks c h
    rwa [Bool.not_eq_true'] at hmark

end JsonNumber

namespace Json

theorem tight_chars (v : Json) : Tight v.chars := by
  induction v using nested_induction with
  | null => exact tight_of_all (by decide)
  | bool b =>
      cases b with
      | true => exact tight_of_all (by decide)
      | false => exact tight_of_all (by decide)
  | number n =>
      exact tight_of_forall fun c hc =>
        ⟨JsonNumber.ne_of_mem_chars hc (by decide) (by decide),
          JsonNumber.not_isBlank_of_mem_chars hc⟩
  | string s => exact tight_quote s
  | array items ih =>
      have hclose : Tight [']'] := tight_nil.cons (by decide) (by decide)
      rw [chars_array]
      exact ((tight_intercalate ih).append hclose).cons (by decide) (by decide)
  | object members ih =>
      have hclose : Tight ['\x7d'] := tight_nil.cons (by decide) (by decide)
      have hmember : ∀ m ∈ members, Tight (memberText m) := fun m hm =>
        (tight_quote m.1).append ((ih m hm).cons (by decide) (by decide))
      rw [chars_object]
      exact ((tight_intercalate hmember).append hclose).cons (by decide) (by decide)

/-- **No blank stands outside of the strings of a compact text.** -/
theorem blankFree_compact (v : Json) : BlankFree v.compact.toList := by
  rw [compact, String.toList_ofList]
  exact (tight_chars v).blankFree

end Json

/-! ## One text, one value -/

theorem Lexeme.Starts.unique {l l' : Lexeme} {cs rest rest' : List Char} (h : Starts l cs rest)
    (h' : Starts l' cs rest') : l = l' ∧ rest = rest' := by
  obtain ⟨c, tail, rfl, _, hscan, _⟩ := h
  obtain ⟨c', tail', heq, _, hscan', _⟩ := h'
  cases heq
  rw [hscan] at hscan'
  exact ⟨congrArg Prod.fst hscan', congrArg Prod.snd hscan'⟩

/-- A number ends in front of the first delimiter. -/
theorem JsonNumber.chars_append_inj {n m : JsonNumber} {rest rest' : List Char}
    (hr : Delimited rest) (hr' : Delimited rest') (h : n.chars ++ rest = m.chars ++ rest') :
    n = m ∧ rest = rest' := by
  have hrun : ∀ {n : JsonNumber}, ∀ c ∈ n.chars,
      (isDigit c || ['-', '+', '.', 'e'].contains c) = true := by
    intro n c hc
    rw [← chars_numeral] at hc
    rw [Bool.or_eq_true, List.contains_iff_mem]
    exact Numeral.mem_chars n.numeral_proper hc
  have hstop : ∀ {rest : List Char}, Delimited rest → ∀ c, rest.head? = some c →
      (isDigit c || ['-', '+', '.', 'e'].contains c) = false := by
    intro rest hr c hc
    rcases hr c hc with rfl | rfl | rfl
    all_goals decide
  have htake := takeWhile_append_of_head? (hrun (n := n)) (hstop hr)
  have hdrop := dropWhile_append_of_head? (hrun (n := n)) (hstop hr)
  rw [h, takeWhile_append_of_head? hrun (hstop hr')] at htake
  rw [h, dropWhile_append_of_head? hrun (hstop hr')] at hdrop
  exact ⟨chars_injective htake.symm, hdrop.symm⟩

namespace Json

/-- The characters of `a` end where they do, whatever delimiter stands behind them. -/
def EndsIn {α : Type} (f : α → List Char) (a : α) : Prop :=
  ∀ b {rest rest' : List Char}, Delimited rest → Delimited rest' →
    f a ++ rest = f b ++ rest' → a = b ∧ rest = rest'

section

variable {α : Type} {f : α → List Char} {close : Char}

theorem delimited_flatMap (hclose : close = ']' ∨ close = '\x7d') (l : List α) (rest : List Char) :
    Delimited ((l.flatMap fun b => ',' :: f b) ++ close :: rest) := by
  cases l with
  | nil => exact delimited_cons (.inr hclose) rest
  | cons b l => exact delimited_cons (.inl rfl) _

/-- Parts with commas in front of them, up to the closing bracket. -/
theorem flatMap_append_inj (hclose : close = ']' ∨ close = '\x7d') {l : List α}
    (hends : ∀ a ∈ l, EndsIn f a) {l' : List α} {rest rest' : List Char}
    (h : (l.flatMap fun b => ',' :: f b) ++ close :: rest
      = (l'.flatMap fun b => ',' :: f b) ++ close :: rest') : l = l' ∧ rest = rest' := by
  have hcomma : close ≠ ',' := by
    rcases hclose with rfl | rfl
    · decide
    · decide
  induction l generalizing l' with
  | nil =>
      cases l' with
      | nil => exact ⟨rfl, (List.cons.inj h).2⟩
      | cons b l' => exact absurd (List.cons.inj h).1 hcomma
  | cons a l ih =>
      cases l' with
      | nil => exact absurd (List.cons.inj h).1.symm hcomma
      | cons b l' =>
          obtain ⟨ha, hl⟩ := List.forall_mem_cons.mp hends
          rw [List.flatMap_cons, List.flatMap_cons, List.cons_append, List.cons_append,
            List.cons_append, List.cons_append, List.append_assoc, List.append_assoc] at h
          obtain ⟨rfl, htail⟩ := ha b (delimited_flatMap hclose l rest)
            (delimited_flatMap hclose l' rest') (List.cons.inj h).2
          obtain ⟨rfl, hrest⟩ := ih hl htail
          exact ⟨rfl, hrest⟩

/-- Parts with commas between them, up to the closing bracket. -/
theorem intercalate_append_inj (hclose : close = ']' ∨ close = '\x7d')
    (hfirst : ∀ a {rest}, Delimited rest → (f a ++ rest).head? ≠ some close) {l : List α}
    (hends : ∀ a ∈ l, EndsIn f a) {l' : List α} {rest rest' : List Char}
    (h : [','].intercalate (l.map f) ++ close :: rest
      = [','].intercalate (l'.map f) ++ close :: rest') : l = l' ∧ rest = rest' := by
  cases l with
  | nil =>
      cases l' with
      | nil => exact ⟨rfl, (List.cons.inj h).2⟩
      | cons b l' =>
          rw [intercalate_map_cons, List.append_assoc] at h
          exact absurd (congrArg List.head? h).symm (hfirst b (delimited_flatMap hclose l' rest'))
  | cons a l =>
      cases l' with
      | nil =>
          rw [intercalate_map_cons, List.append_assoc] at h
          exact absurd (congrArg List.head? h) (hfirst a (delimited_flatMap hclose l rest))
      | cons b l' =>
          obtain ⟨ha, hl⟩ := List.forall_mem_cons.mp hends
          rw [intercalate_map_cons, intercalate_map_cons, List.append_assoc, List.append_assoc] at h
          obtain ⟨rfl, htail⟩ := ha b (delimited_flatMap hclose l rest)
            (delimited_flatMap hclose l' rest') h
          obtain ⟨rfl, hrest⟩ := flatMap_append_inj hclose hl htail
          exact ⟨rfl, hrest⟩

end

/-- The lexeme that the text of a value starts with. -/
def firstLexeme : Json → Lexeme
  | .null => .null
  | .bool b => .bool b
  | .number n => .number n.numeral.value?
  | .string s => .string (some s)
  | .array _ => .openArray
  | .object _ => .openObject

theorem starts_firstLexeme (v : Json) {rest : List Char} (hr : Delimited rest) :
    ∃ after, Starts v.firstLexeme (v.chars ++ rest) after := by
  cases v with
  | null => exact ⟨rest, Lexeme.starts_of_scan (by decide) rfl⟩
  | bool b =>
      cases b with
      | true => exact ⟨rest, Lexeme.starts_of_scan (by decide) rfl⟩
      | false => exact ⟨rest, Lexeme.starts_of_scan (by decide) rfl⟩
  | number n => exact ⟨rest, n.starts_chars hr⟩
  | string s => exact ⟨rest, Lexeme.starts_quote s rest⟩
  | array items => exact ⟨_, '[', _, rfl, by decide, rfl, Nat.le_refl _⟩
  | object members => exact ⟨_, '\x7b', _, rfl, by decide, rfl, Nat.le_refl _⟩

/-- Texts of values that start alike are of values of one kind. -/
theorem firstLexeme_eq {v w : Json} {rest rest' : List Char} (hr : Delimited rest)
    (hr' : Delimited rest') (h : v.chars ++ rest = w.chars ++ rest') :
    v.firstLexeme = w.firstLexeme := by
  obtain ⟨after, hv⟩ := v.starts_firstLexeme hr
  obtain ⟨after', hw⟩ := w.starts_firstLexeme hr'
  rw [h] at hv
  exact (hv.unique hw).1

/-- No value starts with a closing bracket. -/
theorem head?_chars_append_ne (v : Json) {rest : List Char} (hr : Delimited rest) :
    (v.chars ++ rest).head? ≠ some ']' := by
  obtain ⟨after, c, tail, heq, _, hscan, _⟩ := v.starts_firstLexeme hr
  intro hhead
  rw [heq, List.head?_cons, Option.some.injEq] at hhead
  subst hhead
  have hclose : Lexeme.scan ']' tail = (.closeArray, tail) := rfl
  rw [hclose] at hscan
  cases v
  all_goals cases hscan

theorem endsIn_memberText {m : String × Json} (h : EndsIn chars m.2) : EndsIn memberText m := by
  intro m' rest rest' hr hr' heq
  rw [memberText, memberText, List.append_assoc, List.append_assoc] at heq
  have hkey := Lexeme.starts_quote m.1 (':' :: m.2.chars ++ rest)
  rw [heq] at hkey
  obtain ⟨hlexeme, htail⟩ := hkey.unique (Lexeme.starts_quote m'.1 _)
  obtain ⟨hvalue, hrest⟩ := h m'.2 hr hr' (List.cons.inj htail).2
  have hname : m.1 = m'.1 := by
    rw [Lexeme.string.injEq, Option.some.injEq] at hlexeme
    exact hlexeme
  exact ⟨Prod.ext hname hvalue, hrest⟩

/-- **The text of a value ends where it does**, whatever delimiter stands behind it. -/
theorem endsIn_chars (v : Json) : EndsIn chars v := by
  induction v using nested_induction with
  | null =>
      intro w rest rest' hr hr' h
      have hfirst := firstLexeme_eq hr hr' h
      cases w with
      | null => exact ⟨rfl, List.append_cancel_left h⟩
      | _ => cases hfirst
  | bool b =>
      intro w rest rest' hr hr' h
      have hfirst := firstLexeme_eq hr hr' h
      cases w with
      | bool b' => cases hfirst; exact ⟨rfl, List.append_cancel_left h⟩
      | _ => cases hfirst
  | number n =>
      intro w rest rest' hr hr' h
      have hfirst := firstLexeme_eq hr hr' h
      cases w with
      | number m =>
          obtain ⟨rfl, hrest⟩ := JsonNumber.chars_append_inj hr hr' h
          exact ⟨rfl, hrest⟩
      | _ => cases hfirst
  | string s =>
      intro w rest rest' hr hr' h
      have hfirst := firstLexeme_eq hr hr' h
      cases w with
      | string s' => cases hfirst; exact ⟨rfl, List.append_cancel_left h⟩
      | _ => cases hfirst
  | array items ih =>
      intro w rest rest' hr hr' h
      have hfirst := firstLexeme_eq hr hr' h
      cases w with
      | array items' =>
          rw [chars_array, chars_array, List.cons_append, List.cons_append, List.append_assoc,
            List.append_assoc] at h
          obtain ⟨rfl, hrest⟩ := intercalate_append_inj (.inl rfl)
            (fun v _ hr => v.head?_chars_append_ne hr) ih (List.cons.inj h).2
          exact ⟨rfl, hrest⟩
      | _ => cases hfirst
  | object members ih =>
      intro w rest rest' hr hr' h
      have hfirst := firstLexeme_eq hr hr' h
      cases w with
      | object members' =>
          rw [chars_object, chars_object, List.cons_append, List.cons_append, List.append_assoc,
            List.append_assoc] at h
          have hquote : ∀ (m : String × Json) {rest}, Delimited rest →
              (memberText m ++ rest).head? ≠ some '\x7d' := by
            intro m rest _ hhead
            cases hhead
          obtain ⟨rfl, hrest⟩ := intercalate_append_inj (.inr rfl) hquote
            (fun m hm => endsIn_memberText (ih m hm)) (List.cons.inj h).2
          exact ⟨rfl, hrest⟩
      | _ => cases hfirst

/-- **Different values have different texts.** -/
theorem compact_injective {v w : Json} (h : v.compact = w.compact) : v = w := by
  rw [compact, compact, ← String.toList_inj, String.toList_ofList, String.toList_ofList] at h
  have happend : v.chars ++ [] = w.chars ++ [] := by rw [h]
  exact (endsIn_chars v w Delimited.nil Delimited.nil happend).1

end Json

end ModuleAssembly
