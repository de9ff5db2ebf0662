import Mathlib.Data.List.Induction
import ModuleAssembly.Number.Numeral
import ModuleAssembly.Proofs.Numerals

/-!
# Whole numerals

A whole number has many numerals: an optional sign, any number of zeros, and its digits. They are
exactly the texts that are read as the number (`Number.readWhole?_eq_some_iff`), and the one that is
written is shorter than all the others (`Number.IsNumeralOf.eq_or_length_lt`).
-/

set_option autoImplicit false

namespace ModuleAssembly.Number

/-! ## Digits with zeros in front -/

/-- A digit is the character of its value. -/
theorem digitChar_digitValue {c : Char} (h : isDigit c = true) :
    Nat.digitChar (digitValue c) = c ∧ digitValue c < 10 := by
  have hbounds : 48 ≤ c.toNat ∧ c.toNat ≤ 57 := by
    rw [isDigit, Bool.and_eq_true, decide_eq_true_eq, decide_eq_true_eq, Char.le_def,
      Char.le_def] at h
    exact h
  have hvalue : digitValue c = c.toNat - 48 := rfl
  have hchars : ∀ n < 10, Nat.digitChar n = Char.ofNat (48 + n) := by decide
  have hlt : digitValue c < 10 := by omega
  have hsum : 48 + digitValue c = c.toNat := by omega
  refine ⟨?_, hlt⟩
  rw [hchars _ hlt, hsum, Char.ofNat_toNat]

theorem ofDigits_concat (cs : List Char) (c : Char) :
    ofDigits (cs ++ [c]) = 10 * ofDigits cs + digitValue c := by
  rw [ofDigits, List.foldl_append]
  rfl

/-- The digits of `n` behind a number of zeros. -/
def padded (zeros n : Nat) : List Char := List.replicate zeros '0' ++ Nat.toDigits 10 n

theorem ofDigits_padded (zeros n : Nat) : ofDigits (padded zeros n) = n := by
  have happend := Nat.ofDigitChars_append (b := 10) (l := List.replicate zeros '0')
    (m := Nat.toDigits 10 n) 0
  rw [Nat.ofDigitChars_replicate_zero, Nat.mul_zero, Nat.ofDigitChars_ten_toDigits] at happend
  exact happend

theorem isDigit_of_mem_padded {zeros n : Nat} {c : Char} (h : c ∈ padded zeros n) :
    isDigit c = true := by
  rcases List.mem_append.mp h with h | h
  · rw [List.eq_of_mem_replicate h]
    decide
  · exact isDigit_of_mem_toDigits h

theorem padded_ne_nil (zeros n : Nat) : padded zeros n ≠ [] :=
  List.append_ne_nil_of_right_ne_nil _ Nat.toDigits_ne_nil

theorem length_padded (zeros n : Nat) :
    (padded zeros n).length = zeros + (Nat.toDigits 10 n).length := by
  rw [padded, List.length_append, List.length_replicate]

/-- Every row of digits is made up of zeros and the digits of its value. -/
theorem exists_eq_padded {cs : List Char} (hne : cs ≠ []) (h : ∀ c ∈ cs, isDigit c = true) :
    ∃ zeros, cs = padded zeros (ofDigits cs) := by
  induction cs using List.reverseRecOn with
  | nil => exact absurd rfl hne
  | append_singleton cs c ih =>
      obtain ⟨hchar, hlt⟩ := digitChar_digitValue (h c (by simp))
      have hlast : Nat.toDigits 10 (digitValue c) = [c] := by
        rw [Nat.toDigits_of_lt_base hlt, hchar]
      rw [ofDigits_concat]
      by_cases hnil : cs = []
      · subst hnil
        refine ⟨0, ?_⟩
        rw [show ofDigits [] = 0 from rfl, Nat.mul_zero, Nat.zero_add, padded, hlast]
        rfl
      · obtain ⟨zeros, hcs⟩ := ih hnil fun d hd => h d (List.mem_append_left _ hd)
        rcases Nat.eq_zero_or_pos (ofDigits cs) with hzero | hpos
        · -- all digits so far are zeros
          refine ⟨zeros + 1, ?_⟩
          have hzeros : cs = List.replicate (zeros + 1) '0' := by
            rw [hcs, hzero, padded, Nat.toDigits_zero, ← List.replicate_succ']
          rw [hzero, Nat.mul_zero, Nat.zero_add, padded, hlast, ← hzeros]
        · refine ⟨zeros, ?_⟩
          have hdigits := Nat.toDigits_append_toDigits (by decide : 1 < 10) hpos hlt
          rw [padded, ← hdigits, hlast, ← List.append_assoc]
          exact congrArg (· ++ [c]) hcs

/-! ## Numerals of whole numbers -/

/-- The numerals of `n`. A minus stands in front of a negative number, and it may stand in front of
zero. -/
inductive IsNumeralOf (n : Int) : List Char → Prop where
  | plain (zeros : Nat) (h : 0 ≤ n) : IsNumeralOf n (padded zeros n.natAbs)
  | plus (zeros : Nat) (h : 0 ≤ n) : IsNumeralOf n ('+' :: padded zeros n.natAbs)
  | minus (zeros : Nat) (h : n ≤ 0) : IsNumeralOf n ('-' :: padded zeros n.natAbs)

/-- Digits without a sign are all body. -/
theorem splitSign_padded (zeros n : Nat) : splitSign (padded zeros n) = (false, padded zeros n) := by
  obtain ⟨c, rest, hcs⟩ := List.exists_cons_of_ne_nil (padded_ne_nil zeros n)
  have hc : isDigit c = true := isDigit_of_mem_padded (by rw [hcs]; exact List.mem_cons_self ..)
  have hminus : c ≠ '-' := by
    rintro rfl
    exact absurd hc (by decide)
  have hplus : c ≠ '+' := by
    rintro rfl
    exact absurd hc (by decide)
  rw [hcs, splitSign, if_neg hminus, if_neg hplus]

theorem readWhole?_of_splitSign {cs : List Char} {negative : Bool} {zeros n : Nat}
    (h : splitSign cs = (negative, padded zeros n)) :
    readWhole? cs = some (signed negative n) := by
  have hbody : padded zeros n ≠ [] ∧ (padded zeros n).all isDigit = true :=
    ⟨padded_ne_nil zeros n, List.all_eq_true.mpr fun c hc => isDigit_of_mem_padded hc⟩
  unfold readWhole?
  rw [h]
  exact (if_pos hbody).trans (by rw [ofDigits_padded])

theorem IsNumeralOf.readWhole? {n : Int} {cs : List Char} (h : IsNumeralOf n cs) :
    readWhole? cs = some n := by
  cases h with
  | plain zeros h =>
      rw [readWhole?_of_splitSign (splitSign_padded zeros n.natAbs), signed,
        if_neg Bool.false_ne_true]
      congr 1
      omega
  | plus zeros h =>
      have hsplit : splitSign ('+' :: padded zeros n.natAbs) = (false, padded zeros n.natAbs) := rfl
      rw [readWhole?_of_splitSign hsplit, signed, if_neg Bool.false_ne_true]
      congr 1
      omega
  | minus zeros h =>
      have hsplit : splitSign ('-' :: padded zeros n.natAbs) = (true, padded zeros n.natAbs) := rfl
      rw [readWhole?_of_splitSign hsplit, signed, if_pos rfl]
      congr 1
      omega

/-- A text is its sign and its body. -/
theorem splitSign_cases (cs : List Char) :
    splitSign cs = (false, cs) ∨ (∃ body, cs = '+' :: body ∧ splitSign cs = (false, body)) ∨
      ∃ body, cs = '-' :: body ∧ splitSign cs = (true, body) := by
  cases cs with
  | nil => exact .inl rfl
  | cons c rest =>
      by_cases hminus : c = '-'
      · subst hminus
        exact .inr (.inr ⟨rest, rfl, rfl⟩)
      · by_cases hplus : c = '+'
        · subst hplus
          exact .inr (.inl ⟨rest, rfl, rfl⟩)
        · refine .inl ?_
          rw [splitSign, if_neg hminus, if_neg hplus]

/-- What is read is digits behind a sign. -/
theorem readWhole?_eq_some {cs : List Char} {n : Int} (h : readWhole? cs = some n) :
    ∃ negative zeros m, splitSign cs = (negative, padded zeros m) ∧ n = signed negative m := by
  unfold readWhole? at h
  obtain ⟨negative, body, hsplit⟩ : ∃ negative body, splitSign cs = (negative, body) :=
    ⟨_, _, rfl⟩
  rw [hsplit] at h
  dsimp only at h
  split at h
  · next hbody =>
      obtain ⟨zeros, hpadded⟩ := exists_eq_padded hbody.1 (List.all_eq_true.mp hbody.2)
      exact ⟨negative, zeros, ofDigits body, by rw [hsplit, ← hpadded], (Option.some.inj h).symm⟩
  · cases h

/-- **A text is read as a whole number exactly if it is one of its numerals.** -/
theorem readWhole?_eq_some_iff {cs : List Char} {n : Int} :
    readWhole? cs = some n ↔ IsNumeralOf n cs := by
  refine ⟨fun h => ?_, IsNumeralOf.readWhole?⟩
  obtain ⟨negative, zeros, m, hsplit, rfl⟩ := readWhole?_eq_some h
  have hplain : (signed false m).natAbs = m := Int.natAbs_natCast m
  have hminus : (signed true m).natAbs = m := by
    rw [signed, if_pos rfl, Int.natAbs_neg, Int.natAbs_natCast]
  have hnonneg : 0 ≤ signed false m := Int.natCast_nonneg m
  have hnonpos : signed true m ≤ 0 := by
    rw [signed, if_pos rfl]
    omega
  rcases splitSign_cases cs with hcs | ⟨body, rfl, hcs⟩ | ⟨body, rfl, hcs⟩
  · cases hcs.symm.trans hsplit
    have hnumeral := IsNumeralOf.plain zeros hnonneg
    rwa [hplain] at hnumeral
  · cases hcs.symm.trans hsplit
    have hnumeral := IsNumeralOf.plus zeros hnonneg
    rwa [hplain] at hnumeral
  · cases hcs.symm.trans hsplit
    have hnumeral := IsNumeralOf.minus zeros hnonpos
    rwa [hminus] at hnumeral

theorem IsNumeralOf.unique {n m : Int} {cs : List Char} (hn : IsNumeralOf n cs)
    (hm : IsNumeralOf m cs) : n = m :=
  Option.some.inj (hn.readWhole?.symm.trans hm.readWhole?)

/-! ## The numeral that is written -/

theorem isNumeralOf_intText (n : Int) : IsNumeralOf n (intText n) := by
  unfold intText
  by_cases h : n < 0
  · rw [if_pos h]
    exact .minus 0 (Int.le_of_lt h)
  · rw [if_neg h]
    exact .plain 0 (Int.not_lt.mp h)

theorem minus_or_isDigit_of_mem_intText {n : Int} {c : Char} (h : c ∈ intText n) :
    c = '-' ∨ isDigit c = true := by
  unfold intText at h
  split at h
  · exact (List.mem_cons.mp h).imp id isDigit_of_mem_toDigits
  · exact .inr (isDigit_of_mem_toDigits h)

/-- **The numeral that is written is the shortest.** -/
theorem IsNumeralOf.eq_or_length_lt {n : Int} {cs : List Char} (h : IsNumeralOf n cs) :
    cs = intText n ∨ (intText n).length < cs.length := by
  have hnonneg : 0 ≤ n → intText n = Nat.toDigits 10 n.natAbs := fun h0 =>
    if_neg (Int.not_lt.mpr h0)
  cases h with
  | plain zeros h0 =>
      rw [hnonneg h0, length_padded]
      rcases Nat.eq_zero_or_pos zeros with rfl | hpos
      · exact .inl rfl
      · exact .inr (by omega)
  | plus zeros h0 =>
      refine .inr ?_
      rw [hnonneg h0, List.length_cons, length_padded]
      omega
  | minus zeros h0 =>
      rw [List.length_cons, length_padded]
      rcases Int.lt_or_eq_of_le h0 with hlt | rfl
      · rw [show intText n = '-' :: Nat.toDigits 10 n.natAbs from if_pos hlt, List.length_cons]
        rcases Nat.eq_zero_or_pos zeros with rfl | hpos
        · exact .inl rfl
        · exact .inr (by omega)
      · refine .inr ?_
        rw [hnonneg (Int.le_refl 0)]
        omega

end ModuleAssembly.Number
