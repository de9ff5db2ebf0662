import ModuleAssembly.Proofs.ShortestDigits
import ModuleAssembly.Proofs.WholeNumerals

/-!
# Values of numerals

A proper numeral stands for one decimal, and a reader of real numerals gives the number nearest to
it (`Numeral.readDouble?_chars`). All layouts of the digits of a decimal stand for the value of that
decimal. So if the digits read back as a number, every layout of them does
(`Numeral.readDouble?_of_value`). The texts of double-precision numbers in JSON are such layouts, and
no two numbers have one text (`JsonNumber.chars_injective`).
-/

set_option autoImplicit false

namespace ModuleAssembly

open Number (Decimal Double Finite isDigit ofDigits readDouble? readExponent? readFraction? readWord?)
open Number.Decimal (exponentText zeros)

namespace Number

/-! ## Digits and zeros -/

theorem ofDigits_append_zeros (cs : List Char) (n : ℕ) :
    ofDigits (cs ++ List.replicate n '0') = ofDigits cs * 10 ^ n := by
  have happend := Nat.ofDigitChars_append (b := 10) (l := cs) (m := List.replicate n '0') 0
  rw [Nat.ofDigitChars_replicate_zero, mul_comm] at happend
  exact happend

theorem ofDigits_zeros_append (n : ℕ) (cs : List Char) :
    ofDigits (List.replicate n '0' ++ cs) = ofDigits cs := by
  have happend := Nat.ofDigitChars_append (b := 10) (l := List.replicate n '0') (m := cs) 0
  rw [Nat.ofDigitChars_replicate_zero, mul_zero] at happend
  exact happend

theorem ofDigits_digits (d : Decimal) : ofDigits d.digits = d.coefficient :=
  ofDigits_toDigits d.coefficient

/-! ## Reading the parts of a numeral -/

theorem readWhole?_exponentText (e : Int) : readWhole? (exponentText e) = some e := by
  rw [readWhole?_eq_some_iff]
  unfold exponentText
  by_cases h : e < 0
  · rw [if_pos h]
    exact .minus 0 h.le
  · rw [if_neg h]
    exact .plus 0 (not_lt.mp h)

/-- No word starts with a digit. -/
theorem readWord?_eq_none (negative : Bool) {c : Char} (hc : isDigit c = true) (rest : List Char) :
    readWord? negative (c :: rest) = none := by
  have hlower : c.toLower = c := by
    rw [isDigit, Bool.and_eq_true, decide_eq_true_eq, decide_eq_true_eq] at hc
    refine dif_neg fun hupper => ?_
    exact absurd (UInt32.le_trans hupper.1 hc.2) (by decide)
  have hne : ∀ d, isDigit d = false → c ≠ d := by
    rintro d hd rfl
    rw [hc] at hd
    cases hd
  have hword : ∀ {word d ds}, String.toList word = d :: ds → isDigit d = false →
      String.ofList ((c :: rest).map Char.toLower) ≠ word := by
    intro word d ds hlist hd heq
    rw [← String.toList_inj, String.toList_ofList, List.map_cons, hlower, hlist] at heq
    exact hne d hd (List.cons.inj heq).1
  unfold readWord?
  dsimp only
  rw [if_neg, if_neg]
  · exact hword (d := 'n') rfl (by decide)
  · rintro (heq | heq)
    · exact hword (d := 'i') rfl (by decide) heq
    · exact hword (d := 'i') rfl (by decide) heq

end Number

namespace Numeral

/-! ## The decimal of a numeral -/

/-- The decimal that a numeral stands for. -/
def exact (n : Numeral) : Decimal :=
  ⟨ofDigits (n.whole ++ n.fraction), n.exponent.getD 0 - n.fraction.length⟩

theorem readExponent?_exponentChars (n : Numeral) :
    readExponent? n.exponentChars = some (n.exponent.getD 0) := by
  unfold exponentChars
  cases n.exponent with
  | none => rfl
  | some e =>
      show readExponent? ('e' :: exponentText e) = some e
      rw [readExponent?, if_pos (.inl rfl), Number.readWhole?_exponentText]

/-- An exponent starts with its letter. -/
theorem exponentChars_cases (n : Numeral) :
    n.exponentChars = [] ∨ ∃ tail, n.exponentChars = 'e' :: tail := by
  unfold exponentChars
  cases n.exponent with
  | none => exact .inl rfl
  | some e => exact .inr ⟨_, rfl⟩

/-- The digits behind the point end where the exponent starts. -/
theorem not_isDigit_head?_exponentChars (n : Numeral) (c : Char)
    (hc : n.exponentChars.head? = some c) : isDigit c = false := by
  rcases n.exponentChars_cases with heq | ⟨tail, heq⟩
  · rw [heq] at hc
    cases hc
  · rw [heq] at hc
    cases hc
    decide

theorem readFraction?_magnitudeChars {n : Numeral} (h : n.Proper) :
    readFraction? n.magnitudeChars = some n.exact := by
  have hstop : ∀ c, (n.fractionChars ++ n.exponentChars).head? = some c → isDigit c = false := by
    intro c hc
    rw [← List.append_nil n.exponentChars] at hc
    exact Lexeme.not_isDigit_behind_whole n Lexeme.Delimited.nil c hc
  have hne : ¬ n.whole ++ n.fraction = [] := fun hnil =>
    h.whole_ne_nil (List.append_eq_nil_iff.mp hnil).1
  unfold readFraction? magnitudeChars
  rw [List.append_assoc, takeWhile_append_of_head? h.whole_digits hstop,
    dropWhile_append_of_head? h.whole_digits hstop]
  by_cases hfraction : n.fraction = []
  · have hexponent := n.readExponent?_exponentChars
    rw [hfraction] at hne
    rw [fractionChars, if_pos hfraction, List.nil_append]
    rcases n.exponentChars_cases with heq | ⟨tail, heq⟩
    all_goals
      rw [heq] at hexponent ⊢
      refine (if_neg hne).trans ?_
      rw [exact, hfraction]
      exact congrArg (Option.map _) hexponent
  · rw [fractionChars, if_neg hfraction, List.cons_append]
    simp only [takeWhile_append_of_head? h.fraction_digits n.not_isDigit_head?_exponentChars,
      dropWhile_append_of_head? h.fraction_digits n.not_isDigit_head?_exponentChars, if_neg hne,
      readExponent?_exponentChars, Option.map_some, exact]

/-- **A proper numeral is read as the number nearest to its decimal.** -/
theorem readDouble?_chars {n : Numeral} (h : n.Proper) :
    readDouble? (String.ofList n.chars) = some (Double.ofDecimal n.negative n.exact) := by
  obtain ⟨d, ds, hwhole⟩ := List.exists_cons_of_ne_nil h.whole_ne_nil
  have hd : isDigit d = true := h.whole_digits d (by rw [hwhole]; exact List.mem_cons_self ..)
  have hmagnitude : n.magnitudeChars = d :: (ds ++ n.fractionChars ++ n.exponentChars) := by
    rw [magnitudeChars, hwhole]
    rfl
  have hsplit : Number.splitSign n.chars = (n.negative, n.magnitudeChars) := by
    unfold chars
    cases n.negative with
    | true => rfl
    | false =>
        have hminus : d ≠ '-' := by
          rintro rfl
          exact absurd hd (by decide)
        have hplus : d ≠ '+' := by
          rintro rfl
          exact absurd hd (by decide)
        rw [if_neg Bool.false_ne_true, List.nil_append, hmagnitude, Number.splitSign,
          if_neg hminus, if_neg hplus]
  have hword : readWord? n.negative n.magnitudeChars = none := by
    rw [hmagnitude]
    exact Number.readWord?_eq_none _ hd _
  unfold readDouble?
  rw [String.toList_ofList, hsplit]
  simp only [hword, readFraction?_magnitudeChars h, Option.map_some]

/-- What a numeral is read as depends on its sign and on the value of its decimal. -/
theorem readDouble?_of_value {n : Numeral} (h : n.Proper) {f : Finite} {d : Decimal}
    (hreads : f.readsFrom d = true) (hnegative : n.negative = f.negative)
    (hvalue : n.exact.value = d.value) :
    readDouble? (String.ofList n.chars) = some (.finite f) := by
  have hexact := Finite.readsFrom_of_value_eq hreads hvalue.symm
  rw [readDouble?_chars h, hnegative]
  rw [Finite.readsFrom, beq_iff_eq] at hexact
  exact congrArg some hexact

/-! ## The layouts of a decimal -/

section

variable (negative : Bool) (d : Decimal)

/-- All digits in front of the point, filled up with zeros. -/
theorem value_exact_whole (h : (d.digits.length : Int) ≤ d.point) :
    (exact ⟨negative, d.digits ++ zeros (d.point - d.digits.length), [], none⟩).value
      = d.value := by
  have hexponent : d.exponent = (d.point - d.digits.length).toNat := by
    unfold Decimal.point at h ⊢
    omega
  have hscale := Decimal.value_mk_add d.coefficient 0 (d.point - d.digits.length).toNat
  rw [zero_add, ← hexponent] at hscale
  rw [exact, List.append_nil, zeros, Number.ofDigits_append_zeros, Number.ofDigits_digits]
  exact hscale.symm

/-- A zero behind the point changes nothing. -/
theorem value_exact_wholeWithPoint (h : (d.digits.length : Int) ≤ d.point) :
    (exact ⟨negative, d.digits ++ zeros (d.point - d.digits.length), ['0'], none⟩).value
      = d.value := by
  have hscale := Decimal.value_mk_add
    (ofDigits (d.digits ++ zeros (d.point - d.digits.length))) (-1) 1
  have hzero := Number.ofDigits_append_zeros
    (d.digits ++ zeros (d.point - d.digits.length)) 1
  rw [← value_exact_whole negative d h, exact, exact, List.append_nil]
  exact (congrArg (fun c => (Decimal.mk c (-1)).value) hzero).trans hscale.symm

/-- All digits behind the point, with zeros in front of them. -/
theorem exact_part (h : d.point ≤ 0) :
    exact ⟨negative, ['0'], zeros (-d.point) ++ d.digits, none⟩ = d := by
  have hzeros : ['0'] ++ zeros (-d.point) = List.replicate (1 + (-d.point).toNat) '0' := by
    rw [List.replicate_add]
    rfl
  have hcoefficient : ofDigits (['0'] ++ (zeros (-d.point) ++ d.digits)) = d.coefficient := by
    rw [← List.append_assoc, hzeros, Number.ofDigits_zeros_append, Number.ofDigits_digits]
  have hexponent : (0 : Int) - (zeros (-d.point) ++ d.digits).length = d.exponent := by
    rw [List.length_append, zeros, List.length_replicate]
    unfold Decimal.point at h ⊢
    omega
  rw [exact, hcoefficient]
  exact congrArg (Decimal.mk d.coefficient) hexponent

/-- The point among the digits. -/
theorem exact_split {k : ℕ} {exponent : Option Int} (hk : k ≤ d.digits.length)
    (h : k + exponent.getD 0 = d.point) :
    exact ⟨negative, d.digits.take k, d.digits.drop k, exponent⟩ = d := by
  have hexponent : exponent.getD 0 - ((d.digits.drop k).length : Int) = d.exponent := by
    rw [List.length_drop]
    unfold Decimal.point at h
    omega
  rw [exact, List.take_append_drop, Number.ofDigits_digits]
  exact congrArg (Decimal.mk d.coefficient) hexponent

/-- The numeral of JSON text stands for the decimal. -/
theorem value_exact_ofDecimal : (ofDecimal negative d).exact.value = d.value := by
  have hlength : 0 < d.digits.length := List.length_pos_of_ne_nil (digits_ne_nil d)
  unfold ofDecimal
  split
  · split
    · next hwhole => exact value_exact_wholeWithPoint negative d (of_decide_eq_true hwhole)
    · next hwhole =>
        have hlt : ¬ (d.digits.length : Int) ≤ d.point := fun hle => hwhole (decide_eq_true hle)
        split
        · next hpart => rw [exact_part negative d hpart]
        · rw [exact_split negative d (by omega) (by rw [Option.getD_none]; omega)]
  · rw [exact_split negative d hlength (by rw [Option.getD_some]; omega)]

/-- A numeral of JSON text has a point or an exponent. -/
theorem ofDecimal_fraction_or_exponent :
    (ofDecimal negative d).fraction ≠ [] ∨ (ofDecimal negative d).exponent ≠ none := by
  unfold ofDecimal
  split
  · left
    split
    · exact List.cons_ne_nil _ _
    · next hwhole =>
        have hlt : ¬ (d.digits.length : Int) ≤ d.point := fun hle => hwhole (decide_eq_true hle)
        split
        · exact List.append_ne_nil_of_right_ne_nil _ (digits_ne_nil d)
        · rw [ne_eq, List.drop_eq_nil_iff]
          omega
  · right
    exact Option.some_ne_none _

end

end Numeral

namespace JsonNumber

/-! ## Double-precision numbers of JSON text -/

/-- **The text of a double-precision number is nearest to it.** A reader that rounds once gives the
number again, zeros with their signs included. -/
theorem readDouble?_realText (x : Finite) :
    readDouble? (String.ofList (realText x)) = some (.finite x) := by
  have hproper := realNumeral_proper x
  rw [← chars_realNumeral]
  unfold realNumeral at hproper ⊢
  cases hzero : x.isZero with
  | true =>
      rw [hzero, if_pos rfl] at hproper
      rw [if_pos rfl, Numeral.readDouble?_chars hproper]
      have hsignificand : x.significand = 0 := by simpa [Finite.isZero] using hzero
      have hvalue : x.value = Number.rounded (Decimal.mk 0 (-1)).value := by
        rw [Finite.value, hsignificand, Decimal.value_of_coefficient_eq_zero rfl,
          Number.rounded_zero, Nat.cast_zero, zero_mul]
      exact congrArg some (Double.ofDecimal_eq_finite_iff.mpr ⟨rfl, hvalue⟩)
  | false =>
      rw [hzero, if_neg Bool.false_ne_true] at hproper
      rw [if_neg Bool.false_ne_true]
      exact Numeral.readDouble?_of_value hproper (Finite.shortest_isShortestFor hzero .even).reads
        (Numeral.negative_ofDecimal _ _) (Numeral.value_exact_ofDecimal _ _)

/-- It is no text of a whole number. -/
theorem exists_mem_realText (x : Finite) : ∃ c ∈ realText x, c = '.' ∨ c = 'e' := by
  have hparts : (realNumeral x).fraction ≠ [] ∨ (realNumeral x).exponent ≠ none := by
    unfold realNumeral
    split
    · exact .inl (List.cons_ne_nil _ _)
    · exact Numeral.ofDecimal_fraction_or_exponent _ _
  rw [← chars_realNumeral]
  rcases hparts with hfraction | hexponent
  · refine ⟨'.', ?_, .inl rfl⟩
    simp [Numeral.chars, Numeral.magnitudeChars, Numeral.fractionChars, hfraction]
  · obtain ⟨e, he⟩ := Option.ne_none_iff_exists'.mp hexponent
    refine ⟨'e', ?_, .inr rfl⟩
    simp [Numeral.chars, Numeral.magnitudeChars, Numeral.exponentChars, he]

/-- **Different numbers have different texts.** -/
theorem chars_injective {n m : JsonNumber} (h : n.chars = m.chars) : n = m := by
  have hmixed : ∀ (w : Whole) (x : Finite), Number.intText w.value ≠ realText x := by
    intro w x heq
    obtain ⟨c, hc, hmark⟩ := exists_mem_realText x
    rw [← heq] at hc
    have hcases := Number.minus_or_isDigit_of_mem_intText hc
    rcases hmark with rfl | rfl
    · exact absurd hcases (by decide)
    · exact absurd hcases (by decide)
  cases n with
  | whole w =>
      cases m with
      | whole w' =>
          have hvalue : w.value = w'.value :=
            (Number.isNumeralOf_intText w.value).unique (by
              rw [show Number.intText w.value = Number.intText w'.value from h]
              exact Number.isNumeralOf_intText w'.value)
          cases w
          cases w'
          cases hvalue
          rfl
      | real x => exact absurd h (hmixed w x)
  | real x =>
      cases m with
      | whole w => exact absurd h.symm (hmixed w x)
      | real y =>
          have hread := readDouble?_realText x
          rw [show realText x = realText y from h, readDouble?_realText y] at hread
          cases hread
          rfl

end JsonNumber

end ModuleAssembly
