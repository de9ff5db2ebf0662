import ModuleAssembly.Json.Lexeme
import ModuleAssembly.Json.Printer
import ModuleAssembly.Proofs.Lists

/-!
# Numerals of JSON text

Every number is written as a proper numeral (`JsonNumber.numeral_proper`): digits without a
needless zero in front of them, a point only with digits on both sides, and an exponent only with a
sign and digits. A proper numeral is one lexeme, whatever delimiter follows it
(`Lexeme.starts_numeral`), so whether a number reads back is a question about its numeral alone. A
whole number always does (`JsonNumber.value?_numeral_whole`).
-/

set_option autoImplicit false

namespace ModuleAssembly

/-! ## Digits -/

namespace Number

theorem isDigit_of_mem_toDigits {n : Nat} {c : Char} (h : c ∈ Nat.toDigits 10 n) :
    isDigit c = true :=
  Nat.isDigit_of_mem_toDigits (by decide) (by decide) h

theorem ofDigits_toDigits (n : Nat) : ofDigits (Nat.toDigits 10 n) = n :=
  Nat.ofDigitChars_ten_toDigits

/-- The digits of a positive number do not start with a zero. -/
theorem head?_toDigits_ne_zero {n : Nat} (h : 0 < n) : (Nat.toDigits 10 n).head? ≠ some '0' := by
  induction n using Nat.strongRecOn with
  | ind n ih =>
      rcases Nat.lt_or_ge n 10 with hlt | hge
      · have hone : ∀ k < 10, 0 < k → [Nat.digitChar k].head? ≠ some '0' := by decide
        rw [Nat.toDigits_of_lt_base hlt]
        exact hone n hlt h
      · have hdiv : 0 < n / 10 := Nat.div_pos hge (by decide)
        have hsplit := Nat.toDigits_of_base_le (by decide : 1 < 10) hge
        rw [hsplit, List.head?_append_of_ne_nil _ Nat.toDigits_ne_nil]
        exact ih (n / 10) (Nat.div_lt_self h (by decide)) hdiv

/-- Only zero itself is written with a zero in front. -/
theorem toDigits_eq_zero_of_head? {n : Nat} (h : (Nat.toDigits 10 n).head? = some '0') :
    Nat.toDigits 10 n = ['0'] := by
  rcases Nat.eq_zero_or_pos n with rfl | hpos
  · rfl
  · exact absurd h (head?_toDigits_ne_zero hpos)

/-! ## Shortest decimals are not zero -/

namespace Finite

/-- No decimal zero reads back as a number other than zero. -/
theorem readsFrom_zero {f : Finite} (h : f.isZero = false) (place : Int) :
    f.readsFrom ⟨0, place⟩ = false := by
  have hcanonical : Canonical 0 (-1074) := by decide
  have hsignificand : f.significand ≠ 0 := by simpa [isZero] using h
  have hzero : Double.ofDecimal f.negative ⟨0, place⟩
      = .finite ⟨f.negative, 0, -1074, hcanonical⟩ := by
    rw [Double.ofDecimal, if_pos rfl, Double.ofFields, dif_pos hcanonical]
  unfold readsFrom
  rw [hzero, beq_eq_false_iff_ne]
  intro heq
  rw [Double.finite.injEq] at heq
  exact hsignificand (congrArg Finite.significand heq).symm

theorem exact_coefficient_pos {f : Finite} (h : f.isZero = false) : 0 < f.exact.coefficient := by
  have hsignificand : 0 < f.significand := by
    simpa [isZero, Nat.pos_iff_ne_zero] using h
  unfold exact
  split
  · exact Nat.mul_pos hsignificand (Nat.pow_pos (by decide))
  · exact Nat.mul_pos hsignificand (Nat.pow_pos (by decide))

theorem le_nearer (tie : Tie) (low rest unit : Nat) : low ≤ nearer tie low rest unit := by
  unfold nearer
  split
  · exact Nat.le_refl low
  · split
    · exact Nat.le_succ low
    · cases tie with
      | up => exact Nat.le_succ low
      | even => exact Nat.le_add_right low _

theorem firstReading_coefficient_pos {f : Finite} (h : f.isZero = false) (tie : Tie)
    {full : Decimal} (hfull : 0 < full.coefficient) (dropped : Nat) :
    0 < (firstReading f tie full dropped).coefficient := by
  induction dropped with
  | zero => exact hfull
  | succ dropped ih =>
      -- a neighbour that reads back is not zero
      have hlow : ∀ {low place}, f.readsFrom ⟨low, place⟩ = true → 0 < low := by
        intro low place hreads
        rcases Nat.eq_zero_or_pos low with rfl | hpos
        · rw [readsFrom_zero h] at hreads
          cases hreads
        · exact hpos
      unfold firstReading
      dsimp only
      split
      · next hreads _ => exact Nat.lt_of_lt_of_le (hlow hreads) (le_nearer tie _ _ _)
      · next hreads _ => exact hlow hreads
      · exact Nat.succ_pos _
      · exact ih

/-- The shortest decimal of a number other than zero has a digit other than zero. -/
theorem shortest_coefficient_pos {f : Finite} (h : f.isZero = false) (tie : Tie) :
    0 < (f.shortest tie).coefficient :=
  firstReading_coefficient_pos h tie (exact_coefficient_pos h) _

end Finite

end Number

/-! ## Proper numerals -/

open Number (Finite isDigit intText ofDigits signed)

namespace Numeral

/-- The point and the digits behind it. -/
def fractionChars (n : Numeral) : List Char :=
  if n.fraction = [] then [] else '.' :: n.fraction

/-- The exponent, where there is one. -/
def exponentChars (n : Numeral) : List Char :=
  match n.exponent with
  | none => []
  | some e => 'e' :: Number.Decimal.exponentText e

/-- The characters behind the sign. -/
def magnitudeChars (n : Numeral) : List Char := n.whole ++ n.fractionChars ++ n.exponentChars

/-- The characters of a numeral. -/
def chars (n : Numeral) : List Char := (if n.negative then ['-'] else []) ++ n.magnitudeChars

/-- A numeral that is written in the one way that the grammar admits. -/
structure Proper (n : Numeral) : Prop where
  whole_ne_nil : n.whole ≠ []
  whole_digits : ∀ c ∈ n.whole, isDigit c = true
  /-- A zero in front of the point stands there alone. -/
  leading : n.whole.head? = some '0' → n.whole = ['0']
  fraction_digits : ∀ c ∈ n.fraction, isDigit c = true

end Numeral

namespace Lexeme

/-- What may follow a value within a text: nothing, or a comma or a closing bracket. -/
def Delimited (rest : List Char) : Prop :=
  ∀ c, rest.head? = some c → c = ',' ∨ c = ']' ∨ c = '\x7d'

theorem Delimited.nil : Delimited [] := by
  intro c hc
  cases hc

theorem Delimited.not_isDigit {rest : List Char} (h : Delimited rest) :
    ∀ c, rest.head? = some c → isDigit c = false := by
  intro c hc
  rcases h c hc with rfl | rfl | rfl <;> decide

/-- A text starts with the lexeme `l`, and `rest` follows. -/
def Starts (l : Lexeme) (cs rest : List Char) : Prop :=
  ∃ c tail, cs = c :: tail ∧ isSpace c = false ∧ scan c tail = (l, rest) ∧
    rest.length ≤ tail.length

/-- A text starts with a lexeme of one character or more in front of the rest. -/
theorem starts_of_scan {l : Lexeme} {c : Char} {front rest : List Char} (hc : isSpace c = false)
    (h : scan c (front ++ rest) = (l, rest)) : Starts l (c :: front ++ rest) rest :=
  ⟨c, front ++ rest, rfl, hc, h, by simp⟩

/-! ## Scanning a numeral -/

section

variable {rest : List Char}

theorem scanExponentDigits_toDigits (negative sign : Bool) (whole fraction : List Char) (n : Nat)
    (hr : Delimited rest) :
    scanExponentDigits negative sign whole fraction (Nat.toDigits 10 n ++ rest)
      = (.number (Numeral.value? ⟨negative, whole, fraction, some (signed sign n)⟩), rest) := by
  have hdigits : ∀ c ∈ Nat.toDigits 10 n, isDigit c = true :=
    fun c hc => Number.isDigit_of_mem_toDigits hc
  unfold scanExponentDigits
  rw [takeWhile_append_of_head? hdigits hr.not_isDigit,
    dropWhile_append_of_head? hdigits hr.not_isDigit]
  split
  · next hnil => exact absurd hnil Nat.toDigits_ne_nil
  · rw [Number.ofDigits_toDigits]

/-- An exponent is read with its sign. -/
theorem scanExponent_exponentText (negative : Bool) (whole fraction : List Char) (e : Int)
    (hr : Delimited rest) :
    scanExponent negative whole fraction (Number.Decimal.exponentText e ++ rest)
      = (.number (Numeral.value? ⟨negative, whole, fraction, some e⟩), rest) := by
  unfold Number.Decimal.exponentText
  by_cases he : e < 0
  · have hsigned : signed true e.natAbs = e := by
      simp only [signed, if_true]
      omega
    rw [if_pos he, List.cons_append, scanExponent, scanExponentDigits_toDigits _ _ _ _ _ hr,
      hsigned]
  · have hsigned : signed false e.natAbs = e := by
      simp only [signed, Bool.false_eq_true, if_false]
      omega
    rw [if_neg he, List.cons_append, scanExponent, scanExponentDigits_toDigits _ _ _ _ _ hr,
      hsigned]

theorem scanFraction_chars (negative : Bool) (whole : List Char) {fraction : List Char}
    (exponent : Option Int) (hne : fraction ≠ []) (hdigits : ∀ c ∈ fraction, isDigit c = true)
    (hr : Delimited rest) :
    scanFraction negative whole
        (fraction ++ (Numeral.exponentChars ⟨negative, whole, fraction, exponent⟩ ++ rest))
      = (.number (Numeral.value? ⟨negative, whole, fraction, exponent⟩), rest) := by
  have hstop : ∀ c, (Numeral.exponentChars ⟨negative, whole, fraction, exponent⟩ ++ rest).head?
      = some c → isDigit c = false := by
    intro c hc
    cases exponent with
    | none => exact hr.not_isDigit c hc
    | some e =>
        cases hc
        decide
  unfold scanFraction
  rw [takeWhile_append_of_head? hdigits hstop, dropWhile_append_of_head? hdigits hstop]
  split
  · next => exact absurd rfl hne
  · cases exponent with
    | none =>
        -- no delimiter is the letter of an exponent
        cases rest with
        | nil => rfl
        | cons c tail =>
            rcases hr c rfl with rfl | rfl | rfl
            · rfl
            · rfl
            · rfl
    | some e => exact scanExponent_exponentText negative whole fraction e hr

theorem scanTail_chars {n : Numeral} (h : n.Proper) (hr : Delimited rest) :
    scanTail n.negative n.whole (n.fractionChars ++ (n.exponentChars ++ rest))
      = (.number n.value?, rest) := by
  obtain ⟨negative, whole, fraction, exponent⟩ := n
  cases fraction with
  | nil =>
      cases exponent with
      | none =>
          cases rest with
          | nil => rfl
          | cons c tail =>
              rcases hr c rfl with rfl | rfl | rfl
              · rfl
              · rfl
              · rfl
      | some e => exact scanExponent_exponentText negative whole [] e hr
  | cons d ds =>
      exact scanFraction_chars negative whole exponent (List.cons_ne_nil d ds) h.fraction_digits hr

/-- The digits in front of the point end where the numeral goes on. -/
theorem not_isDigit_behind_whole (n : Numeral) (hr : Delimited rest) (c : Char)
    (hc : (n.fractionChars ++ (n.exponentChars ++ rest)).head? = some c) : isDigit c = false := by
  obtain ⟨negative, whole, fraction, exponent⟩ := n
  cases fraction with
  | nil =>
      cases exponent with
      | none => exact hr.not_isDigit c hc
      | some e =>
          cases hc
          decide
  | cons d ds =>
      cases hc
      decide

theorem scanNumber_chars {n : Numeral} (h : n.Proper) (hr : Delimited rest) :
    scanNumber n.negative (n.magnitudeChars ++ rest) = (.number n.value?, rest) := by
  have hstop := not_isDigit_behind_whole n hr
  unfold scanNumber Numeral.magnitudeChars
  rw [List.append_assoc, List.append_assoc, takeWhile_append_of_head? h.whole_digits hstop,
    dropWhile_append_of_head? h.whole_digits hstop]
  split
  · next hnil => exact absurd hnil h.whole_ne_nil
  · next d ds hzero =>
      have halone : n.whole = ['0'] := h.leading (by rw [hzero]; rfl)
      rw [halone] at hzero
      cases hzero
  · exact scanTail_chars h hr

/-- A digit starts a number and nothing else. -/
theorem scan_of_isDigit {c : Char} (hc : isDigit c = true) (tail : List Char) :
    isSpace c = false ∧ scan c tail = scanNumber false (c :: tail) := by
  have hne : ∀ other : Char, isDigit other = false → c ≠ other := by
    rintro other hother rfl
    rw [hc] at hother
    cases hother
  refine ⟨?_, ?_⟩
  · simp only [isSpace, beq_eq_false_iff_ne.mpr (hne ' ' (by decide)),
      beq_eq_false_iff_ne.mpr (hne '\n' (by decide)),
      beq_eq_false_iff_ne.mpr (hne '\t' (by decide)),
      beq_eq_false_iff_ne.mpr (hne '\r' (by decide)), Bool.or_false]
  · unfold scan
    rw [if_neg (hne _ (by decide)), if_neg (hne _ (by decide)), if_neg (hne _ (by decide)),
      if_neg (hne _ (by decide)), if_neg (hne _ (by decide)), if_neg (hne _ (by decide)),
      if_neg (hne _ (by decide)), if_neg (hne _ (by decide)), if_neg (hne _ (by decide)),
      if_neg (hne _ (by decide)), if_neg (hne _ (by decide)), if_pos hc]

/-- **A proper numeral is one lexeme.** Its value is that of the numeral, whatever delimiter
follows. -/
theorem starts_numeral {n : Numeral} (h : n.Proper) (hr : Delimited rest) :
    Starts (.number n.value?) (n.chars ++ rest) rest := by
  have hscan := scanNumber_chars h hr
  unfold Numeral.chars
  cases hneg : n.negative with
  | true =>
      rw [hneg] at hscan
      exact starts_of_scan (by decide) hscan
  | false =>
      rw [hneg] at hscan
      obtain ⟨d, ds, hwhole⟩ := List.exists_cons_of_ne_nil h.whole_ne_nil
      have hd : isDigit d = true := h.whole_digits d (by rw [hwhole]; exact List.mem_cons_self ..)
      have hchars : n.magnitudeChars = d :: (ds ++ n.fractionChars ++ n.exponentChars) := by
        rw [Numeral.magnitudeChars, hwhole]
        rfl
      rw [hchars] at hscan ⊢
      obtain ⟨hspace, hfirst⟩ :=
        scan_of_isDigit hd (ds ++ n.fractionChars ++ n.exponentChars ++ rest)
      exact starts_of_scan hspace (hfirst.trans hscan)

end

end Lexeme

/-! ## The numerals of numbers -/

namespace Numeral

open Number (Decimal)
open Number.Decimal (zeros)

/-- The numeral of a decimal in the layout of JSON text. -/
def ofDecimal (negative : Bool) (d : Decimal) : Numeral :=
  if -4 ≤ d.point ∧ d.point ≤ 16 then
    if d.isWhole then
      ⟨negative, d.digits ++ zeros (d.point - d.digits.length), ['0'], none⟩
    else if d.point ≤ 0 then ⟨negative, ['0'], zeros (-d.point) ++ d.digits, none⟩
    else ⟨negative, d.digits.take d.point.toNat, d.digits.drop d.point.toNat, none⟩
  else ⟨negative, d.digits.take 1, d.digits.drop 1, some (d.point - 1)⟩

theorem isDigit_of_mem_zero {c : Char} (h : c ∈ ['0']) : isDigit c = true := by
  rw [List.mem_singleton.mp h]
  decide

theorem isDigit_of_mem_zeros {n : Int} {c : Char} (h : c ∈ zeros n) : isDigit c = true := by
  rw [List.eq_of_mem_replicate h]
  decide

theorem isDigit_of_mem_digits {d : Decimal} {c : Char} (h : c ∈ d.digits) : isDigit c = true :=
  Number.isDigit_of_mem_toDigits h

theorem digits_ne_nil (d : Decimal) : d.digits ≠ [] := Nat.toDigits_ne_nil

/-- The first digits of a positive decimal. -/
theorem head?_take_digits_ne_zero {d : Decimal} (h : 0 < d.coefficient) {k : Nat} (hk : 0 < k) :
    (d.digits.take k).head? ≠ some '0' := by
  rw [List.head?_take, if_neg (Nat.ne_of_gt hk)]
  exact Number.head?_toDigits_ne_zero h

theorem take_digits_ne_nil (d : Decimal) {k : Nat} (hk : 0 < k) : d.digits.take k ≠ [] := by
  rw [ne_eq, List.take_eq_nil_iff]
  exact not_or.mpr ⟨Nat.ne_of_gt hk, digits_ne_nil d⟩

section

variable (negative : Bool) {d : Decimal}

/-- All digits in front of the point, and zeros behind them. -/
theorem proper_whole (h : 0 < d.coefficient) (n : Int) {fraction : List Char}
    (hfraction : ∀ c ∈ fraction, isDigit c = true) :
    Proper ⟨negative, d.digits ++ zeros n, fraction, none⟩ := by
  refine ⟨List.append_ne_nil_of_left_ne_nil (digits_ne_nil d) _, ?_, ?_, hfraction⟩
  · intro c hc
    rcases List.mem_append.mp hc with hc | hc
    · exact isDigit_of_mem_digits hc
    · exact isDigit_of_mem_zeros hc
  · intro hhead
    rw [List.head?_append_of_ne_nil _ (digits_ne_nil d)] at hhead
    exact absurd hhead (Number.head?_toDigits_ne_zero h)

/-- All digits behind the point, and zeros in front of them. -/
theorem proper_part (d : Decimal) (n : Int) :
    Proper ⟨negative, ['0'], zeros n ++ d.digits, none⟩ := by
  refine ⟨List.cons_ne_nil _ _, fun c hc => isDigit_of_mem_zero hc, fun _ => rfl, ?_⟩
  intro c hc
  rcases List.mem_append.mp hc with hc | hc
  · exact isDigit_of_mem_zeros hc
  · exact isDigit_of_mem_digits hc

/-- The point among the digits. -/
theorem proper_split (h : 0 < d.coefficient) {k : Nat} (hk : 0 < k) (exponent : Option Int) :
    Proper ⟨negative, d.digits.take k, d.digits.drop k, exponent⟩ :=
  ⟨take_digits_ne_nil d hk, fun _ hc => isDigit_of_mem_digits (List.mem_of_mem_take hc),
    fun hhead => absurd hhead (head?_take_digits_ne_zero h hk),
    fun _ hc => isDigit_of_mem_digits (List.mem_of_mem_drop hc)⟩

theorem ofDecimal_proper (h : 0 < d.coefficient) : (ofDecimal negative d).Proper := by
  unfold ofDecimal
  split
  · split
    · exact proper_whole negative h _ fun c hc => isDigit_of_mem_zero hc
    · split
      · exact proper_part negative d _
      · exact proper_split negative h (by omega) none
  · exact proper_split negative h Nat.one_pos _

end

theorem negative_ofDecimal (negative : Bool) (d : Decimal) :
    (ofDecimal negative d).negative = negative := by
  unfold ofDecimal
  split
  · split
    · rfl
    · split
      · rfl
      · rfl
  · rfl

theorem scientific_eq (d : Decimal) (negative : Bool) :
    magnitudeChars ⟨negative, d.digits.take 1, d.digits.drop 1, some (d.point - 1)⟩
      = d.scientific := by
  unfold magnitudeChars fractionChars Decimal.scientific Decimal.mantissa
  rcases hdigits : d.digits with _ | ⟨first, _ | ⟨second, rest⟩⟩
  · exact absurd hdigits (digits_ne_nil d)
  · rfl
  · rfl

theorem magnitudeChars_ofDecimal (negative : Bool) (d : Decimal) :
    (ofDecimal negative d).magnitudeChars = JsonNumber.magnitudeText d := by
  have hlength : 0 < d.digits.length := List.length_pos_of_ne_nil (digits_ne_nil d)
  unfold ofDecimal JsonNumber.magnitudeText
  split
  · split
    · next hwhole =>
        have hle : (d.digits.length : Int) ≤ d.point := of_decide_eq_true hwhole
        have hpoint : ¬ d.point ≤ 0 := by omega
        have hpositional : d.positional = d.digits ++ zeros (d.point - d.digits.length) := by
          rw [Decimal.positional, if_neg hpoint, if_pos hle]
        rw [hpositional]
        simp [magnitudeChars, fractionChars, exponentChars]
    · next hwhole =>
        have hlt : ¬ (d.digits.length : Int) ≤ d.point := fun hle => hwhole (decide_eq_true hle)
        unfold Decimal.positional
        rw [if_neg hlt]
        split
        · simp [magnitudeChars, fractionChars, exponentChars, digits_ne_nil d]
        · next hpoint =>
            have hne : d.digits.drop d.point.toNat ≠ [] := by
              rw [ne_eq, List.drop_eq_nil_iff]
              omega
            simp only [magnitudeChars, fractionChars, exponentChars, if_neg hne, List.append_nil]
  · exact scientific_eq d negative

end Numeral

namespace JsonNumber

/-- The numeral as which a double-precision number is written. -/
def realNumeral (x : Finite) : Numeral :=
  if x.isZero then ⟨x.negative, ['0'], ['0'], none⟩
  else Numeral.ofDecimal x.negative (x.shortest .even)

/-- The numeral as which a number is written. -/
def numeral : JsonNumber → Numeral
  | .whole n => ⟨n.value < 0, Nat.toDigits 10 n.value.natAbs, [], none⟩
  | .real x => realNumeral x

theorem realNumeral_proper (x : Finite) : (realNumeral x).Proper := by
  unfold realNumeral
  cases hzero : x.isZero with
  | true =>
      exact ⟨List.cons_ne_nil _ _, fun c hc => Numeral.isDigit_of_mem_zero hc, fun _ => rfl,
        fun c hc => Numeral.isDigit_of_mem_zero hc⟩
  | false =>
      exact Numeral.ofDecimal_proper _ (Number.Finite.shortest_coefficient_pos hzero _)

theorem numeral_proper (n : JsonNumber) : n.numeral.Proper := by
  cases n with
  | whole n =>
      exact ⟨Nat.toDigits_ne_nil, fun c hc => Number.isDigit_of_mem_toDigits hc,
        Number.toDigits_eq_zero_of_head?, fun c hc => absurd hc List.not_mem_nil⟩
  | real x => exact realNumeral_proper x

theorem chars_realNumeral (x : Finite) : (realNumeral x).chars = realText x := by
  unfold realNumeral realText
  cases x.isZero with
  | true => rfl
  | false =>
      have hmagnitude := Numeral.magnitudeChars_ofDecimal x.negative (x.shortest .even)
      have hsign := Numeral.negative_ofDecimal x.negative (x.shortest .even)
      simp only [Bool.false_eq_true, if_false, Numeral.chars, hsign, hmagnitude]

/-- The text of a number is that of its numeral. -/
theorem chars_numeral (n : JsonNumber) : n.numeral.chars = n.chars := by
  cases n with
  | whole n =>
      have hmagnitude : (numeral (.whole n)).magnitudeChars
          = Nat.toDigits 10 n.value.natAbs := by
        rw [Numeral.magnitudeChars]
        exact (List.append_nil _).trans (List.append_nil _)
      rw [Numeral.chars, hmagnitude]
      unfold chars intText numeral
      by_cases hnegative : n.value < 0
      · simp [hnegative]
      · simp [hnegative]
  | real x => exact chars_realNumeral x

/-- The numeral of a whole number has the number for its value. -/
theorem value?_numeral_whole (n : Whole) : (numeral (.whole n)).value? = some (.whole n) := by
  have hnegative : ¬ (decide (n.value < 0) = true ∧ n.value.natAbs = 0) := by
    rw [decide_eq_true_eq]
    omega
  have hsigned : signed (decide (n.value < 0)) n.value.natAbs = n.value := by
    by_cases h : n.value < 0
    · simp only [signed, decide_eq_true h, if_true]
      omega
    · simp only [signed, decide_eq_false h, Bool.false_eq_true, if_false]
      omega
  have hwhole : (numeral (.whole n)).whole? = some n := by
    unfold numeral Numeral.whole?
    simp only
    rw [Number.ofDigits_toDigits, if_neg hnegative, hsigned, Whole.ofInt?,
      dif_pos ⟨n.lower, n.upper⟩]
  rw [Numeral.value?, hwhole]

/-- A number is one lexeme with the value of its numeral, whatever delimiter follows. -/
theorem starts_chars (n : JsonNumber) {rest : List Char} (hr : Lexeme.Delimited rest) :
    Lexeme.Starts (.number n.numeral.value?) (n.chars ++ rest) rest := by
  rw [← chars_numeral]
  exact Lexeme.starts_numeral n.numeral_proper hr

end JsonNumber

end ModuleAssembly
