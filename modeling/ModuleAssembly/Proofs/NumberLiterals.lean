import ModuleAssembly.Body.Literal
import ModuleAssembly.Proofs.NumeralValues

/-!
# Number literals

A number is written by its shortest digits, laid out as the target language writes its own numbers
(`Literal.layout`). Which layout is taken is decided by two comparisons with numbers, a millionth and
ten to the twenty-first, and not by the digits. The two decisions are the same, because rounding
keeps the order and both numbers have the power of ten itself for their shortest digits
(`Finite.isBelow_iff_point_le`). Hence every literal is that layout and reads back
(`Literal.isNumberText`).
-/

set_option autoImplicit false

namespace ModuleAssembly

open Number (Decimal Double Finite Normalized Tie intText readDouble? rounded)
open Number.Decimal (exponentText zeros)

/-! ## Comparing magnitudes -/

namespace Number

theorem Decimal.point_le_iff {d : Decimal} (h : 0 < d.coefficient) {n : ℤ} :
    d.point ≤ n ↔ d.value < 10 ^ n := by
  obtain ⟨hlow, hhigh⟩ := value_bounds h
  constructor
  · intro hle
    exact hhigh.trans_le (zpow_le_zpow_right₀ (by norm_num) hle)
  · intro hlt
    have hpower : (10 : ℚ) ^ (d.point - 1) < 10 ^ n := hlow.trans_lt hlt
    have hexponent := (zpow_lt_zpow_iff_right₀ (by norm_num : (1 : ℚ) < 10)).mp hpower
    omega

namespace Finite

variable {x y : Finite}

theorem isBelow_iff : x.isBelow y = true ↔ x.value < y.value := by
  have hunit := two_zpow_pos (min x.exponent y.exponent)
  have hscale : ∀ (s : ℕ) (e e' : ℤ), (s : ℚ) * 2 ^ e
      = (s * Nat.pow 2 (e - e').toNat : ℕ) * 2 ^ min e e' := by
    intro s e e'
    have hexponent : e = (e - e').toNat + min e e' := by omega
    conv_lhs => rw [hexponent, two_zpow_add, zpow_natCast]
    rw [Nat.pow_eq]
    push_cast
    ring
  have hx := hscale x.significand x.exponent y.exponent
  have hy := hscale y.significand y.exponent x.exponent
  rw [min_comm] at hy
  rw [isBelow, decide_eq_true_eq, value, value, hx, hy, mul_lt_mul_iff_of_pos_right hunit,
    Nat.cast_lt]

/-- The search does not depend on the sign. -/
theorem firstReading_congr (h : x.value = y.value) (tie : Tie) (full : Decimal) (k : ℕ) :
    firstReading x tie full k = firstReading y tie full k := by
  have hreads : ∀ d, x.readsFrom d = y.readsFrom d := by
    intro d
    rw [Bool.eq_iff_iff, readsFrom_iff, readsFrom_iff, h]
  induction k with
  | zero => rfl
  | succ k ih =>
      unfold firstReading
      simp only [hreads, ih]

theorem shortest_congr (h : x.value = y.value) (tie : Tie) : x.shortest tie = y.shortest tie := by
  obtain ⟨hsignificand, hexponent⟩ := x.normalized.eq_of_value_eq y.normalized h
  have hexact : x.exact = y.exact := by
    unfold exact
    rw [hsignificand, hexponent]
  unfold shortest
  rw [hexact, firstReading_congr h]

theorem value_eq_rounded_shortest (h : x.isZero = false) (tie : Tie) :
    x.value = rounded (x.shortest tie).value :=
  readsFrom_iff.mp (shortest_isShortestFor h tie).reads

/-- **The comparison with a power of ten is one of the digits.** The power is not compared itself,
but the number nearest to it. Its own digits must be those of the power. -/
theorem isBelow_iff_point_le (hx : x.isZero = false) {tie : Tie} {n : ℤ}
    (hy : y.value = rounded (10 ^ n)) (hpoint : n < (y.shortest tie).point) :
    x.isBelow y = true ↔ (x.shortest tie).point ≤ n := by
  have hpos := shortest_coefficient_pos hx tie
  rw [isBelow_iff, Decimal.point_le_iff hpos]
  constructor
  · intro hlt
    by_contra hge
    have hle : y.value ≤ x.value := calc
      y.value = rounded (10 ^ n) := hy
      _ ≤ rounded (x.shortest tie).value := rounded_mono (ten_zpow_pos n).le (not_lt.mp hge)
      _ = x.value := (value_eq_rounded_shortest hx tie).symm
    exact absurd hlt (not_lt.mpr hle)
  · intro hlt
    have hle : x.value ≤ y.value := calc
      x.value = rounded (x.shortest tie).value := value_eq_rounded_shortest hx tie
      _ ≤ rounded (10 ^ n) := rounded_mono (Decimal.value_nonneg _) hlt.le
      _ = y.value := hy.symm
    -- equal numbers have the same digits
    refine lt_of_le_of_ne hle fun heq => ?_
    rw [← Decimal.point_le_iff hpos, shortest_congr heq] at hlt
    omega

end Finite

end Number

namespace Literal

/-! ## The layout -/

/-- The digits of a number as the target language lays them out, with the point behind the first `n`
of them: filled up with zeros or with the point among them up to twenty-one places, with zeros in
front of them down to the sixth place behind the point, and scientifically otherwise, where the
exponent has a sign. -/
def layout (digits : List Char) (n : ℤ) : List Char :=
  if digits.length ≤ n ∧ n ≤ 21 then digits ++ List.replicate (n - digits.length).toNat '0'
  else if 0 < n ∧ n ≤ 21 then digits.take n.toNat ++ '.' :: digits.drop n.toNat
  else if -6 < n ∧ n ≤ 0 then '0' :: '.' :: (List.replicate (-n).toNat '0' ++ digits)
  else
    digits.take 1 ++ (if digits.length = 1 then [] else '.' :: digits.drop 1) ++
      'e' :: (if n - 1 < 0 then '-' else '+') :: Nat.toDigits 10 (n - 1).natAbs

/-- Fifteen tenths of a ten-millionth. -/
example : layout ['1', '5'] (-6) = ['1', '.', '5', 'e', '-', '7'] := by decide

theorem length_digits_pos (d : Decimal) : 0 < d.digits.length := Nat.length_toDigits_pos

theorem layout_of_positional {d : Decimal} (hlow : -6 < d.point) (hhigh : d.point ≤ 21) :
    layout d.digits d.point = d.positional := by
  have hlength := length_digits_pos d
  unfold layout Decimal.positional zeros
  by_cases hwhole : (d.digits.length : ℤ) ≤ d.point
  · have hpos : ¬ d.point ≤ 0 := by omega
    rw [if_pos ⟨hwhole, hhigh⟩, if_neg hpos, if_pos hwhole]
  · rw [if_neg fun h => hwhole h.1]
    by_cases hpos : 0 < d.point
    · rw [if_pos ⟨hpos, hhigh⟩, if_neg (not_le.mpr hpos), if_neg hwhole]
    · rw [if_neg fun h => hpos h.1, if_pos ⟨hlow, not_lt.mp hpos⟩, if_pos (not_lt.mp hpos)]

theorem layout_of_scientific {d : Decimal} (h : d.point ≤ -6 ∨ 21 < d.point) :
    layout d.digits d.point = d.scientific := by
  have hmantissa : d.digits.take 1 ++ (if d.digits.length = 1 then [] else '.' :: d.digits.drop 1)
      = d.mantissa := by
    have hlength := length_digits_pos d
    unfold Decimal.mantissa
    rcases hdigits : d.digits with _ | ⟨first, _ | ⟨second, rest⟩⟩
    · rw [hdigits] at hlength
      cases hlength
    · rfl
    · rfl
  have hwhole : ¬ ((d.digits.length : ℤ) ≤ d.point ∧ d.point ≤ 21) := by
    have hlength := length_digits_pos d
    omega
  have hpoint : ¬ (0 < d.point ∧ d.point ≤ 21) := by omega
  have hpart : ¬ (-6 < d.point ∧ d.point ≤ 0) := by omega
  rw [layout, if_neg hwhole, if_neg hpoint, if_neg hpart, hmantissa]
  rfl

/-! ## The exponent with its sign -/

theorem ne_e_of_mem_sign {x : Finite} {c : Char} (h : c ∈ sign x) : (c != 'e') = true := by
  unfold sign at h
  split at h
  · rw [List.mem_singleton.mp h]
    decide
  · cases h

theorem ne_e_of_isDigit {c : Char} (h : Number.isDigit c = true) : (c != 'e') = true := by
  rw [bne_iff_ne]
  rintro rfl
  exact absurd h (by decide)

theorem ne_e_of_mem_mantissa {d : Decimal} {c : Char} (h : c ∈ d.mantissa) : (c != 'e') = true := by
  have hdigit : ∀ {c}, c ∈ d.digits → (c != 'e') = true :=
    fun hc => ne_e_of_isDigit (Numeral.isDigit_of_mem_digits hc)
  unfold Decimal.mantissa at h
  split at h
  · next first second rest heq =>
      rw [heq] at hdigit
      rcases List.mem_cons.mp h with rfl | h
      · exact hdigit (List.mem_cons_self ..)
      · rcases List.mem_cons.mp h with rfl | h
        · decide
        · exact hdigit (List.mem_cons_of_mem _ h)
  · exact hdigit h

/-- Behind the plus the exponent is as it would have been written with a sign at once. -/
theorem withPlus_exponential (x : Finite) (d : Decimal) :
    withPlus (sign x ++ d.exponential) = sign x ++ d.scientific := by
  have hfront : ∀ c ∈ sign x ++ d.mantissa, (c != 'e') = true := by
    intro c hc
    rcases List.mem_append.mp hc with hc | hc
    · exact ne_e_of_mem_sign hc
    · exact ne_e_of_mem_mantissa hc
  have hstop : ∀ c, ('e' :: intText (d.point - 1)).head? = some c → (c != 'e') = false := by
    intro c hc
    cases hc
    decide
  have hdrop := dropWhile_append_of_head? hfront hstop
  have htake := takeWhile_append_of_head? hfront hstop
  unfold withPlus Decimal.exponential Decimal.scientific
  rw [← List.append_assoc, ← List.append_assoc, hdrop, htake]
  unfold intText exponentText
  by_cases hnegative : d.point - 1 < 0
  · rw [if_pos hnegative, if_pos hnegative]
    exact if_pos rfl
  · have hplus : (Nat.toDigits 10 (d.point - 1).natAbs).head? ≠ some '-' := by
      intro hhead
      have hdigit := Number.isDigit_of_mem_toDigits (List.mem_of_head? hhead)
      exact absurd hdigit (by decide)
    rw [if_neg hnegative, if_neg hnegative]
    exact if_neg hplus

/-! ## The literal -/

theorem millionth_value : millionth.value = rounded (10 ^ (-6 : ℤ)) := by
  have hreads : millionth.readsFrom ⟨1, -6⟩ = true := by decide +kernel
  rw [Finite.readsFrom_iff, Decimal.value, Nat.cast_one, one_mul] at hreads
  exact hreads

theorem sextillion_value : sextillion.value = rounded (10 ^ (21 : ℤ)) := by
  have hreads : sextillion.readsFrom ⟨1, 21⟩ = true := by decide +kernel
  rw [Finite.readsFrom_iff, Decimal.value, Nat.cast_one, one_mul] at hreads
  exact hreads

/-- A literal is a sign and the layout of the shortest digits. -/
theorem number_finite {x : Finite} (h : x.isZero = false) :
    number (.finite x)
      = String.ofList (sign x ++ layout (x.shortest .up).digits (x.shortest .up).point) := by
  have hmillionth : -6 < (millionth.shortest .up).point := by decide +kernel
  have hsextillion : 21 < (sextillion.shortest .up).point := by decide +kernel
  have hlow := Finite.isBelow_iff_point_le h millionth_value hmillionth
  have hhigh := Finite.isBelow_iff_point_le h sextillion_value hsextillion
  show finite x = _
  unfold finite
  simp only [h, Bool.false_eq_true, if_false]
  by_cases hmiddle : -6 < (x.shortest .up).point ∧ (x.shortest .up).point ≤ 21
  · have hinside : ¬ (x.isBelow millionth || !x.isBelow sextillion) = true := by
      rw [Bool.or_eq_true, Bool.not_eq_true', ← Bool.not_eq_true, hlow, hhigh]
      omega
    rw [if_neg hinside, layout_of_positional hmiddle.1 hmiddle.2]
  · have houtside : (x.isBelow millionth || !x.isBelow sextillion) = true := by
      rw [Bool.or_eq_true, Bool.not_eq_true', ← Bool.not_eq_true, hlow, hhigh]
      omega
    rw [if_pos houtside, withPlus_exponential, layout_of_scientific (by omega)]

/-! ## Reading the literal back -/

/-- The layout is a proper numeral that stands for the decimal. -/
theorem exists_numeral_of_layout (negative : Bool) {d : Decimal} (h : 0 < d.coefficient) :
    ∃ n : Numeral, n.Proper ∧ n.negative = negative ∧
      n.magnitudeChars = layout d.digits d.point ∧ n.exact.value = d.value := by
  have hlength := length_digits_pos d
  by_cases houtside : d.point ≤ -6 ∨ 21 < d.point
  · refine ⟨_, Numeral.proper_split negative h Nat.one_pos (some (d.point - 1)), rfl, ?_, ?_⟩
    · rw [Numeral.scientific_eq, layout_of_scientific houtside]
    · rw [Numeral.exact_split negative d hlength (by rw [Option.getD_some]; omega)]
  rw [layout_of_positional (by omega) (by omega)]
  unfold Decimal.positional
  by_cases hpart : d.point ≤ 0
  · refine ⟨_, Numeral.proper_part negative d (-d.point), rfl, ?_, ?_⟩
    · rw [if_pos hpart]
      simp [Numeral.magnitudeChars, Numeral.fractionChars, Numeral.exponentChars,
        Numeral.digits_ne_nil]
    · rw [Numeral.exact_part negative d hpart]
  rw [if_neg hpart]
  by_cases hwhole : (d.digits.length : ℤ) ≤ d.point
  · refine ⟨_, Numeral.proper_whole negative h (d.point - d.digits.length)
      fun c hc => absurd hc List.not_mem_nil, rfl, ?_, Numeral.value_exact_whole negative d hwhole⟩
    rw [if_pos hwhole, Numeral.magnitudeChars]
    exact (List.append_nil _).trans (List.append_nil _)
  · have hk : 0 < d.point.toNat := by omega
    refine ⟨_, Numeral.proper_split negative h hk none, rfl, ?_, ?_⟩
    · have hne : d.digits.drop d.point.toNat ≠ [] := by
        rw [ne_eq, List.drop_eq_nil_iff]
        omega
      rw [if_neg hwhole, Numeral.magnitudeChars, Numeral.fractionChars, if_neg hne]
      exact List.append_nil _
    · rw [Numeral.exact_split negative d (by omega) (by rw [Option.getD_none]; omega)]

theorem readDouble?_number {x : Finite} (h : x.isZero = false) :
    readDouble? (number (.finite x)) = some (.finite x) := by
  obtain ⟨n, hproper, hnegative, hmagnitude, hvalue⟩ :=
    exists_numeral_of_layout x.negative (Finite.shortest_coefficient_pos h .up)
  have hchars : n.chars = sign x ++ layout (x.shortest .up).digits (x.shortest .up).point := by
    rw [Numeral.chars, hnegative, hmagnitude]
    rfl
  rw [number_finite h, ← hchars]
  exact Numeral.readDouble?_of_value hproper (Finite.shortest_isShortestFor h .up).reads
    hnegative hvalue

/-- The text is the literal of `x` in the form of the target language, with the digits of `d`. -/
structure IsNumberText (x : Finite) (d : Decimal) (text : String) : Prop where
  /-- The digits are the shortest that read back. -/
  shortest : x.IsShortestFor d
  /-- They stand behind the sign, laid out as the place of the point asks for. -/
  laidOut : text = String.ofList (sign x ++ layout d.digits d.point)
  /-- The text is read as the number again. -/
  readsBack : readDouble? text = some (.finite x)
  /-- No other number is nearer to the decimal. -/
  roundsBack : ∀ y : Finite, |d.value - x.value| ≤ |d.value - y.value|

/-- **The literal of a number has the form of the target language.** -/
theorem isNumberText {x : Finite} (h : x.isZero = false) :
    IsNumberText x (x.shortest .up) (number (.finite x)) := by
  refine ⟨Finite.shortest_isShortestFor h .up, number_finite h, readDouble?_number h, fun y => ?_⟩
  rw [Finite.value_eq_rounded_shortest h .up]
  exact Number.abs_sub_rounded_le (Decimal.value_nonneg _) y

/-- The first number of twenty-two places, with a minus. -/
theorem isNumberText_minus_sextillion :
    Finite.isZero ⟨true, 7629394531250000, 17, sextillion.canonical⟩ = false ∧
      IsNumberText ⟨true, 7629394531250000, 17, sextillion.canonical⟩ ⟨1, 21⟩ "-1e+21" := by
  have hzero : Finite.isZero ⟨true, 7629394531250000, 17, sextillion.canonical⟩ = false := rfl
  have hdigits : Finite.shortest ⟨true, 7629394531250000, 17, sextillion.canonical⟩ .up = ⟨1, 21⟩ := by
    decide +kernel
  have htext : number (.finite ⟨true, 7629394531250000, 17, sextillion.canonical⟩) = "-1e+21" := by
    decide +kernel
  have h := isNumberText hzero
  rw [hdigits, htext] at h
  exact ⟨hzero, h⟩

end Literal

end ModuleAssembly
