import Mathlib.Algebra.Order.Field.Power
import Mathlib.Algebra.Order.Floor.Semifield
import Mathlib.Data.Int.Log
import Mathlib.Data.Rat.Floor
import Mathlib.Tactic.FieldSimp
import Mathlib.Tactic.Linarith
import Mathlib.Tactic.NormNum
import Mathlib.Tactic.Positivity
import Mathlib.Tactic.Ring
import ModuleAssembly.Number.Double

/-!
# Rounding

The numbers of the format as fractions, and rounding as a function of the exact value alone:
`rounded` takes the place of the last of fifty-three bits, counts in units of that place and goes to
the nearest whole number of them, a tie to the even one. It keeps the order (`rounded_mono`), leaves
the numbers of the format alone (`rounded_value`), and no number of the format is nearer
(`abs_sub_rounded_le`). A decimal is read as the number whose value is the rounded one, whichever of
the ways to the result is taken (`Double.ofDecimal_eq_finite_iff`).
-/

set_option autoImplicit false

namespace ModuleAssembly.Number

/-! ## Values -/

/-- The magnitude of a finite number. -/
def Finite.value (f : Finite) : ℚ := f.significand * 2 ^ f.exponent

/-- The exact value of a decimal. -/
def Decimal.value (d : Decimal) : ℚ := d.coefficient * 10 ^ d.exponent

theorem two_zpow_pos (e : ℤ) : (0 : ℚ) < 2 ^ e := zpow_pos (by norm_num) e

theorem ten_zpow_pos (e : ℤ) : (0 : ℚ) < 10 ^ e := zpow_pos (by norm_num) e

theorem two_zpow_add (a b : ℤ) : (2 : ℚ) ^ (a + b) = 2 ^ a * 2 ^ b := zpow_add₀ (by norm_num) a b

theorem ten_zpow_add (a b : ℤ) : (10 : ℚ) ^ (a + b) = 10 ^ a * 10 ^ b := zpow_add₀ (by norm_num) a b

theorem two_zpow_lt_ten_zpow {a b : ℕ} (h : 2 ^ a < 10 ^ b) : (2 : ℚ) ^ (a : ℤ) < 10 ^ (b : ℤ) := by
  rw [zpow_natCast, zpow_natCast]
  exact_mod_cast h

theorem ten_zpow_neg_lt_two_zpow_neg {a b : ℕ} (h : 2 ^ a < 10 ^ b) :
    (10 : ℚ) ^ (-(b : ℤ)) < 2 ^ (-(a : ℤ)) := by
  rw [zpow_neg, zpow_neg, inv_lt_inv₀ (ten_zpow_pos _) (two_zpow_pos _)]
  exact two_zpow_lt_ten_zpow h

/-- A power of two is at most `r` when its exponent is at most the logarithm. -/
theorem le_log_iff {r : ℚ} (hr : 0 < r) {e : ℤ} : e ≤ Int.log 2 r ↔ 2 ^ e ≤ r := by
  rw [← Int.zpow_le_iff_le_log (by norm_num) hr, Nat.cast_ofNat]

theorem log_lt_iff {r : ℚ} (hr : 0 < r) {e : ℤ} : Int.log 2 r < e ↔ r < 2 ^ e := by
  rw [← Int.lt_zpow_iff_log_lt (by norm_num) hr, Nat.cast_ofNat]

theorem Finite.value_nonneg (f : Finite) : 0 ≤ f.value := by
  have h := two_zpow_pos f.exponent
  unfold Finite.value
  positivity

theorem Decimal.value_nonneg (d : Decimal) : 0 ≤ d.value := by
  have h := ten_zpow_pos d.exponent
  unfold Decimal.value
  positivity

/-! ## Canonical fields -/

/-- The pairs of significand and exponent that stand for one value each, with no bound on the
exponent from above. -/
structure Normalized (s : ℕ) (e : ℤ) : Prop where
  lt : s < 2 ^ 53
  least : -1074 ≤ e
  /-- The significand has all its bits, except at the least exponent. -/
  full : 2 ^ 52 ≤ s ∨ e = -1074

theorem canonical_iff {s : ℕ} {e : ℤ} : Canonical s e ↔ Normalized s e ∧ e ≤ 971 := by
  constructor
  · rintro ⟨hlt, hleast, hmost, hfull⟩
    exact ⟨⟨hlt, hleast, hfull⟩, hmost⟩
  · rintro ⟨h, hmost⟩
    exact ⟨h.lt, h.least, hmost, h.full⟩

theorem Finite.normalized (f : Finite) : Normalized f.significand f.exponent :=
  (canonical_iff.mp f.canonical).1

theorem normalized_zero : Normalized 0 (-1074) := ⟨by norm_num, le_refl _, .inr rfl⟩

namespace Normalized

variable {s s' : ℕ} {e e' : ℤ}

theorem value_lt (h : Normalized s e) : (s : ℚ) * 2 ^ e < 2 ^ (53 + e) := by
  have hs : (s : ℚ) < 2 ^ (53 : ℤ) := by exact_mod_cast h.lt
  rw [two_zpow_add]
  exact mul_lt_mul_of_pos_right hs (two_zpow_pos e)

/-- A number whose exponent is not the least one has the leading bit. -/
theorem le_value (h : Normalized s e) (he : -1074 < e) : (2 : ℚ) ^ (52 + e) ≤ s * 2 ^ e := by
  have hs : (2 : ℚ) ^ (52 : ℤ) ≤ s := by exact_mod_cast h.full.resolve_right (by omega)
  rw [two_zpow_add]
  exact mul_le_mul_of_nonneg_right hs (two_zpow_pos e).le

/-- A greater exponent makes a greater value, whatever the significands are. -/
theorem value_lt_value (h : Normalized s e) (h' : Normalized s' e') (he : e < e') :
    (s : ℚ) * 2 ^ e < s' * 2 ^ e' := calc
  (s : ℚ) * 2 ^ e < 2 ^ (53 + e) := h.value_lt
  _ ≤ 2 ^ (52 + e') := zpow_le_zpow_right₀ (by norm_num) (by omega)
  _ ≤ s' * 2 ^ e' := h'.le_value (by have := h.least; omega)

/-- A value has one pair of fields. -/
theorem eq_of_value_eq (h : Normalized s e) (h' : Normalized s' e')
    (hvalue : (s : ℚ) * 2 ^ e = s' * 2 ^ e') : s = s' ∧ e = e' := by
  rcases lt_trichotomy e e' with he | rfl | he
  · exact absurd hvalue (h.value_lt_value h' he).ne
  · have hs : (s : ℚ) = s' := mul_right_cancel₀ (two_zpow_pos e).ne' hvalue
    exact ⟨by exact_mod_cast hs, rfl⟩
  · exact absurd hvalue (h'.value_lt_value h he).ne'

end Normalized

theorem Finite.value_lt (f : Finite) : f.value < 2 ^ (1024 : ℤ) :=
  f.normalized.value_lt.trans_le
    (zpow_le_zpow_right₀ (by norm_num) (by have := (canonical_iff.mp f.canonical).2; omega))

/-- A finite number is its sign and its value. -/
theorem Finite.eq_of_value_eq {f g : Finite} (hsign : f.negative = g.negative)
    (hvalue : f.value = g.value) : f = g := by
  obtain ⟨negative, s, e, h⟩ := f
  obtain ⟨negative', s', e', h'⟩ := g
  obtain ⟨rfl, rfl⟩ := (canonical_iff.mp h).1.eq_of_value_eq (canonical_iff.mp h').1 hvalue
  cases hsign
  rfl

/-- Fields give the finite number with their value, where there is one. -/
theorem Double.ofFields_eq_finite_iff {s : ℕ} {e : ℤ} (h : Normalized s e) {negative : Bool}
    {f : Finite} :
    ofFields negative s e = .finite f ↔ f.negative = negative ∧ f.value = s * 2 ^ e := by
  unfold ofFields
  constructor
  · intro heq
    split at heq
    · cases heq
      exact ⟨rfl, rfl⟩
    · cases heq
  · rintro ⟨rfl, hvalue⟩
    obtain ⟨rfl, rfl⟩ := f.normalized.eq_of_value_eq h hvalue
    rw [dif_pos f.canonical]

/-! ## The nearest whole number -/

/-- The whole number nearest to `r`, the even one of two that are equally near. -/
def nearestEven (r : ℚ) : ℕ :=
  if r - ⌊r⌋₊ < 1 / 2 then ⌊r⌋₊
  else if 1 / 2 < r - ⌊r⌋₊ then ⌊r⌋₊ + 1
  else ⌊r⌋₊ + ⌊r⌋₊ % 2

theorem nearestEven_natCast (n : ℕ) : nearestEven n = n := by
  rw [nearestEven, Nat.floor_natCast, sub_self, if_pos (by norm_num)]

/-- It is one of the two neighbours, and not the farther one. -/
theorem nearestEven_cases (r : ℚ) :
    nearestEven r = ⌊r⌋₊ ∧ r - ⌊r⌋₊ ≤ 1 / 2 ∨ nearestEven r = ⌊r⌋₊ + 1 ∧ 1 / 2 ≤ r - ⌊r⌋₊ := by
  unfold nearestEven
  split_ifs with hlow hhigh
  · exact .inl ⟨rfl, hlow.le⟩
  · exact .inr ⟨rfl, hhigh.le⟩
  · rcases Nat.mod_two_eq_zero_or_one ⌊r⌋₊ with heven | hodd
    · exact .inl ⟨by rw [heven, add_zero], not_lt.mp hhigh⟩
    · exact .inr ⟨by rw [hodd], not_lt.mp hlow⟩

theorem nearestEven_mono {r r' : ℚ} (h : r ≤ r') : nearestEven r ≤ nearestEven r' := by
  rcases h.eq_or_lt with rfl | hlt
  · exact le_refl _
  have hfloor : ⌊r⌋₊ ≤ ⌊r'⌋₊ := Nat.floor_mono h
  rcases nearestEven_cases r with ⟨heq, _⟩ | ⟨heq, hhigh⟩
  · rcases nearestEven_cases r' with ⟨heq', _⟩ | ⟨heq', _⟩
    all_goals omega
  · rcases nearestEven_cases r' with ⟨heq', hlow⟩ | ⟨heq', _⟩
    · -- the upper neighbour of `r` and the lower one of `r'` cannot be in the wrong order
      have hne : ⌊r⌋₊ ≠ ⌊r'⌋₊ := by
        intro hsame
        rw [← hsame] at hlow
        linarith
      omega
    · omega

theorem nearestEven_le_of_le {r : ℚ} {n : ℕ} (h : r ≤ n) : nearestEven r ≤ n :=
  (nearestEven_mono h).trans_eq (nearestEven_natCast n)

theorem le_nearestEven_of_le {r : ℚ} {n : ℕ} (h : (n : ℚ) ≤ r) : n ≤ nearestEven r :=
  (nearestEven_natCast n).symm.trans_le (nearestEven_mono h)

theorem nearestEven_of_lt_half {r : ℚ} (h : r < 1 / 2) : nearestEven r = 0 := by
  have hfloor : ⌊r⌋₊ = 0 := Nat.floor_eq_zero.mpr (by linarith)
  rw [nearestEven, hfloor, Nat.cast_zero, sub_zero, if_pos h]

/-- The distance is at most that to either neighbour. -/
theorem abs_sub_nearestEven_le_neighbour {r : ℚ} (hr : 0 ≤ r) :
    |r - nearestEven r| ≤ r - ⌊r⌋₊ ∧ |r - nearestEven r| ≤ ⌊r⌋₊ + 1 - r := by
  have hfloor : (⌊r⌋₊ : ℚ) ≤ r := Nat.floor_le hr
  have hnext : r < ⌊r⌋₊ + 1 := Nat.lt_floor_add_one r
  rcases nearestEven_cases r with ⟨heq, hlow⟩ | ⟨heq, hhigh⟩
  · rw [heq, abs_of_nonneg (sub_nonneg.mpr hfloor)]
    exact ⟨le_refl _, by linarith⟩
  · rw [heq, Nat.cast_add_one, abs_of_nonpos (sub_nonpos.mpr hnext.le), neg_sub]
    exact ⟨by linarith, le_refl _⟩

/-- No whole number is nearer. -/
theorem abs_sub_nearestEven_le {r : ℚ} (hr : 0 ≤ r) (k : ℕ) :
    |r - nearestEven r| ≤ |r - k| := by
  obtain ⟨hbelow, habove⟩ := abs_sub_nearestEven_le_neighbour hr
  rcases Nat.lt_or_ge ⌊r⌋₊ k with hk | hk
  · have hk' : (⌊r⌋₊ : ℚ) + 1 ≤ k := by exact_mod_cast hk
    calc
      |r - nearestEven r| ≤ ⌊r⌋₊ + 1 - r := habove
      _ ≤ -(r - k) := by linarith
      _ ≤ |r - k| := neg_le_abs _
  · have hk' : (k : ℚ) ≤ ⌊r⌋₊ := by exact_mod_cast hk
    calc
      |r - nearestEven r| ≤ r - ⌊r⌋₊ := hbelow
      _ ≤ r - k := by linarith
      _ ≤ |r - k| := le_abs_self _

theorem divideToEven_eq (a : ℕ) {b : ℕ} (hb : 0 < b) :
    Double.divideToEven a b = nearestEven (a / b) := by
  have hb' : (0 : ℚ) < b := by exact_mod_cast hb
  have hfloor : ⌊(a : ℚ) / b⌋₊ = a / b := Nat.floor_div_eq_div a b
  have hrest : (a : ℚ) / b - (a / b : ℕ) = (a % b : ℕ) / b := by
    have hsplit : (a : ℚ) = b * (a / b : ℕ) + (a % b : ℕ) := by
      exact_mod_cast (Nat.div_add_mod a b).symm
    rw [sub_eq_iff_eq_add, div_add' _ _ _ hb'.ne', div_left_inj' hb'.ne', mul_comm, add_comm]
    exact hsplit
  have hlow : ((a % b : ℕ) : ℚ) / b < 1 / 2 ↔ 2 * (a % b) < b := by
    rw [div_lt_div_iff₀ hb' two_pos, one_mul, mul_comm]
    exact_mod_cast Iff.rfl
  have hhigh : 1 / 2 < ((a % b : ℕ) : ℚ) / b ↔ b < 2 * (a % b) := by
    rw [div_lt_div_iff₀ two_pos hb', one_mul, mul_comm]
    exact_mod_cast Iff.rfl
  unfold Double.divideToEven nearestEven
  simp only [hfloor, hrest, hlow, hhigh]

/-! ## The nearest number of the format -/

/-- The exponent of the last bit that counts for `r`. -/
def place (r : ℚ) : ℤ := max (Int.log 2 r - 52) (-1074)

/-- The value of the format nearest to `r`, with no bound from above. -/
def rounded (r : ℚ) : ℚ := nearestEven (r / 2 ^ place r) * 2 ^ place r

theorem least_le_place (r : ℚ) : -1074 ≤ place r := le_max_right _ _

theorem scaled_nonneg {r : ℚ} (hr : 0 ≤ r) : 0 ≤ r / 2 ^ place r :=
  div_nonneg hr (two_zpow_pos _).le

theorem rounded_zero : rounded 0 = 0 := by
  have hzero : nearestEven 0 = 0 := nearestEven_natCast 0
  rw [rounded, zero_div, hzero, Nat.cast_zero, zero_mul]

/-- Counted in units of its place, a fraction has at most fifty-three bits. -/
theorem scaled_lt {r : ℚ} (hr : 0 < r) : r / 2 ^ place r < (2 ^ 53 : ℕ) := by
  have hcast : ((2 ^ 53 : ℕ) : ℚ) = 2 ^ (53 : ℤ) := by norm_num
  rw [div_lt_iff₀ (two_zpow_pos _), hcast, ← two_zpow_add, ← log_lt_iff hr]
  unfold place
  omega

/-- It has exactly as many above the least place. -/
theorem le_scaled {r : ℚ} (hr : 0 < r) (h : -1074 < place r) :
    ((2 ^ 52 : ℕ) : ℚ) ≤ r / 2 ^ place r := by
  have hcast : ((2 ^ 52 : ℕ) : ℚ) = 2 ^ (52 : ℤ) := by norm_num
  rw [le_div_iff₀ (two_zpow_pos _), hcast, ← two_zpow_add, ← le_log_iff hr]
  unfold place at h ⊢
  omega

theorem place_mono {r r' : ℚ} (hr : 0 < r) (h : r ≤ r') : place r ≤ place r' := by
  have hlog : Int.log 2 r ≤ Int.log 2 r' := Int.log_mono_right hr h
  unfold place
  omega

theorem rounded_nonneg (r : ℚ) : 0 ≤ rounded r :=
  mul_nonneg (Nat.cast_nonneg _) (two_zpow_pos _).le

/-- **Rounding keeps the order.** -/
theorem rounded_mono {r r' : ℚ} (hr : 0 ≤ r) (h : r ≤ r') : rounded r ≤ rounded r' := by
  rcases hr.eq_or_lt with rfl | hpos
  · rw [rounded_zero]
    exact rounded_nonneg r'
  have hpos' : 0 < r' := hpos.trans_le h
  rcases (place_mono hpos h).lt_or_eq with hlt | heq
  · -- a power of two lies in between
    have hdown : (nearestEven (r / 2 ^ place r) : ℚ) ≤ 2 ^ (53 : ℤ) := by
      exact_mod_cast nearestEven_le_of_le (scaled_lt hpos).le
    have hup : (2 : ℚ) ^ (52 : ℤ) ≤ nearestEven (r' / 2 ^ place r') := by
      exact_mod_cast le_nearestEven_of_le
        (le_scaled hpos' (by have := least_le_place r; omega))
    calc
      rounded r ≤ 2 ^ (53 : ℤ) * 2 ^ place r := mul_le_mul_of_nonneg_right hdown (two_zpow_pos _).le
      _ = 2 ^ (53 + place r) := (two_zpow_add _ _).symm
      _ ≤ 2 ^ (52 + place r') := zpow_le_zpow_right₀ (by norm_num) (by omega)
      _ = 2 ^ (52 : ℤ) * 2 ^ place r' := two_zpow_add _ _
      _ ≤ rounded r' := mul_le_mul_of_nonneg_right hup (two_zpow_pos _).le
  · have hscaled : r / 2 ^ place r ≤ r' / 2 ^ place r' := by
      rw [← heq]
      exact div_le_div_of_nonneg_right h (two_zpow_pos _).le
    have hnearest : (nearestEven (r / 2 ^ place r) : ℚ) ≤ nearestEven (r' / 2 ^ place r') := by
      exact_mod_cast nearestEven_mono hscaled
    unfold rounded
    rw [heq] at hnearest ⊢
    exact mul_le_mul_of_nonneg_right hnearest (two_zpow_pos _).le

/-- Fields are left alone: their exponent is the place. -/
theorem rounded_fields {s : ℕ} {e : ℤ} (h : Normalized s e) : rounded (s * 2 ^ e) = s * 2 ^ e := by
  rcases Nat.eq_zero_or_pos s with rfl | hs
  · rw [Nat.cast_zero, zero_mul, rounded_zero]
  have hpos : (0 : ℚ) < s * 2 ^ e := mul_pos (by exact_mod_cast hs) (two_zpow_pos e)
  have hplace : place (s * 2 ^ e) = e := by
    have hbelow : Int.log 2 ((s : ℚ) * 2 ^ e) < 53 + e := (log_lt_iff hpos).mpr h.value_lt
    have hleast := h.least
    unfold place
    rcases hleast.lt_or_eq with hlt | heq
    · have habove : 52 + e ≤ Int.log 2 ((s : ℚ) * 2 ^ e) := (le_log_iff hpos).mpr (h.le_value hlt)
      omega
    · omega
  rw [rounded, hplace, mul_div_cancel_right₀ _ (two_zpow_pos e).ne', nearestEven_natCast]

/-- **The numbers of the format are left alone.** -/
theorem rounded_value (f : Finite) : rounded f.value = f.value := rounded_fields f.normalized

/-- **No number of the format is nearer.** -/
theorem abs_sub_rounded_le {r : ℚ} (hr : 0 ≤ r) (f : Finite) :
    |r - rounded r| ≤ |r - f.value| := by
  rcases hr.eq_or_lt with rfl | hpos
  · rw [rounded_zero, sub_self, abs_zero]
    exact abs_nonneg _
  have hunit := two_zpow_pos (place r)
  -- no multiple of the unit is nearer
  have hmultiple : ∀ k : ℕ, |r - rounded r| ≤ |r - k * 2 ^ place r| := by
    intro k
    have hscale : ∀ n : ℕ, |r - n * 2 ^ place r| = |r / 2 ^ place r - n| * 2 ^ place r := by
      intro n
      rw [← abs_of_pos hunit, ← abs_mul, abs_of_pos hunit, sub_mul,
        div_mul_cancel₀ _ hunit.ne']
    rw [rounded, hscale, hscale]
    exact mul_le_mul_of_nonneg_right (abs_sub_nearestEven_le (scaled_nonneg hr) k) hunit.le
  rcases le_or_gt (place r) f.exponent with hle | hlt
  · -- the number is one of them
    obtain ⟨n, hn⟩ := Int.eq_ofNat_of_zero_le (sub_nonneg.mpr hle)
    have hvalue : f.value = (f.significand * 2 ^ n : ℕ) * 2 ^ place r := by
      have hexponent : f.exponent = n + place r := by omega
      rw [Finite.value, hexponent, two_zpow_add, zpow_natCast]
      push_cast
      ring
    rw [hvalue]
    exact hmultiple _
  · -- the number is below the least one with the leading bit at its place, which is below `r`
    have hlow : f.value ≤ (2 ^ 52 : ℕ) * 2 ^ place r := by
      have hcast : ((2 ^ 52 : ℕ) : ℚ) = 2 ^ (52 : ℤ) := by norm_num
      rw [hcast, ← two_zpow_add]
      exact f.normalized.value_lt.le.trans (zpow_le_zpow_right₀ (by norm_num) (by omega))
    have hhigh : (2 ^ 52 : ℕ) * 2 ^ place r ≤ r := by
      rw [← le_div_iff₀ hunit]
      exact le_scaled hpos (by have := f.normalized.least; omega)
    calc
      |r - rounded r| ≤ |r - (2 ^ 52 : ℕ) * 2 ^ place r| := hmultiple _
      _ = r - (2 ^ 52 : ℕ) * 2 ^ place r := abs_of_nonneg (sub_nonneg.mpr hhigh)
      _ ≤ r - f.value := by linarith
      _ ≤ |r - f.value| := le_abs_self _

/-! ## Rounding a fraction -/

namespace Double

theorem scaleDown_fst (num den : ℕ) (q : ℤ) :
    ((scaleDown num den q).1 : ℚ) = num * 2 ^ (-q).toNat := by
  rw [scaleDown, Nat.cast_mul, Nat.pow_eq, Nat.cast_pow, Nat.cast_ofNat]

theorem scaleDown_snd (num den : ℕ) (q : ℤ) :
    ((scaleDown num den q).2 : ℚ) = den * 2 ^ q.toNat := by
  rw [scaleDown, Nat.cast_mul, Nat.pow_eq, Nat.cast_pow, Nat.cast_ofNat]

theorem scaleDown_snd_pos (num : ℕ) {den : ℕ} (hden : 0 < den) (q : ℤ) :
    0 < (scaleDown num den q).2 := Nat.mul_pos hden (Nat.pow_pos (by norm_num))

theorem scaleDown_value (num den : ℕ) (q : ℤ) :
    ((scaleDown num den q).1 : ℚ) / (scaleDown num den q).2 = num / den / 2 ^ q := by
  have hpow : (2 : ℚ) ^ q.toNat = 2 ^ (-q).toNat * 2 ^ q := by
    rw [← zpow_natCast, ← zpow_natCast, ← two_zpow_add]
    congr 1
    omega
  have hfactor : (2 : ℚ) ^ (-q).toNat ≠ 0 := by positivity
  rw [scaleDown_fst, scaleDown_snd, hpow, div_div, mul_left_comm, mul_comm (num : ℚ),
    mul_div_mul_left _ _ hfactor]

/-- The logarithm of a fraction is off by one at most from that of its parts. -/
theorem floorLog2_eq {num den : ℕ} (hnum : 0 < num) (hden : 0 < den) :
    floorLog2 num den = Int.log 2 ((num : ℚ) / den) := by
  have hden' : (0 : ℚ) < den := by exact_mod_cast hden
  have hpos : (0 : ℚ) < num / den := by positivity
  have hlow : (2 : ℚ) ^ ((num.log2 : ℤ) - den.log2 - 1) ≤ num / den := by
    have hnumlow : (2 : ℚ) ^ (num.log2 : ℤ) ≤ num := by
      exact_mod_cast Nat.log2_self_le hnum.ne'
    have hdenhigh : (den : ℚ) ≤ 2 ^ ((den.log2 : ℤ) + 1) := by
      exact_mod_cast (Nat.lt_log2_self (n := den)).le
    rw [le_div_iff₀ hden']
    calc
      (2 : ℚ) ^ ((num.log2 : ℤ) - den.log2 - 1) * den
          ≤ 2 ^ ((num.log2 : ℤ) - den.log2 - 1) * 2 ^ ((den.log2 : ℤ) + 1) :=
        mul_le_mul_of_nonneg_left hdenhigh (two_zpow_pos _).le
      _ = 2 ^ (num.log2 : ℤ) := by rw [← two_zpow_add]; congr 1; ring
      _ ≤ num := hnumlow
  have hhigh : (num : ℚ) / den < 2 ^ ((num.log2 : ℤ) - den.log2 + 1) := by
    have hnumhigh : (num : ℚ) < 2 ^ ((num.log2 : ℤ) + 1) := by
      exact_mod_cast Nat.lt_log2_self (n := num)
    have hdenlow : (2 : ℚ) ^ (den.log2 : ℤ) ≤ den := by
      exact_mod_cast Nat.log2_self_le hden.ne'
    rw [div_lt_iff₀ hden']
    calc
      (num : ℚ) < 2 ^ ((num.log2 : ℤ) + 1) := hnumhigh
      _ = 2 ^ ((num.log2 : ℤ) - den.log2 + 1) * 2 ^ (den.log2 : ℤ) := by
        rw [← two_zpow_add]; congr 1; ring
      _ ≤ 2 ^ ((num.log2 : ℤ) - den.log2 + 1) * den :=
        mul_le_mul_of_nonneg_left hdenlow (two_zpow_pos _).le
  have hbelow := (le_log_iff hpos).mpr hlow
  have habove := (log_lt_iff hpos).mpr hhigh
  -- the comparison decides between the two candidates
  have hcompare : ∀ e, (scaleDown num den e).2 ≤ (scaleDown num den e).1
      ↔ e ≤ Int.log 2 ((num : ℚ) / den) := by
    intro e
    have hsnd : (0 : ℚ) < (scaleDown num den e).2 := by
      exact_mod_cast scaleDown_snd_pos num hden e
    rw [← Nat.cast_le (α := ℚ), ← one_le_div hsnd, scaleDown_value, one_le_div (two_zpow_pos e),
      le_log_iff hpos]
  unfold floorLog2
  simp only [hcompare]
  split_ifs <;> omega

theorem exponentOf_eq {num den : ℕ} (hnum : 0 < num) (hden : 0 < den) :
    exponentOf num den = place (num / den) := by
  rw [exponentOf, floorLog2_eq hnum hden, place]

/-- Rounding a fraction gives the fields of the rounded value. -/
theorem round_eq_ofFields (negative : Bool) (num : ℕ) {den : ℕ} (hden : 0 < den) :
    ∃ s e, Normalized s e ∧ (s : ℚ) * 2 ^ e = rounded (num / den) ∧
      round negative num den = ofFields negative s e := by
  rcases Nat.eq_zero_or_pos num with rfl | hnum
  · refine ⟨0, -1074, normalized_zero, ?_, by rw [round, if_pos rfl]⟩
    rw [Nat.cast_zero, zero_mul, zero_div, rounded_zero]
  have hpos : (0 : ℚ) < num / den := by
    have hden' : (0 : ℚ) < den := by exact_mod_cast hden
    positivity
  have hleast := least_le_place ((num : ℚ) / den)
  have hmost := nearestEven_le_of_le (scaled_lt hpos).le
  have hfull : place ((num : ℚ) / den) = -1074 ∨
      2 ^ 52 ≤ nearestEven ((num : ℚ) / den / 2 ^ place ((num : ℚ) / den)) := by
    rcases hleast.lt_or_eq with hlt | heq
    · exact .inr (le_nearestEven_of_le (le_scaled hpos hlt))
    · exact .inl heq.symm
  unfold round
  simp only [if_neg hnum.ne', exponentOf_eq hnum hden,
    divideToEven_eq _ (scaleDown_snd_pos num hden _), scaleDown_value, Nat.pow_eq]
  unfold rounded
  generalize place ((num : ℚ) / den) = q at hleast hmost hfull ⊢
  generalize nearestEven ((num : ℚ) / den / 2 ^ q) = m at hmost hfull ⊢
  split_ifs with hcarry
  · -- all bits are carried into the next place
    refine ⟨2 ^ 52, q + 1, ⟨by norm_num, by omega, .inl (le_refl _)⟩, ?_, rfl⟩
    rw [hcarry, two_zpow_add]
    push_cast
    ring
  · exact ⟨m, q, ⟨by omega, hleast, hfull.symm⟩, rfl, rfl⟩

theorem round_eq_finite_iff {negative : Bool} {num den : ℕ} (hden : 0 < den) {f : Finite} :
    round negative num den = .finite f
      ↔ f.negative = negative ∧ f.value = rounded (num / den) := by
  obtain ⟨s, e, hnormalized, hvalue, hround⟩ := round_eq_ofFields negative num hden
  rw [hround, ofFields_eq_finite_iff hnormalized, hvalue]

end Double

/-! ## Reading a decimal -/

/-- Below half of the least number there is nothing but zero. -/
theorem rounded_eq_zero {r : ℚ} (hr : 0 ≤ r) (h : r < 2 ^ (-1075 : ℤ)) : rounded r = 0 := by
  rcases hr.eq_or_lt with rfl | hpos
  · exact rounded_zero
  have hplace : place r = -1074 := by
    have hlog := (log_lt_iff hpos).mpr h
    unfold place
    omega
  have hhalf : r / 2 ^ place r < 1 / 2 := by
    have hpow : (2 : ℚ) ^ (-1075 : ℤ) = 2 ^ (-1 : ℤ) * 2 ^ (-1074 : ℤ) := by
      rw [← two_zpow_add]
      congr 1
    rw [div_lt_iff₀ (two_zpow_pos _), hplace]
    rw [hpow] at h
    simpa using h
  rw [rounded, nearestEven_of_lt_half hhalf, Nat.cast_zero, zero_mul]

/-- From the first power of two beyond the format on, nothing of the format is left. -/
theorem rounded_ne_value {r : ℚ} (h : 2 ^ (1024 : ℤ) ≤ r) (f : Finite) : f.value ≠ rounded r := by
  have hpow : (2 : ℚ) ^ (1024 : ℤ) = (2 ^ 52 : ℕ) * 2 ^ (972 : ℤ) := by
    have hcast : ((2 ^ 52 : ℕ) : ℚ) = 2 ^ (52 : ℤ) := by norm_num
    rw [hcast, ← two_zpow_add]
    congr 1
  have hnormalized : Normalized (2 ^ 52) 972 := ⟨by norm_num, by norm_num, .inl (le_refl _)⟩
  have hrounded : (2 : ℚ) ^ (1024 : ℤ) ≤ rounded r := by
    have hmono := rounded_mono (two_zpow_pos 1024).le h
    rwa [hpow, rounded_fields hnormalized, ← hpow] at hmono
  exact (f.value_lt.trans_le hrounded).ne

namespace Decimal

/-- A decimal other than zero lies between the powers of ten around its first digit. -/
theorem value_bounds {d : Decimal} (h : 0 < d.coefficient) :
    (10 : ℚ) ^ (d.point - 1) ≤ d.value ∧ d.value < 10 ^ d.point := by
  have hlength : 0 < d.digits.length := Nat.length_toDigits_pos
  have hhigh : d.coefficient < 10 ^ d.digits.length :=
    (Nat.length_toDigits_le_iff (by norm_num) hlength).mp (le_refl _)
  have hlow : 10 ^ (d.digits.length - 1) ≤ d.coefficient := by
    rcases Nat.eq_zero_or_pos (d.digits.length - 1) with hone | hmore
    · rw [hone]
      exact h
    · by_contra hlt
      have hshort : d.digits.length ≤ d.digits.length - 1 :=
        (Nat.length_toDigits_le_iff (by norm_num) hmore).mpr (not_le.mp hlt)
      omega
  have hhigh' : (d.coefficient : ℚ) < 10 ^ (d.digits.length : ℤ) := by exact_mod_cast hhigh
  have hlow' : (10 : ℚ) ^ ((d.digits.length : ℤ) - 1) ≤ d.coefficient := by
    rw [← Int.natCast_pred_of_pos hlength]
    exact_mod_cast hlow
  have hten := ten_zpow_pos d.exponent
  unfold value point
  constructor
  · rw [add_sub_right_comm, ten_zpow_add]
    exact mul_le_mul_of_nonneg_right hlow' hten.le
  · rw [ten_zpow_add]
    exact mul_lt_mul_of_pos_right hhigh' hten

theorem value_of_coefficient_eq_zero {d : Decimal} (h : d.coefficient = 0) : d.value = 0 := by
  rw [value, h, Nat.cast_zero, zero_mul]

theorem value_eq_div (d : Decimal) :
    d.value = (d.coefficient * Nat.pow 10 d.exponent.toNat : ℕ)
      / (Nat.pow 10 (-d.exponent).toNat : ℕ) := by
  have hpow : (10 : ℚ) ^ d.exponent.toNat = 10 ^ d.exponent * 10 ^ (-d.exponent).toNat := by
    rw [← zpow_natCast, ← zpow_natCast, ← ten_zpow_add]
    congr 1
    omega
  have hfactor : (10 : ℚ) ^ (-d.exponent).toNat ≠ 0 := by positivity
  rw [value, Nat.pow_eq, Nat.pow_eq]
  push_cast
  rw [hpow, ← mul_assoc, mul_div_cancel_right₀ _ hfactor]

end Decimal

/-- **A decimal is read as the number with the rounded value.** -/
theorem Double.ofDecimal_eq_finite_iff {negative : Bool} {d : Decimal} {f : Finite} :
    ofDecimal negative d = .finite f ↔ f.negative = negative ∧ f.value = rounded d.value := by
  unfold ofDecimal
  split_ifs with hzero hbeyond hbelow
  · rw [ofFields_eq_finite_iff normalized_zero, Decimal.value_of_coefficient_eq_zero hzero,
      rounded_zero, Nat.cast_zero, zero_mul]
  · have hbound := (Decimal.value_bounds (Nat.pos_of_ne_zero hzero)).1
    have hlarge : (2 : ℚ) ^ (1024 : ℤ) ≤ d.value := calc
      (2 : ℚ) ^ (1024 : ℤ) ≤ 10 ^ (310 : ℤ) :=
        (two_zpow_lt_ten_zpow (a := 1024) (b := 310) (by decide +kernel)).le
      _ ≤ 10 ^ (d.point - 1) := zpow_le_zpow_right₀ (by norm_num) (by omega)
      _ ≤ d.value := hbound
    constructor
    · intro h
      cases h
    · rintro ⟨_, hvalue⟩
      exact absurd hvalue (rounded_ne_value hlarge f)
  · have hbound := (Decimal.value_bounds (Nat.pos_of_ne_zero hzero)).2
    have hsmall : d.value < 2 ^ (-1075 : ℤ) := calc
      d.value < 10 ^ d.point := hbound
      _ ≤ 10 ^ (-331 : ℤ) := zpow_le_zpow_right₀ (by norm_num) (by omega)
      _ < 2 ^ (-1075 : ℤ) := 
        ten_zpow_neg_lt_two_zpow_neg (a := 1075) (b := 331) (by decide +kernel)
    rw [ofFields_eq_finite_iff normalized_zero, rounded_eq_zero d.value_nonneg hsmall,
      Nat.cast_zero, zero_mul]
  · have hden : 0 < Nat.pow 10 (-d.exponent).toNat := Nat.pow_pos (by norm_num)
    rw [round_eq_finite_iff hden, ← d.value_eq_div]

end ModuleAssembly.Number
