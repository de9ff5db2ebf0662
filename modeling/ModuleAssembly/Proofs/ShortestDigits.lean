import ModuleAssembly.Proofs.Numerals
import ModuleAssembly.Proofs.Rounding

/-!
# Shortest digits

What the search for a short decimal finds. Rounding keeps the order, so the decimals that read back
as a number have no gap between them. Once the neighbours of the exact value on a grid do not read
back, no point of that grid does, nor of a coarser one. So the first decimal that is found lies on
the coarsest grid that has one, and a decimal with fewer digits would leave a power of ten between
the two, on a coarser grid still. The decimal that is found reads back, no other one with fewer
digits does, and none of its grid that does is nearer (`Finite.shortest_isShortestFor`).
-/

set_option autoImplicit false

namespace ModuleAssembly.Number

/-! ## Points of decimal grids -/

namespace Decimal

theorem value_le_value_iff {c c' : ℕ} {e : ℤ} :
    (Decimal.mk c e).value ≤ (Decimal.mk c' e).value ↔ c ≤ c' := by
  unfold value
  rw [mul_le_mul_iff_of_pos_right (ten_zpow_pos e), Nat.cast_le]

/-- A point of a grid is one of every finer grid. -/
theorem value_mk_add (c : ℕ) (e : ℤ) (k : ℕ) :
    (Decimal.mk c (e + k)).value = (Decimal.mk (c * 10 ^ k) e).value := by
  unfold value
  rw [ten_zpow_add, zpow_natCast]
  push_cast
  ring

/-- A decimal is a point of every grid that is no coarser. -/
theorem exists_value_eq {d : Decimal} {e : ℤ} (h : e ≤ d.exponent) :
    ∃ c, (Decimal.mk c e).value = d.value := by
  obtain ⟨k, hk⟩ := Int.eq_ofNat_of_zero_le (sub_nonneg.mpr h)
  have hexponent : d.exponent = e + k := by omega
  refine ⟨d.coefficient * 10 ^ k, ?_⟩
  rw [← value_mk_add, ← hexponent]

/-- The lower neighbour of a decimal on the grid that is coarser by `k` digits. -/
def below (full : Decimal) (k : ℕ) : Decimal := ⟨full.coefficient / 10 ^ k, full.exponent + k⟩

/-- The upper neighbour. -/
def above (full : Decimal) (k : ℕ) : Decimal := ⟨full.coefficient / 10 ^ k + 1, full.exponent + k⟩

theorem value_sub_below (full : Decimal) (k : ℕ) :
    full.value - (full.below k).value
      = (full.coefficient % 10 ^ k : ℕ) * 10 ^ full.exponent := by
  have hsplit : (full.coefficient : ℚ)
      = 10 ^ k * (full.coefficient / 10 ^ k : ℕ) + (full.coefficient % 10 ^ k : ℕ) := by
    exact_mod_cast (Nat.div_add_mod full.coefficient (10 ^ k)).symm
  rw [below, value_mk_add, value, value]
  nth_rewrite 1 [hsplit]
  push_cast
  ring

theorem above_sub_below (full : Decimal) (k : ℕ) :
    (full.above k).value - (full.below k).value = (10 ^ k : ℕ) * 10 ^ full.exponent := by
  rw [above, below, value_mk_add, value_mk_add, value, value]
  push_cast
  ring

theorem below_value_le (full : Decimal) (k : ℕ) : (full.below k).value ≤ full.value := by
  have hrest : (0 : ℚ) ≤ (full.coefficient % 10 ^ k : ℕ) * 10 ^ full.exponent :=
    mul_nonneg (Nat.cast_nonneg _) (ten_zpow_pos _).le
  have hsub := value_sub_below full k
  linarith

theorem value_le_above (full : Decimal) (k : ℕ) : full.value ≤ (full.above k).value := by
  have hrest : ((full.coefficient % 10 ^ k : ℕ) : ℚ) * 10 ^ full.exponent
      ≤ (10 ^ k : ℕ) * 10 ^ full.exponent := by
    have hlt : full.coefficient % 10 ^ k < 10 ^ k := Nat.mod_lt _ (by positivity)
    exact mul_le_mul_of_nonneg_right (by exact_mod_cast hlt.le) (ten_zpow_pos _).le
  have hsub := value_sub_below full k
  have hstep := above_sub_below full k
  linarith

/-- Every point of the grid lies beyond one of the neighbours. -/
theorem value_le_below_or_above_le (full : Decimal) (k c : ℕ) :
    (Decimal.mk c (full.exponent + k)).value ≤ (full.below k).value ∨
      (full.above k).value ≤ (Decimal.mk c (full.exponent + k)).value := by
  rcases Nat.lt_or_ge (full.coefficient / 10 ^ k) c with hlt | hle
  · exact .inr (value_le_value_iff.mpr hlt)
  · exact .inl (value_le_value_iff.mpr hle)

end Decimal

namespace Finite

open Decimal (below above)

variable {f : Finite} {full : Decimal}

/-! ## The decimals that read back -/

theorem readsFrom_iff {d : Decimal} : f.readsFrom d = true ↔ f.value = rounded d.value := by
  rw [readsFrom, beq_iff_eq, Double.ofDecimal_eq_finite_iff]
  exact and_iff_right rfl

/-- There is no gap between the decimals that read back. -/
theorem readsFrom_of_between {a b d : Decimal} (ha : f.readsFrom a = true)
    (hb : f.readsFrom b = true) (hlow : a.value ≤ d.value) (hhigh : d.value ≤ b.value) :
    f.readsFrom d = true := by
  rw [readsFrom_iff] at ha hb ⊢
  apply le_antisymm
  · rw [ha]
    exact rounded_mono a.value_nonneg hlow
  · rw [hb]
    exact rounded_mono d.value_nonneg hhigh

/-- Only the value of a decimal counts. -/
theorem readsFrom_of_value_eq {d d' : Decimal} (h : f.readsFrom d = true)
    (hvalue : d.value = d'.value) : f.readsFrom d' = true :=
  readsFrom_of_between h h hvalue.le hvalue.ge

theorem exact_value (f : Finite) : f.exact.value = f.value := by
  unfold exact value Decimal.value
  split_ifs with h
  · obtain ⟨n, hn⟩ := Int.eq_ofNat_of_zero_le h
    rw [hn, Int.toNat_natCast, zpow_natCast, zpow_zero, Nat.pow_eq]
    push_cast
    ring
  · have hneg : f.exponent = -((-f.exponent).toNat : ℤ) := by omega
    have hpow : (5 : ℚ) ^ (-f.exponent).toNat * 10 ^ f.exponent = 2 ^ f.exponent := by
      rw [hneg, neg_neg, Int.toNat_natCast, zpow_neg, zpow_neg, zpow_natCast, zpow_natCast,
        ← div_eq_mul_inv, ← div_pow, ← inv_pow]
      norm_num
    rw [Nat.cast_mul, Nat.pow_eq, Nat.cast_pow, Nat.cast_ofNat, mul_assoc, hpow]

/-- The exact expansion reads back. -/
theorem readsFrom_exact (f : Finite) : f.readsFrom f.exact = true := by
  rw [readsFrom_iff, exact_value, rounded_value]

/-! ## The search -/

/-- No decimal that reads back lies on a grid coarser than `10 ^ e`. -/
def NoCoarser (f : Finite) (e : ℤ) : Prop := ∀ d, f.readsFrom d = true → d.exponent ≤ e

/-- Where the neighbours do not read back, no point of the grid does. -/
theorem noCoarser_of_neighbours {k : ℕ} (hfull : f.readsFrom full = true)
    (hbelow : f.readsFrom (full.below (k + 1)) = false)
    (habove : f.readsFrom (full.above (k + 1)) = false) : NoCoarser f (full.exponent + k) := by
  intro d hd
  by_contra hcoarse
  have hgrid : full.exponent + (k + 1 : ℕ) ≤ d.exponent := by omega
  obtain ⟨c, hc⟩ := Decimal.exists_value_eq hgrid
  have hpoint := readsFrom_of_value_eq hd hc.symm
  rcases full.value_le_below_or_above_le (k + 1) c with hle | hle
  · have hreads := readsFrom_of_between hpoint hfull hle (full.below_value_le _)
    rw [hbelow] at hreads
    cases hreads
  · have hreads := readsFrom_of_between hfull hpoint (full.value_le_above _) hle
    rw [habove] at hreads
    cases hreads

/-- Of two neighbours the farther one is not taken. -/
theorem nearer_cases (tie : Tie) (low rest unit : ℕ) :
    nearer tie low rest unit = low ∧ 2 * rest ≤ unit ∨
      nearer tie low rest unit = low + 1 ∧ unit ≤ 2 * rest := by
  unfold nearer
  split_ifs with hlow hhigh
  · exact .inl ⟨rfl, hlow.le⟩
  · exact .inr ⟨rfl, hhigh.le⟩
  · cases tie with
    | up => exact .inr ⟨rfl, not_lt.mp hlow⟩
    | even =>
        rcases Nat.mod_two_eq_zero_or_one low with heven | hodd
        · exact .inl ⟨by simp only [heven, add_zero], not_lt.mp hhigh⟩
        · exact .inr ⟨by simp only [hodd], not_lt.mp hlow⟩

/-- None of the points that read back on the grid of `d` is nearer to `full`. -/
def NearestTo (f : Finite) (full d : Decimal) : Prop :=
  ∀ c, f.readsFrom ⟨c, d.exponent⟩ = true →
    |d.value - full.value| ≤ |(Decimal.mk c d.exponent).value - full.value|

theorem nearestTo_self (full : Decimal) : NearestTo f full full := by
  intro c _
  rw [sub_self, abs_zero]
  exact abs_nonneg _

/-- The lower neighbour is nearest, unless the upper one reads back and is nearer. -/
theorem nearestTo_below {k : ℕ} (hfull : f.readsFrom full = true)
    (h : f.readsFrom (full.above k) = true →
      2 * (full.coefficient % 10 ^ k) ≤ 10 ^ k) : NearestTo f full (full.below k) := by
  intro c hc
  have hbelow := full.below_value_le k
  rw [abs_of_nonpos (sub_nonpos.mpr hbelow), neg_sub]
  rcases full.value_le_below_or_above_le k c with hle | hle
  · calc
      full.value - (full.below k).value
          ≤ -((Decimal.mk c (full.exponent + k)).value - full.value) := by linarith
      _ ≤ |(Decimal.mk c (full.exponent + k)).value - full.value| := neg_le_abs _
  · have hreads := readsFrom_of_between hfull hc (full.value_le_above k) hle
    have hhalf : 2 * ((full.coefficient % 10 ^ k : ℕ) : ℚ) * 10 ^ full.exponent
        ≤ (10 ^ k : ℕ) * 10 ^ full.exponent :=
      mul_le_mul_of_nonneg_right (by exact_mod_cast h hreads) (ten_zpow_pos _).le
    have hsub := full.value_sub_below k
    have hstep := full.above_sub_below k
    calc
      full.value - (full.below k).value
          ≤ (Decimal.mk c (full.exponent + k)).value - full.value := by linarith
      _ ≤ |(Decimal.mk c (full.exponent + k)).value - full.value| := le_abs_self _

/-- The upper neighbour is nearest, unless the lower one reads back and is nearer. -/
theorem nearestTo_above {k : ℕ} (hfull : f.readsFrom full = true)
    (h : f.readsFrom (full.below k) = true →
      10 ^ k ≤ 2 * (full.coefficient % 10 ^ k)) : NearestTo f full (full.above k) := by
  intro c hc
  have habove := full.value_le_above k
  rw [abs_of_nonneg (sub_nonneg.mpr habove)]
  rcases full.value_le_below_or_above_le k c with hle | hle
  · have hreads := readsFrom_of_between hc hfull hle (full.below_value_le k)
    have hhalf : ((10 ^ k : ℕ) : ℚ) * 10 ^ full.exponent
        ≤ 2 * (full.coefficient % 10 ^ k : ℕ) * 10 ^ full.exponent :=
      mul_le_mul_of_nonneg_right (by exact_mod_cast h hreads) (ten_zpow_pos _).le
    have hsub := full.value_sub_below k
    have hstep := full.above_sub_below k
    calc
      (full.above k).value - full.value
          ≤ -((Decimal.mk c (full.exponent + k)).value - full.value) := by linarith
      _ ≤ |(Decimal.mk c (full.exponent + k)).value - full.value| := neg_le_abs _
  · calc
      (full.above k).value - full.value
          ≤ (Decimal.mk c (full.exponent + k)).value - full.value := by linarith
      _ ≤ |(Decimal.mk c (full.exponent + k)).value - full.value| := le_abs_self _

/-- Which decimal a step of the search takes. -/
theorem firstReading_succ (tie : Tie) (k : ℕ) {below above : Bool}
    (hbelow : f.readsFrom (full.below (k + 1)) = below)
    (habove : f.readsFrom (full.above (k + 1)) = above) :
    firstReading f tie full (k + 1)
      = if below then
          if above then
            ⟨nearer tie (full.coefficient / 10 ^ (k + 1)) (full.coefficient % 10 ^ (k + 1))
              (10 ^ (k + 1)), full.exponent + (k + 1 : ℕ)⟩
          else full.below (k + 1)
        else if above then full.above (k + 1)
        else firstReading f tie full k := by
  have hlow : f.readsFrom
      ⟨full.coefficient / Nat.pow 10 (k + 1), full.exponent + (k + 1)⟩ = below := hbelow
  have hhigh : f.readsFrom
      ⟨full.coefficient / Nat.pow 10 (k + 1) + 1, full.exponent + (k + 1)⟩ = above := habove
  rw [firstReading, hlow, hhigh]
  cases below with
  | true => cases above <;> rfl
  | false => cases above <;> rfl

/-- **One step of the search.** It ends with a neighbour that reads back and is nearest, or neither
of them does and a finer grid is tried. -/
theorem firstReading_succ_cases (hfull : f.readsFrom full = true) (tie : Tie) (k : ℕ) :
    (∃ d, firstReading f tie full (k + 1) = d ∧ (d = full.below (k + 1) ∨ d = full.above (k + 1)) ∧
        f.readsFrom d = true ∧ NearestTo f full d) ∨
      (f.readsFrom (full.below (k + 1)) = false ∧ f.readsFrom (full.above (k + 1)) = false ∧
        firstReading f tie full (k + 1) = firstReading f tie full k) := by
  cases hbelow : f.readsFrom (full.below (k + 1)) with
  | true =>
      cases habove : f.readsFrom (full.above (k + 1)) with
      | true =>
          rw [firstReading_succ tie k hbelow habove]
          rcases nearer_cases tie (full.coefficient / 10 ^ (k + 1))
            (full.coefficient % 10 ^ (k + 1)) (10 ^ (k + 1)) with ⟨heq, hle⟩ | ⟨heq, hle⟩
          · refine .inl ⟨full.below (k + 1), ?_, .inl rfl, hbelow, nearestTo_below hfull fun _ => hle⟩
            rw [heq]
            rfl
          · refine .inl ⟨full.above (k + 1), ?_, .inr rfl, habove, nearestTo_above hfull fun _ => hle⟩
            rw [heq]
            rfl
      | false =>
          refine .inl ⟨full.below (k + 1), firstReading_succ tie k hbelow habove, .inl rfl, hbelow,
            nearestTo_below hfull fun hreads => ?_⟩
          rw [habove] at hreads
          cases hreads
  | false =>
      cases habove : f.readsFrom (full.above (k + 1)) with
      | true =>
          refine .inl ⟨full.above (k + 1), firstReading_succ tie k hbelow habove, .inr rfl, habove,
            nearestTo_above hfull fun hreads => ?_⟩
          rw [hbelow] at hreads
          cases hreads
      | false => exact .inr ⟨rfl, rfl, firstReading_succ tie k hbelow habove⟩

theorem firstReading_reads (hfull : f.readsFrom full = true) (tie : Tie) (k : ℕ) :
    f.readsFrom (firstReading f tie full k) = true ∧
      NearestTo f full (firstReading f tie full k) := by
  induction k with
  | zero => exact ⟨hfull, nearestTo_self full⟩
  | succ k ih =>
      rcases firstReading_succ_cases hfull tie k with ⟨d, hd, _, hreads, hnearest⟩ | ⟨_, _, hd⟩
      · rw [hd]
        exact ⟨hreads, hnearest⟩
      · rw [hd]
        exact ih

/-- The search from the coarsest grid in question ends on the coarsest one that reads back. -/
theorem firstReading_noCoarser (hfull : f.readsFrom full = true) (tie : Tie) {k : ℕ}
    (h : NoCoarser f (full.exponent + k)) : NoCoarser f (firstReading f tie full k).exponent := by
  induction k with
  | zero =>
      rw [Nat.cast_zero, add_zero] at h
      exact h
  | succ k ih =>
      rcases firstReading_succ_cases hfull tie k with ⟨d, hd, hneighbour, _⟩ | ⟨hbelow, habove, hd⟩
      · rw [hd]
        rcases hneighbour with rfl | rfl
        · exact h
        · exact h
      · rw [hd]
        exact ih (noCoarser_of_neighbours hfull hbelow habove)

/-! ## The shortest decimal -/

/-- The first grid that is tried has no point between zero and the exact value, so what it gives is
a power of ten. -/
theorem shortest_one_or_noCoarser (h : f.isZero = false) (tie : Tie) :
    (f.shortest tie).coefficient = 1 ∨ NoCoarser f (f.shortest tie).exponent := by
  have hlength : 0 < f.exact.digits.length := Nat.length_toDigits_pos
  obtain ⟨k, hk⟩ := Nat.exists_eq_succ_of_ne_zero hlength.ne'
  have hlow : f.exact.coefficient / 10 ^ (k + 1) = 0 := by
    rw [Nat.div_eq_of_lt]
    exact (Nat.length_toDigits_le_iff (by norm_num) k.succ_pos).mp hk.le
  unfold shortest
  rw [hk]
  rcases firstReading_succ_cases (readsFrom_exact f) tie k with
    ⟨d, hd, hneighbour, hreads, _⟩ | ⟨hbelow, habove, hd⟩
  · rw [hd]
    rcases hneighbour with rfl | rfl
    · rw [below, hlow, readsFrom_zero h] at hreads
      cases hreads
    · left
      rw [above, hlow]
  · right
    rw [hd]
    exact firstReading_noCoarser (readsFrom_exact f) tie
      (noCoarser_of_neighbours (readsFrom_exact f) hbelow habove)

/-- The decimal `d` has the shortest digits for `f`. -/
structure IsShortestFor (f : Finite) (d : Decimal) : Prop where
  /-- The number is the one nearest to the decimal. -/
  reads : f.readsFrom d = true
  /-- No decimal with fewer digits reads back. -/
  fewest : ∀ other, f.readsFrom other = true → d.digits.length ≤ other.digits.length
  /-- No decimal with the same last place reads back and is nearer. -/
  nearest : ∀ c, f.readsFrom ⟨c, d.exponent⟩ = true →
    |d.value - f.value| ≤ |(Decimal.mk c d.exponent).value - f.value|

theorem shortest_length_le (h : f.isZero = false) (tie : Tie) {d : Decimal}
    (hd : f.readsFrom d = true) : (f.shortest tie).digits.length ≤ d.digits.length := by
  have hlength : 0 < d.digits.length := Nat.length_toDigits_pos
  rcases shortest_one_or_noCoarser h tie with hone | hcoarse
  · have hdigits : (f.shortest tie).digits = ['1'] := by
      rw [Decimal.digits, hone]
      rfl
    rw [hdigits]
    exact hlength
  · by_contra hlonger
    have hreads := (firstReading_reads (readsFrom_exact f) tie f.exact.digits.length).1
    have hpos : 0 < d.coefficient := by
      rw [Nat.pos_iff_ne_zero]
      intro hzero
      have hd' : f.readsFrom ⟨0, d.exponent⟩ = true := by
        rw [← hzero]
        exact hd
      rw [readsFrom_zero h] at hd'
      cases hd'
    have hexponent := hcoarse d hd
    -- a power of ten lies between the two decimals, on a coarser grid
    have hpower : (Decimal.mk 1 ((f.shortest tie).point - 1)).value
        = 10 ^ ((f.shortest tie).point - 1) := by
      rw [Decimal.value, Nat.cast_one, one_mul]
    have hlow : d.value ≤ (Decimal.mk 1 ((f.shortest tie).point - 1)).value := calc
      d.value ≤ 10 ^ d.point := (Decimal.value_bounds hpos).2.le
      _ ≤ 10 ^ ((f.shortest tie).point - 1) := by
        apply zpow_le_zpow_right₀ (by norm_num)
        unfold Decimal.point
        omega
      _ = _ := hpower.symm
    have hhigh : (Decimal.mk 1 ((f.shortest tie).point - 1)).value ≤ (f.shortest tie).value := by
      rw [hpower]
      exact (Decimal.value_bounds (shortest_coefficient_pos h tie)).1
    have hbetween := hcoarse _ (readsFrom_of_between hd hreads hlow hhigh)
    unfold Decimal.point at hbetween
    dsimp only at hbetween
    omega

/-- **The decimal that is found has the shortest digits.** -/
theorem shortest_isShortestFor (h : f.isZero = false) (tie : Tie) :
    IsShortestFor f (f.shortest tie) := by
  obtain ⟨hreads, hnearest⟩ :=
    firstReading_reads (readsFrom_exact f) tie f.exact.digits.length
  refine ⟨hreads, fun other hother => shortest_length_le h tie hother, fun c hc => ?_⟩
  rw [← exact_value f]
  exact hnearest c hc

end Finite

end ModuleAssembly.Number
