import SweGateway.Lib.Rounding

/-!
# Products and quotients of doubles

The double nearest to a ratio of integers, in units of the least positive double, has the exponent
that leaves 53 bits of the ratio, and the ratio in that unit, rounded to the nearest integer and to
the even one of two, for its mantissa (`ofRatio`).  It is at most half a unit away from the ratio
(`ratio_error`).  Products and quotients of doubles are such ratios; there is no result where it
would not be finite.
-/

namespace F64

/-! ### Rounding a ratio -/

/-- `n / d`, rounded to the nearest number, and to the even one of two nearest. -/
def roundDiv (n d : ℕ) : ℕ :=
  let quotient := n / d
  let twice := 2 * (n % d)
  if d < twice ∨ (twice = d ∧ quotient % 2 = 1) then quotient + 1 else quotient

theorem roundDiv_error {n d : ℕ} (hd : 0 < d) :
    2 * n ≤ 2 * (roundDiv n d * d) + d ∧ 2 * (roundDiv n d * d) ≤ 2 * n + d := by
  have hmod : n % d < d := Nat.mod_lt n hd
  have hdiv : n / d * d + n % d = n := by
    rw [mul_comm]
    exact Nat.div_add_mod n d
  unfold roundDiv
  dsimp only
  split
  · next hup =>
    rw [add_mul, one_mul]
    omega
  · next hdown => omega

/-- Rounding does not go past a multiple above. -/
theorem roundDiv_le {n d k : ℕ} (hd : 0 < d) (h : n ≤ k * d) : roundDiv n d ≤ k := by
  obtain ⟨-, herror⟩ := roundDiv_error (n := n) hd
  by_contra hlt
  have hmul : (k + 1) * d ≤ roundDiv n d * d := Nat.mul_le_mul_right d (by omega)
  rw [add_mul, one_mul] at hmul
  omega

/-- Rounding does not go past a multiple below. -/
theorem le_roundDiv {n d k : ℕ} (hd : 0 < d) (h : k * d ≤ n) : k ≤ roundDiv n d := by
  obtain ⟨herror, -⟩ := roundDiv_error (n := n) hd
  by_contra hlt
  have hmul : (roundDiv n d + 1) * d ≤ k * d := Nat.mul_le_mul_right d (by omega)
  rw [add_mul, one_mul] at hmul
  omega

/-! ### The double nearest to a ratio -/

/-- The exponent of the double nearest to `n / d`. -/
def ratioExponent (n d : ℕ) : ℕ := (n / d).log2 - 52

/-- Its mantissa, or `2 ^ 53` where rounding leads to the next exponent. -/
def ratioMantissa (n d : ℕ) : ℕ := roundDiv n (d * 2 ^ ratioExponent n d)

theorem two_pow_lt_mantissa_bound : 2 ^ 52 < 2 ^ 53 := by norm_num

/-- The double nearest to `n / d` units, if it is finite. -/
def ofRatio (negative : Bool) (n d : ℕ) : Option F64 :=
  if h : ratioMantissa n d < 2 ^ 53 ∧ ratioExponent n d ≤ 2045 ∧
      (ratioExponent n d = 0 ∨ 2 ^ 52 ≤ ratioMantissa n d) then
    some {
      negative := negative
      mantissa := ratioMantissa n d
      exponent := ratioExponent n d
      mantissa_lt := h.1
      exponent_le := h.2.1
      normal := h.2.2 }
  else if h : ratioMantissa n d = 2 ^ 53 ∧ ratioExponent n d + 1 ≤ 2045 then
    some {
      negative := negative
      mantissa := 2 ^ 52
      exponent := ratioExponent n d + 1
      mantissa_lt := two_pow_lt_mantissa_bound
      exponent_le := h.2
      normal := .inr le_rfl }
  else none

theorem ratioMantissa_le (n : ℕ) {d : ℕ} (hd : 0 < d) : ratioMantissa n d ≤ 2 ^ 53 := by
  have hunit : 0 < d * 2 ^ ratioExponent n d := Nat.mul_pos hd (Nat.two_pow_pos _)
  refine roundDiv_le hunit (Nat.le_of_lt ?_)
  have hlog : n / d < 2 ^ (53 + ratioExponent n d) :=
    Nat.lt_log2_self.trans_le
      (Nat.pow_le_pow_right (by decide) (by unfold ratioExponent; omega))
  calc n < 2 ^ (53 + ratioExponent n d) * d := (Nat.div_lt_iff_lt_mul hd).mp hlog
    _ = 2 ^ 53 * (d * 2 ^ ratioExponent n d) := by rw [pow_add]; ring

theorem le_ratioMantissa {n d : ℕ} (hd : 0 < d) (h : ratioExponent n d ≠ 0) :
    2 ^ 52 ≤ ratioMantissa n d := by
  have hunit : 0 < d * 2 ^ ratioExponent n d := Nat.mul_pos hd (Nat.two_pow_pos _)
  refine le_roundDiv hunit ?_
  have hexp : 52 + ratioExponent n d = (n / d).log2 := by
    unfold ratioExponent at h ⊢
    omega
  have hne : n / d ≠ 0 := by
    intro hzero
    rw [ratioExponent, hzero] at h
    exact h (by decide)
  have hlog : 2 ^ (52 + ratioExponent n d) ≤ n / d := hexp ▸ Nat.log2_self_le hne
  calc 2 ^ 52 * (d * 2 ^ ratioExponent n d) = 2 ^ (52 + ratioExponent n d) * d := by
        rw [pow_add]; ring
    _ ≤ n := (Nat.le_div_iff_mul_le hd).mp hlog

/-- A ratio whose exponent is not too large has a double. -/
theorem exists_ofRatio (negative : Bool) {n d : ℕ} (hd : 0 < d) (h : ratioExponent n d < 2045) :
    ∃ x, ofRatio negative n d = some x ∧ x.negative = negative ∧
      x.scaled.natAbs = ratioMantissa n d * 2 ^ ratioExponent n d := by
  have hle := ratioMantissa_le n hd
  unfold ofRatio
  rcases hle.lt_or_eq with hlt | heq
  · have hnormal : ratioExponent n d = 0 ∨ 2 ^ 52 ≤ ratioMantissa n d :=
      or_iff_not_imp_left.mpr (le_ratioMantissa hd)
    rw [dif_pos ⟨hlt, h.le, hnormal⟩]
    exact ⟨_, rfl, rfl, natAbs_scaled _⟩
  · rw [dif_neg fun hcond => (heq ▸ hcond.1).false, dif_pos ⟨heq, h⟩]
    have hpow : 2 ^ 52 * 2 ^ (ratioExponent n d + 1) =
        ratioMantissa n d * 2 ^ ratioExponent n d := by
      rw [heq, pow_succ]
      ring
    exact ⟨_, rfl, rfl, (natAbs_scaled _).trans hpow⟩

theorem ratioExponent_le {n d k : ℕ} (h : n / d < 2 ^ (53 + k)) : ratioExponent n d ≤ k := by
  unfold ratioExponent
  by_cases hzero : n / d = 0
  · simp [hzero]
  · have hlog := (Nat.log2_lt hzero).mpr h
    omega

/-- The double is at most half a unit of the ratio's binade away from the ratio. -/
theorem ratio_error {n d k : ℕ} (hd : 0 < d) (h : n / d < 2 ^ (53 + k)) :
    2 * n ≤ 2 * (ratioMantissa n d * 2 ^ ratioExponent n d * d) + d * 2 ^ k ∧
      2 * (ratioMantissa n d * 2 ^ ratioExponent n d * d) ≤ 2 * n + d * 2 ^ k := by
  have hunit : 0 < d * 2 ^ ratioExponent n d := Nat.mul_pos hd (Nat.two_pow_pos _)
  have hle : d * 2 ^ ratioExponent n d ≤ d * 2 ^ k :=
    Nat.mul_le_mul_left d (Nat.pow_le_pow_right (by decide) (ratioExponent_le h))
  obtain ⟨hlow, hhigh⟩ := roundDiv_error (n := n) hunit
  have hcomm : ratioMantissa n d * 2 ^ ratioExponent n d * d =
      roundDiv n (d * 2 ^ ratioExponent n d) * (d * 2 ^ ratioExponent n d) := by
    rw [ratioMantissa]
    ring
  rw [hcomm]
  omega

/-! ### Integers -/

theorem negative_ofInt64 (n : Int64) : (ofInt64 n).negative = decide (n.toInt < 0) := by
  rw [ofInt64]
  split
  · next hzero =>
    have hnot : ¬ n.toInt < 0 := by omega
    rw [decide_eq_false hnot]
    rfl
  · exact negative_ofPos _ _ _

/-- An integer of at most 53 bits is its own double. -/
theorem natAbs_ofInt64 {n : Int64} (h : n.toInt.natAbs < 2 ^ 53) :
    (ofInt64 n).scaled.natAbs = n.toInt.natAbs * 2 ^ leastExponent := by
  have hmagnitude : magnitude n.toInt.natAbs = n.toInt.natAbs := by
    rcases eq_or_ne n.toInt.natAbs 0 with hzero | hne
    · rw [hzero, magnitude_zero]
    · exact magnitude_of_log2_le (Nat.le_of_lt_succ ((Nat.log2_lt hne).mpr h))
  have hnearest : (nearest n.toInt).natAbs = n.toInt.natAbs := by
    rw [nearest, hmagnitude]
    split <;> omega
  have htwo : (2 : ℤ).natAbs = 2 := rfl
  rw [scaled_ofInt64, Int.natAbs_mul, hnearest, Int.natAbs_pow, htwo]

/-! ### Arithmetic -/

/-- `x * y`, if it is finite. -/
def mul (x y : F64) : Option F64 :=
  ofRatio (x.negative != y.negative) (x.scaled.natAbs * y.scaled.natAbs) (2 ^ leastExponent)

/-- `x / y`, if it is finite. -/
def div (x y : F64) : Option F64 :=
  if y.scaled = 0 then none
  else
    ofRatio (x.negative != y.negative) (x.scaled.natAbs * 2 ^ leastExponent) y.scaled.natAbs

/-- A product of less than `2 ^ (53 + k)` units is finite, and at most half of `2 ^ k` units away
from the exact one. -/
theorem exists_mul {x y : F64} {n k : ℕ} (hk : k < 2045)
    (hn : x.scaled.natAbs * y.scaled.natAbs = n * 2 ^ leastExponent) (h : n < 2 ^ (53 + k)) :
    ∃ z, mul x y = some z ∧ z.negative = (x.negative != y.negative) ∧
      2 * n ≤ 2 * z.scaled.natAbs + 2 ^ k ∧ 2 * z.scaled.natAbs ≤ 2 * n + 2 ^ k := by
  have hunit : 0 < 2 ^ leastExponent := Nat.two_pow_pos _
  have hquot : n * 2 ^ leastExponent / 2 ^ leastExponent = n := Nat.mul_div_cancel n hunit
  have hlt : n * 2 ^ leastExponent / 2 ^ leastExponent < 2 ^ (53 + k) := hquot.symm ▸ h
  obtain ⟨z, hz, hneg, habs⟩ := exists_ofRatio (x.negative != y.negative) hunit
    ((ratioExponent_le hlt).trans_lt hk)
  obtain ⟨hlow, hhigh⟩ := ratio_error hunit hlt
  rw [← habs] at hlow hhigh
  refine ⟨z, by rw [mul, hn, hz], hneg, ?_, ?_⟩
  · refine Nat.le_of_mul_le_mul_right ?_ hunit
    linarith only [hlow]
  · refine Nat.le_of_mul_le_mul_right ?_ hunit
    linarith only [hhigh]

/-- A quotient of less than `2 ^ (53 + k)` units is finite, and at most half of `2 ^ k` units away
from the exact one.  The divisor is an integer. -/
theorem exists_div {x y : F64} {m k : ℕ} (hk : k < 2045) (hm : 0 < m)
    (hy : y.scaled.natAbs = m * 2 ^ leastExponent) (h : x.scaled.natAbs < m * 2 ^ (53 + k)) :
    ∃ z, div x y = some z ∧ z.negative = (x.negative != y.negative) ∧
      2 * x.scaled.natAbs ≤ 2 * (z.scaled.natAbs * m) + m * 2 ^ k ∧
      2 * (z.scaled.natAbs * m) ≤ 2 * x.scaled.natAbs + m * 2 ^ k := by
  have hunit : 0 < 2 ^ leastExponent := Nat.two_pow_pos _
  have hpos : 0 < m * 2 ^ leastExponent := Nat.mul_pos hm hunit
  have hne : y.scaled ≠ 0 := by
    rw [← Int.natAbs_ne_zero, hy]
    exact hpos.ne'
  have hquot : x.scaled.natAbs * 2 ^ leastExponent / (m * 2 ^ leastExponent) =
      x.scaled.natAbs / m := Nat.mul_div_mul_right _ _ hunit
  have hlt : x.scaled.natAbs * 2 ^ leastExponent / (m * 2 ^ leastExponent) < 2 ^ (53 + k) := by
    rw [hquot, Nat.div_lt_iff_lt_mul hm, mul_comm]
    exact h
  obtain ⟨z, hz, hneg, habs⟩ := exists_ofRatio (x.negative != y.negative) hpos
    ((ratioExponent_le hlt).trans_lt hk)
  obtain ⟨hlow, hhigh⟩ := ratio_error hpos hlt
  rw [← habs] at hlow hhigh
  refine ⟨z, by rw [div, if_neg hne, hy, hz], hneg, ?_, ?_⟩
  · refine Nat.le_of_mul_le_mul_right ?_ hunit
    linarith only [hlow]
  · refine Nat.le_of_mul_le_mul_right ?_ hunit
    linarith only [hhigh]

/-- `x.round()`: the nearest integer, and the one away from zero of two nearest. -/
def round (x : F64) : ℤ :=
  let magnitude : ℤ := ((2 * x.scaled.natAbs + 2 ^ leastExponent) / (2 * 2 ^ leastExponent) : ℕ)
  if x.negative then -magnitude else magnitude

/-- A double that is less than half away from an integer is rounded to it. -/
theorem round_eq {x : F64} {n : ℕ}
    (hlow : 2 * (n * 2 ^ leastExponent) ≤ 2 * x.scaled.natAbs + 2 ^ leastExponent)
    (hhigh : 2 * x.scaled.natAbs < 2 * (n * 2 ^ leastExponent) + 2 ^ leastExponent) :
    x.round = if x.negative then -(n : ℤ) else n := by
  have hmagnitude :
      (2 * x.scaled.natAbs + 2 ^ leastExponent) / (2 * 2 ^ leastExponent) = n := by
    have hpos : 0 < 2 ^ leastExponent := Nat.two_pow_pos _
    refine Nat.div_eq_of_lt_le ?_ ?_
    · linarith only [hlow]
    · linarith only [hhigh, hpos]
  rw [round, hmagnitude]

/-- An integer `as i64`, if it is the value of a double. -/
def saturate (z : ℤ) : ℤ := max (-2 ^ 63) (min z (2 ^ 63 - 1))

theorem saturate_of_natAbs_lt {z : ℤ} (h : z.natAbs < 2 ^ 63) : saturate z = z := by
  unfold saturate
  omega

end F64
