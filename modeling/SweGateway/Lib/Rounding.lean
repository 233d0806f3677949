import Mathlib.Tactic.Linarith
import Mathlib.Tactic.Ring
import SweGateway.Lib.F64

/-!
# Integers as doubles

An integer of 64 bits becomes the double that is nearest to it.  `F64.nearest` is what this makes of
the integer (`scaled_ofUInt64`, `scaled_ofInt64`), for all integers: those of more than 53 bits are
rounded to a multiple of a power of two.

Rounding keeps the order, also between an integer and a double: from one binade to the next because
both roundings stay in theirs (`magnitude_mono`), and against a double because no double is skipped
(`magnitude_mul_le`, `le_magnitude_mul`).
-/

namespace F64

/-! ### Shifting -/

theorem roundShift_zero (n : ℕ) : roundShift n 0 = n := by
  simp [roundShift, Nat.mod_one]

/-- Rounding does not go past a multiple above. -/
theorem roundShift_le {n k shift : ℕ} (h : n ≤ k * 2 ^ shift) : roundShift n shift ≤ k := by
  have hpos : 0 < 2 ^ shift := Nat.two_pow_pos shift
  have hmod := Nat.div_add_mod n (2 ^ shift)
  have hq : n / 2 ^ shift ≤ k := Nat.div_le_of_le_mul (by rwa [mul_comm])
  rcases hq.lt_or_eq with hlt | heq
  · unfold roundShift
    dsimp only
    split <;> omega
  · -- then `n` is the multiple itself
    have hrest : n % 2 ^ shift = 0 := by
      rw [heq, mul_comm] at hmod
      omega
    rw [roundShift, hrest, heq]
    split <;> omega

/-- Rounding does not go past a multiple below. -/
theorem le_roundShift {n k shift : ℕ} (h : k * 2 ^ shift ≤ n) : k ≤ roundShift n shift := by
  have hq : k ≤ n / 2 ^ shift := (Nat.le_div_iff_mul_le (Nat.two_pow_pos shift)).mpr h
  unfold roundShift
  dsimp only
  split <;> omega

theorem roundShift_mono {n m : ℕ} (h : n ≤ m) (shift : ℕ) :
    roundShift n shift ≤ roundShift m shift := by
  have hq : n / 2 ^ shift ≤ m / 2 ^ shift := Nat.div_le_div_right h
  have hn := Nat.div_add_mod n (2 ^ shift)
  have hm := Nat.div_add_mod m (2 ^ shift)
  unfold roundShift
  dsimp only
  rcases hq.lt_or_eq with hlt | heq
  · split_ifs <;> omega
  · rw [heq] at hn ⊢
    split_ifs <;> omega

/-! ### Magnitudes -/

/-- What becomes of a positive integer. -/
def magnitude (n : ℕ) : ℕ := roundShift n (n.log2 - 52) * 2 ^ (n.log2 - 52)

theorem magnitude_of_log2_le {n : ℕ} (h : n.log2 ≤ 52) : magnitude n = n := by
  rw [magnitude, Nat.sub_eq_zero_of_le h, roundShift_zero, pow_zero, mul_one]

theorem magnitude_zero : magnitude 0 = 0 := magnitude_of_log2_le (by decide)

/-- An integer and what becomes of it are in the same binade, but for the upper end. -/
theorem magnitude_bounds {n : ℕ} (hpos : n ≠ 0) :
    2 ^ n.log2 ≤ magnitude n ∧ magnitude n ≤ 2 ^ (n.log2 + 1) := by
  have hlo : 2 ^ n.log2 ≤ n := Nat.log2_self_le hpos
  have hhi : n < 2 ^ (n.log2 + 1) := Nat.lt_log2_self
  rcases le_or_gt n.log2 52 with hle | hgt
  · rw [magnitude_of_log2_le hle]
    exact ⟨hlo, hhi.le⟩
  · have hexp : 52 + (n.log2 - 52) = n.log2 := by omega
    have hexp' : 52 + 1 + (n.log2 - 52) = n.log2 + 1 := by omega
    obtain ⟨hlo', hhi'⟩ : 2 ^ 52 ≤ roundShift n (n.log2 - 52) ∧
        roundShift n (n.log2 - 52) ≤ 2 ^ (52 + 1) :=
      roundShift_bounds (by rwa [hexp]) (by rwa [hexp'])
    constructor
    · calc 2 ^ n.log2 = 2 ^ 52 * 2 ^ (n.log2 - 52) := by rw [← pow_add, hexp]
        _ ≤ magnitude n := Nat.mul_le_mul_right _ hlo'
    · calc magnitude n ≤ 2 ^ (52 + 1) * 2 ^ (n.log2 - 52) := Nat.mul_le_mul_right _ hhi'
        _ = 2 ^ (n.log2 + 1) := by rw [← pow_add, hexp']

theorem magnitude_mono {n m : ℕ} (h : n ≤ m) : magnitude n ≤ magnitude m := by
  rcases Nat.eq_zero_or_pos n with rfl | hn
  · rw [magnitude_zero]
    exact Nat.zero_le _
  have hm : m ≠ 0 := (hn.trans_le h).ne'
  have hlog : n.log2 ≤ m.log2 := (Nat.le_log2 hm).mpr ((Nat.log2_self_le hn.ne').trans h)
  rcases hlog.lt_or_eq with hlt | heq
  · calc magnitude n ≤ 2 ^ (n.log2 + 1) := (magnitude_bounds hn.ne').2
      _ ≤ 2 ^ m.log2 := Nat.pow_le_pow_right (by decide) hlt
      _ ≤ magnitude m := (magnitude_bounds hm).1
  · rw [magnitude, magnitude, heq]
    exact Nat.mul_le_mul_right _ (roundShift_mono h _)

/-- A double above an integer is above what becomes of it.  The double is `m * 2 ^ x` in units of
`2 ^ (-c)`. -/
theorem magnitude_mul_le {n m x c : ℕ} (hm : m < 2 ^ 53) (h : n * 2 ^ c ≤ m * 2 ^ x) :
    magnitude n * 2 ^ c ≤ m * 2 ^ x := by
  rcases le_or_gt n.log2 52 with hle | hgt
  · rwa [magnitude_of_log2_le hle]
  have hn : n ≠ 0 := by
    rintro rfl
    exact absurd hgt (by decide)
  -- the exponent of the double is so large that it is a multiple of the unit of the rounding
  have hexp : n.log2 - 52 + c ≤ x := by
    have hlt : 2 ^ (n.log2 + c) < 2 ^ (53 + x) :=
      calc 2 ^ (n.log2 + c) = 2 ^ n.log2 * 2 ^ c := pow_add _ _ _
        _ ≤ n * 2 ^ c := Nat.mul_le_mul_right _ (Nat.log2_self_le hn)
        _ ≤ m * 2 ^ x := h
        _ < 2 ^ 53 * 2 ^ x := Nat.mul_lt_mul_of_pos_right hm (Nat.two_pow_pos x)
        _ = 2 ^ (53 + x) := (pow_add _ _ _).symm
    have hlt' := (Nat.pow_lt_pow_iff_right (by decide)).mp hlt
    omega
  obtain ⟨d, rfl⟩ := Nat.exists_eq_add_of_le hexp
  have hmul : m * 2 ^ (n.log2 - 52 + c + d) = m * 2 ^ d * 2 ^ (n.log2 - 52) * 2 ^ c := by
    rw [pow_add, pow_add]
    ring
  rw [hmul] at h ⊢
  have hle : n ≤ m * 2 ^ d * 2 ^ (n.log2 - 52) := Nat.le_of_mul_le_mul_right h (Nat.two_pow_pos c)
  exact Nat.mul_le_mul_right _ (Nat.mul_le_mul_right _ (roundShift_le hle))

/-- A double below an integer is below what becomes of it. -/
theorem le_magnitude_mul {n m x c : ℕ} (hm : m < 2 ^ 53) (h : m * 2 ^ x ≤ n * 2 ^ c) :
    m * 2 ^ x ≤ magnitude n * 2 ^ c := by
  rcases le_or_gt n.log2 52 with hle | hgt
  · rwa [magnitude_of_log2_le hle]
  have hn : n ≠ 0 := by
    rintro rfl
    exact absurd hgt (by decide)
  rcases le_or_gt (n.log2 - 52 + c) x with hexp | hexp
  · -- the double is a multiple of the unit of the rounding
    obtain ⟨d, rfl⟩ := Nat.exists_eq_add_of_le hexp
    have hmul : m * 2 ^ (n.log2 - 52 + c + d) = m * 2 ^ d * 2 ^ (n.log2 - 52) * 2 ^ c := by
      rw [pow_add, pow_add]
      ring
    rw [hmul] at h ⊢
    have hle : m * 2 ^ d * 2 ^ (n.log2 - 52) ≤ n := Nat.le_of_mul_le_mul_right h (Nat.two_pow_pos c)
    exact Nat.mul_le_mul_right _ (Nat.mul_le_mul_right _ (le_roundShift hle))
  · -- the double is in a lower binade
    calc m * 2 ^ x ≤ 2 ^ 53 * 2 ^ x := Nat.mul_le_mul_right _ hm.le
      _ = 2 ^ (53 + x) := (pow_add _ _ _).symm
      _ ≤ 2 ^ (n.log2 + c) := Nat.pow_le_pow_right (by decide) (by omega)
      _ = 2 ^ n.log2 * 2 ^ c := pow_add _ _ _
      _ ≤ magnitude n * 2 ^ c := Nat.mul_le_mul_right _ (magnitude_bounds hn).1

/-! ### Integers -/

/-- What becomes of an integer. -/
def nearest (z : ℤ) : ℤ := if z < 0 then -(magnitude z.natAbs : ℤ) else magnitude z.natAbs

theorem nearest_natCast (n : ℕ) : nearest n = magnitude n :=
  if_neg (Int.not_lt.mpr (Int.natCast_nonneg n))

theorem nearest_neg (z : ℤ) : nearest (-z) = -nearest z := by
  rcases lt_trichotomy z 0 with hlt | rfl | hgt
  · rw [nearest, nearest, if_pos hlt, if_neg (by omega), Int.natAbs_neg, neg_neg]
  · decide
  · rw [nearest, nearest, if_pos (by omega), if_neg (by omega), Int.natAbs_neg]

theorem nearest_mono {z w : ℤ} (h : z ≤ w) : nearest z ≤ nearest w := by
  unfold nearest
  split
  · next hz =>
    split
    · next hw =>
      -- both are negative, and the magnitudes are the other way round
      have hle : magnitude w.natAbs ≤ magnitude z.natAbs := magnitude_mono (by omega)
      omega
    · omega
  · next hz =>
    rw [if_neg (by omega)]
    have hle : magnitude z.natAbs ≤ magnitude w.natAbs := magnitude_mono (by omega)
    omega

/-- A double above an integer is above what becomes of it. -/
theorem nearest_mul_le {z d : ℤ} {m x c : ℕ} (hm : m < 2 ^ 53) (hd : d.natAbs = m * 2 ^ x)
    (h : z * 2 ^ c ≤ d) : nearest z * 2 ^ c ≤ d := by
  have hc : (0 : ℤ) ≤ 2 ^ c := by positivity
  obtain ⟨n, rfl | rfl⟩ := z.eq_nat_or_neg
  · have hd0 : d = (m * 2 ^ x : ℕ) := by
      rw [← hd]
      exact Int.eq_natAbs_of_nonneg ((mul_nonneg (Int.natCast_nonneg n) hc).trans h)
    rw [nearest_natCast]
    rw [hd0] at h ⊢
    exact_mod_cast magnitude_mul_le hm (by exact_mod_cast h)
  · rw [nearest_neg, nearest_natCast, neg_mul]
    rw [neg_mul] at h
    rcases d.natAbs_eq with hpos | hneg
    · have hle : (0 : ℤ) ≤ magnitude n * 2 ^ c := mul_nonneg (Int.natCast_nonneg _) hc
      omega
    · rw [hneg, hd] at h ⊢
      have hle : m * 2 ^ x ≤ n * 2 ^ c := by exact_mod_cast neg_le_neg_iff.mp h
      exact neg_le_neg (by exact_mod_cast le_magnitude_mul hm hle)

theorem le_nearest_mul {z d : ℤ} {m x c : ℕ} (hm : m < 2 ^ 53) (hd : d.natAbs = m * 2 ^ x)
    (h : d ≤ z * 2 ^ c) : d ≤ nearest z * 2 ^ c := by
  have hneg : nearest (-z) * 2 ^ c ≤ -d := by
    refine nearest_mul_le hm (by rw [Int.natAbs_neg, hd]) ?_
    rw [neg_mul]
    exact neg_le_neg h
  rw [nearest_neg, neg_mul] at hneg
  exact neg_le_neg_iff.mp hneg

/-! ### Doubles -/

theorem natAbs_scaled (x : F64) : x.scaled.natAbs = x.mantissa * 2 ^ x.exponent := by
  unfold scaled
  dsimp only
  split
  · rw [Int.natAbs_neg]
    exact_mod_cast Int.natAbs_natCast _
  · exact_mod_cast Int.natAbs_natCast _

/-- The least positive double is `2 ^ (-leastExponent)`. -/
def leastExponent : ℕ := 1074

theorem exponent_eq {n : ℕ} (h : 52 ≤ n.log2) :
    1022 + n.log2 = n.log2 - 52 + leastExponent := by
  unfold leastExponent
  omega

theorem mantissa_ofPos (negative : Bool) {n : ℕ} (hpos : n ≠ 0) (hlt : n < 2 ^ 64) :
    (ofPos negative n hpos hlt).mantissa * 2 ^ (ofPos negative n hpos hlt).exponent =
      magnitude n * 2 ^ leastExponent := by
  unfold ofPos
  dsimp only
  split
  · next hle =>
    have hexp : 52 - n.log2 + (1022 + n.log2) = leastExponent := by
      unfold leastExponent
      omega
    dsimp only
    rw [magnitude_of_log2_le hle, mul_assoc, ← pow_add, hexp]
  · next hgt =>
    have hexp := exponent_eq (n := n) (by omega)
    split
    · next hcarry =>
      have hcarry' : 52 + (n.log2 - 52 + leastExponent + 1) =
          53 + (n.log2 - 52) + leastExponent := by omega
      dsimp only
      rw [magnitude, hcarry, hexp, ← pow_add, ← pow_add, ← pow_add, hcarry']
    · dsimp only
      rw [magnitude, mul_assoc, ← pow_add, hexp]

theorem negative_ofPos (negative : Bool) {n : ℕ} (hpos : n ≠ 0) (hlt : n < 2 ^ 64) :
    (ofPos negative n hpos hlt).negative = negative := by
  unfold ofPos
  dsimp only
  split
  · rfl
  · split <;> rfl

theorem scaled_ofPos (negative : Bool) {n : ℕ} (hpos : n ≠ 0) (hlt : n < 2 ^ 64) :
    (ofPos negative n hpos hlt).scaled =
      (if negative then -(magnitude n : ℤ) else (magnitude n : ℤ)) * 2 ^ leastExponent := by
  have hvalue : ((ofPos negative n hpos hlt).mantissa : ℤ) *
      2 ^ (ofPos negative n hpos hlt).exponent = magnitude n * 2 ^ leastExponent := by
    exact_mod_cast mantissa_ofPos negative hpos hlt
  rw [scaled, negative_ofPos, hvalue]
  split
  · rw [neg_mul]
  · rfl

theorem scaled_zero : zero.scaled = 0 := by decide

/-- An unsigned integer as a double. -/
theorem scaled_ofUInt64 (n : UInt64) :
    (ofUInt64 n).scaled = nearest n.toNat * 2 ^ leastExponent := by
  rw [nearest_natCast, ofUInt64]
  split
  · next hzero => rw [hzero, magnitude_zero, scaled_zero, Nat.cast_zero, zero_mul]
  · rw [scaled_ofPos, if_neg Bool.false_ne_true]

/-- A signed integer as a double. -/
theorem scaled_ofInt64 (n : Int64) :
    (ofInt64 n).scaled = nearest n.toInt * 2 ^ leastExponent := by
  rw [ofInt64]
  split
  · next hzero =>
    have hnearest : nearest n.toInt = 0 := by
      rw [Int.natAbs_eq_zero.mp hzero]
      decide
    rw [hnearest, scaled_zero, zero_mul]
  · rw [scaled_ofPos, nearest]
    by_cases hneg : n.toInt < 0
    · rw [if_pos hneg, if_pos (decide_eq_true hneg)]
    · rw [if_neg hneg, if_neg (by simpa using hneg)]

/-- Rounding an integer does not take it past a double above. -/
theorem nearest_le_scaled {z : ℤ} {x : F64} (h : z * 2 ^ leastExponent ≤ x.scaled) :
    nearest z * 2 ^ leastExponent ≤ x.scaled :=
  nearest_mul_le x.mantissa_lt (natAbs_scaled x) h

/-- Rounding an integer does not take it past a double below. -/
theorem scaled_le_nearest {z : ℤ} {x : F64} (h : x.scaled ≤ z * 2 ^ leastExponent) :
    x.scaled ≤ nearest z * 2 ^ leastExponent :=
  le_nearest_mul x.mantissa_lt (natAbs_scaled x) h

end F64
