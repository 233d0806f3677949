import Mathlib.Data.Nat.Notation
import Mathlib.Tactic.NormNum

/-!
# Finite doubles

A finite double is `mantissa · 2 ^ (exponent - 1074)` with a sign.  The mantissa has 53 bits, and
all of them are used unless the exponent is the least one, so that every number but zero is written
in one way.

Every finite double is an integer multiple of the least positive one, `2 ^ (-1074)`; doubles are
equal and ordered as these multiples are (`scaled`).  In particular the two zeros are equal.
-/

/-- A finite double. -/
structure F64 where
  negative : Bool
  mantissa : ℕ
  exponent : ℕ
  mantissa_lt : mantissa < 2 ^ 53
  exponent_le : exponent ≤ 2045
  normal : exponent = 0 ∨ 2 ^ 52 ≤ mantissa
  deriving DecidableEq, Repr

namespace F64

/-- The number, as a multiple of the least positive double. -/
def scaled (x : F64) : ℤ :=
  let magnitude : ℤ := x.mantissa * 2 ^ x.exponent
  if x.negative then -magnitude else magnitude

/-- Equality of the numbers. -/
instance : BEq F64 := ⟨fun x y => x.scaled == y.scaled⟩

/-- The order of the numbers. -/
instance : Ord F64 := ⟨fun x y => compare x.scaled y.scaled⟩

def zero : F64 where
  negative := false
  mantissa := 0
  exponent := 0
  mantissa_lt := by norm_num
  exponent_le := by norm_num
  normal := .inl rfl

/-- `n / 2 ^ shift`, rounded to the nearest number, and to the even one of two nearest. -/
def roundShift (n shift : ℕ) : ℕ :=
  let quotient := n / 2 ^ shift
  let twice := 2 * (n % 2 ^ shift)
  if 2 ^ shift < twice ∨ (twice = 2 ^ shift ∧ quotient % 2 = 1) then quotient + 1 else quotient

theorem roundShift_bounds {n k shift : ℕ} (hlo : 2 ^ (k + shift) ≤ n)
    (hhi : n < 2 ^ (k + 1 + shift)) :
    2 ^ k ≤ roundShift n shift ∧ roundShift n shift ≤ 2 ^ (k + 1) := by
  have hpos : 0 < 2 ^ shift := Nat.two_pow_pos shift
  have hq : 2 ^ k ≤ n / 2 ^ shift := by
    rw [Nat.le_div_iff_mul_le hpos, ← pow_add]
    exact hlo
  have hq' : n / 2 ^ shift < 2 ^ (k + 1) := by
    rw [Nat.div_lt_iff_lt_mul hpos, ← pow_add]
    exact hhi
  unfold roundShift
  dsimp only
  split_ifs <;> omega

/-- The double nearest to a positive integer of 64 bits. -/
def ofPos (negative : Bool) (n : ℕ) (hpos : n ≠ 0) (hlt : n < 2 ^ 64) : F64 :=
  have hlog := Nat.log2_self_le hpos
  have hlog' := Nat.lt_log2_self (n := n)
  have hle : n.log2 < 64 := (Nat.log2_lt hpos).mpr hlt
  if hexact : n.log2 ≤ 52 then
    { negative := negative
      mantissa := n * 2 ^ (52 - n.log2)
      exponent := 1022 + n.log2
      mantissa_lt := by
        calc n * 2 ^ (52 - n.log2) < 2 ^ (n.log2 + 1) * 2 ^ (52 - n.log2) :=
              Nat.mul_lt_mul_of_pos_right hlog' (Nat.two_pow_pos _)
          _ = 2 ^ 53 := by rw [← pow_add]; congr 1; omega
      exponent_le := by omega
      normal := by
        right
        calc 2 ^ 52 = 2 ^ n.log2 * 2 ^ (52 - n.log2) := by rw [← pow_add]; congr 1; omega
          _ ≤ n * 2 ^ (52 - n.log2) := Nat.mul_le_mul_right _ hlog }
  else
    have hbounds : 2 ^ 52 ≤ roundShift n (n.log2 - 52) ∧ roundShift n (n.log2 - 52) ≤ 2 ^ 53 :=
      roundShift_bounds (by rwa [show 52 + (n.log2 - 52) = n.log2 by omega])
        (by rwa [show 52 + 1 + (n.log2 - 52) = n.log2 + 1 by omega])
    if hcarry : roundShift n (n.log2 - 52) = 2 ^ 53 then
      { negative := negative
        mantissa := 2 ^ 52
        exponent := 1022 + n.log2 + 1
        mantissa_lt := by norm_num
        exponent_le := by omega
        normal := .inr le_rfl }
    else
      { negative := negative
        mantissa := roundShift n (n.log2 - 52)
        exponent := 1022 + n.log2
        mantissa_lt := by omega
        exponent_le := by omega
        normal := .inr hbounds.1 }

/-- The double nearest to an integer, `u64 as f64`. -/
def ofUInt64 (n : UInt64) : F64 :=
  if h : n.toNat = 0 then zero else ofPos false n.toNat h n.toNat_lt

/-- The double nearest to an integer, `i64 as f64`. -/
def ofInt64 (n : Int64) : F64 :=
  if h : n.toInt.natAbs = 0 then zero
  else ofPos (n.toInt < 0) n.toInt.natAbs h (by
    have := n.le_toInt
    have := n.toInt_lt
    omega)

example : (ofUInt64 9007199254740993).mantissa = 2 ^ 52 ∧
    (ofUInt64 9007199254740993).exponent = 1074 + 1 := by
  decide

end F64
