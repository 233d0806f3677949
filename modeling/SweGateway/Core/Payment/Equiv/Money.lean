import SweGateway.Api.Payment

/-!
# Decimal amounts (`api/payment.rs`)

A decimal amount is a double: a quotient by `100.0` on the way out and a product with `100.0` on the
way in, and each of them rounds.  While the quotient is below `2 ^ 45` both errors together stay
below half a unit, so that the amount comes back (`Money.fromDecimal_toDecimal`); just above it does
not (`Money.fromDecimal_toDecimal_of_large`).
-/

namespace SweGateway

open F64

namespace Money

theorem scaled_hundred : hundred.scaled.natAbs = 100 * 2 ^ leastExponent := by decide +kernel

/-- A product with `100.0` of less than `2 ^ (53 + k)` units. -/
theorem exists_mul_hundred {d : F64} {k : ℕ} (hk : k < 2045)
    (h : d.scaled.natAbs * 100 < 2 ^ (53 + k)) :
    ∃ p, mul d hundred = some p ∧ p.negative = d.negative ∧
      2 * (d.scaled.natAbs * 100) ≤ 2 * p.scaled.natAbs + 2 ^ k ∧
      2 * p.scaled.natAbs ≤ 2 * (d.scaled.natAbs * 100) + 2 ^ k := by
  have hmul : d.scaled.natAbs * hundred.scaled.natAbs =
      d.scaled.natAbs * 100 * 2 ^ leastExponent := by
    rw [scaled_hundred, mul_assoc]
  obtain ⟨p, hp, hneg, hlow, hhigh⟩ := exists_mul hk hmul h
  refine ⟨p, hp, ?_, hlow, hhigh⟩
  rw [hneg]
  exact Bool.xor_false _

/-- The quotient by `100.0` of an amount, in whose binade a unit is `2 ^ k`. -/
theorem exists_toDecimal {m : Money} {k : ℕ} (hk : 8 + k = leastExponent)
    (h : m.amount.natAbs < 100 * 2 ^ 45) :
    ∃ d, m.toDecimal = some d ∧ d.negative = decide (m.amount < 0) ∧
      2 * (m.amount.natAbs * 2 ^ leastExponent) ≤ 2 * (d.scaled.natAbs * 100) + 100 * 2 ^ k ∧
      2 * (d.scaled.natAbs * 100) ≤ 2 * (m.amount.natAbs * 2 ^ leastExponent) + 100 * 2 ^ k := by
  have hint : (Int64.ofInt m.amount).toInt = m.amount :=
    Int64.toInt_ofInt_of_le (by omega) (by omega)
  have hscaled : (ofInt64 (Int64.ofInt m.amount)).scaled.natAbs =
      m.amount.natAbs * 2 ^ leastExponent := by
    rw [natAbs_ofInt64 (by rw [hint]; omega), hint]
  have hlt : m.amount.natAbs * 2 ^ leastExponent < 100 * 2 ^ (53 + k) := by
    have hpow : 2 ^ (53 + k) = 2 ^ 45 * 2 ^ leastExponent := by
      rw [← hk, ← pow_add, ← add_assoc]
    rw [hpow, ← mul_assoc]
    exact Nat.mul_lt_mul_of_pos_right h (Nat.two_pow_pos _)
  rw [← hscaled] at hlt
  have hk' : k < 2045 := by
    unfold leastExponent at hk
    omega
  obtain ⟨d, hd, hneg, hlow, hhigh⟩ := exists_div hk' (by decide) scaled_hundred hlt
  rw [hscaled] at hlow hhigh
  refine ⟨d, hd, ?_, hlow, hhigh⟩
  rw [hneg, negative_ofInt64, hint]
  exact Bool.xor_false _

/-- An amount whose decimal is below `2 ^ 45` is read back from its decimal representation. -/
theorem fromDecimal_toDecimal {m : Money} (h : m.amount.natAbs < 100 * 2 ^ 45) :
    ∃ d, m.toDecimal = some d ∧ fromDecimal d m.currency = m := by
  obtain ⟨k, hk⟩ : ∃ k, 8 + k = leastExponent := ⟨1066, rfl⟩
  obtain ⟨d, hd, hneg, hlow, hhigh⟩ := exists_toDecimal hk h
  have hunit : 2 ^ leastExponent = 256 * 2 ^ k := by
    rw [← hk, pow_add]
    norm_num
  have hhalf : 2 ^ (k + 7) = 128 * 2 ^ k := by
    rw [pow_add, mul_comm]
    norm_num
  have hpos : 0 < 2 ^ k := Nat.two_pow_pos k
  have hprod : d.scaled.natAbs * 100 < 2 ^ (53 + (k + 7)) := by
    have hpow : 2 ^ (53 + (k + 7)) = 128 * (2 ^ 45 * (256 * 2 ^ k)) := by
      rw [pow_add, hhalf]
      ring
    rw [hunit] at hhigh
    have hle : m.amount.natAbs * (256 * 2 ^ k) < 100 * 2 ^ 45 * (256 * 2 ^ k) :=
      Nat.mul_lt_mul_of_pos_right h (by omega)
    rw [hpow]
    omega
  have hk' : k + 7 < 2045 := by
    unfold leastExponent at hk
    omega
  obtain ⟨p, hp, hneg', hlow', hhigh'⟩ := exists_mul_hundred hk' hprod
  -- the quotient's error counts a hundred times, and is still less than half of a unit
  have hround : p.round = if p.negative then -(m.amount.natAbs : ℤ) else m.amount.natAbs :=
    round_eq (by omega) (by omega)
  have hamount : p.round = m.amount := by
    rw [hround, hneg', hneg]
    by_cases hlt : m.amount < 0
    · rw [if_pos (decide_eq_true hlt)]
      omega
    · rw [if_neg (by simpa using hlt)]
      omega
  refine ⟨d, hd, ?_⟩
  rw [fromDecimal, hp]
  dsimp only
  rw [hamount, saturate_of_natAbs_lt (by omega)]

theorem fromDecimal_toDecimal_cents :
    ∃ d, Money.toDecimal ⟨-1999, .eur⟩ = some d ∧ fromDecimal d .eur = ⟨-1999, .eur⟩ :=
  fromDecimal_toDecimal (m := ⟨-1999, .eur⟩) (by decide)

/-- Just above, where the product is half a cent too large, a cent is added. -/
theorem fromDecimal_toDecimal_of_large :
    (Money.toDecimal ⟨3518437208883202, .usd⟩).map (fromDecimal · .usd) =
      some ⟨3518437208883203, .usd⟩ := by
  decide +kernel

end Money

end SweGateway
