import SweGateway.Core.Retry
import Mathlib.Order.Basic

/-!
# The exponential backoff

The documentation of `BackoffStrategy::Exponential` says that attempt `n` waits `base * 2^n`.  The
source computes in whole milliseconds of 64 bits: it drops the part of `base` below a millisecond,
casts the milliseconds to 64 bits, which wraps, and saturates from there on.

`BacksOff base attempt` says that the delay is the documented one, and what follows from that: it is
at least `base`, at least the delay of any smaller base and attempt, and jitter at most doubles it.
`backsOff_iff` says for which bases and attempts this is so.
-/

namespace SweGateway.BackoffStrategy

/-- The longest delay that 64 bits of milliseconds hold. -/
def maxDelay : Duration := Duration.ofMillis u64Max

/-- The documented delay, saturating. -/
def documentedDelay (base : Duration) (attempt : ℕ) : Duration := min (base * 2 ^ attempt) maxDelay

/-- The delay before the retry that follows `attempt` is the documented one, with all that follows
from it.  The readings of the clock are arbitrary. -/
structure BacksOff (base : Duration) (attempt : ℕ) : Prop where
  exact (nanos : ℕ) :
    computeDelay nanos attempt (.exponential base false) = documentedDelay base attempt
  base_le (nanos : ℕ) : base ≤ computeDelay nanos attempt (.exponential base false)
  mono (nanos nanos' : ℕ) (base' : Duration) (attempt' : ℕ) (hbase : base' ≤ base)
    (hattempt : attempt' ≤ attempt) :
    computeDelay nanos' attempt' (.exponential base' false) ≤
      computeDelay nanos attempt (.exponential base false)
  jitter (nanos nanos' : ℕ) (hpos : 0 < computeDelay nanos attempt (.exponential base false)) :
    computeDelay nanos attempt (.exponential base false) ≤
        computeDelay nanos' attempt (.exponential base true) ∧
      computeDelay nanos' attempt (.exponential base true) <
        2 * computeDelay nanos attempt (.exponential base false)

/-! ### What the source computes -/

/-- The milliseconds of the delay without jitter. -/
def delayMs (base : Duration) (attempt : ℕ) : ℕ :=
  min (Duration.asMillis base % 2 ^ 64 * min (2 ^ attempt) u64Max) u64Max

theorem computeDelay_plain (nanos attempt : ℕ) (base : Duration) :
    computeDelay nanos attempt (.exponential base false) =
      Duration.ofMillis (delayMs base attempt) :=
  rfl

theorem computeDelay_jitter (nanos attempt : ℕ) (base : Duration) :
    ∃ jitterMs, (0 < delayMs base attempt → jitterMs < delayMs base attempt) ∧
      computeDelay nanos attempt (.exponential base true) =
        Duration.ofMillis (min (delayMs base attempt + jitterMs) u64Max) := by
  refine ⟨if 0 < delayMs base attempt then nanos % delayMs base attempt else 0, fun hpos => ?_, rfl⟩
  rw [if_pos hpos]
  exact Nat.mod_lt nanos hpos

theorem delayMs_le (base : Duration) (attempt : ℕ) : delayMs base attempt ≤ u64Max :=
  min_le_right _ _

theorem ofMillis_le_ofMillis {a b : ℕ} : Duration.ofMillis a ≤ Duration.ofMillis b ↔ a ≤ b :=
  Nat.mul_le_mul_right_iff (by decide)

theorem ofMillis_lt_ofMillis {a b : ℕ} : Duration.ofMillis a < Duration.ofMillis b ↔ a < b :=
  Nat.mul_lt_mul_right (by decide)

theorem ofMillis_asMillis_le (base : Duration) :
    Duration.ofMillis (Duration.asMillis base) ≤ base :=
  Nat.div_mul_le_self base 1000000

theorem ofMillis_asMillis_eq_iff {base : Duration} :
    Duration.ofMillis (Duration.asMillis base) = base ↔ 1000000 ∣ base :=
  (Nat.dvd_iff_div_mul_eq base 1000000).symm

theorem ofMillis_mul (ms k : ℕ) : Duration.ofMillis (ms * k) = Duration.ofMillis ms * k :=
  Nat.mul_right_comm ms k 1000000

theorem ofMillis_min (a b : ℕ) :
    Duration.ofMillis (min a b) = min (Duration.ofMillis a) (Duration.ofMillis b) :=
  (Nat.mul_min_mul_right a b 1000000).symm

/-- The saturated power makes no difference to the saturated product. -/
theorem min_mul_min_two_pow (ms attempt : ℕ) :
    min (ms * min (2 ^ attempt) u64Max) u64Max = min (ms * 2 ^ attempt) u64Max := by
  rcases le_total (2 ^ attempt) u64Max with hle | hge
  · rw [min_eq_left hle]
  · rw [min_eq_right hge]
    rcases Nat.eq_zero_or_pos ms with rfl | hpos
    · simp only [Nat.zero_mul]
    · -- both products saturate
      have hsat : u64Max ≤ ms * u64Max := Nat.le_mul_of_pos_left u64Max hpos
      rw [min_eq_right hsat, min_eq_right (hsat.trans (Nat.mul_le_mul_left ms hge))]

/-- A base that fits is not wrapped. -/
theorem delayMs_eq {base : Duration} (hbase : base ≤ maxDelay) (attempt : ℕ) :
    delayMs base attempt = min (Duration.asMillis base * 2 ^ attempt) u64Max := by
  have hle : Duration.asMillis base ≤ u64Max :=
    ofMillis_le_ofMillis.mp ((ofMillis_asMillis_le base).trans hbase)
  have hlt : Duration.asMillis base < 2 ^ 64 := Nat.lt_of_le_sub_one (Nat.two_pow_pos 64) hle
  rw [delayMs, Nat.mod_eq_of_lt hlt, min_mul_min_two_pow]

/-! ### The documented delay -/

/-- For whole milliseconds, and where the milliseconds saturate, the delay is the documented one. -/
theorem computeDelay_eq_documentedDelay {base : Duration} {attempt : ℕ} (hbase : base ≤ maxDelay)
    (h : 1000000 ∣ base ∨ u64Max ≤ Duration.asMillis base * 2 ^ attempt) (nanos : ℕ) :
    computeDelay nanos attempt (.exponential base false) = documentedDelay base attempt := by
  rw [computeDelay_plain, delayMs_eq hbase, ofMillis_min, documentedDelay, maxDelay]
  rcases h with hdvd | hsat
  · rw [ofMillis_mul, ofMillis_asMillis_eq_iff.mpr hdvd]
  · have hle : Duration.ofMillis u64Max ≤ base * 2 ^ attempt :=
      calc Duration.ofMillis u64Max
          ≤ Duration.ofMillis (Duration.asMillis base * 2 ^ attempt) :=
            ofMillis_le_ofMillis.mpr hsat
        _ = Duration.ofMillis (Duration.asMillis base) * 2 ^ attempt := ofMillis_mul _ _
        _ ≤ base * 2 ^ attempt := Nat.mul_le_mul_right _ (ofMillis_asMillis_le base)
    rw [min_eq_right (ofMillis_le_ofMillis.mpr hsat), min_eq_right hle]

/-- Otherwise what is dropped of the base is missing from the delay. -/
theorem computeDelay_lt_documentedDelay {base : Duration} {attempt : ℕ} (hbase : base ≤ maxDelay)
    (hdvd : ¬ 1000000 ∣ base) (hsat : Duration.asMillis base * 2 ^ attempt < u64Max) (nanos : ℕ) :
    computeDelay nanos attempt (.exponential base false) < documentedDelay base attempt := by
  rw [computeDelay_plain, delayMs_eq hbase, min_eq_left hsat.le, documentedDelay, maxDelay,
    lt_min_iff]
  refine ⟨?_, ofMillis_lt_ofMillis.mpr hsat⟩
  have hlt : Duration.ofMillis (Duration.asMillis base) < base :=
    (ofMillis_asMillis_le base).lt_of_ne (mt ofMillis_asMillis_eq_iff.mp hdvd)
  rw [ofMillis_mul]
  exact Nat.mul_lt_mul_of_pos_right hlt (Nat.two_pow_pos attempt)

/-- **The exponential backoff.** The delay is `base * 2^attempt`, with all that follows from it,
exactly if the base fits 64 bits of milliseconds, and is a whole number of milliseconds or so large
that the delay saturates without the rest. -/
theorem backsOff_iff (base : Duration) (attempt : ℕ) :
    BacksOff base attempt ↔
      base ≤ maxDelay ∧
        (1000000 ∣ base ∨ u64Max ≤ Duration.asMillis base * 2 ^ attempt) := by
  constructor
  · intro h
    have hbase : base ≤ maxDelay :=
      (h.base_le 0).trans (ofMillis_le_ofMillis.mpr (delayMs_le base attempt))
    refine ⟨hbase, ?_⟩
    by_contra hnot
    obtain ⟨hdvd, hsat⟩ := not_or.mp hnot
    exact (computeDelay_lt_documentedDelay hbase hdvd (not_le.mp hsat) 0).ne (h.exact 0)
  · rintro ⟨hbase, h⟩
    have hexact := computeDelay_eq_documentedDelay hbase h
    refine ⟨hexact, fun nanos => ?_, ?_, ?_⟩
    · rw [hexact, documentedDelay, le_min_iff]
      exact ⟨Nat.le_mul_of_pos_right base (Nat.two_pow_pos attempt), hbase⟩
    · intro nanos nanos' base' attempt' hle hattempt
      rw [computeDelay_plain, computeDelay_plain, ofMillis_le_ofMillis, delayMs_eq hbase,
        delayMs_eq (hle.trans hbase)]
      exact min_le_min_right u64Max (Nat.mul_le_mul (Nat.div_le_div_right hle)
        (Nat.pow_le_pow_right (by decide) hattempt))
    · intro nanos nanos' hpos
      obtain ⟨jitterMs, hlt, hjitter⟩ := computeDelay_jitter nanos' attempt base
      rw [computeDelay_plain] at hpos
      have hms : 0 < delayMs base attempt := Nat.pos_of_mul_pos_right hpos
      have hmax := delayMs_le base attempt
      specialize hlt hms
      rw [hjitter, computeDelay_plain, mul_comm 2, ← ofMillis_mul]
      exact ⟨ofMillis_le_ofMillis.mpr (by omega), ofMillis_lt_ofMillis.mpr (by omega)⟩

/-- Half a millisecond is not waited at all. -/
theorem half_millisecond_not_backsOff : ¬ BacksOff 500000 0 := by
  intro h
  have hdelay : computeDelay 0 0 (.exponential 500000 false) = 0 := by decide
  have hexact := h.exact 0
  rw [hdelay] at hexact
  exact absurd hexact (by decide)

end SweGateway.BackoffStrategy
