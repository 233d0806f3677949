import Mathlib.Algebra.Order.Ring.Defs
import Mathlib.Data.List.Basic
import Mathlib.Tactic.Linarith
import Mathlib.Tactic.Ring

/-!
# Token buckets

A bucket holds up to `capacity` tokens and is refilled at `rate` tokens per unit of time; a request
takes one token or is refused.  `refill` is the level some time later.

What a bucket grants has a description without a level.  A `History` lists the requests so far with
their instants and whether they were granted, and `Affords` says that `amount` tokens fit at `now`:
every window that began with one of these requests has room for them besides what was granted in
it.  The level of a bucket is the largest such amount (`Level`), from a full bucket on
(`level_full`), through a refill at any time (`Level.refill`) and through a request
(`Level.request`).  So a bucket that is refilled lazily, at whatever instants, decides as
`decisions` does, which keeps no level at all.
-/

namespace TokenBucket

variable {K : Type*} [CommRing K] [LinearOrder K]

/-- The level of a bucket when `elapsed` time has passed. -/
def refill (capacity rate level elapsed : K) : K := min (level + elapsed * rate) capacity

/-- The requests so far, the oldest first: when each was made and whether it was granted. -/
abbrev History (K : Type*) := List (K × Bool)

/-- The number of requests that were granted. -/
def grants (h : History K) : ℕ := h.countP Prod.snd

/-- `amount` tokens fit at `now`: into the bucket, and into every window that began with a request
of the history. -/
def Affords (capacity rate : K) : History K → K → K → Prop
  | [], _, amount => amount ≤ capacity
  | (t, granted) :: h, now, amount =>
    grants ((t, granted) :: h) + amount ≤ capacity + rate * (now - t) ∧
      Affords capacity rate h now amount

instance decidableAffords (capacity rate now amount : K) :
    ∀ h : History K, Decidable (Affords capacity rate h now amount)
  | [] => inferInstanceAs (Decidable (amount ≤ capacity))
  | _ :: h =>
    have := decidableAffords capacity rate now amount h
    inferInstanceAs (Decidable (_ ≤ _ ∧ _))

/-- The decisions on requests at the instants `times` after the history `h`: a request is granted if
a token fits. -/
def decisions (capacity rate : K) : History K → List K → History K
  | _, [] => []
  | h, now :: times =>
    let decision := (now, decide (Affords capacity rate h now 1))
    decision :: decisions capacity rate (h ++ [decision]) times

/-- At the instant `last` the history `h` leaves a bucket at `level`: from then on, what fits is what
is below the refilled level. -/
def Level (capacity rate : K) (h : History K) (level last : K) : Prop :=
  ∀ now, last ≤ now → ∀ amount,
    amount ≤ refill capacity rate level (now - last) ↔ Affords capacity rate h now amount

variable {capacity rate : K}

omit [CommRing K] [LinearOrder K] in
@[simp] theorem grants_append (h h' : History K) : grants (h ++ h') = grants h + grants h' :=
  List.countP_append

omit [CommRing K] [LinearOrder K] in
theorem grants_singleton (t : K) (granted : Bool) : grants [(t, granted)] = granted.toNat := by
  cases granted <;> rfl

/-- The windows of a history, by the position of the request that they began with. -/
theorem affords_iff (h : History K) (now amount : K) :
    Affords capacity rate h now amount ↔
      amount ≤ capacity ∧ ∀ j (hj : j < h.length),
        grants (h.drop j) + amount ≤ capacity + rate * (now - (h[j]).1) := by
  induction h with
  | nil => simp [Affords]
  | cons e h ih =>
    obtain ⟨t, granted⟩ := e
    rw [Affords, ih]
    constructor
    · rintro ⟨hfirst, hcap, hrest⟩
      refine ⟨hcap, fun j hj => ?_⟩
      cases j with
      | zero => exact hfirst
      | succ j => exact hrest j (Nat.lt_of_succ_lt_succ hj)
    · rintro ⟨hcap, hall⟩
      refine ⟨hall 0 (Nat.succ_pos _), hcap, fun j hj => ?_⟩
      exact hall (j + 1) (Nat.succ_lt_succ hj)

/-- A bucket has a token exactly if one fits. -/
theorem Level.one_le_iff {h : History K} {level last now : K}
    (hlevel : Level capacity rate h level last) (hnow : last ≤ now) :
    1 ≤ refill capacity rate level (now - last) ↔ Affords capacity rate h now 1 :=
  hlevel now hnow 1

/-- Each decision is whether a token fits after the decisions before it. -/
theorem getElem_decisions (times : List K) : ∀ (h : History K) (i : ℕ)
    (hi : i < (decisions capacity rate h times).length),
    ((decisions capacity rate h times)[i]).2 = true ↔
      Affords capacity rate (h ++ (decisions capacity rate h times).take i)
        ((decisions capacity rate h times)[i]).1 1 := by
  induction times with
  | nil =>
    intro h i hi
    exact absurd hi (Nat.not_lt_zero i)
  | cons now times ih =>
    intro h i hi
    cases i with
    | zero => simp [decisions]
    | succ i =>
      -- the first decision is part of the history that the others are made after
      have hi' : i < (decisions capacity rate
          (h ++ [(now, decide (Affords capacity rate h now 1))]) times).length :=
        Nat.lt_of_succ_lt_succ hi
      have hrest := ih (h ++ [(now, decide (Affords capacity rate h now 1))]) i hi'
      rw [List.append_assoc, List.singleton_append] at hrest
      exact hrest

section Ordered

variable [IsStrictOrderedRing K]

/-- What fits after one more request: what fits into the bucket, and what fitted at that request
less what has been refilled since. -/
theorem affords_concat (h : History K) (t : K) (granted : Bool) (now amount : K) :
    Affords capacity rate (h ++ [(t, granted)]) now amount ↔
      amount ≤ capacity ∧
        Affords capacity rate h t (amount + granted.toNat - rate * (now - t)) := by
  have hlast : grants [(t, granted)] + amount ≤ capacity + rate * (now - t) ↔
      amount + granted.toNat - rate * (now - t) ≤ capacity := by
    rw [grants_singleton]
    constructor <;> intro h <;> linarith
  induction h with
  | nil =>
    simp only [List.nil_append, Affords]
    rw [hlast, and_comm]
  | cons e h ih =>
    obtain ⟨s, g⟩ := e
    -- the window that began at `s` has the request in it
    have hfirst : grants ((s, g) :: (h ++ [(t, granted)])) + amount ≤
          capacity + rate * (now - s) ↔
        grants ((s, g) :: h) + (amount + granted.toNat - rate * (now - t)) ≤
          capacity + rate * (t - s) := by
      rw [← List.cons_append, grants_append, grants_singleton]
      push_cast
      constructor <;> intro h <;> linarith
    exact (and_congr hfirst ih).trans and_left_comm

/-- A refill does not empty the bucket. -/
theorem refill_nonneg (hcapacity : 0 ≤ capacity) (hrate : 0 ≤ rate) {level elapsed : K}
    (hlevel : 0 ≤ level) (helapsed : 0 ≤ elapsed) : 0 ≤ refill capacity rate level elapsed := by
  have hgain : 0 ≤ elapsed * rate := mul_nonneg helapsed hrate
  exact le_min (add_nonneg hlevel hgain) hcapacity

/-- Refilling twice is refilling once. -/
theorem refill_refill (hrate : 0 ≤ rate) (level elapsed : K) {more : K} (hmore : 0 ≤ more) :
    refill capacity rate (refill capacity rate level elapsed) more =
      refill capacity rate level (elapsed + more) := by
  have hgain : 0 ≤ more * rate := mul_nonneg hmore hrate
  unfold refill
  rw [min_add, min_assoc, min_eq_right (le_add_of_nonneg_right hgain), add_mul, add_assoc]

/-- A full bucket is what the empty history leaves. -/
theorem level_full (hrate : 0 ≤ rate) (last : K) : Level capacity rate [] capacity last := by
  intro now hnow amount
  have hgain : 0 ≤ (now - last) * rate := mul_nonneg (sub_nonneg.mpr hnow) hrate
  rw [refill, min_eq_right (le_add_of_nonneg_right hgain)]
  exact Iff.rfl

/-- A refill changes nothing about what fits later. -/
theorem Level.refill (hrate : 0 ≤ rate) {h : History K} {level last now : K}
    (hlevel : Level capacity rate h level last) (hnow : last ≤ now) :
    Level capacity rate h (TokenBucket.refill capacity rate level (now - last)) now := by
  intro later hlater amount
  have htotal : now - last + (later - now) = later - last := by ring
  rw [refill_refill hrate level (now - last) (sub_nonneg.mpr hlater), htotal]
  exact hlevel later (hnow.trans hlater) amount

/-- A request takes its token from the refilled level. -/
theorem Level.request {h : History K} {level last now : K}
    (hlevel : Level capacity rate h level last) (hnow : last ≤ now) (granted : Bool) :
    Level capacity rate (h ++ [(now, granted)])
      (TokenBucket.refill capacity rate level (now - last) - granted.toNat) now := by
  intro later _ amount
  rw [affords_concat, ← hlevel now hnow]
  rw [TokenBucket.refill, le_min_iff, and_comm]
  refine and_congr_right fun _ => ?_
  constructor <;> intro h <;> linarith

end Ordered

end TokenBucket
