import SweGateway.Core.RateLimit
import SweGateway.Lib.TokenBucket

/-!
# The rate limiter is a token bucket

The limiter keeps a number of tokens and refills it at the instants at which it happens to be called,
by requests and by queries alike.  `isTokenBucket` says that nothing of this shows: a request is
granted exactly if every window that began with an earlier request has room for one more token,
queries change no decision, and the tokens stay between zero and the capacity.

`Bucket l h` is the invariant: `l` is at the level that the history `h` of its requests leaves.  It
is kept by every call that is not made before the last one (`Bucket.tryAcquire`,
`Bucket.availableTokens`), and so a run of calls decides as `TokenBucket.decisions` does
(`acquisitions_eq`).
-/

namespace SweGateway.RateLimiter

open TokenBucket

variable (display : ℚ → String)

/-- The limiter is at the level that the requests `h` leave. -/
structure Bucket (l : RateLimiter) (h : History ℚ) : Prop where
  level : Level (l.capacity.toNat : ℚ) l.refillRate h l.state.tokens l.state.lastRefill
  tokens_nonneg : 0 ≤ l.state.tokens
  tokens_le : l.state.tokens ≤ l.capacity.toNat

/-- The calls come in the order of their instants, none before the last refill. -/
def InOrder (last : Instant) (calls : List RateLimiterCall) : Prop :=
  (last :: calls.map RateLimiterCall.now).Pairwise (· ≤ ·)

/-- The instants of the requests among the calls. -/
def requests (calls : List RateLimiterCall) : List Instant :=
  (calls.filter RateLimiterCall.isTryAcquire).map RateLimiterCall.now

/-- What a request returns. -/
def reply (display : ℚ → String) (l : RateLimiter) (granted : Bool) : GatewayResult Unit :=
  if granted then .ok () else .error (l.rateLimitExceeded display)

/-- The number of requests from the `j`-th up to the `i`-th that were granted, without the latter. -/
def grantsFrom (acquired : List (Instant × GatewayResult Unit)) (j i : ℕ) : ℕ :=
  ((acquired.take i).drop j).countP fun a => a.2 = .ok ()

theorem reply_eq_ok_iff (l : RateLimiter) (granted : Bool) :
    l.reply display granted = .ok () ↔ granted = true := by
  cases granted <;> simp [reply]

theorem refillRate_pos (l : RateLimiter) : 0 < l.refillRate :=
  lt_of_lt_of_le (by norm_num [minRefillRate]) l.minRefillRate_le

theorem inOrder_cons {last : Instant} {call : RateLimiterCall} {calls : List RateLimiterCall}
    (h : InOrder last (call :: calls)) : last ≤ call.now ∧ InOrder call.now calls := by
  unfold InOrder at h
  rw [List.map_cons, List.pairwise_cons] at h
  exact ⟨h.1 call.now List.mem_cons_self, h.2⟩

theorem InOrder.of_prefix {last : Instant} {pre calls : List RateLimiterCall}
    (h : InOrder last calls) (hpre : pre <+: calls) : InOrder last pre := by
  have hsub : (pre.map RateLimiterCall.now).Sublist (calls.map RateLimiterCall.now) :=
    hpre.sublist.map RateLimiterCall.now
  exact List.Pairwise.sublist (hsub.cons_cons last) h

/-! ### One call -/

/-- The limiter refills as a bucket does. -/
theorem tokens_refilled {l : RateLimiter} {now : Instant} (h : l.state.lastRefill ≤ now) :
    (l.refilled now).tokens =
      refill (l.capacity.toNat : ℚ) l.refillRate l.state.tokens (now - l.state.lastRefill) := by
  have helapsed : Instant.secondsSince now l.state.lastRefill = now - l.state.lastRefill :=
    max_eq_right (sub_nonneg.mpr h)
  rw [refilled, helapsed]
  rfl

/-- A request returns whether a token fits. -/
theorem Bucket.fst_tryAcquire {l : RateLimiter} {h : History ℚ} (hl : Bucket l h) {now : Instant}
    (hnow : l.state.lastRefill ≤ now) :
    (l.tryAcquire display now).1 =
      l.reply display (decide (Affords (l.capacity.toNat : ℚ) l.refillRate h now 1)) := by
  have hone := hl.level.one_le_iff hnow
  rw [← tokens_refilled hnow] at hone
  unfold tryAcquire reply
  by_cases hfit : Affords (l.capacity.toNat : ℚ) l.refillRate h now 1
  · simp [hfit, hone.mpr hfit]
  · have hempty : ¬ 1 ≤ (l.refilled now).tokens := fun hle => hfit (hone.mp hle)
    simp [hfit, hempty]

/-- A request leaves the limiter at the level that the history with it leaves. -/
theorem Bucket.tryAcquire {l : RateLimiter} {h : History ℚ} (hl : Bucket l h) {now : Instant}
    (hnow : l.state.lastRefill ≤ now) :
    Bucket (l.tryAcquire display now).2
      (h ++ [(now, decide (Affords (l.capacity.toNat : ℚ) l.refillRate h now 1))]) := by
  -- the limiter takes its token from the refilled level, as the bucket does
  have hone := hl.level.one_le_iff hnow
  have hlevel := hl.level.request hnow
  have hle : (l.refilled now).tokens ≤ l.capacity.toNat := min_le_right _ _
  have hnonneg : 0 ≤ (l.refilled now).tokens := by
    rw [tokens_refilled hnow]
    exact refill_nonneg (Nat.cast_nonneg _) l.refillRate_pos.le hl.tokens_nonneg
      (sub_nonneg.mpr hnow)
  rw [← tokens_refilled hnow] at hone hlevel
  unfold RateLimiter.tryAcquire
  by_cases hfit : Affords (l.capacity.toNat : ℚ) l.refillRate h now 1
  · have htoken : 1 ≤ (l.refilled now).tokens := hone.mpr hfit
    have hlevel' := hlevel true
    simp only [ge_iff_le, htoken, if_true, hfit, decide_true]
    refine ⟨by simpa using hlevel', ?_, ?_⟩
    · exact sub_nonneg.mpr htoken
    · exact (sub_le_self _ zero_le_one).trans hle
  · have hempty : ¬ 1 ≤ (l.refilled now).tokens := fun hle => hfit (hone.mp hle)
    have hlevel' := hlevel false
    simp only [ge_iff_le, hempty, if_false, hfit, decide_false]
    exact ⟨by simpa using hlevel', hnonneg, hle⟩

/-- A query leaves the limiter at the same level, later. -/
theorem Bucket.availableTokens {l : RateLimiter} {h : History ℚ} (hl : Bucket l h) {now : Instant}
    (hnow : l.state.lastRefill ≤ now) : Bucket (l.availableTokens now).2 h := by
  have hlevel := hl.level.refill l.refillRate_pos.le hnow
  have hnonneg : 0 ≤ (l.refilled now).tokens := by
    rw [tokens_refilled hnow]
    exact refill_nonneg (Nat.cast_nonneg _) l.refillRate_pos.le hl.tokens_nonneg
      (sub_nonneg.mpr hnow)
  rw [← tokens_refilled hnow] at hlevel
  exact ⟨hlevel, hnonneg, min_le_right _ _⟩

/-- A new limiter has a full bucket and no history. -/
theorem bucket_build (b : RateLimiterBuilder) (start : Instant) : Bucket (b.build start) [] where
  level := level_full (refillRate_pos (b.build start)).le start
  tokens_nonneg := Nat.cast_nonneg _
  tokens_le := le_rfl

/-- Calls change nothing but the state, and note their instant. -/
theorem step_eq (l : RateLimiter) (call : RateLimiterCall) :
    (l.step display call).capacity = l.capacity ∧
      (l.step display call).refillRate = l.refillRate ∧
      (l.step display call).state.lastRefill = call.now := by
  cases call with
  | tryAcquire now =>
    unfold step RateLimiter.tryAcquire
    dsimp only
    split_ifs <;> exact ⟨rfl, rfl, rfl⟩
  | availableTokens now => exact ⟨rfl, rfl, rfl⟩

/-! ### Runs -/

theorem capacity_after (l : RateLimiter) (calls : List RateLimiterCall) :
    (l.after display calls).capacity = l.capacity := by
  induction calls generalizing l with
  | nil => rfl
  | cons call calls ih => exact (ih (l.step display call)).trans (step_eq display l call).1

/-- **The run lemma.** The tokens stay between zero and the capacity. -/
theorem exists_bucket_after {calls : List RateLimiterCall} : ∀ {l : RateLimiter} {h : History ℚ},
    Bucket l h → InOrder l.state.lastRefill calls → ∃ h', Bucket (l.after display calls) h' := by
  induction calls with
  | nil =>
    intro l h hl _
    exact ⟨h, hl⟩
  | cons call calls ih =>
    intro l h hl horder
    obtain ⟨hnow, hrest⟩ := inOrder_cons horder
    have hlast : (l.step display call).state.lastRefill = call.now := (step_eq display l call).2.2
    rw [← hlast] at hrest
    cases call with
    | tryAcquire now => exact ih (hl.tryAcquire display hnow) hrest
    | availableTokens now => exact ih (hl.availableTokens hnow) hrest

/-- **Refinement.** A run decides as the bucket without a level does. -/
theorem acquisitions_eq {calls : List RateLimiterCall} : ∀ {l : RateLimiter} {h : History ℚ},
    Bucket l h → InOrder l.state.lastRefill calls →
    l.acquisitions display calls =
      (decisions (l.capacity.toNat : ℚ) l.refillRate h (requests calls)).map
        fun d => (d.1, l.reply display d.2) := by
  induction calls with
  | nil =>
    intro l h _ _
    rfl
  | cons call calls ih =>
    intro l h hl horder
    obtain ⟨hnow, hrest⟩ := inOrder_cons horder
    obtain ⟨hcapacity, hrate, hlast⟩ := step_eq display l call
    rw [← hlast] at hrest
    -- an error names the capacity and the rate, which no call changes
    have hreply : (l.step display call).reply display = l.reply display := by
      funext granted
      simp only [reply, rateLimitExceeded, hcapacity, hrate]
    cases call with
    | tryAcquire now =>
      have hnow' : l.state.lastRefill ≤ now := hnow
      have htail := ih (hl.tryAcquire display hnow') hrest
      change (l.tryAcquire display now).2.capacity = _ at hcapacity
      change (l.tryAcquire display now).2.refillRate = _ at hrate
      change (l.tryAcquire display now).2.reply display = _ at hreply
      rw [hcapacity, hrate, hreply] at htail
      rw [acquisitions, htail, hl.fst_tryAcquire display hnow']
      rfl
    | availableTokens now => exact ih (hl.availableTokens hnow) hrest

/-- The grants of a run, counted in its decisions. -/
theorem grantsFrom_map (l : RateLimiter) (h : History ℚ) (j i : ℕ) :
    grantsFrom (h.map fun d => (d.1, l.reply display d.2)) j i = grants ((h.take i).drop j) := by
  unfold grantsFrom grants
  rw [← List.map_take, ← List.map_drop, List.countP_map]
  refine List.countP_congr fun d _ => ?_
  simp [reply_eq_ok_iff]

/-- **The rate limiter is exactly a token bucket.** In every run of calls in the order of their
instants, the `i`-th request is granted if and only if for every `j ≤ i` the grants from the `j`-th
request on and one more are at most the capacity and what the time since then refills.  The tokens
are between zero and the capacity throughout, and the queries among the calls change nothing. -/
theorem isTokenBucket (b : RateLimiterBuilder) (start : Instant) (calls : List RateLimiterCall)
    (horder : InOrder start calls) :
    (∀ i (hi : i < ((b.build start).acquisitions display calls).length),
      (((b.build start).acquisitions display calls)[i]).2 = .ok () ↔
        ∀ j (hj : j ≤ i),
          (grantsFrom ((b.build start).acquisitions display calls) j i : ℚ) + 1 ≤
            b.capacity.toNat + b.refillRate *
              ((((b.build start).acquisitions display calls)[i]).1 -
                (((b.build start).acquisitions display calls)[j]).1)) ∧
    (∀ pre, pre <+: calls →
      0 ≤ ((b.build start).after display pre).state.tokens ∧
        ((b.build start).after display pre).state.tokens ≤ b.capacity.toNat) ∧
    (∀ calls', InOrder start calls' →
      calls'.filter RateLimiterCall.isTryAcquire = calls.filter RateLimiterCall.isTryAcquire →
        (b.build start).acquisitions display calls' =
          (b.build start).acquisitions display calls) := by
  have hfull : Bucket (b.build start) [] := bucket_build b start
  have heq := acquisitions_eq display hfull horder
  refine ⟨fun i hi => ?_, fun pre hpre => ?_, fun calls' horder' hrequests => ?_⟩
  · have hcapacity : (b.build start).capacity = b.capacity := rfl
    simp only [heq, grantsFrom_map, List.getElem_map, reply_eq_ok_iff]
    rw [heq, List.length_map] at hi
    rw [getElem_decisions (requests calls) [] i hi, List.nil_append, affords_iff]
    have hlen : ((decisions (↑(b.build start).capacity.toNat) (b.build start).refillRate []
        (requests calls)).take i).length = i := by
      rw [List.length_take]
      omega
    constructor
    · rintro ⟨hcap, hwindows⟩ j hj
      rcases Nat.lt_or_eq_of_le hj with hlt | rfl
      · have hwindow := hwindows j (by omega)
        rw [List.getElem_take] at hwindow
        exact hwindow
      · -- the window that begins with the request itself
        rw [List.drop_eq_nil_of_le hlen.le, sub_self, mul_zero, add_zero]
        simpa [grants, hcapacity] using hcap
    · intro hall
      refine ⟨Nat.one_le_cast.mpr b.one_le_capacity, fun j hj => ?_⟩
      rw [List.getElem_take]
      exact hall j (by omega)
  · obtain ⟨h, hbucket⟩ := exists_bucket_after display hfull (horder.of_prefix hpre)
    have hcapacity : ((b.build start).after display pre).capacity = b.capacity :=
      capacity_after display (b.build start) pre
    rw [← hcapacity]
    exact ⟨hbucket.tokens_nonneg, hbucket.tokens_le⟩
  · have hsame : requests calls' = requests calls := by
      unfold requests
      rw [hrequests]
    rw [acquisitions_eq display hfull horder', hsame, heq]

/-- A query between requests, of a bucket that holds one token and gets two a second. -/
theorem isTokenBucket_query :
    (((RateLimiterBuilder.new.withCapacity 1).withRefillRate 2).build 0).acquisitions
        (fun _ => "2") [.tryAcquire 0, .availableTokens (1 / 4), .tryAcquire (1 / 2)] =
      (((RateLimiterBuilder.new.withCapacity 1).withRefillRate 2).build 0).acquisitions
        (fun _ => "2") [.tryAcquire 0, .tryAcquire (1 / 2)] := by
  have horder : InOrder 0 [.tryAcquire 0, .tryAcquire (1 / 2)] := by
    norm_num [InOrder, RateLimiterCall.now]
  have horder' : InOrder 0 [.tryAcquire 0, .availableTokens (1 / 4), .tryAcquire (1 / 2)] := by
    norm_num [InOrder, RateLimiterCall.now]
  exact (isTokenBucket _ _ 0 _ horder).2.2 _ horder' rfl

end SweGateway.RateLimiter
