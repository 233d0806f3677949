import SweGateway.Core.Equiv.RateLimit
import SweGateway.Core.Equiv.Serving

/-!
# A pipeline behind a rate limiter

However many executions a pipeline serves at once and however their stages are interleaved, the
router is called no more often than the limiter among its pre-middleware allows: of the executions
that had not passed the limiter at some point of the run, no more than the capacity and what the
time since then refills have called the router (`dispatched_le`).  The limiter may be shared with
anything else, which only makes it stricter.  The bound is that of the exact model: in doubles the
tokens may be rounded up to one that is not quite there.

The argument weighs what is still to come against what has happened: an execution that passes the
limiter takes a token from `available`, and `available` grows by no more than the rate
(`Admitted.spent`).
-/

namespace SweGateway

open TokenBucket

namespace RateLimiter

/-- The tokens at the instant `now`, with those refilled since the last call. -/
def available (l : RateLimiter) (now : Instant) : ℚ := (l.refilled now).tokens

/-- The limiter has been called last before `now`, and holds no more than its capacity. -/
structure InBounds (l : RateLimiter) (now : Instant) : Prop where
  lastRefill_le : l.state.lastRefill ≤ now
  tokens_nonneg : 0 ≤ l.state.tokens
  tokens_le : l.state.tokens ≤ l.capacity.toNat

theorem InBounds.later {l : RateLimiter} {now later : Instant} (h : l.InBounds now)
    (hlater : now ≤ later) : l.InBounds later :=
  ⟨h.lastRefill_le.trans hlater, h.tokens_nonneg, h.tokens_le⟩

theorem InBounds.available_nonneg {l : RateLimiter} {now : Instant} (h : l.InBounds now) :
    0 ≤ l.available now := by
  rw [available, tokens_refilled h.lastRefill_le]
  exact refill_nonneg (Nat.cast_nonneg _) l.refillRate_pos.le h.tokens_nonneg
    (sub_nonneg.mpr h.lastRefill_le)

theorem available_le_capacity (l : RateLimiter) (now : Instant) :
    l.available now ≤ l.capacity.toNat :=
  min_le_right _ _

/-- As time goes by, the tokens grow by no more than the rate. -/
theorem available_later {l : RateLimiter} {now later : Instant} (h : l.InBounds now)
    (hlater : now ≤ later) :
    l.available later ≤ l.available now + l.refillRate * (later - now) := by
  have hgain : 0 ≤ (later - now) * l.refillRate :=
    mul_nonneg (sub_nonneg.mpr hlater) l.refillRate_pos.le
  have hsum : later - l.state.lastRefill = now - l.state.lastRefill + (later - now) := by ring
  rw [available, available, tokens_refilled (h.lastRefill_le.trans hlater),
    tokens_refilled h.lastRefill_le, hsum,
    ← refill_refill l.refillRate_pos.le _ _ (sub_nonneg.mpr hlater)]
  refine (min_le_left _ _).trans (le_of_eq ?_)
  ring

/-- The tokens right after a call are those that it left. -/
theorem available_of_state {l : RateLimiter} {now : Instant} (hlast : l.state.lastRefill = now)
    (hle : l.state.tokens ≤ l.capacity.toNat) : l.available now = l.state.tokens := by
  rw [available, tokens_refilled hlast.le, hlast, sub_self, refill, zero_mul, add_zero,
    min_eq_left hle]

variable (display : ℚ → String)

theorem tryAcquire_same (l : RateLimiter) (now : Instant) :
    (l.tryAcquire display now).2.capacity = l.capacity ∧
      (l.tryAcquire display now).2.refillRate = l.refillRate ∧
      (l.tryAcquire display now).2.state.lastRefill = now :=
  step_eq display l (.tryAcquire now)

/-- What `try_acquire` leaves: one token less if it was granted. -/
theorem available_tryAcquire {l : RateLimiter} {now : Instant} (h : l.InBounds now) :
    (l.tryAcquire display now).2.InBounds now ∧
      (l.tryAcquire display now).2.available now =
        l.available now - if (l.tryAcquire display now).1 = .ok () then 1 else 0 := by
  have hle : (l.refilled now).tokens ≤ l.capacity.toNat := min_le_right _ _
  unfold RateLimiter.tryAcquire
  dsimp only
  split_ifs with hone hok hok
  · have hless : (l.refilled now).tokens - 1 ≤ l.capacity.toNat :=
      (sub_le_self _ zero_le_one).trans hle
    exact ⟨⟨le_rfl, sub_nonneg.mpr hone, hless⟩, available_of_state rfl hless⟩
  · exact absurd rfl hok
  · cases hok
  · refine ⟨⟨le_rfl, h.available_nonneg, hle⟩, ?_⟩
    rw [sub_zero]
    exact available_of_state rfl hle

/-- A call at `now` leaves no more tokens than there were. -/
theorem available_step_le {l : RateLimiter} {call : RateLimiterCall} (h : l.InBounds call.now) :
    (l.step display call).InBounds call.now ∧
      (l.step display call).available call.now ≤ l.available call.now := by
  cases call with
  | tryAcquire now =>
    obtain ⟨hbounds, heq⟩ := available_tryAcquire display h
    refine ⟨hbounds, heq.le.trans ?_⟩
    split_ifs
    · exact sub_le_self _ zero_le_one
    · exact (sub_zero _).le
  | availableTokens now =>
    have hle : (l.refilled now).tokens ≤ l.capacity.toNat := min_le_right _ _
    have heq : (l.availableTokens now).2.available now = l.available now :=
      available_of_state rfl hle
    exact ⟨⟨le_rfl, h.available_nonneg, hle⟩, heq.le⟩

/-- The calls come in the order of their instants, from `last` up to `now`. -/
def Between (last : Instant) (calls : List RateLimiterCall) (now : Instant) : Prop :=
  InOrder last calls ∧ last ≤ now ∧ ∀ call ∈ calls, call.now ≤ now

/-- Calls of whatever kind keep the tokens from growing faster than the rate. -/
theorem available_after_le {calls : List RateLimiterCall} {now : Instant} :
    ∀ {l : RateLimiter} {last : Instant}, l.InBounds last → Between last calls now →
      (l.after display calls).InBounds now ∧
        (l.after display calls).available now ≤
          l.available last + l.refillRate * (now - last) := by
  induction calls with
  | nil =>
    intro l last hl hbetween
    exact ⟨hl.later hbetween.2.1, available_later hl hbetween.2.1⟩
  | cons call calls ih =>
    intro l last hl ⟨horder, hlast, hnow⟩
    obtain ⟨hcall, hrest⟩ := inOrder_cons horder
    obtain ⟨hbounds, hle⟩ := available_step_le display (hl.later hcall)
    have hbetween : Between call.now calls now :=
      ⟨hrest, hnow call List.mem_cons_self, fun c hc => hnow c (List.mem_cons_of_mem call hc)⟩
    obtain ⟨hbounds', hle'⟩ := ih hbounds hbetween
    refine ⟨hbounds', hle'.trans ?_⟩
    rw [(step_eq display l call).2.1]
    have hearlier := available_later hl hcall
    linarith

theorem refillRate_after (l : RateLimiter) (calls : List RateLimiterCall) :
    (l.after display calls).refillRate = l.refillRate := by
  induction calls generalizing l with
  | nil => rfl
  | cons call calls ih => exact (ih (l.step display call)).trans (step_eq display l call).2.1

end RateLimiter

namespace LimiterCell

open RateLimiter DefaultPipeline

variable {W : Type} (display : ℚ → String) (cell : LimiterCell W)

/-- From `w` to `w'` the clock has not gone back, and the limiter has changed only by its calls. -/
def Keeps (w w' : W) : Prop :=
  ∃ calls, Between (cell.now w) calls (cell.now w') ∧
    cell.limiter w' = (cell.limiter w).after display calls

/-- The stages of the pipeline other than the limiter at `g`, and everything else, use the clock and
the limiter as they are. -/
structure Guards (p : DefaultPipeline W Value Value GatewayError) (others : W → W → Prop) (g : ℕ) :
    Prop where
  guard : p.pre[g]? = some (cell.middleware display)
  pre : ∀ k mw, p.pre[k]? = some mw → k ≠ g → ∀ req w,
    cell.Keeps display w (mw.processRequestAction req w).2
  router : ∀ req w, cell.Keeps display w (p.router.dispatch req w).2
  post : ∀ mw ∈ p.post, ∀ resp w, cell.Keeps display w (mw.processResponse resp w).2
  others : ∀ w w', others w w' → cell.Keeps display w w'

/-! ### The tokens -/

/-- From `w₀` to `w`, `n` executions have taken a token: the tokens they took and those that are
left are no more than the capacity and what has been refilled. -/
structure Spent (w₀ w : W) (n : ℕ) : Prop where
  bounds : (cell.limiter w).InBounds (cell.now w)
  capacity : (cell.limiter w).capacity = (cell.limiter w₀).capacity
  rate : (cell.limiter w).refillRate = (cell.limiter w₀).refillRate
  spent : n + (cell.limiter w).available (cell.now w) ≤
    (cell.limiter w₀).capacity.toNat + (cell.limiter w₀).refillRate * (cell.now w - cell.now w₀)

variable {display cell} {w₀ w w' : W} {n : ℕ}

theorem spent_self (h : (cell.limiter w).InBounds (cell.now w)) : cell.Spent w w 0 where
  bounds := h
  capacity := rfl
  rate := rfl
  spent := by
    rw [sub_self, mul_zero, add_zero, Nat.cast_zero, zero_add]
    exact available_le_capacity _ _

/-- What uses the clock and the limiter as they are takes no token of the executions. -/
theorem Spent.keeps (h : cell.Spent w₀ w n) (hkeeps : cell.Keeps display w w') :
    cell.Spent w₀ w' n := by
  obtain ⟨calls, hbetween, hlimiter⟩ := hkeeps
  obtain ⟨hbounds, hle⟩ := available_after_le display h.bounds hbetween
  have hspent := h.spent
  rw [h.rate] at hle
  rw [← hlimiter] at hbounds hle
  refine ⟨hbounds, ?_, ?_, ?_⟩
  · rw [hlimiter, capacity_after, h.capacity]
  · rw [hlimiter, refillRate_after, h.rate]
  · linarith

/-- A call of the limiter. -/
theorem Spent.tryAcquire (h : cell.Spent w₀ w n) :
    cell.Spent w₀ (cell.tryAcquire display w).2
      (n + if (cell.tryAcquire display w).1 = .ok () then 1 else 0) := by
  obtain ⟨hbounds, heq⟩ := available_tryAcquire display h.bounds
  obtain ⟨hcapacity, hrate, -⟩ := tryAcquire_same display (cell.limiter w) (cell.now w)
  have hspent := h.spent
  have hlimiter : cell.limiter (cell.tryAcquire display w).2 =
      ((cell.limiter w).tryAcquire display (cell.now w)).2 := cell.limiter_set _ _
  have hnow : cell.now (cell.tryAcquire display w).2 = cell.now w := cell.now_set _ _
  have hresult : (cell.tryAcquire display w).1 =
      ((cell.limiter w).tryAcquire display (cell.now w)).1 := rfl
  refine ⟨?_, ?_, ?_, ?_⟩
  · rw [hlimiter, hnow]
    exact hbounds
  · rw [hlimiter]
    exact hcapacity.trans h.capacity
  · rw [hlimiter]
    exact hrate.trans h.rate
  · rw [hlimiter, hnow, heq, hresult]
    push_cast
    linarith

/-! ### The executions -/

/-- The execution has not passed pre-middleware `g` yet. -/
def notPast (g : ℕ) : Progress Value Value GatewayError → Bool
  | .pre k _ => decide (k ≤ g)
  | .post _ _ => false
  | .done _ => false

/-- The execution will not call the router any more. -/
def settled : Progress Value Value GatewayError → Bool
  | .pre _ _ => false
  | .post _ _ => true
  | .done _ => true

theorem settled_afterResponse (k : ℕ) (r : Except GatewayError Value) :
    settled (afterResponse k r) = true := by
  cases r <;> rfl

section Advance

variable {p : DefaultPipeline W Value Value GatewayError} {s : Progress Value Value GatewayError}

theorem settled_advance (h : settled s = true) (w : W) : settled (p.advance s w).1 = true := by
  cases s with
  | pre k req => cases h
  | post k resp =>
    cases hk : p.post[k]? with
    | some mw =>
      rw [advance_post hk]
      exact settled_afterResponse _ _
    | none =>
      rw [advance_return hk]
      rfl
  | done result => rfl

/-- The router is called once. -/
theorem settled_of_dispatchesNext (h : p.dispatchesNext s = true) (w : W) :
    settled s = false ∧ settled (p.advance s w).1 = true := by
  cases s with
  | pre k req =>
    have hk : p.pre[k]? = none := List.getElem?_eq_none_iff.mpr (of_decide_eq_true h)
    rw [advance_router hk]
    exact ⟨rfl, settled_afterResponse _ _⟩
  | post | done => cases h

/-- An execution passes the limiter only by its call. -/
theorem notPast_advance {g : ℕ} (h : notPast g s = true) (hg : g < p.pre.length)
    (hne : ∀ req, s ≠ .pre g req) (w : W) :
    notPast g (p.advance s w).1 = true ∨ settled (p.advance s w).1 = true := by
  cases s with
  | pre k req =>
    have hk : k ≤ g := of_decide_eq_true h
    have hkg : k ≠ g := fun heq => hne req (by rw [heq])
    have hlt : k < p.pre.length := by omega
    rw [advance_pre (List.getElem?_eq_getElem hlt)]
    rcases (p.pre[k].processRequestAction req w).1 with e | req' | resp
    · exact .inr rfl
    · exact .inl (decide_eq_true (by omega))
    · exact .inr rfl
  | post | done => cases h

end Advance

variable {ι : Type} [DecidableEq ι]

/-- Of the executions that had not passed the limiter in `c₀`, those that have in `c` and may call
the router are among `passed`, and so are those that have called it, each once. -/
structure Passed (g : ℕ) (c₀ c : Serving ι W Value Value GatewayError) (passed : List ι) :
    Prop where
  executions : ∀ i, notPast g (c₀.executions i) = true →
    notPast g (c.executions i) = true ∨ i ∈ passed ∨ settled (c.executions i) = true
  dispatched : ∃ new, c.dispatched = c₀.dispatched ++ new ∧
    (new.filter fun i => notPast g (c₀.executions i)).Nodup ∧
    ∀ i ∈ new, settled (c.executions i) = true ∧ (notPast g (c₀.executions i) = true → i ∈ passed)

omit [DecidableEq ι] in
theorem passed_self (g : ℕ) (c : Serving ι W Value Value GatewayError) : Passed g c c [] where
  executions _ h := .inl h
  dispatched := ⟨[], by rw [List.append_nil], List.nodup_nil, fun _ h => absurd h List.not_mem_nil⟩

/-- A stage keeps the account, if the execution is noted when it passes the limiter. -/
theorem Passed.step {p : DefaultPipeline W Value Value GatewayError} {g : ℕ}
    (hg : g < p.pre.length) {c₀ c : Serving ι W Value Value GatewayError} {passed passed' : List ι}
    (h : Passed g c₀ c passed) (hsub : passed ⊆ passed') {i : ι}
    (hpass : notPast g (c.executions i) = true →
      notPast g (p.advance (c.executions i) c.world).1 = true ∨ i ∈ passed' ∨
        settled (p.advance (c.executions i) c.world).1 = true) :
    Passed g c₀ (c.step p i) passed' := by
  have hself : (c.step p i).executions i = (p.advance (c.executions i) c.world).1 :=
    Function.update_self ..
  have hother : ∀ j, j ≠ i → (c.step p i).executions j = c.executions j :=
    fun j hj => Function.update_of_ne hj ..
  obtain ⟨new, hnew, hnodup, hsettled⟩ := h.dispatched
  have hkept : ∀ j ∈ new, settled ((c.step p i).executions j) = true ∧
      (notPast g (c₀.executions j) = true → j ∈ passed') := by
    intro j hj
    obtain ⟨hdone, hmem⟩ := hsettled j hj
    refine ⟨?_, fun hj₀ => hsub (hmem hj₀)⟩
    by_cases hij : j = i
    · subst hij
      rw [hself]
      exact settled_advance hdone c.world
    · rwa [hother j hij]
  constructor
  · intro j hj
    by_cases hij : j = i
    · subst hij
      rw [hself]
      rcases h.executions j hj with hnot | hmem | hdone
      · exact hpass hnot
      · exact .inr (.inl (hsub hmem))
      · exact .inr (.inr (settled_advance hdone c.world))
    · rw [hother j hij]
      exact (h.executions j hj).imp_right (Or.imp_left fun hmem => hsub hmem)
  · cases hnext : p.dispatchesNext (c.executions i) with
    | false =>
      refine ⟨new, ?_, hnodup, hkept⟩
      rw [← hnew]
      show (if p.dispatchesNext (c.executions i) then _ else _) = _
      rw [hnext]
      rfl
    | true =>
      obtain ⟨hrunning, hdone⟩ := settled_of_dispatchesNext hnext c.world
      -- it has not called the router before
      have hi : i ∉ new := by
        intro hmem
        rw [(hsettled i hmem).1] at hrunning
        cases hrunning
      refine ⟨new ++ [i], ?_, ?_, ?_⟩
      · rw [← List.append_assoc, ← hnew]
        show (if p.dispatchesNext (c.executions i) then _ else _) = _
        rw [hnext]
        rfl
      · rw [List.filter_append]
        refine hnodup.append ((List.nodup_singleton i).filter _) ?_
        intro j hj hj'
        obtain rfl := List.mem_singleton.mp (List.mem_filter.mp hj').1
        exact hi (List.mem_filter.mp hj).1
      · intro j hj
        rcases List.mem_append.mp hj with hj | hj
        · exact hkept j hj
        · obtain rfl := List.mem_singleton.mp hj
          rw [hself]
          refine ⟨hdone, fun hj₀ => ?_⟩
          rcases h.executions j hj₀ with hnot | hmem | hdone'
          · -- the router comes after all pre-middleware
            exfalso
            cases hs : c.executions j with
            | pre k req =>
              rw [hs] at hnot hnext
              have hle : k ≤ g := of_decide_eq_true hnot
              have hge : p.pre.length ≤ k := of_decide_eq_true hnext
              omega
            | post | done =>
              rw [hs] at hnext
              cases hnext
          · exact hsub hmem
          · rw [hrunning] at hdone'
            cases hdone'

omit [DecidableEq ι] in
/-- No more executions have called the router than are noted. -/
theorem Passed.countP_le {g : ℕ} {c₀ c : Serving ι W Value Value GatewayError} {passed : List ι}
    (h : Passed g c₀ c passed) :
    (c.dispatched.drop c₀.dispatched.length).countP (fun i => notPast g (c₀.executions i)) ≤
      passed.length := by
  obtain ⟨new, hnew, hnodup, hsettled⟩ := h.dispatched
  rw [hnew, List.drop_left, List.countP_eq_length_filter]
  refine (List.subperm_of_subset hnodup fun i hi => ?_).length_le
  obtain ⟨hmem, hi₀⟩ := List.mem_filter.mp hi
  exact (hsettled i hmem).2 hi₀

/-! ### The router -/

section Guarded

variable {p : DefaultPipeline W Value Value GatewayError} {others : W → W → Prop} {g : ℕ}

theorem keeps_refl (w : W) : cell.Keeps display w w :=
  ⟨[], ⟨List.pairwise_singleton _ _, le_rfl, fun _ h => absurd h List.not_mem_nil⟩, rfl⟩

/-- A stage other than the limiter's. -/
theorem Guards.keeps_advance (h : cell.Guards display p others g)
    {s : Progress Value Value GatewayError} (hs : ∀ req, s ≠ .pre g req) (w : W) :
    cell.Keeps display w (p.advance s w).2 := by
  cases s with
  | pre k req =>
    have hkg : k ≠ g := fun heq => hs req (by rw [heq])
    cases hk : p.pre[k]? with
    | some mw =>
      rw [advance_pre hk]
      exact h.pre k mw hk hkg req w
    | none =>
      rw [advance_router hk]
      exact h.router req w
  | post k resp =>
    cases hk : p.post[k]? with
    | some mw =>
      rw [advance_post hk]
      exact h.post mw (List.mem_of_getElem? hk) resp w
    | none =>
      rw [advance_return hk]
      exact keeps_refl w
  | done result => exact keeps_refl w

/-- The limiter's stage. -/
theorem Guards.advance_guard (h : cell.Guards display p others g) (req : Value) (w : W) :
    p.advance (.pre g req) w =
      (match (cell.tryAcquire display w).1 with
        | .ok () => .pre (g + 1) req
        | .error e => .done (.error e), (cell.tryAcquire display w).2) := by
  rw [advance_pre h.guard]
  rcases Eff.ok_or_error (cell.tryAcquire display) w with ⟨u, w', hw⟩ | ⟨e, w', hw⟩
  · have hmw : (cell.middleware display).processRequestAction req w = (.ok (.continue req), w') := by
      refine Eff.bind_of_ok (a := req) ?_
      exact Eff.bind_of_ok hw
    rw [hmw, hw]
    rfl
  · have hmw : (cell.middleware display).processRequestAction req w = (.error e, w') := by
      refine Eff.bind_of_error ?_
      exact Eff.bind_of_error hw
    rw [hmw, hw]
    rfl

/-- **The account of a run**, one step. -/
theorem account_step (hguards : cell.Guards display p others g)
    {c₀ c c' : Serving ι W Value Value GatewayError} {passed : List ι}
    (hspent : cell.Spent c₀.world c.world passed.length) (hpassed : Passed g c₀ c passed)
    (hstep : Serving.Step p others c c') :
    ∃ passed', cell.Spent c₀.world c'.world passed'.length ∧ Passed g c₀ c' passed' := by
  have hg : g < p.pre.length := (List.getElem?_eq_some_iff.mp hguards.guard).1
  cases hstep with
  | world h => exact ⟨passed, hspent.keeps (hguards.others _ _ h), hpassed.executions, hpassed.dispatched⟩
  | stage i =>
    by_cases hi : ∃ req, c.executions i = .pre g req
    · obtain ⟨req, hreq⟩ := hi
      have hadvance := hguards.advance_guard req c.world
      have hspent' : cell.Spent c₀.world (cell.tryAcquire display c.world).2 (passed.length +
          if (cell.tryAcquire display c.world).1 = .ok () then 1 else 0) := hspent.tryAcquire
      have hworld : (c.step p i).world = (cell.tryAcquire display c.world).2 := by
        show (p.advance (c.executions i) c.world).2 = _
        rw [hreq, hadvance]
      rw [← hworld] at hspent'
      cases hresult : (cell.tryAcquire display c.world).1 with
      | ok u =>
        -- the execution passes, and takes a token
        rw [hresult, if_pos rfl] at hspent'
        refine ⟨i :: passed, hspent', hpassed.step hg (List.subset_cons_self i passed) ?_⟩
        exact fun _ => .inr (.inl List.mem_cons_self)
      | error e =>
        rw [hresult, if_neg (by simp)] at hspent'
        refine ⟨passed, hspent', hpassed.step hg (List.Subset.refl passed) fun _ => ?_⟩
        rw [hreq, hadvance, hresult]
        exact .inr (.inr rfl)
    · have hne : ∀ req, c.executions i ≠ .pre g req := fun req heq => hi ⟨req, heq⟩
      refine ⟨passed, hspent.keeps (hguards.keeps_advance hne c.world),
        hpassed.step hg (List.Subset.refl passed) fun hnot => ?_⟩
      exact (notPast_advance hnot hg hne c.world).imp_right Or.inr

theorem exists_account (hguards : cell.Guards display p others g)
    {c₀ c : Serving ι W Value Value GatewayError}
    (hbounds : (cell.limiter c₀.world).InBounds (cell.now c₀.world))
    (hreach : Serving.Serves p others c₀ c) :
    ∃ passed, cell.Spent c₀.world c.world passed.length ∧ Passed g c₀ c passed := by
  induction hreach with
  | refl => exact ⟨[], spent_self hbounds, passed_self g c₀⟩
  | tail _ hstep ih =>
    obtain ⟨passed, hspent, hpassed⟩ := ih
    exact account_step hguards hspent hpassed hstep

/-- **A rate-limited router.**  Let a pipeline with a limiter at any place of its pre-middleware
serve any number of executions, interleaved in any order, from a limiter as the builder makes it.
At any point of the run, count the executions that have not passed the limiter yet: from there on,
until any later point, no more of them call the router than the capacity and the refill of the time
in between. -/
theorem dispatched_le (hguards : cell.Guards display p others g) {b : RateLimiterBuilder}
    {start : Instant} {c₀ c c' : Serving ι W Value Value GatewayError}
    (hlimiter : cell.limiter c₀.world = b.build start) (hstart : start ≤ cell.now c₀.world)
    (hreach : Serving.Serves p others c₀ c) (hreach' : Serving.Serves p others c c') :
    ((c'.dispatched.drop c.dispatched.length).countP fun i => notPast g (c.executions i)) ≤
      b.capacity.toNat + b.refillRate * (cell.now c'.world - cell.now c.world) := by
  have hbounds : (cell.limiter c₀.world).InBounds (cell.now c₀.world) := by
    rw [hlimiter]
    exact ⟨hstart, Nat.cast_nonneg _, le_rfl⟩
  obtain ⟨_, hbefore, -⟩ := exists_account hguards hbounds hreach
  obtain ⟨passed, hspent, hpassed⟩ := exists_account hguards hbefore.bounds hreach'
  have hcapacity : (cell.limiter c.world).capacity = b.capacity := by
    rw [hbefore.capacity, hlimiter]
    rfl
  have hrate : (cell.limiter c.world).refillRate = b.refillRate := by
    rw [hbefore.rate, hlimiter]
    rfl
  have hleft := hspent.bounds.available_nonneg
  have hcount : ((c'.dispatched.drop c.dispatched.length).countP
      fun i => notPast g (c.executions i) : ℚ) ≤ passed.length :=
    Nat.cast_le.mpr hpassed.countP_le
  have htotal := hspent.spent
  rw [hcapacity, hrate] at htotal
  linarith

/-- Two executions at once, and a limiter that holds one token. -/
theorem dispatched_le_two :
    let b := RateLimiterBuilder.new.withCapacity 1
    let cell : LimiterCell (RateLimiter × Instant) :=
      { now := Prod.snd, limiter := Prod.fst, set := fun l w => (l, w.2),
        limiter_set := fun _ _ => rfl, now_set := fun _ _ => rfl }
    let p : DefaultPipeline (RateLimiter × Instant) Value Value GatewayError :=
      { pre := [cell.middleware fun _ => "10"], router := PipelineRouter fun req => pure req,
        post := [] }
    let c : Serving Bool (RateLimiter × Instant) Value Value GatewayError :=
      { world := (b.build 0, 0), executions := fun _ => .pre 0 .null, dispatched := [] }
    let c' := ((c.step p false).step p true).step p false
    ((c'.dispatched.drop c.dispatched.length).countP fun i => notPast 0 (c.executions i)) ≤
      b.capacity.toNat + b.refillRate * (cell.now c'.world - cell.now c.world) := by
  intro b cell p c c'
  have hguards : cell.Guards (fun _ => "10") p (fun w w' => w' = w) 0 := by
    refine ⟨rfl, fun k mw hk hne => ?_, fun req w => keeps_refl w, fun mw hmw => ?_, ?_⟩
    · cases k with
      | zero => exact absurd rfl hne
      | succ k => cases hk
    · cases hmw
    · rintro w w' rfl
      exact keeps_refl w'
  have hreach : Serving.Serves p (fun w w' => w' = w) c c' :=
    ((Relation.ReflTransGen.single (.stage false)).tail (.stage true)).tail (.stage false)
  have hlimiter : cell.limiter c.world = b.build 0 := rfl
  have hstart : 0 ≤ cell.now c.world := le_rfl
  exact dispatched_le hguards hlimiter hstart Relation.ReflTransGen.refl hreach

end Guarded

end LimiterCell

end SweGateway
