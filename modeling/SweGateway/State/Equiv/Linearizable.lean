import SweGateway.Lib.Linearizable
import SweGateway.Lib.Termination
import SweGateway.State.Equiv.CachedService
import SweGateway.State.Equiv.ConfiguredCache
import SweGateway.State.Equiv.Reset

/-!
# Linearizability of the cached services

Every finished run of calls of a `CachedService`, resets included, is linearizable
(`CachedService.linearizable`): a `get_or_init` takes effect where it looks at the cell if it finds
an instance there or its `init` is going to fail, and where it stores its instance otherwise, since
the double check takes whatever is there by then.

A `ConfiguredCache` has no double check.  Its runs are linearizable where no call stores a service
while there is one for its configuration (`ConfiguredCache.linearizable_of_storesMissing`); two calls
for one configuration that both find the cache empty are not (`twoCalls_not_linearizable`).

The runs do finish if every `init` does: no operation asks for a lock out of order, so whatever the
schedule is, all calls return, also where readers stand back behind waiting writers
(`CachedService.calls_alwaysReturn`, `ConfiguredCache.launch_alwaysReturns`).
-/

namespace SweGateway

open Concurrent

namespace CachedService

variable {ι S : Type}

/-- What a call that has found the cell empty is going to return if its `init` fails. -/
def failure (init : GatewayResult S) : Option (CachedReply ι S) :=
  match init with
  | .error e => some (.service (.error e))
  | .ok _ => none

/-- The stages of the call `i`, with the reply it has from the access on where it takes effect. -/
inductive Stage (i : ι) : CachedCall S → Option (CachedReply ι S) →
    Flow (CachedService ι S) (CachedReply ι S) → Prop
  | start (call : CachedCall S) : Stage i call none (call.prog i).flow
  | idle (init : GatewayResult S) :
    Stage i (.getOrInit init) (failure init) (initBody i init).flow
  | initialising (init : GatewayResult S) :
    Stage i (.getOrInit init) (failure init) (runningInitBody i init).flow
  | storing (service : S) : Stage i (.getOrInit (.ok service)) none (storeBody ⟨i, service⟩).flow
  | returned (call : CachedCall S) (reply : CachedReply ι S) :
    Stage i call (some reply) (.done reply)

theorem Stage.reply_eq {i : ι} {call : CachedCall S} {q : Option (CachedReply ι S)}
    {reply : CachedReply ι S} (h : Stage i call q (.done reply)) : q = some reply := by
  generalize hflow : Flow.done reply = flow at h
  cases h with
  | start => cases call <;> cases hflow
  | idle | initialising | storing => cases hflow
  | returned =>
    cases hflow
    rfl

/-- **One access.** -/
theorem Stage.takes {calls : ι → CachedCall S} {i : ι} {q : Option (CachedReply ι S)}
    {f : CachedService ι S → CachedService ι S}
    {k : CachedService ι S → Flow (CachedService ι S) (CachedReply ι S)}
    (h : Stage i (calls i) q (.access f k)) (cell : CachedService ι S) :
    Takes (fun i => ((calls i).prog i).exec) (fun i => Stage i (calls i)) i q f k cell := by
  unfold Takes
  dsimp only
  generalize hflow : Flow.access f k = flow at h
  generalize calls i = call at h
  cases h with
  | start =>
    cases call with
    | getOrInit init =>
      cases hflow
      cases cell with
      | some service => exact .inr ⟨rfl, .returned _ _, rfl⟩
      | none =>
        cases init with
        | error e => exact .inr ⟨rfl, .idle (.error e), rfl⟩
        | ok service => exact .inl ⟨rfl, .idle (.ok service)⟩
    | isInitialized | get | reset =>
      cases hflow
      exact .inr ⟨rfl, .returned _ _, rfl⟩
  | idle init =>
    cases hflow
    exact .inl ⟨rfl, .initialising init⟩
  | initialising init =>
    cases hflow
    cases init with
    | error e => exact .inl ⟨rfl, .returned _ _⟩
    | ok service => exact .inl ⟨rfl, .storing service⟩
  | storing service =>
    cases hflow
    cases cell with
    | some other => exact .inr ⟨rfl, .returned _ _, rfl⟩
    | none => exact .inr ⟨rfl, .returned _ _, rfl⟩
  | returned => cases hflow

/-- **Linearizability.** Every finished run of calls on a new cell gives the replies, and leaves the
cell, of the same calls one after another in some order that agrees with real time. -/
theorem linearizable [DecidableEq ι] [Fintype ι] {calls : ι → CachedCall S} {schedule : List ι}
    {c : Running ι S} (hrun : (launch calls).run? schedule = some c)
    (hdone : ∀ i, (c.threads i).prog.isDone = true) :
    Linearizable (fun i => ((calls i).prog i).exec) new schedule c := by
  have hstart : ∀ i, Stage i (calls i) none ((launch calls).flow i) := fun i => .start (calls i)
  have htakes : ∀ (c : Running ι S) i q f k, True → (c.threads i).prog.atAccess = true →
      c.flow i = .access f k → Stage i (calls i) q (.access f k) →
        Takes (fun i => ((calls i).prog i).exec) (fun i => Stage i (calls i)) i q f k c.store :=
    fun c _ _ _ _ _ _ _ h => h.takes c.store
  exact linearizable_of_stages hstart htakes (fun _ _ _ h => h.reply_eq) hrun hdone
    fun _ _ _ _ _ => trivial

/-- A `get_or_init`, a reset that comes while its `init` is running, and a `get`. -/
theorem linearizable_initResetGet :
    ∃ c, (launch initResetGet).run? [0, 0, 0, 0, 1, 1, 1, 0, 0, 0, 0, 2, 2, 2] = some c ∧
      Linearizable (fun i => ((initResetGet i).prog i).exec) new
        [0, 0, 0, 0, 1, 1, 1, 0, 0, 0, 0, 2, 2, 2] c := by
  have hrun : ((launch initResetGet).run? [0, 0, 0, 0, 1, 1, 1, 0, 0, 0, 0, 2, 2, 2]).any
      (fun c => ∀ i, (c.threads i).prog.isDone = true) = true := by decide
  obtain ⟨c, hc, hdone⟩ := (Option.any_eq_true _ _).mp hrun
  exact ⟨c, hc, linearizable hc (of_decide_eq_true hdone)⟩

/-! ### Returning -/

theorem obeys_storeBody (newService : Arc ι S) :
    Obeys (fun _ => True) (Ordered fun _ => 0) [] (storeBody newService) := by
  refine ⟨nofun, fun cell _ => ⟨trivial, List.mem_singleton_self _, ?_⟩⟩
  exact List.erase_cons_head ..

/-- Every operation holds the one lock once at a time. -/
theorem obeys_prog (i : ι) (call : CachedCall S) :
    Obeys (fun _ => True) (Ordered fun _ => 0) [] (call.prog i) := by
  have hnil : ∀ l : CachedServiceLock, Ordered (fun _ => 0) [] l := nofun
  cases call with
  | getOrInit init =>
    refine ⟨hnil _, fun cell _ => ⟨trivial, ?_⟩⟩
    cases cell with
    | some service => exact ⟨List.mem_singleton_self _, List.erase_cons_head ..⟩
    | none =>
      refine ⟨List.mem_singleton_self _, ?_⟩
      rw [List.erase_cons_head]
      refine fun _ _ => ⟨trivial, fun _ _ => ⟨trivial, ?_⟩⟩
      cases init with
      | error e => rfl
      | ok service => exact obeys_storeBody ⟨i, service⟩
  | isInitialized | get => exact obeys_readSection (hnil _)
  | reset => exact obeys_writeSection (hnil _) fun _ _ => trivial

/-- **Returning.** Whatever the schedule is, all calls return.  Every `init` completes here, in two
steps. -/
theorem calls_alwaysReturn [DecidableEq ι] [Fintype ι] (calls : ι → CachedCall S) :
    (launch calls).AlwaysReturns :=
  Config.alwaysReturns_of_ordered (fun _ => 0) ⟨trivial, fun i => obeys_prog i (calls i)⟩

end CachedService

namespace ConfiguredCache

variable {ι S C : Type} [BEq C]

/-- What a call that has not found a service is going to return if its `init` fails. -/
def failure (config : C) (init : C → GatewayResult S) : Option (ConfiguredReply ι S C) :=
  match init config with
  | .error e => some (.service (.error e))
  | .ok _ => none

/-- The stages of the call `i`, with the reply it has from the access on where it takes effect. -/
inductive Stage (i : ι) : ConfiguredCall S C → Option (ConfiguredReply ι S C) →
    Flow (ConfiguredCache ι S C) (ConfiguredReply ι S C) → Prop
  | start (call : ConfiguredCall S C) : Stage i call none (call.prog i).flow
  | idle (config : C) (init : C → GatewayResult S) :
    Stage i (.getOrInitWithConfig config init) (failure config init) (initBody i config init).flow
  | initialising (config : C) (init : C → GatewayResult S) :
    Stage i (.getOrInitWithConfig config init) (failure config init)
      (runningInitBody i config init).flow
  | storing (config : C) (init : C → GatewayResult S) (service : S)
    (hinit : init config = .ok service) :
    Stage i (.getOrInitWithConfig config init) none (storeBody config ⟨i, service⟩).flow
  | returned (call : ConfiguredCall S C) (reply : ConfiguredReply ι S C) :
    Stage i call (some reply) (.done reply)

theorem Stage.reply_eq {i : ι} {call : ConfiguredCall S C} {q : Option (ConfiguredReply ι S C)}
    {reply : ConfiguredReply ι S C} (h : Stage i call q (.done reply)) : q = some reply := by
  generalize hflow : Flow.done reply = flow at h
  cases h with
  | start => cases call <;> cases hflow
  | idle | initialising | storing => cases hflow
  | returned =>
    cases hflow
    rfl

/-- When the call `i` stores its service, there is none for its configuration. -/
def StoresMissing (c : Running ι S C) (i : ι) : Prop :=
  ∀ config a, Stores c i config a → c.store.lookup config = none

omit [BEq C] in
theorem exec_runningInitBody (i : ι) (config : C) (init : C → GatewayResult S)
    (cache : ConfiguredCache ι S C) :
    (runningInitBody i config init).exec cache =
      match init config with
      | .error e => (.service (.error e), cache)
      | .ok service =>
        (.service (.ok ⟨i, service⟩), { service := some ⟨i, service⟩, config := some config }) := by
  unfold runningInitBody
  show Prog.exec (match init config with
    | .error e => _
    | .ok service => _) cache = _
  cases init config <;> rfl

/-- A call on its own, by what the cache holds for its configuration. -/
theorem exec_getOrInitWithConfig (i : ι) (config : C) (init : C → GatewayResult S)
    (cache : ConfiguredCache ι S C) :
    ((ConfiguredCall.getOrInitWithConfig config init).prog i).exec cache =
      match cache.lookup config, init config with
      | some service, _ => (.service (.ok service), cache)
      | none, .error e => (.service (.error e), cache)
      | none, .ok service =>
        (.service (.ok ⟨i, service⟩), { service := some ⟨i, service⟩, config := some config }) := by
  show (fastPathBody i config init cache).exec cache = _
  unfold fastPathBody
  cases cache.lookup config with
  | some service => rfl
  | none =>
    show (runningInitBody i config init).exec cache = _
    rw [exec_runningInitBody]
    cases init config <;> rfl

/-- **One access.** -/
theorem Stage.takes {calls : ι → ConfiguredCall S C} {i : ι} {q : Option (ConfiguredReply ι S C)}
    {f : ConfiguredCache ι S C → ConfiguredCache ι S C}
    {k : ConfiguredCache ι S C → Flow (ConfiguredCache ι S C) (ConfiguredReply ι S C)}
    (h : Stage i (calls i) q (.access f k)) {cache : ConfiguredCache ι S C}
    (hmissing : ∀ config a, Flow.access f k = (storeBody config a).flow →
      cache.lookup config = none) :
    Takes (fun i => ((calls i).prog i).exec) (fun i => Stage i (calls i)) i q f k cache := by
  unfold Takes
  dsimp only
  generalize hflow : Flow.access f k = flow at h hmissing
  generalize calls i = call at h
  cases h with
  | start =>
    cases call with
    | getOrInitWithConfig config init =>
      cases hflow
      rw [exec_getOrInitWithConfig]
      show _ ∧ Stage i _ _ (fastPathBody i config init cache).flow ∨
        _ ∧ Stage i _ _ (fastPathBody i config init cache).flow ∧ _
      unfold fastPathBody
      cases cache.lookup config with
      | some service => exact .inr ⟨rfl, .returned _ _, rfl⟩
      | none =>
        have hidle : Stage i _ _ _ := .idle config init
        rw [failure] at hidle
        cases hinit : init config with
        | error e =>
          rw [hinit] at hidle
          exact .inr ⟨rfl, hidle, rfl⟩
        | ok service =>
          rw [hinit] at hidle
          exact .inl ⟨rfl, hidle⟩
    | isInitialized | currentConfig | reset =>
      cases hflow
      exact .inr ⟨rfl, .returned _ _, rfl⟩
  | idle config init =>
    cases hflow
    exact .inl ⟨rfl, .initialising config init⟩
  | initialising config init =>
    cases hflow
    refine .inl ⟨rfl, ?_⟩
    show Stage i _ _ (Prog.flow (match init config with
      | .error e => _
      | .ok service => _))
    rw [failure]
    cases hinit : init config with
    | error e => exact .returned _ _
    | ok service => exact .storing config init service hinit
  | storing config init service hinit =>
    cases hflow
    rw [exec_getOrInitWithConfig, hmissing config _ rfl, hinit]
    exact .inr ⟨rfl, .returned _ _, rfl⟩
  | returned => cases hflow

section Runs

variable [DecidableEq ι] [Fintype ι] {calls : ι → ConfiguredCall S C} {schedule : List ι}
  {c : Running ι S C}

/-- **Linearizability.** A finished run of calls on a new cache is linearizable if no call stores a
service while there is one for its configuration. -/
theorem linearizable_of_storesMissing
    (hok : Runs.EachStep
      (fun pre i => ∀ c, (launch calls).run? pre = some c → StoresMissing c i) schedule)
    (hrun : (launch calls).run? schedule = some c)
    (hdone : ∀ i, (c.threads i).prog.isDone = true) :
    Linearizable (fun i => ((calls i).prog i).exec) new schedule c := by
  have hstart : ∀ i, Stage i (calls i) none ((launch calls).flow i) := fun i => .start (calls i)
  have htakes : ∀ (c : Running ι S C) i q f k, StoresMissing c i →
      (c.threads i).prog.atAccess = true → c.flow i = .access f k →
      Stage i (calls i) q (.access f k) →
        Takes (fun i => ((calls i).prog i).exec) (fun i => Stage i (calls i)) i q f k c.store := by
    intro c i q f k hmissing hat hflow h
    exact h.takes fun config a heq => hmissing config a ⟨hat, hflow.trans heq⟩
  exact linearizable_of_stages hstart htakes (fun _ _ _ h => h.reply_eq) hrun hdone hok

/-- A call stores a service for its own configuration. -/
theorem config_of_stores {i : ι} {config : C} {a : Arc ι S} (hreach : (launch calls).Reaches c)
    (h : Stores c i config a) : ∃ init, calls i = .getOrInitWithConfig config init := by
  have hat := (paired_of_reaches hreach).calls i
  rw [h.2] at hat
  rcases hat.access_cases rfl new with hid | ⟨config', init, service, hcall, -, -, hput⟩ | ⟨-, hempty⟩
  · cases hid
  · cases hput
    exact ⟨init, hcall⟩
  · cases hempty

end Runs

/-- Two calls for two configurations. -/
def twoConfigs (i : Bool) : ConfiguredCall ℕ String :=
  .getOrInitWithConfig (if i then "cfg1" else "cfg2") fun _ => .ok (if i then 1 else 2)

/-- Both calls find the cache empty, and then one stores its service after the other. -/
def overlapping : List Bool :=
  List.replicate 7 false ++ List.replicate 12 true ++ List.replicate 5 false

/-- The second service replaces the first one, which was made for another configuration. -/
theorem linearizable_of_storesMissing_overlapping :
    ∃ c, (launch twoConfigs).run? overlapping = some c ∧
      Linearizable (fun i => ((twoConfigs i).prog i).exec) new overlapping c := by
  have hrun : ((launch twoConfigs).run? overlapping).any
      (fun c => ∀ i, (c.threads i).prog.isDone = true) = true := by decide
  obtain ⟨c, hc, hdone⟩ := (Option.any_eq_true _ _).mp hrun
  refine ⟨c, hc, linearizable_of_storesMissing ?_ hc (of_decide_eq_true hdone)⟩
  rw [Runs.eachStep_iff_getElem]
  intro n hn c hc config a hstores
  obtain ⟨init, hcall⟩ := config_of_stores (Config.reaches_of_run? hc) hstores
  have hconfig : (if overlapping[n] then "cfg1" else "cfg2") = config := by
    cases hcall
    rfl
  have hmissing : ∀ n (hn : n < overlapping.length),
      ((launch twoConfigs).run? (overlapping.take n)).all (fun c =>
        (c.threads overlapping[n]).prog.atAccess = false ∨
          c.store.lookup (if overlapping[n] then "cfg1" else "cfg2") = none) = true := by decide
  have hn' := hmissing n hn
  rw [hc] at hn'
  rcases of_decide_eq_true hn' with hacc | hnone
  · rw [hstores.1] at hacc
    cases hacc
  · rwa [hconfig] at hnone

/-- Two calls for one configuration that both find the cache empty. -/
theorem twoCalls_not_linearizable : ∃ schedule c, (launch twoCalls).run? schedule = some c ∧
    (∀ i, (c.threads i).prog.isDone = true) ∧
      ¬ Linearizable (fun i => ((twoCalls i).prog i).exec) new schedule c := by
  have hrun : ((launch twoCalls).run? (List.replicate 5 false ++ List.replicate 5 true ++
      List.replicate 7 false ++ List.replicate 7 true)).map
        (fun c => ((c.threads false).prog, (c.threads true).prog)) =
      some (.done (.service (.ok ⟨false, 2⟩)), .done (.service (.ok ⟨true, 1⟩))) := rfl
  rw [Option.map_eq_some_iff] at hrun
  obtain ⟨c, hc, hreplies⟩ := hrun
  obtain ⟨hfalse, htrue⟩ := Prod.mk.inj hreplies
  refine ⟨_, c, hc, ?_, ?_⟩
  · intro i
    cases i
    · rw [hfalse]
      rfl
    · rw [htrue]
      rfl
  · rintro ⟨order, hnodup, hall, -, -, hreply⟩
    have hfirst := hreply false (.service (.ok ⟨false, 2⟩)) (by rw [hfalse]; rfl)
    have hsecond := hreply true (.service (.ok ⟨true, 1⟩)) (by rw [htrue]; rfl)
    -- the call that comes second gets the service of the first one
    rcases order_of_two hnodup hall with rfl | rfl
    · cases hsecond
    · cases hfirst

/-! ### Returning -/

/-- The service's lock comes before the configuration's. -/
def level : ConfiguredCacheLock → ℕ
  | .service => 0
  | .config => 1

omit [BEq C] in
/-- Both locks may be taken in order. -/
theorem obeys_both (m : Mode) {k : Body ι S C}
    (hk : Obeys (fun _ => True) (Ordered level) [(m, .config), (m, .service)] k) :
    Obeys (fun _ => True) (Ordered level) []
      (.acquire m .service <| .acquire m .config k) := by
  refine ⟨nofun, fun h hmem => ?_, hk⟩
  obtain rfl := List.mem_singleton.mp hmem
  exact Nat.zero_lt_one

omit [BEq C] in
/-- Both guards are dropped. -/
theorem obeys_releaseBoth (m : Mode) {k : Body ι S C}
    (hk : Obeys (fun _ => True) (Ordered level) [] k) :
    Obeys (fun _ => True) (Ordered level) [(m, .config), (m, .service)]
      (releaseBoth m k) := by
  refine ⟨List.mem_cons_self, ?_⟩
  rw [List.erase_cons_head]
  refine ⟨List.mem_singleton_self _, ?_⟩
  rw [List.erase_cons_head]
  exact hk

/-- Every operation takes the service's lock before the configuration's. -/
theorem obeys_prog (i : ι) (call : ConfiguredCall S C) :
    Obeys (fun _ => True) (Ordered level) [] (call.prog i) := by
  cases call with
  | getOrInitWithConfig config init =>
    refine obeys_both .read fun cache _ => ⟨trivial, ?_⟩
    unfold fastPathBody
    cases cache.lookup config with
    | some service => exact obeys_releaseBoth .read rfl
    | none =>
      refine obeys_releaseBoth .read fun _ _ => ⟨trivial, fun _ _ => ⟨trivial, ?_⟩⟩
      cases init config with
      | error e => rfl
      | ok service => exact obeys_both .write fun _ _ => ⟨trivial, obeys_releaseBoth .write rfl⟩
  | isInitialized | currentConfig => exact obeys_readSection nofun
  | reset => exact obeys_both .write fun _ _ => ⟨trivial, obeys_releaseBoth .write rfl⟩

/-- **Returning.** Whatever the schedule is, all calls return.  Every `init` completes here, in two
steps. -/
theorem launch_alwaysReturns [DecidableEq ι] [Fintype ι] (calls : ι → ConfiguredCall S C) :
    (launch calls).AlwaysReturns :=
  Config.alwaysReturns_of_ordered level
    ⟨trivial, fun i => obeys_prog i (calls i)⟩

end ConfiguredCache

end SweGateway
