import SweGateway.Lib.Flow
import SweGateway.Lib.Runs
import SweGateway.State.ConfiguredCache

/-!
# What concurrent calls see of a `ConfiguredCache`

The service and its configuration are a pair: they are present or absent together, the service was
made for the configuration next to it, and a call gets a service for its own configuration
(`paired`).

But there is no double check.  Two calls for one configuration may both find the cache empty, and
then the second one replaces the instance of the first one, which has been handed out
(`same_config_twice`).  Where every call that stores finds the cache empty (`StoresFirst`), all calls
for one configuration return the instance that is cached (`single_instance`).

As for `CachedService`, the proofs look at the flows of the calls only: `At good i call` lists the
flows of the call `i`, where `good` holds of the service it has obtained.
-/

namespace SweGateway.ConfiguredCache

open Concurrent

variable {ι S C : Type} [BEq C]

/-- What the call `i` still does, where `good config` holds of the service that it has obtained for
the configuration `config`. -/
inductive At (good : C → Arc ι S → Prop) (i : ι) :
    ConfiguredCall S C → Flow (ConfiguredCache ι S C) (ConfiguredReply ι S C) → Prop
  | start (call : ConfiguredCall S C) : At good i call (call.prog i).flow
  | idle (config : C) (init : C → GatewayResult S) :
    At good i (.getOrInitWithConfig config init) (initBody i config init).flow
  | initialising (config : C) (init : C → GatewayResult S) :
    At good i (.getOrInitWithConfig config init) (runningInitBody i config init).flow
  | storing (config : C) (init : C → GatewayResult S) (service : S)
    (hinit : init config = .ok service) :
    At good i (.getOrInitWithConfig config init) (storeBody config ⟨i, service⟩).flow
  | failed (config : C) (init : C → GatewayResult S) (e : GatewayError)
    (hinit : init config = .error e) :
    At good i (.getOrInitWithConfig config init) (.done (.service (.error e)))
  | obtained (config : C) (init : C → GatewayResult S) (a : Arc ι S) (ha : good config a) :
    At good i (.getOrInitWithConfig config init) (.done (.service (.ok a)))
  | asked (b : Bool) : At good i .isInitialized (.done (.isInitialized b))
  | told (config : Option C) : At good i .currentConfig (.done (.config config))
  | cleared : At good i .reset (.done .unit)

theorem At.mono {good good' : C → Arc ι S → Prop}
    (hgood : ∀ config a, good config a → good' config a) {i : ι} {call : ConfiguredCall S C}
    {flow : Flow (ConfiguredCache ι S C) (ConfiguredReply ι S C)} (hat : At good i call flow) :
    At good' i call flow := by
  cases hat with
  | start => exact .start _
  | idle config init => exact .idle config init
  | initialising config init => exact .initialising config init
  | storing config init service hinit => exact .storing config init service hinit
  | failed config init e hinit => exact .failed config init e hinit
  | obtained config init a ha => exact .obtained config init a (hgood config a ha)
  | asked b => exact .asked b
  | told config => exact .told config
  | cleared => exact .cleared

/-- **One access.** A call obtains the service that is cached for its configuration, or the one that
it has stored. -/
theorem At.access {good good' : C → Arc ι S → Prop} {i : ι} {call : ConfiguredCall S C}
    {flow : Flow (ConfiguredCache ι S C) (ConfiguredReply ι S C)} (hat : At good i call flow)
    {f : ConfiguredCache ι S C → ConfiguredCache ι S C}
    {k : ConfiguredCache ι S C → Flow (ConfiguredCache ι S C) (ConfiguredReply ι S C)}
    (hflow : flow = .access f k) {cache : ConfiguredCache ι S C}
    (hcached : ∀ config a, cache.lookup config = some a → good' config a)
    (hown : ∀ config init service, call = .getOrInitWithConfig config init →
      init config = .ok service → f cache = { service := some ⟨i, service⟩, config := some config } →
        good' config ⟨i, service⟩) : At good' i call (k cache) := by
  cases hat with
  | start =>
    cases call with
    | getOrInitWithConfig config init =>
      obtain ⟨rfl, rfl⟩ := Flow.access.inj hflow
      show At good' i _ (fastPathBody i config init cache).flow
      unfold fastPathBody
      cases hlookup : cache.lookup config with
      | none => exact .idle config init
      | some a => exact .obtained config init a (hcached config a hlookup)
    | isInitialized =>
      obtain ⟨rfl, rfl⟩ := Flow.access.inj hflow
      exact .asked cache.service.isSome
    | currentConfig =>
      obtain ⟨rfl, rfl⟩ := Flow.access.inj hflow
      exact .told cache.config
    | reset =>
      obtain ⟨rfl, rfl⟩ := Flow.access.inj hflow
      exact .cleared
  | idle config init =>
    obtain ⟨rfl, rfl⟩ := Flow.access.inj hflow
    exact .initialising config init
  | initialising config init =>
    obtain ⟨rfl, rfl⟩ := Flow.access.inj hflow
    cases hinit : init config with
    | error e => exact .failed config init e hinit
    | ok service => exact .storing config init service hinit
  | storing config init service hinit =>
    obtain ⟨rfl, rfl⟩ := Flow.access.inj hflow
    exact .obtained config init _ (hown config init service rfl hinit rfl)
  | failed | obtained | asked | told | cleared => cases hflow

/-- What an access does to the cache: nothing, or it stores the service and the configuration of its
call, or it is a reset. -/
theorem At.access_cases {good : C → Arc ι S → Prop} {i : ι} {call : ConfiguredCall S C}
    {flow : Flow (ConfiguredCache ι S C) (ConfiguredReply ι S C)} (hat : At good i call flow)
    {f : ConfiguredCache ι S C → ConfiguredCache ι S C}
    {k : ConfiguredCache ι S C → Flow (ConfiguredCache ι S C) (ConfiguredReply ι S C)}
    (hflow : flow = .access f k) (cache : ConfiguredCache ι S C) :
    f cache = cache ∨
      (∃ config init service, call = .getOrInitWithConfig config init ∧
        init config = .ok service ∧ flow = (storeBody config ⟨i, service⟩).flow ∧
        f cache = { service := some ⟨i, service⟩, config := some config }) ∨
      (call = .reset ∧ f cache = { service := none, config := none }) := by
  cases hat with
  | start =>
    cases call with
    | getOrInitWithConfig | isInitialized | currentConfig =>
      obtain ⟨rfl, -⟩ := Flow.access.inj hflow
      exact .inl rfl
    | reset =>
      obtain ⟨rfl, -⟩ := Flow.access.inj hflow
      exact .inr (.inr ⟨rfl, rfl⟩)
  | idle | initialising =>
    obtain ⟨rfl, -⟩ := Flow.access.inj hflow
    exact .inl rfl
  | storing config init service hinit =>
    obtain ⟨rfl, -⟩ := Flow.access.inj hflow
    exact .inr (.inl ⟨config, init, service, rfl, hinit, rfl, rfl⟩)
  | failed | obtained | asked | told | cleared => cases hflow

/-- A service that a call has obtained is a good one. -/
theorem At.good_of_obtained {good : C → Arc ι S → Prop} {c : Running ι S C} {i : ι} {config : C}
    {init : C → GatewayResult S} (hat : At good i (.getOrInitWithConfig config init) (c.flow i))
    {a : Arc ι S} (h : Obtained c i a) : good config a := by
  have hflow : c.flow i = .done (.service (.ok a)) := Config.flow_of_done h
  rw [hflow] at hat
  generalize hcall : ConfiguredCall.getOrInitWithConfig config init = call at hat
  generalize hdone : Flow.done (ConfiguredReply.service (.ok a)) = flow at hat
  cases hat with
  | obtained config' init' b hb =>
    cases hcall
    cases hdone
    exact hb
  | start => cases call <;> cases hdone
  | idle | initialising | storing | failed | asked | told | cleared => cases hdone

/-! ### The service and its configuration -/

/-- The service was made for a configuration that is `config` or compares equal to it. -/
def MadeFor (calls : ι → ConfiguredCall S C) (config : C) (a : Arc ι S) : Prop :=
  ∃ config', ProducedFor calls a config' ∧ (config' = config ∨ config' == config)

/-- The cache and the calls on it: the cached service was made for the cached configuration, and each
call has obtained a service for its own. -/
structure Paired (calls : ι → ConfiguredCall S C) (cache : ConfiguredCache ι S C)
    (flows : ι → Flow (ConfiguredCache ι S C) (ConfiguredReply ι S C)) : Prop where
  isSome : cache.service.isSome = cache.config.isSome
  produced : ∀ a config, cache.service = some a → cache.config = some config →
    ProducedFor calls a config
  calls : ∀ i, At (MadeFor calls) i (calls i) (flows i)

theorem paired_launch (calls : ι → ConfiguredCall S C) :
    Paired calls (launch calls).store (launch calls).flow where
  isSome := rfl
  produced _ _ h := nomatch h
  calls i := .start (calls i)

/-- The service that is cached for a configuration was made for it. -/
theorem Paired.madeFor_of_lookup {calls : ι → ConfiguredCall S C} {cache : ConfiguredCache ι S C}
    {flows : ι → Flow (ConfiguredCache ι S C) (ConfiguredReply ι S C)} (h : Paired calls cache flows)
    {config : C} {a : Arc ι S} (ha : cache.lookup config = some a) : MadeFor calls config a := by
  unfold lookup at ha
  split at ha
  · next service cachedConfig hservice hconfig =>
    split_ifs at ha with heq
    obtain rfl := Option.some.inj ha
    exact ⟨cachedConfig, h.produced service cachedConfig hservice hconfig, .inr heq⟩
  · cases ha

variable [DecidableEq ι]

/-- **The step lemma.** -/
theorem Paired.step {calls : ι → ConfiguredCall S C} {cache : ConfiguredCache ι S C}
    {flows : ι → Flow (ConfiguredCache ι S C) (ConfiguredReply ι S C)} (h : Paired calls cache flows)
    {i : ι} {f : ConfiguredCache ι S C → ConfiguredCache ι S C}
    {k : ConfiguredCache ι S C → Flow (ConfiguredCache ι S C) (ConfiguredReply ι S C)}
    (hflow : flows i = .access f k) :
    Paired calls (f cache) (Function.update flows i (k cache)) := by
  have hcalls : ∀ j, At (MadeFor calls) j (calls j) (Function.update flows i (k cache) j) := by
    have hself : At (MadeFor calls) i (calls i) (k cache) := by
      refine (h.calls i).access hflow (fun config a => h.madeFor_of_lookup) ?_
      intro config init service hcall hinit _
      exact ⟨config, ⟨init, hcall, hinit⟩, .inl rfl⟩
    exact (Function.forall_update_iff flows fun j flow => At (MadeFor calls) j (calls j) flow).mpr
      ⟨hself, fun j _ => h.calls j⟩
  rcases (h.calls i).access_cases hflow cache with
    hid | ⟨config, init, service, hcall, hinit, -, hput⟩ | ⟨-, hempty⟩
  · rw [hid]
    exact ⟨h.isSome, h.produced, hcalls⟩
  · rw [hput]
    refine ⟨rfl, fun a config' ha hconfig => ?_, hcalls⟩
    cases ha
    cases hconfig
    exact ⟨init, hcall, hinit⟩
  · rw [hempty]
    exact ⟨rfl, fun _ _ ha => (nomatch ha), hcalls⟩

variable [Fintype ι]

/-- **The run lemma.** -/
theorem paired_of_reaches {calls : ι → ConfiguredCall S C} {c : Running ι S C}
    (hreach : (launch calls).Reaches c) : Paired calls c.store c.flow :=
  hreach.flow_invariant (paired_launch calls) fun _ _ _ _ _ h hflow => h.step hflow

/-- **The pair.** In every reachable state the service and the configuration are both present or both
absent, the service was produced by `init` for the stored configuration, and every call that has
returned a service returned one that was produced for a configuration equal to its own.  A call
whose `init` fails leaves the cache unchanged. -/
theorem paired {calls : ι → ConfiguredCall S C} {c : Running ι S C}
    (hreach : (launch calls).Reaches c) :
    (c.store.service.isSome = c.store.config.isSome) ∧
      (∀ a config, c.store.service = some a → c.store.config = some config →
        ProducedFor calls a config) ∧
      (∀ i config init a, calls i = .getOrInitWithConfig config init → Obtained c i a →
        ∃ config', ProducedFor calls a config' ∧ (config' = config ∨ config' == config)) ∧
      (∀ i config init e, calls i = .getOrInitWithConfig config init → init config = .error e →
        ∀ c', c.step? i = some c' → c'.store = c.store) := by
  have h := paired_of_reaches hreach
  refine ⟨h.isSome, h.produced, fun i config init a hcall ha => ?_,
    fun i config init e hcall hinit c' hstep => ?_⟩
  · have hat := h.calls i
    rw [hcall] at hat
    exact hat.good_of_obtained ha
  · cases Config.step?_flow hstep with
    | lock hstore _ => exact hstore
    | access f k _ hflow hstore _ _ =>
      rw [hstore]
      rcases (h.calls i).access_cases hflow c.store with
        hid | ⟨config', init', service, hcall', hinit', -⟩ | ⟨hreset, -⟩
      · exact hid
      · rw [hcall] at hcall'
        cases hcall'
        rw [hinit] at hinit'
        cases hinit'
      · rw [hcall] at hreset
        cases hreset

/-- A call whose `init` fails, a call that stores a service while the first one's `init` is running,
and a reset. -/
def failStoreReset : Fin 3 → ConfiguredCall ℕ String
  | 0 => .getOrInitWithConfig "cfg1" fun _ => .error (.timeout "init")
  | 1 => .getOrInitWithConfig "cfg2" fun _ => .ok 1
  | 2 => .reset

/-- Between the store and the reset the service and the configuration are both present. -/
theorem paired_failStoreReset : ∃ c : Running (Fin 3) ℕ String,
    (launch failStoreReset).run? [0, 0, 0, 0, 0, 0, 1, 1, 1, 1, 1, 1, 1, 1, 1, 1, 0, 1, 1, 2] =
      some c ∧ ProducedFor failStoreReset ⟨1, 1⟩ "cfg2" := by
  have hrun : ((launch failStoreReset).run?
      [0, 0, 0, 0, 0, 0, 1, 1, 1, 1, 1, 1, 1, 1, 1, 1, 0, 1, 1, 2]).any (fun c =>
        c.store.service = some ⟨1, 1⟩ ∧ c.store.config = some "cfg2") = true := by decide
  obtain ⟨c, hc, hstore⟩ := (Option.any_eq_true _ _).mp hrun
  obtain ⟨hservice, hconfig⟩ := of_decide_eq_true hstore
  exact ⟨c, hc, (paired (Config.reaches_of_run? hc)).2.1 _ _ hservice hconfig⟩

/-! ### One configuration -/

/-- Calls of `get_or_init_with_config` that all pass the same configuration. -/
def sameConfig (config : C) (inits : ι → C → GatewayResult S) (i : ι) : ConfiguredCall S C :=
  .getOrInitWithConfig config (inits i)

/-- The next step of the call `i` is the one in which it stores the service `a`. -/
def Stores (c : Running ι S C) (i : ι) (config : C) (a : Arc ι S) : Prop :=
  (c.threads i).prog.atAccess = true ∧ c.flow i = (storeBody config a).flow

/-- When the call `i` stores its service, the cache is empty. -/
def StoresFirst (calls : ι → ConfiguredCall S C) (history : List ι) (i : ι) : Prop :=
  ∀ c config a, (launch calls).run? history = some c → Stores c i config a →
    c.store.service = none

/-- All services that calls have returned are the same instance, the one that is cached. -/
def SingleInstance (calls : ι → ConfiguredCall S C) (history : List ι) : Prop :=
  ∀ c, (launch calls).run? history = some c → ∀ i j a b, Obtained c i a → Obtained c j b →
    a = b ∧ c.store.service = some a

omit [BEq C] [DecidableEq ι] [Fintype ι] in
theorem service_of_lookup [BEq C] {cache : ConfiguredCache ι S C} {config : C} {a : Arc ι S}
    (h : cache.lookup config = some a) : cache.service = some a := by
  unfold lookup at h
  split at h
  · next service cachedConfig hservice _ =>
    split_ifs at h
    rw [hservice, h]
  · cases h

/-- **The run lemma.** Where every call that stores finds the cache empty, every service that a call
has obtained is the cached one. -/
theorem cached_of_storesFirst {config : C} {inits : ι → C → GatewayResult S} {schedule : List ι}
    (hok : Runs.EachStep (StoresFirst (sameConfig config inits)) schedule) {c : Running ι S C}
    (hrun : (launch (sameConfig config inits)).run? schedule = some c) (i : ι) :
    At (fun _ a => c.store.service = some a) i (sameConfig config inits i) (c.flow i) := by
  induction schedule using List.reverseRecOn generalizing c i with
  | nil =>
    obtain rfl : launch (sameConfig config inits) = c := Option.some.inj hrun
    exact .start _
  | append_singleton schedule j ih =>
    obtain ⟨hprev, hlast⟩ := Runs.EachStep.concat_iff.mp hok
    obtain ⟨c₁, hc₁, hstep⟩ := Config.run?_concat_eq_some hrun
    have hat := ih hprev hc₁
    cases Config.step?_flow hstep with
    | lock hstore hflow =>
      rw [hstore, hflow]
      exact hat i
    | access f k hacc hflow hstore hself hother =>
      -- what is cached stays cached: a call that stores finds nothing
      have hkeeps : ∀ a, c₁.store.service = some a → c.store.service = some a := by
        intro a ha
        rw [hstore]
        rcases (hat j).access_cases hflow c₁.store with
          hid | ⟨config', init, service, -, -, hflow', -⟩ | ⟨hreset, -⟩
        · rw [hid, ha]
        · rw [hlast c₁ config' ⟨j, service⟩ hc₁ ⟨hacc, hflow'⟩] at ha
          cases ha
        · cases hreset
      by_cases hi : i = j
      · subst hi
        rw [hself]
        refine (hat i).access hflow (fun config' a ha => hkeeps a (service_of_lookup ha)) ?_
        intro config' init service _ _ hput
        rw [hstore, hput]
      · rw [hother i hi]
        exact (hat i).mono fun _ a ha => hkeeps a ha

/-- **A single instance.** In every run of calls for one configuration in which every call that
stores its service finds the cache empty, all calls that have returned a service returned the same
instance, and it is cached from then on. -/
theorem single_instance {config : C} {inits : ι → C → GatewayResult S} {schedule : List ι}
    (hok : Runs.EachStep (StoresFirst (sameConfig config inits)) schedule) :
    Runs.Always (SingleInstance (sameConfig config inits)) schedule := by
  intro history hhistory c hrun i j a b ha hb
  have hokh : Runs.EachStep (StoresFirst (sameConfig config inits)) history := by
    intro pre op hpre
    exact hok pre op (hpre.trans hhistory)
  have hcached := cached_of_storesFirst hokh hrun
  have hca : c.store.service = some a := (hcached i).good_of_obtained ha
  have hcb : c.store.service = some b := (hcached j).good_of_obtained hb
  exact ⟨Option.some.inj (hca.symm.trans hcb), hca⟩

/-- Two calls for one configuration, with an `init` each. -/
def twoCalls : Bool → ConfiguredCall ℕ String :=
  sameConfig "cfg1" fun i _ => .ok (if i then 1 else 2)

/-- One call after the other. -/
def inTurn : List Bool := List.replicate 12 false ++ List.replicate 5 true

/-- One call after the other return the same instance. -/
theorem single_instance_inTurn : Runs.Always (SingleInstance twoCalls) inTurn := by
  apply single_instance
  rw [Runs.eachStep_iff_getElem]
  intro n hn c config a hc hstores
  change (launch twoCalls).run? (inTurn.take n) = some c at hc
  by_cases hcheck : n = 14
  · -- the second call looks at the cache here, and stores nothing
    subst hcheck
    have hprog : ((launch twoCalls).run? (inTurn.take 14)).map (fun c => (c.threads true).prog) =
        some (.access id (fastPathBody true "cfg1" fun _ => .ok 1)) := rfl
    rw [hc, Option.map_some, Option.some.injEq] at hprog
    have hflow : c.flow true = (storeBody config a).flow := hstores.2
    rw [Config.flow, hprog] at hflow
    have hid := congrFun (Flow.access.inj hflow).1 new
    cases hid
  · have hempty : ∀ n (hn : n < inTurn.length), n ≠ 14 →
        ((launch twoCalls).run? (inTurn.take n)).all (fun c =>
          (c.threads inTurn[n]).prog.atAccess = false ∨ c.store.service = none) = true := by decide
    have hn' := hempty n hn hcheck
    rw [hc] at hn'
    rcases of_decide_eq_true hn' with hacc | hnone
    · rw [hstores.1] at hacc
      cases hacc
    · exact hnone

/-- Two calls for one configuration that both find the cache empty return two instances. -/
theorem same_config_twice :
    ¬ ∀ schedule, Runs.Always (SingleInstance twoCalls) schedule := by
  intro h
  have hrun : ((launch twoCalls).run? (List.replicate 5 false ++ List.replicate 5 true ++
      List.replicate 7 false ++ List.replicate 7 true)).map
        (fun c => ((c.threads false).prog, (c.threads true).prog)) =
      some (.done (.service (.ok ⟨false, 2⟩)), .done (.service (.ok ⟨true, 1⟩))) := rfl
  rw [Option.map_eq_some_iff] at hrun
  obtain ⟨c, hc, hreplies⟩ := hrun
  obtain ⟨hfalse, htrue⟩ := Prod.mk.inj hreplies
  have hsame := (h _ _ List.prefix_rfl c hc false true ⟨false, 2⟩ ⟨true, 1⟩ hfalse htrue).1
  cases hsame

end SweGateway.ConfiguredCache
