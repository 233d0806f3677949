import SweGateway.State.CachedService

/-!
# The service cached for a configuration (`state.rs`, `ConfiguredCache`)

A `ConfiguredCache` holds a service and the configuration that it was made for, each behind a lock
of its own.  `get_or_init_with_config` compares the configurations under both read locks, runs its
`init` while it holds no lock, and stores its service and its configuration under both write locks.
Wherever the source takes both locks it takes the service's first; the guards are dropped in the
opposite order.

The bodies of the operations are those of `CachedService` in shape: what is read or written under the
guards is one step, and an `init` takes a step to start and a step to return.
-/

namespace SweGateway

open Concurrent

/-- The locks of a `ConfiguredCache`, named after the fields they guard. -/
inductive ConfiguredCacheLock where
  | service
  | config
  deriving DecidableEq, Repr

/-- Cached service with configuration key for parameterized initialization. -/
structure ConfiguredCache (ι S C : Type) where
  service : Option (Arc ι S)
  config : Option C
  deriving DecidableEq, Repr

/-- A call of an operation of a `ConfiguredCache`. -/
inductive ConfiguredCall (S C : Type) where
  /-- `get_or_init_with_config`, with what `init` returns for a configuration. -/
  | getOrInitWithConfig (config : C) (init : C → GatewayResult S)
  | isInitialized
  | currentConfig
  | reset

/-- What a call returns. -/
inductive ConfiguredReply (ι S C : Type) where
  | service (result : GatewayResult (Arc ι S))
  | isInitialized (b : Bool)
  | config (config : Option C)
  | unit

namespace ConfiguredCache

variable {ι S C : Type}

/-- A cache without a service. -/
def new : ConfiguredCache ι S C := { service := none, config := none }

/-- The body of an operation. -/
abbrev Body (ι S C : Type) :=
  Prog ConfiguredCacheLock (ConfiguredCache ι S C) (ConfiguredReply ι S C)

/-- The operations still running on a cache, the cache, and the locks they hold. -/
abbrev Running (ι S C : Type) :=
  Config ι ConfiguredCacheLock (ConfiguredCache ι S C) (ConfiguredReply ι S C)

/-- The body `k`, once it has dropped both guards. -/
def releaseBoth (m : Mode) (k : Body ι S C) : Body ι S C :=
  .release m .config <| .release m .service k

/-- `get_or_init_with_config` when its `init` has produced a service. -/
def storeBody (config : C) (newService : Arc ι S) : Body ι S C :=
  .acquire .write .service <|
  .acquire .write .config <|
  .access (fun _ => { service := some newService, config := some config }) fun _ =>
  releaseBoth .write <|
  .done (.service (.ok newService))

/-- `get_or_init_with_config` of the call `i` while its `init` is running. -/
def runningInitBody (i : ι) (config : C) (init : C → GatewayResult S) : Body ι S C :=
  .access id fun _ =>
  match init config with
  | .error e => .done (.service (.error e))
  | .ok service => storeBody config ⟨i, service⟩

/-- `get_or_init_with_config` from the point where it has dropped the read locks without a
service. -/
def initBody (i : ι) (config : C) (init : C → GatewayResult S) : Body ι S C :=
  .access id fun _ => runningInitBody i config init

/-- The service that is cached for a configuration. -/
def lookup [BEq C] (cache : ConfiguredCache ι S C) (config : C) : Option (Arc ι S) :=
  match cache.service, cache.config with
  | some service, some cachedConfig => if cachedConfig == config then some service else none
  | _, _ => none

/-- What `get_or_init_with_config` does with the cache it has locked for reading. -/
def fastPathBody [BEq C] (i : ι) (config : C) (init : C → GatewayResult S)
    (cache : ConfiguredCache ι S C) : Body ι S C :=
  match cache.lookup config with
  | some service => releaseBoth .read <| .done (.service (.ok service))
  | none => releaseBoth .read <| initBody i config init

/-- `get_or_init_with_config`. -/
def getOrInitWithConfigBody [BEq C] (i : ι) (config : C) (init : C → GatewayResult S) :
    Body ι S C :=
  .acquire .read .service <|
  .acquire .read .config <|
  .access id (fastPathBody i config init)

/-- `reset`. -/
def resetBody : Body ι S C :=
  .acquire .write .service <|
  .acquire .write .config <|
  .access (fun _ => { service := none, config := none }) fun _ =>
  releaseBoth .write <|
  .done .unit

end ConfiguredCache

open ConfiguredCache

/-- The body of the call `i`. -/
def ConfiguredCall.prog {ι S C : Type} [BEq C] (i : ι) : ConfiguredCall S C → Body ι S C
  | .getOrInitWithConfig config init => getOrInitWithConfigBody i config init
  | .isInitialized => .readSection .service fun cache => .isInitialized cache.service.isSome
  | .currentConfig => .readSection .config fun cache => .config cache.config
  | .reset => resetBody

namespace ConfiguredCache

variable {ι S C : Type}

/-- The calls before their first steps, on a new cache. -/
def launch [BEq C] (calls : ι → ConfiguredCall S C) : Running ι S C :=
  Config.start new fun i => (calls i).prog i

/-- The call `i` has returned the service `service`. -/
def Obtained (c : Running ι S C) (i : ι) (service : Arc ι S) : Prop :=
  (c.threads i).prog = .done (.service (.ok service))

/-- The service was produced by its call's `init`, for the configuration `config`. -/
def ProducedFor (calls : ι → ConfiguredCall S C) (service : Arc ι S) (config : C) : Prop :=
  ∃ init, calls service.creator = .getOrInitWithConfig config init ∧
    init config = .ok service.service

end ConfiguredCache

end SweGateway
