import SweGateway.Api.Types
import SweGateway.Lib.RwLock

/-!
# The lazily initialized service (`state.rs`, `CachedService`)

A `CachedService` is a cell behind an `RwLock`, filled by the first call of `get_or_init` that comes
to store its service.  A call of `get_or_init` runs its `init` while it holds no lock, so that
several may run at a time; their calls are told apart by `ι`, and the instance that a call's `init`
produces is marked with the call.

`CachedCall` lists the operations, and `CachedCall.prog` is the body of each: what it reads or
writes under the lock, in one step where the source does it under one guard, and where its guard is
dropped.  An `init` takes two steps of its own, one in which it starts and one in which it returns.
What it returns is part of the call.
-/

namespace SweGateway

open Concurrent

/-- A shared service instance: the call whose `init` produced it, and the service. -/
structure Arc (ι S : Type) where
  creator : ι
  service : S
  deriving DecidableEq, Repr

/-- The lock of a `CachedService`. -/
inductive CachedServiceLock where
  | inner
  deriving DecidableEq, Repr

/-- The contents of a `CachedService`. -/
abbrev CachedService (ι S : Type) := Option (Arc ι S)

/-- A call of an operation of a `CachedService`. -/
inductive CachedCall (S : Type) where
  /-- `get_or_init`, with what `init` returns when it is run. -/
  | getOrInit (init : GatewayResult S)
  | isInitialized
  | get
  | reset

/-- What a call returns. -/
inductive CachedReply (ι S : Type) where
  | service (result : GatewayResult (Arc ι S))
  | isInitialized (b : Bool)
  | got (instance? : Option (Arc ι S))
  | unit

namespace CachedService

variable {ι S : Type}

/-- A cell without a service. -/
def new : CachedService ι S := none

/-- The body of an operation. -/
abbrev Body (ι S : Type) := Prog CachedServiceLock (CachedService ι S) (CachedReply ι S)

/-- The operations still running on a cell, the cell, and the locks they hold. -/
abbrev Running (ι S : Type) := Config ι CachedServiceLock (CachedService ι S) (CachedReply ι S)

/-- The double check of `get_or_init`: under the write lock the new instance is stored if there is
none, and the one that is stored then is returned. -/
def storeBody (newService : Arc ι S) : Body ι S :=
  .acquire .write .inner <|
  .access (fun cell => some (cell.getD newService)) fun cell =>
  .release .write .inner <|
  .done (.service (.ok (cell.getD newService)))

/-- `get_or_init` of the call `i` while its `init` is running. -/
def runningInitBody (i : ι) (init : GatewayResult S) : Body ι S :=
  .access id fun _ =>
  match init with
  | .error e => .done (.service (.error e))
  | .ok service => storeBody ⟨i, service⟩

/-- `get_or_init` from the point where it has found the cell empty and dropped the lock. -/
def initBody (i : ι) (init : GatewayResult S) : Body ι S :=
  .access id fun _ => runningInitBody i init

/-- What `get_or_init` does with the cell it has locked for reading. -/
def fastPathBody (i : ι) (init : GatewayResult S) (cell : CachedService ι S) : Body ι S :=
  match cell with
  | some service => .release .read .inner <| .done (.service (.ok service))
  | none => .release .read .inner <| initBody i init

/-- `get_or_init`. -/
def getOrInitBody (i : ι) (init : GatewayResult S) : Body ι S :=
  .acquire .read .inner <| .access id (fastPathBody i init)

end CachedService

open CachedService

/-- The body of the call `i`. -/
def CachedCall.prog {ι S : Type} (i : ι) : CachedCall S → Body ι S
  | .getOrInit init => getOrInitBody i init
  | .isInitialized => .readSection .inner fun cell => .isInitialized cell.isSome
  | .get => .readSection .inner .got
  | .reset => .writeSection .inner fun _ => (.unit, none)

namespace CachedService

variable {ι S : Type}

/-- The calls before their first steps, on a new cell. -/
def launch (calls : ι → CachedCall S) : Running ι S :=
  Config.start new fun i => (calls i).prog i

/-- The call `i` has not taken a step yet. -/
def NotBegun (calls : ι → CachedCall S) (c : Running ι S) (i : ι) : Prop :=
  c.threads i = { prog := (calls i).prog i }

/-- The call `i` has returned `reply`. -/
def Returned (c : Running ι S) (i : ι) (reply : CachedReply ι S) : Prop :=
  (c.threads i).prog = .done reply

/-- The `init` of the call `i` has started and not returned yet. -/
def Initialising (calls : ι → CachedCall S) (c : Running ι S) (i : ι) : Prop :=
  ∃ init, calls i = .getOrInit init ∧ (c.threads i).prog = runningInitBody i init

/-- The call `i` of `get_or_init` or `get` has returned the instance `service`. -/
def Obtained (c : Running ι S) (i : ι) (service : Arc ι S) : Prop :=
  Returned c i (.service (.ok service)) ∨ Returned c i (.got (some service))

end CachedService

end SweGateway
