import SweGateway.Lib.RwLock

/-!
# Threads without their locks

A `Flow` is what a program does to the store: its accesses, one after another, and its result.
`Prog.flow` forgets the locks of a program.  Every step of a configuration either takes or releases
a lock, which the store and the flows do not show, or makes the next access of one flow
(`Config.step?_flow`).

So what every access keeps holds of every reachable configuration, whatever the locks allow
(`Config.Reaches.flow_invariant`, `Config.Reaches.one_flow_invariant`).  Properties that do not
depend on which locks are taken are proved of the flows, which have far fewer states than the
programs.
-/

namespace Concurrent

/-- The accesses of an operation to a store `S`, and its result. -/
inductive Flow (S R : Type) where
  | done (r : R)
  | access (f : S → S) (k : S → Flow S R)

namespace Prog

variable {L S R : Type}

/-- The program without its locks. -/
def flow : Prog L S R → Flow S R
  | .done r => .done r
  | .acquire _ _ k => k.flow
  | .access f k => .access f fun s => (k s).flow
  | .release _ _ k => k.flow

/-- The next step of the program is an access to the store. -/
def atAccess : Prog L S R → Bool
  | .access _ _ => true
  | _ => false

@[simp] theorem flow_done (r : R) : (done r : Prog L S R).flow = .done r := rfl

@[simp] theorem flow_acquire (m : Mode) (l : L) (k : Prog L S R) :
    (acquire m l k).flow = k.flow := rfl

@[simp] theorem flow_access (f : S → S) (k : S → Prog L S R) :
    (access f k).flow = .access f fun s => (k s).flow := rfl

@[simp] theorem flow_release (m : Mode) (l : L) (k : Prog L S R) :
    (release m l k).flow = k.flow := rfl

end Prog

namespace Config

variable {ι L S R : Type}

/-- What a thread still does to the store. -/
def flow (c : Config ι L S R) (i : ι) : Flow S R := (c.threads i).prog.flow

/-- A thread that has returned has nothing left to do. -/
theorem flow_of_done {c : Config ι L S R} {i : ι} {r : R} (h : (c.threads i).prog = .done r) :
    c.flow i = .done r := by
  rw [flow, h, Prog.flow_done]

variable [DecidableEq ι] [Fintype ι] [DecidableEq L]

/-- What a step does to the store and the flows: nothing, if it takes or releases a lock, or the
next access of its thread. -/
inductive FlowCase (c : Config ι L S R) (i : ι) (c' : Config ι L S R) : Prop
  | lock (hstore : c'.store = c.store) (hflow : ∀ j, c'.flow j = c.flow j)
  | access (f : S → S) (k : S → Flow S R) (hat : (c.threads i).prog.atAccess = true)
      (hflow : c.flow i = .access f k) (hstore : c'.store = f c.store)
      (hself : c'.flow i = k c.store) (hother : ∀ j, j ≠ i → c'.flow j = c.flow j)

omit [Fintype ι] [DecidableEq L] in
theorem flow_set_self (c : Config ι L S R) (i : ι) (s : S) (t : Thread L S R) :
    (c.set i s t).flow i = t.prog.flow := by
  rw [flow, threads_set_self]

theorem flow_step?_of_ne {c c' : Config ι L S R} {i j : ι} (h : c.step? i = some c')
    (hj : j ≠ i) : c'.flow j = c.flow j := by
  rw [flow, threads_step?_of_ne h hj, flow]

theorem step?_flow {c c' : Config ι L S R} {i : ι} (h : c.step? i = some c') :
    FlowCase c i c' := by
  have hother : ∀ j, j ≠ i → c'.flow j = c.flow j := fun j hj => flow_step?_of_ne h hj
  -- a step on a lock keeps the flow of its own thread, too
  have hlock : c'.store = c.store → c'.flow i = c.flow i → FlowCase c i c' := by
    intro hstore hself
    refine .lock hstore fun j => ?_
    by_cases hj : j = i
    · subst hj
      exact hself
    · exact hother j hj
  cases step?_cases h with
  | acquire m l k hprog hgrants heq =>
    subst heq
    apply hlock rfl
    rw [flow_set_self, flow, hprog, Prog.flow_acquire]
  | access f k hprog heq =>
    subst heq
    refine .access f (fun s => (k s).flow) ?_ ?_ rfl (flow_set_self ..) hother
    · rw [hprog]
      rfl
    · rw [flow, hprog, Prog.flow_access]
  | release m l k hprog heq =>
    subst heq
    apply hlock rfl
    rw [flow_set_self, flow, hprog, Prog.flow_release]

/-- **The invariant rule for flows.** What holds at the start and is kept by every access holds of
every reachable configuration. -/
theorem Reaches.flow_invariant {P : S → (ι → Flow S R) → Prop} {c c' : Config ι L S R}
    (hreach : Reaches c c') (h0 : P c.store c.flow)
    (hstep : ∀ s flows i f k, P s flows → flows i = .access f k →
      P (f s) (Function.update flows i (k s))) : P c'.store c'.flow := by
  refine hreach.invariant (P := fun c => P c.store c.flow) h0 ?_
  intro c i c' hc h
  cases step?_flow h with
  | lock hstore hflow =>
    have hflows : c'.flow = c.flow := funext hflow
    rw [hstore, hflows]
    exact hc
  | access f k hat hflow hstore hself hother =>
    have hflows : c'.flow = Function.update c.flow i (k c.store) := by
      funext j
      by_cases hj : j = i
      · subst hj
        rw [hself, Function.update_self]
      · rw [hother j hj, Function.update_of_ne hj]
    rw [hstore, hflows]
    exact hstep c.store c.flow i f k hc hflow

/-- **The invariant rule for one flow.** What a thread's own accesses keep of its flow, whatever they
find in the store, holds of it in every reachable configuration. -/
theorem Reaches.one_flow_invariant {i : ι} {P : Flow S R → Prop} {c c' : Config ι L S R}
    (hreach : Reaches c c') (h0 : P (c.flow i)) (hstep : ∀ s f k, P (.access f k) → P (k s)) :
    P (c'.flow i) := by
  refine hreach.flow_invariant (P := fun _ flows => P (flows i)) h0 ?_
  intro s flows j f k h hflow
  by_cases hj : i = j
  · subst hj
    rw [Function.update_self]
    exact hstep s f k (hflow ▸ h)
  · rw [Function.update_of_ne hj]
    exact h

end Config

end Concurrent
