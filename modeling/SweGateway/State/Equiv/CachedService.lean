import SweGateway.Lib.Flow
import SweGateway.State.CachedService

/-!
# What concurrent calls see of a `CachedService`

Without a reset, all calls that obtain an instance obtain the same one, and the cell keeps it
(`getOrInit_agree`): the double check of `get_or_init` adopts an instance that another call has
stored while its own `init` was running.

This does not depend on the locks, and the proofs look at the flows of the calls only.
`At good i call` lists the flows that the call `i` can have, where every instance that it has
obtained is `good`; one access is `At.access`, and what it does to the cell `At.access_cases`.
-/

namespace SweGateway.CachedService

open Concurrent

variable {ι S : Type}

/-- What the call `i` still does, where `good` holds of an instance that it has obtained. -/
inductive At (good : Arc ι S → Prop) (i : ι) :
    CachedCall S → Flow (CachedService ι S) (CachedReply ι S) → Prop
  | start (call : CachedCall S) : At good i call (call.prog i).flow
  | idle (init : GatewayResult S) : At good i (.getOrInit init) (initBody i init).flow
  | initialising (init : GatewayResult S) :
    At good i (.getOrInit init) (runningInitBody i init).flow
  | storing (service : S) : At good i (.getOrInit (.ok service)) (storeBody ⟨i, service⟩).flow
  | failed (e : GatewayError) : At good i (.getOrInit (.error e)) (.done (.service (.error e)))
  | obtained (init : GatewayResult S) (a : Arc ι S) (ha : good a) :
    At good i (.getOrInit init) (.done (.service (.ok a)))
  | got (instance? : Option (Arc ι S)) (h : ∀ a, instance? = some a → good a) :
    At good i .get (.done (.got instance?))
  | asked (b : Bool) : At good i .isInitialized (.done (.isInitialized b))
  | cleared : At good i .reset (.done .unit)

theorem At.mono {good good' : Arc ι S → Prop} (hgood : ∀ a, good a → good' a) {i : ι}
    {call : CachedCall S} {flow : Flow (CachedService ι S) (CachedReply ι S)}
    (hat : At good i call flow) : At good' i call flow := by
  cases hat with
  | start => exact .start _
  | idle init => exact .idle init
  | initialising init => exact .initialising init
  | storing service => exact .storing service
  | failed e => exact .failed e
  | obtained init a ha => exact .obtained init a (hgood a ha)
  | got instance? h => exact .got instance? fun a ha => hgood a (h a ha)
  | asked b => exact .asked b
  | cleared => exact .cleared

/-- **One access.** A call that obtains an instance obtains what the cell holds after the access. -/
theorem At.access {good good' : Arc ι S → Prop} {i : ι} {call : CachedCall S}
    {flow : Flow (CachedService ι S) (CachedReply ι S)} (hat : At good i call flow)
    {f : CachedService ι S → CachedService ι S}
    {k : CachedService ι S → Flow (CachedService ι S) (CachedReply ι S)}
    (hflow : flow = .access f k) {cell : CachedService ι S}
    (hcell : ∀ a, f cell = some a → good' a) : At good' i call (k cell) := by
  cases hat with
  | start =>
    cases call with
    | getOrInit init =>
      obtain ⟨rfl, rfl⟩ := Flow.access.inj hflow
      cases cell with
      | none => exact .idle init
      | some a => exact .obtained init a (hcell a rfl)
    | isInitialized =>
      obtain ⟨rfl, rfl⟩ := Flow.access.inj hflow
      exact .asked cell.isSome
    | get =>
      obtain ⟨rfl, rfl⟩ := Flow.access.inj hflow
      exact .got cell hcell
    | reset =>
      obtain ⟨rfl, rfl⟩ := Flow.access.inj hflow
      exact .cleared
  | idle init =>
    obtain ⟨rfl, rfl⟩ := Flow.access.inj hflow
    exact .initialising init
  | initialising init =>
    obtain ⟨rfl, rfl⟩ := Flow.access.inj hflow
    cases init with
    | error e => exact .failed e
    | ok service => exact .storing service
  | storing service =>
    obtain ⟨rfl, rfl⟩ := Flow.access.inj hflow
    exact .obtained _ _ (hcell _ rfl)
  | failed | obtained | got | asked | cleared => cases hflow

/-- What an access does to the cell: nothing, or it is the double check of a `get_or_init`, or a
reset. -/
theorem At.access_cases {good : Arc ι S → Prop} {i : ι} {call : CachedCall S}
    {flow : Flow (CachedService ι S) (CachedReply ι S)} (hat : At good i call flow)
    {f : CachedService ι S → CachedService ι S}
    {k : CachedService ι S → Flow (CachedService ι S) (CachedReply ι S)}
    (hflow : flow = .access f k) (cell : CachedService ι S) :
    (call ≠ .reset ∧ f cell = cell) ∨
      (∃ service, call = .getOrInit (.ok service) ∧ flow = (storeBody ⟨i, service⟩).flow ∧
        f cell = some (cell.getD ⟨i, service⟩)) ∨
      (call = .reset ∧ f cell = none) := by
  cases hat with
  | start =>
    cases call with
    | getOrInit | isInitialized | get =>
      obtain ⟨rfl, -⟩ := Flow.access.inj hflow
      exact .inl ⟨nofun, rfl⟩
    | reset =>
      obtain ⟨rfl, -⟩ := Flow.access.inj hflow
      exact .inr (.inr ⟨rfl, rfl⟩)
  | idle | initialising =>
    obtain ⟨rfl, -⟩ := Flow.access.inj hflow
    exact .inl ⟨nofun, rfl⟩
  | storing service =>
    obtain ⟨rfl, -⟩ := Flow.access.inj hflow
    exact .inr (.inl ⟨service, rfl, rfl, rfl⟩)
  | failed | obtained | got | asked | cleared => cases hflow

/-- An instance that a call has obtained is a good one. -/
theorem At.good_of_obtained {good : Arc ι S → Prop} {c : Running ι S} {i : ι} {call : CachedCall S}
    (hat : At good i call (c.flow i)) {a : Arc ι S} (h : Obtained c i a) : good a := by
  have hflow : c.flow i = .done (.service (.ok a)) ∨ c.flow i = .done (.got (some a)) :=
    h.imp Config.flow_of_done Config.flow_of_done
  generalize c.flow i = flow at hat hflow
  cases hat with
  | obtained init b hb =>
    rcases hflow with hflow | hflow
    · cases hflow
      exact hb
    · cases hflow
  | got instance? hgot =>
    rcases hflow with hflow | hflow
    · cases hflow
    · cases hflow
      exact hgot a rfl
  | start => cases call <;> rcases hflow with hflow | hflow <;> cases hflow
  | idle | initialising | storing | failed | asked | cleared =>
    rcases hflow with hflow | hflow <;> cases hflow

/-! ### Agreement -/

/-- There is no reset among the calls. -/
def NoReset (calls : ι → CachedCall S) : Prop := ∀ i, calls i ≠ .reset

/-- Every instance that a call has obtained is the one in the cell. -/
def Agree (calls : ι → CachedCall S) (cell : CachedService ι S)
    (flows : ι → Flow (CachedService ι S) (CachedReply ι S)) : Prop :=
  ∀ i, At (fun a => cell = some a) i (calls i) (flows i)

theorem agree_launch (calls : ι → CachedCall S) :
    Agree calls (launch calls).store (launch calls).flow :=
  fun i => .start (calls i)

/-- Without resets, an access leaves a filled cell as it is. -/
theorem Agree.keeps {calls : ι → CachedCall S} (hno : NoReset calls) {cell : CachedService ι S}
    {flows : ι → Flow (CachedService ι S) (CachedReply ι S)} (h : Agree calls cell flows) {i : ι}
    {f : CachedService ι S → CachedService ι S}
    {k : CachedService ι S → Flow (CachedService ι S) (CachedReply ι S)}
    (hflow : flows i = .access f k) {a : Arc ι S} (ha : cell = some a) : f cell = some a := by
  rcases (h i).access_cases hflow cell with ⟨-, hid⟩ | ⟨service, -, -, hstore⟩ | ⟨hreset, -⟩
  · rw [hid, ha]
  · rw [hstore, ha]
    rfl
  · exact absurd hreset (hno i)

variable [DecidableEq ι]

/-- **The step lemma.** -/
theorem Agree.step {calls : ι → CachedCall S} (hno : NoReset calls) {cell : CachedService ι S}
    {flows : ι → Flow (CachedService ι S) (CachedReply ι S)} (h : Agree calls cell flows) {i : ι}
    {f : CachedService ι S → CachedService ι S}
    {k : CachedService ι S → Flow (CachedService ι S) (CachedReply ι S)}
    (hflow : flows i = .access f k) :
    Agree calls (f cell) (Function.update flows i (k cell)) := by
  have hself : At (fun a => f cell = some a) i (calls i) (k cell) :=
    (h i).access hflow fun a ha => ha
  have hother : ∀ j, j ≠ i → At (fun a => f cell = some a) j (calls j) (flows j) := fun j _ =>
    (h j).mono fun a ha => h.keeps hno hflow ha
  exact (Function.forall_update_iff flows fun j flow =>
    At (fun a => f cell = some a) j (calls j) flow).mpr ⟨hself, hother⟩

variable [Fintype ι]

/-- **The run lemma.** -/
theorem agree_of_reaches {calls : ι → CachedCall S} (hno : NoReset calls) {c c' : Running ι S}
    (hreach : c.Reaches c') (h : Agree calls c.store c.flow) : Agree calls c'.store c'.flow :=
  hreach.flow_invariant h fun _ _ _ _ _ h hflow => h.step hno hflow

/-- A call whose `init` fails leaves the cell unchanged. -/
theorem store_step_of_error {calls : ι → CachedCall S} (hno : NoReset calls) {c c' : Running ι S}
    (h : Agree calls c.store c.flow) {i : ι} {e : GatewayError}
    (hcall : calls i = .getOrInit (.error e)) (hstep : c.step? i = some c') :
    c'.store = c.store := by
  cases Config.step?_flow hstep with
  | lock hstore _ => exact hstore
  | access f k hat hflow hstore hself hother =>
    rw [hstore]
    rcases (h i).access_cases hflow c.store with ⟨-, hid⟩ | ⟨service, hok, -, -⟩ | ⟨hreset, -⟩
    · exact hid
    · rw [hcall] at hok
      cases hok
    · exact absurd hreset (hno i)

/-- A call whose `init` is running and fails returns its error. -/
theorem error_of_initialising {calls : ι → CachedCall S} {c c' : Running ι S} {i : ι}
    {e : GatewayError} (hcall : calls i = .getOrInit (.error e)) (hinit : Initialising calls c i)
    (hreach : c.Reaches c') {reply : CachedReply ι S} (hreply : Returned c' i reply) :
    reply = .service (.error e) := by
  have hrunning : c.flow i = (runningInitBody i (.error e : GatewayResult S)).flow := by
    obtain ⟨init, hcall', hprog⟩ := hinit
    rw [hcall] at hcall'
    cases hcall'
    rw [Config.flow, hprog]
  have hinv : c'.flow i = (runningInitBody i (.error e : GatewayResult S)).flow ∨
      c'.flow i = .done (.service (.error e)) := by
    refine hreach.one_flow_invariant (P := fun flow =>
      flow = (runningInitBody i (.error e : GatewayResult S)).flow ∨
        flow = .done (.service (.error e))) (.inl hrunning) ?_
    rintro s f k (h | h)
    · obtain ⟨-, rfl⟩ := Flow.access.inj h
      exact .inr rfl
    · cases h
  have hdone : c'.flow i = .done reply := Config.flow_of_done hreply
  rw [hdone] at hinv
  rcases hinv with h | h
  · cases h
  · exact Flow.done.inj h

/-- **Agreement.** In every run of calls without a reset, all instances that calls have obtained are
the one in the cell, so they are the same; the cell keeps an instance for good; and a call whose
`init` fails returns its error and leaves the cell unchanged. -/
theorem getOrInit_agree {calls : ι → CachedCall S} (hno : NoReset calls) {c : Running ι S}
    (hreach : (launch calls).Reaches c) :
    (∀ i a, Obtained c i a → c.store = some a) ∧
      (∀ i j a b, Obtained c i a → Obtained c j b → a = b) ∧
      (∀ c' a, c.Reaches c' → c.store = some a → c'.store = some a) ∧
      (∀ i e, calls i = .getOrInit (.error e) →
        (∀ c', c.step? i = some c' → c'.store = c.store) ∧
        (Initialising calls c i → ∀ c' reply, c.Reaches c' → Returned c' i reply →
          reply = .service (.error e))) := by
  have hagree : Agree calls c.store c.flow := agree_of_reaches hno hreach (agree_launch calls)
  have hobtained : ∀ i a, Obtained c i a → c.store = some a := fun i a h =>
    (hagree i).good_of_obtained h
  refine ⟨hobtained, fun i j a b ha hb => ?_, fun c' a hreach' ha => ?_, fun i e hcall => ?_⟩
  · have heq : some a = some b := (hobtained i a ha).symm.trans (hobtained j b hb)
    exact Option.some.inj heq
  · have hinv : Agree calls c'.store c'.flow ∧ c'.store = some a := by
      refine hreach'.flow_invariant (P := fun cell flows => Agree calls cell flows ∧ cell = some a)
        ⟨hagree, ha⟩ ?_
      rintro cell flows j f k ⟨h, hcell⟩ hflow
      exact ⟨h.step hno hflow, h.keeps hno hflow hcell⟩
    exact hinv.2
  · exact ⟨fun c' hstep => store_step_of_error hno hagree hcall hstep,
      fun hinit c' reply hreach' hreply => error_of_initialising hcall hinit hreach' hreply⟩

/-- The schedule that lets two calls of `get_or_init` both find the cell empty. -/
def bothMiss : List Bool :=
  [false, false, false, true, true, true, false, true, false, true, false, false, false, true, true,
    true]

/-- Two calls that both find the cell empty obtain the same instance. -/
theorem getOrInit_agree_two : ∃ c : Running Bool ℕ,
    (launch fun i => .getOrInit (.ok (if i then 1 else 2))).run? bothMiss = some c ∧
      ∀ a b, Obtained c false a → Obtained c true b → a = b := by
  have hfinishes : ((launch fun i : Bool =>
      CachedCall.getOrInit (.ok (if i then 1 else 2))).run? bothMiss).isSome = true := by decide
  obtain ⟨c, hc⟩ := Option.isSome_iff_exists.mp hfinishes
  have hno : NoReset fun i : Bool => CachedCall.getOrInit (.ok (if i then 1 else 2)) := fun i => nofun
  obtain ⟨-, hsame, -, -⟩ := getOrInit_agree hno (Config.reaches_of_run? hc)
  exact ⟨c, hc, fun a b => hsame false true a b⟩

end SweGateway.CachedService
