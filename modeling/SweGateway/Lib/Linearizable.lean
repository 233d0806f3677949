import SweGateway.Lib.Flow
import SweGateway.Lib.Runs

/-!
# Linearizability

The calls of a set run as threads over a store.  A run of them is *linearizable* if some order of
the calls, executed one after another, gives the same replies and leaves the same store, and if a
call that had returned before another one began stands before it in the order.

The rule to prove it is a forward simulation (`exists_order`).  It goes along the run with the store
and the replies of the calls that are in the order so far; at one of its own accesses, and at no
other step, a call is appended to the order.  The order is then a part of the schedule, and so it
agrees with the real time of the run (`Precedes.idxOf_lt`).

Where a call goes through stages and takes effect at the access that leads from one without a reply
to one with a reply, the simulation is that every call is at such a stage
(`linearizable_of_stages`).
-/

namespace Concurrent

variable {ι L S R : Type} [DecidableEq ι]

omit [DecidableEq ι] in
/-- What a program has returned. -/
def Prog.result : Prog L S R → Option R
  | .done r => some r
  | _ => none

omit [DecidableEq ι] in
theorem Prog.result_of_isDone {prog : Prog L S R} (h : prog.isDone = true) :
    ∃ r, prog.result = some r := by
  cases prog with
  | done r => exact ⟨r, rfl⟩
  | _ => cases h

/-! ### Sequences of calls -/

/-- The calls of `order` one after another: their replies and the store they leave. -/
def inSequence (run : ι → S → R × S) (s : S) (order : List ι) : (ι → Option R) × S :=
  Runs.exec (fun st i => (Function.update st.1 i (some (run i st.2).1), (run i st.2).2))
    (fun _ => none, s) order

@[simp] theorem inSequence_nil (run : ι → S → R × S) (s : S) :
    inSequence run s [] = (fun _ => none, s) := rfl

theorem inSequence_concat (run : ι → S → R × S) (s : S) (order : List ι) (i : ι) :
    inSequence run s (order ++ [i]) =
      (Function.update (inSequence run s order).1 i (some (run i (inSequence run s order).2).1),
        (run i (inSequence run s order).2).2) := by
  simp [inSequence]

/-- The calls without a reply are those outside the order. -/
theorem inSequence_eq_none_iff {run : ι → S → R × S} {s : S} {order : List ι} {i : ι} :
    (inSequence run s order).1 i = none ↔ i ∉ order := by
  induction order using List.reverseRecOn with
  | nil => simp
  | append_singleton order j ih =>
    rw [inSequence_concat]
    by_cases hij : i = j
    · subst hij
      simp
    · simp [ih, hij]

/-! ### Real time -/

omit [DecidableEq ι] in
/-- At some point of the schedule, `i` has taken its last step and `j` has not begun. -/
def Precedes (schedule : List ι) (i j : ι) : Prop :=
  ∃ n, i ∉ schedule.drop n ∧ j ∉ schedule.take n

/-- An order that is a part of the schedule agrees with it. -/
theorem Precedes.idxOf_lt {schedule order : List ι} {i j : ι} (h : Precedes schedule i j)
    (hsub : order.Sublist schedule) (hi : i ∈ order) (hj : j ∈ order) :
    order.idxOf i < order.idxOf j := by
  obtain ⟨n, hi', hj'⟩ := h
  rw [← List.take_append_drop n schedule] at hsub
  obtain ⟨before, behind, rfl, hbefore, hbehind⟩ := List.sublist_append_iff.mp hsub
  have hibefore : i ∈ before := by
    rcases List.mem_append.mp hi with h | h
    · exact h
    · exact absurd (hbehind.subset h) hi'
  have hjbefore : j ∉ before := fun h => hj' (hbefore.subset h)
  rw [List.idxOf_append_of_mem hibefore, List.idxOf_append_of_notMem hjbefore]
  have hlt := List.idxOf_lt_length_of_mem hibefore
  omega

/-- **Linearizability** of the run `schedule` from the store `s` to the configuration `c`. -/
def Linearizable (run : ι → S → R × S) (s : S) (schedule : List ι) (c : Config ι L S R) : Prop :=
  ∃ order : List ι, order.Nodup ∧ (∀ i, i ∈ order) ∧
    (∀ i j, Precedes schedule i j → order.idxOf i < order.idxOf j) ∧
    (inSequence run s order).2 = c.store ∧
    ∀ i r, (c.threads i).prog.result = some r → (inSequence run s order).1 i = some r

/-! ### The simulation -/

/-- What a step of the thread `i` means for the calls in the order: nothing, or that the call `i`
comes next. -/
def Follows (run : ι → S → R × S) (Sim : Config ι L S R → (ι → Option R) × S → Prop) (i : ι)
    (c' : Config ι L S R) (st : (ι → Option R) × S) : Prop :=
  Sim c' st ∨ st.1 i = none ∧
    Sim c' (Function.update st.1 i (some (run i st.2).1), (run i st.2).2)

variable [Fintype ι] [DecidableEq L]

/-- **The simulation rule.** If the threads start in a simulation and every step that `ok` allows
keeps it, then a run of such steps is simulated by some of its calls in an order that is a part of
the schedule. -/
theorem exists_order {run : ι → S → R × S} {Sim : Config ι L S R → (ι → Option R) × S → Prop}
    {ok : Config ι L S R → ι → Prop} {c₀ : Config ι L S R} {s : S} (h0 : Sim c₀ (fun _ => none, s))
    (hstep : ∀ c i c' st, ok c i → Sim c st → c.step? i = some c' → Follows run Sim i c' st)
    {schedule : List ι} {c : Config ι L S R} (hrun : c₀.run? schedule = some c)
    (hok : Runs.EachStep (fun pre i => ∀ c, c₀.run? pre = some c → ok c i) schedule) :
    ∃ order : List ι, order.Sublist schedule ∧ order.Nodup ∧ Sim c (inSequence run s order) := by
  induction schedule using List.reverseRecOn generalizing c with
  | nil =>
    obtain rfl : c₀ = c := Option.some.inj hrun
    exact ⟨[], List.Sublist.refl [], List.nodup_nil, h0⟩
  | append_singleton schedule i ih =>
    obtain ⟨c₁, hrun₁, hstep₁⟩ := Config.run?_concat_eq_some hrun
    obtain ⟨hprev, hlast⟩ := Runs.EachStep.concat_iff.mp hok
    obtain ⟨order, hsub, hnodup, hsim⟩ := ih hrun₁ hprev
    rcases hstep c₁ i c _ (hlast c₁ hrun₁) hsim hstep₁ with hsame | ⟨hnone, hnext⟩
    · exact ⟨order, hsub.trans (List.sublist_append_left schedule [i]), hnodup, hsame⟩
    · have hi : i ∉ order := inSequence_eq_none_iff.mp hnone
      refine ⟨order ++ [i], hsub.append (List.Sublist.refl [i]), ?_, ?_⟩
      · exact hnodup.append (List.nodup_singleton i) (by simpa using hi)
      · rwa [inSequence_concat]

section Finished

omit [Fintype ι] [DecidableEq L]

variable {run : ι → S → R × S} {s : S} {schedule order : List ι} {c : Config ι L S R}

/-- An order that gives every finished call its reply has all of the calls. -/
theorem mem_order_of_reply (hdone : ∀ i, (c.threads i).prog.isDone = true)
    (hreply : ∀ i, (inSequence run s order).1 i = (c.threads i).prog.result) (i : ι) :
    i ∈ order := by
  obtain ⟨r, hr⟩ := Prog.result_of_isDone (hdone i)
  by_contra hi
  have hnone : (inSequence run s order).1 i = none := inSequence_eq_none_iff.mpr hi
  rw [hreply, hr] at hnone
  cases hnone

/-- An order that is a part of the schedule and gives every call its reply makes the run
linearizable. -/
theorem Linearizable.of_order (hsub : order.Sublist schedule) (hnodup : order.Nodup)
    (hstore : (inSequence run s order).2 = c.store)
    (hdone : ∀ i, (c.threads i).prog.isDone = true)
    (hreply : ∀ i, (inSequence run s order).1 i = (c.threads i).prog.result) :
    Linearizable run s schedule c := by
  have hall := mem_order_of_reply hdone hreply
  refine ⟨order, hnodup, hall, fun i j h => ?_, hstore, fun i r hr => ?_⟩
  · exact h.idxOf_lt hsub (hall i) (hall j)
  · rw [hreply, hr]

end Finished

/-! ### Calls that take effect at one access -/

section Stages

variable {run : ι → S → R × S} {At : ι → Option R → Flow S R → Prop}
  {ok : Config ι L S R → ι → Prop}

/-- The store is the one that the calls in the order leave, and each call is at a stage that its
reply allows. -/
structure Staged (At : ι → Option R → Flow S R → Prop) (c : Config ι L S R)
    (st : (ι → Option R) × S) : Prop where
  store : c.store = st.2
  threads : ∀ i, At i (st.1 i) (c.flow i)

/-- What an access of the call `i` may do: it leaves the store as it is and leads to a stage with the
same reply, or it is the one where the call takes effect. -/
def Takes (run : ι → S → R × S) (At : ι → Option R → Flow S R → Prop) (i : ι) (reply : Option R)
    (f : S → S) (k : S → Flow S R) (s : S) : Prop :=
  (f s = s ∧ At i reply (k s)) ∨
    reply = none ∧ At i (some (run i s).1) (k s) ∧ f s = (run i s).2

/-- **One step** of a call. -/
theorem Staged.step {c c' : Config ι L S R} {st : (ι → Option R) × S} {i : ι}
    (hsim : Staged At c st) (h : c.step? i = some c')
    (htakes : ∀ f k, (c.threads i).prog.atAccess = true → c.flow i = .access f k →
      Takes run At i (st.1 i) f k c.store) : Follows run (Staged At) i c' st := by
  cases Config.step?_flow h with
  | lock hstore hflow =>
    refine .inl ⟨hstore.trans hsim.store, fun j => ?_⟩
    rw [hflow]
    exact hsim.threads j
  | access f k hat hflow hstore hself hother =>
    rcases htakes f k hat hflow with ⟨hsame, hstage⟩ | ⟨hnone, hstage, heffect⟩
    · refine .inl ⟨hstore.trans (hsame.trans hsim.store), fun j => ?_⟩
      by_cases hj : j = i
      · subst hj
        rw [hself]
        exact hstage
      · rw [hother j hj]
        exact hsim.threads j
    · rw [hsim.store] at hstage heffect
      refine .inr ⟨hnone, ?_, fun j => ?_⟩
      · rw [hstore, hsim.store, heffect]
      · dsimp only
        by_cases hj : j = i
        · subst hj
          rw [hself, hsim.store, Function.update_self]
          exact hstage
        · rw [hother j hj, Function.update_of_ne hj]
          exact hsim.threads j

/-- **The rule for stages.** If every call goes through stages, takes effect at one of its accesses
and returns the reply it has from there on, then a finished run is linearizable. -/
theorem linearizable_of_stages {c₀ c : Config ι L S R} {schedule : List ι}
    (h0 : ∀ i, At i none (c₀.flow i))
    (htakes : ∀ c i reply f k, ok c i → (c.threads i).prog.atAccess = true →
      c.flow i = .access f k → At i reply (.access f k) → Takes run At i reply f k c.store)
    (hreply : ∀ i reply r, At i reply (.done r) → reply = some r)
    (hrun : c₀.run? schedule = some c) (hdone : ∀ i, (c.threads i).prog.isDone = true)
    (hok : Runs.EachStep (fun pre i => ∀ c, c₀.run? pre = some c → ok c i) schedule) :
    Linearizable run c₀.store schedule c := by
  have hstart : Staged At c₀ (fun _ => none, c₀.store) := ⟨rfl, h0⟩
  have hstep : ∀ c i c' st, ok c i → Staged At c st → c.step? i = some c' →
      Follows run (Staged At) i c' st := by
    intro c i c' st hok hsim h
    refine hsim.step h fun f k hat hflow => ?_
    exact htakes c i (st.1 i) f k hok hat hflow (hflow ▸ hsim.threads i)
  obtain ⟨order, hsub, hnodup, hsim⟩ := exists_order hstart hstep hrun hok
  refine .of_order hsub hnodup hsim.store.symm hdone fun i => ?_
  obtain ⟨r, hr⟩ := Prog.result_of_isDone (hdone i)
  have hat := hsim.threads i
  cases hprog : (c.threads i).prog with
  | done r =>
    rw [Config.flow_of_done hprog] at hat
    exact hreply i _ r hat
  | acquire | access | release =>
    rw [hprog] at hr
    cases hr

end Stages

omit [Fintype ι] [DecidableEq L] [DecidableEq ι] in
/-- The two orders of two calls. -/
theorem order_of_two {order : List Bool} (hnodup : order.Nodup) (hall : ∀ i, i ∈ order) :
    order = [false, true] ∨ order = [true, false] := by
  match order with
  | [] => exact absurd (hall true) List.not_mem_nil
  | [a] =>
    have hfalse := hall false
    have htrue := hall true
    cases a <;> simp at hfalse htrue
  | [a, b] => cases a <;> cases b <;> simp_all
  | a :: b :: d :: rest => cases a <;> cases b <;> cases d <;> simp at hnodup

end Concurrent
