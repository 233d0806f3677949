import Mathlib.Data.List.Infix

/-!
# Runs of a deterministic step function

`exec step s ops` is the state reached from `s` by the operations `ops`.  A property of the states
of a run is stated about its *histories*: `Always P ops` says that `P` holds of every prefix of
`ops`, the empty one and `ops` itself included, so that `P` may look at the whole past and not only
at the last state.  `EachStep ok ops` says that every operation of `ops` is one that `ok` allows
after the operations before it.

The two are connected by one induction.  A property that every allowed operation keeps holds
throughout a run of allowed operations (`always_of_eachStep`); where an operation keeps the property
*exactly* when it is allowed, the two sides are equivalent (`always_iff_eachStep`).
-/

namespace Runs

variable {S Op : Type*}

/-- The state that the operations `ops`, taken in order, lead to from `s`. -/
def exec (step : S → Op → S) (s : S) (ops : List Op) : S := ops.foldl step s

@[simp] theorem exec_nil (step : S → Op → S) (s : S) : exec step s [] = s := rfl

@[simp] theorem exec_cons (step : S → Op → S) (s : S) (op : Op) (ops : List Op) :
    exec step s (op :: ops) = exec step (step s op) ops := rfl

@[simp] theorem exec_append (step : S → Op → S) (s : S) (ops ops' : List Op) :
    exec step s (ops ++ ops') = exec step (exec step s ops) ops' :=
  List.foldl_append

/-- `P` holds of every history of the run `ops`. -/
def Always (P : List Op → Prop) (ops : List Op) : Prop :=
  ∀ pre, pre <+: ops → P pre

/-- Every operation of the run `ops` is one that `ok` allows after its history. -/
def EachStep (ok : List Op → Op → Prop) (ops : List Op) : Prop :=
  ∀ pre op, pre ++ [op] <+: ops → ok pre op

theorem Always.concat_iff {P : List Op → Prop} {ops : List Op} {op : Op} :
    Always P (ops ++ [op]) ↔ Always P ops ∧ P (ops ++ [op]) := by
  constructor
  · intro h
    have hops : Always P ops := by
      intro pre hpre
      exact h pre (hpre.trans (List.prefix_append ops [op]))
    exact ⟨hops, h (ops ++ [op]) List.prefix_rfl⟩
  · rintro ⟨h, hlast⟩ pre hpre
    rcases List.prefix_concat_iff.mp hpre with rfl | hpre
    · exact hlast
    · exact h pre hpre

theorem EachStep.concat_iff {ok : List Op → Op → Prop} {ops : List Op} {op : Op} :
    EachStep ok (ops ++ [op]) ↔ EachStep ok ops ∧ ok ops op := by
  constructor
  · intro h
    have hops : EachStep ok ops := by
      intro pre o hpre
      exact h pre o (hpre.trans (List.prefix_append ops [op]))
    exact ⟨hops, h ops op List.prefix_rfl⟩
  · rintro ⟨h, hlast⟩ pre o hpre
    rcases List.prefix_concat_iff.mp hpre with heq | hpre
    · obtain ⟨rfl, ho⟩ := List.append_inj' heq rfl
      obtain rfl := List.singleton_inj.mp ho
      exact hlast
    · exact h pre o hpre

/-- The operations of a run with their histories, by position. -/
theorem eachStep_iff_getElem {ok : List Op → Op → Prop} {ops : List Op} :
    EachStep ok ops ↔ ∀ n (hn : n < ops.length), ok (ops.take n) ops[n] := by
  constructor
  · intro h n hn
    apply h
    rw [← List.take_succ_eq_append_getElem hn]
    exact List.take_prefix _ _
  · rintro h pre op ⟨rest, rfl⟩
    have hn : pre.length < (pre ++ [op] ++ rest).length := by simp
    simpa using h pre.length hn

/-- **The invariant rule.** What holds of the empty history and is kept by every allowed operation
holds throughout every run of allowed operations. -/
theorem always_of_eachStep {P : List Op → Prop} {ok : List Op → Op → Prop} (h0 : P [])
    (hstep : ∀ pre op, P pre → ok pre op → P (pre ++ [op])) {ops : List Op}
    (h : EachStep ok ops) : Always P ops := by
  induction ops using List.reverseRecOn with
  | nil =>
    intro pre hpre
    rw [List.prefix_nil.mp hpre]
    exact h0
  | append_singleton ops op ih =>
    obtain ⟨hops, hop⟩ := EachStep.concat_iff.mp h
    have hprev := ih hops
    exact Always.concat_iff.mpr ⟨hprev, hstep ops op (hprev ops List.prefix_rfl) hop⟩

/-- **The exact invariant rule.** Where an operation keeps `P` exactly when `ok` allows it, `P`
holds throughout a run exactly when every operation of the run is allowed. -/
theorem always_iff_eachStep {P : List Op → Prop} {ok : List Op → Op → Prop} (h0 : P [])
    (hstep : ∀ pre op, P pre → (P (pre ++ [op]) ↔ ok pre op)) (ops : List Op) :
    Always P ops ↔ EachStep ok ops := by
  constructor
  · intro h pre op hpre
    have hP : P pre := h pre ((List.prefix_append pre [op]).trans hpre)
    exact (hstep pre op hP).mp (h (pre ++ [op]) hpre)
  · apply always_of_eachStep h0
    intro pre op hP hok
    exact (hstep pre op hP).mpr hok

end Runs
