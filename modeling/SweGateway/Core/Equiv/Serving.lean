import SweGateway.Core.Equiv.Pipeline
import SweGateway.Core.Serving

/-!
# Executions that take turns

What is left of an execution is a computation again, `remaining`, and its next stage is the first
step of it (`remaining_advance`).  An execution that runs undisturbed therefore does what `execute`
does (`Serving.alone`).
-/

namespace SweGateway

namespace DefaultPipeline

variable {W Req Resp Err : Type}

/-- What is left of an execution. -/
def remaining (p : DefaultPipeline W Req Resp Err) : Progress Req Resp Err → Eff W Err Resp
  | .pre k req => preLoop (p.pre.drop k) (.continue req) >>= finish p
  | .post k resp => postLoop (p.post.drop k) resp
  | .done result => .ofExcept result

/-- How many stages an execution can still take, and its return. -/
def stagesLeft (p : DefaultPipeline W Req Resp Err) : Progress Req Resp Err → ℕ
  | .pre k _ => (p.pre.length - k) + p.post.length + 2
  | .post k _ => (p.post.length - k) + 1
  | .done _ => 0

theorem postLoop_cons (mw : ResponseMiddleware W Resp Err) (post : List (ResponseMiddleware W Resp Err))
    (resp : Resp) :
    postLoop (mw :: post) resp = mw.processResponse resp >>= postLoop post := by
  unfold postLoop
  exact List.foldlM_cons

/-- **A stage is the first step** of what is left. -/
theorem remaining_advance (p : DefaultPipeline W Req Resp Err) (s : Progress Req Resp Err) (w : W) :
    p.remaining (p.advance s w).1 (p.advance s w).2 = p.remaining s w := by
  cases s with
  | pre k req =>
    cases hk : p.pre[k]? with
    | some mw =>
      have hdrop : p.pre.drop k = mw :: p.pre.drop (k + 1) := by
        obtain ⟨hlt, rfl⟩ := List.getElem?_eq_some_iff.mp hk
        exact List.drop_eq_getElem_cons hlt
      rw [advance_pre hk, remaining, hdrop, preLoop_cons, bind_assoc]
      rcases Eff.ok_or_error (mw.processRequestAction req) w with ⟨action, w', h⟩ | ⟨e, w', h⟩
      · rw [Eff.bind_of_ok h, h]
        cases action with
        | «continue» req' => rfl
        | shortCircuit resp =>
          rw [preLoop_shortCircuit, pure_bind]
          rfl
      · rw [Eff.bind_of_error h, h]
        rfl
    | none =>
      have hdrop : p.pre.drop k = [] := List.drop_eq_nil_of_le (List.getElem?_eq_none_iff.mp hk)
      rw [advance_router hk, remaining, hdrop, preLoop_nil, pure_bind, finish]
      rcases Eff.ok_or_error (p.router.dispatch req) w with ⟨resp, w', h⟩ | ⟨e, w', h⟩
      · rw [Eff.bind_of_ok h, h]
        rfl
      · rw [Eff.bind_of_error h, h]
        rfl
  | post k resp =>
    cases hk : p.post[k]? with
    | some mw =>
      have hdrop : p.post.drop k = mw :: p.post.drop (k + 1) := by
        obtain ⟨hlt, rfl⟩ := List.getElem?_eq_some_iff.mp hk
        exact List.drop_eq_getElem_cons hlt
      rw [advance_post hk, remaining, hdrop, postLoop_cons]
      rcases Eff.ok_or_error (mw.processResponse resp) w with ⟨resp', w', h⟩ | ⟨e, w', h⟩
      · rw [Eff.bind_of_ok h, h]
        rfl
      · rw [Eff.bind_of_error h, h]
        rfl
    | none =>
      have hdrop : p.post.drop k = [] := List.drop_eq_nil_of_le (List.getElem?_eq_none_iff.mp hk)
      rw [advance_return hk, remaining, hdrop]
      rfl
  | done result => rfl

/-- Every stage leaves fewer. -/
theorem stagesLeft_advance (p : DefaultPipeline W Req Resp Err) {s : Progress Req Resp Err}
    (hs : 0 < p.stagesLeft s) (w : W) : p.stagesLeft (p.advance s w).1 < p.stagesLeft s := by
  cases s with
  | pre k req =>
    cases hk : p.pre[k]? with
    | some mw =>
      obtain ⟨hlt, -⟩ := List.getElem?_eq_some_iff.mp hk
      rw [advance_pre hk]
      rcases (mw.processRequestAction req w).1 with e | req' | resp <;>
        simp only [afterAction, stagesLeft] <;> omega
    | none =>
      rw [advance_router hk]
      rcases (p.router.dispatch req w).1 with e | resp <;>
        simp only [afterResponse, stagesLeft] <;> omega
  | post k resp =>
    cases hk : p.post[k]? with
    | some mw =>
      obtain ⟨hlt, -⟩ := List.getElem?_eq_some_iff.mp hk
      rw [advance_post hk]
      rcases (mw.processResponse resp w).1 with e | resp' <;>
        simp only [afterResponse, stagesLeft] <;> omega
    | none =>
      rw [advance_return hk]
      simp only [stagesLeft]
      omega
  | done result => exact absurd hs (Nat.lt_irrefl 0)

end DefaultPipeline

namespace Serving

open DefaultPipeline

variable {ι W Req Resp Err : Type} [DecidableEq ι]

/-- What is left of an execution, if nobody disturbs it. -/
theorem serves_remaining (p : DefaultPipeline W Req Resp Err) (others : W → W → Prop) (i : ι)
    (n : ℕ) : ∀ c : Serving ι W Req Resp Err, p.stagesLeft (c.executions i) = n →
    ∃ dispatched, Serves p others c
      { world := (p.remaining (c.executions i) c.world).2
        executions := Function.update c.executions i
          (.done (p.remaining (c.executions i) c.world).1)
        dispatched } := by
  induction n using Nat.strongRecOn with
  | ind n ih =>
    intro c hn
    rcases Nat.eq_zero_or_pos (p.stagesLeft (c.executions i)) with hzero | hpos
    · -- the execution has returned
      cases hi : c.executions i with
      | done result =>
        refine ⟨c.dispatched, ?_⟩
        have hsame : Function.update c.executions i (.done result) = c.executions := by
          rw [← hi, Function.update_eq_self]
        simp only [remaining, Eff.ofExcept, hsame]
        exact Relation.ReflTransGen.refl
      | pre | post =>
        rw [hi] at hzero
        simp [stagesLeft] at hzero
    · have hless := stagesLeft_advance p hpos c.world
      have hself : (c.step p i).executions i = (p.advance (c.executions i) c.world).1 :=
        Function.update_self ..
      have hworld : (c.step p i).world = (p.advance (c.executions i) c.world).2 := rfl
      obtain ⟨dispatched, hrest⟩ := ih _ (hn ▸ hless) (c.step p i) (by rw [hself])
      refine ⟨dispatched, Relation.ReflTransGen.head (.stage i) ?_⟩
      have hupdate : ∀ progress, Function.update (c.step p i).executions i progress =
          Function.update c.executions i progress := fun progress => Function.update_idem ..
      rw [hself, hworld, remaining_advance, hupdate] at hrest
      exact hrest

/-- **An execution that nobody disturbs** returns what `execute` returns, and leaves the world that
it leaves. -/
theorem alone (p : DefaultPipeline W Req Resp Err) (others : W → W → Prop)
    {c : Serving ι W Req Resp Err} {i : ι} {req : Req} (hi : c.executions i = .pre 0 req) :
    ∃ dispatched, Serves p others c
      { world := (p.execute req c.world).2
        executions := Function.update c.executions i (.done (p.execute req c.world).1)
        dispatched } := by
  have hstart : p.remaining (.pre 0 req) = p.execute req := by
    rw [execute_eq, remaining, List.drop_zero]
  rw [← hstart, ← hi]
  exact serves_remaining p others i _ c rfl

end Serving

end SweGateway
