import SweGateway.Lib.Eff

/-!
# Rewriting the places of a value one after the other

A `Place S A` is a part of an `S` that can be read and replaced.  `rewriteAll f ps` replaces the
places `ps` of a value in their order, each by what `f` makes of it, until `f` fails.  Nothing is
undone then: the places before the one where `f` has failed have been rewritten, and that one and
those after it have not (`rewriteAll_error`).  This needs the places to be apart from each other.
-/

/-- A part of an `S` that is an `A`. -/
structure Place (S A : Type) where
  get : S → A
  set : A → S → S
  get_set : ∀ a s, get (set a s) = a

namespace Place

variable {S A E R : Type}

/-- Replacing either of the places leaves the other as it is. -/
structure Apart (p q : Place S A) : Prop where
  left : ∀ a s, q.get (p.set a s) = q.get s
  right : ∀ a s, p.get (q.set a s) = p.get s

/-- Replaces the place by what `f` makes of it, if that succeeds. -/
def rewrite (f : A → Except E A) (p : Place S A) : Eff S E Unit := fun s =>
  match f (p.get s) with
  | .ok a => (.ok (), p.set a s)
  | .error e => (.error e, s)

/-- Replaces the places in their order. -/
def rewriteAll (f : A → Except E A) : List (Place S A) → Eff S E Unit
  | [] => pure ()
  | p :: ps => do
    rewrite f p
    rewriteAll f ps

theorem rewrite_of_ok {f : A → Except E A} {p : Place S A} {s : S} {a : A}
    (h : f (p.get s) = .ok a) : rewrite f p s = (.ok (), p.set a s) := by
  simp only [rewrite, h]

theorem rewrite_of_error {f : A → Except E A} {p : Place S A} {s : S} {e : E}
    (h : f (p.get s) = .error e) : rewrite f p s = (.error e, s) := by
  simp only [rewrite, h]

/-- The value that is left, if the computation has succeeded. -/
def outcome : Except E Unit × S → Except E S
  | (.ok (), s) => .ok s
  | (.error e, _) => .error e

/-- Rewriting a place, or computing its replacement first and the new value from it later. -/
theorem outcome_rewrite_bind {f : A → Except E A} {p : Place S A} {s : S} {x : Eff S E Unit}
    {k : A → Except E S} (h : ∀ a, outcome (x (p.set a s)) = k a) :
    outcome ((rewrite f p >>= fun _ => x) s) = f (p.get s) >>= k := by
  cases hf : f (p.get s) with
  | ok a =>
    rw [Eff.bind_of_ok (rewrite_of_ok hf), h]
    rfl
  | error e =>
    rw [Eff.bind_of_error (rewrite_of_error hf)]
    rfl

/-- What no replacement changes, rewriting does not change. -/
theorem rewriteAll_frame (f : A → Except E A) {ps : List (Place S A)} {g : S → R}
    (h : ∀ p ∈ ps, ∀ a s, g (p.set a s) = g s) (s : S) : g (rewriteAll f ps s).2 = g s := by
  induction ps generalizing s with
  | nil => rfl
  | cons p ps ih =>
    have hrest := ih fun q hq => h q (List.mem_cons_of_mem p hq)
    cases hf : f (p.get s) with
    | ok a =>
      rw [rewriteAll, Eff.bind_of_ok (rewrite_of_ok hf), hrest]
      exact h p List.mem_cons_self a s
    | error e => rw [rewriteAll, Eff.bind_of_error (rewrite_of_error hf)]

/-- A place that is apart from the ones that are rewritten stays as it is. -/
theorem get_rewriteAll (f : A → Except E A) {p : Place S A} {ps : List (Place S A)}
    (h : ∀ q ∈ ps, p.Apart q) (s : S) : p.get (rewriteAll f ps s).2 = p.get s :=
  rewriteAll_frame f (fun q hq => (h q hq).right) s

/-- Rewriting to the end rewrites every place. -/
theorem rewriteAll_ok {f : A → Except E A} {ps : List (Place S A)} (h : ps.Pairwise Apart)
    {s s' : S} (hok : rewriteAll f ps s = (.ok (), s')) :
    ∀ p ∈ ps, f (p.get s) = .ok (p.get s') := by
  induction ps generalizing s with
  | nil => exact nofun
  | cons p ps ih =>
    obtain ⟨hp, hps⟩ := List.pairwise_cons.mp h
    cases hf : f (p.get s) with
    | error e =>
      rw [rewriteAll, Eff.bind_of_error (rewrite_of_error hf)] at hok
      cases hok
    | ok a =>
      rw [rewriteAll, Eff.bind_of_ok (rewrite_of_ok hf)] at hok
      intro q hq
      rcases List.mem_cons.mp hq with rfl | hq
      · have hget := get_rewriteAll f hp (q.set a s)
        rw [hok, q.get_set] at hget
        rw [hf, hget]
      · rw [← (hp q hq).left a s]
        exact ih hps hok q hq

/-- Where rewriting fails, it fails at the first place that cannot be rewritten, with the places
before it rewritten and the others as they were. -/
theorem rewriteAll_error {f : A → Except E A} {ps : List (Place S A)} (h : ps.Pairwise Apart)
    {s s' : S} {e : E} (herr : rewriteAll f ps s = (.error e, s')) :
    ∃ before p after, ps = before ++ p :: after ∧
      (∀ q ∈ before, f (q.get s) = .ok (q.get s')) ∧ f (p.get s) = .error e ∧
      ∀ q ∈ p :: after, q.get s' = q.get s := by
  induction ps generalizing s with
  | nil => cases herr
  | cons p ps ih =>
    obtain ⟨hp, hps⟩ := List.pairwise_cons.mp h
    cases hf : f (p.get s) with
    | error e' =>
      rw [rewriteAll, Eff.bind_of_error (rewrite_of_error hf)] at herr
      obtain ⟨he, rfl⟩ := Prod.mk.inj herr
      cases he
      exact ⟨[], p, ps, rfl, nofun, hf, fun _ _ => rfl⟩
    | ok a =>
      rw [rewriteAll, Eff.bind_of_ok (rewrite_of_ok hf)] at herr
      obtain ⟨before, q, after, rfl, hbefore, hq, hafter⟩ := ih hps herr
      -- the later places are the same before and after `p` is replaced
      have hsame : ∀ r ∈ before ++ q :: after, r.get (p.set a s) = r.get s :=
        fun r hr => (hp r hr).left a s
      refine ⟨p :: before, q, after, rfl, ?_, ?_, ?_⟩
      · intro r hr
        rcases List.mem_cons.mp hr with rfl | hr
        · have hget := get_rewriteAll f hp (r.set a s)
          rw [herr, r.get_set] at hget
          rw [hf, hget]
        · rw [← hsame r (List.mem_append_left _ hr)]
          exact hbefore r hr
      · rw [← hsame q (List.mem_append_right _ List.mem_cons_self)]
        exact hq
      · intro r hr
        rw [hafter r hr]
        exact hsame r (List.mem_append_right _ hr)

end Place
