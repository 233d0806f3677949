import Mathlib.Init

/-!
# Effects that can fail

`Eff W Err α` is a computation that reads and changes a world `W` and then returns an `α` or fails
with an `Err`.  A failure does not undo what the computation did to the world, and nothing that
follows it in a `do` block runs: the `?` of the source is the bind of this monad.

`Eff.logged` adds to such a computation an event that records that it ran.  `Erases x y` says that
`x`, which keeps a log, is `y` to anybody who does not read the log; it is closed under the
operations of the monad and under loops over lists.  `ReadsOnly x` says that `x` changes nothing,
and `Maintains P x` that it keeps an invariant of the world.
-/

/-- A computation over the world `W` that returns an `α` or fails with an `Err`. -/
def Eff (W Err α : Type) : Type := W → Except Err α × W

namespace Eff

variable {W Err α β : Type}

/-- The first computation, and then, if it did not fail, the second. -/
def andThen (x : Eff W Err α) (f : α → Eff W Err β) : Eff W Err β := fun w =>
  match x w with
  | (.ok a, w') => f a w'
  | (.error e, w') => (.error e, w')

instance : Monad (Eff W Err) where
  pure a := fun w => (.ok a, w)
  bind := andThen

/-- The failure with `e`. -/
def fail (e : Err) : Eff W Err α := fun w => (.error e, w)

@[simp] theorem pure_apply (a : α) (w : W) : (pure a : Eff W Err α) w = (.ok a, w) := rfl

theorem bind_of_ok {x : Eff W Err α} {f : α → Eff W Err β} {w w' : W} {a : α}
    (h : x w = (.ok a, w')) : (x >>= f) w = f a w' := by
  simp only [bind, andThen, h]

theorem bind_of_error {x : Eff W Err α} {f : α → Eff W Err β} {w w' : W} {e : Err}
    (h : x w = (.error e, w')) : (x >>= f) w = (.error e, w') := by
  simp only [bind, andThen, h]

/-- What a sequence of two computations returned, the second one has returned after the first. -/
theorem bind_eq_ok {x : Eff W Err α} {f : α → Eff W Err β} {w w' : W} {b : β}
    (h : (x >>= f) w = (.ok b, w')) : ∃ a w₁, x w = (.ok a, w₁) ∧ f a w₁ = (.ok b, w') := by
  rcases hx : x w with ⟨e | a, w₁⟩
  · rw [bind_of_error hx] at h
    cases h
  · rw [bind_of_ok hx] at h
    exact ⟨a, w₁, rfl, h⟩

/-- A sequence of two computations has failed in the first one, or in the second one after it. -/
theorem bind_eq_error {x : Eff W Err α} {f : α → Eff W Err β} {w w' : W} {e : Err}
    (h : (x >>= f) w = (.error e, w')) :
    x w = (.error e, w') ∨ ∃ a w₁, x w = (.ok a, w₁) ∧ f a w₁ = (.error e, w') := by
  rcases hx : x w with ⟨e' | a, w₁⟩
  · rw [bind_of_error hx] at h
    cases h
    exact .inl rfl
  · rw [bind_of_ok hx] at h
    exact .inr ⟨a, w₁, rfl, h⟩

/-- A computation either returns or fails. -/
theorem ok_or_error (x : Eff W Err α) (w : W) :
    (∃ a w', x w = (.ok a, w')) ∨ ∃ e w', x w = (.error e, w') := by
  rcases hx : x w with ⟨e | a, w'⟩
  · exact .inr ⟨e, w', rfl⟩
  · exact .inl ⟨a, w', rfl⟩

instance : LawfulMonad (Eff W Err) := by
  refine LawfulMonad.mk' (Eff W Err) ?_ ?_ ?_
  · intro α x
    funext w
    rcases ok_or_error x w with ⟨a, w', h⟩ | ⟨e, w', h⟩
    · exact (bind_of_ok h).trans h.symm
    · exact (bind_of_error h).trans h.symm
  · exact fun _ _ => rfl
  · intro α β γ x f g
    funext w
    rcases ok_or_error x w with ⟨a, w', h⟩ | ⟨e, w', h⟩
    · rw [bind_of_ok h]
      simp only [bind, andThen, h]
    · rw [bind_of_error h]
      simp only [bind, andThen, h]

/-- Dropping the result of a computation does not change what it does to the world. -/
theorem bind_pure_snd (x : Eff W Err α) (b : β) (w : W) :
    ((x >>= fun _ => pure b) w).2 = (x w).2 := by
  rcases ok_or_error x w with ⟨a, w', h⟩ | ⟨e, w', h⟩
  · rw [bind_of_ok h, h]
    rfl
  · rw [bind_of_error h, h]

/-- A change of the world. -/
def modify (f : W → W) : Eff W Err Unit := fun w => (.ok (), f w)

/-- A call that reads and changes the world and cannot fail. -/
def call (f : W → α × W) : Eff W Err α := fun w => (.ok (f w).1, (f w).2)

theorem bind_call {f : W → α × W} {g : α → Eff W Err β} {w w' : W} {a : α} (h : f w = (a, w')) :
    (call f >>= g) w = g a w' :=
  bind_of_ok (by rw [call, h])

/-- A value or failure that is there already. -/
def ofExcept (r : Except Err α) : Eff W Err α := fun w => (r, w)

/-- The computation with its failures converted. -/
def mapError {Err' : Type} (f : Err → Err') (x : Eff W Err α) : Eff W Err' α := fun w =>
  match x w with
  | (.ok a, w') => (.ok a, w')
  | (.error e, w') => (.error (f e), w')

theorem mapError_of_ok {Err' : Type} {f : Err → Err'} {x : Eff W Err α} {w w' : W} {a : α}
    (h : x w = (.ok a, w')) : mapError f x w = (.ok a, w') := by
  simp only [mapError, h]

theorem mapError_of_error {Err' : Type} {f : Err → Err'} {x : Eff W Err α} {w w' : W} {e : Err}
    (h : x w = (.error e, w')) : mapError f x w = (.error (f e), w') := by
  simp only [mapError, h]

theorem mapError_eq_ok {Err' : Type} {f : Err → Err'} {x : Eff W Err α} {w w' : W} {a : α}
    (h : mapError f x w = (.ok a, w')) : x w = (.ok a, w') := by
  rcases ok_or_error x w with ⟨a', w₁, hx⟩ | ⟨e, w₁, hx⟩
  · rw [mapError_of_ok hx] at h
    cases h
    exact hx
  · rw [mapError_of_error hx] at h
    cases h

theorem mapError_eq_error {Err' : Type} {f : Err → Err'} {x : Eff W Err α} {w w' : W} {e : Err'}
    (h : mapError f x w = (.error e, w')) : ∃ e', x w = (.error e', w') ∧ e = f e' := by
  rcases ok_or_error x w with ⟨a, w₁, hx⟩ | ⟨e', w₁, hx⟩
  · rw [mapError_of_ok hx] at h
    cases h
  · rw [mapError_of_error hx] at h
    cases h
    exact ⟨e', hx, rfl⟩

/-- The computation with its failures replaced by a value. -/
def orElseReturn {Err' : Type} (a : α) (x : Eff W Err α) : Eff W Err' α := fun w =>
  match x w with
  | (.ok a', w') => (.ok a', w')
  | (.error _, w') => (.ok a, w')

/-! ### Reading -/

/-- The computation leaves the world as it is. -/
def ReadsOnly (x : Eff W Err α) : Prop := ∀ w, (x w).2 = w

theorem readsOnly_pure (a : α) : ReadsOnly (pure a : Eff W Err α) := fun _ => rfl

theorem readsOnly_ofExcept (r : Except Err α) : ReadsOnly (ofExcept r : Eff W Err α) := fun _ => rfl

theorem ReadsOnly.bind {x : Eff W Err α} {f : α → Eff W Err β} (hx : ReadsOnly x)
    (hf : ∀ a, ReadsOnly (f a)) : ReadsOnly (x >>= f) := by
  intro w
  have hw := hx w
  rcases ok_or_error x w with ⟨a, w', h⟩ | ⟨e, w', h⟩
  · rw [h] at hw
    rw [bind_of_ok h, hf a w']
    exact hw
  · rw [h] at hw
    rw [bind_of_error h]
    exact hw

theorem ReadsOnly.mapM {f : α → Eff W Err β} (hf : ∀ a, ReadsOnly (f a)) (l : List α) :
    ReadsOnly (l.mapM f) := by
  induction l with
  | nil => exact readsOnly_pure []
  | cons a l ih =>
    rw [List.mapM_cons]
    exact (hf a).bind fun b => ih.bind fun bs => readsOnly_pure (b :: bs)

/-- It fails, or it returns with the world as it was. -/
theorem ReadsOnly.cases {x : Eff W Err α} (hx : ReadsOnly x) (w : W) :
    (∃ a, x w = (.ok a, w)) ∨ ∃ e, x w = (.error e, w) := by
  have hw := hx w
  rcases ok_or_error x w with ⟨a, w', h⟩ | ⟨e, w', h⟩
  · rw [h] at hw
    exact .inl ⟨a, h.trans (Prod.ext rfl hw)⟩
  · rw [h] at hw
    exact .inr ⟨e, h.trans (Prod.ext rfl hw)⟩

/-! ### Invariants -/

/-- What holds of the world before the computation holds after it, whatever it returns. -/
def Maintains (P : W → Prop) (x : Eff W Err α) : Prop := ∀ w, P w → P (x w).2

section Maintains

variable {P : W → Prop}

theorem maintains_pure (a : α) : Maintains P (pure a : Eff W Err α) := fun _ h => h

theorem maintains_fail (e : Err) : Maintains P (fail e : Eff W Err α) := fun _ h => h

theorem maintains_ofExcept (r : Except Err α) : Maintains P (ofExcept r : Eff W Err α) :=
  fun _ h => h

theorem Maintains.bind {x : Eff W Err α} {f : α → Eff W Err β} (hx : Maintains P x)
    (hf : ∀ a, Maintains P (f a)) : Maintains P (x >>= f) := by
  intro w hw
  have hx' := hx w hw
  rcases ok_or_error x w with ⟨a, w', h⟩ | ⟨e, w', h⟩
  · rw [h] at hx'
    rw [bind_of_ok h]
    exact hf a w' hx'
  · rw [h] at hx'
    rw [bind_of_error h]
    exact hx'

theorem Maintains.mapError {Err' : Type} {f : Err → Err'} {x : Eff W Err α}
    (hx : Maintains P x) : Maintains P (mapError f x) := by
  intro w hw
  have hx' := hx w hw
  rw [Eff.mapError]
  rcases hxw : x w with ⟨_ | _, _⟩ <;> rwa [hxw] at hx'

theorem Maintains.orElseReturn {Err' : Type} {a : α} {x : Eff W Err α} (hx : Maintains P x) :
    Maintains P (orElseReturn a x : Eff W Err' α) := by
  intro w hw
  have hx' := hx w hw
  rw [Eff.orElseReturn]
  rcases hxw : x w with ⟨_ | _, _⟩ <;> rwa [hxw] at hx'

/-- A loop maintains what its body maintains. -/
theorem maintains_forIn {γ : Type} {l : List γ} {f : γ → β → Eff W Err (ForInStep β)}
    (hf : ∀ x ∈ l, ∀ b, Maintains P (f x b)) (b : β) : Maintains P (forIn l b f) := by
  induction l generalizing b with
  | nil =>
    rw [List.forIn_nil]
    exact maintains_pure b
  | cons x l ih =>
    rw [List.forIn_cons]
    refine (hf x List.mem_cons_self b).bind fun step => ?_
    cases step with
    | done b => exact maintains_pure b
    | yield b => exact ih (fun y hy => hf y (List.mem_cons_of_mem x hy)) b

end Maintains

/-! What handling an error leaves of the world. -/

theorem mapError_snd {Err' : Type} (f : Err → Err') (x : Eff W Err α) (w : W) :
    (mapError f x w).2 = (x w).2 := by
  rcases ok_or_error x w with ⟨a, w', h⟩ | ⟨e, w', h⟩
  · rw [mapError_of_ok h, h]
  · rw [mapError_of_error h, h]

theorem orElseReturn_eq_ok (Err' : Type) (a : α) (x : Eff W Err α) (w : W) :
    ∃ a', (orElseReturn a x : Eff W Err' α) w = (.ok a', (x w).2) := by
  rcases ok_or_error x w with ⟨a', w', h⟩ | ⟨e, w', h⟩
  · exact ⟨a', by simp only [orElseReturn, h]⟩
  · exact ⟨a, by simp only [orElseReturn, h]⟩

/-! ### Loops -/

/-- A loop that never leaves early, and whose body only changes the state, is a fold. -/
theorem forIn_eq_foldl {m : Type → Type} [Monad m] [LawfulMonad m] {f : α → β → m (ForInStep β)}
    {g : β → α → β} (l : List α) (b : β) (h : ∀ a b, f a b = pure (.yield (g b a))) :
    forIn l b f = pure (l.foldl g b) := by
  have hf : f = fun a b => pure (.yield (g b a)) := funext fun a => funext (h a)
  rw [hf, List.forIn_pure_yield_eq_foldl]

/-! ### Logs -/

/-- The computation, over a world that also keeps a log, which it extends by `events`. -/
def logged {E : Type} (events : List E) (x : Eff W Err α) : Eff (W × List E) Err α := fun w =>
  ((x w.1).1, (x w.1).2, w.2 ++ events)

theorem logged_apply {E : Type} {events es : List E} {x : Eff W Err α} {w w' : W}
    {r : Except Err α} (h : x w = (r, w')) : logged events x (w, es) = (r, w', es ++ events) := by
  simp only [logged, h]

theorem logged_nil_apply {E : Type} (x : Eff W Err α) (w : W) (es : List E) :
    logged [] x (w, es) = ((x w).1, (x w).2, es) := by
  simp only [logged, List.append_nil]

theorem logged_nil_pure {E : Type} (a : α) :
    logged ([] : List E) (pure a : Eff W Err α) = pure a :=
  funext fun w => logged_nil_apply (pure a) w.1 w.2

/-- Computations one after another that log nothing. -/
theorem logged_nil_bind {E : Type} (x : Eff W Err α) (f : α → Eff W Err β) :
    logged ([] : List E) (x >>= f) = logged [] x >>= fun a => logged [] (f a) := by
  funext w
  have hx := logged_nil_apply x w.1 w.2
  refine (logged_nil_apply (x >>= f) w.1 w.2).trans ?_
  rcases ok_or_error x w.1 with ⟨a, w', h⟩ | ⟨e, w', h⟩
  · rw [h] at hx
    rw [bind_of_ok h, bind_of_ok hx, logged_nil_apply]
  · rw [h] at hx
    rw [bind_of_error h, bind_of_error hx]

/-- Without its log, the computation `x` is `y`. -/
def Erases {E : Type} (x : Eff (W × List E) Err α) (y : Eff W Err α) : Prop :=
  ∀ w es, ((x (w, es)).1, (x (w, es)).2.1) = y w

theorem erases_logged {E : Type} (events : List E) (x : Eff W Err α) :
    Erases (logged events x) x :=
  fun _ _ => rfl

theorem erases_pure {E : Type} (a : α) :
    Erases (pure a : Eff (W × List E) Err α) (pure a : Eff W Err α) :=
  fun _ _ => rfl

theorem Erases.bind {E : Type} {x : Eff (W × List E) Err α} {y : Eff W Err α}
    {f : α → Eff (W × List E) Err β} {g : α → Eff W Err β} (hxy : Erases x y)
    (hfg : ∀ a, Erases (f a) (g a)) : Erases (x >>= f) (y >>= g) := by
  intro w es
  have hy := hxy w es
  rcases ok_or_error x (w, es) with ⟨a, ⟨w', es'⟩, hx⟩ | ⟨e, ⟨w', es'⟩, hx⟩
  · rw [hx] at hy
    rw [bind_of_ok hx, bind_of_ok hy.symm]
    exact hfg a w' es'
  · rw [hx] at hy
    rw [bind_of_error hx, bind_of_error hy.symm]

/-- The computation adds to its log only events that satisfy `P`. -/
def Logs {E : Type} (P : E → Prop) (x : Eff (W × List E) Err α) : Prop :=
  ∀ w es, ∃ new, (x (w, es)).2.2 = es ++ new ∧ ∀ e ∈ new, P e

section Logs

variable {E : Type} {P : E → Prop}

/-- A computation that leaves the log as it is logs nothing. -/
theorem logs_of_unchanged {x : Eff (W × List E) Err α} (h : ∀ w es, (x (w, es)).2.2 = es) :
    Logs P x := by
  intro w es
  refine ⟨[], ?_, fun e he => absurd he List.not_mem_nil⟩
  rw [h, List.append_nil]

theorem logs_pure (a : α) : Logs P (pure a : Eff (W × List E) Err α) :=
  logs_of_unchanged fun _ _ => rfl

theorem logs_fail (e : Err) : Logs P (fail e : Eff (W × List E) Err α) :=
  logs_of_unchanged fun _ _ => rfl

theorem logs_ofExcept (r : Except Err α) : Logs P (ofExcept r : Eff (W × List E) Err α) :=
  logs_of_unchanged fun _ _ => rfl

theorem logs_logged {events : List E} (h : ∀ e ∈ events, P e) (x : Eff W Err α) :
    Logs P (logged events x) :=
  fun _ _ => ⟨events, rfl, h⟩

theorem logs_logged_singleton {event : E} (h : P event) (x : Eff W Err α) :
    Logs P (logged [event] x) := by
  apply logs_logged
  intro e he
  rw [List.mem_singleton.mp he]
  exact h

theorem Logs.bind {x : Eff (W × List E) Err α} {f : α → Eff (W × List E) Err β} (hx : Logs P x)
    (hf : ∀ a, Logs P (f a)) : Logs P (x >>= f) := by
  intro w es
  obtain ⟨new, hnew, hP⟩ := hx w es
  rcases ok_or_error x (w, es) with ⟨a, ⟨w', es'⟩, h⟩ | ⟨e, ⟨w', es'⟩, h⟩
  · rw [h] at hnew
    obtain rfl : es' = es ++ new := hnew
    obtain ⟨new', hnew', hP'⟩ := hf a w' (es ++ new)
    refine ⟨new ++ new', ?_, fun e he => ?_⟩
    · rw [bind_of_ok h, hnew', List.append_assoc]
    · rcases List.mem_append.mp he with he | he
      · exact hP e he
      · exact hP' e he
  · rw [h] at hnew
    exact ⟨new, by rw [bind_of_error h]; exact hnew, hP⟩

theorem Logs.mapError {Err' : Type} {f : Err → Err'} {x : Eff (W × List E) Err α}
    (hx : Logs P x) : Logs P (mapError f x) := by
  intro w es
  obtain ⟨new, hnew, hP⟩ := hx w es
  refine ⟨new, ?_, hP⟩
  rw [← hnew, Eff.mapError]
  rcases x (w, es) with ⟨_ | _, _⟩ <;> rfl

theorem Logs.orElseReturn {Err' : Type} {a : α} {x : Eff (W × List E) Err α} (hx : Logs P x) :
    Logs P (orElseReturn a x : Eff (W × List E) Err' α) := by
  intro w es
  obtain ⟨new, hnew, hP⟩ := hx w es
  refine ⟨new, ?_, hP⟩
  rw [← hnew, Eff.orElseReturn]
  rcases x (w, es) with ⟨_ | _, _⟩ <;> rfl

/-- A loop logs what its body logs. -/
theorem logs_forIn {γ : Type} {l : List γ} {f : γ → β → Eff (W × List E) Err (ForInStep β)}
    (hf : ∀ x ∈ l, ∀ b, Logs P (f x b)) (b : β) : Logs P (forIn l b f) := by
  induction l generalizing b with
  | nil =>
    rw [List.forIn_nil]
    exact logs_pure b
  | cons x l ih =>
    rw [List.forIn_cons]
    refine (hf x List.mem_cons_self b).bind fun step => ?_
    cases step with
    | done b => exact logs_pure b
    | yield b => exact ih (fun y hy => hf y (List.mem_cons_of_mem x hy)) b

end Logs

end Eff
