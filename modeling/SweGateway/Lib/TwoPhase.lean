import Mathlib.Data.Set.Piecewise
import SweGateway.Lib.Linearizable

/-!
# Two-phase locking

The store has one part for each lock (`parts`).  A program is `TwoPhase` if it touches a part only
while it holds its lock, writes it only while it holds the lock for writing, and takes every lock
before it releases one; after that it only releases the others and returns.  A lock whose part is
`frozen`, as nobody writes it, may be released at any time.

Every finished run of such programs is linearizable (`linearizable_of_twoPhase`): each takes effect
where it releases its first lock.  Up to there what it has done is hidden behind its locks.  In the
simulation that shows it (`TwoPhaseSim`) the store is the one of the calls that have taken effect,
but for the parts that are held for writing, and what is left of a program does with the parts that
it has seen what the whole program does with them.
-/

namespace Concurrent

/-! ### Parts of a store -/

section Parts

variable {L S : Type} {V : L → Type} (parts : S ≃ ((l : L) → V l))

open Classical in
/-- The store with the parts of `seen` from `s` and the others from `σ`. -/
noncomputable def merge (seen : Set L) (s σ : S) : S :=
  parts.symm (seen.piecewise (parts s) (parts σ))

variable {parts} {seen : Set L} {s s' σ σ' : S} {l : L}

theorem parts_merge_of_mem (h : l ∈ seen) : parts (merge parts seen s σ) l = parts s l := by
  classical
  rw [merge, Equiv.apply_symm_apply, Set.piecewise_eq_of_mem _ _ _ h]

theorem parts_merge_of_notMem (h : l ∉ seen) : parts (merge parts seen s σ) l = parts σ l := by
  classical
  rw [merge, Equiv.apply_symm_apply, Set.piecewise_eq_of_notMem _ _ _ h]

/-- A store with the same parts is the same. -/
theorem eq_merge (hseen : ∀ l ∈ seen, parts s' l = parts s l)
    (hrest : ∀ l ∉ seen, parts s' l = parts σ l) : s' = merge parts seen s σ := by
  refine parts.injective (funext fun l => ?_)
  by_cases hl : l ∈ seen
  · rw [hseen l hl, parts_merge_of_mem hl]
  · rw [hrest l hl, parts_merge_of_notMem hl]

/-- Only the parts of `seen` matter of the first store, and only the others of the second one. -/
theorem merge_congr (hseen : ∀ l ∈ seen, parts s l = parts s' l) :
    merge parts seen s σ = merge parts seen s' σ := by
  refine eq_merge (fun l hl => ?_) fun l hl => parts_merge_of_notMem hl
  rw [parts_merge_of_mem hl, hseen l hl]

/-- Seeing one more part makes no difference if both stores have it. -/
theorem merge_insert (hl : parts s l = parts σ l) :
    merge parts (insert l seen) s σ = merge parts seen s σ := by
  refine eq_merge (fun l' hl' => parts_merge_of_mem (Set.mem_insert_of_mem l hl')) fun l' hl' => ?_
  by_cases heq : l' = l
  · subst heq
    rw [parts_merge_of_mem (Set.mem_insert l' seen), hl]
  · exact parts_merge_of_notMem fun hmem => hl' (Set.mem_of_mem_insert_of_ne hmem heq)

variable [DecidableEq L]

/-- The store with one part replaced. -/
def setPart (parts : S ≃ ((l : L) → V l)) (l : L) (v : V l) (s : S) : S :=
  parts.symm (Function.update (parts s) l v)

@[simp] theorem parts_setPart_self (v : V l) : parts (setPart parts l v s) l = v := by
  rw [setPart, Equiv.apply_symm_apply, Function.update_self]

theorem parts_setPart_of_ne {l' : L} (h : l' ≠ l) (v : V l) :
    parts (setPart parts l v s) l' = parts s l' := by
  rw [setPart, Equiv.apply_symm_apply, Function.update_of_ne h]

end Parts

/-! ### The discipline -/

section Discipline

variable {L S R : Type} {V : L → Type}

/-- The program only releases locks and then returns `r`. -/
inductive Prog.Finishes (r : R) : Prog L S R → Prop
  | done : Finishes r (.done r)
  | release (m : Mode) (l : L) (k : Prog L S R) (h : Finishes r k) : Finishes r (.release m l k)

theorem Prog.Finishes.exec {r : R} {prog : Prog L S R} (h : prog.Finishes r) (s : S) :
    prog.exec s = (r, s) := by
  induction h with
  | done => rfl
  | release m l k _ ih => exact ih

/-- The parts that are held in some mode, and the frozen ones. -/
def seen (frozen : Set L) (held : List (Mode × L)) : Set L :=
  {l | l ∈ frozen ∨ ∃ m, (m, l) ∈ held}

/-- The parts that may be written. -/
def owned (frozen : Set L) (held : List (Mode × L)) : Set L :=
  {l | l ∉ frozen ∧ (.write, l) ∈ held}

theorem owned_subset_seen (frozen : Set L) (held : List (Mode × L)) :
    owned frozen held ⊆ seen frozen held :=
  fun _ h => .inr ⟨_, h.2⟩

theorem seen_cons (frozen : Set L) (held : List (Mode × L)) (m : Mode) (l : L) :
    seen frozen ((m, l) :: held) = insert l (seen frozen held) := by
  ext l'
  simp only [seen, Set.mem_ofPred_eq, Set.mem_insert_iff, List.mem_cons, Prod.mk.injEq]
  constructor
  · rintro (h | ⟨m', ⟨-, rfl⟩ | h⟩)
    · exact .inr (.inl h)
    · exact .inl rfl
    · exact .inr (.inr ⟨m', h⟩)
  · rintro (rfl | h | ⟨m', h⟩)
    · exact .inr ⟨m, .inl ⟨rfl, rfl⟩⟩
    · exact .inl h
    · exact .inr ⟨m', .inr h⟩

variable [DecidableEq L]

theorem seen_erase_of_frozen {frozen : Set L} {l : L} (h : l ∈ frozen) (held : List (Mode × L))
    (m : Mode) : seen frozen (held.erase (m, l)) = seen frozen held := by
  ext l'
  constructor
  · rintro (h' | ⟨m', h'⟩)
    · exact .inl h'
    · exact .inr ⟨m', List.mem_of_mem_erase h'⟩
  · rintro (h' | ⟨m', h'⟩)
    · exact .inl h'
    · by_cases heq : l' = l
      · exact .inl (heq ▸ h)
      · refine .inr ⟨m', (List.mem_erase_of_ne fun hpair => heq ?_).mpr h'⟩
        exact congrArg Prod.snd hpair

theorem owned_erase_of_frozen {frozen : Set L} {l : L} (h : l ∈ frozen) (held : List (Mode × L))
    (m : Mode) : owned frozen (held.erase (m, l)) = owned frozen held := by
  ext l'
  refine and_congr_right fun hl' => List.mem_erase_of_ne fun hpair => hl' ?_
  have heq : l' = l := congrArg Prod.snd hpair
  rwa [heq]

/-- The access depends on the parts that are seen, and changes only those that are owned. -/
structure Guarded (parts : S ≃ ((l : L) → V l)) (frozen : Set L) (held : List (Mode × L))
    (f : S → S) (k : S → Prog L S R) : Prop where
  next : ∀ s s', (∀ l ∈ seen frozen held, parts s l = parts s' l) → k s = k s'
  reads : ∀ s s', (∀ l ∈ seen frozen held, parts s l = parts s' l) →
    ∀ l ∈ seen frozen held, parts (f s) l = parts (f s') l
  writes : ∀ s, ∀ l ∉ owned frozen held, parts (f s) l = parts s l

/-- **Two-phase locking**, by a program that holds some locks: its accesses are guarded by what it
holds, and once it has released a lock whose part is not frozen it only releases locks. -/
def TwoPhase (parts : S ≃ ((l : L) → V l)) (frozen : Set L) :
    List (Mode × L) → Prog L S R → Prop
  | _, .done _ => False
  | held, .acquire m l k => TwoPhase parts frozen ((m, l) :: held) k
  | held, .access f k => Guarded parts frozen held f k ∧ ∀ s, TwoPhase parts frozen held (k s)
  | held, .release m l k =>
    l ∈ frozen ∧ TwoPhase parts frozen (held.erase (m, l)) k ∨ ∃ r, k.Finishes r

end Discipline

/-! ### Programs with one section -/

section Sections

variable {L S R : Type} {V : L → Type} [DecidableEq L] {parts : S ≃ ((l : L) → V l)}
  {frozen : Set L} {l : L}

/-- A read that finds in one part what it finds in that part of the store `s₀`, under its lock. -/
theorem twoPhase_readSection (frozen : Set L) (s₀ : S) {f : S → R}
    (h : ∀ s, f s = f (setPart parts l (parts s l) s₀)) :
    TwoPhase parts frozen [] (.readSection l f) := by
  refine ⟨⟨fun s s' hs => ?_, fun s s' hs => hs, fun _ _ _ => rfl⟩, fun s => .inr ⟨_, .done⟩⟩
  rw [h s, h s', hs l (.inr ⟨.read, List.mem_cons_self⟩)]

/-- The update depends on the part `l` and changes no other. -/
structure OnPart (parts : S ≃ ((l : L) → V l)) (l : L) (f : S → R × S) : Prop where
  reply : ∀ s s', parts s l = parts s' l → (f s).1 = (f s').1
  reads : ∀ s s', parts s l = parts s' l → parts (f s).2 l = parts (f s').2 l
  writes : ∀ s, ∀ l', l' ≠ l → parts (f s).2 l' = parts s l'

/-- An update that does to its part what it does to that part of the store `s₀`. -/
theorem OnPart.of_setPart (s₀ : S) {f : S → R × S}
    (h : ∀ s, f s = ((f (setPart parts l (parts s l) s₀)).1,
      setPart parts l (parts (f (setPart parts l (parts s l) s₀)).2 l) s)) : OnPart parts l f where
  reply s s' hs := by rw [h, h s', hs]
  reads s s' hs := by rw [h, h s', parts_setPart_self, parts_setPart_self, hs]
  writes s l' hl' := by rw [h, parts_setPart_of_ne hl']

/-- The access of an update of one part, under its lock. -/
theorem OnPart.guarded {T : Type} {f : S → T × S} (h : OnPart parts l f) (hl : l ∉ frozen)
    {held : List (Mode × L)} (hheld : (.write, l) ∈ held) {k : T → Prog L S R} :
    Guarded parts frozen held (fun s => (f s).2) fun s => k (f s).1 where
  next s s' hs := by rw [h.reply s s' (hs l (.inr ⟨_, hheld⟩))]
  reads s s' hs l' hl' := by
    by_cases heq : l' = l
    · rw [heq]
      exact h.reads s s' (hs l (.inr ⟨_, hheld⟩))
    · rw [h.writes s l' heq, h.writes s' l' heq]
      exact hs l' hl'
  writes s l' hl' := by
    refine h.writes s l' fun heq => hl' ?_
    rw [heq]
    exact ⟨hl, hheld⟩

/-- An access that only updates one part, under its lock. -/
theorem OnPart.guarded_const {f : S → S} (h : OnPart parts l fun s => ((), f s)) (hl : l ∉ frozen)
    {held : List (Mode × L)} (hheld : (.write, l) ∈ held) {k : Prog L S R} :
    Guarded parts frozen held f fun _ => k :=
  h.guarded (k := fun _ => k) hl hheld

/-- An update of one part, under its lock. -/
theorem OnPart.twoPhase {f : S → R × S} (h : OnPart parts l f) (hl : l ∉ frozen) :
    TwoPhase parts frozen [] (.writeSection l f) :=
  ⟨h.guarded (k := fun r => .release .write l (.done r)) hl List.mem_cons_self,
    fun _ => .inr ⟨_, .done⟩⟩

end Sections

/-! ### The simulation -/

section Simulation

variable {ι L S R : Type} {V : L → Type} [DecidableEq ι] [DecidableEq L]
  {parts : S ≃ ((l : L) → V l)} {frozen : Set L}

/-- Where a thread of the program `prog` is: it still takes locks, and what is left of it does with
the parts it sees what `prog` does with them, or it has had its reply. -/
inductive Phase (parts : S ≃ ((l : L) → V l)) (frozen : Set L) (store σ : S) (prog : Prog L S R) :
    Option R → Thread L S R → Prop
  | growing (t : Thread L S R) (htwo : TwoPhase parts frozen t.held t.prog)
      (hexec : ∀ s, (∀ l ∈ seen frozen t.held, parts s l = parts σ l) →
        prog.exec s = t.prog.exec (merge parts (seen frozen t.held) store s)) :
      Phase parts frozen store σ prog none t
  | shrinking (r : R) (t : Thread L S R) (h : t.prog.Finishes r) :
      Phase parts frozen store σ prog (some r) t

/-- **The simulation** of two-phase programs: the store is that of the calls which have taken
effect, but for the parts that are owned. -/
structure TwoPhaseSim (parts : S ≃ ((l : L) → V l)) (frozen : Set L) (progs : ι → Prog L S R)
    (c : Config ι L S R) (st : (ι → Option R) × S) : Prop where
  exclusive : c.Exclusive
  store : ∀ l, (∀ i, st.1 i = none → l ∉ owned frozen (c.threads i).held) →
    parts c.store l = parts st.2 l
  threads : ∀ i, Phase parts frozen c.store st.2 (progs i) (st.1 i) (c.threads i)

variable {progs : ι → Prog L S R} {c c' : Config ι L S R} {st : (ι → Option R) × S} {i : ι}

omit [DecidableEq ι] in
theorem twoPhaseSim_start (h : ∀ i, TwoPhase parts frozen [] (progs i)) (s : S) :
    TwoPhaseSim parts frozen progs (Config.start s progs) (fun _ => none, s) where
  exclusive := Config.exclusive_start s progs
  store l _ := rfl
  threads i := by
    refine .growing _ (h i) fun σ hσ => ?_
    have hσ' : σ = merge parts (seen frozen []) s σ := eq_merge hσ fun l _ => rfl
    exact congrArg (progs i).exec hσ'

/-- Another thread's program is where it was if the parts it sees have not changed. -/
theorem Phase.frame {store store' σ σ' : S} {prog : Prog L S R} {reply : Option R}
    {t : Thread L S R} (h : Phase parts frozen store σ prog reply t)
    (hstore : ∀ l ∈ seen frozen t.held, reply = none → parts store l = parts store' l)
    (hσ : ∀ l ∈ seen frozen t.held, reply = none → parts σ l = parts σ' l) :
    Phase parts frozen store' σ' prog reply t := by
  cases h with
  | growing _ htwo hexec =>
    refine .growing t htwo fun s hs => ?_
    rw [hexec s fun l hl => (hs l hl).trans (hσ l hl rfl).symm,
      merge_congr fun l hl => hstore l hl rfl]
  | shrinking r _ h => exact .shrinking r t h

omit [DecidableEq ι] [DecidableEq L] in
/-- What a thread owns, no other one sees. -/
theorem notMem_owned (hex : c.Exclusive) {j : ι} (hj : j ≠ i) {l : L}
    (hl : l ∈ seen frozen (c.threads j).held) : l ∉ owned frozen (c.threads i).held := by
  rintro ⟨hnot, hwrite⟩
  rcases hl with hfrozen | ⟨m, hm⟩
  · exact hnot hfrozen
  · exact hex i j (Ne.symm hj) l hwrite m hm

/-- A step of `i` that leaves the store as it is. -/
theorem TwoPhaseSim.of_set (hsim : TwoPhaseSim parts frozen progs c st) {t : Thread L S R}
    (hex : c'.Exclusive) (heq : c' = c.set i c.store t)
    (howned : st.1 i = none → owned frozen (c.threads i).held ⊆ owned frozen t.held)
    (ht : Phase parts frozen c.store st.2 (progs i) (st.1 i) t) :
    TwoPhaseSim parts frozen progs c' st := by
  subst heq
  refine ⟨hex, fun l hl => hsim.store l fun j hj hmem => hl j hj ?_, fun j => ?_⟩
  · by_cases hji : j = i
    · subst hji
      rw [Config.threads_set_self]
      exact howned hj hmem
    · rwa [Config.threads_set_of_ne hji]
  · by_cases hji : j = i
    · subst hji
      rwa [Config.threads_set_self]
    · rw [Config.threads_set_of_ne hji]
      exact hsim.threads j

/-- A lock is taken: nobody owns its part, and so its part is what it is in sequence. -/
theorem TwoPhaseSim.acquire [Fintype ι] (hsim : TwoPhaseSim parts frozen progs c st) {m : Mode}
    {l : L} {k : Prog L S R} (hnone : st.1 i = none) (hgrants : c.Grants m l)
    (htwo : TwoPhase parts frozen ((m, l) :: (c.threads i).held) k)
    (hexec : ∀ s, (∀ l ∈ seen frozen (c.threads i).held, parts s l = parts st.2 l) →
      (progs i).exec s = k.exec (merge parts (seen frozen (c.threads i).held) c.store s))
    (hex : c'.Exclusive)
    (heq : c' = c.set i c.store { prog := k, held := (m, l) :: (c.threads i).held }) :
    TwoPhaseSim parts frozen progs c' st := by
  have hpart : parts c.store l = parts st.2 l := by
    refine hsim.store l fun j _ howned => ?_
    exact Config.not_grants_iff.mpr ⟨j, .write, howned.2, .inr rfl⟩ hgrants
  refine hsim.of_set hex heq (fun _ l' hl' => ⟨hl'.1, List.mem_cons_of_mem _ hl'.2⟩) ?_
  rw [hnone]
  refine .growing _ htwo fun s hs => ?_
  dsimp only at hs ⊢
  rw [seen_cons] at hs ⊢
  rw [hexec s fun l' hl' => hs l' (Set.mem_insert_of_mem l hl'),
    merge_insert (hpart.trans (hs l (Set.mem_insert l _)).symm)]

/-- A lock whose part is frozen is released. -/
theorem TwoPhaseSim.releaseFrozen (hsim : TwoPhaseSim parts frozen progs c st) {m : Mode}
    {l : L} {k : Prog L S R} (hnone : st.1 i = none) (hfrozen : l ∈ frozen)
    (htwo : TwoPhase parts frozen ((c.threads i).held.erase (m, l)) k)
    (hexec : ∀ s, (∀ l ∈ seen frozen (c.threads i).held, parts s l = parts st.2 l) →
      (progs i).exec s = k.exec (merge parts (seen frozen (c.threads i).held) c.store s))
    (hex : c'.Exclusive)
    (heq : c' = c.set i c.store { prog := k, held := (c.threads i).held.erase (m, l) }) :
    TwoPhaseSim parts frozen progs c' st := by
  refine hsim.of_set hex heq (fun _ => (owned_erase_of_frozen hfrozen _ m).ge) ?_
  rw [hnone]
  refine .growing _ htwo fun s hs => ?_
  dsimp only at hs ⊢
  rw [seen_erase_of_frozen hfrozen] at hs ⊢
  exact hexec s hs

/-- A guarded access: the others do not see what it changes. -/
theorem TwoPhaseSim.access (hsim : TwoPhaseSim parts frozen progs c st) {f : S → S}
    {k : S → Prog L S R} (hnone : st.1 i = none)
    (hguarded : Guarded parts frozen (c.threads i).held f k)
    (htwo : TwoPhase parts frozen (c.threads i).held (k c.store))
    (hexec : ∀ s, (∀ l ∈ seen frozen (c.threads i).held, parts s l = parts st.2 l) →
      (progs i).exec s =
        (Prog.access f k).exec (merge parts (seen frozen (c.threads i).held) c.store s))
    (hex : c'.Exclusive)
    (heq : c' = c.set i (f c.store) { prog := k c.store, held := (c.threads i).held }) :
    TwoPhaseSim parts frozen progs c' st := by
  subst heq
  refine ⟨hex, fun l hl => ?_, fun j => ?_⟩
  · have hheld : ∀ j, ((c.set i (f c.store) { prog := k c.store, held := (c.threads i).held
        }).threads j).held = (c.threads j).held := by
      intro j
      by_cases hji : j = i
      · subst hji
        rw [Config.threads_set_self]
      · rw [Config.threads_set_of_ne hji]
    have hnot : ∀ j, st.1 j = none → l ∉ owned frozen (c.threads j).held := by
      intro j hj
      rw [← hheld j]
      exact hl j hj
    rw [Config.store_set, hguarded.writes _ l (hnot i hnone), hsim.store l hnot]
  · by_cases hji : j = i
    · subst hji
      rw [hnone, Config.threads_set_self]
      refine .growing _ htwo fun s hs => ?_
      -- the access finds in the merged store what it finds in the store
      set seen' := seen frozen (c.threads j).held
      have hmerge : ∀ l ∈ seen', parts (merge parts seen' c.store s) l = parts c.store l :=
        fun l hl => parts_merge_of_mem hl
      have hstore : f (merge parts seen' c.store s) = merge parts seen' (f c.store) s := by
        refine eq_merge (hguarded.reads _ _ hmerge) fun l hl => ?_
        rw [hguarded.writes _ l fun h => hl (owned_subset_seen _ _ h), parts_merge_of_notMem hl]
      rw [hexec s hs, Prog.exec, hguarded.next _ _ hmerge, hstore]
      rfl
    · rw [Config.threads_set_of_ne hji]
      refine (hsim.threads j).frame (fun l hl _ => ?_) fun _ _ _ => rfl
      exact (hguarded.writes c.store l (notMem_owned hsim.exclusive hji hl)).symm

/-- The first release: the call takes effect. -/
theorem TwoPhaseSim.commit (hsim : TwoPhaseSim parts frozen progs c st) {k : Prog L S R}
    {held : List (Mode × L)} {r : R} (hfinishes : k.Finishes r)
    (hexec : ∀ s, (∀ l ∈ seen frozen (c.threads i).held, parts s l = parts st.2 l) →
      (progs i).exec s = k.exec (merge parts (seen frozen (c.threads i).held) c.store s))
    (hex : c'.Exclusive) (heq : c' = c.set i c.store { prog := k, held := held }) :
    TwoPhaseSim parts frozen progs c'
      (Function.update st.1 i (some ((progs i).exec st.2).1), ((progs i).exec st.2).2) := by
  subst heq
  have hrun := hexec st.2 fun l _ => rfl
  rw [hfinishes.exec] at hrun
  rw [hrun]
  refine ⟨hex, fun l hl => ?_, fun j => ?_⟩
  · dsimp only
    by_cases hseen : l ∈ seen frozen (c.threads i).held
    · rw [parts_merge_of_mem hseen, Config.store_set]
    · rw [parts_merge_of_notMem hseen, Config.store_set]
      refine hsim.store l fun j hj howned => ?_
      by_cases hji : j = i
      · subst hji
        exact hseen (owned_subset_seen _ _ howned)
      · refine hl j ?_ ?_
        · dsimp only
          rwa [Function.update_of_ne hji]
        · rwa [Config.threads_set_of_ne hji]
  · dsimp only
    by_cases hji : j = i
    · subst hji
      rw [Function.update_self, Config.threads_set_self]
      exact .shrinking r _ hfinishes
    · rw [Function.update_of_ne hji, Config.threads_set_of_ne hji]
      refine (hsim.threads j).frame (fun _ _ _ => rfl) fun l hl hj => ?_
      by_cases hseen : l ∈ seen frozen (c.threads i).held
      · -- a part that two threads see is not owned
        rw [parts_merge_of_mem hseen]
        refine (hsim.store l fun j' _ howned => ?_).symm
        by_cases hj' : j' = i
        · subst hj'
          exact notMem_owned hsim.exclusive hji hl howned
        · exact notMem_owned hsim.exclusive (Ne.symm hj') hseen howned
      · rw [parts_merge_of_notMem hseen]

/-- **One step** of a two-phase program keeps the simulation. -/
theorem TwoPhaseSim.step [Fintype ι] (hsim : TwoPhaseSim parts frozen progs c st)
    (h : c.step? i = some c') :
    Follows (fun i => (progs i).exec) (TwoPhaseSim parts frozen progs) i c' st := by
  have hex := Config.exclusive_step hsim.exclusive h
  have hi := hsim.threads i
  generalize hreply : st.1 i = reply at hi
  cases hi with
  | growing t htwo hexec =>
    cases Config.step?_cases h with
    | acquire m l k hprog hgrants heq =>
      rw [hprog] at htwo hexec
      exact .inl (hsim.acquire hreply hgrants htwo hexec hex heq)
    | access f k hprog heq =>
      rw [hprog] at htwo hexec
      exact .inl (hsim.access hreply htwo.1 (htwo.2 c.store) hexec hex heq)
    | release m l k hprog heq =>
      rw [hprog] at htwo hexec
      rcases htwo with ⟨hfrozen, htwo⟩ | ⟨r, hfinishes⟩
      · exact .inl (hsim.releaseFrozen hreply hfrozen htwo hexec hex heq)
      · exact .inr ⟨hreply, hsim.commit hfinishes hexec hex heq⟩
  | shrinking r t hfinishes =>
    have hquiet : ∀ t : Thread L S R, t.prog.Finishes r → c' = c.set i c.store t →
        Follows (fun i => (progs i).exec) (TwoPhaseSim parts frozen progs) i c' st := by
      intro t ht heq
      refine .inl (hsim.of_set hex heq (fun hnone => ?_) ?_)
      · rw [hreply] at hnone
        cases hnone
      · rw [hreply]
        exact .shrinking r t ht
    cases Config.step?_cases h with
    | acquire m l k hprog hgrants heq =>
      rw [hprog] at hfinishes
      cases hfinishes
    | access f k hprog heq =>
      rw [hprog] at hfinishes
      cases hfinishes
    | release m l k hprog heq =>
      rw [hprog] at hfinishes
      cases hfinishes with
      | release _ _ _ hk => exact hquiet _ hk heq

/-- **Two-phase locking**: every finished run of programs that keep to it is linearizable. -/
theorem linearizable_of_twoPhase [Fintype ι] (parts : S ≃ ((l : L) → V l)) (frozen : Set L)
    (h : ∀ i, TwoPhase parts frozen [] (progs i)) {s : S} {schedule : List ι} (hrun : (Config.start s progs).run? schedule = some c)
    (hdone : ∀ i, (c.threads i).prog.isDone = true) :
    Linearizable (fun i => (progs i).exec) s schedule c := by
  obtain ⟨order, hsub, hnodup, hsim⟩ := exists_order (twoPhaseSim_start h s) (fun c i c' st _ hsim hstep => hsim.step hstep) hrun
    fun _ _ _ _ _ => trivial
  have hreply : ∀ i, (inSequence (fun i => (progs i).exec) s order).1 i =
      (c.threads i).prog.result := by
    intro i
    have hi := hsim.threads i
    have hdonei := hdone i
    generalize (inSequence (fun i => (progs i).exec) s order).1 i = reply at hi
    cases hprog : (c.threads i).prog with
    | done r =>
      cases hi with
      | growing t htwo hexec =>
        rw [hprog] at htwo
        exact htwo.elim
      | shrinking r' t hfinishes =>
        rw [hprog] at hfinishes
        cases hfinishes
        rfl
    | acquire | access | release =>
      rw [hprog] at hdonei
      cases hdonei
  refine .of_order hsub hnodup ?_ hdone hreply
  -- every call has its reply, so that nobody owns a part
  refine parts.injective (funext fun l => (hsim.store l fun i hnone _ => ?_).symm)
  obtain ⟨r, hr⟩ := Prog.result_of_isDone (hdone i)
  rw [hreply, hr] at hnone
  cases hnone

end Simulation

end Concurrent
