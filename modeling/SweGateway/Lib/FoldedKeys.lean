import SweGateway.Lib.HashMap

/-!
# Maps whose keys stand for names

Two keys may be different and still stand for the same name, as two spellings of a word do that
differ in the case of a letter: `fold` maps a key to its name.  `Binds fold m k v` says that `m`
gives the name of `k` the value `v`, under whatever key, and `DistinctNames fold m` that no two keys
of `m` stand for the same name.

A map that is put together from several layers gives each key the value of the first layer that
binds it.  `Layered fold layers k v` is what is meant by that for names.  Looking keys up gives the
layers' values to their names, and one key to each name, if and only if the layers have one key for
each name between them (`respects_iff_spelledAlike`).
-/

namespace FoldedKeys

variable {K V F : Type} [Ord K] [Std.TransOrd K]

/-- The map gives the name of `k` the value `v`. -/
def Binds (fold : K → F) (m : HashMap K V) (k : K) (v : V) : Prop :=
  ∃ a, fold a = fold k ∧ m[a]? = some v

/-- No two keys of the map stand for the same name. -/
def DistinctNames (fold : K → F) (m : HashMap K V) : Prop :=
  ∀ a b, m[a]?.isSome → m[b]?.isSome → fold a = fold b → a = b

/-- `v` is the value of the first layer that gives the name of `k` one. -/
inductive Layered (fold : K → F) : List (HashMap K V) → K → V → Prop
  | top {m : HashMap K V} {ms : List (HashMap K V)} {k : K} {v : V} :
    Binds fold m k v → Layered fold (m :: ms) k v
  | lower {m : HashMap K V} {ms : List (HashMap K V)} {k : K} {v : V} :
    (∀ w, ¬Binds fold m k w) → Layered fold ms k v → Layered fold (m :: ms) k v

/-- The value of the first layer that binds the key itself. -/
def lookup (layers : List (HashMap K V)) (k : K) : Option V := layers.findSome? fun m => m[k]?

/-- The layers have one key for each name. -/
def SpelledAlike (fold : K → F) (layers : List (HashMap K V)) : Prop :=
  ∀ a b, (lookup layers a).isSome → (lookup layers b).isSome → fold a = fold b → a = b

/-- The map has one key for each name, and gives it the value that the layers give it. -/
structure Respects (fold : K → F) (layers : List (HashMap K V)) (m : HashMap K V) : Prop where
  distinctNames : DistinctNames fold m
  binds_iff : ∀ k v, Binds fold m k v ↔ Layered fold layers k v

@[simp] theorem lookup_nil (k : K) : lookup ([] : List (HashMap K V)) k = none := rfl

@[simp] theorem lookup_cons (m : HashMap K V) (ms : List (HashMap K V)) (k : K) :
    lookup (m :: ms) k = m[k]?.or (lookup ms k) := by
  rw [lookup, List.findSome?_cons]
  cases m[k]? <;> rfl

theorem SpelledAlike.tail {fold : K → F} {m : HashMap K V} {ms : List (HashMap K V)}
    (h : SpelledAlike fold (m :: ms)) : SpelledAlike fold ms := by
  intro a b ha hb
  apply h a b
  · rw [lookup_cons, Option.isSome_or, ha, Bool.or_true]
  · rw [lookup_cons, Option.isSome_or, hb, Bool.or_true]

/-- Where the layers have one key for each name, looking up the keys looks up the names. -/
theorem SpelledAlike.layered_iff {fold : K → F} {layers : List (HashMap K V)}
    (h : SpelledAlike fold layers) (k : K) (v : V) :
    Layered fold layers k v ↔ ∃ a, fold a = fold k ∧ lookup layers a = some v := by
  induction layers with
  | nil =>
    constructor
    · rintro ⟨⟩
    · rintro ⟨a, -, ha⟩
      cases ha
  | cons m ms ih =>
    constructor
    · rintro (⟨a, hfold, ha⟩ | ⟨hnot, hrest⟩)
      · exact ⟨a, hfold, by rw [lookup_cons, ha, Option.some_or]⟩
      · obtain ⟨a, hfold, ha⟩ := (ih h.tail).mp hrest
        refine ⟨a, hfold, ?_⟩
        cases hm : m[a]? with
        | none => rw [lookup_cons, hm, Option.none_or, ha]
        | some w => exact absurd ⟨a, hfold, hm⟩ (hnot w)
    · rintro ⟨a, hfold, ha⟩
      rw [lookup_cons] at ha
      cases hm : m[a]? with
      | some w =>
        rw [hm, Option.some_or] at ha
        cases ha
        exact .top ⟨a, hfold, hm⟩
      | none =>
        rw [hm, Option.none_or] at ha
        refine .lower ?_ ((ih h.tail).mpr ⟨a, hfold, ha⟩)
        -- another key for the name in the first layer would be the key of the layer below
        rintro w ⟨b, hb, hbm⟩
        obtain rfl : b = a := by
          refine h b a ?_ ?_ (hb.trans hfold.symm)
          · rw [lookup_cons, hbm]
            rfl
          · rw [lookup_cons, hm, ha]
            rfl
        rw [hm] at hbm
        cases hbm

/-- The map of the first bindings respects the names of the layers exactly if these have one key for
each. -/
theorem respects_iff_spelledAlike (fold : K → F) {layers : List (HashMap K V)} {m : HashMap K V}
    (hm : ∀ k, m[k]? = lookup layers k) :
    Respects fold layers m ↔ SpelledAlike fold layers := by
  constructor
  · intro h a b ha hb
    rw [← hm] at ha hb
    exact h.distinctNames a b ha hb
  · intro h
    refine ⟨fun a b ha hb => ?_, fun k v => ?_⟩
    · rw [hm] at ha hb
      exact h a b ha hb
    · rw [h.layered_iff, Binds]
      simp only [hm]

/-! ### Defaults -/

variable [Std.LawfulEqOrd K] [DecidableEq K]

/-- Inserting bindings under the keys that are not bound yet. -/
theorem getElem?_foldl_insertIfNew (l : List (K × V)) (m : HashMap K V) (k : K) :
    (l.foldl (fun m e => m.insertIfNew e.1 e.2) m)[k]? =
      m[k]?.or ((l.find? fun e => e.1 = k).map Prod.snd) := by
  induction l generalizing m with
  | nil => simp
  | cons e l ih =>
    rw [List.foldl_cons, ih, Std.ExtTreeMap.getElem?_insertIfNew, List.find?_cons]
    by_cases hk : e.1 = k
    · subst hk
      by_cases hm : e.1 ∈ m
      · simp [hm]
      · simp [hm]
    · simp [hk]

/-- A map with the bindings of another as defaults, in whatever order these are visited. -/
theorem getElem?_defaults (it : IterOrder K V) (m d : HashMap K V) (k : K) :
    ((HashMap.iter it d).foldl (fun m e => m.insertIfNew e.1 e.2) m)[k]? = m[k]?.or d[k]? := by
  rw [getElem?_foldl_insertIfNew, ← List.head?_filter, HashMap.filter_key_iter]
  cases d[k]? <;> rfl

end FoldedKeys
