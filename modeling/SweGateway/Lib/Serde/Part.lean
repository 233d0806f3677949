import SweGateway.Lib.Serde

/-!
# Strings in a structure

A `StringPart` of a structure is an optional string somewhere in it, at a path of keys, that can be
read off and changed.  Two laws relate this to `agreesBut`: of structures that agree but for one
path, the strings are the same if that is another path, and strings that are put in the same way
keep it so.  The third law says that the string is what the value that is read has at the path.

A `Hole` is a value of the format with a string left open.
-/

namespace Serde

/-- What the keys lead to. -/
def Data.follow : List String → Data → Option Data
  | [], v => some v
  | k :: path, .table es => (es.lookup k).bind (follow path)
  | _ :: _, _ => none

/-- Tables with one key, with values that are the same but for one string. -/
theorem SameBut.single {path : List String} {v v' : Data} (k : String) (h : SameBut path v v') :
    SameBut (k :: path) (.table [(k, v)]) (.table [(k, v')]) := by
  refine .inside (List.nodup_singleton k) (List.nodup_singleton k) List.lookup_cons_self
    List.lookup_cons_self h fun k' hne => ?_
  rw [List.lookup_cons, beq_false_of_ne hne, List.lookup_cons, beq_false_of_ne hne]

/-- A value with a string left open, at the path. -/
structure Hole (path : List String) where
  fill : String → Data
  sameBut : ∀ s s', SameBut path (fill s) (fill s')
  follow_fill : ∀ s, (fill s).follow path = some (.string s)

/-- The strings are the same, unless the paths are the same and both are there. -/
def SameUnless (p path : List String) (x y : Option String) : Prop :=
  x = y ∨ p = path ∧ x.isSome ∧ y.isSome

/-- An optional string in a structure. -/
structure StringPart {α : Type} (r : Struct α) where
  path : List String
  get : α → Option String
  set : Option String → α → α
  sameUnless_of_agreesBut : ∀ {p a b}, r.agreesBut p a b → SameUnless p path (get a) (get b)
  agreesBut_set : ∀ {p a b x y}, r.agreesBut p a b → SameUnless p path x y →
    r.agreesBut p (set x a) (set y b)
  get_of_follow : ∀ {es a s}, r.get (fun k => es.lookup k) = .ok a →
    (Data.table es).follow path = some (.string s) → get a = some s

variable {α β : Type}

theorem SameUnless.eq {p path : List String} {x y : Option String} (h : SameUnless p path x y)
    (hne : p ≠ path) : x = y :=
  h.resolve_right fun h => hne h.1

theorem SameUnless.isSome_eq {p path : List String} {x y : Option String}
    (h : SameUnless p path x y) : x.isSome = y.isSome := by
  rcases h with rfl | ⟨-, hx, hy⟩
  · rfl
  · rw [hx, hy]

theorem SameUnless.of_isSome_eq {p path : List String} {x y : Option String} (heq : p = path)
    (h : x.isSome = y.isSome) : SameUnless p path x y := by
  cases x with
  | none => exact .inl (Option.isNone_iff_eq_none.mp (by simpa using h.symm)).symm
  | some a => exact .inr ⟨heq, rfl, h.symm⟩

theorem agreesBut_string {missing : Decoded (Option String)} {p : List String}
    {x y : Option String} :
    (Codec.string.optional missing).agreesBut p x y ↔ SameUnless p [] x y := by
  cases x with
  | none =>
    show none = y ↔ _
    simp [SameUnless]
  | some a =>
    cases y with
    | none =>
      show some a = none ↔ _
      simp [SameUnless]
    | some b =>
      show p = [] ∨ a = b ↔ _
      simp [SameUnless, or_comm]

/-- A field in front of the path. -/
theorem SameUnless.cons {k : String} {p path : List String} {x y : Option String} :
    SameUnless (k :: p) (k :: path) x y ↔ SameUnless p path x y := by
  unfold SameUnless
  rw [List.cons.injEq, and_iff_right rfl]

theorem Struct.agreesBut_field (name k : String) (f : Field α) (p : List String) (a b : α) :
    (Struct.field name f).agreesBut (k :: p) a b ↔
      if k = name then f.agreesBut p a b else a = b :=
  Iff.rfl

/-- A field that is an optional string. -/
def StringPart.here (name : String) (missing : Decoded (Option String)) :
    StringPart (Struct.field name (Codec.string.optional missing)) where
  path := [name]
  get x := x
  set x _ := x
  sameUnless_of_agreesBut {p a b} h := by
    cases p with
    | nil => exact .inl h
    | cons k p =>
      rw [Struct.agreesBut_field] at h
      -- the path leads into this field or elsewhere
      split at h
      next hk =>
        subst hk
        exact SameUnless.cons.mpr (agreesBut_string.mp h)
      next => exact .inl h
  agreesBut_set {p a b x y} _ hxy := by
    cases p with
    | nil => exact hxy.eq nofun
    | cons k p =>
      rw [Struct.agreesBut_field]
      split
      next hk =>
        subst hk
        exact agreesBut_string.mpr (SameUnless.cons.mp hxy)
      next hk => exact hxy.eq fun heq => hk (List.cons.inj heq).1
  get_of_follow {es a s} ha hs := by
    have hlookup : es.lookup name = some (.string s) := by
      simpa [Data.follow] using hs
    have hread : (Codec.string.optional missing).read (es.lookup name) = .ok a := ha
    rw [hlookup] at hread
    exact (Except.ok.inj hread).symm

/-- A field that is not written is still read. -/
def StringPart.skipSerializing {name : String} {f : Field α} (q : StringPart (Struct.field name f)) :
    StringPart (Struct.field name f.skipSerializing) where
  path := q.path
  get := q.get
  set := q.set
  sameUnless_of_agreesBut := q.sameUnless_of_agreesBut
  agreesBut_set := q.agreesBut_set
  get_of_follow := q.get_of_follow

theorem StringPart.get_of_decode {r : Struct α} (q : StringPart r) {v : Data} {a : α} {s : String}
    (ha : r.codec.decode v = .ok a) (hs : v.follow q.path = some (.string s)) :
    q.get a = some s := by
  cases v with
  | table es => exact q.get_of_follow ha hs
  | string | integer | boolean | other => cases ha

/-- A string in a section. -/
def StringPart.inside {r : Struct α} (q : StringPart r) (name : String) (missing : Decoded α) :
    StringPart (Struct.field name (r.codec.field missing)) where
  path := name :: q.path
  get := q.get
  set := q.set
  sameUnless_of_agreesBut {p a b} h := by
    cases p with
    | nil =>
      obtain rfl : a = b := h
      exact .inl rfl
    | cons k p =>
      rw [Struct.agreesBut_field] at h
      split at h
      next hk =>
        subst hk
        exact SameUnless.cons.mpr (q.sameUnless_of_agreesBut h)
      next =>
        subst h
        exact .inl rfl
  agreesBut_set {p a b x y} h hxy := by
    cases p with
    | nil =>
      obtain rfl : a = b := h
      obtain rfl := hxy.eq nofun
      rfl
    | cons k p =>
      rw [Struct.agreesBut_field] at h ⊢
      by_cases hk : k = name
      · subst hk
        rw [if_pos rfl] at h ⊢
        exact q.agreesBut_set h (SameUnless.cons.mp hxy)
      · rw [if_neg hk] at h ⊢
        rw [h, hxy.eq fun heq => hk (List.cons.inj heq).1]
  get_of_follow {es a s} ha hs := by
    have hread : (r.codec.field missing).read (es.lookup name) = .ok a := ha
    cases hv : es.lookup name with
    | none => simp [Data.follow, hv] at hs
    | some v =>
      have hfollow : v.follow q.path = some (.string s) := by simpa [Data.follow, hv] using hs
      rw [hv] at hread
      exact q.get_of_decode hread hfollow

/-- A string in the first of two structures. -/
def StringPart.left {r : Struct α} (q : StringPart r) (r' : Struct β) :
    StringPart (r.prod r') where
  path := q.path
  get p := q.get p.1
  set x p := (q.set x p.1, p.2)
  sameUnless_of_agreesBut h := q.sameUnless_of_agreesBut h.1
  agreesBut_set h hxy := ⟨q.agreesBut_set h.1 hxy, h.2⟩
  get_of_follow ha hs := q.get_of_follow (both_eq_ok ha).1 hs

/-- A string in the second of two structures. -/
def StringPart.right {r' : Struct β} (q : StringPart r') (r : Struct α) :
    StringPart (r.prod r') where
  path := q.path
  get p := q.get p.2
  set x p := (p.1, q.set x p.2)
  sameUnless_of_agreesBut h := q.sameUnless_of_agreesBut h.2
  agreesBut_set h hxy := ⟨h.1, q.agreesBut_set h.2 hxy⟩
  get_of_follow ha hs := q.get_of_follow (both_eq_ok ha).2 hs

/-- A string in a structure in another representation. -/
def StringPart.iso {r : Struct α} (q : StringPart r) (e : α ≃ β) : StringPart (r.iso e) where
  path := q.path
  get b := q.get (e.symm b)
  set x b := e (q.set x (e.symm b))
  sameUnless_of_agreesBut h := q.sameUnless_of_agreesBut h
  agreesBut_set {p a b x y} h hxy := by
    show r.agreesBut p (e.symm (e _)) (e.symm (e _))
    rw [e.symm_apply_apply, e.symm_apply_apply]
    exact q.agreesBut_set h hxy
  get_of_follow ha hs := by
    obtain ⟨a, ha', rfl⟩ := map_eq_ok ha
    rw [e.symm_apply_apply]
    exact q.get_of_follow ha' hs

/-- Puts the strings of one structure into another. -/
def setAll {r : Struct α} (parts : List (StringPart r)) (source target : α) : α :=
  parts.foldl (fun a q => q.set (q.get source) a) target

/-- Structures that agree but for one path still do so when strings are put in that are the same
unless they are at this path. -/
theorem agreesBut_setAll {r : Struct α} {p : List String} {parts : List (StringPart r)}
    {a b a' b' : α} (h : r.agreesBut p a b)
    (hparts : ∀ q ∈ parts, SameUnless p q.path (q.get a') (q.get b')) :
    r.agreesBut p (setAll parts a' a) (setAll parts b' b) := by
  induction parts generalizing a b with
  | nil => exact h
  | cons q parts ih =>
    have hq := hparts q List.mem_cons_self
    exact ih (q.agreesBut_set h hq) fun q' hq' => hparts q' (List.mem_cons_of_mem _ hq')

/-! ### Where any string is as good as any other -/

theorem Struct.takesAny_field (name : String) (f : Field α) (path : List String) :
    (Struct.field name f).TakesAny path ↔ ∀ p, path = name :: p → f.TakesAny p := by
  cases path with
  | nil => exact ⟨fun _ _ => nofun, fun _ => trivial⟩
  | cons k path =>
    show (k = name → f.TakesAny path) ↔ _
    constructor
    · rintro h p heq
      obtain ⟨hk, rfl⟩ := List.cons.inj heq
      exact h hk
    · rintro h rfl
      exact h path rfl

@[simp] theorem Codec.takesAny_field (c : Codec α) (missing : Decoded α) (path : List String) :
    (c.field missing).TakesAny path ↔ c.TakesAny path :=
  Iff.rfl

@[simp] theorem Codec.takesAny_optional (c : Codec α) (missing : Decoded (Option α))
    (path : List String) : (c.optional missing).TakesAny path ↔ c.TakesAny path :=
  Iff.rfl

@[simp] theorem Field.takesAny_skipSerializing (f : Field α) (path : List String) :
    f.skipSerializing.TakesAny path ↔ f.TakesAny path :=
  Iff.rfl

@[simp] theorem Struct.takesAny_codec (r : Struct α) (path : List String) :
    r.codec.TakesAny path ↔ r.TakesAny path :=
  Iff.rfl

@[simp] theorem Struct.takesAny_iso (r : Struct α) (e : α ≃ β) (path : List String) :
    (r.iso e).TakesAny path ↔ r.TakesAny path :=
  Iff.rfl

@[simp] theorem Struct.takesAny_and (name : String) (f : Field α) (r : Struct β)
    (path : List String) : (Struct.and name f r).TakesAny path ↔
      (Struct.field name f).TakesAny path ∧ r.TakesAny path :=
  Iff.rfl

@[simp] theorem Codec.takesAny_enumeration (name : α → String) (variants : List α)
    (path : List String) : (Codec.enumeration name variants).TakesAny path ↔ path ≠ [] :=
  Iff.rfl

@[simp] theorem Codec.takesAny_string (path : List String) : Codec.string.TakesAny path :=
  fun _ => trivial

@[simp] theorem Codec.takesAny_boolean (path : List String) : Codec.boolean.TakesAny path :=
  fun _ => trivial

@[simp] theorem Codec.takesAny_u16 (path : List String) : Codec.u16.TakesAny path :=
  fun _ => trivial

@[simp] theorem Codec.takesAny_u32 (path : List String) : Codec.u32.TakesAny path :=
  fun _ => trivial

@[simp] theorem Codec.takesAny_u64 (path : List String) : Codec.u64.TakesAny path :=
  fun _ => trivial

@[simp] theorem Codec.takesAny_map (path : List String) : Codec.map.TakesAny path := trivial

end Serde
