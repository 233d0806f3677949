import Mathlib.Data.List.Nodup
import Mathlib.Data.Nat.Notation
import Mathlib.Data.Int.Notation
import Mathlib.Logic.Equiv.Defs
import SweGateway.Lib.AssocList
import SweGateway.Lib.HashMap

/-!
# Structures in a self-describing format

`Data` is what a text format like TOML is read into and written from: strings, numbers, booleans
and tables.  A `Codec` writes the values of a type as such values and reads them back, and a
`Struct` does the same for a group of keys of a table.  Structures are put together from fields
(`Struct.field`), pairs (`Struct.prod`) and changes of representation (`Struct.iso`), the way that
the fields of a structure are written one after the other; `Struct.codec` is a table with the keys
of a structure.

What is read depends on what the keys of a table are bound to, not on their order (`Same`); this
is a law that every codec carries.  The other two laws are about values that differ in one string,
at the end of a path of keys (`SameBut`): what is read agrees but for the field at this path
(`agreesBut`), and where the field takes any string (`Codec.TakesAny`), one is read exactly if the
other one is.
-/

namespace Serde

open AssocList

/-- A value of the format. -/
inductive Data where
  | string (s : String)
  | integer (n : ℤ)
  | boolean (b : Bool)
  | table (entries : List (String × Data))
  /-- A value of a kind that no codec here reads. -/
  | other

/-- Why a value cannot be read. -/
inductive DecodeError where
  | missingField (name : String)
  | invalidType (expected : String)
  | invalidValue (n : ℤ)
  | unknownVariant (name : String)
  deriving DecidableEq, Repr

/-- What is read, or why it cannot be. -/
abbrev Decoded (α : Type) := Except DecodeError α

/-- The same value, up to the order of the keys in its tables. -/
inductive Same : Data → Data → Prop
  | string (s : String) : Same (.string s) (.string s)
  | integer (n : ℤ) : Same (.integer n) (.integer n)
  | boolean (b : Bool) : Same (.boolean b) (.boolean b)
  | other : Same .other .other
  | table {es es' : List (String × Data)} (hnodup : (es.map Prod.fst).Nodup)
    (hnodup' : (es'.map Prod.fst).Nodup)
    (hkeys : ∀ k, es.lookup k = none ↔ es'.lookup k = none)
    (hvalues : ∀ k v v', es.lookup k = some v → es'.lookup k = some v' → Same v v') :
    Same (.table es) (.table es')

/-- The same bindings of a key. -/
def SameAt (o o' : Option Data) : Prop :=
  o = o' ∨ ∃ v v', o = some v ∧ o' = some v' ∧ Same v v'

/-- The same value but for one string, at the end of the path of keys. -/
inductive SameBut : List String → Data → Data → Prop
  | here (s s' : String) : SameBut [] (.string s) (.string s')
  | inside {k : String} {path : List String} {es es' : List (String × Data)} {v v' : Data}
    (hnodup : (es.map Prod.fst).Nodup) (hnodup' : (es'.map Prod.fst).Nodup)
    (hk : es.lookup k = some v) (hk' : es'.lookup k = some v') (hbut : SameBut path v v')
    (hrest : ∀ k', k' ≠ k → es.lookup k' = es'.lookup k') :
    SameBut (k :: path) (.table es) (.table es')

/-- Something can be read. -/
def Reads {α : Type} (r : Decoded α) : Prop := ∃ a, r = .ok a

/-- How a type is written and read. -/
structure Codec (α : Type) where
  encode : α → Data
  decode : Data → Decoded α
  /-- Two values of the type agree but for what is at the path. -/
  agreesBut : List String → α → α → Prop
  /-- What is at the path, if it is read from a string at all, is read from any string. -/
  TakesAny : List String → Prop
  decode_same : ∀ {v v'}, Same v v' → decode v = decode v'
  agreesBut_of_decode : ∀ {path v v' a a'}, SameBut path v v' → decode v = .ok a →
    decode v' = .ok a' → agreesBut path a a'
  reads_iff : ∀ {path v v'}, TakesAny path → SameBut path v v' →
    (Reads (decode v) ↔ Reads (decode v'))

/-- How a field of a structure is written and read.  The field may be left out when it is written, and
it may be missing when it is read. -/
structure Field (α : Type) where
  encode : α → Option Data
  decode : Data → Decoded α
  missing : Decoded α
  agreesBut : List String → α → α → Prop
  TakesAny : List String → Prop
  decode_same : ∀ {v v'}, Same v v' → decode v = decode v'
  agreesBut_of_decode : ∀ {path v v' a a'}, SameBut path v v' → decode v = .ok a →
    decode v' = .ok a' → agreesBut path a a'
  reads_iff : ∀ {path v v'}, TakesAny path → SameBut path v v' →
    (Reads (decode v) ↔ Reads (decode v'))

/-- How a group of keys of a table is written and read. -/
structure Struct (α : Type) where
  keys : List String
  /-- What the keys are bound to when the structure is written. -/
  put : α → String → Option Data
  /-- Reads the structure from what the keys are bound to. -/
  get : (String → Option Data) → Decoded α
  agreesBut : List String → α → α → Prop
  TakesAny : List String → Prop
  get_same : ∀ {L L' : String → Option Data}, (∀ k ∈ keys, SameAt (L k) (L' k)) → get L = get L'
  agreesBut_of_get : ∀ {k path v v' a a'} {L L' : String → Option Data}, L k = some v →
    L' k = some v' → SameBut path v v' → (∀ k', k' ≠ k → L k' = L' k') → get L = .ok a →
      get L' = .ok a' → agreesBut (k :: path) a a'
  reads_iff : ∀ {k path v v'} {L L' : String → Option Data}, TakesAny (k :: path) →
    L k = some v → L' k = some v' → SameBut path v v' → (∀ k', k' ≠ k → L k' = L' k') →
      (Reads (get L) ↔ Reads (get L'))

/-! ### Reading -/

theorem reads_map {α β : Type} (f : α → β) (r : Decoded α) : Reads (r.map f) ↔ Reads r := by
  cases r with
  | error e => exact ⟨nofun, nofun⟩
  | ok a => exact ⟨fun _ => ⟨a, rfl⟩, fun _ => ⟨f a, rfl⟩⟩

@[simp] theorem map_ok {α β : Type} (f : α → β) (a : α) :
    (Except.ok a : Decoded α).map f = .ok (f a) := rfl

theorem map_eq_ok {α β : Type} {f : α → β} {r : Decoded α} {b : β} (h : r.map f = .ok b) :
    ∃ a, r = .ok a ∧ f a = b := by
  cases r with
  | error e => cases h
  | ok a => exact ⟨a, rfl, Except.ok.inj h⟩

/-- Two things, read one after the other. -/
def both {α β : Type} (r : Decoded α) (r' : Decoded β) : Decoded (α × β) := do
  let a ← r
  let b ← r'
  return (a, b)

theorem both_eq_ok {α β : Type} {r : Decoded α} {r' : Decoded β} {p : α × β}
    (h : both r r' = .ok p) : r = .ok p.1 ∧ r' = .ok p.2 := by
  cases r with
  | error e => cases h
  | ok a =>
    cases r' with
    | error e => cases h
    | ok b =>
      obtain rfl : (a, b) = p := Except.ok.inj h
      exact ⟨rfl, rfl⟩

@[simp] theorem map_error {α β : Type} (f : α → β) (e : DecodeError) :
    (Except.error e : Decoded α).map f = .error e := rfl

@[simp] theorem both_error_left {α β : Type} (e : DecodeError) (r : Decoded β) :
    both (.error e : Decoded α) r = .error e := rfl

@[simp] theorem both_error_right {α β : Type} (a : α) (e : DecodeError) :
    both (.ok a) (.error e : Decoded β) = .error e := rfl

@[simp] theorem both_ok {α β : Type} (a : α) (b : β) :
    both (.ok a : Decoded α) (.ok b) = .ok (a, b) := rfl

theorem reads_both {α β : Type} (r : Decoded α) (r' : Decoded β) :
    Reads (both r r') ↔ Reads r ∧ Reads r' := by
  constructor
  · rintro ⟨p, hp⟩
    exact ⟨⟨p.1, (both_eq_ok hp).1⟩, ⟨p.2, (both_eq_ok hp).2⟩⟩
  · rintro ⟨⟨a, rfl⟩, ⟨b, rfl⟩⟩
    exact ⟨(a, b), rfl⟩

theorem SameBut.eq_nil_of_string {path : List String} {s : String} {v : Data}
    (h : SameBut path (.string s) v) : path = [] := by
  cases h
  rfl

/-! ### Values without parts -/

/-- The codec of a type whose values are not tables.  `free` says that any string is as good as any
other. -/
def Codec.leaf {α : Type} (encode : α → Data) (decode : Data → Decoded α) (e : DecodeError)
    (free : Prop) (htable : ∀ es, decode (.table es) = .error e)
    (hfree : free → ∀ s s', Reads (decode (.string s)) ↔ Reads (decode (.string s'))) :
    Codec α where
  encode := encode
  decode := decode
  agreesBut path a b := path = [] ∨ a = b
  TakesAny path := path = [] → free
  decode_same h := by
    cases h with
    | table => rw [htable, htable]
    | string | integer | boolean | other => rfl
  agreesBut_of_decode h ha _ := by
    cases h with
    | here => exact .inl rfl
    | inside =>
      rw [htable] at ha
      cases ha
  reads_iff hany h := by
    cases h with
    | here s s' => exact hfree (hany rfl) s s'
    | inside => rw [htable, htable]

/-- A string. -/
def Codec.string : Codec String :=
  .leaf .string (fun | .string s => .ok s | _ => .error (.invalidType "a string"))
    (.invalidType "a string") True (fun _ => rfl) fun _ s s' => ⟨fun _ => ⟨s', rfl⟩, fun _ => ⟨s, rfl⟩⟩

/-- A boolean. -/
def Codec.boolean : Codec Bool :=
  .leaf .boolean (fun | .boolean b => .ok b | _ => .error (.invalidType "a boolean"))
    (.invalidType "a boolean") True (fun _ => rfl) fun _ _ _ => Iff.rfl

/-- A natural number below a bound. -/
def Codec.unsigned {α : Type} (size : ℕ) (toNat : α → ℕ) (ofNat : ℕ → α) : Codec α :=
  .leaf (fun a => .integer (toNat a))
    (fun
      | .integer n =>
        if 0 ≤ n ∧ n < size then .ok (ofNat n.toNat) else .error (.invalidValue n)
      | _ => .error (.invalidType "an integer"))
    (.invalidType "an integer") True (fun _ => rfl) fun _ _ _ => Iff.rfl

/-- A `u16`. -/
def Codec.u16 : Codec UInt16 := .unsigned UInt16.size UInt16.toNat UInt16.ofNat

/-- A `u32`. -/
def Codec.u32 : Codec UInt32 := .unsigned UInt32.size UInt32.toNat UInt32.ofNat

/-- A `u64`. -/
def Codec.u64 : Codec UInt64 := .unsigned UInt64.size UInt64.toNat UInt64.ofNat

/-- One of finitely many variants, by its name. -/
def Codec.enumeration {α : Type} (name : α → String) (variants : List α) : Codec α :=
  .leaf (fun a => .string (name a))
    (fun
      | .string s =>
        match variants.find? (name · = s) with
        | some a => .ok a
        | none => .error (.unknownVariant s)
      | _ => .error (.invalidType "a variant"))
    (.invalidType "a variant") False (fun _ => rfl) fun h => h.elim

/-! ### Tables of strings -/

theorem Same.symm {v v' : Data} (h : Same v v') : Same v' v := by
  induction h with
  | string s => exact .string s
  | integer n => exact .integer n
  | boolean b => exact .boolean b
  | other => exact .other
  | table hnodup hnodup' hkeys _ ih =>
    exact .table hnodup' hnodup (fun k => (hkeys k).symm) fun k v v' hv hv' => ih k v' v hv' hv

/-- A table without repeated keys is the same as itself if its values are. -/
theorem Same.table_self {es : List (String × Data)} (hnodup : (es.map Prod.fst).Nodup)
    (h : ∀ e ∈ es, Same e.2 e.2) : Same (.table es) (.table es) := by
  refine .table hnodup hnodup (fun _ => Iff.rfl) fun k v v' hv hv' => ?_
  obtain rfl : v = v' := Option.some.inj (hv.symm.trans hv')
  obtain ⟨l₁, l₂, hes, -⟩ := List.lookup_eq_some_iff.mp hv
  refine h (k, v) ?_
  rw [hes]
  exact List.mem_append_right _ List.mem_cons_self

/-- Reads the entries of a table as strings. -/
def strings : List (String × Data) → Decoded (HashMap String String)
  | [] => .ok ∅
  | (k, .string s) :: es => (strings es).map (·.insert k s)
  | _ :: _ => .error (.invalidType "a string")

theorem lookup_of_strings {es : List (String × Data)} {m : HashMap String String}
    (h : strings es = .ok m) (k : String) : es.lookup k = m[k]?.map .string := by
  induction es generalizing m with
  | nil =>
    obtain rfl := Except.ok.inj h
    simp
  | cons e es ih =>
    obtain ⟨k', v⟩ := e
    cases v with
    | string s =>
      obtain ⟨m', hm', rfl⟩ := map_eq_ok h
      rw [HashMap.getElem?_insert_ite, List.lookup_cons]
      by_cases hk : k' = k
      · rw [if_pos hk, beq_iff_eq.mpr hk.symm]
        rfl
      · rw [if_neg hk, beq_false_of_ne (Ne.symm hk)]
        exact ih hm'
    | integer | boolean | table | other => cases h

theorem reads_strings {es : List (String × Data)} (hnodup : (es.map Prod.fst).Nodup)
    (h : ∀ k v, es.lookup k = some v → ∃ s, v = .string s) : Reads (strings es) := by
  have hmem : ∀ e ∈ es, ∃ s, e.2 = .string s := fun e he =>
    h e.1 e.2 (lookup_eq_some_of_mem hnodup he)
  clear hnodup h
  induction es with
  | nil => exact ⟨∅, rfl⟩
  | cons e es ih =>
    obtain ⟨k, v⟩ := e
    obtain ⟨s, hs⟩ := hmem _ List.mem_cons_self
    obtain rfl : v = .string s := hs
    exact (reads_map _ _).mpr (ih fun e he => hmem e (List.mem_cons_of_mem _ he))

theorem strings_eq_error {es : List (String × Data)} {e : DecodeError}
    (h : strings es = .error e) : e = .invalidType "a string" := by
  induction es with
  | nil => cases h
  | cons entry es ih =>
    obtain ⟨k, v⟩ := entry
    cases v with
    | string s =>
      cases hes : strings es with
      | error e' =>
        rw [strings, hes] at h
        obtain rfl : e' = e := Except.error.inj h
        exact ih hes
      | ok m =>
        rw [strings, hes] at h
        cases h
    | integer | boolean | table | other => exact (Except.error.inj h).symm

/-- Two maps that the same table is read as are the same. -/
theorem eq_of_lookup {es es' : List (String × Data)} {m m' : HashMap String String} {k : String}
    (h : strings es = .ok m) (h' : strings es' = .ok m') (hk : es.lookup k = es'.lookup k) :
    m[k]? = m'[k]? := by
  rw [lookup_of_strings h, lookup_of_strings h'] at hk
  exact Option.map_injective (fun _ _ heq => Data.string.inj heq) hk

/-- A table that is read as strings is read the same in another order. -/
theorem strings_of_same {es es' : List (String × Data)} {m : HashMap String String}
    (hsame : Same (.table es) (.table es')) (h : strings es = .ok m) : strings es' = .ok m := by
  cases hsame with
  | table hnodup hnodup' hkeys hvalues =>
    have hlookup : ∀ k, es.lookup k = es'.lookup k := by
      intro k
      have hes := lookup_of_strings h k
      cases hv : es.lookup k with
      | none => exact ((hkeys k).mp hv).symm
      | some v =>
        cases hv' : es'.lookup k with
        | none =>
          rw [(hkeys k).mpr hv'] at hv
          cases hv
        | some v' =>
          rw [hv] at hes
          obtain ⟨s, -, rfl⟩ := Option.map_eq_some_iff.mp hes.symm
          cases hvalues k _ _ hv hv' with
          | string => rfl
    obtain ⟨m', hm'⟩ := reads_strings hnodup' fun k v hv => by
      rw [← hlookup, lookup_of_strings h] at hv
      obtain ⟨s, -, rfl⟩ := Option.map_eq_some_iff.mp hv
      exact ⟨s, rfl⟩
    rw [hm', Std.ExtTreeMap.ext_getElem? fun k => eq_of_lookup h hm' (hlookup k)]

/-- A table that is read as strings is read with another string for a key. -/
theorem reads_strings_of_sameBut {path : List String} {es es' : List (String × Data)}
    (hbut : SameBut path (.table es) (.table es')) (h : Reads (strings es)) :
    Reads (strings es') := by
  obtain ⟨m, hm⟩ := h
  cases hbut with
  | @inside k _ _ _ v v' hnodup hnodup' hk hk' hbut hrest =>
    refine reads_strings hnodup' fun k₁ v₁ hv₁ => ?_
    by_cases heq : k₁ = k
    · subst heq
      obtain rfl : v' = v₁ := Option.some.inj (hk'.symm.trans hv₁)
      rw [lookup_of_strings hm] at hk
      obtain ⟨s, -, rfl⟩ := Option.map_eq_some_iff.mp hk
      cases hbut with
      | here _ s' => exact ⟨s', rfl⟩
    · rw [← hrest k₁ heq, lookup_of_strings hm] at hv₁
      obtain ⟨s, -, rfl⟩ := Option.map_eq_some_iff.mp hv₁
      exact ⟨s, rfl⟩

theorem SameBut.symm {path : List String} {v v' : Data} (h : SameBut path v v') :
    SameBut path v' v := by
  induction h with
  | here s s' => exact .here s' s
  | inside hnodup hnodup' hk hk' _ hrest ih =>
    exact .inside hnodup' hnodup hk' hk ih fun k' hne => (hrest k' hne).symm

/-- A map from strings to strings, as a table. -/
def Codec.map : Codec (HashMap String String) where
  encode m := .table (m.toList.map fun (k, s) => (k, .string s))
  decode
    | .table es => strings es
    | _ => .error (.invalidType "a map")
  agreesBut path m m' := ∀ k, path ≠ [k] → m[k]? = m'[k]?
  TakesAny _ := True
  decode_same {v v'} h := by
    cases h with
    | string | integer | boolean | other => rfl
    | @table es es' hnodup hnodup' hkeys hvalues =>
      have hsame : Same (.table es) (.table es') := .table hnodup hnodup' hkeys hvalues
      show strings es = strings es'
      cases hes : strings es with
      | ok m => exact (strings_of_same hsame hes).symm
      | error e =>
        cases hes' : strings es' with
        | ok m =>
          rw [strings_of_same hsame.symm hes'] at hes
          cases hes
        | error e' => rw [strings_eq_error hes, strings_eq_error hes']
  agreesBut_of_decode h ha ha' := by
    cases h with
    | here => cases ha
    | @inside k path es es' v v' _ _ hk _ hbut hrest =>
      intro k' hne
      refine eq_of_lookup ha ha' (hrest k' fun heq => hne ?_)
      rw [lookup_of_strings ha] at hk
      obtain ⟨s, -, rfl⟩ := Option.map_eq_some_iff.mp hk
      rw [hbut.eq_nil_of_string, heq]
  reads_iff _ h := by
    cases h with
    | here => exact Iff.rfl
    | inside hnodup hnodup' hk hk' hbut hrest =>
      have hbut' := SameBut.inside hnodup hnodup' hk hk' hbut hrest
      exact ⟨reads_strings_of_sameBut hbut', reads_strings_of_sameBut hbut'.symm⟩

/-! ### Fields -/

section Structures

variable {α β : Type}

/-- A field that is always written. -/
def Codec.field (c : Codec α) (missing : Decoded α) : Field α where
  encode a := some (c.encode a)
  decode := c.decode
  missing := missing
  agreesBut := c.agreesBut
  TakesAny := c.TakesAny
  decode_same := c.decode_same
  agreesBut_of_decode := c.agreesBut_of_decode
  reads_iff := c.reads_iff

/-- A field that is written if it has a value. -/
def Codec.optional (c : Codec α) (missing : Decoded (Option α)) : Field (Option α) where
  encode o := o.map c.encode
  decode v := (c.decode v).map some
  missing := missing
  agreesBut path
    | some a, some b => c.agreesBut path a b
    | o, o' => o = o'
  TakesAny := c.TakesAny
  decode_same h := by rw [c.decode_same h]
  agreesBut_of_decode h ha hb := by
    obtain ⟨a, ha', rfl⟩ := map_eq_ok ha
    obtain ⟨b, hb', rfl⟩ := map_eq_ok hb
    exact c.agreesBut_of_decode h ha' hb'
  reads_iff hany h := by
    rw [reads_map, reads_map]
    exact c.reads_iff hany h

/-- The field, not written. -/
def Field.skipSerializing (f : Field α) : Field α := { f with encode := fun _ => none }

/-! ### Structures -/

/-- Reads a field from what its key is bound to. -/
def Field.read (f : Field α) : Option Data → Decoded α
  | some v => f.decode v
  | none => f.missing

/-- A structure of one field. -/
def Struct.field (name : String) (f : Field α) : Struct α where
  keys := [name]
  put a k := if k = name then f.encode a else none
  get L := f.read (L name)
  agreesBut
    | [], a, b => a = b
    | k :: path, a, b => if k = name then f.agreesBut path a b else a = b
  TakesAny
    | [] => True
    | k :: path => k = name → f.TakesAny path
  get_same h := by
    rcases h name (by simp) with heq | ⟨v, v', hv, hv', hsame⟩
    · rw [heq]
    · rw [hv, hv']
      exact f.decode_same hsame
  agreesBut_of_get {k path v v' a b L L'} hv hv' hbut hrest ha hb := by
    by_cases hk : k = name
    · -- the string is in this field
      subst hk
      rw [hv] at ha
      rw [hv'] at hb
      show if k = k then f.agreesBut path a b else a = b
      rw [if_pos rfl]
      exact f.agreesBut_of_decode hbut ha hb
    · -- the field is read from the same value in both
      rw [hrest name (Ne.symm hk), hb] at ha
      show if k = name then f.agreesBut path a b else a = b
      rw [if_neg hk]
      exact (Except.ok.inj ha).symm
  reads_iff {k path v v' L L'} hany hv hv' hbut hrest := by
    by_cases hk : k = name
    · subst hk
      rw [hv, hv']
      exact f.reads_iff (hany rfl) hbut
    · rw [hrest name (Ne.symm hk)]

/-- The keys of two structures. -/
def Struct.prod (r : Struct α) (r' : Struct β) : Struct (α × β) where
  keys := r.keys ++ r'.keys
  put p k := if k ∈ r.keys then r.put p.1 k else r'.put p.2 k
  get L := both (r.get L) (r'.get L)
  agreesBut path p p' := r.agreesBut path p.1 p'.1 ∧ r'.agreesBut path p.2 p'.2
  TakesAny path := r.TakesAny path ∧ r'.TakesAny path
  get_same h := by
    rw [r.get_same fun k hk => h k (List.mem_append_left _ hk),
      r'.get_same fun k hk => h k (List.mem_append_right _ hk)]
  agreesBut_of_get hv hv' hbut hrest ha hb := by
    obtain ⟨ha, ha'⟩ := both_eq_ok ha
    obtain ⟨hb, hb'⟩ := both_eq_ok hb
    exact ⟨r.agreesBut_of_get hv hv' hbut hrest ha hb, r'.agreesBut_of_get hv hv' hbut hrest ha' hb'⟩
  reads_iff hany hv hv' hbut hrest := by
    rw [reads_both, reads_both, r.reads_iff hany.1 hv hv' hbut hrest,
      r'.reads_iff hany.2 hv hv' hbut hrest]

/-- A field in front of a structure. -/
def Struct.and (name : String) (f : Field α) (r : Struct β) : Struct (α × β) :=
  (Struct.field name f).prod r

/-- The structure in another representation. -/
def Struct.iso (r : Struct α) (e : α ≃ β) : Struct β where
  keys := r.keys
  put b := r.put (e.symm b)
  get L := (r.get L).map e
  agreesBut path b b' := r.agreesBut path (e.symm b) (e.symm b')
  TakesAny := r.TakesAny
  get_same h := by rw [r.get_same h]
  agreesBut_of_get hv hv' hbut hrest ha hb := by
    obtain ⟨a, ha', rfl⟩ := map_eq_ok ha
    obtain ⟨b, hb', rfl⟩ := map_eq_ok hb
    rw [e.symm_apply_apply, e.symm_apply_apply]
    exact r.agreesBut_of_get hv hv' hbut hrest ha' hb'
  reads_iff hany hv hv' hbut hrest := by
    rw [reads_map, reads_map]
    exact r.reads_iff hany hv hv' hbut hrest

/-- The entries of the table that a structure is written as. -/
def Struct.entries (r : Struct α) (a : α) : List (String × Data) :=
  r.keys.filterMap fun k => (r.put a k).map (k, ·)

/-- A table with the keys of a structure. -/
def Struct.codec (r : Struct α) : Codec α where
  encode a := .table (r.entries a)
  decode
    | .table es => r.get fun k => es.lookup k
    | _ => .error (.invalidType "a table")
  agreesBut := r.agreesBut
  TakesAny := r.TakesAny
  decode_same h := by
    cases h with
    | string | integer | boolean | other => rfl
    | @table es es' _ _ hkeys hvalues =>
      refine r.get_same fun k _ => ?_
      cases hv : es.lookup k with
      | none => exact .inl ((hkeys k).mp hv).symm
      | some v =>
        cases hv' : es'.lookup k with
        | none =>
          rw [(hkeys k).mpr hv'] at hv
          cases hv
        | some v' => exact .inr ⟨v, v', rfl, rfl, hvalues k v v' hv hv'⟩
  agreesBut_of_decode h ha hb := by
    cases h with
    | here => cases ha
    | inside _ _ hk hk' hbut hrest => exact r.agreesBut_of_get hk hk' hbut hrest ha hb
  reads_iff hany h := by
    cases h with
    | here => exact Iff.rfl
    | inside _ _ hk hk' hbut hrest => exact r.reads_iff hany hk hk' hbut hrest

end Structures

end Serde
