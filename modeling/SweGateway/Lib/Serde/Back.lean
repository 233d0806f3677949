import SweGateway.Lib.Serde

/-!
# What comes back of a value that is written

`Codec.back` is what is read of a value that has been written, and a codec is `Lossless` if that is
the value itself.  `Data.Fits` is what a value has to be like so that TOML can write it: its integers
have 64 bits, and no table has a key twice.
-/

namespace Serde

open AssocList

variable {α β : Type}

/-- What comes back of a value that is written and read again. -/
def Codec.back (c : Codec α) (a : α) : Decoded α := c.decode (c.encode a)

/-- What comes back of a field. -/
def Field.back (f : Field α) (a : α) : Decoded α := f.read (f.encode a)

/-- What comes back of a structure. -/
def Struct.back (r : Struct α) (a : α) : Decoded α := r.get (r.put a)

theorem Struct.lookup_entries (r : Struct α) (a : α) {k : String} (h : k ∈ r.keys) :
    (r.entries a).lookup k = r.put a k := by
  have hgen (ks : List String) : (ks.filterMap fun k => (r.put a k).map (k, ·)).lookup k =
      if k ∈ ks then r.put a k else none := by
    induction ks with
    | nil => rfl
    | cons k' ks ih =>
      by_cases hk : k = k'
      · subst hk
        cases hput : r.put a k with
        | none => simp [hput, ih]
        | some v => simp [hput]
      · cases hput : r.put a k' with
        | none => simp [hput, ih, hk]
        | some v => simp [hput, ih, hk, List.lookup_cons, beq_false_of_ne hk]
  rw [Struct.entries, hgen, if_pos h]

@[simp] theorem Struct.back_codec (r : Struct α) (a : α) : r.codec.back a = r.back a := by
  refine r.get_same fun k hk => .inl ?_
  exact r.lookup_entries a hk

@[simp] theorem Struct.back_iso (r : Struct α) (e : α ≃ β) (b : β) :
    (r.iso e).back b = (r.back (e.symm b)).map e := by
  unfold Struct.back
  rfl

@[simp] theorem Struct.back_field (name : String) (f : Field α) (a : α) :
    (Struct.field name f).back a = f.back a := by
  show f.read (if name = name then f.encode a else none) = f.read (f.encode a)
  rw [if_pos rfl]

@[simp] theorem Struct.keys_field (name : String) (f : Field α) :
    (Struct.field name f).keys = [name] := rfl

@[simp] theorem Struct.keys_and (name : String) (f : Field α) (r : Struct β) :
    (Struct.and name f r).keys = name :: r.keys := rfl

theorem Struct.put_and_self (name : String) (f : Field α) (r : Struct β) (p : α × β) :
    (Struct.and name f r).put p name = f.encode p.1 := by
  show (if name ∈ [name] then if name = name then f.encode p.1 else none else _) = _
  rw [if_pos List.mem_cons_self, if_pos rfl]

theorem Struct.put_and_of_mem {name : String} {r : Struct β} (h : name ∉ r.keys) (f : Field α)
    (p : α × β) {k : String} (hk : k ∈ r.keys) : (Struct.and name f r).put p k = r.put p.2 k := by
  refine if_neg fun hk' => h ?_
  obtain rfl : k = name := List.mem_singleton.mp hk'
  exact hk

@[simp] theorem Struct.back_and {name : String} {r : Struct β} (h : name ∉ r.keys) (f : Field α)
    (p : α × β) : (Struct.and name f r).back p = both (f.back p.1) (r.back p.2) := by
  have hrest : r.get ((Struct.and name f r).put p) = r.back p.2 :=
    r.get_same fun k hk => .inl (Struct.put_and_of_mem h f p hk)
  show both (f.read ((Struct.and name f r).put p name)) (r.get _) = _
  rw [Struct.put_and_self, hrest]
  rfl

theorem Codec.back_field (c : Codec α) (missing : Decoded α) (a : α) :
    (c.field missing).back a = c.back a := rfl

theorem Codec.back_optional_some (c : Codec α) (missing : Decoded (Option α)) (a : α) :
    (c.optional missing).back (some a) = (c.back a).map some := by
  unfold Field.back
  rfl

theorem Codec.back_optional_none (c : Codec α) (missing : Decoded (Option α)) :
    (c.optional missing).back none = missing := by
  unfold Field.back
  rfl

@[simp] theorem Field.back_skipSerializing (f : Field α) (a : α) :
    f.skipSerializing.back a = f.missing := by
  unfold Field.back
  rfl

@[simp] theorem Codec.missing_optional (c : Codec α) (missing : Decoded (Option α)) :
    (c.optional missing).missing = missing := rfl

@[simp] theorem Codec.missing_field (c : Codec α) (missing : Decoded α) :
    (c.field missing).missing = missing := rfl

/-- Every value of the type comes back as it is. -/
def Codec.Lossless (c : Codec α) : Prop := ∀ a, c.back a = .ok a

/-- What comes back of a field whose type comes back as it is. -/
@[simp] theorem Codec.Lossless.back_field {c : Codec α} (h : c.Lossless) (missing : Decoded α)
    (a : α) : (c.field missing).back a = .ok a :=
  h a

/-- What comes back of an optional value whose type comes back as it is: a missing value is read as
the default. -/
@[simp] theorem Codec.Lossless.back_optional {c : Codec α} (h : c.Lossless) (d o : Option α) :
    (c.optional (.ok d)).back o = .ok (o.or d) := by
  cases o with
  | none => rfl
  | some a =>
    rw [Codec.back_optional_some, h]
    rfl

@[simp] theorem Codec.lossless_string : Codec.string.Lossless := fun _ => rfl

@[simp] theorem Codec.lossless_boolean : Codec.boolean.Lossless := fun _ => rfl

theorem Codec.lossless_unsigned {size : ℕ} {toNat : α → ℕ} {ofNat : ℕ → α}
    (hlt : ∀ a, toNat a < size) (hback : ∀ a, ofNat (toNat a) = a) :
    (Codec.unsigned size toNat ofNat).Lossless := by
  intro a
  have hrange : 0 ≤ (toNat a : ℤ) ∧ (toNat a : ℤ) < size := by
    have := hlt a
    omega
  show (if 0 ≤ (toNat a : ℤ) ∧ (toNat a : ℤ) < size then
    .ok (ofNat (toNat a : ℤ).toNat) else .error _ : Decoded α) = _
  rw [if_pos hrange, Int.toNat_natCast, hback]

@[simp] theorem Codec.lossless_u16 : Codec.u16.Lossless :=
  lossless_unsigned UInt16.toNat_lt fun _ => UInt16.ofNat_toNat

@[simp] theorem Codec.lossless_u32 : Codec.u32.Lossless :=
  lossless_unsigned UInt32.toNat_lt fun _ => UInt32.ofNat_toNat

@[simp] theorem Codec.lossless_u64 : Codec.u64.Lossless :=
  lossless_unsigned UInt64.toNat_lt fun _ => UInt64.ofNat_toNat

theorem Codec.lossless_enumeration {name : α → String} {variants : List α}
    (h : ∀ a, variants.find? (name · = name a) = some a) :
    (Codec.enumeration name variants).Lossless := by
  intro a
  simp only [Codec.back, Codec.enumeration, Codec.leaf, h]

theorem nodup_entries (m : HashMap String String) :
    ((m.toList.map fun (k, s) => (k, Data.string s)).map Prod.fst).Nodup := by
  rw [List.map_map, List.Nodup, List.pairwise_map]
  refine Std.ExtTreeMap.distinct_keys_toList.imp fun hne heq => hne ?_
  exact Std.LawfulEqOrd.compare_eq_iff_eq.mpr heq

theorem lookup_toList (m : HashMap String String) (k : String) :
    (m.toList.map fun (k, s) => (k, Data.string s)).lookup k = m[k]?.map .string := by
  have hmem : ∀ s, (k, s) ∈ m.toList ↔ m[k]? = some s := fun s =>
    Std.ExtTreeMap.mem_toList_iff_getElem?_eq_some
  cases hk : m[k]? with
  | some s =>
    have hnodup := nodup_entries m
    exact lookup_eq_some_of_mem hnodup (List.mem_map.mpr ⟨(k, s), (hmem s).mpr hk, rfl⟩)
  | none =>
    refine List.lookup_eq_none_iff.mpr fun e he => ?_
    obtain ⟨⟨k', s⟩, hs, rfl⟩ := List.mem_map.mp he
    refine bne_iff_ne.mpr fun heq : k = k' => ?_
    subst heq
    rw [hmem, hk] at hs
    cases hs

@[simp] theorem Codec.lossless_map : Codec.map.Lossless := by
  intro m
  have hstring : ∀ k v, (m.toList.map fun (k, s) => (k, Data.string s)).lookup k = some v →
      ∃ s, v = .string s := by
    intro k v hv
    rw [lookup_toList] at hv
    obtain ⟨s, -, rfl⟩ := Option.map_eq_some_iff.mp hv
    exact ⟨s, rfl⟩
  obtain ⟨m', hm'⟩ := reads_strings (nodup_entries m) hstring
  have hsame : m' = m := by
    refine Std.ExtTreeMap.ext_getElem? fun k => ?_
    have hlookup := (lookup_of_strings hm' k).symm.trans (lookup_toList m k)
    exact Option.map_injective (fun _ _ heq => Data.string.inj heq) hlookup
  exact hsame ▸ hm'

/-! ### What can be written -/

/-- The integers of the value have 64 bits, and no table has a key twice. -/
inductive Data.Fits : Data → Prop
  | string (s : String) : Fits (.string s)
  | integer {n : ℤ} (hlow : -2 ^ 63 ≤ n) (hhigh : n < 2 ^ 63) : Fits (.integer n)
  | boolean (b : Bool) : Fits (.boolean b)
  | table {es : List (String × Data)} (hnodup : (es.map Prod.fst).Nodup)
    (hvalues : ∀ e ∈ es, Fits e.2) : Fits (.table es)

theorem Same.of_fits {v : Data} (h : v.Fits) : Same v v := by
  induction h with
  | string s => exact .string s
  | integer => exact .integer _
  | boolean b => exact .boolean b
  | table hnodup _ ih => exact .table_self hnodup ih

/-- What the field is written as fits. -/
def Field.Fits (f : Field α) (a : α) : Prop := ∀ v, f.encode a = some v → v.Fits

/-- What the keys of the structure are bound to fits. -/
def Struct.Fits (r : Struct α) (a : α) : Prop :=
  ∀ k ∈ r.keys, ∀ v, r.put a k = some v → v.Fits

theorem Struct.nodup_entries (r : Struct α) (hkeys : r.keys.Nodup) (a : α) :
    ((r.entries a).map Prod.fst).Nodup := by
  have hsub : ((r.entries a).map Prod.fst).Sublist r.keys := by
    unfold entries
    induction r.keys with
    | nil => exact .slnil
    | cons k ks ih =>
      cases hput : r.put a k with
      | none => simpa [hput] using ih.cons k
      | some v => simpa [hput] using ih.cons_cons k
  exact hkeys.sublist hsub

theorem Struct.Fits.encode_codec {r : Struct α} {a : α} (h : r.Fits a) (hkeys : r.keys.Nodup) :
    (r.codec.encode a).Fits := by
  refine .table (r.nodup_entries hkeys a) fun e he => ?_
  obtain ⟨k, hk, hput⟩ := List.mem_filterMap.mp he
  obtain ⟨v, hv, rfl⟩ := Option.map_eq_some_iff.mp hput
  exact h k hk v hv

@[simp] theorem Struct.fits_field (name : String) (f : Field α) (a : α) :
    (Struct.field name f).Fits a ↔ f.Fits a := by
  have hput : (Struct.field name f).put a name = f.encode a := if_pos rfl
  constructor
  · intro h v hv
    exact h name List.mem_cons_self v (hput.trans hv)
  · intro h k hk v hv
    obtain rfl : k = name := List.mem_singleton.mp hk
    exact h v (hput.symm.trans hv)

@[simp] theorem Struct.fits_and {name : String} {r : Struct β} (h : name ∉ r.keys) (f : Field α)
    (p : α × β) : (Struct.and name f r).Fits p ↔ f.Fits p.1 ∧ r.Fits p.2 := by
  have hname := Struct.put_and_self name f r p
  constructor
  · intro hfits
    constructor
    · intro v hv
      exact hfits name List.mem_cons_self v (hname.trans hv)
    · intro k hk v hv
      exact hfits k (List.mem_cons_of_mem _ hk) v ((Struct.put_and_of_mem h f p hk).trans hv)
  · rintro ⟨hf, hr⟩ k hk v hv
    rcases List.mem_cons.mp hk with rfl | hk
    · exact hf v (hname.symm.trans hv)
    · exact hr k hk v ((Struct.put_and_of_mem h f p hk).symm.trans hv)

@[simp] theorem Struct.fits_iso (r : Struct α) (e : α ≃ β) (b : β) :
    (r.iso e).Fits b ↔ r.Fits (e.symm b) := by
  unfold Struct.Fits
  exact Iff.rfl

@[simp] theorem Field.fits_skipSerializing (f : Field α) (a : α) : f.skipSerializing.Fits a := nofun

@[simp] theorem Field.fits_field (c : Codec α) (missing : Decoded α) (a : α) :
    (c.field missing).Fits a ↔ (c.encode a).Fits := by
  constructor
  · intro h
    exact h _ rfl
  · intro h v hv
    obtain rfl : c.encode a = v := Option.some.inj hv
    exact h

@[simp] theorem Field.fits_optional (c : Codec α) (missing : Decoded (Option α)) (o : Option α) :
    (c.optional missing).Fits o ↔ ∀ a, o = some a → (c.encode a).Fits := by
  constructor
  · rintro h a rfl
    exact h _ rfl
  · intro h v hv
    obtain ⟨a, ha, rfl⟩ := Option.map_eq_some_iff.mp hv
    exact h a ha

@[simp] theorem Codec.fits_string (s : String) : (Codec.string.encode s).Fits := .string s

@[simp] theorem Codec.fits_boolean (b : Bool) : (Codec.boolean.encode b).Fits := .boolean b

@[simp] theorem Codec.fits_enumeration (name : α → String) (variants : List α) (a : α) :
    ((Codec.enumeration name variants).encode a).Fits :=
  .string (name a)

theorem Codec.fits_unsigned {size : ℕ} {toNat : α → ℕ} {ofNat : ℕ → α} {a : α}
    (h : toNat a < 2 ^ 63) : ((Codec.unsigned size toNat ofNat).encode a).Fits := by
  show (Data.integer (toNat a)).Fits
  exact .integer (by omega) (by omega)

@[simp] theorem Codec.fits_u16 (n : UInt16) : (Codec.u16.encode n).Fits := by
  have hlt := n.toNat_lt
  exact fits_unsigned (by omega)

@[simp] theorem Codec.fits_u32 (n : UInt32) : (Codec.u32.encode n).Fits := by
  have hlt := n.toNat_lt
  exact fits_unsigned (by omega)

theorem Codec.fits_u64 {n : UInt64} (h : n.toNat < 2 ^ 63) : (Codec.u64.encode n).Fits :=
  fits_unsigned h

@[simp] theorem Codec.fits_map (m : HashMap String String) : (Codec.map.encode m).Fits := by
  refine .table (nodup_entries m) fun e he => ?_
  obtain ⟨⟨k, s⟩, -, rfl⟩ := List.mem_map.mp he
  exact .string s

end Serde
