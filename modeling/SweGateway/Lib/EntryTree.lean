import Mathlib.Data.List.Infix
import Mathlib.Data.List.Nodup

/-!
# Walking through the entries of a directory

An `Entry` is what a name in a file system stands for: a file, a directory with its entries in the
order in which they are listed, or something else, such as a link.  A walk through the entries below
a root is given a predicate and yields the entries that satisfy it; it does not go into a directory
that does not.  `Walks` says this of any such walk, which may yield errors besides.

`Entry.walk` is one: it lists an entry before those in it (`Entry.walks_walk`).
-/

/-- What a name stands for. -/
inductive Entry (ν κ : Type) where
  | file (contents : κ)
  | dir (entries : List (ν × Entry ν κ))
  | other

namespace Entry

/-- The type of an entry. -/
inductive Kind where
  | file
  | dir
  | other
  deriving DecidableEq, Repr

variable {ν κ : Type}

def kind : Entry ν κ → Kind
  | .file _ => .file
  | .dir _ => .dir
  | .other => .other

/-- The names lead from one entry to another. -/
inductive Leads : Entry ν κ → List ν → Entry ν κ → Prop
  | here (e : Entry ν κ) : Leads e [] e
  | inside {entries : List (ν × Entry ν κ)} {n : ν} {e : Entry ν κ} {rest : List ν} {e' : Entry ν κ}
      (hmem : (n, e) ∈ entries) (h : Leads e rest e') : Leads (.dir entries) (n :: rest) e'

mutual

/-- The names in every directory are distinct. -/
def Distinct : Entry ν κ → Prop
  | .dir entries => (entries.map Prod.fst).Nodup ∧ DistinctEntries entries
  | _ => True

def DistinctEntries : List (ν × Entry ν κ) → Prop
  | [] => True
  | (_, e) :: entries => Distinct e ∧ DistinctEntries entries

end

theorem distinct_of_mem {entries : List (ν × Entry ν κ)} (h : DistinctEntries entries) {n : ν}
    {e : Entry ν κ} (hmem : (n, e) ∈ entries) : e.Distinct := by
  induction entries with
  | nil => cases hmem
  | cons entry entries ih =>
    rcases List.mem_cons.mp hmem with rfl | hmem
    · exact h.1
    · exact ih h.2 hmem

/-- A name stands for one entry of a directory. -/
theorem eq_of_mem_of_nodup {entries : List (ν × Entry ν κ)} (h : (entries.map Prod.fst).Nodup)
    {n : ν} {e e' : Entry ν κ} (hmem : (n, e) ∈ entries) (hmem' : (n, e') ∈ entries) : e = e' := by
  have heq : ((n, e) : ν × Entry ν κ) = (n, e') := List.inj_on_of_nodup_map h hmem hmem' rfl
  exact (Prod.mk.inj heq).2

/-- The names lead to one entry. -/
theorem Leads.unique {e e₁ e₂ : Entry ν κ} {names : List ν} (hdistinct : e.Distinct)
    (h₁ : e.Leads names e₁) (h₂ : e.Leads names e₂) : e₁ = e₂ := by
  induction h₁ with
  | here =>
    cases h₂
    rfl
  | inside hmem h ih =>
    cases h₂ with
    | inside hmem' h' =>
      obtain rfl := eq_of_mem_of_nodup hdistinct.1 hmem hmem'
      exact ih (distinct_of_mem hdistinct.2 hmem) h'

/-- On the way to an entry there are directories. -/
theorem Leads.exists_dir {e e' : Entry ν κ} {names front : List ν} (h : e.Leads names e')
    (hfront : front <+: names) (hne : front ≠ names) : ∃ entries, e.Leads front (.dir entries) := by
  induction h generalizing front with
  | here => exact absurd (List.prefix_nil.mp hfront) hne
  | @inside entries n e rest e' hmem h ih =>
    rcases List.prefix_cons_iff.mp hfront with rfl | ⟨below, rfl, hbelow⟩
    · exact ⟨entries, .here _⟩
    · obtain ⟨entries', hdir⟩ := ih hbelow fun heq => hne (heq ▸ rfl)
      exact ⟨entries', .inside hmem hdir⟩

end Entry

/-- An entry that a walk yields: the names on the way to it from the root of the walk, and its
type. -/
structure WalkEntry (ν : Type) where
  path : List ν
  kind : Entry.Kind
  deriving DecidableEq, Repr

namespace Entry

variable {ν κ ε : Type}

/-- **A walk** through the entries below `root` yields, each once and besides errors, the entries
that satisfy the predicate it is given, and does not go into directories that do not satisfy it. -/
structure Walks (root : Entry ν κ)
    (walk : (WalkEntry ν → Bool) → List (Except ε (WalkEntry ν))) : Prop where
  mem_iff : ∀ keep entry, .ok entry ∈ walk keep ↔
    (∃ e, root.Leads entry.path e ∧ e.kind = entry.kind) ∧
      ∀ front e, front <+: entry.path → root.Leads front e → keep ⟨front, e.kind⟩ = true
  nodup : ∀ keep, ((walk keep).filterMap Except.toOption).Nodup

mutual

/-- The entries below one that is at `path`, each before those in it. -/
def walk (keep : WalkEntry ν → Bool) (path : List ν) : Entry ν κ → List (WalkEntry ν)
  | .file _ => if keep ⟨path, .file⟩ then [⟨path, .file⟩] else []
  | .dir entries => if keep ⟨path, .dir⟩ then ⟨path, .dir⟩ :: walkEntries keep path entries else []
  | .other => if keep ⟨path, .other⟩ then [⟨path, .other⟩] else []

def walkEntries (keep : WalkEntry ν → Bool) (path : List ν) :
    List (ν × Entry ν κ) → List (WalkEntry ν)
  | [] => []
  | (n, e) :: entries => walk keep (path ++ [n]) e ++ walkEntries keep path entries

end

/-- The names lead from an entry at `path` to another, through entries that are kept. -/
inductive Reaches (keep : WalkEntry ν → Bool) : List ν → Entry ν κ → List ν → Entry ν κ → Prop
  | here {path : List ν} {e : Entry ν κ} (hkeep : keep ⟨path, e.kind⟩ = true) :
    Reaches keep path e [] e
  | inside {path : List ν} {entries : List (ν × Entry ν κ)} {n : ν} {e : Entry ν κ} {rest : List ν}
      {e' : Entry ν κ} (hkeep : keep ⟨path, .dir⟩ = true) (hmem : (n, e) ∈ entries)
      (h : Reaches keep (path ++ [n]) e rest e') : Reaches keep path (.dir entries) (n :: rest) e'

variable {keep : WalkEntry ν → Bool}

theorem reaches_iff {path names : List ν} {e e' : Entry ν κ} (hdistinct : e.Distinct) :
    Reaches keep path e names e' ↔ e.Leads names e' ∧
      ∀ front e'', front <+: names → e.Leads front e'' → keep ⟨path ++ front, e''.kind⟩ = true := by
  constructor
  · intro h
    induction h with
    | here hkeep =>
      refine ⟨.here _, fun front e'' hfront hleads => ?_⟩
      obtain rfl := List.prefix_nil.mp hfront
      cases hleads
      rwa [List.append_nil]
    | inside hkeep hmem h ih =>
      obtain ⟨hleads, hfronts⟩ := ih (distinct_of_mem hdistinct.2 hmem)
      refine ⟨.inside hmem hleads, fun front e'' hfront hleads' => ?_⟩
      rcases List.prefix_cons_iff.mp hfront with rfl | ⟨below, rfl, hbelow⟩
      · cases hleads'
        rwa [List.append_nil]
      · cases hleads' with
        | inside hmem' h' =>
          obtain rfl := eq_of_mem_of_nodup hdistinct.1 hmem hmem'
          have hkeep' := hfronts below e'' hbelow h'
          rwa [List.append_assoc, List.singleton_append] at hkeep'
  · rintro ⟨hleads, hfronts⟩
    induction hleads generalizing path with
    | here e =>
      have hkeep := hfronts [] e List.nil_prefix (.here _)
      rw [List.append_nil] at hkeep
      exact .here hkeep
    | inside hmem h ih =>
      have hkeep := hfronts [] _ List.nil_prefix (.here _)
      rw [List.append_nil] at hkeep
      refine .inside hkeep hmem (ih (distinct_of_mem hdistinct.2 hmem) ?_)
      intro front e'' hfront hleads
      rw [List.append_assoc, List.singleton_append]
      exact hfronts _ e'' (List.cons_prefix_cons.mpr ⟨rfl, hfront⟩) (.inside hmem hleads)

/-- Only a directory has anything in it. -/
theorem mem_leaf_iff {path : List ν} {e : Entry ν κ} {x : WalkEntry ν}
    (hleaf : ∀ entries, e ≠ .dir entries) :
    (x ∈ if keep ⟨path, e.kind⟩ then [(⟨path, e.kind⟩ : WalkEntry ν)] else []) ↔
      ∃ names e', x = ⟨path ++ names, e'.kind⟩ ∧ Reaches keep path e names e' := by
  constructor
  · intro h
    split at h
    · next hkeep => exact ⟨[], e, by simpa using h, .here hkeep⟩
    · cases h
  · rintro ⟨names, e', rfl, h⟩
    cases h with
    | here hkeep => simp [hkeep]
    | inside => exact absurd rfl (hleaf _)

mutual

/-- **What the walk lists**, from where the entry is. -/
theorem mem_walk_append (path : List ν) (x : WalkEntry ν) : (e : Entry ν κ) →
    (x ∈ e.walk keep path ↔
      ∃ names e', x = ⟨path ++ names, e'.kind⟩ ∧ Reaches keep path e names e')
  | .file contents => mem_leaf_iff (e := .file contents) nofun
  | .other => mem_leaf_iff (e := .other) nofun
  | .dir entries => by
    have hentries := mem_walkEntries_append path x entries
    rw [walk]
    constructor
    · intro h
      split at h
      · next hkeep =>
        rcases List.mem_cons.mp h with rfl | h
        · exact ⟨[], .dir entries, by simp [kind], .here hkeep⟩
        · obtain ⟨n, e, hmem, names, e', rfl, hreach⟩ := hentries.mp h
          exact ⟨n :: names, e', by simp, .inside hkeep hmem hreach⟩
      · cases h
    · rintro ⟨names, e', rfl, h⟩
      cases h with
      | here hkeep =>
        have hkeep' : keep ⟨path, .dir⟩ = true := hkeep
        rw [if_pos hkeep']
        simp [kind]
      | @inside _ _ n e rest _ hkeep hmem hreach =>
        rw [if_pos hkeep]
        exact List.mem_cons_of_mem _ (hentries.mpr ⟨n, e, hmem, rest, e', by simp, hreach⟩)

theorem mem_walkEntries_append (path : List ν) (x : WalkEntry ν) :
    (entries : List (ν × Entry ν κ)) →
    (x ∈ walkEntries keep path entries ↔ ∃ n e, (n, e) ∈ entries ∧
      ∃ names e', x = ⟨path ++ [n] ++ names, e'.kind⟩ ∧ Reaches keep (path ++ [n]) e names e')
  | [] => by simp [walkEntries]
  | (n, e) :: entries => by
    rw [walkEntries, List.mem_append, mem_walkEntries_append path x entries,
      mem_walk_append (path ++ [n]) x e]
    constructor
    · rintro (h | ⟨m, e', hmem, h⟩)
      · exact ⟨n, e, List.mem_cons_self, h⟩
      · exact ⟨m, e', List.mem_cons_of_mem _ hmem, h⟩
    · rintro ⟨m, e', hmem, h⟩
      rcases List.mem_cons.mp hmem with heq | hmem
      · cases heq
        exact .inl h
      · exact .inr ⟨m, e', hmem, h⟩

end

mutual

/-- **Each entry is listed once.** -/
theorem nodup_walk (path : List ν) : (e : Entry ν κ) → e.Distinct → (e.walk keep path).Nodup
  | .file _, _ => by
    rw [walk]
    split <;> simp
  | .other, _ => by
    rw [walk]
    split <;> simp
  | .dir entries, h => by
    rw [walk]
    split
    · refine List.nodup_cons.mpr ⟨fun hmem => ?_, nodup_walkEntries path entries h.1 h.2⟩
      -- what is in the directory has a longer path
      obtain ⟨n, e, -, names, e', heq, -⟩ := (mem_walkEntries_append path _ entries).mp hmem
      simpa using congrArg WalkEntry.path heq
    · exact List.nodup_nil

theorem nodup_walkEntries (path : List ν) : (entries : List (ν × Entry ν κ)) →
    (entries.map Prod.fst).Nodup → DistinctEntries entries → (walkEntries keep path entries).Nodup
  | [], _, _ => List.nodup_nil
  | (n, e) :: entries, hnodup, hdistinct => by
    obtain ⟨hn, hnodup⟩ := List.nodup_cons.mp hnodup
    rw [walkEntries]
    refine List.Nodup.append (nodup_walk (path ++ [n]) e hdistinct.1)
      (nodup_walkEntries path entries hnodup hdistinct.2) fun x hx hx' => ?_
    -- the paths have different names after `path`
    obtain ⟨names, e₁, rfl, -⟩ := (mem_walk_append (path ++ [n]) x e).mp hx
    obtain ⟨m, e₂, hmem, names', e₃, heq, -⟩ := (mem_walkEntries_append path _ entries).mp hx'
    have hpaths := congrArg WalkEntry.path heq
    have hnm : n = m := by simpa using (List.append_inj hpaths (by simp)).1
    exact hn (List.mem_map.mpr ⟨(m, e₂), hmem, hnm.symm⟩)

end

/-- **The listing is a walk.** -/
theorem walks_walk {root : Entry ν κ} (hdistinct : root.Distinct) :
    root.Walks fun keep => (root.walk keep []).map (Except.ok (ε := ε)) where
  mem_iff keep entry := by
    have hmem : Except.ok (ε := ε) entry ∈ (root.walk keep []).map Except.ok ↔
        entry ∈ root.walk keep [] := List.mem_map_of_injective fun _ _ => Except.ok.inj
    rw [hmem, mem_walk_append]
    constructor
    · rintro ⟨names, e, rfl, hreach⟩
      obtain ⟨hleads, hfronts⟩ := (reaches_iff hdistinct).mp hreach
      exact ⟨⟨e, hleads, rfl⟩, hfronts⟩
    · rintro ⟨⟨e, hleads, hkind⟩, hfronts⟩
      refine ⟨entry.path, e, ?_, (reaches_iff hdistinct).mpr ⟨hleads, hfronts⟩⟩
      rw [hkind]
      rfl
  nodup keep := by
    have hoks : ∀ l : List (WalkEntry ν),
        (l.map (Except.ok (ε := ε))).filterMap Except.toOption = l := by
      intro l
      rw [List.filterMap_map]
      exact List.filterMap_some
    rw [hoks]
    exact nodup_walk [] root hdistinct

end Entry
