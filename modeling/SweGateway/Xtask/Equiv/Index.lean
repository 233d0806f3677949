import SweGateway.Lib.Eff
import SweGateway.Xtask.Index

/-!
# What `upsert_entry` does to the records of an index file

Read as records, an index file changes like a table: `records_upsertText` says that the records of
the entry's name and version become the new entry, that the other records stay where they are, and
that the entry comes last if there was no such record.  `reads_upsertText` is what this means
for a reader of the file, who parses its records.
-/

namespace SweGateway.Xtask

open TextLines

variable (codec : EntryCodec)

/-- The two entries are of the same name and version. -/
def IndexEntry.SameKey (a b : IndexEntry) : Prop := a.name = b.name ∧ a.vers = b.vers

instance (a b : IndexEntry) : Decidable (a.SameKey b) := inferInstanceAs (Decidable (_ ∧ _))

/-- The record parses as an entry of the name and version of `entry`. -/
def EntryCodec.Describes (record : List Char) (entry : IndexEntry) : Prop :=
  ∃ e, codec.fromStr record = some e ∧ e.SameKey entry

instance (record : List Char) (entry : IndexEntry) : Decidable (codec.Describes record entry) :=
  match h : codec.fromStr record with
  | none => isFalse fun ⟨e, he, _⟩ => by simp [h] at he
  | some e =>
    if hkey : e.SameKey entry then isTrue ⟨e, h, hkey⟩
    else isFalse fun ⟨e', he', hkey'⟩ => hkey (by rw [h] at he'; cases he'; exact hkey')

/-- The records after the entry is put among them. -/
def upsertRecords (entry : IndexEntry) (rs : List (List Char)) : List (List Char) :=
  rs.map (fun r => if codec.Describes r entry then codec.toString entry else r) ++
    if ∃ r ∈ rs, codec.Describes r entry then [] else [codec.toString entry]

variable {codec}

/-! ### The loop -/

/-- One line of the loop: the lines so far, and whether the entry is among them. -/
def scanLine (codec : EntryCodec) (entry : IndexEntry) (s : List (List Char) × Bool)
    (line : List Char) : List (List Char) × Bool :=
  if trim line = [] then s
  else if codec.Describes (trim line) entry then (s.1 ++ [codec.toString entry], true)
  else (s.1 ++ [trim line], s.2)

theorem upsertText_eq (entry : IndexEntry) (existing : List Char) :
    upsertText codec entry existing =
      let s := (lines existing).foldl (scanLine codec entry) ([], false)
      joinRecords (if s.2 then s.1 else s.1 ++ [codec.toString entry]) := by
  unfold upsertText
  dsimp only
  rw [Eff.forIn_eq_foldl (g := scanLine codec entry)]
  · simp only [Id.run, pure_bind]
    cases ((lines existing).foldl (scanLine codec entry) ([], false)).2 <;> rfl
  · intro line s
    unfold scanLine
    by_cases hblank : trim line = []
    · rw [if_pos hblank, if_pos hblank]
    rw [if_neg hblank, if_neg hblank]
    cases hparse : codec.fromStr (trim line) with
    | none =>
      rw [if_neg]
      rintro ⟨e, he, -⟩
      rw [hparse] at he
      cases he
    | some e =>
      have hiff : codec.Describes (trim line) entry ↔ e.SameKey entry := by
        constructor
        · rintro ⟨e', he', hkey⟩
          rw [hparse] at he'
          cases he'
          exact hkey
        · intro hkey
          exact ⟨e, hparse, hkey⟩
      by_cases hkey : e.SameKey entry
      · rw [if_pos (hiff.mpr hkey)]
        exact if_pos hkey
      · rw [if_neg (mt hiff.mp hkey)]
        exact if_neg hkey

/-- The loop replaces the records of the key and keeps the others. -/
theorem foldl_scanLine (entry : IndexEntry) (ls : List (List Char))
    (s : List (List Char) × Bool) :
    let rs := (ls.map trim).filter (· ≠ [])
    ls.foldl (scanLine codec entry) s =
      (s.1 ++ rs.map (fun r => if codec.Describes r entry then codec.toString entry else r),
        s.2 || rs.any fun r => decide (codec.Describes r entry)) := by
  induction ls generalizing s with
  | nil => simp
  | cons line ls ih =>
    rw [List.foldl_cons, ih, scanLine]
    by_cases hblank : trim line = []
    · simp [hblank]
    · by_cases hkey : codec.Describes (trim line) entry
      · simp [hblank, hkey]
      · simp [hblank, hkey]

theorem upsertText_eq_joinRecords (entry : IndexEntry) (existing : List Char) :
    upsertText codec entry existing =
      joinRecords (upsertRecords codec entry (records existing)) := by
  rw [upsertText_eq]
  simp only [foldl_scanLine, List.nil_append, Bool.false_or, List.any_eq_true, decide_eq_true_eq]
  rw [upsertRecords, records]
  split
  · rw [List.append_nil]
  · rfl

/-! ### The records -/

theorem isRecord_of_mem_upsertRecords {entry : IndexEntry} {rs : List (List Char)}
    (h : ∀ r ∈ rs, IsRecord r) : ∀ r ∈ upsertRecords codec entry rs, IsRecord r := by
  intro r hr
  have hjson := codec.isRecord_toString entry
  rcases List.mem_append.mp hr with hr | hr
  · obtain ⟨r', hr', rfl⟩ := List.mem_map.mp hr
    split
    · exact hjson
    · exact h r' hr'
  · split at hr
    · cases hr
    · rw [List.mem_singleton] at hr
      exact hr ▸ hjson

/-- **`upsert_entry` on records.**  Those of the entry's name and version become the entry, the
others stay, and without one of them the entry comes last. -/
theorem records_upsertText (entry : IndexEntry) (existing : List Char) :
    records (upsertText codec entry existing) =
      upsertRecords codec entry (records existing) := by
  rw [upsertText_eq_joinRecords]
  exact records_joinRecords
    (isRecord_of_mem_upsertRecords fun r hr => isRecord_of_mem_records hr)

/-- The entry is the only record of a file that does not exist yet. -/
theorem records_toString_newline (entry : IndexEntry) :
    records (codec.toString entry ++ ['\n']) = [codec.toString entry] := by
  have hrecord : ∀ r ∈ [codec.toString entry], IsRecord r := by
    intro r hr
    rw [List.mem_singleton.mp hr]
    exact codec.isRecord_toString entry
  have h : records (joinRecords [codec.toString entry]) = [codec.toString entry] :=
    records_joinRecords hrecord
  rw [joinRecords, List.intercalate_singleton] at h
  exact h

/-- Some record of the text parses as the entry. -/
def EntryCodec.Reads (codec : EntryCodec) (text : List Char) (entry : IndexEntry) : Prop :=
  ∃ r ∈ records text, codec.fromStr r = some entry

/-- **What a reader finds** after `upsert_entry`: the new entry, and the old entries of other names
and versions. -/
theorem reads_upsertText (entry e : IndexEntry) (existing : List Char) :
    codec.Reads (upsertText codec entry existing) e ↔
      e = entry ∨ (codec.Reads existing e ∧ ¬ e.SameKey entry) := by
  unfold EntryCodec.Reads
  rw [records_upsertText]
  constructor
  · rintro ⟨r, hr, he⟩
    rcases List.mem_append.mp hr with hr | hr
    · obtain ⟨r', hr', rfl⟩ := List.mem_map.mp hr
      split at he
      · rw [codec.fromStr_toString] at he
        exact .inl (Option.some.inj he).symm
      · next hkey => exact .inr ⟨⟨r', hr', he⟩, fun h => hkey ⟨e, he, h⟩⟩
    · split at hr
      · cases hr
      · rw [List.mem_singleton] at hr
        rw [hr, codec.fromStr_toString] at he
        exact .inl (Option.some.inj he).symm
  · rintro (rfl | ⟨⟨r, hr, he⟩, hkey⟩)
    · refine ⟨codec.toString e, ?_, codec.fromStr_toString e⟩
      by_cases hex : ∃ r ∈ records existing, codec.Describes r e
      · obtain ⟨r, hr, hd⟩ := hex
        exact List.mem_append_left _ (List.mem_map.mpr ⟨r, hr, if_pos hd⟩)
      · rw [upsertRecords, if_neg hex]
        exact List.mem_append_right _ (List.mem_singleton_self _)
    · have hnot : ¬ codec.Describes r entry := by
        rintro ⟨e', he', hkey'⟩
        rw [he] at he'
        cases he'
        exact hkey hkey'
      exact ⟨r, List.mem_append_left _ (List.mem_map.mpr ⟨r, hr, if_neg hnot⟩), he⟩

theorem reads_toString_newline (entry e : IndexEntry) :
    codec.Reads (codec.toString entry ++ ['\n']) e ↔ e = entry := by
  unfold EntryCodec.Reads
  rw [records_toString_newline]
  simp [codec.fromStr_toString, eq_comm]

end SweGateway.Xtask
