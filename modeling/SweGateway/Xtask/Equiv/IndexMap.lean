import SweGateway.Lib.KeyedList
import SweGateway.Xtask.Equiv.Publish

/-!
# An index file is a map

The key of a line is the name and version of the entry it parses as; a line that does not parse has
none.  `upsert_entry` on a file is `KeyedList.upsert` on its records, whether the file exists or
not (`upsertEntry_eq`), so a run of upserts to one file is `KeyedList.upsertAll`
(`upsertEntries_eq`).  `upsertEntries_map` is what follows for the file, from the laws of tables.
-/

namespace SweGateway.Xtask

open TextLines KeyedList

/-- The name and version of the entry. -/
def IndexEntry.key (entry : IndexEntry) : String × String := (entry.name, entry.vers)

/-- The name and version of the entry that the record parses as. -/
def EntryCodec.key (codec : EntryCodec) (record : List Char) : Option (String × String) :=
  (codec.fromStr record).map IndexEntry.key

/-- The text of the index file; that of a file that does not exist is empty. -/
def Registry.file (reg : Registry) (path : String) : List Char := (reg.index[path]?).getD []

/-- An entry as it is put into a table of records. -/
def EntryCodec.put (codec : EntryCodec) (entry : IndexEntry) : (String × String) × List Char :=
  (entry.key, codec.toString entry)

variable {codec : EntryCodec}

theorem EntryCodec.key_toString (entry : IndexEntry) :
    codec.key (codec.toString entry) = some entry.key := by
  rw [EntryCodec.key, codec.fromStr_toString]
  rfl

theorem key_of_mem_puts (codec : EntryCodec) (entries : List IndexEntry) :
    ∀ p ∈ entries.map codec.put, codec.key p.2 = some p.1 := by
  intro p hp
  obtain ⟨entry, -, rfl⟩ := List.mem_map.mp hp
  exact codec.key_toString entry

theorem describes_iff {record : List Char} {entry : IndexEntry} :
    codec.Describes record entry ↔ codec.key record = some entry.key := by
  unfold EntryCodec.Describes EntryCodec.key IndexEntry.key
  rw [Option.map_eq_some_iff]
  refine exists_congr fun e => and_congr_right fun _ => ?_
  rw [Prod.ext_iff]
  rfl

theorem upsertRecords_eq (entry : IndexEntry) (rs : List (List Char)) :
    upsertRecords codec entry rs = upsert codec.key entry.key (codec.toString entry) rs := by
  unfold upsertRecords upsert
  simp only [describes_iff]

/-! ### The file -/

/-- The registry with the text for the index file. -/
def Registry.setFile (reg : Registry) (path : String) (text : List Char) : Registry :=
  { reg with index := reg.index.insert path text }

variable {t : Tools} {path : String}

theorem file_setFile (reg : Registry) (path : String) (text : List Char) :
    (reg.setFile path text).file path = text := by
  unfold Registry.file Registry.setFile
  rw [HashMap.getElem?_insert_ite, if_pos rfl]
  rfl

/-- Writing what is there changes nothing. -/
theorem setFile_eq_self {reg : Registry} {text : List Char} (h : reg.index[path]? = some text) :
    reg.setFile path text = reg := by
  have hindex : reg.index.insert path text = reg.index := by
    apply Std.ExtTreeMap.ext_getElem?
    intro p
    rw [HashMap.getElem?_insert_ite]
    split
    · next heq => rw [← heq, h]
    · rfl
  rw [Registry.setFile, hindex]

/-- **`upsert_entry` on a file**, there or not. -/
theorem upsertEntry_eq {entry : IndexEntry} (reg : Registry)
    (hpath : nameToPath t.toLowercase entry.name = some path) :
    t.upsertEntry entry reg = (.ok (), reg.setFile path
      (joinRecords (upsert t.codec.key entry.key (t.codec.toString entry)
        (records (reg.file path))))) := by
  rw [← upsertRecords_eq]
  unfold Tools.upsertEntry Registry.file Registry.setFile
  rw [hpath]
  dsimp only
  cases hfile : reg.index[path]? with
  | none =>
    have hnew : upsertRecords t.codec entry (records []) = [t.codec.toString entry] := rfl
    dsimp only
    rw [Option.getD_none, hnew, joinRecords, List.intercalate_singleton]
  | some text =>
    dsimp only
    rw [Option.getD_some, upsertText_eq_joinRecords]

/-- What is written to the file are its records. -/
theorem records_upsert (codec : EntryCodec) (entry : IndexEntry) (text : List Char) :
    records (joinRecords (upsert codec.key entry.key (codec.toString entry) (records text))) =
      upsert codec.key entry.key (codec.toString entry) (records text) := by
  rw [← upsertRecords_eq, ← upsertText_eq_joinRecords, records_upsertText]

/-- The registries differ at most in the index file. -/
def SameBut (path : String) (reg reg' : Registry) : Prop :=
  reg'.crates = reg.crates ∧ ∀ p ≠ path, reg'.index[p]? = reg.index[p]?

theorem sameBut_setFile (reg : Registry) (path : String) (text : List Char) :
    SameBut path reg (reg.setFile path text) :=
  ⟨rfl, fun _ hp => HashMap.getElem?_insert_of_ne hp.symm⟩

/-- **A run of upserts to one file** is one on its records. -/
theorem upsertEntries_eq {entries : List IndexEntry} (reg : Registry)
    (hpath : ∀ e ∈ entries, nameToPath t.toLowercase e.name = some path) :
    ∃ reg', forM entries t.upsertEntry reg = (.ok (), reg') ∧ SameBut path reg reg' ∧
      records (reg'.file path) =
        upsertAll t.codec.key (entries.map t.codec.put) (records (reg.file path)) ∧
      (entries ≠ [] → reg'.file path = joinRecords (records (reg'.file path))) := by
  induction entries generalizing reg with
  | nil => exact ⟨reg, rfl, ⟨rfl, fun _ _ => rfl⟩, rfl, fun h => absurd rfl h⟩
  | cons entry entries ih =>
    have hrest : ∀ e ∈ entries, nameToPath t.toLowercase e.name = some path :=
      fun e he => hpath e (List.mem_cons_of_mem _ he)
    have hone := upsertEntry_eq reg (hpath entry List.mem_cons_self)
    have hrecords := records_upsert t.codec entry (reg.file path)
    set text := joinRecords (upsert t.codec.key entry.key (t.codec.toString entry)
      (records (reg.file path))) with htext
    have hsame := sameBut_setFile reg path text
    obtain ⟨reg', hrun, hsame', hread, hjoin⟩ := ih (reg.setFile path text) hrest
    rw [file_setFile, hrecords] at hread
    refine ⟨reg', ?_, ⟨hsame'.1.trans hsame.1, fun p hp => ?_⟩, hread, fun _ => ?_⟩
    · rw [List.forM_cons, Eff.bind_of_ok hone, hrun]
    · exact (hsame'.2 p hp).trans (hsame.2 p hp)
    · by_cases hnil : entries = []
      · subst hnil
        obtain rfl : reg.setFile path text = reg' := congrArg Prod.snd hrun
        rw [file_setFile, hrecords, htext]
      · exact hjoin hnil

/-! ### The laws -/

/-- What the records of a file are after the entries were upserted. -/
structure Upserted (codec : EntryCodec) (entries : List IndexEntry)
    (before after : List (List Char)) : Prop where
  /-- An upserted key is on one line, which holds the entry of its last upsert. -/
  last : ∀ pre entry post, entries = pre ++ entry :: post → (∀ e ∈ post, e.key ≠ entry.key) →
    withKey codec.key entry.key after = [codec.toString entry]
  /-- The other keys keep their lines. -/
  kept : ∀ k, (∀ e ∈ entries, e.key ≠ k) →
    withKey codec.key k after = withKey codec.key k before
  /-- The lines that were there stay in their places, with their keys, and those without an upserted
  key as they were; what comes behind them are entries of keys that were not there. -/
  inPlace : ∃ (f : List Char → List Char) (added : List (List Char)),
    after = before.map f ++ added ∧ (∀ r, codec.key (f r) = codec.key r) ∧
    (∀ r, (∀ e ∈ entries, codec.key r ≠ some e.key) → f r = r) ∧
    ∀ r ∈ added, ∃ e ∈ entries, r = codec.toString e ∧ ∀ b ∈ before, codec.key b ≠ some e.key

theorem upserted_upsertAll (entries : List IndexEntry) {rs : List (List Char)}
    (h : UniqueKeys codec.key rs) :
    Upserted codec entries rs (upsertAll codec.key (entries.map codec.put) rs) where
  last pre entry post hentries hpost := by
    have hputs : entries.map codec.put =
        pre.map codec.put ++ (entry.key, codec.toString entry) :: post.map codec.put := by
      rw [hentries, List.map_append, List.map_cons]
      rfl
    have hkeys := key_of_mem_puts codec entries
    rw [hputs] at hkeys ⊢
    refine withKey_upsertAll_last h hkeys fun p hp => ?_
    obtain ⟨e, he, rfl⟩ := List.mem_map.mp hp
    exact hpost e he
  kept k hk := by
    refine withKey_upsertAll_of_forall_ne (key_of_mem_puts codec entries) (fun p hp => ?_) rs
    obtain ⟨e, he, rfl⟩ := List.mem_map.mp hp
    exact hk e he
  inPlace := by
    obtain ⟨added, heq, hadded⟩ := upsertAll_eq (key_of_mem_puts codec entries) rs
    refine ⟨overwritten codec.key (entries.map codec.put), added, heq,
      key_overwritten (key_of_mem_puts codec entries), fun r hr => ?_, fun r hr => ?_⟩
    · refine overwritten_of_forall_ne fun p hp => ?_
      obtain ⟨e, he, rfl⟩ := List.mem_map.mp hp
      exact hr e he
    · obtain ⟨p, hp, rfl, hfresh⟩ := hadded r hr
      obtain ⟨e, he, rfl⟩ := List.mem_map.mp hp
      exact ⟨e, he, rfl, hfresh⟩

/-- Upserting the entry that was upserted last once more writes the same text. -/
theorem upsertEntry_again {entry : IndexEntry} {reg : Registry} {rs : List (List Char)}
    (hpath : nameToPath t.toLowercase entry.name = some path)
    (hrecords : records (reg.file path) =
      upsert t.codec.key entry.key (t.codec.toString entry) rs)
    (hjoin : reg.file path = joinRecords (records (reg.file path))) :
    t.upsertEntry entry reg = (.ok (), reg) := by
  have htext : joinRecords (upsert t.codec.key entry.key (t.codec.toString entry)
      (records (reg.file path))) = reg.file path := by
    rw [hrecords, upsert_upsert_self (t.codec.key_toString entry), ← hrecords, ← hjoin]
  have hfile : reg.index[path]? = some (reg.file path) := by
    cases hindex : reg.index[path]? with
    | none =>
      -- a file that is not there has no text, but the joined records end in a newline
      have hempty : reg.file path = [] := by rw [Registry.file, hindex, Option.getD_none]
      rw [hempty, joinRecords] at hjoin
      exact absurd hjoin.symm (List.append_ne_nil_of_right_ne_nil _ (List.cons_ne_nil _ _))
    | some text => rw [Registry.file, hindex, Option.getD_some]
  rw [upsertEntry_eq reg hpath, htext, setFile_eq_self hfile]

/-- Two upserts of different keys, in either order, leave the same lines. -/
theorem upsertEntry_comm {a b : IndexEntry} (reg : Registry)
    (ha : nameToPath t.toLowercase a.name = some path)
    (hb : nameToPath t.toLowercase b.name = some path) (hne : a.key ≠ b.key) :
    (records ((forM [a, b] t.upsertEntry reg).2.file path)).Perm
      (records ((forM [b, a] t.upsertEntry reg).2.file path)) := by
  have hab : ∀ e ∈ [a, b], nameToPath t.toLowercase e.name = some path := by
    intro e he
    rcases List.mem_pair.mp he with rfl | rfl
    · exact ha
    · exact hb
  have hba : ∀ e ∈ [b, a], nameToPath t.toLowercase e.name = some path := by
    intro e he
    rcases List.mem_pair.mp he with rfl | rfl
    · exact hb
    · exact ha
  obtain ⟨reg₁, hrun₁, -, hread₁, -⟩ := upsertEntries_eq reg hab
  obtain ⟨reg₂, hrun₂, -, hread₂, -⟩ := upsertEntries_eq reg hba
  rw [hrun₁, hrun₂, hread₁, hread₂]
  exact upsert_comm (t.codec.key_toString a) (t.codec.key_toString b) hne.symm _

/-- **An index file is a map** from names and versions to entries.  Upserts to a file whose lines
have different keys succeed and leave the other files alone; `Upserted` says what its lines are
afterwards, each on a line of its own.  Repeating the last of them changes nothing, and two more of
different keys commute up to the order of the lines. -/
theorem upsertEntries_map (t : Tools) (entries : List IndexEntry) (path : String) (reg : Registry)
    (hpath : ∀ e ∈ entries, nameToPath t.toLowercase e.name = some path)
    (hunique : UniqueKeys t.codec.key (records (reg.file path))) :
    ∃ reg', forM entries t.upsertEntry reg = (.ok (), reg') ∧ SameBut path reg reg' ∧
      Upserted t.codec entries (records (reg.file path)) (records (reg'.file path)) ∧
      (entries ≠ [] → reg'.file path = joinRecords (records (reg'.file path))) ∧
      (∀ e, entries.getLast? = some e → t.upsertEntry e reg' = (.ok (), reg')) ∧
      ∀ a b, nameToPath t.toLowercase a.name = some path →
        nameToPath t.toLowercase b.name = some path → a.key ≠ b.key →
        (records ((forM [a, b] t.upsertEntry reg').2.file path)).Perm
          (records ((forM [b, a] t.upsertEntry reg').2.file path)) := by
  obtain ⟨reg', hrun, hsame, hread, hjoin⟩ := upsertEntries_eq reg hpath
  refine ⟨reg', hrun, hsame, ?_, hjoin, fun e he => ?_, fun a b => upsertEntry_comm reg'⟩
  · rw [hread]
    exact upserted_upsertAll entries hunique
  · obtain ⟨init, rfl⟩ := List.getLast?_eq_some_iff.mp he
    have hmem : e ∈ init ++ [e] := List.mem_concat_self
    rw [List.map_append, List.map_singleton, EntryCodec.put, upsertAll_concat] at hread
    exact upsertEntry_again (hpath e hmem) hread (hjoin (List.ne_nil_of_mem hmem))

/-- A comment, a blank line, and entries of two crates whose names differ in case only. -/
def mixedFile : List Char :=
  "  # by hand \n\n".toList ++ EntryCodec.json.toString demoEntry ++ ['\n', '\n'] ++
    EntryCodec.json.toString { demoEntry with name := "Demo" }

theorem upsertEntries_map_mixed :
    ∃ reg', forM [demoEntry, { demoEntry with yanked := true }] (demoTools true).upsertEntry
        (demoRegistry.setFile "de/mo/demo" mixedFile) = (.ok (), reg') ∧
      Upserted EntryCodec.json [demoEntry, { demoEntry with yanked := true }] (records mixedFile)
        (records (reg'.file "de/mo/demo")) := by
  obtain ⟨reg', hrun, -, h, -⟩ := upsertEntries_map (demoTools true)
    [demoEntry, { demoEntry with yanked := true }] "de/mo/demo"
    (demoRegistry.setFile "de/mo/demo" mixedFile)
    (by decide) (by rw [file_setFile]; decide)
  rw [file_setFile] at h
  exact ⟨reg', hrun, h⟩

end SweGateway.Xtask
