import SweGateway.Lib.JsonText
import SweGateway.Xtask.Index

/-!
# Index entries as JSON

`EntryCodec.json` writes entries as the derived serializer does, the fields in order and without
whitespace.  It reads what it writes; other JSON texts of the same entry it does not read.
-/

namespace SweGateway.Xtask

open JsonText Format

/-- An optional text. -/
def optionalText : Format (Option String) := orNull text (text_neverStarts (by decide))

/-- A list of texts. -/
def textArray : Format (List String) := array text (text_neverStarts (by decide))

def IndexDep.format : Format IndexDep :=
  iso (within "\x7b\"name\":".toList ['}']
      (seq text ",\"req\":".toList
      (seq text ",\"features\":".toList
      (seq textArray ",\"optional\":".toList
      (seq bool ",\"default_features\":".toList
      (seq bool ",\"target\":".toList
      (seq optionalText ",\"kind\":".toList
      (seq text ",\"registry\":".toList
      (seq optionalText ",\"package\":".toList
        optionalText (by decide)) (by decide)) (by decide)) (by decide)) (by decide)) (by decide))
        (by decide)) (by decide)) (by decide) (by decide))
    (fun (name, req, features, optional, defaultFeatures, target, kind, registry, package) =>
      { name, req, features, optional, defaultFeatures, target, kind, registry, package })
    (fun dep => (dep.name, dep.req, dep.features, dep.optional, dep.defaultFeatures, dep.target,
      dep.kind, dep.registry, dep.package))
    (fun _ => rfl)

theorem IndexDep.format_neverStarts {cs : List Char} (h : '{' ∉ cs) :
    IndexDep.format.NeverStarts cs :=
  fun _ => ⟨_, _, rfl, h⟩

def IndexEntry.format : Format IndexEntry :=
  iso (within "\x7b\"name\":".toList ['}']
      (seq text ",\"vers\":".toList
      (seq text ",\"deps\":".toList
      (seq (array IndexDep.format (IndexDep.format_neverStarts (by decide))) ",\"cksum\":".toList
      (seq text ",\"features\":".toList
      (seq (object textArray) ",\"yanked\":".toList
        bool (by decide)) (by decide)) (by decide)) (by decide)) (by decide)) (by decide)
        (by decide))
    (fun (name, vers, deps, cksum, features, yanked) =>
      { name, vers, deps, cksum, features, yanked })
    (fun entry => (entry.name, entry.vers, entry.deps, entry.cksum, entry.features, entry.yanked))
    (fun _ => rfl)

/-- Entries as compact JSON. -/
def EntryCodec.json : EntryCodec where
  toString entry := IndexEntry.format.write entry
  fromStr text :=
    match IndexEntry.format.read text with
    | some (entry, []) => some entry
    | _ => none
  fromStr_toString entry := by
    have h := IndexEntry.format.read_write entry []
    rw [List.append_nil] at h
    rw [h]
  isRecord_toString entry := by
    obtain ⟨l, hl⟩ : ∃ l, IndexEntry.format.write entry = '{' :: (l ++ ['}']) :=
      ⟨_, rfl⟩
    refine ⟨IndexEntry.format.newline_not_mem entry, ?_, ?_⟩
    · rw [hl]
      exact TextLines.trim_eq_self (by decide) (by decide) l
    · rw [hl]
      exact List.cons_ne_nil _ _

example : String.ofList (EntryCodec.json.toString ⟨"serde", "1.0.0", [], "ab", ∅, false⟩) =
    "\x7b\"name\":\"serde\",\"vers\":\"1.0.0\",\"deps\":[],\"cksum\":\"ab\"," ++
      "\"features\":\x7b\x7d,\"yanked\":false\x7d" := by
  decide

end SweGateway.Xtask
