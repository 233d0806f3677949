import SweGateway.Lib.HashMap
import SweGateway.Lib.LexicalPath
import SweGateway.Lib.TextLines

/-!
# The registry index (`xtask/src/index.rs`)

An index file has one entry a line, in JSON.  `upsertText` is what `upsert_entry` makes of the text
of the file it finds: the lines that hold an entry of the same name and version are replaced, the
others are kept, trimmed, and without such a line the entry is appended.

The JSON library is a parameter, `EntryCodec`, which carries what the code relies on: an entry is
read back as it was written, and what is written fits on a line.
-/

namespace SweGateway.Xtask

/-- A dependency entry within an index record. -/
structure IndexDep where
  name : String
  req : String
  features : List String
  optional : Bool
  defaultFeatures : Bool
  target : Option String
  kind : String
  registry : Option String
  package : Option String
  deriving DecidableEq, Repr

/-- A single version entry in the registry index. -/
structure IndexEntry where
  name : String
  vers : String
  deps : List IndexDep
  cksum : String
  features : HashMap String (List String)
  yanked : Bool

/-- `serde_json` on entries. -/
structure EntryCodec where
  toString : IndexEntry → List Char
  fromStr : List Char → Option IndexEntry
  /-- An entry is read back as it was written. -/
  fromStr_toString : ∀ entry, fromStr (toString entry) = some entry
  /-- An entry is written without a newline, and with nothing to trim. -/
  isRecord_toString : ∀ entry, TextLines.IsRecord (toString entry)

/-- The text up to the byte `n` and the rest.  There is none if the byte is inside of a character or
beyond the end: slicing the text there panics. -/
def splitAtByte : ℕ → List Char → Option (List Char × List Char)
  | 0, text => some ([], text)
  | _ + 1, [] => none
  | n + 1, c :: text =>
    if c.utf8Size ≤ n + 1 then
      (splitAtByte (n + 1 - c.utf8Size) text).map fun (front, rest) => (c :: front, rest)
    else none

/-- Maps a crate name to the path of its index file.  `toLowercase` is `str::to_lowercase`. -/
def nameToPath (toLowercase : String → String) (name : String) : Option String := do
  let lower := (toLowercase name).toList
  let join := LexicalPath.join
  let path ← match (toLowercase name).utf8ByteSize with
    | 0 => some lower
    | 1 => some (join "1".toList lower)
    | 2 => some (join "2".toList lower)
    | 3 => do
      let (first, _) ← splitAtByte 1 lower
      some (join (join "3".toList first) lower)
    | _ => do
      let (first, rest) ← splitAtByte 2 lower
      let (second, _) ← splitAtByte 2 rest
      some (join (join first second) lower)
  return String.ofList path

/-- What `upsert_entry` writes to a file that holds the text `existing`. -/
def upsertText (codec : EntryCodec) (entry : IndexEntry) (existing : List Char) : List Char :=
  Id.run do
    let json := codec.toString entry
    let mut lines : List (List Char) := []
    let mut replaced := false
    for line in TextLines.lines existing do
      let trimmed := TextLines.trim line
      if trimmed = [] then continue
      if let some existingEntry := codec.fromStr trimmed then
        if existingEntry.name = entry.name ∧ existingEntry.vers = entry.vers then
          lines := lines ++ [json]
          replaced := true
          continue
      lines := lines ++ [trimmed]
    if !replaced then
      lines := lines ++ [json]
    return TextLines.joinRecords lines

end SweGateway.Xtask
