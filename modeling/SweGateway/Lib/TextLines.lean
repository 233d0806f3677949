import Mathlib.Data.List.DropRight

/-!
# Texts as lines of records

A file that holds one record a line is read by splitting it into lines, trimming each and skipping
the blank ones: `records text`.  It is written by `joinRecords`, which ends every record with a
newline.  A record is a text that survives this: without a newline, with nothing to trim, not blank
(`IsRecord`).  `records_joinRecords` is the round trip.
-/

namespace TextLines

/-- The characters with the Unicode property `White_Space`. -/
def isWhitespace (c : Char) : Bool :=
  let n := c.toNat
  (0x9 ≤ n && n ≤ 0xd) || n = 0x20 || n = 0x85 || n = 0xa0 || n = 0x1680 ||
    (0x2000 ≤ n && n ≤ 0x200a) || n = 0x2028 || n = 0x2029 || n = 0x202f || n = 0x205f ||
    n = 0x3000

/-- The text without the whitespace around it. -/
def trim (text : List Char) : List Char := (text.dropWhile isWhitespace).rdropWhile isWhitespace

/-- A line as it stands before a newline, without the carriage return that may belong to it. -/
def chomp (line : List Char) : List Char :=
  if line.getLast? = some '\r' then line.dropLast else line

/-- The lines of a text.  What follows the last newline is a line if it is not empty. -/
def lines (text : List Char) : List (List Char) :=
  let pieces := text.splitOn '\n'
  pieces.dropLast.map chomp ++ pieces.getLast?.toList.filter (· ≠ [])

/-- The lines of a text that are not blank, trimmed. -/
def records (text : List Char) : List (List Char) := ((lines text).map trim).filter (· ≠ [])

/-- The records, each on a line of its own. -/
def joinRecords (rs : List (List Char)) : List Char := ['\n'].intercalate rs ++ ['\n']

/-- A text that can stand on a line of its own. -/
structure IsRecord (text : List Char) : Prop where
  newline : '\n' ∉ text
  trimmed : trim text = text
  ne_nil : text ≠ []

/-! ### Trimming -/

theorem trim_sublist (text : List Char) : (trim text).Sublist text :=
  (List.rdropWhile_prefix _ _).sublist.trans (List.dropWhile_sublist _)

/-- What is left of a text that was trimmed on the left starts as before when it is trimmed on the
right. -/
theorem dropWhile_rdropWhile_self {p : Char → Bool} {l : List Char} (h : l.dropWhile p = l) :
    (l.rdropWhile p).dropWhile p = l.rdropWhile p := by
  have hprefix : l.rdropWhile p <+: l := List.rdropWhile_prefix p l
  cases hr : l.rdropWhile p with
  | nil => rfl
  | cons c rest =>
    rw [hr] at hprefix
    obtain ⟨tail, rfl⟩ := hprefix
    rw [List.cons_append, List.dropWhile_cons] at h
    split at h
    · have hlen := congrArg List.length h
      have := (List.dropWhile_sublist p (l := rest ++ tail)).length_le
      rw [List.length_cons] at hlen
      omega
    · next hc => rw [List.dropWhile_cons, if_neg hc]

theorem trim_trim (text : List Char) : trim (trim text) = trim text := by
  have h : (trim text).dropWhile isWhitespace = trim text :=
    dropWhile_rdropWhile_self (List.dropWhile_idempotent _ _)
  conv_lhs => rw [trim, h]
  exact List.rdropWhile_idempotent _ _

/-- A text between characters that are not whitespace has nothing to trim. -/
theorem trim_eq_self {c d : Char} (hc : isWhitespace c = false) (hd : isWhitespace d = false)
    (l : List Char) : trim (c :: (l ++ [d])) = c :: (l ++ [d]) := by
  rw [trim, List.dropWhile_cons_of_neg (by simp [hc]), ← List.cons_append,
    List.rdropWhile_concat_neg _ _ _ (by simp [hd])]

/-- A record does not end in a carriage return. -/
theorem IsRecord.chomp {text : List Char} (h : IsRecord text) : chomp text = text := by
  have hright : text.rdropWhile isWhitespace = text := by
    conv_lhs => rw [← h.trimmed]
    exact (List.rdropWhile_idempotent _ _).trans h.trimmed
  rw [TextLines.chomp, if_neg]
  intro hlast
  obtain ⟨init, rfl⟩ := List.getLast?_eq_some_iff.mp hlast
  have := List.rdropWhile_eq_self_iff.mp hright (by simp)
  rw [List.getLast_concat] at this
  exact this (by decide)

/-! ### Splitting and joining -/

/-- What is between separators consists of other symbols of the text. -/
theorem mem_of_mem_splitOnP {α : Type} {p : α → Bool} {text piece : List α}
    (h : piece ∈ text.splitOnP p) {c : α} (hc : c ∈ piece) : c ∈ text ∧ p c = false := by
  induction text generalizing piece with
  | nil =>
    obtain rfl : piece = [] := by simpa [List.splitOnP_nil] using h
    cases hc
  | cons d text ih =>
    rw [List.splitOnP_cons_eq_if_modifyHead] at h
    split at h
    · rcases List.mem_cons.mp h with rfl | h
      · cases hc
      · exact (ih h hc).imp_left (List.mem_cons_of_mem d)
    · next hd =>
      obtain ⟨head, tail, hsplit⟩ := List.exists_cons_of_ne_nil (List.splitOnP_ne_nil p text)
      rw [hsplit, List.modifyHead_cons] at h
      rcases List.mem_cons.mp h with rfl | h
      · rcases List.mem_cons.mp hc with rfl | hc
        · exact ⟨List.mem_cons_self, by simpa using hd⟩
        · refine (ih ?_ hc).imp_left (List.mem_cons_of_mem d)
          rw [hsplit]
          exact List.mem_cons_self
      · refine (ih ?_ hc).imp_left (List.mem_cons_of_mem d)
        rw [hsplit]
        exact List.mem_cons_of_mem head h

theorem mem_of_mem_splitOn {sep : Char} {text piece : List Char} (h : piece ∈ text.splitOn sep)
    {c : Char} (hc : c ∈ piece) : c ∈ text ∧ c ≠ sep := by
  rw [List.splitOn_eq_splitOnP] at h
  exact (mem_of_mem_splitOnP h hc).imp_right ne_of_beq_false

theorem not_mem_of_mem_splitOn {sep : Char} {text piece : List Char}
    (h : piece ∈ text.splitOn sep) : sep ∉ piece :=
  fun hc => (mem_of_mem_splitOn h hc).2 rfl

theorem newline_not_mem_of_mem_lines {text line : List Char} (h : line ∈ lines text) :
    '\n' ∉ line := by
  rcases List.mem_append.mp h with h | h
  · obtain ⟨piece, hpiece, rfl⟩ := List.mem_map.mp h
    have hnot := not_mem_of_mem_splitOn (List.dropLast_subset _ hpiece)
    unfold chomp
    split
    · exact fun hmem => hnot (List.dropLast_subset _ hmem)
    · exact hnot
  · have hlast : (text.splitOn '\n').getLast? = some line := by
      simpa using List.mem_of_mem_filter h
    exact not_mem_of_mem_splitOn (List.mem_of_getLast? hlast)

/-- Every record that is read is a record. -/
theorem isRecord_of_mem_records {text record : List Char} (h : record ∈ records text) :
    IsRecord record := by
  obtain ⟨hmem, hne⟩ := List.mem_filter.mp h
  obtain ⟨line, hline, rfl⟩ := List.mem_map.mp hmem
  refine ⟨fun hnl => ?_, trim_trim line, by simpa using hne⟩
  exact newline_not_mem_of_mem_lines hline ((trim_sublist line).subset hnl)

theorem splitOn_joinRecords {rs : List (List Char)} (h : ∀ r ∈ rs, IsRecord r) (hne : rs ≠ []) :
    (joinRecords rs).splitOn '\n' = rs ++ [[]] := by
  rw [joinRecords, List.splitOn_append_cons_self,
    List.splitOn_intercalate '\n' (fun r hr => (h r hr).newline) hne, List.splitOn_nil]

/-- **Round trip.**  What is read of records written line by line are these records. -/
theorem records_joinRecords {rs : List (List Char)} (h : ∀ r ∈ rs, IsRecord r) :
    records (joinRecords rs) = rs := by
  by_cases hne : rs = []
  · subst hne
    rfl
  · have hlines : lines (joinRecords rs) = rs := by
      have hchomp : rs.map chomp = rs :=
        (List.map_congr_left fun r hr => (h r hr).chomp).trans (List.map_id' rs)
      simp [lines, splitOn_joinRecords h hne, hchomp]
    have htrim : rs.map trim = rs :=
      (List.map_congr_left fun r hr => (h r hr).trimmed).trans (List.map_id' rs)
    rw [records, hlines, htrim, List.filter_eq_self]
    exact fun r hr => by simpa using (h r hr).ne_nil

end TextLines
