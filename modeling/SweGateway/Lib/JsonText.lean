import Mathlib.Data.Nat.Notation
import Mathlib.Tactic.IntervalCases
import SweGateway.Lib.HashMap

/-!
# Compact JSON, written and read back

`Format α` writes values of the type `α` as JSON text without whitespace, the way a serializer does
that is derived for `α`, and reads exactly what it writes back from the front of a text.  The round
trip is a field, so that it holds of every format that is put together from the ones below: texts,
booleans, optional values, sequences, and values one after the other with fixed text between them,
which is what the fields of an object are.
-/

namespace JsonText

/-- A way to write values and to read them back from the front of a text. -/
structure Format (α : Type) where
  write : α → List Char
  read : List Char → Option (α × List Char)
  read_write : ∀ a rest, read (write a ++ rest) = some (a, rest)
  newline_not_mem : ∀ a, '\n' ∉ write a

namespace Format

variable {α β : Type}

/-- No value is written with one of the characters first. -/
def NeverStarts (f : Format α) (cs : List Char) : Prop :=
  ∀ a, ∃ c l, f.write a = c :: l ∧ c ∉ cs

/-! ### Values in a row -/

/-- Reads a fixed text. -/
def skip (lit text : List Char) : Option (List Char) := lit.isPrefixOf? text

theorem skip_append (lit rest : List Char) : skip lit (lit ++ rest) = some rest :=
  List.isPrefixOf?_eq_some_iff_append_eq.mpr rfl

/-- The value, in other terms. -/
def iso (f : Format α) (pack : α → β) (unpack : β → α) (h : ∀ b, pack (unpack b) = b) :
    Format β where
  write b := f.write (unpack b)
  read text := (f.read text).map fun (a, rest) => (pack a, rest)
  read_write b rest := by simp [f.read_write, h]
  newline_not_mem b := f.newline_not_mem (unpack b)

/-- The value between two texts. -/
def within (before after : List Char) (f : Format α) (hb : '\n' ∉ before) (ha : '\n' ∉ after) :
    Format α where
  write a := before ++ f.write a ++ after
  read text := do
    let (a, rest) ← f.read (← skip before text)
    return (a, ← skip after rest)
  read_write a rest := by simp [skip_append, f.read_write]
  newline_not_mem a := by simp [hb, ha, f.newline_not_mem a]

/-- A value, a text, and another value. -/
def seq (f : Format α) (between : List Char) (g : Format β) (h : '\n' ∉ between) :
    Format (α × β) where
  write p := f.write p.1 ++ between ++ g.write p.2
  read text := do
    let (a, rest) ← f.read text
    let (b, rest) ← g.read (← skip between rest)
    return ((a, b), rest)
  read_write p rest := by simp [skip_append, f.read_write, g.read_write]
  newline_not_mem p := by simp [h, f.newline_not_mem p.1, g.newline_not_mem p.2]

/-! ### Booleans and optional values -/

def bool : Format Bool where
  write b := if b then "true".toList else "false".toList
  read text :=
    match skip "true".toList text with
    | some rest => some (true, rest)
    | none => (skip "false".toList text).map fun rest => (false, rest)
  read_write b rest := by cases b <;> rfl
  newline_not_mem b := by cases b <;> decide

/-- `null`, or a value that is not mistaken for it. -/
def orNull (f : Format α) (h : f.NeverStarts ['n']) : Format (Option α) where
  write a := a.elim "null".toList f.write
  read text :=
    match skip "null".toList text with
    | some rest => some (none, rest)
    | none => (f.read text).map fun (a, rest) => (some a, rest)
  read_write a rest := by
    cases a with
    | none => rfl
    | some a =>
      obtain ⟨c, l, hw, hc⟩ := h a
      have hskip : skip "null".toList (f.write a ++ rest) = none := by
        rw [hw]
        show (if 'n' == c then _ else none) = none
        rw [if_neg]
        rw [beq_iff_eq]
        rintro rfl
        exact hc (List.mem_singleton_self _)
      rw [Option.elim_some, hskip]
      dsimp only
      rw [f.read_write, Option.map_some]
  newline_not_mem a := by
    cases a with
    | none =>
      show '\n' ∉ "null".toList
      decide
    | some a => exact f.newline_not_mem a

/-! ### Texts -/

/-- The character after the backslash that stands for the character, if it has one. -/
def shortEscape (c : Char) : Option Char :=
  if c = '"' then some '"'
  else if c = '\\' then some '\\'
  else if c = Char.ofNat 0x08 then some 'b'
  else if c = '\t' then some 't'
  else if c = '\n' then some 'n'
  else if c = Char.ofNat 0x0c then some 'f'
  else if c = '\r' then some 'r'
  else none

/-- The hexadecimal digits. -/
def hexDigits : List Char := "0123456789abcdef".toList

/-- A hexadecimal digit. -/
def hexDigit (n : ℕ) : Char := hexDigits.getD n '0'

/-- The character inside of a text. -/
def escape (c : Char) : List Char :=
  match shortEscape c with
  | some e => ['\\', e]
  | none =>
    if c.toNat < 0x20 then
      ['\\', 'u', '0', '0', hexDigit (c.toNat / 16), hexDigit (c.toNat % 16)]
    else [c]

/-- The character that is escaped by the one after the backslash. -/
def unescape (e : Char) : Option Char :=
  if e = 'b' then some (Char.ofNat 0x08)
  else if e = 't' then some '\t'
  else if e = 'n' then some '\n'
  else if e = 'f' then some (Char.ofNat 0x0c)
  else if e = 'r' then some '\r'
  else if e = '"' ∨ e = '\\' then some e
  else none

/-- Reads the inside of a text, up to the quotation mark. -/
def readChars : List Char → Option (List Char × List Char)
  | '"' :: rest => some ([], rest)
  | '\\' :: 'u' :: '0' :: '0' :: h :: l :: rest =>
    (readChars rest).map fun (cs, rest) =>
      (Char.ofNat (16 * hexDigits.idxOf h + hexDigits.idxOf l) :: cs, rest)
  | '\\' :: e :: rest => do
    let c ← unescape e
    let (cs, rest) ← readChars rest
    return (c :: cs, rest)
  | c :: rest => (readChars rest).map fun (cs, rest) => (c :: cs, rest)
  | [] => none

theorem shortEscape_ne_none {c : Char} (h : c = '"' ∨ c = '\\') : shortEscape c ≠ none := by
  rcases h with rfl | rfl <;> decide

/-- An escaped control character is read back. -/
theorem readChars_control {n : ℕ} (h : n < 0x20) (rest : List Char) :
    readChars ('\\' :: 'u' :: '0' :: '0' :: hexDigit (n / 16) :: hexDigit (n % 16) :: rest) =
      (readChars rest).map fun (cs, rest) => (Char.ofNat n :: cs, rest) := by
  interval_cases n <;> rfl

/-- An escaped character is read back. -/
theorem readChars_escape (c : Char) (rest : List Char) :
    readChars (escape c ++ rest) = (readChars rest).map fun (cs, rest) => (c :: cs, rest) := by
  unfold escape
  split
  · next e he =>
    -- one of the seven characters with a short escape
    unfold shortEscape at he
    split_ifs at he with h₁ h₂ h₃ h₄ h₅ h₆ h₇ <;> subst c <;> cases he <;>
      (show (readChars rest).bind _ = _; cases readChars rest <;> rfl)
  · next hnone =>
    by_cases hcontrol : c.toNat < 0x20
    · rw [if_pos hcontrol]
      conv_rhs => rw [← Char.ofNat_toNat c]
      exact readChars_control hcontrol rest
    · rw [if_neg hcontrol, List.singleton_append, readChars]
      · rintro rfl
        exact shortEscape_ne_none (.inl rfl) hnone
      · rintro h l rest' rfl
        exact fun _ => shortEscape_ne_none (.inr rfl) hnone
      · rintro e rest' rfl
        exact fun _ => shortEscape_ne_none (.inr rfl) hnone

theorem readChars_flatMap_escape (cs rest : List Char) :
    readChars (cs.flatMap escape ++ '"' :: rest) = some (cs, rest) := by
  induction cs with
  | nil => rfl
  | cons c cs ih =>
    rw [List.flatMap_cons, List.append_assoc, readChars_escape, ih]
    rfl

theorem newline_not_mem_escape (c : Char) : '\n' ∉ escape c := by
  unfold escape
  split
  · next e he =>
    have hne : e ≠ '\n' := by
      rintro rfl
      unfold shortEscape at he
      split_ifs at he <;> cases he
    simpa using hne.symm
  · next hnone =>
    by_cases hcontrol : c.toNat < 0x20
    · rw [if_pos hcontrol]
      have : ∀ n < 0x20, '\n' ∉
          ['\\', 'u', '0', '0', hexDigit (n / 16), hexDigit (n % 16)] := by decide
      exact this _ hcontrol
    · rw [if_neg hcontrol, List.mem_singleton]
      rintro rfl
      exact hcontrol (by decide)

/-- A text in quotation marks. -/
def text : Format String where
  write s := '"' :: (s.toList.flatMap escape ++ ['"'])
  read
    | '"' :: rest => (readChars rest).map fun (cs, rest) => (String.ofList cs, rest)
    | _ => none
  read_write s rest := by
    have := readChars_flatMap_escape s.toList rest
    simp [this]
  newline_not_mem s := by
    have : ∀ cs : List Char, '\n' ∉ cs.flatMap escape := by
      intro cs h
      obtain ⟨c, -, hc⟩ := List.mem_flatMap.mp h
      exact newline_not_mem_escape c hc
    simp [this]

theorem text_neverStarts {cs : List Char} (h : '"' ∉ cs) : text.NeverStarts cs :=
  fun _ => ⟨_, _, rfl, h⟩

theorem seq_neverStarts {f : Format α} {between : List Char} {g : Format β} {h : '\n' ∉ between}
    {cs : List Char} (hf : f.NeverStarts cs) : (seq f between g h).NeverStarts cs := by
  intro p
  obtain ⟨c, l, hw, hc⟩ := hf p.1
  exact ⟨c, l ++ between ++ g.write p.2, by simp [seq, hw], hc⟩

/-! ### Sequences -/

/-- The elements with commas between them, and the closing bracket. -/
def writeItems (closing : Char) (f : Format α) : List α → List Char
  | [] => [closing]
  | [a] => f.write a ++ [closing]
  | a :: as => f.write a ++ ',' :: writeItems closing f as

/-- Reads at least one element, up to the closing bracket. -/
def readItems (closing : Char) (f : Format α) : ℕ → List Char → Option (List α × List Char)
  | 0, _ => none
  | fuel + 1, text =>
    match f.read text with
    | none => none
    | some (a, rest) =>
      match rest with
      | [] => none
      | c :: rest =>
        if c = ',' then (readItems closing f fuel rest).map fun (as, rest) => (a :: as, rest)
        else if c = closing then some ([a], rest)
        else none

theorem writeItems_cons_cons (closing : Char) (f : Format α) (a b : α) (as : List α) :
    writeItems closing f (a :: b :: as) = f.write a ++ ',' :: writeItems closing f (b :: as) := rfl

theorem length_le_length_writeItems (closing : Char) (f : Format α) (as : List α) :
    as.length ≤ (writeItems closing f as).length := by
  induction as with
  | nil => simp
  | cons a as ih =>
    cases as with
    | nil => simp [writeItems]
    | cons b as =>
      rw [writeItems_cons_cons]
      simp only [List.length_append, List.length_cons] at ih ⊢
      omega

theorem readItems_writeItems {closing : Char} (hclosing : closing ≠ ',') (f : Format α) (a : α)
    (as : List α) {fuel : ℕ} (hfuel : as.length < fuel) (rest : List Char) :
    readItems closing f fuel (writeItems closing f (a :: as) ++ rest) = some (a :: as, rest) := by
  induction as generalizing a fuel with
  | nil =>
    obtain ⟨fuel, rfl⟩ := Nat.exists_eq_succ_of_ne_zero (by omega : fuel ≠ 0)
    simp [writeItems, readItems, f.read_write, hclosing]
  | cons b as ih =>
    obtain ⟨fuel, rfl⟩ := Nat.exists_eq_succ_of_ne_zero (by omega : fuel ≠ 0)
    rw [List.length_cons] at hfuel
    rw [writeItems_cons_cons, readItems, List.append_assoc, f.read_write, List.cons_append]
    dsimp only
    rw [if_pos rfl, ih b (by omega)]
    rfl

theorem newline_not_mem_writeItems {closing : Char} (hclosing : closing ≠ '\n') (f : Format α)
    (as : List α) : '\n' ∉ writeItems closing f as := by
  induction as with
  | nil => simpa [writeItems] using hclosing.symm
  | cons a as ih =>
    cases as with
    | nil => simpa [writeItems, f.newline_not_mem a] using hclosing.symm
    | cons b as =>
      rw [writeItems_cons_cons]
      simp [f.newline_not_mem a, ih]

/-- A bracketed sequence of values that are not mistaken for the closing bracket. -/
def items (opening closing : Char) (f : Format α) (h : f.NeverStarts [closing])
    (hclosing : closing ≠ ',') (hopening' : opening ≠ '\n') (hclosing' : closing ≠ '\n') :
    Format (List α) where
  write as := opening :: writeItems closing f as
  read
    | [] => none
    | c :: text =>
      if c = opening then
        match text with
        | [] => none
        | d :: rest =>
          if d = closing then some ([], rest)
          else readItems closing f (d :: rest).length (d :: rest)
      else none
  read_write as rest := by
    simp only [List.cons_append, if_true]
    cases as with
    | nil => simp [writeItems]
    | cons a as =>
      obtain ⟨c, l, hw, hc⟩ := h a
      obtain ⟨d, text, htext, hd⟩ : ∃ d text, writeItems closing f (a :: as) = d :: text ∧
          d ≠ closing := by
        cases as with
        | nil => exact ⟨c, l ++ [closing], by simp [writeItems, hw], by simpa using hc⟩
        | cons b as =>
          refine ⟨c, l ++ ',' :: writeItems closing f (b :: as), ?_, by simpa using hc⟩
          rw [writeItems_cons_cons, hw, List.cons_append]
      have hlen := length_le_length_writeItems closing f (a :: as)
      have hfuel : as.length < (writeItems closing f (a :: as) ++ rest).length := by
        rw [List.length_append]
        rw [List.length_cons] at hlen
        omega
      have hread := readItems_writeItems hclosing f a as hfuel rest
      rw [htext] at hread ⊢
      simp only [List.cons_append] at hread ⊢
      rw [if_neg hd]
      exact hread
  newline_not_mem as := by
    rw [List.mem_cons, not_or]
    exact ⟨hopening'.symm, newline_not_mem_writeItems hclosing' f as⟩

/-- An object with texts for keys, in the order of the keys. -/
def object (f : Format α) : Format (HashMap String α) :=
  iso (items '{' '}' (seq text [':'] f (by decide)) (seq_neverStarts (text_neverStarts (by decide)))
      (by decide) (by decide) (by decide))
    (fun l => Std.ExtTreeMap.ofList l) (fun m => m.toList) HashMap.ofList_toList

/-- An array. -/
def array (f : Format α) (h : f.NeverStarts [']']) : Format (List α) :=
  items '[' ']' f h (by decide) (by decide) (by decide)

end Format

end JsonText
