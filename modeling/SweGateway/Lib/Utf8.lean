import Mathlib.Algebra.GroupWithZero.Nat

/-!
# Byte offsets into texts

A text is stored as the UTF-8 encoding of its characters.  `byteLength` is how long that is, and
`sliceTo n text` the characters before byte `n`, which exist if the byte is where a character begins
or the text ends (`sliceTo_isSome_iff`).

`bytes` is the encoding.  An ASCII byte in it is the encoding of an ASCII character and never a part
of another one, so a character can be looked for byte by byte (`getElem?_bytes_eq_some_iff`).
-/

namespace Utf8

/-- The number of bytes of a text. -/
def byteLength (text : List Char) : ℕ := (text.map Char.utf8Size).sum

@[simp] theorem byteLength_nil : byteLength [] = 0 := rfl

@[simp] theorem byteLength_cons (c : Char) (text : List Char) :
    byteLength (c :: text) = c.utf8Size + byteLength text := by
  rw [byteLength, List.map_cons, List.sum_cons, byteLength]

@[simp] theorem byteLength_append (a b : List Char) :
    byteLength (a ++ b) = byteLength a + byteLength b := by
  rw [byteLength, List.map_append, List.sum_append, byteLength, byteLength]

/-- ASCII characters take one byte each. -/
theorem byteLength_of_ascii {text : List Char} (h : ∀ c ∈ text, c.utf8Size = 1) :
    byteLength text = text.length := by
  induction text with
  | nil => rfl
  | cons c text ih =>
    obtain ⟨hc, htext⟩ := List.forall_mem_cons.mp h
    rw [byteLength_cons, hc, ih htext, List.length_cons, Nat.add_comm]

/-- The text before byte `n`.  There is none if the byte is inside of a character or beyond the end:
slicing the text there panics. -/
def sliceTo : ℕ → List Char → Option (List Char)
  | 0, _ => some []
  | _ + 1, [] => none
  | n + 1, c :: text =>
    if c.utf8Size ≤ n + 1 then (sliceTo (n + 1 - c.utf8Size) text).map (c :: ·) else none

/-- The byte offset `n` is the end of some of the first characters. -/
def IsBoundary (n : ℕ) (text : List Char) : Prop :=
  ∃ front rest, text = front ++ rest ∧ byteLength front = n

theorem sliceTo_eq_some_iff {n : ℕ} {text front : List Char} :
    sliceTo n text = some front ↔ (∃ rest, text = front ++ rest) ∧ byteLength front = n := by
  induction text generalizing n front with
  | nil =>
    cases n with
    | zero => cases front <;> simp [sliceTo]
    | succ n => cases front <;> simp [sliceTo]
  | cons c text ih =>
    have hpos := c.utf8Size_pos
    cases n with
    | zero =>
      cases front with
      | nil => simp [sliceTo]
      | cons d front =>
        have := d.utf8Size_pos
        simp only [sliceTo, Option.some.injEq, byteLength_cons]
        constructor
        · rintro ⟨⟩
        · rintro ⟨-, h⟩
          omega
    | succ n =>
      rw [sliceTo]
      split
      · next hle =>
        rw [Option.map_eq_some_iff]
        constructor
        · rintro ⟨front, hfront, rfl⟩
          obtain ⟨⟨rest, rfl⟩, hlen⟩ := ih.mp hfront
          refine ⟨⟨rest, rfl⟩, ?_⟩
          rw [byteLength_cons]
          omega
        · rintro ⟨⟨rest, htext⟩, hlen⟩
          cases front with
          | nil => cases hlen
          | cons d front =>
            obtain ⟨rfl, rfl⟩ := List.cons.inj htext
            rw [byteLength_cons] at hlen
            exact ⟨front, ih.mpr ⟨⟨rest, rfl⟩, by omega⟩, rfl⟩
      · next hgt =>
        constructor
        · rintro ⟨⟩
        · rintro ⟨⟨rest, htext⟩, hlen⟩
          cases front with
          | nil => cases hlen
          | cons d front =>
            obtain ⟨rfl, rfl⟩ := List.cons.inj htext
            rw [byteLength_cons] at hlen
            omega

/-- Slicing succeeds at the boundaries between characters and nowhere else. -/
theorem sliceTo_isSome_iff {n : ℕ} {text : List Char} :
    (sliceTo n text).isSome ↔ IsBoundary n text := by
  rw [Option.isSome_iff_exists]
  constructor
  · rintro ⟨front, h⟩
    obtain ⟨⟨rest, htext⟩, hlen⟩ := sliceTo_eq_some_iff.mp h
    exact ⟨front, rest, htext, hlen⟩
  · rintro ⟨front, rest, htext, hlen⟩
    exact ⟨front, sliceTo_eq_some_iff.mpr ⟨⟨rest, htext⟩, hlen⟩⟩

/-! ### The bytes -/

/-- The encoding of a text. -/
def bytes (text : List Char) : List UInt8 := text.flatMap String.utf8EncodeChar

theorem bytes_cons (c : Char) (text : List Char) :
    bytes (c :: text) = String.utf8EncodeChar c ++ bytes text := rfl

@[simp] theorem length_bytes (text : List Char) : (bytes text).length = byteLength text := by
  induction text with
  | nil => rfl
  | cons c text ih =>
    rw [bytes_cons, List.length_append, ih, String.length_utf8EncodeChar, byteLength_cons]

theorem utf8ByteSize_ofList (text : List Char) :
    (String.ofList text).utf8ByteSize = byteLength text := by
  rw [← length_bytes]
  exact List.size_toByteArray

/-- An ASCII byte of the encoding of a character is all of it. -/
theorem utf8EncodeChar_of_mem {c : Char} {b : UInt8} (hb : b.toNat < 128)
    (h : b ∈ String.utf8EncodeChar c) : String.utf8EncodeChar c = [b] ∧ c.toNat = b.toNat := by
  have hlarge : ∀ n, 128 ≤ n → n < 256 → b ≠ UInt8.ofNat n := by
    rintro n hlow hhigh rfl
    rw [UInt8.toNat_ofNat', Nat.mod_eq_of_lt hhigh] at hb
    omega
  unfold String.utf8EncodeChar at h ⊢
  dsimp only at h ⊢
  split at h
  · next hle =>
    obtain rfl := List.mem_singleton.mp h
    refine ⟨if_pos hle, ?_⟩
    rw [UInt8.toNat_ofNat', Nat.mod_eq_of_lt (by omega)]
    rfl
  · -- the other characters have bytes from 128 on only
    exfalso
    split at h
    · simp only [List.mem_cons, List.not_mem_nil, or_false] at h
      rcases h with h | h
      all_goals exact hlarge _ (by omega) (by omega) h
    · split at h
      all_goals simp only [List.mem_cons, List.not_mem_nil, or_false] at h
      · rcases h with h | h | h
        all_goals exact hlarge _ (by omega) (by omega) h
      · rcases h with h | h | h | h
        all_goals exact hlarge _ (by omega) (by omega) h

theorem utf8EncodeChar_of_ascii {c : Char} {b : UInt8} (hb : b.toNat < 128)
    (h : c.toNat = b.toNat) : String.utf8EncodeChar c = [b] := by
  have hval : c.val.toNat = b.toNat := h
  unfold String.utf8EncodeChar
  dsimp only
  rw [if_pos (by omega), hval, UInt8.ofNat_toNat]

/-- **An ASCII byte** in the encoding is that of a character, at the end of what is before it. -/
theorem getElem?_bytes_eq_some_iff {text : List Char} {n : ℕ} {b : UInt8} (hb : b.toNat < 128) :
    (bytes text)[n]? = some b ↔
      ∃ front c rest, text = front ++ c :: rest ∧ byteLength front = n ∧ c.toNat = b.toNat := by
  induction text generalizing n with
  | nil => simp [bytes]
  | cons d text ih =>
    have hlength := String.length_utf8EncodeChar d
    rw [bytes_cons]
    constructor
    · intro h
      by_cases hlt : n < d.utf8Size
      · rw [List.getElem?_append_left (by omega)] at h
        obtain ⟨hd, hc⟩ := utf8EncodeChar_of_mem hb (List.mem_of_getElem? h)
        rw [hd, List.length_singleton] at hlength
        exact ⟨[], d, text, rfl, by rw [byteLength_nil]; omega, hc⟩
      · rw [List.getElem?_append_right (by omega), hlength] at h
        obtain ⟨front, c, rest, rfl, hn, hc⟩ := ih.mp h
        exact ⟨d :: front, c, rest, rfl, by rw [byteLength_cons]; omega, hc⟩
    · rintro ⟨front, c, rest, htext, hn, hc⟩
      cases front with
      | nil =>
        obtain ⟨rfl, rfl⟩ := List.cons.inj htext
        obtain rfl : 0 = n := hn
        rw [utf8EncodeChar_of_ascii hb hc]
        rfl
      | cons d' front =>
        obtain ⟨rfl, rfl⟩ := List.cons.inj htext
        rw [byteLength_cons] at hn
        rw [List.getElem?_append_right (by omega), hlength]
        exact ih.mpr ⟨front, c, rest, rfl, by omega, hc⟩

end Utf8
