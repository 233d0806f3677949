import SweGateway.Core.Notification.Console
import SweGateway.Lib.GreedyFill

/-!
# How a text is wrapped

`wordWrap` builds its lines as texts, word by word.  As lists of words they are the greedy filling of
lines with the words of the text (`wordWrap_of_words`): the loop's current line is always the text of
the group that is being filled (`foldl_wrapStep`).  As the words of a line are found in it again
(`splitWhitespace_joinWords`), what holds of the filling holds of the lines (`wordWrap_isGreedyWrap`).
-/

namespace SweGateway

open Utf8 GreedyFill

/-- The lines are the text, wrapped greedily: the words of the text stand on them in their order, a
line is too long only if it is a single word, and the first word of a line does not fit at the end of
the line before. -/
structure IsGreedyWrap (text : List Char) (maxWidth : ℕ) (lines : List (List Char)) : Prop where
  ne_nil : lines ≠ []
  words : (lines.map splitWhitespace).flatten = splitWhitespace text
  fits : ∀ line ∈ lines, 1 < (splitWhitespace line).length → byteLength line ≤ maxWidth
  greedy : lines.IsChain fun line next => ∃ word rest, splitWhitespace next = word :: rest ∧
    maxWidth < byteLength line + 1 + byteLength word

/-! ### Words -/

/-- A text without whitespace, which is not empty. -/
structure IsWord (word : List Char) : Prop where
  ne_nil : word ≠ []
  not_whitespace : ∀ c ∈ word, TextLines.isWhitespace c = false

theorem isWord_of_mem_splitWhitespace {text word : List Char} (h : word ∈ splitWhitespace text) :
    IsWord word := by
  obtain ⟨hmem, hne⟩ := List.mem_filter.mp h
  exact ⟨by simpa using hne, fun c hc => (TextLines.mem_of_mem_splitOnP hmem hc).2⟩

theorem splitWhitespace_nil : splitWhitespace [] = [] := by
  rw [splitWhitespace, List.splitOnP_nil]
  rfl

theorem IsWord.splitWhitespace {word : List Char} (h : IsWord word) :
    splitWhitespace word = [word] := by
  rw [SweGateway.splitWhitespace, List.splitOnP_eq_singleton h.not_whitespace,
    List.filter_cons_of_pos (by simpa using h.ne_nil)]
  rfl

/-- A text with a space in it has the words before it and those behind it. -/
theorem splitWhitespace_append_space (front back : List Char) :
    splitWhitespace (front ++ ' ' :: back) = splitWhitespace front ++ splitWhitespace back := by
  have hspace : TextLines.isWhitespace ' ' = true := by decide
  rw [splitWhitespace, List.splitOnP_append_cons front back hspace, List.filter_append]
  rfl

/-- The text of a line of words. -/
def joinWords (words : List (List Char)) : List Char := [' '].intercalate words

theorem joinWords_singleton (word : List Char) : joinWords [word] = word :=
  List.intercalate_singleton

theorem joinWords_cons {words : List (List Char)} (hne : words ≠ []) (word : List Char) :
    joinWords (word :: words) = word ++ ' ' :: joinWords words := by
  rw [joinWords, List.intercalate_cons_of_ne_nil hne, List.append_assoc]
  rfl

theorem joinWords_concat {words : List (List Char)} (hne : words ≠ []) (word : List Char) :
    joinWords (words ++ [word]) = joinWords words ++ ' ' :: word := by
  induction words with
  | nil => exact absurd rfl hne
  | cons first words ih =>
    by_cases hnil : words = []
    · subst hnil
      show joinWords (first :: [word]) = _
      rw [joinWords_cons (List.cons_ne_nil _ _), joinWords_singleton, joinWords_singleton]
    · have hne' : words ++ [word] ≠ [] := List.append_ne_nil_of_left_ne_nil hnil _
      rw [List.cons_append, joinWords_cons hne', joinWords_cons hnil, ih hnil, List.append_assoc]
      rfl

/-- **Round trip.**  The words of a line of words. -/
theorem splitWhitespace_joinWords {words : List (List Char)} (h : ∀ word ∈ words, IsWord word) :
    splitWhitespace (joinWords words) = words := by
  induction words with
  | nil => exact splitWhitespace_nil
  | cons word words ih =>
    obtain ⟨hword, hwords⟩ := List.forall_mem_cons.mp h
    by_cases hnil : words = []
    · subst hnil
      rw [joinWords_singleton, hword.splitWhitespace]
    · rw [joinWords_cons hnil, splitWhitespace_append_space, hword.splitWhitespace, ih hwords]
      rfl

theorem joinWords_ne_nil {words : List (List Char)} (hne : words ≠ [])
    (h : ∀ word ∈ words, IsWord word) : joinWords words ≠ [] := by
  intro hnil
  have hwords := splitWhitespace_joinWords h
  rw [hnil, splitWhitespace_nil] at hwords
  exact hne hwords.symm

/-! ### The loop -/

/-- The word fits at the end of the line of the words. -/
def FitsBehind (maxWidth : ℕ) (words : List (List Char)) (word : List Char) : Prop :=
  byteLength (joinWords words) + 1 + byteLength word ≤ maxWidth

instance (maxWidth : ℕ) (words : List (List Char)) : DecidablePred (FitsBehind maxWidth words) :=
  fun word => inferInstanceAs (Decidable (byteLength (joinWords words) + 1 + byteLength word ≤ _))

/-- One word of the loop: the lines so far, and the current one. -/
def wrapStep (maxWidth : ℕ) (s : List (List Char) × List Char) (word : List Char) :
    List (List Char) × List Char :=
  if s.2 = [] then (s.1, word)
  else if byteLength s.2 + 1 + byteLength word ≤ maxWidth then (s.1, s.2 ++ [' '] ++ word)
  else (s.1 ++ [s.2], word)

/-- The lines after the loop. -/
def wrapEnd (s : List (List Char) × List Char) : List (List Char) :=
  let lines := if s.2 ≠ [] then s.1 ++ [s.2] else s.1
  if lines = [] then lines ++ [[]] else lines

theorem wordWrap_eq (text : List Char) (maxWidth : ℕ) :
    wordWrap text maxWidth =
      wrapEnd ((splitWhitespace text).foldl (wrapStep maxWidth) ([], [])) := by
  unfold wordWrap
  dsimp only
  rw [Eff.forIn_eq_foldl (g := wrapStep maxWidth)]
  · simp only [Id.run, pure_bind, wrapEnd]
    split <;> split <;> rfl
  · intro word s
    unfold wrapStep
    split
    · rfl
    · split <;> rfl

theorem wrapStep_of_empty (maxWidth : ℕ) (lines : List (List Char)) (word : List Char) :
    wrapStep maxWidth (lines, []) word = (lines, word) := if_pos rfl

section Filling

variable {maxWidth : ℕ} {group : List (List Char)} {word : List Char}
  (hne : group ≠ []) (hgroup : ∀ w ∈ group, IsWord w) (lines : List (List Char))

include hne hgroup

theorem wrapStep_of_fits (h : FitsBehind maxWidth group word) :
    wrapStep maxWidth (lines, joinWords group) word = (lines, joinWords (group ++ [word])) := by
  have hline := joinWords_ne_nil hne hgroup
  rw [wrapStep, if_neg hline, joinWords_concat hne]
  refine (if_pos h).trans ?_
  rw [List.append_assoc]
  rfl

theorem wrapStep_of_not_fits (h : ¬ FitsBehind maxWidth group word) :
    wrapStep maxWidth (lines, joinWords group) word = (lines ++ [joinWords group], word) := by
  have hline := joinWords_ne_nil hne hgroup
  rw [wrapStep, if_neg hline]
  exact if_neg h

/-- **The loop** fills the line that is begun, and the lines after it. -/
theorem foldl_wrapStep {words : List (List Char)} (hwords : ∀ w ∈ words, IsWord w) :
    wrapEnd (words.foldl (wrapStep maxWidth) (lines, joinWords group)) =
      lines ++ (fill (FitsBehind maxWidth) group words).map joinWords := by
  -- on the words, for whatever lines are full and whatever words are on the current one
  induction words generalizing lines group with
  | nil =>
    have hfull : lines ++ [joinWords group] ≠ [] :=
      List.append_ne_nil_of_right_ne_nil _ (List.cons_ne_nil _ _)
    rw [List.foldl_nil, wrapEnd, if_pos (joinWords_ne_nil hne hgroup)]
    exact if_neg hfull
  | cons word words ih =>
    obtain ⟨hword, hwords⟩ := List.forall_mem_cons.mp hwords
    rw [List.foldl_cons]
    by_cases h : FitsBehind maxWidth group word
    · have hgroup' : ∀ w ∈ group ++ [word], IsWord w :=
        List.forall_mem_append.mpr ⟨hgroup, List.forall_mem_singleton.mpr hword⟩
      have hne' : group ++ [word] ≠ [] := List.append_ne_nil_of_left_ne_nil hne _
      rw [wrapStep_of_fits hne hgroup lines h, fill_of_fits h]
      exact ih hne' hgroup' lines hwords
    · have hrest := ih (List.cons_ne_nil word []) (List.forall_mem_singleton.mpr hword)
        (lines ++ [joinWords group]) hwords
      rw [joinWords_singleton] at hrest
      rw [wrapStep_of_not_fits hne hgroup lines h, fill_of_not_fits h, List.map_cons, hrest,
        List.append_assoc]
      rfl

end Filling

/-- A text without words is wrapped to an empty line. -/
theorem wordWrap_of_nil {text : List Char} (h : splitWhitespace text = []) (maxWidth : ℕ) :
    wordWrap text maxWidth = [[]] := by
  rw [wordWrap_eq, h]
  rfl

/-- **The lines** are the greedy filling with the words of the text. -/
theorem wordWrap_of_words {text word : List Char} {words : List (List Char)}
    (h : splitWhitespace text = word :: words) (maxWidth : ℕ) :
    wordWrap text maxWidth = (fill (FitsBehind maxWidth) [word] words).map joinWords := by
  have hall : ∀ w ∈ word :: words, IsWord w := fun w hw => isWord_of_mem_splitWhitespace (h ▸ hw)
  obtain ⟨hword, hwords⟩ := List.forall_mem_cons.mp hall
  have hfill := @foldl_wrapStep maxWidth [word] (List.cons_ne_nil word [])
    (List.forall_mem_singleton.mpr hword) [] words hwords
  rw [joinWords_singleton, List.nil_append] at hfill
  rw [wordWrap_eq, h, List.foldl_cons, wrapStep_of_empty, hfill]

/-! ### The lines -/

/-- What holds of every line of the filling: it is made of words, and is not too long if there is
more than one. -/
structure IsLine (maxWidth : ℕ) (line : List (List Char)) : Prop where
  ne_nil : line ≠ []
  isWord : ∀ word ∈ line, IsWord word
  fits : 1 < line.length → byteLength (joinWords line) ≤ maxWidth

theorem isLine_singleton (maxWidth : ℕ) {word : List Char} (h : IsWord word) :
    IsLine maxWidth [word] :=
  ⟨List.cons_ne_nil _ _, List.forall_mem_singleton.mpr h, fun hlt => absurd hlt (lt_irrefl 1)⟩

theorem IsLine.concat {maxWidth : ℕ} {line : List (List Char)} {word : List Char}
    (h : IsLine maxWidth line) (hword : IsWord word) (hfits : FitsBehind maxWidth line word) :
    IsLine maxWidth (line ++ [word]) where
  ne_nil := List.append_ne_nil_of_left_ne_nil h.ne_nil _
  isWord := List.forall_mem_append.mpr ⟨h.isWord, List.forall_mem_singleton.mpr hword⟩
  fits _ := by
    have hspace : Char.utf8Size ' ' = 1 := by decide
    rw [joinWords_concat h.ne_nil, byteLength_append, byteLength_cons, hspace, ← Nat.add_assoc]
    exact hfits

theorem isLine_of_mem_fill {maxWidth : ℕ} {word : List Char} {words : List (List Char)}
    (h : ∀ w ∈ word :: words, IsWord w) :
    ∀ line ∈ fill (FitsBehind maxWidth) [word] words, IsLine maxWidth line := by
  obtain ⟨hword, hwords⟩ := List.forall_mem_cons.mp h
  refine forall_mem_fill (isLine_singleton maxWidth hword) (fun w hw => ?_) fun line hline w hw => ?_
  · exact isLine_singleton maxWidth (hwords w hw)
  · exact hline.concat (hwords w hw)

/-- Groups of words that are lines, each as long as it can be, wrap the text that has these words. -/
theorem isGreedyWrap_map_joinWords {text : List Char} {maxWidth : ℕ}
    {lines : List (List (List Char))} (hne : lines ≠ [])
    (hwords : lines.flatten = splitWhitespace text) (hlines : ∀ line ∈ lines, IsLine maxWidth line)
    (hgreedy : lines.IsChain fun line next =>
      ∃ word rest, next = word :: rest ∧ ¬ FitsBehind maxWidth line word) :
    IsGreedyWrap text maxWidth (lines.map joinWords) := by
  have hback : ∀ line ∈ lines, splitWhitespace (joinWords line) = line :=
    fun line hline => splitWhitespace_joinWords (hlines line hline).isWord
  refine ⟨fun hnil => hne (List.map_eq_nil_iff.mp hnil), ?_, ?_, ?_⟩
  · have hmap : lines.map (splitWhitespace ∘ joinWords) = lines :=
      (List.map_congr_left hback).trans (List.map_id' lines)
    rw [List.map_map, hmap, hwords]
  · intro text hmem hlt
    obtain ⟨line, hline, rfl⟩ := List.mem_map.mp hmem
    rw [hback line hline] at hlt
    exact (hlines line hline).fits hlt
  · rw [List.isChain_map]
    refine hgreedy.imp_of_mem_imp ?_
    rintro line next - hnext ⟨word, rest, rfl, hfits⟩
    exact ⟨word, rest, hback _ hnext, Nat.lt_of_not_le hfits⟩

/-- One empty line wraps a text without words. -/
theorem isGreedyWrap_nil {text : List Char} (h : splitWhitespace text = []) (maxWidth : ℕ) :
    IsGreedyWrap text maxWidth [[]] := by
  refine ⟨List.cons_ne_nil _ _, ?_, fun line hline hlt => ?_, .singleton _⟩
  · rw [h, List.map_singleton, splitWhitespace_nil]
    rfl
  · obtain rfl := List.mem_singleton.mp hline
    rw [splitWhitespace_nil] at hlt
    cases hlt

/-- **A text is wrapped greedily**, whatever the text and the width. -/
theorem wordWrap_isGreedyWrap (text : List Char) (maxWidth : ℕ) :
    IsGreedyWrap text maxWidth (wordWrap text maxWidth) := by
  cases hwords : splitWhitespace text with
  | nil =>
    rw [wordWrap_of_nil hwords]
    exact isGreedyWrap_nil hwords maxWidth
  | cons word words =>
    have hall : ∀ w ∈ word :: words, IsWord w :=
      fun w hw => isWord_of_mem_splitWhitespace (hwords ▸ hw)
    rw [wordWrap_of_words hwords]
    have hflatten : (fill (FitsBehind maxWidth) [word] words).flatten = splitWhitespace text := by
      rw [flatten_fill, hwords]
      rfl
    exact isGreedyWrap_map_joinWords (fill_ne_nil [word] words) hflatten (isLine_of_mem_fill hall)
      (isChain_fill [word] words)

/-- A word that is too long has a line of its own. -/
example : wordWrap "a bc  defgh ij".toList 4 =
    ["a bc".toList, "defgh".toList, "ij".toList] := by decide +kernel

end SweGateway
