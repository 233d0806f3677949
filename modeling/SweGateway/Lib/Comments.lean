import Mathlib.Data.List.Infix
import Mathlib.Data.Nat.Notation

/-!
# Texts without their comments

A `Lexer` reads a text symbol by symbol and knows when it is in a comment, which goes on up to the
end of the line.  `Lexer.strip` leaves out the comments, from their first symbol on, and keeps the
line breaks.  As a line break does after a comment what it would have done without it, a text
without its comments is read as the text was (`run_strip`), and has none left (`strip_strip`).

`TomlComments.lexer` reads TOML: a comment is what begins with a `#` outside of any string.
-/

/-- A reader of texts with comments that end with the line. -/
structure Lexer (σ α : Type) where
  step : σ → α → σ
  /-- The state in a comment, from its first symbol on. -/
  comment : σ
  newline : α
  step_comment : ∀ c, step comment c = comment ↔ c ≠ newline
  /-- After a comment, a line break does what it would have done before it. -/
  resume : ∀ st c, step st c = comment → step st newline = step comment newline

namespace Lexer

variable {σ α : Type} [DecidableEq σ] (L : Lexer σ α)

/-- The state after a text. -/
def run (st : σ) (text : List α) : σ := text.foldl L.step st

/-- The text without its comments. -/
def strip : σ → List α → List α
  | _, [] => []
  | st, c :: text =>
    if L.step st c = L.comment then strip L.comment text else c :: strip (L.step st c) text

/-- All symbols of the comments are allowed, each before the symbol that follows it. -/
def commentsAll (allowed : α → Option α → Bool) : σ → List α → Bool
  | _, [] => true
  | st, c :: text =>
    (L.step st c != L.comment || allowed c text.head?) && commentsAll allowed (L.step st c) text

variable {L}

theorem strip_cons (st : σ) (c : α) (text : List α) : L.strip st (c :: text) =
    if L.step st c = L.comment then L.strip L.comment text
    else c :: L.strip (L.step st c) text := rfl

theorem strip_append (st : σ) (a b : List α) :
    L.strip st (a ++ b) = L.strip st a ++ L.strip (L.run st a) b := by
  induction a generalizing st with
  | nil => rfl
  | cons c a ih =>
    show L.strip st (c :: (a ++ b)) = L.strip st (c :: a) ++ L.strip (L.run (L.step st c) a) b
    rw [strip_cons, strip_cons, ih, ih]
    split
    · next h => rw [h]
    · rfl

/-- The text without its comments is read in the same way, be it from where the first of them
begins. -/
theorem strip_and_run_strip {st st' : σ} (text : List α)
    (h : st' = st ∨ st = L.comment ∧ L.step st' L.newline = L.step L.comment L.newline) :
    L.strip st' (L.strip st text) = L.strip st text ∧
      (L.run st text ≠ L.comment → L.run st' (L.strip st text) = L.run st text) := by
  -- while the text is in a comment, the stripped one is still where the comment began
  induction text generalizing st st' with
  | nil =>
    refine ⟨rfl, fun hne => ?_⟩
    rcases h with rfl | ⟨rfl, -⟩
    · rfl
    · exact absurd rfl hne
  | cons c text ih =>
    have hrun : L.run st (c :: text) = L.run (L.step st c) text := rfl
    by_cases hc : L.step st c = L.comment
    · rw [strip, if_pos hc, hrun, hc]
      refine ih (.inr ⟨rfl, ?_⟩)
      rcases h with rfl | ⟨-, h⟩
      · exact L.resume _ c hc
      · exact h
    · have hstep : L.step st' c = L.step st c := by
        rcases h with rfl | ⟨rfl, h⟩
        · rfl
        · obtain rfl : c = L.newline := not_not.mp fun hne => hc ((L.step_comment c).mpr hne)
          exact h
      obtain ⟨hstrip, hrun'⟩ := @ih (L.step st c) (L.step st c) (.inl rfl)
      rw [strip, if_neg hc, hrun]
      refine ⟨?_, fun hne => ?_⟩
      · rw [strip, hstep, if_neg hc, hstrip]
      · show L.run (L.step st' c) (L.strip (L.step st c) text) = _
        rw [hstep, hrun' hne]

/-- **No comments are left.** -/
@[simp] theorem strip_strip (st : σ) (text : List α) :
    L.strip st (L.strip st text) = L.strip st text :=
  (strip_and_run_strip text (.inl rfl)).1

/-- **Outside of comments**, the state is the same without them. -/
theorem run_strip {st : σ} {text : List α} (h : L.run st text ≠ L.comment) :
    L.run st (L.strip st text) = L.run st text :=
  (strip_and_run_strip text (.inl rfl)).2 h

theorem strip_sublist (st : σ) (text : List α) : (L.strip st text).Sublist text := by
  induction text generalizing st with
  | nil => exact .slnil
  | cons c text ih =>
    unfold strip
    split
    · exact (ih _).cons c
    · exact (ih _).cons_cons c

/-- Between the two parts of a text the reader is in no comment: each has its own comments. -/
theorem commentsAll_append (allowed : α → Option α → Bool) {st : σ} {a : List α} (b : List α)
    (h : L.run st a ≠ L.comment) :
    L.commentsAll allowed st (a ++ b) =
      (L.commentsAll allowed st a && L.commentsAll allowed (L.run st a) b) := by
  induction a generalizing st with
  | nil => rfl
  | cons c a ih =>
    have hhead : (L.step st c != L.comment || allowed c (a ++ b).head?) =
        (L.step st c != L.comment || allowed c a.head?) := by
      cases a with
      | cons d a => rfl
      | nil =>
        -- the last symbol before `b` is in no comment
        have hne : (L.step st c != L.comment) = true := bne_iff_ne.mpr h
        rw [hne, Bool.true_or, Bool.true_or]
    rw [List.cons_append, commentsAll, hhead, ih h, commentsAll, Bool.and_assoc]
    rfl

/-- A text without comments does not lead into one. -/
theorem run_ne_comment {st : σ} {text : List α} (hst : st ≠ L.comment)
    (h : L.strip st text = text) : L.run st text ≠ L.comment := by
  induction text generalizing st with
  | nil => exact hst
  | cons c text ih =>
    rw [strip_cons] at h
    split at h
    · -- nothing of the comment that begins here would be left
      have hle := (strip_sublist (L := L) L.comment text).length_le
      rw [h, List.length_cons] at hle
      omega
    · next hc => exact ih hc (List.cons.inj h).2

/-! ### Finding symbols in a stripped text -/

/-- What is left of a comment begins with the line break. -/
theorem eq_newline_of_strip_comment {text rest : List α} {b : α}
    (h : L.strip L.comment text = b :: rest) : b = L.newline := by
  induction text with
  | nil => cases h
  | cons c text ih =>
    unfold strip at h
    split at h
    · exact ih h
    · next hc =>
      obtain ⟨rfl, -⟩ := List.cons.inj h
      exact not_not.mp fun hne => hc ((L.step_comment _).mpr hne)

/-- What is left begins with the first symbol of the text, or with a line break. -/
theorem exists_of_strip_eq_cons {st : σ} {text rest : List α} {b : α}
    (h : L.strip st text = b :: rest) (hb : b ≠ L.newline) :
    ∃ text', text = b :: text' ∧ L.strip (L.step st b) text' = rest := by
  cases text with
  | nil => cases h
  | cons c text =>
    unfold strip at h
    split at h
    · exact absurd (eq_newline_of_strip_comment h) hb
    · obtain ⟨rfl, hrest⟩ := List.cons.inj h
      exact ⟨text, rfl, hrest⟩

/-- **Two symbols** next to each other, the second of them no line break, have been so before. -/
theorem exists_of_strip_eq_append {st : σ} {text front rest : List α} {a b : α}
    (h : L.strip st text = front ++ a :: b :: rest) (hb : b ≠ L.newline) :
    ∃ front' rest' st', text = front' ++ a :: b :: rest' ∧ L.strip st' rest' = rest := by
  induction text generalizing st front with
  | nil => exact absurd h.symm (List.append_ne_nil_of_right_ne_nil _ (List.cons_ne_nil _ _))
  | cons c text ih =>
    unfold strip at h
    split at h
    · obtain ⟨front', rest', st', rfl, hrest⟩ := ih h
      exact ⟨c :: front', rest', st', rfl, hrest⟩
    · cases front with
      | nil =>
        obtain ⟨rfl, htext⟩ := List.cons.inj h
        obtain ⟨rest', rfl, hrest⟩ := exists_of_strip_eq_cons htext hb
        exact ⟨[], rest', _, rfl, hrest⟩
      | cons d front =>
        obtain ⟨rfl, htext⟩ := List.cons.inj h
        obtain ⟨front', rest', st', rfl, hrest⟩ := ih htext
        exact ⟨c :: front', rest', st', rfl, hrest⟩

end Lexer

/-! ### TOML -/

namespace TomlComments

/-- The quotes of basic strings and of literal strings. -/
inductive Quote where
  | basic
  | literal
  deriving DecidableEq, Repr

def Quote.char : Quote → Char
  | .basic => '"'
  | .literal => '\''

/-- Where a reader of TOML is. -/
inductive State where
  | plain
  | comment
  /-- In a string on one line. -/
  | line (q : Quote)
  | lineEscape
  /-- After a first quote, and after a second one. -/
  | first (q : Quote)
  | second (q : Quote)
  /-- In a multi-line string, after so many quotes in a row. -/
  | block (q : Quote) (quotes : ℕ)
  | blockEscape
  deriving DecidableEq, Repr

def stepPlain (c : Char) : State :=
  if c = '#' then .comment
  else if c = '"' then .first .basic
  else if c = '\'' then .first .literal
  else .plain

def stepLine (q : Quote) (c : Char) : State :=
  if c = q.char ∨ c = '\n' then .plain
  else if c = '\\' ∧ q = .basic then .lineEscape
  else .line q

def stepBlock (q : Quote) (quotes : ℕ) (c : Char) : State :=
  if c = q.char then
    -- up to two quotes belong to the string before the three that end it
    if quotes < 4 then .block q (quotes + 1) else .plain
  else if 3 ≤ quotes then stepPlain c
  else if c = '\\' ∧ q = .basic then .blockEscape
  else .block q 0

def step : State → Char → State
  | .plain, c => stepPlain c
  | .comment, c => if c = '\n' then .plain else .comment
  | .line q, c => stepLine q c
  | .lineEscape, c => if c = '\n' then .plain else .line .basic
  | .first q, c => if c = q.char then .second q else stepLine q c
  | .second q, c => if c = q.char then .block q 0 else stepPlain c
  | .block q quotes, c => stepBlock q quotes c
  | .blockEscape, _ => .block .basic 0

theorem stepLine_ne_comment (q : Quote) (c : Char) : stepLine q c ≠ .comment := by
  unfold stepLine
  split_ifs <;> exact nofun

theorem newline_ne_char (q : Quote) : '\n' ≠ q.char := by
  cases q <;> decide

/-- Where a comment can begin, a line break begins a line. -/
theorem step_newline {st : State} {c : Char} (h : step st c = .comment) :
    step st '\n' = .plain := by
  cases st with
  | plain | comment => rfl
  | line q => exact absurd h (stepLine_ne_comment q c)
  | lineEscape =>
    change (if c = '\n' then State.plain else .line .basic) = .comment at h
    split at h <;> cases h
  | first q =>
    change (if c = q.char then State.second q else stepLine q c) = .comment at h
    split at h
    · cases h
    · exact absurd h (stepLine_ne_comment q c)
  | second q => exact if_neg (newline_ne_char q)
  | block q quotes =>
    change stepBlock q quotes c = .comment at h
    show stepBlock q quotes '\n' = .plain
    unfold stepBlock at h ⊢
    rw [if_neg (newline_ne_char q)]
    split at h
    · split at h <;> cases h
    split at h
    · next hthree => exact if_pos hthree
    · split at h <;> cases h
  | blockEscape => cases h

/-- The reader of TOML. -/
def lexer : Lexer State Char where
  step := step
  comment := .comment
  newline := '\n'
  step_comment c := by
    show (if c = '\n' then State.plain else .comment) = .comment ↔ c ≠ '\n'
    split
    · next h => exact iff_of_false nofun (not_not_intro h)
    · next h => exact iff_of_true rfl h
  resume _ _ h := step_newline h

/-- The text without its comments. -/
def withoutComments (text : List Char) : List Char := lexer.strip .plain text

/-- What TOML allows in comments: no control characters but tabs.  The carriage return of a line
break belongs to the line break. -/
def allowed (c : Char) (next : Option Char) : Bool :=
  c == '\t' || (0x20 ≤ c.toNat && c.toNat != 0x7f) || (c == '\r' && next == some '\n')

/-- In strings, a `#` does not begin a comment. -/
example : withoutComments "a = \"#\" # b\nc = \"\"\"\"#\"\"\"\" # d".toList =
    "a = \"#\" \nc = \"\"\"\"#\"\"\"\" ".toList := by decide +kernel

end TomlComments
