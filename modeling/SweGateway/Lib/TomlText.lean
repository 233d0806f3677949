import SweGateway.Lib.Serde

/-!
# TOML texts

The part about basic strings is that of TOML 1.0: what stands between the quotes is read by
`unescape`, which rejects a quote, a line break or another control character and a backslash that
does not begin an escape.

`read` reads documents line by line: blank lines and comments, headers of tables, and keys with
basic strings, integers or booleans.  It rejects everything else that TOML has, such as quoted keys,
arrays and multi-line strings.
-/

namespace TomlText

open AssocList Serde

/-! ### Basic strings -/

/-- The character may stand in a basic string as it is. -/
def isPlain (c : Char) : Bool :=
  c ≠ '"' && c ≠ '\\' && (c = '\t' || (0x20 ≤ c.toNat && c.toNat ≠ 0x7f))

/-- The character that a backslash and a letter stand for. -/
def shortEscape : Char → Option Char
  | 'b' => some '\x08'
  | 't' => some '\t'
  | 'n' => some '\n'
  | 'f' => some '\x0c'
  | 'r' => some '\r'
  | '"' => some '"'
  | '\\' => some '\\'
  | _ => none

/-- The value of a hexadecimal digit. -/
def hexDigit (c : Char) : Option ℕ :=
  if '0' ≤ c ∧ c ≤ '9' then some (c.toNat - '0'.toNat)
  else if 'a' ≤ c ∧ c ≤ 'f' then some (c.toNat - 'a'.toNat + 10)
  else if 'A' ≤ c ∧ c ≤ 'F' then some (c.toNat - 'A'.toNat + 10)
  else none

/-- The character that hexadecimal digits stand for: a Unicode scalar value. -/
def scalar (digits : List Char) : Option Char := do
  let ds ← digits.mapM hexDigit
  let n := ds.foldl (fun n d => 16 * n + d) 0
  if n < 0xd800 ∨ 0xdfff < n ∧ n < 0x110000 then some (Char.ofNat n) else none

/-- The string that the text between the quotes of a basic string stands for. -/
def unescape : List Char → Option (List Char)
  | [] => some []
  | '\\' :: 'u' :: a :: b :: c :: d :: text => do
    let first ← scalar [a, b, c, d]
    let rest ← unescape text
    return first :: rest
  | '\\' :: 'U' :: a :: b :: c :: d :: e :: f :: g :: h :: text => do
    let first ← scalar [a, b, c, d, e, f, g, h]
    let rest ← unescape text
    return first :: rest
  | '\\' :: e :: text => do
    let first ← shortEscape e
    let rest ← unescape text
    return first :: rest
  | c :: text =>
    if isPlain c then do
      let rest ← unescape text
      return c :: rest
    else none

/-- Reads the rest of a basic string after its first quote: the text up to the quote that ends it,
and what is after that. -/
def readQuoted : List Char → Option (List Char × List Char)
  | [] => none
  | '"' :: after => some ([], after)
  | '\\' :: e :: text => (readQuoted text).map fun (body, after) => ('\\' :: e :: body, after)
  | c :: text => (readQuoted text).map fun (body, after) => (c :: body, after)

theorem readQuoted_escape (e : Char) (text : List Char) :
    readQuoted ('\\' :: e :: text) =
      (readQuoted text).map fun (body, after) => ('\\' :: e :: body, after) := by
  rw [readQuoted]

theorem readQuoted_plain {c : Char} (hquote : c ≠ '"') (hescape : c ≠ '\\') (text : List Char) :
    readQuoted (c :: text) = (readQuoted text).map fun (body, after) => (c :: body, after) := by
  rw [readQuoted]
  · exact hquote
  · exact fun _ _ h _ => hescape h

/-- A text that a quote ends, whatever is after that, and that is on one line. -/
structure Closed (body : List Char) : Prop where
  readQuoted_eq : ∀ after, readQuoted (body ++ '"' :: after) = some (body, after)
  not_newline : '\n' ∉ body

theorem Closed.nil : Closed [] := ⟨fun _ => by simp [readQuoted], nofun⟩

theorem Closed.escape {text : List Char} {e : Char} (h : Closed text) (he : e ≠ '\n') :
    Closed ('\\' :: e :: text) where
  readQuoted_eq after := by
    show readQuoted ('\\' :: e :: (text ++ '"' :: after)) = _
    rw [readQuoted_escape, h.readQuoted_eq]
    rfl
  not_newline := by simp [h.not_newline, he.symm]

theorem Closed.plain {text : List Char} {c : Char} (h : Closed text) (hquote : c ≠ '"')
    (hescape : c ≠ '\\') (hline : c ≠ '\n') : Closed (c :: text) where
  readQuoted_eq after := by
    show readQuoted (c :: (text ++ '"' :: after)) = _
    rw [readQuoted_plain hquote hescape, h.readQuoted_eq]
    rfl
  not_newline := by simp [h.not_newline, hline.symm]

theorem Closed.hexDigit {text : List Char} {c : Char} (h : Closed text)
    (hc : (hexDigit c).isSome) : Closed (c :: text) := by
  refine h.plain ?_ ?_ ?_ <;> rintro rfl <;> revert hc <;> decide

theorem isSome_hexDigit_of_mapM {digits : List Char} {ds : List ℕ}
    (h : digits.mapM hexDigit = some ds) : ∀ c ∈ digits, (hexDigit c).isSome := by
  induction digits generalizing ds with
  | nil => nofun
  | cons c digits ih =>
    rw [List.mapM_cons] at h
    obtain ⟨d, hd, h⟩ := Option.bind_eq_some_iff.mp h
    obtain ⟨rest, hrest, -⟩ := Option.bind_eq_some_iff.mp h
    rw [List.forall_mem_cons]
    exact ⟨by rw [hd]; rfl, ih hrest⟩

theorem Closed.digits {text digits : List Char} {c : Char} (h : Closed text)
    (hs : scalar digits = some c) : Closed (digits ++ text) := by
  obtain ⟨ds, hds, -⟩ := Option.bind_eq_some_iff.mp hs
  have hhex := isSome_hexDigit_of_mapM hds
  clear hs hds
  induction digits with
  | nil => exact h
  | cons d digits ih =>
    rw [List.forall_mem_cons] at hhex
    exact (ih hhex.2).hexDigit hhex.1

/-- What stands between the quotes of a basic string is on one line and ends at the second one. -/
theorem closed_of_unescape {body x : List Char} (h : unescape body = some x) : Closed body := by
  fun_induction unescape body generalizing x with
  | case1 => exact .nil
  | case2 a b c d text ih =>
    obtain ⟨first, hfirst, h⟩ := Option.bind_eq_some_iff.mp h
    obtain ⟨rest, hrest, -⟩ := Option.bind_eq_some_iff.mp h
    exact ((ih hrest).digits hfirst).escape (by decide)
  | case3 a b c d e f g i text ih =>
    obtain ⟨first, hfirst, h⟩ := Option.bind_eq_some_iff.mp h
    obtain ⟨rest, hrest, -⟩ := Option.bind_eq_some_iff.mp h
    exact ((ih hrest).digits hfirst).escape (by decide)
  | case4 e text _ _ ih =>
    -- the escaped character may be a quote, but not a line break
    obtain ⟨first, hfirst, h⟩ := Option.bind_eq_some_iff.mp h
    obtain ⟨rest, hrest, -⟩ := Option.bind_eq_some_iff.mp h
    refine (ih hrest).escape ?_
    rintro rfl
    cases hfirst
  | case5 c text _ _ _ hplain ih =>
    obtain ⟨rest, hrest, -⟩ := Option.bind_eq_some_iff.mp h
    refine (ih hrest).plain ?_ ?_ ?_ <;> rintro rfl <;> revert hplain <;> decide
  | case6 => cases h

/-! ### Documents -/

def isBlank (c : Char) : Bool := c = ' ' || c = '\t'

/-- Nothing, or a comment. -/
def isEnd (text : List Char) : Bool :=
  match text.dropWhile isBlank with
  | [] => true
  | c :: _ => c = '#'

def isBareKey (c : Char) : Bool := c.isAlphanum || c = '_' || c = '-'

/-- A line of a document. -/
inductive Line where
  | blank
  | header (path : List String)
  | binding (key : String) (v : Data)

/-- Reads the value after an equals sign. -/
def readValue : List Char → Option Data
  | '"' :: text => do
    let (body, after) ← readQuoted text
    let s ← unescape body
    if isEnd after then some (.string (String.ofList s)) else none
  | text =>
    let word := text.takeWhile Char.isAlphanum
    if ¬ isEnd (text.dropWhile Char.isAlphanum) then none
    else if word = "true".toList then some (.boolean true)
    else if word = "false".toList then some (.boolean false)
    else if word ≠ [] ∧ word.all Char.isDigit then
      some (.integer (word.foldl (fun n c => 10 * n + (c.toNat - '0'.toNat)) 0 : ℕ))
    else none

/-- Reads a line. -/
def readLine (line : List Char) : Option Line :=
  match line.dropWhile isBlank with
  | [] => some .blank
  | '#' :: _ => some .blank
  | '[' :: text =>
    let path := (text.takeWhile (· ≠ ']')).splitOn '.'
    if path.all (fun key => key ≠ [] && key.all isBareKey) && isEnd ((text.dropWhile (· ≠ ']')).drop 1)
    then some (.header (path.map String.ofList)) else none
  | text =>
    let key := text.takeWhile isBareKey
    match (text.dropWhile isBareKey).dropWhile isBlank with
    | '=' :: value =>
      if key = [] then none
      else (readValue (value.dropWhile isBlank)).map (.binding (String.ofList key))
    | _ => none

/-- A table with a new value at the end of a path. -/
def insertAt : List String → Data → List (String × Data) → Option (List (String × Data))
  | [], _, _ => none
  | [key], v, es => if es.lookup key = none then some (es ++ [(key, v)]) else none
  | key :: path, v, es =>
    match es.lookup key with
    | none => (insertAt path v []).map fun es' => es ++ [(key, .table es')]
    | some (.table es') =>
      (insertAt path v es').map fun es'' => modifyKey key (fun _ => .table es'') es
    | some _ => none

/-- A line, after the table whose header came last and what has been read so far. -/
def readStep (state : List String × List (String × Data)) :
    Line → Option (List String × List (String × Data))
  | .blank => some state
  | .header path => (insertAt path (.table []) state.2).map (path, ·)
  | .binding key v => (insertAt (state.1 ++ [key]) v state.2).map (state.1, ·)

/-- Reads the lines of a document. -/
def readLines : List (List Char) → List String × List (String × Data) →
    Option (List (String × Data))
  | [], state => some state.2
  | line :: lines, state => do
    let l ← readLine line
    let state' ← readStep state l
    readLines lines state'

/-- Reads a document. -/
def read (text : String) : Except String Data :=
  match readLines (text.toList.splitOn '\n') ([], []) with
  | some es => .ok (.table es)
  | none => .error "TOML parse error"

theorem readValue_quoted {body x : List Char} (h : unescape body = some x) :
    readValue ('"' :: (body ++ ['"'])) = some (.string (String.ofList x)) := by
  rw [readValue, (closed_of_unescape h).readQuoted_eq]
  show ((unescape body).bind fun s =>
    if isEnd [] then some (Data.string (String.ofList s)) else none) = _
  rw [h]
  rfl

/-- A line that binds a bare key to a basic string. -/
theorem readLine_quoted {c : Char} {key body x : List Char} (hbare : (c :: key).all isBareKey)
    (h : unescape body = some x) :
    readLine (c :: key ++ ' ' :: '=' :: ' ' :: '"' :: (body ++ ['"'])) =
      some (.binding (String.ofList (c :: key)) (.string (String.ofList x))) := by
  have hkey : ∀ d ∈ c :: key, isBareKey d := List.all_eq_true.mp hbare
  have hc := hkey c List.mem_cons_self
  have hblank : isBlank c = false := by
    refine Bool.eq_false_iff.mpr fun hblank => ?_
    rcases (by simpa [isBlank] using hblank : c = ' ' ∨ c = '\t') with rfl | rfl <;>
      revert hc <;> decide
  have hline : (c :: key ++ ' ' :: '=' :: ' ' :: '"' :: (body ++ ['"'])).dropWhile isBlank =
      c :: key ++ ' ' :: '=' :: ' ' :: '"' :: (body ++ ['"']) :=
    List.dropWhile_cons_of_neg (by simp [hblank])
  have htake : (c :: key ++ ' ' :: '=' :: ' ' :: '"' :: (body ++ ['"'])).takeWhile isBareKey =
      c :: key := by
    rw [List.takeWhile_append_of_pos hkey, List.takeWhile_cons_of_neg (by decide), List.append_nil]
  have hdrop : (c :: key ++ ' ' :: '=' :: ' ' :: '"' :: (body ++ ['"'])).dropWhile isBareKey =
      ' ' :: '=' :: ' ' :: '"' :: (body ++ ['"']) := by
    rw [List.dropWhile_append_of_pos hkey, List.dropWhile_cons_of_neg (by decide)]
  unfold readLine
  rw [hline]
  -- a bare key begins neither a comment nor a header
  split
  next hnil => cases hnil
  next heq =>
    obtain ⟨rfl, -⟩ := List.cons.inj heq
    exact absurd hc (by decide)
  next heq =>
    obtain ⟨rfl, -⟩ := List.cons.inj heq
    exact absurd hc (by decide)
  next =>
    rw [htake, hdrop]
    show (if c :: key = [] then none
      else (readValue ('"' :: (body ++ ['"']))).map (Line.binding (String.ofList (c :: key)))) = _
    rw [if_neg nofun, readValue_quoted h]
    rfl

end TomlText
