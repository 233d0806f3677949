import Mathlib.Data.List.Infix
import Mathlib.Logic.Function.Basic

/-!
# Environment variables in configuration texts (`saf/config.rs`)

`expandEnvVars` replaces the references `${VAR}` and `${VAR:-default}` in a text.  The environment is
a function from names to values.  A value is put in as it is: it is not looked at again, and nothing
is done to it that would depend on where it goes.

The loop of the source, `expandFrom`, goes through the text once and keeps the expression it is in.
The same text, read as a list of `Piece`s, is expanded piece by piece (`expandFrom_eq`).
-/

namespace SweGateway

/-- The values of the environment variables that are set. -/
abbrev Env := String → Option String

/-- The characters that begin a reference. -/
def refStart : List Char := ['$', '{']

/-- An expression in two: the name of a variable, and what follows the first `:-` as a default. -/
def splitDefault : List Char → List Char × Option (List Char)
  | [] => ([], none)
  | ':' :: '-' :: rest => ([], some rest)
  | c :: rest => (c :: (splitDefault rest).1, (splitDefault rest).2)

/-- The variable that an expression refers to. -/
def varName (expr : List Char) : String := String.ofList (splitDefault expr).1

/-- What a reference is replaced by: the value of its variable or its default. -/
def reference (env : Env) (expr : List Char) : Except String (List Char) :=
  match env (varName expr), (splitDefault expr).2 with
  | some val, _ => .ok val.toList
  | none, some fallback => .ok fallback
  | none, none => .error (varName expr)

/-- The loop of `expand_env_vars`: outside of a reference, or inside of one with the expression read
so far.  The error is the name of a variable that is not set. -/
def expandFrom (env : Env) : Option (List Char) → List Char → Except String (List Char)
  | none, [] => .ok []
  -- malformed, reproduced literally
  | some expr, [] => .ok (refStart ++ expr)
  | none, '$' :: '{' :: text => expandFrom env (some []) text
  | none, c :: text => do
    let rest ← expandFrom env none text
    return c :: rest
  | some expr, '}' :: text => do
    let val ← reference env expr
    let rest ← expandFrom env none text
    return val ++ rest
  | some expr, c :: text => expandFrom env (some (expr ++ [c])) text

/-- `expand_env_vars`, on characters. -/
def expandChars (env : Env) (text : List Char) : Except String (List Char) := expandFrom env none text

/-! ### Results -/

theorem bind_eq_ok_iff {ε α β : Type} {x : Except ε α} {f : α → Except ε β} {b : β} :
    (x >>= f) = .ok b ↔ ∃ a, x = .ok a ∧ f a = .ok b := by
  cases x with
  | error e => exact ⟨nofun, fun ⟨_, h, _⟩ => nomatch h⟩
  | ok a =>
    constructor
    · intro h
      exact ⟨a, rfl, h⟩
    · rintro ⟨a', ha', h⟩
      obtain rfl := Except.ok.inj ha'
      exact h

theorem mapError_eq_ok_iff {ε ε' α : Type} {f : ε → ε'} {x : Except ε α} {a : α} :
    x.mapError f = .ok a ↔ x = .ok a := by
  cases x with
  | error e => exact ⟨nofun, nofun⟩
  | ok a' => exact ⟨fun h => congrArg _ (Except.ok.inj h), fun h => congrArg _ (Except.ok.inj h)⟩

theorem toOption_eq_some_iff {ε α : Type} {x : Except ε α} {a : α} :
    x.toOption = some a ↔ x = .ok a := by
  cases x with
  | error e => exact ⟨nofun, nofun⟩
  | ok a' => exact ⟨fun h => congrArg _ (Option.some.inj h), fun h => congrArg _ (Except.ok.inj h)⟩

/-- Results that are the same after a function have both failed, or are values that it does not
tell apart. -/
theorem error_or_ok_of_map_eq {ε α β : Type} {x y : Except ε α} {f : α → β}
    (h : x.map f = y.map f) :
    (∃ e, x = .error e ∧ y = .error e) ∨ ∃ a b, x = .ok a ∧ y = .ok b ∧ f a = f b := by
  cases x with
  | error e =>
    cases y with
    | error e' => exact .inl ⟨e, rfl, congrArg _ (Except.error.inj h).symm⟩
    | ok b => cases h
  | ok a =>
    cases y with
    | error e => cases h
    | ok b => exact .inr ⟨a, b, rfl, rfl, Except.ok.inj h⟩

/-! ### Piece by piece -/

/-- A piece of a text: a character or a reference. -/
inductive Piece where
  | char (c : Char)
  | ref (expr : List Char)
  deriving DecidableEq, Repr

/-- The pieces of a text, outside of a reference or inside of one. -/
def piecesFrom : Option (List Char) → List Char → List Piece
  | none, [] => []
  | some expr, [] => (refStart ++ expr).map .char
  | none, '$' :: '{' :: text => piecesFrom (some []) text
  | none, c :: text => .char c :: piecesFrom none text
  | some expr, '}' :: text => .ref expr :: piecesFrom none text
  | some expr, c :: text => piecesFrom (some (expr ++ [c])) text

/-- What a piece is replaced by. -/
def expandPiece (env : Env) : Piece → Except String (List Char)
  | .char c => .ok [c]
  | .ref expr => reference env expr

/-- What pieces are replaced by. -/
def expandPieces (env : Env) : List Piece → Except String (List Char)
  | [] => .ok []
  | p :: ps => do
    let val ← expandPiece env p
    let rest ← expandPieces env ps
    return val ++ rest

/-- The pieces refer to the variable. -/
def RefersTo (V : String) (ps : List Piece) : Prop := ∃ expr, .ref expr ∈ ps ∧ varName expr = V

theorem expandPieces_chars (env : Env) (text : List Char) :
    expandPieces env (text.map .char) = .ok text := by
  induction text with
  | nil => rfl
  | cons c text ih =>
    rw [List.map_cons, expandPieces, ih]
    rfl

theorem not_refersTo_chars (V : String) (text : List Char) : ¬ RefersTo V (text.map .char) := by
  rintro ⟨expr, hmem, -⟩
  obtain ⟨c, -, hc⟩ := List.mem_map.mp hmem
  cases hc

/-- The loop expands piece by piece. -/
theorem expandFrom_eq (env : Env) (mode : Option (List Char)) (text : List Char) :
    expandFrom env mode text = expandPieces env (piecesFrom mode text) := by
  fun_induction expandFrom env mode text with
  | case1 => rfl
  | case2 expr => exact (expandPieces_chars env _).symm
  | case3 text ih => rw [ih]; rfl
  | case4 c text hne ih =>
    rw [ih, piecesFrom]
    · rfl
    · exact hne
  | case5 expr text ih =>
    rw [ih]
    rfl
  | case6 expr c text hne ih =>
    rw [ih, piecesFrom]
    exact hne

/-! ### One variable -/

/-- The environment with a value for the variable. -/
def Env.set (env : Env) (V v : String) : Env := Function.update env V (some v)

theorem expandPieces_append_ok {env : Env} {ps qs : List Piece} {text : List Char} :
    expandPieces env (ps ++ qs) = .ok text ↔
      ∃ a b, expandPieces env ps = .ok a ∧ expandPieces env qs = .ok b ∧ text = a ++ b := by
  induction ps generalizing text with
  | nil =>
    constructor
    · intro h
      exact ⟨[], text, rfl, h, rfl⟩
    · rintro ⟨a, b, ha, hb, rfl⟩
      obtain rfl : [] = a := Except.ok.inj ha
      exact hb
  | cons p ps ih =>
    show expandPieces env (p :: (ps ++ qs)) = .ok text ↔ _
    simp only [expandPieces, bind_eq_ok_iff, ih]
    constructor
    · rintro ⟨val, hval, rest, ⟨a, b, ha, hb, rfl⟩, htext⟩
      obtain rfl : val ++ (a ++ b) = text := Except.ok.inj htext
      exact ⟨val ++ a, b, ⟨val, hval, a, ha, rfl⟩, hb, (List.append_assoc _ _ _).symm⟩
    · rintro ⟨_, b, ⟨val, hval, a, ha, hva⟩, hb, rfl⟩
      obtain rfl := Except.ok.inj hva
      exact ⟨val, hval, a ++ b, ⟨a, b, ha, hb, rfl⟩,
        congrArg Except.ok (List.append_assoc _ _ _).symm⟩

theorem expandPieces_char_ok {env : Env} {c : Char} {ps : List Piece} {text : List Char} :
    expandPieces env (.char c :: ps) = .ok text ↔
      ∃ b, expandPieces env ps = .ok b ∧ text = c :: b := by
  simp only [expandPieces, bind_eq_ok_iff]
  constructor
  · rintro ⟨val, hval, b, hb, htext⟩
    obtain rfl : [c] = val := Except.ok.inj hval
    exact ⟨b, hb, (Except.ok.inj htext).symm⟩
  · rintro ⟨b, hb, rfl⟩
    exact ⟨[c], rfl, b, hb, rfl⟩

theorem reference_set_of_ne {env : Env} {V v : String} {expr : List Char} (h : varName expr ≠ V) :
    reference (env.set V v) expr = reference env expr := by
  unfold reference Env.set
  rw [Function.update_of_ne h]

/-- Pieces that do not refer to the variable do not depend on it. -/
theorem expandPieces_set {env : Env} {V : String} (v : String) {ps : List Piece}
    (h : ¬ RefersTo V ps) : expandPieces (env.set V v) ps = expandPieces env ps := by
  induction ps with
  | nil => rfl
  | cons p ps ih =>
    have hrest : ¬ RefersTo V ps := fun ⟨expr, hmem, hname⟩ =>
      h ⟨expr, List.mem_cons_of_mem _ hmem, hname⟩
    have hpiece : expandPiece (env.set V v) p = expandPiece env p := by
      cases p with
      | char c => rfl
      | ref expr => exact reference_set_of_ne fun hname => h ⟨expr, List.mem_cons_self, hname⟩
    rw [expandPieces, hpiece, ih hrest, expandPieces]

/-- Whether pieces can be expanded does not depend on the value of a variable that is set. -/
theorem exists_expandPieces_set {env : Env} {V v w : String} {ps : List Piece}
    (h : ∃ text, expandPieces (env.set V v) ps = .ok text) :
    ∃ text, expandPieces (env.set V w) ps = .ok text := by
  induction ps with
  | nil => exact ⟨[], rfl⟩
  | cons p ps ih =>
    simp only [expandPieces, bind_eq_ok_iff] at h ⊢
    obtain ⟨_, val, hval, rest, hrest, -⟩ := h
    obtain ⟨rest', hrest'⟩ := ih ⟨rest, hrest⟩
    have hpiece : ∃ val', expandPiece (env.set V w) p = .ok val' := by
      cases p with
      | char c => exact ⟨[c], rfl⟩
      | ref expr =>
        by_cases hname : varName expr = V
        · -- the variable is set, so a default is not looked at
          refine ⟨w.toList, ?_⟩
          show reference (Function.update env V (some w)) expr = _
          unfold reference
          rw [hname, Function.update_self]
        · refine ⟨val, ?_⟩
          have hval' : reference (env.set V v) expr = .ok val := hval
          show reference (env.set V w) expr = _
          rw [reference_set_of_ne hname] at hval' ⊢
          exact hval'
    obtain ⟨val', hval'⟩ := hpiece
    exact ⟨_, val', hval', rest', hrest', rfl⟩

end SweGateway
