import SweGateway.Lib.FirstOccurrence
import SweGateway.Saf.Config

/-!
# The grammar of texts with references

A `Template` is a text in pieces: literals without `${`, with a reference `${e}` after each but the
last, where `e` has no `}`, and perhaps an unterminated `${...` at the end.  The conditions are
fields, so that a template is the only way to read its text (`Template.render_injective`), and every
text can be read (`Template.exists_render`).

`Substitutes env t r` is the reference substitution, one rule for each way it can end: all the
references of `t` have values, which take their places, or the first one without a value is
reported.  `expandEnvVars_refines` says that the scanner of the source does this.
-/

namespace SweGateway

open FirstOccurrence

/-- A text in pieces. -/
structure Template where
  /-- The references, each with the literal before it. -/
  refs : List (List Char × List Char)
  /-- The literal after the references. -/
  last : List Char
  /-- What follows an unterminated `${`. -/
  tail : Option (List Char)
  literal_refs : ∀ p ∈ refs, ¬ refStart <:+: p.1
  expr_refs : ∀ p ∈ refs, '}' ∉ p.2
  literal_last : ¬ refStart <:+: last
  expr_tail : ∀ rest ∈ tail, '}' ∉ rest

/-- The characters before the default of an expression. -/
def defaultStart : List Char := [':', '-']

/-- The expression is a name, or a name and a default behind the first `:-`. -/
inductive Splits (expr : List Char) : List Char → Option (List Char) → Prop
  | plain (h : ¬ defaultStart <:+: expr) : Splits expr expr none
  | default {name fallback : List Char} (hexpr : expr = name ++ (defaultStart ++ fallback))
    (hfirst : ¬ defaultStart <:+: name) : Splits expr name (some fallback)

/-- What an expression stands for: the value of its variable, or else its default.  Without both, it
has no value, and the error is its name. -/
inductive Resolves (env : Env) (expr : List Char) : Except String (List Char) → Prop
  | value {name : List Char} {fallback : Option (List Char)} {val : String}
    (h : Splits expr name fallback) (hset : env (String.ofList name) = some val) :
    Resolves env expr (.ok val.toList)
  | fallback {name fallback : List Char} (h : Splits expr name (some fallback))
    (hunset : env (String.ofList name) = none) : Resolves env expr (.ok fallback)
  | unset {name : List Char} (h : Splits expr name none)
    (hunset : env (String.ofList name) = none) :
    Resolves env expr (.error (String.ofList name))

namespace Template

/-- What an unterminated reference is. -/
def tailText : Option (List Char) → List Char
  | none => []
  | some rest => refStart ++ rest

/-- The text with `f e` in the place of each reference to `e`. -/
def fill (t : Template) (f : List Char → List Char) : List Char :=
  t.refs.flatMap (fun p => p.1 ++ f p.2) ++ (t.last ++ tailText t.tail)

/-- The text itself. -/
def render (t : Template) : List Char := t.fill fun expr => refStart ++ (expr ++ ['}'])

/-- **The reference substitution.** -/
inductive Substitutes (env : Env) (t : Template) : Except ConfigError String → Prop
  /-- All references have values. -/
  | ok {f : List Char → List Char} (h : ∀ p ∈ t.refs, Resolves env p.2 (.ok (f p.2))) :
    Substitutes env t (.ok (String.ofList (t.fill f)))
  /-- The references before this one have values, and this one has none. -/
  | unset {before after : List (List Char × List Char)} {literal expr : List Char} {name : String}
    (hrefs : t.refs = before ++ (literal, expr) :: after)
    (hbefore : ∀ p ∈ before, ∃ val, Resolves env p.2 (.ok val))
    (h : Resolves env expr (.error name)) : Substitutes env t (.error (.envVar name))

end Template

/-! ### Expressions -/

theorem not_defaultStart_nil : ¬ defaultStart <:+: [] := by decide

/-- An expression that does not begin with `:-` and has no `:-` later has none. -/
theorem not_defaultStart_cons {c : Char} {rest name : List Char} (hpre : name <+: rest)
    (hc : ∀ rest', c = ':' → rest = '-' :: rest' → False) (h : ¬ defaultStart <:+: name) :
    ¬ defaultStart <:+: c :: name := by
  intro hin
  rcases List.infix_cons_iff.mp hin with hstart | hlater
  · obtain ⟨hcolon, hdash⟩ := List.cons_prefix_cons.mp hstart
    obtain ⟨rest', hrest⟩ := hdash.trans hpre
    exact hc rest' hcolon.symm hrest.symm
  · exact h hlater

/-- The source splits at the first `:-`. -/
theorem splits_splitDefault (expr : List Char) :
    Splits expr (splitDefault expr).1 (splitDefault expr).2 := by
  fun_induction splitDefault expr with
  | case1 => exact .plain not_defaultStart_nil
  | case2 rest => exact .default rfl not_defaultStart_nil
  | case3 c rest hc ih =>
    generalize splitDefault rest = parts at ih
    obtain ⟨name, fallback⟩ := parts
    cases ih with
    | plain h => exact .plain (not_defaultStart_cons List.prefix_rfl hc h)
    | default hexpr hfirst =>
      refine .default ?_ (not_defaultStart_cons ?_ hc hfirst)
      · rw [hexpr, List.cons_append]
      · exact hexpr ▸ List.prefix_append _ _

/-- An expression is split in one way. -/
theorem Splits.unique {expr name name' : List Char} {fallback fallback' : Option (List Char)}
    (h : Splits expr name fallback) (h' : Splits expr name' fallback') :
    name = name' ∧ fallback = fallback' := by
  have hne : ':' ≠ '-' := by decide
  cases h with
  | plain h =>
    cases h' with
    | plain => exact ⟨rfl, rfl⟩
    | default hexpr' =>
      exact absurd ⟨name', _, by rw [hexpr', List.append_assoc]⟩ h
  | default hexpr hfirst =>
    cases h' with
    | plain h' => exact absurd ⟨name, _, by rw [hexpr, List.append_assoc]⟩ h'
    | default hexpr' hfirst' =>
      obtain ⟨rfl, rfl⟩ := IsBefore.unique (List.cons_ne_nil _ _)
        ((isBefore_pair_iff hne).mpr hfirst) ((isBefore_pair_iff hne).mpr hfirst')
        (hexpr.symm.trans hexpr')
      exact ⟨rfl, rfl⟩

theorem splits_iff {expr name : List Char} {fallback : Option (List Char)} :
    Splits expr name fallback ↔ splitDefault expr = (name, fallback) := by
  constructor
  · intro h
    obtain ⟨hname, hfallback⟩ := (splits_splitDefault expr).unique h
    exact Prod.ext hname hfallback
  · intro h
    have hsplits := splits_splitDefault expr
    rw [h] at hsplits
    exact hsplits

/-- What the source puts in the place of a reference is what its expression stands for. -/
theorem resolves_iff {env : Env} {expr : List Char} {r : Except String (List Char)} :
    Resolves env expr r ↔ reference env expr = r := by
  unfold reference varName
  constructor
  · rintro (⟨h, hset⟩ | ⟨h, hunset⟩ | ⟨h, hunset⟩)
    · rw [splits_iff.mp h, hset]
    · rw [splits_iff.mp h, hunset]
    · rw [splits_iff.mp h, hunset]
  · rintro rfl
    have h := splits_splitDefault expr
    generalize splitDefault expr = parts at h
    obtain ⟨name, fallback⟩ := parts
    rcases hval : env (String.ofList name) with _ | val
    · cases fallback with
      | none => exact .unset h hval
      | some fallback => exact .fallback h hval
    · exact .value h hval

/-! ### Reading a text -/

namespace Template

/-- The template with a reference before it. -/
def cons (literal expr : List Char) (t : Template) (hliteral : ¬ refStart <:+: literal)
    (hexpr : '}' ∉ expr) : Template where
  refs := (literal, expr) :: t.refs
  last := t.last
  tail := t.tail
  literal_refs := List.forall_mem_cons.mpr ⟨hliteral, t.literal_refs⟩
  expr_refs := List.forall_mem_cons.mpr ⟨hexpr, t.expr_refs⟩
  literal_last := t.literal_last
  expr_tail := t.expr_tail

theorem render_cons {literal expr : List Char} {t : Template} (hliteral : ¬ refStart <:+: literal)
    (hexpr : '}' ∉ expr) :
    (cons literal expr t hliteral hexpr).render =
      literal ++ (refStart ++ (expr ++ '}' :: t.render)) := by
  simp only [render, fill, cons, List.flatMap_cons, List.append_assoc, List.cons_append,
    List.nil_append]

/-- The template without references. -/
def ofLast (last : List Char) (tail : Option (List Char)) (hlast : ¬ refStart <:+: last)
    (htail : ∀ rest ∈ tail, '}' ∉ rest) : Template where
  refs := []
  last := last
  tail := tail
  literal_refs := nofun
  expr_refs := nofun
  literal_last := hlast
  expr_tail := htail

theorem render_ofLast {last : List Char} {tail : Option (List Char)}
    (hlast : ¬ refStart <:+: last) (htail : ∀ rest ∈ tail, '}' ∉ rest) :
    (ofLast last tail hlast htail).render = last ++ tailText tail :=
  rfl

/-- Templates are built from their references. -/
@[elab_as_elim]
theorem consRec {motive : Template → Prop}
    (ofLast : ∀ last tail hlast htail, motive (ofLast last tail hlast htail))
    (cons : ∀ literal expr t hliteral hexpr, motive t →
      motive (cons literal expr t hliteral hexpr)) (t : Template) : motive t := by
  obtain ⟨refs, last, tail, hrefs, hexprs, hlast, htail⟩ := t
  induction refs with
  | nil => exact ofLast last tail hlast htail
  | cons p refs ih =>
    obtain ⟨hliteral, hliterals⟩ := List.forall_mem_cons.mp hrefs
    obtain ⟨hexpr, hexprs'⟩ := List.forall_mem_cons.mp hexprs
    exact cons p.1 p.2 _ hliteral hexpr (ih hliterals hexprs')

theorem refStart_ne_nil : refStart ≠ [] := List.cons_ne_nil _ _

theorem isBefore_refStart_iff {literal : List Char} :
    IsBefore refStart literal ↔ ¬ refStart <:+: literal :=
  isBefore_pair_iff (by decide)

/-- A literal ends at the first `${`. -/
theorem literal_unique {literal literal' after after' : List Char}
    (hliteral : ¬ refStart <:+: literal) (hliteral' : ¬ refStart <:+: literal')
    (h : literal ++ (refStart ++ after) = literal' ++ (refStart ++ after')) :
    literal = literal' ∧ after = after' :=
  IsBefore.unique refStart_ne_nil (isBefore_refStart_iff.mpr hliteral)
    (isBefore_refStart_iff.mpr hliteral') h

theorem ne_literal {literal before after : List Char} (h : ¬ refStart <:+: literal) :
    before ++ (refStart ++ after) ≠ literal := by
  rintro rfl
  exact h ⟨before, after, List.append_assoc _ _ _⟩

/-- Every text can be read. -/
theorem exists_render (s : List Char) : ∃ t : Template, t.render = s := by
  induction hlen : s.length using Nat.strong_induction_on generalizing s with
  | _ len ih =>
  by_cases hin : refStart <:+: s
  · obtain ⟨literal, after, rfl, hbefore⟩ := exists_isBefore refStart_ne_nil hin
    have hliteral : ¬ refStart <:+: literal := isBefore_refStart_iff.mp hbefore
    by_cases hclose : '}' ∈ after
    · -- the text goes on behind the reference
      obtain ⟨expr, rest, rfl, hexpr⟩ := List.eq_append_cons_of_mem hclose
      obtain ⟨t, ht⟩ := ih rest.length (by grind) rest rfl
      exact ⟨cons literal expr t hliteral hexpr, by rw [render_cons, ht]⟩
    · refine ⟨ofLast literal (some after) hliteral ?_, rfl⟩
      intro rest hrest
      rw [Option.mem_some_iff.mp hrest] at hclose
      exact hclose
  · exact ⟨ofLast s none hin nofun, List.append_nil s⟩

/-- A text that ends without a reference has none. -/
theorem render_cons_ne_render_ofLast {literal expr last : List Char} {t : Template}
    {tail : Option (List Char)} (hliteral : ¬ refStart <:+: literal) (hexpr : '}' ∉ expr)
    (hlast : ¬ refStart <:+: last) (htail : ∀ rest ∈ tail, '}' ∉ rest) :
    (cons literal expr t hliteral hexpr).render ≠ (ofLast last tail hlast htail).render := by
  rw [render_cons, render_ofLast]
  cases tail with
  | none =>
    rw [tailText, List.append_nil]
    exact ne_literal hlast
  | some rest =>
    intro h
    obtain ⟨-, hrest⟩ := literal_unique hliteral hlast h
    exact htail rest rfl (hrest ▸ List.mem_append_right expr List.mem_cons_self)

/-- A text is read in one way. -/
theorem render_injective {t t' : Template} (h : t.render = t'.render) : t = t' := by
  induction t using consRec generalizing t' with
  | ofLast last tail hlast htail =>
    induction t' using consRec with
    | ofLast last' tail' hlast' htail' =>
      rw [render_ofLast, render_ofLast] at h
      cases tail with
      | none =>
        cases tail' with
        | none =>
          rw [tailText, List.append_nil, List.append_nil] at h
          subst h
          rfl
        | some rest' =>
          rw [tailText, List.append_nil] at h
          exact absurd h.symm (ne_literal hlast)
      | some rest =>
        cases tail' with
        | none =>
          rw [tailText.eq_1, List.append_nil] at h
          exact absurd h (ne_literal hlast')
        | some rest' =>
          obtain ⟨rfl, rfl⟩ := literal_unique hlast hlast' h
          rfl
    | cons literal expr t' hliteral hexpr =>
      exact absurd h.symm (render_cons_ne_render_ofLast hliteral hexpr hlast htail)
  | cons literal expr t hliteral hexpr ih =>
    induction t' using consRec with
    | ofLast last tail hlast htail =>
      exact absurd h (render_cons_ne_render_ofLast hliteral hexpr hlast htail)
    | cons literal' expr' t' hliteral' hexpr' =>
      rw [render_cons, render_cons] at h
      obtain ⟨rfl, hafter⟩ := literal_unique hliteral hliteral' h
      obtain ⟨rfl, hrest⟩ := IsBefore.unique (List.cons_ne_nil _ _)
        (isBefore_singleton_iff.mpr hexpr) (isBefore_singleton_iff.mpr hexpr') hafter
      rw [ih hrest]

end Template

/-! ### The scanner -/

/-- A literal is kept.  What follows it does not complete a `${`. -/
theorem expandFrom_literal (env : Env) {literal rest : List Char} (h : ¬ refStart <:+: literal)
    (hrest : ∀ r, rest ≠ '{' :: r) :
    expandFrom env none (literal ++ rest) = (expandFrom env none rest).map (literal ++ ·) := by
  induction literal with
  | nil =>
    rw [List.nil_append]
    cases expandFrom env none rest <;> rfl
  | cons c literal ih =>
    have hc : ∀ text, c = '$' → literal ++ rest = '{' :: text → False := by
      rintro text rfl htext
      rcases List.append_eq_cons_iff.mp htext with ⟨-, hbrace⟩ | ⟨literal', rfl, -⟩
      · exact hrest text hbrace
      · exact h (List.prefix_append refStart literal').isInfix
    rw [List.cons_append, expandFrom, ih fun hin => h (hin.trans (List.suffix_cons _ _).isInfix)]
    · cases expandFrom env none rest <;> rfl
    · exact hc

/-- A reference is replaced at its `}`. -/
theorem expandFrom_expr (env : Env) {expr : List Char} (h : '}' ∉ expr) (read rest : List Char) :
    expandFrom env (some read) (expr ++ '}' :: rest) = do
      let val ← reference env (read ++ expr)
      let rest ← expandFrom env none rest
      return val ++ rest := by
  induction expr generalizing read with
  | nil => rw [List.nil_append, expandFrom, List.append_nil]
  | cons c expr ih =>
    rw [List.cons_append, expandFrom, ih (List.not_mem_of_not_mem_cons h), List.append_assoc]
    · rfl
    · rintro rfl
      exact h List.mem_cons_self

/-- Without a `}`, the rest is kept. -/
theorem expandFrom_unterminated (env : Env) {rest : List Char} (h : '}' ∉ rest)
    (read : List Char) : expandFrom env (some read) rest = .ok (refStart ++ (read ++ rest)) := by
  induction rest generalizing read with
  | nil => rw [expandFrom, List.append_nil]
  | cons c rest ih =>
    rw [expandFrom, ih (List.not_mem_of_not_mem_cons h), List.append_assoc]
    · rfl
    · rintro rfl
      exact h List.mem_cons_self

namespace Template

variable {env : Env}

theorem expandChars_ofLast {last : List Char} {tail : Option (List Char)}
    (hlast : ¬ refStart <:+: last) (htail : ∀ rest ∈ tail, '}' ∉ rest) :
    expandChars env (ofLast last tail hlast htail).render = .ok (last ++ tailText tail) := by
  rw [expandChars, render_ofLast, expandFrom_literal env hlast]
  · cases tail with
    | none => rfl
    | some rest =>
      rw [tailText, refStart, List.cons_append, List.cons_append, expandFrom, List.nil_append,
        expandFrom_unterminated env (htail rest rfl)]
      rfl
  · cases tail with
    | none => exact nofun
    | some rest => exact fun r hr => absurd (List.cons.inj hr).1 (by decide)

theorem expandChars_cons {literal expr : List Char} {t : Template}
    (hliteral : ¬ refStart <:+: literal) (hexpr : '}' ∉ expr) :
    expandChars env (cons literal expr t hliteral hexpr).render = do
      let val ← reference env expr
      let rest ← expandChars env t.render
      return literal ++ (val ++ rest) := by
  have hrest : ∀ r, refStart ++ (expr ++ '}' :: t.render) ≠ '{' :: r :=
    fun r hr => absurd (List.cons.inj hr).1 (by decide)
  unfold expandChars
  rw [render_cons, expandFrom_literal env hliteral hrest, refStart, List.cons_append,
    List.cons_append, List.nil_append, expandFrom, expandFrom_expr env hexpr, List.nil_append]
  rcases reference env expr with name | val
  · rfl
  · cases expandFrom env none t.render <;> rfl

/-- Where all references have values, these take their places. -/
theorem expandChars_of_ok {f : List Char → List Char} {t : Template}
    (h : ∀ p ∈ t.refs, reference env p.2 = .ok (f p.2)) :
    expandChars env t.render = .ok (t.fill f) := by
  induction t using consRec with
  | ofLast last tail hlast htail => exact expandChars_ofLast hlast htail
  | cons literal expr t hliteral hexpr ih =>
    obtain ⟨hval, hrest⟩ := List.forall_mem_cons.mp h
    rw [expandChars_cons, hval, ih hrest]
    simp only [fill, cons, List.flatMap_cons, List.append_assoc]
    rfl

/-- The first reference without a value is reported. -/
theorem expandChars_of_error {before after : List (List Char × List Char)}
    {literal expr : List Char} {name : String} {t : Template}
    (hrefs : t.refs = before ++ (literal, expr) :: after)
    (hbefore : ∀ p ∈ before, ∃ val, reference env p.2 = .ok val)
    (h : reference env expr = .error name) : expandChars env t.render = .error name := by
  induction t using consRec generalizing before with
  | ofLast last tail hlast htail =>
    exact absurd hrefs.symm (List.append_ne_nil_of_right_ne_nil _ (List.cons_ne_nil _ _))
  | cons literal' expr' t hliteral hexpr ih =>
    rw [expandChars_cons]
    cases before with
    | nil =>
      obtain ⟨hp, -⟩ := List.cons.inj hrefs
      obtain ⟨rfl, rfl⟩ := Prod.mk.inj hp
      rw [h]
      rfl
    | cons p before =>
      obtain ⟨rfl, hrefs'⟩ := List.cons.inj hrefs
      obtain ⟨⟨val, hval⟩, hbefore'⟩ := List.forall_mem_cons.mp hbefore
      rw [hval, ih hrefs' hbefore']
      rfl

/-- What the scanner returns is what the reference substitution allows. -/
theorem Substitutes.eq {t : Template} {r : Except ConfigError String} (h : t.Substitutes env r)
    {s : String} (ht : t.render = s.toList) : expandEnvVars env s = r := by
  unfold expandEnvVars
  rw [← ht]
  cases h with
  | ok h => rw [expandChars_of_ok fun p hp => resolves_iff.mp (h p hp)]; rfl
  | unset hrefs hbefore h =>
    rw [expandChars_of_error hrefs _ (resolves_iff.mp h)]
    · rfl
    · intro p hp
      obtain ⟨val, hval⟩ := hbefore p hp
      exact ⟨val, resolves_iff.mp hval⟩

/-- Either all references have values, or there is a first one without. -/
theorem forall_ok_or_first_error (env : Env) (refs : List (List Char × List Char)) :
    (∀ p ∈ refs, ∃ val, reference env p.2 = .ok val) ∨
      ∃ before literal expr after name, refs = before ++ (literal, expr) :: after ∧
        (∀ p ∈ before, ∃ val, reference env p.2 = .ok val) ∧
        reference env expr = .error name := by
  induction refs with
  | nil => exact .inl nofun
  | cons p refs ih =>
    rcases hp : reference env p.2 with name | val
    · exact .inr ⟨[], p.1, p.2, refs, name, rfl, nofun, hp⟩
    · rcases ih with hall | ⟨before, literal, expr, after, name, rfl, hbefore, herr⟩
      · exact .inl (List.forall_mem_cons.mpr ⟨⟨val, hp⟩, hall⟩)
      · exact .inr ⟨p :: before, literal, expr, after, name, rfl,
          List.forall_mem_cons.mpr ⟨⟨val, hp⟩, hbefore⟩, herr⟩

/-- The reference substitution allows something. -/
theorem exists_substitutes (env : Env) (t : Template) : ∃ r, t.Substitutes env r := by
  rcases forall_ok_or_first_error env t.refs with
    hall | ⟨before, literal, expr, after, name, hrefs, hbefore, herr⟩
  · refine ⟨_, .ok (f := fun expr => (reference env expr).toOption.getD []) fun p hp => ?_⟩
    obtain ⟨val, hval⟩ := hall p hp
    rw [resolves_iff, hval]
    rfl
  · refine ⟨_, .unset hrefs (fun p hp => ?_) (resolves_iff.mpr herr)⟩
    obtain ⟨val, hval⟩ := hbefore p hp
    exact ⟨val, resolves_iff.mpr hval⟩

end Template

/-- **The scanner refines the reference substitution.** Every string is read in exactly one way as
literals, references and an unterminated rest.  Expanding it returns what the reference substitution
says about these pieces, and nothing else.  A string without `${` stays as it is. -/
theorem expandEnvVars_refines (s : String) :
    ∃ t : Template, t.render = s.toList ∧ (∀ t' : Template, t'.render = s.toList → t' = t) ∧
      (∀ env r, expandEnvVars env s = r ↔ t.Substitutes env r) ∧
      (¬ refStart <:+: s.toList → ∀ env, expandEnvVars env s = .ok s) := by
  obtain ⟨t, ht⟩ := Template.exists_render s.toList
  have hunique : ∀ t' : Template, t'.render = s.toList → t' = t :=
    fun t' ht' => Template.render_injective (ht'.trans ht.symm)
  refine ⟨t, ht, hunique, fun env r => ⟨?_, fun h => h.eq ht⟩, fun hplain env => ?_⟩
  · rintro rfl
    obtain ⟨r, h⟩ := Template.exists_substitutes env t
    rw [h.eq ht]
    exact h
  · -- the string is a single literal
    have hlast : Template.ofLast s.toList none hplain nofun = t :=
      hunique _ (List.append_nil s.toList)
    have h : t.Substitutes env (.ok (String.ofList (t.fill id))) := by
      subst hlast
      exact .ok nofun
    rw [h.eq ht, ← hlast]
    exact congrArg Except.ok ((congrArg String.ofList (List.append_nil s.toList)).trans
      String.ofList_toList)

end SweGateway
