import SweGateway.Lib.Comments
import SweGateway.Saf.Equiv.Expand
import SweGateway.Saf.Equiv.Grammar

/-!
# Comments in configuration texts

The references in a text are expanded before the text is read as TOML, so those in comments are
expanded, too, and a value may begin or end a comment or a string, or bring in a character that TOML
does not allow in comments.  Two texts that are the same without their comments are loaded alike, by
whatever reader ignores the comments that TOML allows, exactly if both cannot be expanded or the
expanded texts are again the same without their comments, or altogether (`SameExpansion`).

`KeepsComments` is a condition for this on each of the two texts: no reference has a part in a
comment, and every value that is put in leaves the reader of TOML where the reference itself leaves
it.  Then the comments can be left out before expanding as well as afterwards (`expandChars_strip`),
and those that are there afterwards are allowed if those of the text and of the values are
(`commentsAll_expandChars`).
-/

namespace SweGateway

open TomlComments (State allowed lexer withoutComments)

/-! ### What loading should do -/

/-- The texts are the same without their comments. -/
def SameButComments (s s' : String) : Prop :=
  withoutComments s.toList = withoutComments s'.toList

/-- TOML allows the comments of the text. -/
def CommentsAllowed (s : String) : Prop := lexer.commentsAll allowed .plain s.toList = true

/-- The texts are the same, or they are but for their comments, which are allowed. -/
def SameToReaders (s s' : String) : Prop :=
  s = s' ∨ (CommentsAllowed s ∧ CommentsAllowed s' ∧ SameButComments s s')

/-- Whether a text can be read, and as what, does not depend on comments that are allowed. -/
def Toml.IgnoresComments (toml : Toml) : Prop :=
  ∀ s s', SameToReaders s s' → (toml.read s).toOption = (toml.read s').toOption

/-- Both texts cannot be expanded, or what they are expanded to is the same to readers. -/
def SameExpansion (env : Env) (s s' : String) : Prop :=
  ((∃ e, expandEnvVars env s = .error e) ∧ ∃ e, expandEnvVars env s' = .error e) ∨
    ∃ r r', expandEnvVars env s = .ok r ∧ expandEnvVars env s' = .ok r' ∧ SameToReaders r r'

/-- A reference as it is written. -/
def refText (expr : List Char) : List Char := refStart ++ (expr ++ ['}'])

/-- No reference has a part in a comment.  A value that takes the place of a reference leaves the
reader where the reference does, and the comments in it are allowed. -/
def KeepsFrom (env : Env) : State → List (List Char × List Char) → Prop
  | _, [] => True
  | st, (literal, expr) :: refs =>
    let before := lexer.run st literal
    let after := lexer.run before (refText expr)
    lexer.strip before (refText expr) = refText expr ∧
      (∀ val, reference env expr = .ok val →
        lexer.run before val = after ∧ lexer.commentsAll allowed before val) ∧
      KeepsFrom env after refs

/-- Expanding the text leaves comments comments, and everything else something else. -/
def KeepsComments (env : Env) (s : String) : Prop :=
  CommentsAllowed s ∧ ∃ t : Template, t.render = s.toList ∧ KeepsFrom env .plain t.refs

/-! ### Expanding without the comments -/

/-- An unterminated reference is not followed by a `}`. -/
theorem close_not_mem {last : List Char} {tail : Option (List Char)}
    (hlast : ¬ refStart <:+: last) (htail : ∀ rest ∈ tail, '}' ∉ rest) {a b : List Char}
    (h : last ++ Template.tailText tail = a ++ (refStart ++ b)) : '}' ∉ b := by
  have hclose : '}' ∉ refStart := by decide
  cases tail with
  | none =>
    rw [Template.tailText, List.append_nil] at h
    exact absurd h.symm (Template.ne_literal hlast)
  | some rest =>
    have hrest := htail rest rfl
    rw [Template.tailText] at h
    intro hb
    rcases List.append_eq_append_iff.mp h with ⟨c, -, htext⟩ | ⟨c, rfl, htext⟩
    · have hmem : '}' ∈ refStart ++ rest := by
        rw [htext]
        exact List.mem_append_right c (List.mem_append_right refStart hb)
      exact (List.mem_append.mp hmem).elim hclose hrest
    · have hmem : '}' ∈ c ++ (refStart ++ rest) := by
        rw [← htext]
        exact List.mem_append_right refStart hb
      have hpre : c <+: refStart ++ b := ⟨_, htext.symm⟩
      rcases List.prefix_or_prefix_of_prefix hpre (List.prefix_append refStart b) with hc | hc
      · rcases List.mem_append.mp hmem with hmem | hmem
        · exact hclose (hc.subset hmem)
        · exact (List.mem_append.mp hmem).elim hclose hrest
      · exact hlast (hc.isInfix.trans (List.suffix_append a c).isInfix)

/-- A text without a whole reference stays as it is. -/
theorem expandChars_eq_self (env : Env) {text : List Char}
    (h : ∀ a b, text = a ++ (refStart ++ b) → '}' ∉ b) : expandChars env text = .ok text := by
  obtain ⟨t, rfl⟩ := Template.exists_render text
  induction t using Template.consRec with
  | ofLast last tail hlast htail => exact Template.expandChars_ofLast hlast htail
  | cons literal expr t hliteral hexpr ih =>
    exact absurd (by simp) (h literal (expr ++ '}' :: t.render) (Template.render_cons _ _))

variable {st : State}

/-- A reference that is there without the comments has been there with them. -/
theorem exists_of_strip_eq_refStart {text a b : List Char}
    (h : lexer.strip st text = a ++ (refStart ++ b)) :
    ∃ a' b' st', text = a' ++ (refStart ++ b') ∧ lexer.strip st' b' = b :=
  Lexer.exists_of_strip_eq_append h (by decide)

theorem not_refStart_strip {literal : List Char} (h : ¬ refStart <:+: literal) (st : State) :
    ¬ refStart <:+: lexer.strip st literal := by
  rintro ⟨a, b, heq⟩
  rw [List.append_assoc] at heq
  obtain ⟨a', b', -, rfl, -⟩ := exists_of_strip_eq_refStart heq.symm
  exact Template.ne_literal h rfl

/-- A reference without a part in a comment neither begins nor ends in one. -/
theorem ne_comment_of_strip_refText {expr : List Char}
    (h : lexer.strip st (refText expr) = refText expr) :
    st ≠ lexer.comment ∧ lexer.run st (refText expr) ≠ lexer.comment := by
  have hst : st ≠ lexer.comment := by
    -- its first character is kept
    rintro rfl
    exact absurd (Lexer.eq_newline_of_strip_comment h) (by decide)
  exact ⟨hst, Lexer.run_ne_comment hst h⟩

/-- **Expanding** a text without its comments gives, without comments, what expanding the text
gives. -/
theorem expandChars_strip (env : Env) (t : Template) (h : KeepsFrom env st t.refs) :
    (expandChars env (lexer.strip st t.render)).map (lexer.strip st) =
      (expandChars env t.render).map (lexer.strip st) := by
  -- on the references, with the state in which the reader comes to the next of them
  induction t using Template.consRec generalizing st with
  | ofLast last tail hlast htail =>
    rw [Template.expandChars_ofLast, Template.render_ofLast, expandChars_eq_self]
    · exact congrArg Except.ok (Lexer.strip_strip st _)
    · intro a b hstrip
      obtain ⟨a', b', st', htext, rfl⟩ := exists_of_strip_eq_refStart hstrip
      exact fun hmem => close_not_mem hlast htail htext ((Lexer.strip_sublist st' b').subset hmem)
  | cons literal expr t hliteral hexpr ih =>
    obtain ⟨hkept, hval, hrest⟩ := h
    obtain ⟨hbefore, -⟩ := ne_comment_of_strip_refText hkept
    set before := lexer.run st literal with hbefore_def
    set after := lexer.run before (refText expr) with hafter
    -- the text without its comments, piece by piece
    obtain ⟨t', ht'⟩ := Template.exists_render (lexer.strip after t.render)
    have hstrip : lexer.strip st (Template.cons literal expr t hliteral hexpr).render =
        (Template.cons (lexer.strip st literal) expr t' (not_refStart_strip hliteral st)
          hexpr).render := by
      have hsplit : (Template.cons literal expr t hliteral hexpr).render =
          literal ++ (refText expr ++ t.render) := by
        rw [Template.render_cons, refText]
        simp
      rw [hsplit, Lexer.strip_append, Lexer.strip_append, ← hbefore_def, hkept, ← hafter,
        Template.render_cons, ht', refText]
      simp
    have hrun : lexer.run st (lexer.strip st literal) = before := Lexer.run_strip hbefore
    rw [hstrip, Template.expandChars_cons, Template.expandChars_cons, ht']
    rcases hreference : reference env expr with name | val
    · rfl
    · have hpieces : ∀ text, lexer.strip st (literal ++ (val ++ text)) =
          lexer.strip st literal ++ (lexer.strip before val ++ lexer.strip after text) := by
        intro text
        rw [Lexer.strip_append, Lexer.strip_append, ← hbefore_def, (hval val hreference).1]
      have hpieces' : ∀ text, lexer.strip st (lexer.strip st literal ++ (val ++ text)) =
          lexer.strip st literal ++ (lexer.strip before val ++ lexer.strip after text) := by
        intro text
        rw [Lexer.strip_append, Lexer.strip_append, hrun, (hval val hreference).1,
          Lexer.strip_strip]
      rcases error_or_ok_of_map_eq (ih hrest) with ⟨e, hleft, hright⟩ | ⟨r, r', hleft, hright, heq⟩
      · rw [hleft, hright]
        rfl
      · rw [hleft, hright]
        show Except.ok (lexer.strip st (lexer.strip st literal ++ (val ++ r))) =
          Except.ok (lexer.strip st (literal ++ (val ++ r')))
        rw [hpieces, hpieces', heq]

/-- **The comments** of an expanded text are allowed if those of the text are. -/
theorem commentsAll_expandChars (env : Env) (t : Template) (h : KeepsFrom env st t.refs)
    (hall : lexer.commentsAll allowed st t.render = true) {r : List Char}
    (hr : expandChars env t.render = .ok r) : lexer.commentsAll allowed st r = true := by
  induction t using Template.consRec generalizing st r with
  | ofLast last tail hlast htail =>
    rw [Template.expandChars_ofLast] at hr
    rwa [← Except.ok.inj hr]
  | cons literal expr t hliteral hexpr ih =>
    obtain ⟨hkept, hval, hrest⟩ := h
    obtain ⟨hbefore, hafter⟩ := ne_comment_of_strip_refText hkept
    have hsplit : (Template.cons literal expr t hliteral hexpr).render =
        literal ++ (refText expr ++ t.render) := by
      rw [Template.render_cons, refText]
      simp
    rw [hsplit, Lexer.commentsAll_append allowed _ hbefore,
      Lexer.commentsAll_append allowed _ hafter, Bool.and_eq_true, Bool.and_eq_true] at hall
    obtain ⟨hliteral', -, htext⟩ := hall
    rw [Template.expandChars_cons] at hr
    simp only [bind_eq_ok_iff] at hr
    obtain ⟨val, hreference, rest, hexpand, hr⟩ := hr
    obtain rfl := Except.ok.inj hr
    obtain ⟨hrun, hvalue⟩ := hval val hreference
    rw [Lexer.commentsAll_append allowed _ hbefore,
      Lexer.commentsAll_append allowed _ (hrun ▸ hafter), Bool.and_eq_true, Bool.and_eq_true, hrun]
    exact ⟨hliteral', hvalue, ih hrest htext hexpand⟩

theorem expandEnvVars_of_ok {env : Env} {s : String} {text : List Char}
    (h : expandChars env s.toList = .ok text) :
    expandEnvVars env s = .ok (String.ofList text) := by
  rw [expandEnvVars, h]
  rfl

theorem expandEnvVars_of_error {env : Env} {s name : String}
    (h : expandChars env s.toList = .error name) : ∃ e, expandEnvVars env s = .error e := by
  rw [expandEnvVars, h]
  exact ⟨_, rfl⟩

/-- Texts that keep their comments are expanded alike. -/
theorem sameExpansion_of_keepsComments {env : Env} {s s' : String} (hsame : SameButComments s s')
    (h : KeepsComments env s) (h' : KeepsComments env s') : SameExpansion env s s' := by
  obtain ⟨hallowed, t, ht, hkeeps⟩ := h
  obtain ⟨hallowed', t', ht', hkeeps'⟩ := h'
  have heq : (expandChars env s.toList).map withoutComments =
      (expandChars env s'.toList).map withoutComments := by
    rw [← ht, ← ht']
    refine (expandChars_strip env t hkeeps).symm.trans ?_
    refine Eq.trans ?_ (expandChars_strip env t' hkeeps')
    rw [ht, ht']
    exact congrArg (fun text => (expandChars env text).map withoutComments) hsame
  rcases error_or_ok_of_map_eq heq with ⟨name, hs, hs'⟩ | ⟨text, text', hs, hs', htext⟩
  · exact .inl ⟨expandEnvVars_of_error hs, expandEnvVars_of_error hs'⟩
  · refine .inr ⟨_, _, expandEnvVars_of_ok hs, expandEnvVars_of_ok hs', .inr ?_⟩
    rw [CommentsAllowed, ← ht] at hallowed
    rw [CommentsAllowed, ← ht'] at hallowed'
    rw [← ht] at hs
    rw [← ht'] at hs'
    rw [SameButComments, CommentsAllowed, CommentsAllowed, String.toList_ofList,
      String.toList_ofList]
    exact ⟨commentsAll_expandChars env t hkeeps hallowed hs,
      commentsAll_expandChars env t' hkeeps' hallowed' hs', htext⟩

/-! ### Loading -/

theorem load_of_expand {env : Env} {toml : Toml} {s r : String} (h : expandEnvVars env s = .ok r) :
    loadConfigFromStr env toml s =
      ((toml.fromStr r).mapError ConfigError.parse >>= fun c => c.expandEnv env) := by
  rw [loadConfigFromStr, h]
  rfl

theorem load_ne_ok_of_expand {env : Env} {toml : Toml} {s : String} {e : ConfigError}
    (h : expandEnvVars env s = .error e) (c : GatewayConfig) :
    loadConfigFromStr env toml s ≠ .ok c := by
  rw [loadConfigFromStr, h]
  exact nofun

/-- The table without entries is a configuration without references. -/
theorem exists_default : ∃ c, GatewayConfig.codec.decode (.table []) = .ok c ∧
    ∀ field ∈ GatewayConfig.sensitive, field c = none := by
  have hsensitive : (GatewayConfig.codec.decode (.table [])).toOption.map
      (fun c => GatewayConfig.sensitive.map (· c)) = some (List.replicate 8 none) := by
    decide +kernel
  obtain ⟨c, hc, hfields⟩ := exists_ok_of_map hsensitive
  refine ⟨c, hc, fun field hmem => ?_⟩
  have hin : field c ∈ List.replicate 8 none := hfields ▸ List.mem_map_of_mem hmem
  exact List.eq_of_mem_replicate hin

/-- A reader that takes the accepted texts for the table without entries. -/
def onlyToml (accepted : String → Bool) : Toml where
  write _ := .error "unsupported"
  read text := if accepted text then .ok (.table []) else .error "expected nothing"

/-- Such a reader loads what is expanded to an accepted text. -/
theorem exists_load_onlyToml (env : Env) (accepted : String → Bool) {s r : String}
    (hr : expandEnvVars env s = .ok r) (haccepted : accepted r = true) :
    ∃ c, loadConfigFromStr env (onlyToml accepted) s = .ok c := by
  obtain ⟨c, hc, hfields⟩ := exists_default
  have hread : (onlyToml accepted).fromStr r = .ok c := by
    rw [Toml.fromStr, onlyToml]
    dsimp only
    rw [if_pos haccepted]
    show (GatewayConfig.codec.decode (.table [])).mapError TomlError.data = .ok c
    rw [hc]
    rfl
  refine ⟨c, (load_eq_ok_iff env _ s r c hr hread).2 fun field hmem val hval => ?_⟩
  rw [hfields field hmem] at hval
  cases hval

theorem ignoresComments_onlyToml (accepted : String → Bool)
    (h : ∀ s s', SameToReaders s s' → accepted s = accepted s') :
    (onlyToml accepted).IgnoresComments := by
  intro s s' hsame
  rw [onlyToml]
  dsimp only
  rw [h s s' hsame]

instance (s : String) : Decidable (CommentsAllowed s) := inferInstanceAs (Decidable (_ = true))

instance (s s' : String) : Decidable (SameButComments s s') := inferInstanceAs (Decidable (_ = _))

instance (s s' : String) : Decidable (SameToReaders s s') := inferInstanceAs (Decidable (_ ∨ _))

/-- Texts that are the same to readers are so to whom the same texts are accepted. -/
theorem sameToReaders_congr (r : String) {s s' : String} (h : SameToReaders s s') :
    SameToReaders r s ↔ SameToReaders r s' := by
  have htrans : ∀ {a b}, SameToReaders a b → SameToReaders r a → SameToReaders r b := by
    rintro a b (rfl | ⟨ha, hb, hab⟩) hr
    · exact hr
    rcases hr with rfl | ⟨hr, -, hra⟩
    · exact .inr ⟨ha, hb, hab⟩
    · exact .inr ⟨hr, hb, hra.trans hab⟩
  refine ⟨htrans h, htrans ?_⟩
  exact h.imp Eq.symm fun ⟨hs, hs', hsame⟩ => ⟨hs', hs, hsame.symm⟩

/-- Texts that are loaded alike are expanded alike. -/
theorem sameExpansion_of_load {env : Env} {s s' : String}
    (h : ∀ toml : Toml, toml.IgnoresComments → ∀ c,
      loadConfigFromStr env toml s = .ok c ↔ loadConfigFromStr env toml s' = .ok c) :
    SameExpansion env s s' := by
  -- a reader that accepts everything tells what can be expanded
  have hall := ignoresComments_onlyToml (fun _ => true) fun _ _ _ => rfl
  cases hr : expandEnvVars env s with
  | error e =>
    cases hr' : expandEnvVars env s' with
    | error e' => exact .inl ⟨⟨e, hr⟩, e', hr'⟩
    | ok r' =>
      obtain ⟨c, hc⟩ := exists_load_onlyToml env (fun _ => true) hr' rfl
      exact absurd ((h _ hall c).mpr hc) (load_ne_ok_of_expand hr c)
  | ok r =>
    cases hr' : expandEnvVars env s' with
    | error e' =>
      obtain ⟨c, hc⟩ := exists_load_onlyToml env (fun _ => true) hr rfl
      exact absurd ((h _ hall c).mp hc) (load_ne_ok_of_expand hr' c)
    | ok r' =>
      -- a reader that accepts what is the same as the first text
      let accepted : String → Bool := fun text => decide (SameToReaders r text)
      have hignores : (onlyToml accepted).IgnoresComments :=
        ignoresComments_onlyToml _ fun a b hab => decide_eq_decide.mpr (sameToReaders_congr r hab)
      obtain ⟨c, hc⟩ := exists_load_onlyToml env accepted hr (decide_eq_true (.inl rfl))
      have hc' := (h _ hignores c).mp hc
      refine .inr ⟨r, r', hr, hr', ?_⟩
      by_contra hne
      have hrejected : accepted r' = false := decide_eq_false hne
      rw [load_of_expand hr', Toml.fromStr, onlyToml] at hc'
      dsimp only at hc'
      rw [hrejected] at hc'
      cases hc'

theorem fromStr_eq_ok_iff {toml : Toml} {s s' : String}
    (h : (toml.read s).toOption = (toml.read s').toOption) (c : GatewayConfig) :
    toml.fromStr s = .ok c ↔ toml.fromStr s' = .ok c := by
  have hread : ∀ v, toml.read s = .ok v ↔ toml.read s' = .ok v := by
    intro v
    rw [← toOption_eq_some_iff, h, toOption_eq_some_iff]
  simp only [Toml.fromStr, bind_eq_ok_iff, mapError_eq_ok_iff, hread]

/-- Texts that are expanded alike are loaded alike. -/
theorem load_iff_of_sameExpansion {env : Env} {s s' : String} (h : SameExpansion env s s')
    {toml : Toml} (htoml : toml.IgnoresComments) (c : GatewayConfig) :
    loadConfigFromStr env toml s = .ok c ↔ loadConfigFromStr env toml s' = .ok c := by
  rcases h with ⟨⟨e, he⟩, e', he'⟩ | ⟨r, r', hr, hr', hsame⟩
  · exact iff_of_false (load_ne_ok_of_expand he c) (load_ne_ok_of_expand he' c)
  · have hread := fromStr_eq_ok_iff (htoml r r' hsame)
    simp only [load_of_expand hr, load_of_expand hr', bind_eq_ok_iff, mapError_eq_ok_iff, hread]

/-- **Comments and loading.**  Two texts that are the same without their comments are loaded alike by
every reader of TOML that ignores allowed comments exactly if they are expanded alike; and they are
if both keep their comments. -/
theorem load_sameButComments (env : Env) {s s' : String} (hsame : SameButComments s s') :
    ((∀ toml : Toml, toml.IgnoresComments → ∀ c,
        loadConfigFromStr env toml s = .ok c ↔ loadConfigFromStr env toml s' = .ok c) ↔
      SameExpansion env s s') ∧
    (KeepsComments env s → KeepsComments env s' → SameExpansion env s s') := by
  refine ⟨⟨sameExpansion_of_load, fun h toml htoml c => ?_⟩, sameExpansion_of_keepsComments hsame⟩
  exact load_iff_of_sameExpansion h htoml c

/-- A comment behind a string with a reference. -/
theorem load_sameButComments_string :
    let s := "a = \"${V}\" # one"
    let s' := "a = \"${V}\" # two"
    ∀ toml : Toml, toml.IgnoresComments → ∀ c,
      loadConfigFromStr (singleEnv "V" "val") toml s = .ok c ↔
        loadConfigFromStr (singleEnv "V" "val") toml s' = .ok c := by
  intro s s'
  have hsame : SameButComments s s' := by
    unfold SameButComments
    decide +kernel
  have hkeeps : ∀ last : List Char, ¬ refStart <:+: last →
      CommentsAllowed (String.ofList ("a = \"${V}".toList ++ last)) →
      KeepsComments (singleEnv "V" "val") (String.ofList ("a = \"${V}".toList ++ last)) := by
    intro last hlast hallowed
    refine ⟨hallowed, .cons "a = \"".toList "V".toList (.ofLast last none hlast nofun) (by decide)
      (by decide), ?_, ?_⟩
    · refine (Template.render_cons _ _).trans ?_
      rw [Template.render_ofLast, Template.tailText, List.append_nil]
      exact String.toList_ofList.symm
    · refine ⟨by decide +kernel, fun val hval => ?_, trivial⟩
      obtain rfl : "val".toList = val := Except.ok.inj hval
      exact ⟨by decide +kernel, by decide +kernel⟩
  have h := load_sameButComments (singleEnv "V" "val") hsame
  exact h.1.mpr (h.2 (hkeeps "\" # one".toList (by decide) (by decide +kernel))
    (hkeeps "\" # two".toList (by decide) (by decide +kernel)))

/-- A reference in a comment to a variable that is not set. -/
theorem not_load_sameButComments :
    ¬ ∀ (env : Env) (toml : Toml), toml.IgnoresComments → ∀ s s', CommentsAllowed s →
      CommentsAllowed s' → SameButComments s s' →
        ∀ c, loadConfigFromStr env toml s = .ok c ↔ loadConfigFromStr env toml s' = .ok c := by
  intro h
  let blank : Toml := onlyToml fun text => decide (SameToReaders "# a" text)
  have hignores : blank.IgnoresComments :=
    ignoresComments_onlyToml _ fun a b hab => decide_eq_decide.mpr (sameToReaders_congr "# a" hab)
  have hsame : SameButComments "# a" "# ${V}" := by
    unfold SameButComments
    decide +kernel
  have hplain : expandEnvVars (fun _ => none) "# a" = .ok "# a" := by decide +kernel
  have hunset : expandEnvVars (fun _ => none) "# ${V}" = .error (.envVar "V") := by decide +kernel
  obtain ⟨c, hc⟩ := exists_load_onlyToml (fun _ => none)
    (fun text => decide (SameToReaders "# a" text)) hplain (decide_eq_true (.inl rfl))
  have hiff := h (fun _ => none) blank hignores "# a" "# ${V}" (by decide +kernel)
    (by decide +kernel) hsame c
  exact load_ne_ok_of_expand hunset c (hiff.mp hc)

end SweGateway
