import SweGateway.Saf.Equiv.Fields

/-!
# What an environment variable can reach

A value of the environment is put into the text before the text is read, so a quote in it ends the
string that it is put in, and what follows is read as TOML (`reaches_host`).

`nonInterference` is about a variable that a text refers to only inside of one basic string, and two
values with which the string does not end early (`OnlyInside.StaysInside`).  Then the configurations
agree but for this string.  The other sensitive fields must not refer to the variable when they are
expanded once more, which they can do without a reference in the text: `\u0024` is read as a dollar.

Whether something can be loaded at all does not depend on the value either, unless it has to be the
name of a variant, or is expanded once more.
-/

namespace SweGateway

open Serde

/-! ### Reading the expanded text -/

/-- A text with a basic string in it: what is before it, between the quotes and after it. -/
def quoted (before body after : List Char) : String :=
  String.ofList (before ++ '"' :: (body ++ '"' :: after))

/-- Between the two texts there is a basic string, which is what the document has at the path: whatever
is between the quotes, as long as it is a basic string. -/
def Toml.StringAt (toml : Toml) (path : List String) (before after : List Char) : Prop :=
  (∀ body x, TomlText.unescape body = some x →
    ∃ e, toml.read (quoted before body after) = .error e) ∨
  ∃ hole : Hole path, ∀ body x, TomlText.unescape body = some x →
    toml.read (quoted before body after) = .ok (hole.fill (String.ofList x))

/-- What the expanded text is read as, before the sensitive fields are expanded. -/
def parseExpanded (env : Env) (toml : Toml) (s : String) : Except ConfigError GatewayConfig := do
  let expanded ← expandEnvVars env s
  (toml.fromStr expanded).mapError .parse

theorem load_eq_ok_iff_parse {env : Env} {toml : Toml} {s : String} {c : GatewayConfig} :
    loadConfigFromStr env toml s = .ok c ↔
      ∃ c₀, parseExpanded env toml s = .ok c₀ ∧ c₀.expandEnv env = .ok c := by
  simp only [loadConfigFromStr, parseExpanded, bind_eq_ok_iff, mapError_eq_ok_iff]
  constructor
  · rintro ⟨expanded, hexpanded, c₀, hc₀, h⟩
    exact ⟨c₀, ⟨expanded, hexpanded, hc₀⟩, h⟩
  · rintro ⟨c₀, ⟨expanded, hexpanded, hc₀⟩, h⟩
    exact ⟨expanded, hexpanded, c₀, hc₀, h⟩

theorem parseExpanded_eq_ok_iff {env : Env} {toml : Toml} {s : String} {c : GatewayConfig} :
    parseExpanded env toml s = .ok c ↔ ∃ text v,
      expandPieces env (piecesFrom none s.toList) = .ok text ∧
      toml.read (String.ofList text) = .ok v ∧ GatewayConfig.codec.decode v = .ok c := by
  have hexpand (expanded : String) : expandEnvVars env s = .ok expanded ↔
      ∃ text, expandPieces env (piecesFrom none s.toList) = .ok text ∧
        String.ofList text = expanded := by
    unfold expandEnvVars expandChars
    rw [mapError_eq_ok_iff, expandFrom_eq]
    cases expandPieces env (piecesFrom none s.toList) with
    | error e => exact ⟨nofun, fun ⟨_, h, _⟩ => nomatch h⟩
    | ok text =>
      constructor
      · intro h
        exact ⟨text, rfl, Except.ok.inj h⟩
      · rintro ⟨text', htext, rfl⟩
        obtain rfl := Except.ok.inj htext
        rfl
  simp only [parseExpanded, Toml.fromStr, bind_eq_ok_iff, mapError_eq_ok_iff, hexpand]
  constructor
  · rintro ⟨_, ⟨text, htext, rfl⟩, v, hread, hdecode⟩
    exact ⟨text, v, htext, hread, hdecode⟩
  · rintro ⟨text, v, htext, hread, hdecode⟩
    exact ⟨_, ⟨text, htext, rfl⟩, v, hread, hdecode⟩

/-! ### A variable in a string -/

/-- The text refers to the variable only inside of one basic string, which is the value at the path.
The references around the string are replaced before the text is read. -/
structure OnlyInside (toml : Toml) (env : Env) (V : String) (path : List String) (s : String) where
  before : List Piece
  inside : List Piece
  after : List Piece
  pieces_eq : piecesFrom none s.toList =
    before ++ .char '"' :: (inside ++ .char '"' :: after)
  not_before : ¬ RefersTo V before
  not_after : ¬ RefersTo V after
  isString : ∀ l r, expandPieces env before = .ok l → expandPieces env after = .ok r →
    toml.StringAt path l r

namespace OnlyInside

variable {toml : Toml} {env : Env} {V : String} {path : List String} {s : String}

/-- The string has the value `x` if the variable has the value `v`. -/
def HasValue (t : OnlyInside toml env V path s) (v : String) (x : List Char) : Prop :=
  ∃ body, expandPieces (env.set V v) t.inside = .ok body ∧ TomlText.unescape body = some x

/-- With the value `v` of the variable, what is between the quotes is a basic string. -/
def StaysInside (t : OnlyInside toml env V path s) (v : String) : Prop :=
  ∀ body, expandPieces (env.set V v) t.inside = .ok body → ∃ x, TomlText.unescape body = some x

theorem expand_eq_ok_iff (t : OnlyInside toml env V path s) (v : String) (text : List Char) :
    expandPieces (env.set V v) (piecesFrom none s.toList) = .ok text ↔
      ∃ l body r, expandPieces env t.before = .ok l ∧
        expandPieces (env.set V v) t.inside = .ok body ∧ expandPieces env t.after = .ok r ∧
        text = l ++ '"' :: (body ++ '"' :: r) := by
  simp only [t.pieces_eq, expandPieces_append_ok, expandPieces_char_ok,
    expandPieces_set v t.not_before, expandPieces_set v t.not_after]
  constructor
  · rintro ⟨l, _, hl, ⟨_, ⟨body, _, hbody, ⟨r, hr, rfl⟩, rfl⟩, rfl⟩, rfl⟩
    exact ⟨l, body, r, hl, hbody, hr, rfl⟩
  · rintro ⟨l, body, r, hl, hbody, hr, rfl⟩
    exact ⟨l, _, hl, ⟨_, ⟨body, _, hbody, ⟨r, hr, rfl⟩, rfl⟩, rfl⟩, rfl⟩

/-- What is read of the text, where the expansions of its parts are known. -/
theorem parse_eq_ok_iff (t : OnlyInside toml env V path s) {v : String} {l body r : List Char}
    (hl : expandPieces env t.before = .ok l)
    (hbody : expandPieces (env.set V v) t.inside = .ok body)
    (hr : expandPieces env t.after = .ok r) {c : GatewayConfig} :
    parseExpanded (env.set V v) toml s = .ok c ↔
      ∃ d, toml.read (quoted l body r) = .ok d ∧ GatewayConfig.codec.decode d = .ok c := by
  rw [parseExpanded_eq_ok_iff]
  constructor
  · rintro ⟨text, d, htext, hread, hdecode⟩
    obtain ⟨l', body', r', hl', hbody', hr', rfl⟩ := (t.expand_eq_ok_iff v text).mp htext
    obtain rfl := Except.ok.inj (hl.symm.trans hl')
    obtain rfl := Except.ok.inj (hr.symm.trans hr')
    obtain rfl := Except.ok.inj (hbody.symm.trans hbody')
    exact ⟨d, hread, hdecode⟩
  · rintro ⟨d, hread, hdecode⟩
    have htext := (t.expand_eq_ok_iff v _).mpr ⟨l, body, r, hl, hbody, hr, rfl⟩
    exact ⟨_, d, htext, hread, hdecode⟩

/-- Either nothing is read of the text, or there is a document that is read of it for every value,
with a string that depends on the value. -/
theorem parse_cases (t : OnlyInside toml env V path s) :
    (∀ v c, t.StaysInside v → parseExpanded (env.set V v) toml s ≠ .ok c) ∨
    ∃ hole : Hole path, ∀ v, t.StaysInside v → ∃ x, t.HasValue v x ∧
      ∀ c, parseExpanded (env.set V v) toml s = .ok c ↔
        GatewayConfig.codec.decode (hole.fill (String.ofList x)) = .ok c := by
  by_cases hexpand : ∃ l r, expandPieces env t.before = .ok l ∧ expandPieces env t.after = .ok r ∧
      ∃ v body, expandPieces (env.set V v) t.inside = .ok body
  · obtain ⟨l, r, hl, hr, v₀, hv₀⟩ := hexpand
    -- if the string can be expanded for one value, it can be for every value
    have hstring : ∀ v, t.StaysInside v → ∃ body x,
        expandPieces (env.set V v) t.inside = .ok body ∧ TomlText.unescape body = some x := by
      intro v hstays
      obtain ⟨body, hbody⟩ := exists_expandPieces_set (w := v) hv₀
      obtain ⟨x, hx⟩ := hstays body hbody
      exact ⟨body, x, hbody, hx⟩
    rcases t.isString l r hl hr with hnone | ⟨hole, hhole⟩
    · -- the text around the string is not TOML
      refine .inl fun v c hstays hc => ?_
      obtain ⟨body, x, hbody, hx⟩ := hstring v hstays
      obtain ⟨d, hread, -⟩ := (t.parse_eq_ok_iff hl hbody hr).mp hc
      obtain ⟨e, he⟩ := hnone body x hx
      rw [he] at hread
      cases hread
    · refine .inr ⟨hole, fun v hstays => ?_⟩
      obtain ⟨body, x, hbody, hx⟩ := hstring v hstays
      refine ⟨x, ⟨body, hbody, hx⟩, fun c => ?_⟩
      rw [t.parse_eq_ok_iff hl hbody hr, hhole body x hx]
      constructor
      · rintro ⟨d, hd, hdecode⟩
        obtain rfl := Except.ok.inj hd
        exact hdecode
      · intro hdecode
        exact ⟨_, rfl, hdecode⟩
  · -- another variable is not set, so that the text is not expanded
    refine .inl fun v c _ hc => hexpand ?_
    obtain ⟨text, d, htext, -, -⟩ := parseExpanded_eq_ok_iff.mp hc
    obtain ⟨l, body, r, hl, hbody, hr, -⟩ := (t.expand_eq_ok_iff v text).mp htext
    exact ⟨l, r, hl, hr, v, body, hbody⟩

/-- The string is not expanded once more: it is no sensitive field, or nothing in it begins a
reference. -/
def NotExpandedAgain (t : OnlyInside toml env V path s) (v : String) : Prop :=
  ∀ q ∈ GatewayConfig.sensitiveParts, q.path = path → ∀ x, t.HasValue v x → ¬ refStart <:+: x

/-- What is read for two values agrees but for the string. -/
theorem agreesBut_of_parse (t : OnlyInside toml env V path s) {v₁ v₂ : String}
    (h₁ : t.StaysInside v₁) (h₂ : t.StaysInside v₂) {c₁ c₂ : GatewayConfig}
    (hc₁ : parseExpanded (env.set V v₁) toml s = .ok c₁)
    (hc₂ : parseExpanded (env.set V v₂) toml s = .ok c₂) :
    GatewayConfig.codec.agreesBut path c₁ c₂ := by
  rcases t.parse_cases with hnone | ⟨hole, hhole⟩
  · exact absurd hc₁ (hnone v₁ c₁ h₁)
  · obtain ⟨x₁, -, hparse₁⟩ := hhole v₁ h₁
    obtain ⟨x₂, -, hparse₂⟩ := hhole v₂ h₂
    exact GatewayConfig.codec.agreesBut_of_decode (hole.sameBut _ _) ((hparse₁ c₁).mp hc₁)
      ((hparse₂ c₂).mp hc₂)

/-- Where the string may be any string, something is read for both values or for none. -/
theorem exists_parse (t : OnlyInside toml env V path s) {v₁ v₂ : String}
    (h₁ : t.StaysInside v₁) (h₂ : t.StaysInside v₂) (hany : path ∉ GatewayConfig.enumerations)
    (h : ∃ c₁, parseExpanded (env.set V v₁) toml s = .ok c₁) :
    ∃ c₂, parseExpanded (env.set V v₂) toml s = .ok c₂ := by
  obtain ⟨c₁, hc₁⟩ := h
  rcases t.parse_cases with hnone | ⟨hole, hhole⟩
  · exact absurd hc₁ (hnone v₁ c₁ h₁)
  · obtain ⟨x₁, -, hparse₁⟩ := hhole v₁ h₁
    obtain ⟨x₂, -, hparse₂⟩ := hhole v₂ h₂
    have htakes := (GatewayConfig.takesAny_iff path).mpr hany
    obtain ⟨c₂, hc₂⟩ := (GatewayConfig.codec.reads_iff htakes (hole.sameBut _ _)).mp
      ⟨c₁, (hparse₁ c₁).mp hc₁⟩
    exact ⟨c₂, (hparse₂ c₂).mpr hc₂⟩

/-- A sensitive field at the path is what the string is read as. -/
theorem not_refStart_of_parse (t : OnlyInside toml env V path s) {v : String}
    (h : t.StaysInside v) (hplain : t.NotExpandedAgain v) {c : GatewayConfig}
    (hc : parseExpanded (env.set V v) toml s = .ok c) {q : StringPart GatewayConfig.struct}
    (hq : q ∈ GatewayConfig.sensitiveParts) (hpath : path = q.path) {val : String}
    (hval : q.get c = some val) : ¬ refStart <:+: val.toList := by
  subst hpath
  rcases t.parse_cases with hnone | ⟨hole, hhole⟩
  · exact absurd hc (hnone v c h)
  · obtain ⟨x, hx, hparse⟩ := hhole v h
    have hget := q.get_of_decode ((hparse c).mp hc) (hole.follow_fill _)
    obtain rfl : String.ofList x = val := Option.some.inj (hget.symm.trans hval)
    rw [String.toList_ofList]
    exact hplain q hq rfl x hx

end OnlyInside

/-- The sensitive fields other than the one at the path do not refer to the variable, as they are
read for the value `v`. -/
def OthersRefrain (toml : Toml) (env : Env) (V : String) (path : List String) (s v : String) :
    Prop :=
  ∀ c, parseExpanded (env.set V v) toml s = .ok c → ∀ q ∈ GatewayConfig.sensitiveParts,
    path ≠ q.path → ∀ val, q.get c = some val → ¬ RefersTo V (piecesFrom none val.toList)

theorem expandOpt_set {env : Env} {V v w : String} {o : Option String}
    (h : ∀ val, o = some val → ¬ RefersTo V (piecesFrom none val.toList)) :
    expandOpt (env.set V v) o = expandOpt (env.set V w) o := by
  cases o with
  | none => rfl
  | some val =>
    have hval : expandEnvVars (env.set V v) val = expandEnvVars (env.set V w) val := by
      unfold expandEnvVars expandChars
      rw [expandFrom_eq, expandFrom_eq, expandPieces_set v (h val rfl),
        expandPieces_set w (h val rfl)]
    rw [expandOpt_some, expandOpt_some, hval]

/-- **What a variable can reach.**  Let a text refer to a variable only inside of one basic string,
the other sensitive fields not refer to it when they are expanded once more, and let there be two
values of it with which the string does not end early.  Then the configurations that are loaded
agree but for this string.  And if the string may be any string and is not expanded once more, then
a configuration is loaded for both values or for none. -/
theorem nonInterference (toml : Toml) (env : Env) (V : String) (path : List String) (s : String)
    (t : OnlyInside toml env V path s) (v₁ v₂ : String) (h₁ : t.StaysInside v₁)
    (h₂ : t.StaysInside v₂) (hothers : OthersRefrain toml env V path s v₁) :
    (∀ c₁ c₂, loadConfigFromStr (env.set V v₁) toml s = .ok c₁ →
      loadConfigFromStr (env.set V v₂) toml s = .ok c₂ →
        GatewayConfig.codec.agreesBut path c₁ c₂) ∧
    (path ∉ GatewayConfig.enumerations → t.NotExpandedAgain v₁ → t.NotExpandedAgain v₂ →
      ((∃ c, loadConfigFromStr (env.set V v₁) toml s = .ok c) ↔
        ∃ c, loadConfigFromStr (env.set V v₂) toml s = .ok c)) := by
  -- a sensitive field other than the string is read the same, and then expanded the same
  have hexpand : ∀ c₁ c₂, parseExpanded (env.set V v₁) toml s = .ok c₁ →
      parseExpanded (env.set V v₂) toml s = .ok c₂ → ∀ q ∈ GatewayConfig.sensitiveParts,
        path ≠ q.path →
          expandOpt (env.set V v₁) (q.get c₁) = expandOpt (env.set V v₂) (q.get c₂) := by
    intro c₁ c₂ hc₁ hc₂ q hq hne
    have hsame := q.sameUnless_of_agreesBut (t.agreesBut_of_parse h₁ h₂ hc₁ hc₂)
    rw [← hsame.eq hne]
    exact expandOpt_set (hothers c₁ hc₁ q hq hne)
  constructor
  · intro c₁ c₂ hload₁ hload₂
    obtain ⟨p₁, hp₁, hc₁⟩ := load_eq_ok_iff_parse.mp hload₁
    obtain ⟨p₂, hp₂, hc₂⟩ := load_eq_ok_iff_parse.mp hload₂
    exact GatewayConfig.agreesBut_expandEnv (t.agreesBut_of_parse h₁ h₂ hp₁ hp₂)
      (hexpand p₁ p₂ hp₁ hp₂) hc₁ hc₂
  · intro hany hplain₁ hplain₂
    constructor
    · rintro ⟨c, hload⟩
      obtain ⟨p₁, hp₁, hc⟩ := load_eq_ok_iff_parse.mp hload
      obtain ⟨p₂, hp₂⟩ := t.exists_parse h₁ h₂ hany ⟨p₁, hp₁⟩
      obtain ⟨c', hc'⟩ := GatewayConfig.exists_expandEnv (hexpand p₁ p₂ hp₁ hp₂)
        (fun q hq hpath val hval => t.not_refStart_of_parse h₂ hplain₂ hp₂ hq hpath hval) ⟨c, hc⟩
      exact ⟨c', load_eq_ok_iff_parse.mpr ⟨p₂, hp₂, hc'⟩⟩
    · rintro ⟨c, hload⟩
      obtain ⟨p₂, hp₂, hc⟩ := load_eq_ok_iff_parse.mp hload
      obtain ⟨p₁, hp₁⟩ := t.exists_parse h₂ h₁ hany ⟨p₂, hp₂⟩
      obtain ⟨c', hc'⟩ := GatewayConfig.exists_expandEnv
        (fun q hq hne => (hexpand p₁ p₂ hp₁ hp₂ q hq hne).symm)
        (fun q hq hpath val hval => t.not_refStart_of_parse h₁ hplain₁ hp₁ hq hpath hval) ⟨c, hc⟩
      exact ⟨c', load_eq_ok_iff_parse.mpr ⟨p₁, hp₁, hc'⟩⟩

/-- A configuration with a connection string, which is left open. -/
def connectionHole : Hole ["database", "connection_string"] where
  fill connectionString :=
    .table [("database", .table [("connection_string", .string connectionString)])]
  sameBut s s' := ((SameBut.here s s').single "connection_string").single "database"
  follow_fill _ := rfl

theorem lineToml_stringAt :
    lineToml.StringAt ["database", "connection_string"]
      "[database]\nconnection_string = ".toList ['\n'] := by
  refine .inr ⟨connectionHole, fun body x h => ?_⟩
  have hline : TomlText.readLine ("connection_string = \"".toList ++ body ++ ['"']) =
      some (.binding "connection_string" (.string (String.ofList x))) := by
    have hquoted := @TomlText.readLine_quoted 'c' "onnection_string".toList body x (by decide) h
    simpa using hquoted
  have htext : (quoted "[database]\nconnection_string = ".toList body ['\n']).toList =
      "[database]".toList ++ '\n' ::
        (("connection_string = \"".toList ++ body ++ ['"']) ++ '\n' :: []) := by
    unfold quoted
    rw [String.toList_ofList]
    simp
  have hsplit : (quoted "[database]\nconnection_string = ".toList body ['\n']).toList.splitOn '\n' =
      ["[database]".toList, "connection_string = \"".toList ++ body ++ ['"'], []] := by
    have hnewline : '\n' ∉ "connection_string = \"".toList ++ body ++ ['"'] := by
      simp [(TomlText.closed_of_unescape h).not_newline]
    rw [htext, List.splitOn_append_cons_self_of_not_mem (by decide),
      List.splitOn_append_cons_self_of_not_mem hnewline]
    rfl
  have hheader : TomlText.readLine "[database]".toList = some (.header ["database"]) := by
    rfl
  show TomlText.read _ = _
  unfold TomlText.read
  rw [hsplit]
  have hread : TomlText.readLines ["[database]".toList,
      "connection_string = \"".toList ++ body ++ ['"'], []] ([], []) =
        some [("database", .table [("connection_string", .string (String.ofList x))])] := by
    simp only [TomlText.readLines, hheader, hline]
    rfl
  rw [hread]
  rfl

/-- A text with a variable for the connection string. -/
def connectionText : OnlyInside lineToml (fun _ => none) "V" ["database", "connection_string"]
    "[database]\nconnection_string = \"${V}\"\n" where
  before := "[database]\nconnection_string = ".toList.map .char
  inside := [.ref ['V']]
  after := ['\n'].map .char
  pieces_eq := by decide +kernel
  not_before := not_refersTo_chars _ _
  not_after := not_refersTo_chars _ _
  isString l r hl hr := by
    rw [expandPieces_chars] at hl hr
    obtain rfl := Except.ok.inj hl
    obtain rfl := Except.ok.inj hr
    exact lineToml_stringAt

theorem expand_connectionText (v : String) :
    expandPieces (Env.set (fun _ => none) "V" v) connectionText.inside = .ok v.toList := by
  have hvalue : expandPieces (Env.set (fun _ => none) "V" v) connectionText.inside =
      .ok (v.toList ++ []) := rfl
  rw [hvalue, List.append_nil]

theorem connectionText_staysInside {v : String} {x : List Char}
    (h : TomlText.unescape v.toList = some x) : connectionText.StaysInside v := by
  intro body hbody
  obtain rfl := Except.ok.inj ((expand_connectionText v).symm.trans hbody)
  exact ⟨x, h⟩

theorem connectionText_notExpandedAgain {v : String} (h : TomlText.unescape v.toList = some v.toList)
    (hplain : ¬ refStart <:+: v.toList) : connectionText.NotExpandedAgain v := by
  rintro q - - x ⟨body, hbody, hx⟩
  obtain rfl := Except.ok.inj ((expand_connectionText v).symm.trans hbody)
  obtain rfl := Option.some.inj (h.symm.trans hx)
  exact hplain

/-- Two connection strings from the environment. -/
theorem load_connection :
    ∃ c₁ c₂, loadConfigFromStr (Env.set (fun _ => none) "V" "a") lineToml
        "[database]\nconnection_string = \"${V}\"\n" = .ok c₁ ∧
      loadConfigFromStr (Env.set (fun _ => none) "V" "b") lineToml
        "[database]\nconnection_string = \"${V}\"\n" = .ok c₂ ∧
      GatewayConfig.codec.agreesBut ["database", "connection_string"] c₁ c₂ := by
  have hsensitive : (parseExpanded (Env.set (fun _ => none) "V" "a") lineToml
      "[database]\nconnection_string = \"${V}\"\n").toOption.map
        (fun c => GatewayConfig.sensitive.map (· c)) =
      some [some "a", none, none, none, none, none, none, none] := by decide +kernel
  have hothers : OthersRefrain lineToml (fun _ => none) "V" ["database", "connection_string"]
      "[database]\nconnection_string = \"${V}\"\n" "a" := by
    intro c hc
    obtain ⟨c', hc', hfields⟩ := exists_ok_of_map hsensitive
    obtain rfl := Except.ok.inj (hc.symm.trans hc')
    simp only [GatewayConfig.sensitive, List.map_cons, List.cons.injEq] at hfields
    obtain ⟨-, h₂, h₃, h₄, h₅, h₆, h₇, h₈, -⟩ := hfields
    have hnone : ∀ q ∈ GatewayConfig.sensitiveParts, ["database", "connection_string"] ≠ q.path →
        q.get c = none := by
      simp only [GatewayConfig.sensitiveParts, List.forall_mem_cons]
      exact ⟨fun hne => absurd rfl hne, fun _ => h₂, fun _ => h₃, fun _ => h₄, fun _ => h₅,
        fun _ => h₆, fun _ => h₇, fun _ => h₈, List.forall_mem_nil _⟩
    intro q hq hne val hval
    rw [hnone q hq hne] at hval
    cases hval
  obtain ⟨hagree, hloads⟩ := nonInterference _ _ _ _ _ connectionText "a" "b"
    (connectionText_staysInside rfl) (connectionText_staysInside rfl) hothers
  have hconnection : (loadConfigFromStr (Env.set (fun _ => none) "V" "a") lineToml
      "[database]\nconnection_string = \"${V}\"\n").toOption.map
        (·.database.connectionString) = some (some "a") := by decide +kernel
  obtain ⟨c₁, hc₁, -⟩ := exists_ok_of_map hconnection
  obtain ⟨c₂, hc₂⟩ := (hloads (by decide) (connectionText_notExpandedAgain rfl (by decide))
    (connectionText_notExpandedAgain rfl (by decide))).mp ⟨c₁, hc₁⟩
  exact ⟨c₁, c₂, hc₁, hc₂, hagree c₁ c₂ hc₁ hc₂⟩

/-- A value with a quote in it gives the database a host. -/
theorem reaches_host :
    Nonempty (OnlyInside lineToml (fun _ => none) "V" ["database", "connection_string"]
      "[database]\nconnection_string = \"${V}\"\n") ∧
    ∃ c₁ c₂, loadConfigFromStr (Env.set (fun _ => none) "V" "a") lineToml
        "[database]\nconnection_string = \"${V}\"\n" = .ok c₁ ∧
      loadConfigFromStr (Env.set (fun _ => none) "V" "a\"\nhost = \"evil") lineToml
        "[database]\nconnection_string = \"${V}\"\n" = .ok c₂ ∧
      c₁.database.host = none ∧ c₂.database.host = some "evil" := by
  refine ⟨⟨connectionText⟩, ?_⟩
  have hhost₁ : (loadConfigFromStr (Env.set (fun _ => none) "V" "a") lineToml
      "[database]\nconnection_string = \"${V}\"\n").toOption.map (·.database.host) =
        some none := by decide +kernel
  have hhost₂ : (loadConfigFromStr (Env.set (fun _ => none) "V" "a\"\nhost = \"evil") lineToml
      "[database]\nconnection_string = \"${V}\"\n").toOption.map (·.database.host) =
        some (some "evil") := by decide +kernel
  obtain ⟨c₁, hc₁, h₁⟩ := exists_ok_of_map hhost₁
  obtain ⟨c₂, hc₂, h₂⟩ := exists_ok_of_map hhost₂
  exact ⟨c₁, c₂, hc₁, hc₂, h₁, h₂⟩

end SweGateway
