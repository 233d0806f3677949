import SweGateway.Saf.Equiv.Comments
import SweGateway.Saf.Equiv.RoundTrip
import SweGateway.Saf.Load

/-!
# Loading a configuration that has been saved

The nearest configuration file decides, also where it cannot be loaded (`loadConfig_of_nearest`).
A configuration that `toml::to_string` has written there comes back without what is not serialized
and with the defaults of what was absent (`readBack`).  The API key of the payment provider is not
serialized, so that of the configurations which `validate` accepts only those with the mock provider
are accepted again after they have been saved and loaded (`load_saved`).
-/

namespace SweGateway

open LexicalPath Serde

variable {env : Env} {toml : Toml} {files : ConfigFiles}

/-! ### The nearest file -/

theorem loadConfigUpward_of_isFile {dir : List OsName} (h : files.isFile (candidate dir) = true) :
    loadConfigUpward env toml files dir = loadConfigFrom env toml files (candidate dir) := by
  cases dir with
  | nil => exact if_pos h
  | cons name dir => exact if_pos h

theorem loadConfigUpward_append {below dir : List OsName}
    (h : ∀ between, between <:+ below → between ≠ [] →
      files.isFile (candidate (between ++ dir)) = false) :
    loadConfigUpward env toml files (below ++ dir) = loadConfigUpward env toml files dir := by
  induction below with
  | nil => rfl
  | cons name below ih =>
    have hnone : ¬ files.isFile (candidate (name :: (below ++ dir))) = true := by
      rw [← List.cons_append, h (name :: below) List.suffix_rfl (List.cons_ne_nil _ _)]
      exact Bool.false_ne_true
    have hbelow : ∀ between, between <:+ below → between ≠ [] →
        files.isFile (candidate (between ++ dir)) = false :=
      fun between hbetween => h between (hbetween.trans (List.suffix_cons name below))
    rw [List.cons_append, loadConfigUpward, if_neg hnone]
    exact ih hbelow

/-- **The nearest file** is the one that is loaded. -/
theorem loadConfig_of_nearest {below dir : List OsName}
    (hcurrent : files.currentDir = .ok (below ++ dir))
    (hfile : files.isFile (candidate dir) = true)
    (hnearer : ∀ between, between <:+ below → between ≠ [] →
      files.isFile (candidate (between ++ dir)) = false) :
    loadConfig env toml files = loadConfigFrom env toml files (candidate dir) := by
  unfold loadConfig
  rw [hcurrent]
  exact (loadConfigUpward_append hnearer).trans (loadConfigUpward_of_isFile hfile)

/-! ### What comes back -/

namespace GatewayConfig

/-- No sensitive field begins a reference to the environment. -/
def NoReferences (c : GatewayConfig) : Prop :=
  ∀ field ∈ sensitive, ∀ val ∈ field c, ¬ refStart <:+: val.toList

theorem NoReferences.expandEnv {c : GatewayConfig} (h : c.NoReferences) :
    c.expandEnv env = .ok c :=
  expandEnv_eq_ok_iff.mpr ⟨rfl, fun field hfield => expandOpt_of_not (h field hfield)⟩

/-- What comes back has the sensitive fields that are serialized, and no others. -/
theorem NoReferences.readBack {c : GatewayConfig} (h : c.NoReferences) :
    c.readBack.NoReferences := by
  have hconnection := h (·.database.connectionString) (by simp [sensitive])
  have hbaseUrl := h (·.http.baseUrl) (by simp [sensitive])
  -- what is not serialized is absent
  have hskipped : ∀ val ∈ (none : Option String), ¬ refStart <:+: val.toList :=
    fun val hval => absurd hval (Option.not_mem_none val)
  intro field hfield
  simp only [sensitive, List.mem_cons, List.not_mem_nil, or_false] at hfield
  rcases hfield with rfl | rfl | rfl | rfl | rfl | rfl | rfl | rfl
  · exact hconnection
  · exact hskipped
  · exact hskipped
  · exact hskipped
  · exact hbaseUrl
  · exact hskipped
  · exact hskipped
  · exact hskipped

theorem validate_eq_ok_iff (c : GatewayConfig) : c.validate = .ok () ↔
    c.database.missing = [] ∧ c.file.missing = [] ∧ c.payment.missing = [] ∧
      c.sink.missing = [] := by
  have hmissing : c.validate = .ok () ↔ c.missing = [] := by
    unfold validate
    split_ifs with h
    · exact ⟨fun _ => h, fun _ => rfl⟩
    · exact ⟨nofun, fun h' => absurd h' h⟩
  rw [hmissing, missing]
  simp only [List.append_eq_nil_iff, and_assoc]

/-- Without a key, only the mock provider is complete. -/
theorem missing_withoutSkipped_iff (c : PaymentConfig) :
    c.withoutSkipped.missing = [] ↔ c.provider = .mock := by
  obtain ⟨provider⟩ := c
  unfold PaymentConfig.missing PaymentConfig.withoutSkipped
  cases provider with
  | mock => exact ⟨fun _ => rfl, fun _ => rfl⟩
  | stripe | payPal | square | braintree => exact ⟨nofun, nofun⟩

/-- **What comes back is valid** exactly if it was and has the mock provider. -/
theorem validate_readBack_iff (c : GatewayConfig) :
    c.readBack.validate = .ok () ↔ c.payment.provider = .mock ∧ c.validate = .ok () := by
  have hpayment := missing_withoutSkipped_iff c.payment
  rw [validate_eq_ok_iff, validate_eq_ok_iff]
  change c.database.missing = [] ∧ c.file.missing = [] ∧ c.payment.withoutSkipped.missing = [] ∧
    c.sink.missing = [] ↔ _
  rw [hpayment]
  constructor
  · rintro ⟨hdatabase, hfile, hmock, hsink⟩
    have hmissing : c.payment.missing = [] := by rw [PaymentConfig.missing, hmock]
    exact ⟨hmock, hdatabase, hfile, hmissing, hsink⟩
  · rintro ⟨hmock, hdatabase, hfile, -, hsink⟩
    exact ⟨hdatabase, hfile, hmock, hsink⟩

end GatewayConfig

/-! ### Saving and loading -/

/-- What loading a text makes of a configuration that the text has been written for. -/
theorem load_of_written {c : GatewayConfig} {s : String} {v' : Data}
    (hread : toml.read s = .ok v') (hsame : Same (GatewayConfig.codec.encode c) v')
    (hexpand : expandEnvVars env s = .ok s) (hplain : c.NoReferences) :
    loadConfigFromStr env toml s =
      if c.notification.sms.isSome then .error (.parse (.data (.missingField "account_id")))
      else if c.notification.push.isSome then .error (.parse (.data (.missingField "api_key")))
      else .ok c.readBack := by
  rw [load_of_expand hexpand, Toml.fromStr_of_same hread hsame, c.back_codec]
  split_ifs
  · rfl
  · rfl
  · exact hplain.readBack.expandEnv

/-- **A configuration that has been saved** in the nearest configuration file, and that refers to no
environment variable, comes back if it has no SMS and no push configuration, without what is not
serialized and with the defaults of `readBack`.  It comes back as a valid configuration exactly if
it is valid itself and its payment provider is the mock. -/
theorem load_saved (env : Env) (toml : Toml) (files : ConfigFiles) (c : GatewayConfig)
    (hfits : c.IntegersFit)
    (htoml : (GatewayConfig.codec.encode c).Fits → toml.ReadsBack (GatewayConfig.codec.encode c))
    (s : String) (hwritten : toml.toString c = .ok s) (below dir : List OsName)
    (hcurrent : files.currentDir = .ok (below ++ dir))
    (hfile : files.isFile (candidate dir) = true)
    (hsaved : files.readToString (candidate dir) = .ok s)
    (hnearer : ∀ between, between <:+ below → between ≠ [] →
      files.isFile (candidate (between ++ dir)) = false)
    (hexpand : expandEnvVars env s = .ok s) (hplain : c.NoReferences) :
    (loadConfig env toml files = .ok c.readBack ↔
      c.notification.sms = none ∧ c.notification.push = none) ∧
    ((∃ c', loadConfig env toml files = .ok c' ∧ c'.validate = .ok ()) ↔
      c.notification.sms = none ∧ c.notification.push = none ∧
        c.payment.provider = .mock ∧ c.validate = .ok ()) := by
  obtain ⟨s', v', hwrite, hread, hsame⟩ := htoml (GatewayConfig.fits_encode hfits)
  obtain rfl : s = s' := Except.ok.inj (hwritten.symm.trans hwrite)
  have hload : loadConfig env toml files =
      (loadConfigFromStr env toml s).mapError LoadError.contents := by
    rw [loadConfig_of_nearest hcurrent hfile hnearer, loadConfigFrom, hsaved]
    rfl
  rw [load_of_written hread hsame hexpand hplain] at hload
  rw [← c.validate_readBack_iff]
  -- an error is neither of the two
  have hfails {e : LoadError} (h : loadConfig env toml files = .error e) {p q : Prop} (hp : ¬ p)
      (hq : ¬ q) : (loadConfig env toml files = .ok c.readBack ↔ p) ∧
        ((∃ c', loadConfig env toml files = .ok c' ∧ c'.validate = .ok ()) ↔ q) := by
    rw [h]
    exact ⟨iff_of_false nofun hp, iff_of_false (fun ⟨_, h, _⟩ => nomatch h) hq⟩
  cases hsms : c.notification.sms with
  | some sms =>
    rw [hsms] at hload
    exact hfails hload (fun h => nomatch h.1) (fun h => nomatch h.1)
  | none =>
    cases hpush : c.notification.push with
    | some push =>
      rw [hsms, hpush] at hload
      exact hfails hload (fun h => nomatch h.2) (fun h => nomatch h.2.1)
    | none =>
      rw [hsms, hpush] at hload
      replace hload : loadConfig env toml files = .ok c.readBack := hload
      refine ⟨iff_of_true hload ⟨rfl, rfl⟩, ?_⟩
      rw [hload]
      constructor
      · rintro ⟨c', hc', hvalid⟩
        rw [Except.ok.inj hc']
        exact ⟨rfl, rfl, hvalid⟩
      · rintro ⟨-, -, hvalid⟩
        exact ⟨c.readBack, rfl, hvalid⟩

/-- A text without a dollar sign refers to nothing. -/
theorem expandEnvVars_of_not_mem {s : String} (h : '$' ∉ s.toList) :
    expandEnvVars env s = .ok s := by
  have hexpand : expandChars env s.toList = .ok s.toList := by
    refine expandChars_eq_self env fun a b hs => ?_
    have hmem : '$' ∈ s.toList := by
      rw [hs]
      simp [refStart]
    exact absurd hmem h
  rw [expandEnvVars, hexpand]
  show Except.ok (String.ofList _) = _
  rw [String.ofList_toList]

theorem dollar_not_mem_shopText : '$' ∉ (shopText "").toList := by
  unfold shopText
  simp only [String.toList_append, List.mem_append, not_or]
  repeat' constructor
  all_goals decide +kernel

/-- A process in `/srv/app/src`, with the shop's configuration in `/srv`. -/
def serverFiles : ConfigFiles where
  currentDir := .ok [.utf8 "src".toList, .utf8 "app".toList, .utf8 "srv".toList]
  isFile path := path = candidate [.utf8 "srv".toList]
  readToString _ := .ok (shopText "")

/-- The configuration of the shop is found there, and is valid, though it does not say how many
connections there may be. -/
theorem load_saved_shop :
    let toml := fixedToml (GatewayConfig.codec.encode (shopConfig none)) (shopText "")
    loadConfig (fun _ => none) toml serverFiles = .ok (shopConfig none).readBack ∧
      ∃ c', loadConfig (fun _ => none) toml serverFiles = .ok c' ∧ c'.validate = .ok () := by
  intro toml
  have hnearer : ∀ between, between <:+ [.utf8 "src".toList, .utf8 "app".toList] → between ≠ [] →
      serverFiles.isFile (candidate (between ++ [.utf8 "srv".toList])) = false := by
    rintro between - hne
    cases between with
    | nil => exact absurd rfl hne
    | cons name between => simp [serverFiles, candidate]
  have hplain : (shopConfig none).NoReferences := by
    intro field hfield val hval
    simp only [GatewayConfig.sensitive, List.mem_cons, List.not_mem_nil, or_false] at hfield
    rcases hfield with rfl | rfl | rfl | rfl | rfl | rfl | rfl | rfl
    all_goals cases hval
    all_goals decide
  obtain ⟨hback, hvalid⟩ := load_saved (fun _ => none) toml serverFiles (shopConfig none)
    (integersFit_shopConfig none) (fixedToml_readsBack _) (shopText "") rfl
    [.utf8 "src".toList, .utf8 "app".toList] [.utf8 "srv".toList] rfl (by decide) rfl hnearer
    (expandEnvVars_of_not_mem dollar_not_mem_shopText) hplain
  exact ⟨hback.mpr ⟨rfl, rfl⟩, hvalid.mpr ⟨rfl, rfl, rfl, rfl⟩⟩

end SweGateway
