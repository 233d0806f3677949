import SweGateway.Lib.Serde.Part
import SweGateway.Saf.Equiv.Expand

/-!
# The fields of a configuration

The sensitive fields as parts of the configuration, each with its path (`sensitiveParts`).
Configurations that agree but for one path still do so when their sensitive fields are expanded, if
this does the same to the other ones of them (`agreesBut_expandEnv`).

Every field that is read from a string is read from any string, but for those that are one of a few
variants (`takesAny_iff`).
-/

namespace SweGateway

open Serde

/-! ### The sensitive fields -/

namespace FileStorageConfig

def accessKeyPart : StringPart struct :=
  ((StringPart.here "access_key" (.ok none)).skipSerializing.left _ |>.right _ |>.right _
    |>.right _).iso _

def secretKeyPart : StringPart struct :=
  ((StringPart.here "secret_key" (.ok none)).skipSerializing.left _ |>.right _ |>.right _
    |>.right _ |>.right _).iso _

end FileStorageConfig

namespace DatabaseConfig

def connectionStringPart : StringPart struct :=
  ((StringPart.here "connection_string" (.ok none)).left _ |>.right _).iso _

def passwordPart : StringPart struct :=
  ((StringPart.here "password" (.ok none)).skipSerializing.left _ |>.right _ |>.right _
    |>.right _ |>.right _ |>.right _ |>.right _).iso _

end DatabaseConfig

def HttpConfig.baseUrlPart : StringPart struct :=
  ((StringPart.here "base_url" (.ok none)).left _).iso _

namespace PaymentConfig

def apiKeyPart : StringPart struct :=
  ((StringPart.here "api_key" (.ok none)).skipSerializing.left _ |>.right _).iso _

def secretKeyPart : StringPart struct :=
  ((StringPart.here "secret_key" (.ok none)).skipSerializing.left _ |>.right _ |>.right _).iso _

def webhookSecretPart : StringPart struct :=
  ((StringPart.here "webhook_secret" (.ok none)).skipSerializing.left _ |>.right _ |>.right _
    |>.right _).iso _

end PaymentConfig

namespace GatewayConfig

def inFile (q : StringPart FileStorageConfig.struct) : StringPart struct :=
  ((q.inside "file" (.ok default)).left _).iso _

def inDatabase (q : StringPart DatabaseConfig.struct) : StringPart struct :=
  ((q.inside "database" (.ok default)).left _ |>.right _).iso _

def inHttp (q : StringPart HttpConfig.struct) : StringPart struct :=
  ((q.inside "http" (.ok default)).left _ |>.right _ |>.right _).iso _

def inPayment (q : StringPart PaymentConfig.struct) : StringPart struct :=
  ((q.inside "payment" (.ok default)).left _ |>.right _ |>.right _ |>.right _ |>.right _).iso _

/-- The sensitive fields, with their paths. -/
def sensitiveParts : List (StringPart struct) :=
  [inDatabase DatabaseConfig.connectionStringPart, inDatabase DatabaseConfig.passwordPart,
    inFile FileStorageConfig.accessKeyPart, inFile FileStorageConfig.secretKeyPart,
    inHttp HttpConfig.baseUrlPart, inPayment PaymentConfig.apiKeyPart,
    inPayment PaymentConfig.secretKeyPart, inPayment PaymentConfig.webhookSecretPart]

theorem get_sensitiveParts : sensitiveParts.map (·.get) = sensitive := rfl

example : sensitiveParts.map (·.path) = [["database", "connection_string"],
    ["database", "password"], ["file", "access_key"], ["file", "secret_key"], ["http", "base_url"],
    ["payment", "api_key"], ["payment", "secret_key"], ["payment", "webhook_secret"]] := rfl

theorem setAll_of_insensitive {c c' : GatewayConfig} (h : c'.insensitive = c.insensitive) :
    setAll sensitiveParts c' c = c' :=
  eq_of_insensitive h

/-- What expanding the sensitive fields returns. -/
theorem expandEnv_eq_ok_iff_parts {env : Env} {c c' : GatewayConfig} :
    c.expandEnv env = .ok c' ↔ c'.insensitive = c.insensitive ∧
      ∀ q ∈ sensitiveParts, expandOpt env (q.get c) = .ok (q.get c') := by
  rw [expandEnv_eq_ok_iff, ← get_sensitiveParts, List.forall_mem_map]

/-- The sensitive fields are expanded unless one of them cannot be. -/
theorem exists_expandEnv_iff {env : Env} {c : GatewayConfig} :
    (∃ c', c.expandEnv env = .ok c') ↔
      ∀ q ∈ sensitiveParts, ∃ x, expandOpt env (q.get c) = .ok x := by
  constructor
  · rintro ⟨c', hc'⟩ q hq
    exact ⟨q.get c', (expandEnv_eq_ok_iff_parts.mp hc').2 q hq⟩
  · intro h
    have hsensitive : ∀ field ∈ sensitive, ∃ x, expandOpt env (field c) = .ok x := by
      rw [← get_sensitiveParts, List.forall_mem_map]
      exact h
    simp only [sensitive, List.forall_mem_cons] at hsensitive
    obtain ⟨⟨_, h₁⟩, ⟨_, h₂⟩, ⟨_, h₃⟩, ⟨_, h₄⟩, ⟨_, h₅⟩, ⟨_, h₆⟩, ⟨_, h₇⟩, ⟨_, h₈⟩, -⟩ := hsensitive
    unfold expandEnv
    simp only [bind_eq_ok_iff]
    exact ⟨_, _, h₁, _, h₂, _, h₃, _, h₄, _, h₅, _, h₆, _, h₇, _, h₈, rfl⟩

end GatewayConfig

theorem isSome_of_expandOpt {env : Env} {o o' : Option String} (h : expandOpt env o = .ok o') :
    o'.isSome = o.isSome := by
  cases o with
  | none =>
    obtain rfl : none = o' := Except.ok.inj h
    rfl
  | some val =>
    rw [expandOpt_some] at h
    split at h
    · cases hval : expandEnvVars env val with
      | error e =>
        rw [hval] at h
        cases h
      | ok val' =>
        rw [hval] at h
        obtain rfl : some val' = o' := Except.ok.inj h
        rfl
    · obtain rfl : some val = o' := Except.ok.inj h
      rfl

/-- Configurations that agree but for one path still do so when the sensitive fields are expanded, if
this does the same to the other ones of them. -/
theorem GatewayConfig.agreesBut_expandEnv {env₁ env₂ : Env} {path : List String}
    {c₁ c₂ c₁' c₂' : GatewayConfig} (h : codec.agreesBut path c₁ c₂)
    (hothers : ∀ q ∈ sensitiveParts, path ≠ q.path →
      expandOpt env₁ (q.get c₁) = expandOpt env₂ (q.get c₂))
    (h₁ : c₁.expandEnv env₁ = .ok c₁') (h₂ : c₂.expandEnv env₂ = .ok c₂') :
    codec.agreesBut path c₁' c₂' := by
  obtain ⟨hin₁, hparts₁⟩ := expandEnv_eq_ok_iff_parts.mp h₁
  obtain ⟨hin₂, hparts₂⟩ := expandEnv_eq_ok_iff_parts.mp h₂
  rw [← setAll_of_insensitive hin₁, ← setAll_of_insensitive hin₂]
  refine agreesBut_setAll (r := struct) h fun q hq => ?_
  have hq₁ := hparts₁ q hq
  have hq₂ := hparts₂ q hq
  by_cases hpath : path = q.path
  · have hsome : (q.get c₁').isSome = (q.get c₂').isSome := by
      rw [isSome_of_expandOpt hq₁, isSome_of_expandOpt hq₂]
      exact (q.sameUnless_of_agreesBut h).isSome_eq
    exact .of_isSome_eq hpath hsome
  · rw [hothers q hq hpath, hq₂] at hq₁
    exact .inl (Except.ok.inj hq₁).symm

/-- The sensitive fields of a configuration are expanded if they are in another one, where this does
the same to those that are not at the path and nothing to the one that is. -/
theorem GatewayConfig.exists_expandEnv {env₁ env₂ : Env} {path : List String}
    {c₁ c₂ : GatewayConfig} (hothers : ∀ q ∈ sensitiveParts, path ≠ q.path →
      expandOpt env₁ (q.get c₁) = expandOpt env₂ (q.get c₂))
    (hplain : ∀ q ∈ sensitiveParts, path = q.path →
      ∀ val, q.get c₂ = some val → ¬ refStart <:+: val.toList)
    (h : ∃ c, c₁.expandEnv env₁ = .ok c) : ∃ c, c₂.expandEnv env₂ = .ok c := by
  rw [exists_expandEnv_iff] at h ⊢
  intro q hq
  by_cases hpath : path = q.path
  · exact ⟨q.get c₂, expandOpt_of_not (hplain q hq hpath)⟩
  · rw [← hothers q hq hpath]
    exact h q hq

/-! ### Which fields take any string -/

/-- A key in front of a path. -/
theorem forall_cons_ne (k : String) (path q : List String) :
    (∀ p, path = k :: p → ¬ p = q) ↔ ¬ path = k :: q := by
  constructor
  · rintro h rfl
    exact h q rfl rfl
  · rintro h p rfl rfl
    exact h rfl

theorem FileStorageConfig.takesAny_iff (path : List String) :
    struct.TakesAny path ↔ path ≠ ["storage_type"] := by
  simp [struct, FileStorageType.codec, Struct.takesAny_field, forall_cons_ne]

theorem DatabaseConfig.takesAny_iff (path : List String) :
    struct.TakesAny path ↔ path ≠ ["database_type"] := by
  simp [struct, DatabaseType.codec, Struct.takesAny_field, forall_cons_ne]

theorem HttpConfig.takesAny (path : List String) : struct.TakesAny path := by
  simp [struct, Struct.takesAny_field]

theorem NotificationConfig.takesAny_iff (path : List String) :
    struct.TakesAny path ↔ path ≠ ["default_channel"] := by
  simp [struct, NotificationChannel.codec, EmailConfig.struct, SmsConfig.struct, PushConfig.struct,
    WebhookConfig.struct, Struct.takesAny_field, forall_cons_ne]

theorem PaymentConfig.takesAny_iff (path : List String) :
    struct.TakesAny path ↔ path ≠ ["provider"] ∧ path ≠ ["default_currency"] := by
  simp [struct, PaymentProvider.codec, Currency.codec, Struct.takesAny_field, forall_cons_ne]

theorem SinkConfig.takesAny_iff (path : List String) :
    struct.TakesAny path ↔ path ≠ ["sink_type"] ∧ path ≠ ["format"] := by
  simp [struct, SinkType.codec, SinkFormat.codec, Struct.takesAny_field, forall_cons_ne]

/-- The fields that are one of a few variants. -/
def GatewayConfig.enumerations : List (List String) :=
  [["file", "storage_type"], ["database", "database_type"], ["notification", "default_channel"],
    ["payment", "provider"], ["payment", "default_currency"], ["sink", "sink_type"],
    ["sink", "format"]]

/-- Every string is as good as any other, but in the fields that are one of a few variants. -/
theorem GatewayConfig.takesAny_iff (path : List String) :
    codec.TakesAny path ↔ path ∉ enumerations := by
  simp [codec, struct, enumerations, FileStorageConfig.takesAny_iff, DatabaseConfig.takesAny_iff,
    HttpConfig.takesAny, NotificationConfig.takesAny_iff, PaymentConfig.takesAny_iff,
    SinkConfig.takesAny_iff, Struct.takesAny_field, forall_cons_ne, imp_and, forall_and, and_assoc]

end SweGateway
