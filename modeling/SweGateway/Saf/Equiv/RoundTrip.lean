import SweGateway.Saf.Config

/-!
# Whether a configuration survives serialization

Fields with secrets are not serialized, so they are lost when a configuration is written as TOML and
read again (`withoutSkipped`).  Everything else should come back, and `roundTrip_iff` says when it
does.

Two things go wrong.  The credentials of an SMS or push configuration are not serialized but have to
be there when it is read, so no configuration with one of these can be read again
(`sms_not_readable`).  And three optional fields have a default that is not `none`: a `none` in them
is left out, and comes back as the default.
-/

namespace SweGateway

open Serde

/-- The configuration without what is not serialized. -/
def FileStorageConfig.withoutSkipped (c : FileStorageConfig) : FileStorageConfig :=
  { c with accessKey := none, secretKey := none }

/-- The configuration without what is not serialized. -/
def DatabaseConfig.withoutSkipped (c : DatabaseConfig) : DatabaseConfig := { c with password := none }

/-- The configuration without what is not serialized. -/
def EmailConfig.withoutSkipped (c : EmailConfig) : EmailConfig := { c with password := none }

/-- The configuration without what is not serialized; a string that is not optional is empty. -/
def SmsConfig.withoutSkipped (c : SmsConfig) : SmsConfig := { c with accountId := "", authToken := "" }

/-- The configuration without what is not serialized; a string that is not optional is empty. -/
def PushConfig.withoutSkipped (c : PushConfig) : PushConfig := { c with apiKey := "" }

/-- The configuration without what is not serialized. -/
def WebhookConfig.withoutSkipped (c : WebhookConfig) : WebhookConfig := { c with authValue := none }

/-- The configuration without what is not serialized. -/
def NotificationConfig.withoutSkipped (c : NotificationConfig) : NotificationConfig :=
  { c with
    email := c.email.map EmailConfig.withoutSkipped
    sms := c.sms.map SmsConfig.withoutSkipped
    push := c.push.map PushConfig.withoutSkipped
    webhook := c.webhook.map WebhookConfig.withoutSkipped }

/-- The configuration without what is not serialized. -/
def PaymentConfig.withoutSkipped (c : PaymentConfig) : PaymentConfig :=
  { c with apiKey := none, secretKey := none, webhookSecret := none }

/-- The configuration without what is not serialized. -/
def GatewayConfig.withoutSkipped (c : GatewayConfig) : GatewayConfig :=
  { c with
    file := c.file.withoutSkipped
    database := c.database.withoutSkipped
    notification := c.notification.withoutSkipped
    payment := c.payment.withoutSkipped }

/-! ### The sections -/

theorem FileStorageConfig.back_struct (c : FileStorageConfig) :
    FileStorageConfig.struct.back c = .ok c.withoutSkipped := by
  simp [struct, withoutSkipped, default]

/-- An absent pool size or timeout comes back as the default. -/
theorem DatabaseConfig.back_struct (c : DatabaseConfig) :
    DatabaseConfig.struct.back c = .ok { c.withoutSkipped with
      maxConnections := c.maxConnections.or (some 10)
      connectTimeoutSecs := c.connectTimeoutSecs.or (some 30) } := by
  simp [struct, withoutSkipped, default]

/-- An absent user agent comes back as the default. -/
theorem HttpConfig.back_struct (c : HttpConfig) :
    HttpConfig.struct.back c =
      .ok { c with userAgent := c.userAgent.or (some "swe-gateway/0.1.0") } := by
  simp [struct, default]

theorem EmailConfig.back_struct (c : EmailConfig) :
    EmailConfig.struct.back c = .ok c.withoutSkipped := by
  simp [struct, withoutSkipped]

/-- An SMS configuration is not read again. -/
theorem SmsConfig.back_struct (c : SmsConfig) :
    SmsConfig.struct.back c = .error (.missingField "account_id") := by
  simp [struct]

/-- A push configuration is not read again. -/
theorem PushConfig.back_struct (c : PushConfig) :
    PushConfig.struct.back c = .error (.missingField "api_key") := by
  simp [struct]

theorem WebhookConfig.back_struct (c : WebhookConfig) :
    WebhookConfig.struct.back c = .ok c.withoutSkipped := by
  simp [struct, withoutSkipped]

theorem PaymentConfig.back_struct (c : PaymentConfig) :
    PaymentConfig.struct.back c = .ok c.withoutSkipped := by
  simp [struct, withoutSkipped, default]

theorem SinkConfig.back_struct (c : SinkConfig) : SinkConfig.struct.back c = .ok c := by
  simp [struct, default]

/-- The section comes back without what is not serialized if it has no SMS and no push
configuration, and it does not come back otherwise. -/
theorem NotificationConfig.back_struct (c : NotificationConfig) :
    NotificationConfig.struct.back c =
      if c.sms.isSome then .error (.missingField "account_id")
      else if c.push.isSome then .error (.missingField "api_key")
      else .ok c.withoutSkipped := by
  obtain ⟨defaultChannel, email, sms, push, webhook⟩ := c
  have hemail : (EmailConfig.struct.codec.optional (.ok none)).back email =
      .ok (email.map EmailConfig.withoutSkipped) := by
    cases email with
    | none => rw [Codec.back_optional_none, Option.map_none]
    | some e => simp [Codec.back_optional_some, EmailConfig.back_struct]
  have hwebhook : (WebhookConfig.struct.codec.optional (.ok none)).back webhook =
      .ok (webhook.map WebhookConfig.withoutSkipped) := by
    cases webhook with
    | none => rw [Codec.back_optional_none, Option.map_none]
    | some w => simp [Codec.back_optional_some, WebhookConfig.back_struct]
  -- the fields are read in their order, and the first error is the result
  cases sms with
  | some s =>
    simp [struct, default, Codec.back_optional_some, SmsConfig.back_struct, hemail]
  | none =>
    cases push with
    | some p =>
      simp [struct, default, Codec.back_optional_none, Codec.back_optional_some,
        PushConfig.back_struct, hemail]
    | none =>
      simp [struct, withoutSkipped, default, Codec.back_optional_none, hemail, hwebhook]

/-! ### The configuration -/

namespace GatewayConfig

/-- The configuration has nothing that is lost other than what is not serialized. -/
structure Survives (c : GatewayConfig) : Prop where
  sms : c.notification.sms = none
  push : c.notification.push = none
  maxConnections : c.database.maxConnections ≠ none
  connectTimeoutSecs : c.database.connectTimeoutSecs ≠ none
  userAgent : c.http.userAgent ≠ none

/-- What is read of a configuration without SMS and push configuration. -/
def readBack (c : GatewayConfig) : GatewayConfig :=
  { c.withoutSkipped with
    database := { c.database.withoutSkipped with
      maxConnections := c.database.maxConnections.or (some 10)
      connectTimeoutSecs := c.database.connectTimeoutSecs.or (some 30) }
    http := { c.http with userAgent := c.http.userAgent.or (some "swe-gateway/0.1.0") } }

theorem back_codec (c : GatewayConfig) :
    codec.back c = if c.notification.sms.isSome then .error (.missingField "account_id")
      else if c.notification.push.isSome then .error (.missingField "api_key")
      else .ok c.readBack := by
  have hnotification := c.notification.back_struct
  cases hsms : c.notification.sms with
  | some s =>
    rw [hsms] at hnotification
    simp [codec, struct, Codec.back_field, FileStorageConfig.back_struct,
      DatabaseConfig.back_struct, HttpConfig.back_struct, hnotification]
  | none =>
    cases hpush : c.notification.push with
    | some p =>
      rw [hsms, hpush] at hnotification
      simp [codec, struct, Codec.back_field, FileStorageConfig.back_struct,
        DatabaseConfig.back_struct, HttpConfig.back_struct, hnotification]
    | none =>
      rw [hsms, hpush] at hnotification
      simp [codec, struct, readBack, withoutSkipped, Codec.back_field,
        FileStorageConfig.back_struct, DatabaseConfig.back_struct, HttpConfig.back_struct,
        PaymentConfig.back_struct, SinkConfig.back_struct, hnotification]

theorem some_getD_eq_self {α : Type} {o : Option α} {a : α} :
    some (o.getD a) = o ↔ o ≠ none := by
  cases o <;> simp

/-- An absent value that has a default is the only thing that is lost. -/
theorem readBack_eq_iff (c : GatewayConfig) :
    c.readBack = c.withoutSkipped ↔ c.database.maxConnections ≠ none ∧
      c.database.connectTimeoutSecs ≠ none ∧ c.http.userAgent ≠ none := by
  obtain ⟨file, database, http, notification, payment, sink⟩ := c
  cases database
  cases http
  simp [readBack, withoutSkipped, DatabaseConfig.withoutSkipped, some_getD_eq_self, and_assoc]

/-- A configuration comes back as it is, but for what is not serialized, exactly if it survives. -/
theorem back_codec_eq_iff (c : GatewayConfig) :
    codec.back c = .ok c.withoutSkipped ↔ c.Survives := by
  have hback := c.back_codec
  constructor
  · intro h
    cases hsms : c.notification.sms with
    | some s => simp [hback, hsms] at h
    | none =>
      cases hpush : c.notification.push with
      | some p => simp [hback, hsms, hpush] at h
      | none =>
        have hread : c.readBack = c.withoutSkipped := by simpa [hback, hsms, hpush] using h
        obtain ⟨hmax, htimeout, hagent⟩ := c.readBack_eq_iff.mp hread
        exact ⟨hsms, hpush, hmax, htimeout, hagent⟩
  · rintro ⟨hsms, hpush, hmax, htimeout, hagent⟩
    rw [hback, hsms, hpush, c.readBack_eq_iff.mpr ⟨hmax, htimeout, hagent⟩]
    rfl

/-- The integers of the configuration fit those of TOML, which are signed. -/
structure IntegersFit (c : GatewayConfig) : Prop where
  databaseConnectTimeoutSecs : ∀ n, c.database.connectTimeoutSecs = some n → n.toNat < 2 ^ 63
  httpTimeoutSecs : c.http.timeoutSecs.toNat < 2 ^ 63
  httpConnectTimeoutSecs : c.http.connectTimeoutSecs.toNat < 2 ^ 63

end GatewayConfig

/-! ### What TOML can write -/

theorem FileStorageConfig.fits_encode (c : FileStorageConfig) : (struct.codec.encode c).Fits := by
  refine Struct.Fits.encode_codec ?_ (by decide)
  simp [struct, FileStorageType.codec]

theorem DatabaseConfig.fits_encode {c : DatabaseConfig}
    (h : ∀ n, c.connectTimeoutSecs = some n → n.toNat < 2 ^ 63) :
    (struct.codec.encode c).Fits := by
  have hsecs : ∀ n, c.connectTimeoutSecs = some n → (Codec.u64.encode n).Fits := fun n hn =>
    Codec.fits_u64 (h n hn)
  refine Struct.Fits.encode_codec ?_ (by decide)
  simpa [struct, DatabaseType.codec] using hsecs

theorem HttpConfig.fits_encode {c : HttpConfig} (htimeout : c.timeoutSecs.toNat < 2 ^ 63)
    (hconnect : c.connectTimeoutSecs.toNat < 2 ^ 63) : (struct.codec.encode c).Fits := by
  refine Struct.Fits.encode_codec ?_ (by decide)
  simp [struct, Codec.fits_u64 htimeout, Codec.fits_u64 hconnect]

theorem EmailConfig.fits_encode (c : EmailConfig) : (struct.codec.encode c).Fits := by
  refine Struct.Fits.encode_codec ?_ (by decide)
  simp [struct]

theorem SmsConfig.fits_encode (c : SmsConfig) : (struct.codec.encode c).Fits := by
  refine Struct.Fits.encode_codec ?_ (by decide)
  simp [struct]

theorem PushConfig.fits_encode (c : PushConfig) : (struct.codec.encode c).Fits := by
  refine Struct.Fits.encode_codec ?_ (by decide)
  simp [struct]

theorem WebhookConfig.fits_encode (c : WebhookConfig) : (struct.codec.encode c).Fits := by
  refine Struct.Fits.encode_codec ?_ (by decide)
  simp [struct]

theorem NotificationConfig.fits_encode (c : NotificationConfig) : (struct.codec.encode c).Fits := by
  refine Struct.Fits.encode_codec ?_ (by decide)
  simp [struct, NotificationChannel.codec, EmailConfig.fits_encode, SmsConfig.fits_encode,
    PushConfig.fits_encode, WebhookConfig.fits_encode]

theorem PaymentConfig.fits_encode (c : PaymentConfig) : (struct.codec.encode c).Fits := by
  refine Struct.Fits.encode_codec ?_ (by decide)
  simp [struct, PaymentProvider.codec, Currency.codec]

theorem SinkConfig.fits_encode (c : SinkConfig) : (struct.codec.encode c).Fits := by
  refine Struct.Fits.encode_codec ?_ (by decide)
  simp [struct, SinkType.codec, SinkFormat.codec]

/-- The table of a configuration is one that TOML can write if the integers fit. -/
theorem GatewayConfig.fits_encode {c : GatewayConfig} (h : c.IntegersFit) :
    (codec.encode c).Fits := by
  have hdatabase := DatabaseConfig.fits_encode h.databaseConnectTimeoutSecs
  have hhttp := HttpConfig.fits_encode h.httpTimeoutSecs h.httpConnectTimeoutSecs
  refine Struct.Fits.encode_codec ?_ (by decide)
  simp [struct, hdatabase, hhttp, FileStorageConfig.fits_encode, NotificationConfig.fits_encode,
    PaymentConfig.fits_encode, SinkConfig.fits_encode]

/-- What the crate writes for the table can be read, as a table with the same keys. -/
def Toml.ReadsBack (toml : Toml) (v : Data) : Prop :=
  ∃ s v', toml.write v = .ok s ∧ toml.read s = .ok v' ∧ Same v v'

/-- What is read of a text for the table of a configuration is what comes back of it. -/
theorem Toml.fromStr_of_same {toml : Toml} {c : GatewayConfig} {s : String} {v' : Data}
    (hread : toml.read s = .ok v') (hsame : Same (GatewayConfig.codec.encode c) v') :
    toml.fromStr s = (GatewayConfig.codec.back c).mapError .data := by
  unfold Toml.fromStr
  rw [hread]
  show (GatewayConfig.codec.decode v').mapError TomlError.data = _
  rw [← GatewayConfig.codec.decode_same hsame]
  rfl

/-- **When a configuration survives serialization.**  If TOML reads back what it writes for a table
with integers that fit, then a configuration is written and read again, without what is not
serialized, if and only if it has no SMS and no push configuration and none of the optional fields
with a default is absent. -/
theorem roundTrip_iff (toml : Toml) (c : GatewayConfig) (hfits : c.IntegersFit)
    (htoml : (GatewayConfig.codec.encode c).Fits →
      toml.ReadsBack (GatewayConfig.codec.encode c)) :
    (∃ s, toml.toString c = .ok s ∧ toml.fromStr s = .ok c.withoutSkipped) ↔ c.Survives := by
  obtain ⟨s, v', hwrite, hread, hsame⟩ := htoml (GatewayConfig.fits_encode hfits)
  have hfrom := Toml.fromStr_of_same hread hsame
  rw [← c.back_codec_eq_iff]
  constructor
  · rintro ⟨s', hs', hfrom'⟩
    obtain rfl : s = s' := Except.ok.inj (hwrite.symm.trans hs')
    exact mapError_eq_ok_iff.mp (hfrom.symm.trans hfrom')
  · intro hback
    refine ⟨s, hwrite, ?_⟩
    rw [hfrom, hback]
    rfl

/-- A TOML crate, as far as one table and its text are concerned. -/
def fixedToml (v : Data) (text : String) : Toml where
  write _ := .ok text
  read s := if s = text then .ok v else .error "unsupported"

theorem read_fixedToml (v : Data) (text : String) : (fixedToml v text).read text = .ok v :=
  if_pos rfl

theorem fixedToml_readsBack {v : Data} (text : String) (h : v.Fits) :
    (fixedToml v text).ReadsBack v :=
  ⟨text, v, rfl, read_fixedToml v text, .of_fits h⟩

/-- The default configuration as TOML, with more lines in the section for notifications. -/
def defaultText (notification : String) : String :=
  "[file]\nstorage_type = \"local\"\nbase_path = \".\"\n\n[file.options]\n\n" ++
  "[database]\ndatabase_type = \"memory\"\nmax_connections = 10\nconnect_timeout_secs = 30\n\n" ++
  "[database.options]\n\n" ++
  "[http]\ntimeout_secs = 30\nconnect_timeout_secs = 10\nmax_retries = 3\n" ++
  "follow_redirects = true\nmax_redirects = 10\nuser_agent = \"swe-gateway/0.1.0\"\n\n" ++
  "[http.default_headers]\n\n[notification]\ndefault_channel = \"console\"\n\n" ++
  notification ++
  "[payment]\nprovider = \"mock\"\nsandbox = true\ndefault_currency = \"USD\"\n\n" ++
  "[payment.options]\n\n[sink]\nsink_type = \"stdout\"\nformat = \"text\"\n"

theorem integersFit_default : (default : GatewayConfig).IntegersFit where
  databaseConnectTimeoutSecs n hn := by
    obtain rfl : 30 = n := Option.some.inj hn
    decide
  httpTimeoutSecs := by decide
  httpConnectTimeoutSecs := by decide

/-- The configuration of a shop, with secrets and options. -/
def shopConfig (maxConnections : Option UInt32) : GatewayConfig where
  file := {
    basePath := "/srv/shop", secretKey := some "file-secret",
    options := (∅ : HashMap String String).insert "acl" "private" }
  database := {
    databaseType := .postgres, connectionString := some "postgres://db/shop",
    password := some "db-secret", maxConnections := maxConnections, connectTimeoutSecs := some 5,
    options := (∅ : HashMap String String).insert "sslmode" "require" }
  http := { baseUrl := some "https://api.shop", timeoutSecs := 60, followRedirects := false }
  notification := {
    defaultChannel := .email
    email := some {
      smtpHost := "smtp.shop", smtpPort := 587, username := some "shop",
      password := some "mail-secret", fromEmail := "orders@shop", fromName := none,
      useTls := true } }
  payment := { apiKey := some "pk", secretKey := some "sk", defaultCurrency := .eur }
  sink := { sinkType := .file, path := some "report.txt" }

/-- The configuration of the shop as TOML. -/
def shopText (maxConnections : String) : String :=
  "[file]\nstorage_type = \"local\"\nbase_path = \"/srv/shop\"\n\n" ++
  "[file.options]\nacl = \"private\"\n\n" ++
  "[database]\ndatabase_type = \"postgres\"\nconnection_string = \"postgres://db/shop\"\n" ++
  maxConnections ++ "connect_timeout_secs = 5\n\n[database.options]\nsslmode = \"require\"\n\n" ++
  "[http]\nbase_url = \"https://api.shop\"\ntimeout_secs = 60\nconnect_timeout_secs = 10\n" ++
  "max_retries = 3\nfollow_redirects = false\nmax_redirects = 10\n" ++
  "user_agent = \"swe-gateway/0.1.0\"\n\n[http.default_headers]\n\n" ++
  "[notification]\ndefault_channel = \"email\"\n\n" ++
  "[notification.email]\nsmtp_host = \"smtp.shop\"\nsmtp_port = 587\nusername = \"shop\"\n" ++
  "from_email = \"orders@shop\"\nuse_tls = true\n\n" ++
  "[payment]\nprovider = \"mock\"\nsandbox = true\ndefault_currency = \"EUR\"\n\n" ++
  "[payment.options]\n\n[sink]\nsink_type = \"file\"\nformat = \"text\"\npath = \"report.txt\"\n"

theorem integersFit_shopConfig (maxConnections : Option UInt32) :
    (shopConfig maxConnections).IntegersFit where
  databaseConnectTimeoutSecs n hn := by
    obtain rfl : 5 = n := Option.some.inj hn
    decide
  httpTimeoutSecs := by
    change (60 : UInt64).toNat < 2 ^ 63
    decide
  httpConnectTimeoutSecs := by
    change (10 : UInt64).toNat < 2 ^ 63
    decide

/-- The configuration of the shop survives, without its secrets. -/
theorem shopConfig_roundTrips :
    let c := shopConfig (some 20)
    let toml := fixedToml (GatewayConfig.codec.encode c) (shopText "max_connections = 20\n")
    ∃ s, toml.toString c = .ok s ∧ toml.fromStr s = .ok c.withoutSkipped :=
  (roundTrip_iff _ (shopConfig (some 20)) (integersFit_shopConfig _) (fixedToml_readsBack _)).mpr
    ⟨rfl, rfl, nofun, nofun, nofun⟩

/-- A configuration with credentials for sending SMS. -/
def smsConfig : GatewayConfig where
  notification := { sms := some ⟨"twilio", "AC1", "token", "+15550100"⟩ }

/-- A configuration for SMS is written, but what is written cannot be read. -/
theorem sms_not_readable :
    let toml := fixedToml (GatewayConfig.codec.encode smsConfig) (defaultText
      "[notification.sms]\nprovider = \"twilio\"\nfrom_number = \"+15550100\"\n\n")
    smsConfig.IntegersFit ∧ toml.ReadsBack (GatewayConfig.codec.encode smsConfig) ∧
      ∃ s, toml.toString smsConfig = .ok s ∧
        toml.fromStr s = .error (.data (.missingField "account_id")) := by
  have hfits : smsConfig.IntegersFit := ⟨integersFit_default.1, by decide, by decide⟩
  have hback : GatewayConfig.codec.back smsConfig = .error (.missingField "account_id") :=
    smsConfig.back_codec
  have hfitting := GatewayConfig.fits_encode hfits
  refine ⟨hfits, fixedToml_readsBack _ hfitting, _, rfl, ?_⟩
  rw [Toml.fromStr_of_same (read_fixedToml _ _) (.of_fits hfitting), hback]
  rfl

end SweGateway
