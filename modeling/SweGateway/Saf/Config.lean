import SweGateway.Api.Database
import SweGateway.Api.File
import SweGateway.Api.Http
import SweGateway.Api.Notification
import SweGateway.Api.Payment
import SweGateway.Saf.EnvVars

/-!
# Gateway configuration (`saf/config.rs`)

`loadConfigFromStr` expands the environment variables in a text, reads the text as TOML, and then
expands the variables in the sensitive fields of what it has read once more (`expandEnv`).

The TOML crate is a parameter: `Toml` writes a table as a text and reads a text as a table.  How the
configuration itself is written as a table and read from one is `GatewayConfig.struct`, which is what
serde derives.
-/

namespace SweGateway

open Serde

/-- Output sink destination type. -/
inductive SinkType where
  | stdout
  | file
  deriving DecidableEq, Repr

namespace SinkType

def name : SinkType → String
  | stdout => "stdout"
  | file => "file"

def codec : Codec SinkType := .enumeration name [stdout, file]

@[simp] theorem lossless_codec : codec.Lossless :=
  Codec.lossless_enumeration fun t => by cases t <;> rfl

end SinkType

/-- Output format for report sinks. -/
inductive SinkFormat where
  | text
  | json
  deriving DecidableEq, Repr

namespace SinkFormat

def name : SinkFormat → String
  | text => "text"
  | json => "json"

def codec : Codec SinkFormat := .enumeration name [text, json]

@[simp] theorem lossless_codec : codec.Lossless :=
  Codec.lossless_enumeration fun f => by cases f <;> rfl

end SinkFormat

/-- Configuration for report output sinks. -/
structure SinkConfig where
  /-- Where to write reports. -/
  sinkType : SinkType := .stdout
  /-- Output format. -/
  format : SinkFormat := .text
  /-- File path. -/
  path : Option String := none

namespace SinkConfig

instance : Inhabited SinkConfig := ⟨{}⟩

/-- How the configuration is serialized; missing fields have their defaults. -/
def struct : Struct SinkConfig :=
  let d : SinkConfig := default
  Struct.iso
    (.and "sink_type" (SinkType.codec.field (.ok d.sinkType)) <|
      .and "format" (SinkFormat.codec.field (.ok d.format)) <|
      .field "path" (Codec.string.optional (.ok d.path)))
    { toFun := fun (sinkType, format, path) => { sinkType, format, path }
      invFun := fun c => (c.sinkType, c.format, c.path)
      left_inv := fun _ => rfl
      right_inv := fun _ => rfl }

end SinkConfig

/-- Top-level gateway configuration that aggregates all gateway-specific configs. -/
structure GatewayConfig where
  file : FileStorageConfig := default
  database : DatabaseConfig := default
  http : HttpConfig := default
  notification : NotificationConfig := default
  payment : PaymentConfig := default
  sink : SinkConfig := default

instance : Inhabited GatewayConfig := ⟨{}⟩

/-- How the configuration is serialized; missing sections have their defaults. -/
def GatewayConfig.struct : Struct GatewayConfig :=
  Struct.iso
    (.and "file" (FileStorageConfig.struct.codec.field (.ok default)) <|
      .and "database" (DatabaseConfig.struct.codec.field (.ok default)) <|
      .and "http" (HttpConfig.struct.codec.field (.ok default)) <|
      .and "notification" (NotificationConfig.struct.codec.field (.ok default)) <|
      .and "payment" (PaymentConfig.struct.codec.field (.ok default)) <|
      .field "sink" (SinkConfig.struct.codec.field (.ok default)))
    { toFun := fun (file, database, http, notification, payment, sink) =>
        { file, database, http, notification, payment, sink }
      invFun := fun c => (c.file, c.database, c.http, c.notification, c.payment, c.sink)
      left_inv := fun _ => rfl
      right_inv := fun _ => rfl }

/-- The configuration as a TOML table. -/
def GatewayConfig.codec : Codec GatewayConfig := GatewayConfig.struct.codec

/-- An error of `toml::from_str`: in the text or in the table. -/
inductive TomlError where
  | syntaxError (message : String)
  | data (e : DecodeError)
  deriving DecidableEq, Repr

/-- The TOML crate: writes a table as a text and reads a text as a table. -/
structure Toml where
  write : Data → Except String String
  read : String → Except String Data

/-- `toml::from_str`. -/
def Toml.fromStr (toml : Toml) (text : String) : Except TomlError GatewayConfig := do
  let v ← (toml.read text).mapError .syntaxError
  (GatewayConfig.codec.decode v).mapError .data

/-- `toml::to_string`. -/
def Toml.toString (toml : Toml) (c : GatewayConfig) : Except String String :=
  toml.write (GatewayConfig.codec.encode c)

/-- Errors that can occur when loading gateway configuration from a text. -/
inductive ConfigError where
  | parse (e : TomlError)
  /-- A referenced environment variable was not found and no default was provided. -/
  | envVar (name : String)
  deriving DecidableEq, Repr

/-- `expand_env_vars`. -/
def expandEnvVars (env : Env) (s : String) : Except ConfigError String :=
  ((expandChars env s.toList).map String.ofList).mapError .envVar

/-- `expand_opt`. -/
def expandOpt (env : Env) : Option String → Except ConfigError (Option String)
  | some val => if refStart <:+: val.toList then (expandEnvVars env val).map some else .ok (some val)
  | none => .ok none

namespace GatewayConfig

/-- `expand_env`: expands `${VAR}` patterns in all sensitive string fields. -/
def expandEnv (env : Env) (c : GatewayConfig) : Except ConfigError GatewayConfig := do
  let connectionString ← expandOpt env c.database.connectionString
  let password ← expandOpt env c.database.password
  let accessKey ← expandOpt env c.file.accessKey
  let secretKey ← expandOpt env c.file.secretKey
  let baseUrl ← expandOpt env c.http.baseUrl
  let apiKey ← expandOpt env c.payment.apiKey
  let paymentSecretKey ← expandOpt env c.payment.secretKey
  let webhookSecret ← expandOpt env c.payment.webhookSecret
  return { c with
    database := { c.database with connectionString, password }
    file := { c.file with accessKey, secretKey }
    http := { c.http with baseUrl }
    payment := { c.payment with apiKey, secretKey := paymentSecretKey, webhookSecret } }

end GatewayConfig

/-- `load_config_from_str`: parses configuration from a TOML string. -/
def loadConfigFromStr (env : Env) (toml : Toml) (tomlStr : String) :
    Except ConfigError GatewayConfig := do
  let expanded ← expandEnvVars env tomlStr
  let config ← (toml.fromStr expanded).mapError .parse
  config.expandEnv env

end SweGateway
