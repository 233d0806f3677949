import SweGateway.Lib.OsPath
import SweGateway.Saf.Config

/-!
# Finding and checking the configuration (`saf/config.rs`)

`loadConfig` looks for `gateway.toml` in the current directory and in the directories above it, one
after the other, and loads the first one that it finds.  `validate` collects what is missing of the
fields that the configuration needs.

`ConfigFiles` is what loading sees of the process and of its files.  A path is given by the names on
the way to it from the root, the last one first.
-/

namespace SweGateway

open LexicalPath

/-- What loading sees of the process and of its files. -/
structure ConfigFiles where
  currentDir : Except String (List OsName)
  isFile : List OsName → Bool
  /-- Fails if the contents are not text. -/
  readToString : List OsName → Except String String

/-- The errors of loading a file. -/
inductive LoadError where
  /-- Failed to read the config file from disk. -/
  | io (text : String)
  /-- The contents of the file are not loaded. -/
  | contents (e : ConfigError)
  deriving DecidableEq, Repr

/-- The configuration file of a directory. -/
def candidate (dir : List OsName) : List OsName := .utf8 "gateway.toml".toList :: dir

section

variable (env : Env) (toml : Toml) (files : ConfigFiles)

/-- `load_config_from`: loads configuration from an explicit file path. -/
def loadConfigFrom (path : List OsName) : Except LoadError GatewayConfig := do
  let content ← (files.readToString path).mapError .io
  (loadConfigFromStr env toml content).mapError .contents

/-- The loop of `load_config`, from a directory upward. -/
def loadConfigUpward : List OsName → Except LoadError GatewayConfig
  | [] =>
    if files.isFile (candidate []) then loadConfigFrom env toml files (candidate [])
    else .ok default
  | name :: dir =>
    if files.isFile (candidate (name :: dir)) then
      loadConfigFrom env toml files (candidate (name :: dir))
    else loadConfigUpward dir

/-- `load_config`: loads `gateway.toml` by searching from the current directory upward. -/
def loadConfig : Except LoadError GatewayConfig := do
  let dir ← files.currentDir.mapError .io
  loadConfigUpward env toml files dir

end

/-! ### Validation -/

/-- Whether a field is there and not empty. -/
def isSet (field : Option String) : Bool := field.any fun s => !s.isEmpty

/-- How `{:?}` writes the type. -/
def DatabaseType.debug : DatabaseType → String
  | memory => "Memory"
  | postgres => "Postgres"
  | mySql => "MySql"
  | sqlite => "Sqlite"
  | mongoDb => "MongoDb"

/-- How `{:?}` writes the type. -/
def FileStorageType.debug : FileStorageType → String
  | «local» => "Local"
  | s3 => "S3"
  | gcs => "Gcs"
  | azure => "Azure"
  | memory => "Memory"

/-- How `{:?}` writes the provider. -/
def PaymentProvider.debug : PaymentProvider → String
  | mock => "Mock"
  | stripe => "Stripe"
  | payPal => "PayPal"
  | square => "Square"
  | braintree => "Braintree"

/-- What is missing of the section, with the message about it. -/
def DatabaseConfig.missing (c : DatabaseConfig) : List String :=
  match c.databaseType with
  | .postgres | .mySql | .mongoDb | .sqlite =>
    if !isSet c.connectionString && !(isSet c.host && isSet c.database) then
      ["[database] " ++ c.databaseType.debug ++
        " requires 'connection_string' or both 'host' and 'database'"]
    else []
  | .memory => []

/-- What is missing of the section, with the message about it. -/
def FileStorageConfig.missing (c : FileStorageConfig) : List String :=
  match c.storageType with
  | .s3 | .gcs | .azure =>
    if !isSet c.region then ["[file] " ++ c.storageType.debug ++ " storage requires 'region'"]
    else []
  | .«local» | .memory => []

/-- What is missing of the section, with the message about it. -/
def PaymentConfig.missing (c : PaymentConfig) : List String :=
  match c.provider with
  | .mock => []
  | provider =>
    if !isSet c.apiKey then ["[payment] " ++ provider.debug ++ " provider requires 'api_key'"]
    else []

/-- What is missing of the section, with the message about it. -/
def SinkConfig.missing (c : SinkConfig) : List String :=
  if c.sinkType = .file ∧ !isSet c.path then ["[sink] File sink requires 'path'"] else []

namespace GatewayConfig

/-- What is missing, section by section. -/
def missing (c : GatewayConfig) : List String :=
  c.database.missing ++ c.file.missing ++ c.payment.missing ++ c.sink.missing

/-- `validate`: fails with the messages about all missing fields. -/
def validate (c : GatewayConfig) : Except String Unit :=
  if c.missing = [] then .ok ()
  else .error ("missing required fields:\n  - " ++ "\n  - ".intercalate c.missing)

end GatewayConfig

end SweGateway
