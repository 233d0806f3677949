import SweGateway.Api.Json
import SweGateway.Lib.Serde.Back

/-!
# The database gateway's types (`api/database.rs`)
-/

namespace SweGateway

open Serde

/-- Database backend type. -/
inductive DatabaseType where
  | memory
  | postgres
  | mySql
  | sqlite
  | mongoDb
  deriving DecidableEq, Repr

namespace DatabaseType

def name : DatabaseType → String
  | memory => "memory"
  | postgres => "postgres"
  | mySql => "mysql"
  | sqlite => "sqlite"
  | mongoDb => "mongodb"

def codec : Codec DatabaseType := .enumeration name [memory, postgres, mySql, sqlite, mongoDb]

@[simp] theorem lossless_codec : codec.Lossless :=
  Codec.lossless_enumeration fun t => by cases t <;> rfl

end DatabaseType

/-- Configuration for database connections. -/
structure DatabaseConfig where
  /-- Database backend type. -/
  databaseType : DatabaseType := .memory
  /-- Connection string or URL. -/
  connectionString : Option String := none
  host : Option String := none
  port : Option UInt16 := none
  /-- Database name. -/
  database : Option String := none
  username : Option String := none
  password : Option String := none
  /-- Maximum number of connections in the pool. -/
  maxConnections : Option UInt32 := some 10
  connectTimeoutSecs : Option UInt64 := some 30
  /-- Additional options. -/
  options : HashMap String String := ∅

namespace DatabaseConfig

instance : Inhabited DatabaseConfig := ⟨{}⟩

/-- How the configuration is serialized; missing fields have their defaults. -/
def struct : Struct DatabaseConfig :=
  let d : DatabaseConfig := default
  Struct.iso
    (.and "database_type" (DatabaseType.codec.field (.ok d.databaseType)) <|
      .and "connection_string" (Codec.string.optional (.ok d.connectionString)) <|
      .and "host" (Codec.string.optional (.ok d.host)) <|
      .and "port" (Codec.u16.optional (.ok d.port)) <|
      .and "database" (Codec.string.optional (.ok d.database)) <|
      .and "username" (Codec.string.optional (.ok d.username)) <|
      .and "password" (Codec.string.optional (.ok d.password)).skipSerializing <|
      .and "max_connections" (Codec.u32.optional (.ok d.maxConnections)) <|
      .and "connect_timeout_secs" (Codec.u64.optional (.ok d.connectTimeoutSecs)) <|
      .field "options" (Codec.map.field (.ok ∅)))
    { toFun := fun (databaseType, connectionString, host, port, database, username, password,
          maxConnections, connectTimeoutSecs, options) =>
        { databaseType, connectionString, host, port, database, username, password,
          maxConnections, connectTimeoutSecs, options }
      invFun := fun c => (c.databaseType, c.connectionString, c.host, c.port, c.database,
        c.username, c.password, c.maxConnections, c.connectTimeoutSecs, c.options)
      left_inv := fun _ => rfl
      right_inv := fun _ => rfl }

end DatabaseConfig

/-- A database record, by field. -/
abbrev Record := HashMap String Value

/-- Query parameters for database operations. -/
structure QueryParams where
  /-- Filter conditions, by filter key. -/
  filters : HashMap String Value
  /-- Fields to select; all if there are none. -/
  select : List String
  orderBy : Option String
  orderDesc : Bool
  /-- The number of records to skip. -/
  offset : Option ℕ
  /-- The maximum number of records to return. -/
  limit : Option ℕ

namespace QueryParams

/-- Query parameters that ask for everything. -/
def new : QueryParams where
  filters := ∅
  select := []
  orderBy := none
  orderDesc := false
  offset := none
  limit := none

/-- Adds a filter condition. -/
def filter (params : QueryParams) (key : String) (value : Value) : QueryParams :=
  { params with filters := params.filters.insert key value }

end QueryParams

/-- The result of a write operation. -/
structure WriteResult where
  rowsAffected : ℕ
  /-- The id of the inserted record, for inserts. -/
  insertedId : Option String
  deriving DecidableEq, Repr

namespace WriteResult

def new (rowsAffected : ℕ) : WriteResult := { rowsAffected := rowsAffected, insertedId := none }

def inserted (id : String) : WriteResult := { rowsAffected := 1, insertedId := some id }

end WriteResult

end SweGateway
