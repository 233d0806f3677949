import SweGateway.Api.Types
import SweGateway.Lib.Serde.Back

/-!
# File types (`api/file.rs`)

`FileStorageConfig.struct` is what serde derives for the configuration: the keys in their order, with
their attributes.  The options keep the fields that the local gateway reads.
-/

namespace SweGateway

open Serde

/-- File storage backend type. -/
inductive FileStorageType where
  | «local»
  | s3
  | gcs
  | azure
  | memory
  deriving DecidableEq, Repr

namespace FileStorageType

def name : FileStorageType → String
  | «local» => "local"
  | s3 => "s3"
  | gcs => "gcs"
  | azure => "azure"
  | memory => "memory"

def codec : Codec FileStorageType := .enumeration name [«local», s3, gcs, azure, memory]

@[simp] theorem lossless_codec : codec.Lossless :=
  Codec.lossless_enumeration fun t => by cases t <;> rfl

end FileStorageType

/-- Configuration for file storage. -/
structure FileStorageConfig where
  /-- Storage backend type. -/
  storageType : FileStorageType := .«local»
  /-- Base path or bucket name. -/
  basePath : String := "."
  /-- Region (for cloud storage). -/
  region : Option String := none
  /-- Access key (for cloud storage). -/
  accessKey : Option String := none
  /-- Secret key (for cloud storage). -/
  secretKey : Option String := none
  /-- Endpoint URL (for S3-compatible storage). -/
  endpoint : Option String := none
  /-- Additional options. -/
  options : HashMap String String := ∅

namespace FileStorageConfig

instance : Inhabited FileStorageConfig := ⟨{}⟩

/-- How the configuration is serialized; missing fields have their defaults. -/
def struct : Struct FileStorageConfig :=
  let d : FileStorageConfig := default
  Struct.iso
    (.and "storage_type" (FileStorageType.codec.field (.ok d.storageType)) <|
      .and "base_path" (Codec.string.field (.ok d.basePath)) <|
      .and "region" (Codec.string.optional (.ok d.region)) <|
      .and "access_key" (Codec.string.optional (.ok d.accessKey)).skipSerializing <|
      .and "secret_key" (Codec.string.optional (.ok d.secretKey)).skipSerializing <|
      .and "endpoint" (Codec.string.optional (.ok d.endpoint)) <|
      .field "options" (Codec.map.field (.ok ∅)))
    { toFun := fun (storageType, basePath, region, accessKey, secretKey, endpoint, options) =>
        { storageType, basePath, region, accessKey, secretKey, endpoint, options }
      invFun := fun c => (c.storageType, c.basePath, c.region, c.accessKey, c.secretKey,
        c.endpoint, c.options)
      left_inv := fun _ => rfl
      right_inv := fun _ => rfl }

end FileStorageConfig

/-- Information about a file in storage. -/
structure FileInfo where
  /-- File path relative to the storage root. -/
  path : String
  /-- File size in bytes. -/
  size : ℕ
  /-- Content type (MIME type). -/
  contentType : Option String
  lastModified : DateTime
  createdAt : Option DateTime
  etag : Option String := none
  /-- Whether this is a directory. -/
  isDirectory : Bool
  metadata : HashMap String String := ∅

/-- Options for listing files. -/
structure ListOptions where
  /-- Prefix to filter files. -/
  keyPrefix : Option String := none
  /-- Delimiter for hierarchical listing. -/
  delimiter : Option String := none
  /-- Maximum number of results. -/
  maxResults : Option ℕ := none

/-- Result of a list operation. -/
structure ListResult where
  /-- Files found. -/
  files : List FileInfo
  /-- Common prefixes (directories) when using delimiter. -/
  prefixes : List String
  nextContinuationToken : Option String := none
  isTruncated : Bool := false

/-- Options for file upload. -/
structure UploadOptions where
  /-- Whether to overwrite existing files. -/
  overwrite : Bool := false

end SweGateway
