import IntelliStore.Metadata.Postgres

/-! The domain events of `shared-types`. -/

namespace IntelliStore
open Postgres

structure ChunkUploadedEvent where
  chunkId : Uuid
  storageKey : String
  sizeBytes : Nat
  deriving DecidableEq

structure ChunkUploadedBatchEvent where
  fileId : String
  ownerId : Uuid
  fileName : String
  versionId : Uuid
  versionNumber : Nat
  chunks : List ChunkUploadedEvent
  deriving DecidableEq

structure FileAccessedEvent where
  fileId : String
  ownerId : Uuid
  fileName : String
  versionId : Uuid
  versionNumber : Nat
  accessedAt : Nat
  deriving DecidableEq

end IntelliStore
