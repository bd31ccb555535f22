import IntelliStore.SharedTypes
import IntelliStore.Storage.MetadataClient

/-! `UploadService`, over any backend and any metadata client. The state of the service is
that of its backend and of its client, and the events it handed to the publisher. -/

namespace IntelliStore.Storage
open Postgres Metadata

structure DedupInfo where
  totalChunks : Nat
  storedChunks : Nat
  dedupedChunks : Nat
  bytesSaved : Nat
  deriving DecidableEq

structure UploadResult extends RegisterFileResult where
  dedup : DedupInfo
  deriving DecidableEq

structure VersionUploadResult extends VersionDetail where
  dedup : DedupInfo
  deriving DecidableEq

structure StoredChunks where
  newlyWrittenKeys : List String
  payload : CreateVersionInput
  dedup : DedupInfo
  deriving DecidableEq

structure ServiceState (σ μ : Type) where
  backend : σ
  metadata : μ
  chunkUploads : List ChunkUploadedBatchEvent
  fileAccesses : List FileAccessedEvent

/-- The variables of the loop in `storeChunks`. -/
structure StoreLoop where
  newlyWrittenKeys : List String
  dedupedChunks : Nat
  bytesSaved : Nat

structure UploadService (σ μ : Type) where
  storageBackend : StorageBackend σ
  metadataClient : MetadataClient μ
  sha256 : Bytes → String
  chunkSizeBytes : ℕ+

def ChunkPiece.payload (p : ChunkPiece) : ChunkInput :=
  ⟨p.index, p.sizeBytes, p.checksum, chunkKey p.checksum⟩

namespace UploadService
variable {σ μ α : Type} (svc : UploadService σ μ)

def chunkUploadedEvent (fileId : String) (ownerId : Uuid) (fileName : String)
    (result : VersionDetail) : ChunkUploadedBatchEvent where
  fileId := fileId
  ownerId := ownerId
  fileName := fileName
  versionId := result.version.id
  versionNumber := result.version.versionNumber
  chunks := result.chunks.map fun chunk => ⟨chunk.id, chunk.storageKey, chunk.sizeBytes⟩

def publishChunkUploaded (fileId : String) (ownerId : Uuid) (fileName : String)
    (result : VersionDetail) (s : ServiceState σ μ) : ServiceState σ μ :=
  { s with chunkUploads := s.chunkUploads ++ [chunkUploadedEvent fileId ownerId fileName result] }

def storePieces (backend : StorageBackend σ) :
    List ChunkPiece → StoreLoop → σ → Except Failure StoreLoop × σ
  | [], loop, b => (.ok loop, b)
  | piece :: pieces, loop, b =>
    match backend.exists_ piece.key b with
    -- stored by another upload, or by an equal piece earlier in this buffer
    | (true, b) =>
      storePieces backend pieces { loop with
        dedupedChunks := loop.dedupedChunks + 1
        bytesSaved := loop.bytesSaved + piece.sizeBytes } b
    | (false, b) =>
      match backend.put piece.key piece.data b with
      -- the keys written before are lost with the error
      | (.error e, b) => (.error e, b)
      | (.ok (), b) =>
        storePieces backend pieces
          { loop with newlyWrittenKeys := loop.newlyWrittenKeys ++ [piece.key] } b

def payload (mimeType : String) (buffer : Bytes) : CreateVersionInput where
  mimeType := mimeType
  checksum := svc.sha256 buffer
  chunks := (splitIntoChunks svc.sha256 buffer svc.chunkSizeBytes).map ChunkPiece.payload

def storeChunks (buffer : Bytes) (mimeType : String) (b : σ) : Except Failure StoredChunks × σ :=
  if buffer.length = 0 then (.error (.app (.badRequest "Cannot upload an empty file")), b)
  else
    let pieces := splitIntoChunks svc.sha256 buffer svc.chunkSizeBytes
    match storePieces svc.storageBackend pieces ⟨[], 0, 0⟩ b with
    | (.error e, b) => (.error e, b)
    | (.ok loop, b) => (.ok {
        newlyWrittenKeys := loop.newlyWrittenKeys
        payload := svc.payload mimeType buffer
        dedup := ⟨pieces.length, loop.newlyWrittenKeys.length, loop.dedupedChunks,
          loop.bytesSaved⟩ }, b)

/-- `Promise.allSettled` of the deletes: a failing one stops none of the others. -/
def deleteAll (backend : StorageBackend σ) (chunkKeys : List String) (b : σ) : σ :=
  chunkKeys.foldl (fun b key => (backend.delete key b).2) b

def registerWithCleanup (chunkKeys : List String) (register : μ → Except Failure α × μ)
    (s : ServiceState σ μ) : Except Failure α × ServiceState σ μ :=
  match register s.metadata with
  | (.ok result, m) => (.ok result, { s with metadata := m })
  | (.error e, m) =>
    (.error e, { s with
      metadata := m, backend := deleteAll svc.storageBackend chunkKeys s.backend })

def uploadNewFile (bearerToken : BearerToken) (fileName mimeType : String) (buffer : Bytes)
    (s : ServiceState σ μ) : Except Failure UploadResult × ServiceState σ μ :=
  match svc.storeChunks buffer mimeType s.backend with
  | (.error e, b) => (.error e, { s with backend := b })
  | (.ok stored, b) =>
    match svc.registerWithCleanup stored.newlyWrittenKeys
        (svc.metadataClient.registerFile bearerToken ⟨stored.payload, fileName⟩)
        { s with backend := b } with
    | (.error e, s) => (.error e, s)
    | (.ok result, s) =>
      (.ok ⟨result, stored.dedup⟩, publishChunkUploaded (uuidOut result.file.id)
        result.file.ownerId result.file.fileName result.toVersionDetail s)

def uploadNewVersion (bearerToken : BearerToken) (fileId mimeType : String) (buffer : Bytes)
    (s : ServiceState σ μ) : Except Failure VersionUploadResult × ServiceState σ μ :=
  match svc.storeChunks buffer mimeType s.backend with
  | (.error e, b) => (.error e, { s with backend := b })
  | (.ok stored, b) =>
    match svc.registerWithCleanup stored.newlyWrittenKeys
        (svc.metadataClient.addVersion bearerToken fileId stored.payload)
        { s with backend := b } with
    | (.error e, s) => (.error e, s)
    | (.ok result, s) =>
      -- the version is committed; an error from here on is thrown without a cleanup
      match svc.metadataClient.getFileDetail bearerToken fileId s.metadata with
      | .error e => (.error e, s)
      | .ok detail =>
        (.ok ⟨result, stored.dedup⟩,
          publishChunkUploaded fileId detail.file.ownerId detail.file.fileName result s)

end UploadService

/-! ### The upload routes of `uploadRouter` -/

inductive Target where
  | newFile (fileName : String)
  | newVersion (fileId : String)
  deriving DecidableEq

/-- The service as `container.ts` builds it, for one upload. -/
def containerUploadService (sha256 : Bytes → String) (chunkSizeBytes : ℕ+) (faults : Faults)
    (g : Generated) (outcomes : Outcomes) : UploadService Bucket Database where
  storageBackend := minioStorageBackend faults
  metadataClient := httpMetadataClient g outcomes
  sha256 := sha256
  chunkSizeBytes := chunkSizeBytes

namespace UploadService
variable {σ μ : Type} (svc : UploadService σ μ)

/-- The registration an upload asks for. -/
def register (bearerToken : BearerToken) (target : Target) (payload : CreateVersionInput) (m : μ) :
    Except Failure VersionDetail × μ :=
  match target with
  | .newFile fileName =>
    let res := svc.metadataClient.registerFile bearerToken ⟨payload, fileName⟩ m
    (res.1.map RegisterFileResult.toVersionDetail, res.2)
  | .newVersion fileId => svc.metadataClient.addVersion bearerToken fileId payload m

def upload (bearerToken : BearerToken) (target : Target) (mimeType : String) (buffer : Bytes)
    (s : ServiceState σ μ) : Except Failure VersionUploadResult × ServiceState σ μ :=
  match target with
  | .newFile fileName =>
    let res := svc.uploadNewFile bearerToken fileName mimeType buffer s
    (res.1.map fun result => ⟨result.toVersionDetail, result.dedup⟩, res.2)
  | .newVersion fileId => svc.uploadNewVersion bearerToken fileId mimeType buffer s

end UploadService
end IntelliStore.Storage
