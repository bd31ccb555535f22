import IntelliStore.Storage.UploadService

/-! `DownloadService`. Reads change neither the backend nor the metadata; only the
file-accessed event is left behind. -/

namespace IntelliStore.Storage
open Postgres Metadata

structure DownloadResult where
  buffer : Bytes
  fileName : String
  mimeType : String
  versionNumber : Nat
  deriving DecidableEq

structure DownloadService (σ μ : Type) where
  storageBackend : StorageBackend σ
  metadataClient : MetadataClient μ
  sha256 : Bytes → String

namespace DownloadService
variable {σ μ : Type} (svc : DownloadService σ μ)

/-- `Buffer.concat` of the objects the chunks name. -/
def combined (chunks : List ChunkRecord) (b : σ) : Except Failure Bytes :=
  match chunks.mapM fun chunk => svc.storageBackend.get chunk.storageKey b with
  | .error e => .error e
  | .ok chunkBuffers => .ok chunkBuffers.flatten

def download (bearerToken : BearerToken) (fileId : String) (versionNumber : Option Nat)
    (now : Nat) (s : ServiceState σ μ) : Except Failure DownloadResult × ServiceState σ μ :=
  match svc.metadataClient.getFileDetail bearerToken fileId s.metadata with
  | .error e => (.error e, s)
  | .ok fileDetail =>
    match fileDetail.versions with
    | [] => (.error (.app (.notFound "File has no versions")), s)
    | newest :: _ =>
      let targetVersion := versionNumber.getD newest.versionNumber
      match svc.metadataClient.getVersionDetail bearerToken fileId targetVersion s.metadata with
      | .error e => (.error e, s)
      | .ok versionDetail =>
        match svc.combined versionDetail.chunks s.backend with
        | .error e => (.error e, s)
        | .ok buffer =>
          if svc.sha256 buffer ≠ versionDetail.version.checksum then
            (.error (.app (.integrityFailure "Reconstructed file failed checksum verification")), s)
          else
            (.ok ⟨buffer, fileDetail.file.fileName, versionDetail.version.mimeType,
                versionDetail.version.versionNumber⟩,
              { s with fileAccesses := s.fileAccesses ++ [⟨fileId, fileDetail.file.ownerId,
                fileDetail.file.fileName, versionDetail.version.id,
                versionDetail.version.versionNumber, now⟩] })

end DownloadService

def containerDownloadService (sha256 : Bytes → String) (g : Generated) (outcomes : Outcomes) :
    DownloadService Bucket Database where
  storageBackend := minioStorageBackend .none
  metadataClient := httpMetadataClient g outcomes
  sha256 := sha256

end IntelliStore.Storage
