import IntelliStore.Library.Runs
import IntelliStore.Storage.DownloadService
import IntelliStore.Storage.UploadSpec

/-! The platform as its users see it: uploads and downloads at storage-service, and calls of
metadata-service, one after the other over one bucket and one database. -/

namespace IntelliStore.Platform
open Postgres Library Metadata Storage

abbrev World := ServiceState Bucket Database

def World.empty : World := ⟨.ofObjects ∅, .empty, [], []⟩

structure Upload where
  ownerId : BearerToken
  target : Target
  mimeType : String
  buffer : Bytes
  chunkSizeBytes : ℕ+
  generated : Generated
  outcomes : Outcomes

structure Download where
  ownerId : BearerToken
  fileId : String
  versionNumber : Option Nat
  now : Nat
  generated : Generated
  outcomes : Outcomes

inductive Op where
  | upload (u : Upload)
  | download (q : Download)
  | metadata (r : Metadata.Request)

inductive Reply where
  | uploaded (result : Except Failure VersionUploadResult)
  | downloaded (result : Except Failure DownloadResult)
  | metadata (result : Except ServiceError Response)

variable (sha256 : Bytes → String) (fold : Char → Char)

namespace Upload
variable (u : Upload)

def pieces : List ChunkPiece := splitIntoChunks sha256 u.buffer u.chunkSizeBytes

def service : UploadService Bucket Database :=
  containerUploadService sha256 u.chunkSizeBytes .none u.generated u.outcomes

def payload : CreateVersionInput := (u.service sha256).payload u.mimeType u.buffer

/-- The ids metadata-service generates when it handles the registration. -/
def newIds : List Uuid := u.generated.ids (u.pieces sha256).length

def run (w : World) : Except Failure VersionUploadResult × World :=
  (u.service sha256).upload u.ownerId u.target u.mimeType u.buffer w

end Upload

def Download.run (q : Download) (w : World) : Except Failure DownloadResult × World :=
  (containerDownloadService sha256 q.generated q.outcomes).download q.ownerId q.fileId
    q.versionNumber q.now w

def Op.newIds : Op → List Uuid
  | .upload u => u.newIds sha256
  | .download _ => []
  | .metadata r => r.newIds

def step (w : World) : Op → Reply × World
  | .upload u =>
    let res := u.run sha256 w
    (.uploaded res.1, res.2)
  | .download q =>
    let res := q.run sha256 w
    (.downloaded res.1, res.2)
  | .metadata r =>
    let res := FileRouter.handle fold w.metadata r
    (.metadata res.1, { w with metadata := res.2 })

/-! ### What metadata-service does with a registration -/

namespace Upload
variable (u : Upload) (d : Database)

/-- The answer of metadata-service to the registration it is sent. -/
def served : Except ServiceError VersionDetail × Database :=
  match u.target with
  | .newFile fileName =>
    let res := FileRouter.postFile u.generated u.ownerId ⟨u.payload sha256, fileName⟩ d
    (res.1.map RegisterFileResult.toVersionDetail, res.2)
  | .newVersion fileId => FileRouter.postVersion u.generated u.ownerId fileId (u.payload sha256) d

def Accepted : Prop := ∃ result, (u.served sha256 d).1 = .ok result

end Upload
end IntelliStore.Platform
