import IntelliStore.Platform.BodySizes
import IntelliStore.Storage.UploadSpec

/-! What the web client makes of the replies to an upload, on their way from metadata-service
through storage-service and the gateway. -/

namespace IntelliStore
open Library Postgres Metadata

namespace Storage

/-- The reply of the error handler to an error that is no `AppError`. -/
def Failure.toAppError : Failure → AppError
  | .app e => e
  | .library => .internal

def DedupInfo.codec : JsonCodec DedupInfo where
  write dedup := .record [("totalChunks", .ofNat dedup.totalChunks),
    ("storedChunks", .ofNat dedup.storedChunks), ("dedupedChunks", .ofNat dedup.dedupedChunks),
    ("bytesSaved", .ofNat dedup.bytesSaved)]
  read v := do
    let totalChunks ← JsonCodec.nat.field "totalChunks" v
    let storedChunks ← JsonCodec.nat.field "storedChunks" v
    let dedupedChunks ← JsonCodec.nat.field "dedupedChunks" v
    let bytesSaved ← JsonCodec.nat.field "bytesSaved" v
    some ⟨totalChunks, storedChunks, dedupedChunks, bytesSaved⟩
  written dedup := by
    rw [Json.written_record]
    simp
  read_write dedup := by simp [JsonCodec.field, Json.field_record, JsonCodec.nat]

def UploadResult.codec : JsonCodec UploadResult where
  write result := .record ((("file", FileRecord.codec.write result.file) ::
    result.toVersionDetail.members) ++ [("dedup", DedupInfo.codec.write result.dedup)])
  read v := do
    let file ← FileRecord.codec.field "file" v
    let detail ← VersionDetail.read v
    let dedup ← DedupInfo.codec.field "dedup" v
    some ⟨⟨detail, file⟩, dedup⟩
  written result := by
    rw [Json.written_record]
    simp [VersionDetail.members, JsonCodec.written]
  read_write result := by
    simp [VersionDetail.read, VersionDetail.members, JsonCodec.field, Json.field_record,
      JsonCodec.read_write]

/-- The handler of `POST /`, and the error handler behind it; the details are those that the error
carries. -/
def UploadRouter.reply (details : Option Json) : Except Failure UploadResult → HttpReply
  | .ok result => ApiResponse.answer 201 (UploadResult.codec.write result)
  | .error e => ApiResponse.refusal e.toAppError details

end Storage

namespace Gateway

/-- The reply of the proxy: that of the upstream, or its own where there is none. -/
def proxied : Option HttpReply → HttpReply
  | some reply => reply
  | none => ApiResponse.refusal (.badGateway "Upstream service is unavailable") none

end Gateway

namespace Web
open Storage Gateway

structure ApiError where
  message : String
  code : String
  status : Nat
  deriving DecidableEq

def ApiError.ofAppError (e : AppError) : ApiError := ⟨e.message, e.code, e.statusCode⟩

/-- The promise of a call: its data, an `ApiError`, or another error. -/
inductive Received (α : Type) where
  | data (a : α)
  | apiError (e : ApiError)
  | thrown

/-- `unwrap` of `api.ts`, which leaves the details behind. -/
def unwrap {α : Type} (c : JsonCodec α) (reply : HttpReply) : Received α :=
  match ApiResponse.unwrap c.read reply with
  | some (.ok a) => .data a
  | some (.error failure) => .apiError (.ofAppError failure.error)
  | none => .thrown

theorem unwrap_refusal {α : Type} (c : JsonCodec α) (e : AppError) {details : Option Json}
    (h : ∀ v, details = some v → v.Written) :
    unwrap c (ApiResponse.refusal e details) = .apiError (.ofAppError e) := by
  rw [unwrap, ApiResponse.unwrap_refusal c.read e h]

variable {σ μ : Type}

/-- `uploadFile`, answered by an upload service through the gateway. -/
def uploadFile (svc : UploadService σ μ) (details : Option Json) (bearerToken : BearerToken)
    (fileName mimeType : String) (buffer : Bytes) (s : ServiceState σ μ) : Received UploadResult :=
  unwrap UploadResult.codec
    (proxied (some (UploadRouter.reply details
      (svc.uploadNewFile bearerToken fileName mimeType buffer s).1)))

open Platform

end Web
end IntelliStore
