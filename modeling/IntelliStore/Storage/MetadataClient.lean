import IntelliStore.Metadata.Routes
import IntelliStore.Storage.Backend

/-! The `MetadataClient` interface and `HttpMetadataClient`. A bearer token stands for the
user id it verifies to, and the path of a request for its file id. -/

namespace IntelliStore.Storage
open Postgres Metadata

abbrev BearerToken := Uuid

structure MetadataClient (μ : Type) where
  registerFile : BearerToken → CreateFileInput → μ → Except Failure RegisterFileResult × μ
  addVersion : BearerToken → String → CreateVersionInput → μ → Except Failure VersionDetail × μ
  getFileDetail : BearerToken → String → μ → Except Failure FileDetail
  getVersionDetail : BearerToken → String → Nat → μ → Except Failure VersionDetail

/-- How one HTTP call ends. -/
inductive CallOutcome where
  | replied
  | refused (e : AppError)
  | unreachable
  | replyLost
  | unreadable
  deriving DecidableEq

/-- The service handled the call, and its reply did not arrive as JSON. -/
def CallOutcome.ambiguous : CallOutcome → Bool
  | .replyLost | .unreadable => true
  | _ => false

namespace HttpMetadataClient
variable {α : Type}

def unreachable : Failure := .app (.badGateway "Metadata service is unreachable")

/-- The error envelope, thrown again by the client. -/
def received (reply : Except ServiceError α) : Except Failure α :=
  reply.mapError fun e => .app e.toAppError

def request (outcome : CallOutcome) (service : Database → Except ServiceError α × Database)
    (d : Database) : Except Failure α × Database :=
  match outcome with
  | .replied => (received (service d).1, (service d).2)
  | .refused e => (.error (.app e), d)
  | .unreachable => (.error unreachable, d)
  -- what `fetch` throws is reported as unreachable, what `res.json` throws is passed on
  | .replyLost => (.error unreachable, (service d).2)
  | .unreadable => (.error .library, (service d).2)

/-- The call is answered, not handled at all, or handled and its reply lost. -/
theorem request_cases (outcome : CallOutcome)
    (service : Database → Except ServiceError α × Database) (d : Database) :
    (outcome.ambiguous = false ∧
      request outcome service d = (received (service d).1, (service d).2)) ∨
    (outcome.ambiguous = false ∧ ∃ e, request outcome service d = (.error e, d)) ∨
    (outcome.ambiguous = true ∧ ∃ e, request outcome service d = (.error e, (service d).2)) := by
  cases outcome with
  | replied => exact .inl ⟨rfl, rfl⟩
  | refused e => exact .inr (.inl ⟨rfl, _, rfl⟩)
  | unreachable => exact .inr (.inl ⟨rfl, _, rfl⟩)
  | replyLost => exact .inr (.inr ⟨rfl, _, rfl⟩)
  | unreadable => exact .inr (.inr ⟨rfl, _, rfl⟩)

end HttpMetadataClient

/-- The outcome of the registration, of `getFileDetail` and of `getVersionDetail`. -/
structure Outcomes where
  registration : CallOutcome
  fileDetail : CallOutcome
  versionDetail : CallOutcome

def Outcomes.replied : Outcomes := ⟨.replied, .replied, .replied⟩

open HttpMetadataClient in
def httpMetadataClient (g : Generated) (outcomes : Outcomes) : MetadataClient Database where
  registerFile token payload :=
    request outcomes.registration (FileRouter.postFile g token payload)
  addVersion token fileId payload :=
    request outcomes.registration (FileRouter.postVersion g token fileId payload)
  getFileDetail token fileId d :=
    (request outcomes.fileDetail (fun d => (FileService.getFile d token fileId, d)) d).1
  getVersionDetail token fileId versionNumber d :=
    (request outcomes.versionDetail
      (fun d => (FileRouter.getVersion d token fileId versionNumber, d)) d).1

end IntelliStore.Storage
