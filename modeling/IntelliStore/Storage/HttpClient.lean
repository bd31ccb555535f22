import IntelliStore.Metadata.Messages
import IntelliStore.Storage.MetadataClient

/-! `HttpMetadataClient` on the bytes of its requests and replies, and the handlers of `fileRouter`
that answer them. -/

namespace IntelliStore
open Library Postgres Metadata

/-- The library of the schemas: what it reports of a body that does not match. -/
structure Zod where
  flatten : Json → Json
  written : ∀ body, (flatten body).Written

namespace Metadata.FileRouter
variable {α β : Type} (zod : Zod) (g : Generated)

/-- `res.status(status).json({ success: true, data })`, or the reply of the error handler. -/
def reply (status : Nat) (output : JsonCodec β) : Except ServiceError β → HttpReply
  | .ok b => ApiResponse.answer status (output.write b)
  | .error e => ApiResponse.refusal e.toAppError none

/-- `express.json()`, `validateBody(schema)` and the handler behind them. -/
def answerBody (input : JsonCodec α) (schema : α → Bool) (output : JsonCodec β)
    (handler : α → Database → Except ServiceError β × Database) (body : List UInt8)
    (d : Database) : HttpReply × Database :=
  match jsonBody body with
  | none => (ApiResponse.refusal .internal none, d)
  | some json =>
    match (input.read json).filter schema with
    | none =>
      (ApiResponse.refusal (.badRequest "Validation failed") (some (zod.flatten json)), d)
    | some a => (reply 201 output (handler a d).1, (handler a d).2)

def answerPostFile (ownerId : Uuid) : List UInt8 → Database → HttpReply × Database :=
  answerBody zod CreateFileInput.codec createFileSchema RegisterFileResult.codec
    (FileService.registerFile g ownerId)

def answerPostVersion (ownerId : Uuid) (fileId : String) :
    List UInt8 → Database → HttpReply × Database :=
  answerBody zod CreateVersionInput.codec createVersionSchema VersionDetail.codec
    (FileService.addVersion g ownerId fileId)

def answerGetFile (ownerId : Uuid) (fileId : String) (d : Database) : HttpReply :=
  reply 200 FileDetail.codec (FileService.getFile d ownerId fileId)

def answerGetVersion (ownerId : Uuid) (fileId : String) (versionNumber : Nat) (d : Database) :
    HttpReply :=
  reply 200 VersionDetail.codec (getVersion d ownerId fileId versionNumber)

end Metadata.FileRouter

namespace Storage.HttpMetadataClient
variable {α β : Type}

/-- What the client makes of a reply. The details of an error go with it. -/
def readReply (c : JsonCodec β) (reply : HttpReply) : Except Failure β :=
  match ApiResponse.unwrap c.read reply with
  | some (.ok b) => .ok b
  | some (.error thrown) => .error (.app thrown.error)
  | none => .error .library

def fetchJson (outcome : CallOutcome) (c : JsonCodec β)
    (service : Database → HttpReply × Database) (d : Database) : Except Failure β × Database :=
  match outcome with
  | .replied => (readReply c (service d).1, (service d).2)
  | .refused e => (readReply c (ApiResponse.refusal e none), d)
  | .unreachable => (.error unreachable, d)
  | .replyLost => (.error unreachable, (service d).2)
  | .unreadable => (.error .library, (service d).2)

end Storage.HttpMetadataClient

namespace Storage
open FileRouter HttpMetadataClient

/-- How the call ends for a client that sends this body: a body above the limit is refused before
the handler. -/
@[irreducible] def CallOutcome.carrying (outcome : CallOutcome) (body : List UInt8) : CallOutcome :=
  if body.length ≤ bodyLimit then outcome
  else match outcome with
    | .replied => .refused .internal
    | .replyLost => .unreachable
    | outcome => outcome

namespace HttpMetadataClient
variable {α β : Type} {zod : Zod}

theorem readReply_answer (c : JsonCodec β) (status : Nat) (b : β) :
    readReply c (ApiResponse.answer status (c.write b)) = .ok b := by
  rw [readReply, ApiResponse.unwrap_answer]

theorem readReply_refusal (c : JsonCodec β) (e : AppError) {details : Option Json}
    (h : ∀ v, details = some v → v.Written) :
    readReply c (ApiResponse.refusal e details) = .error (.app e) := by
  rw [readReply, ApiResponse.unwrap_refusal c.read e h]

theorem readReply_refused (c : JsonCodec β) (e : AppError) :
    readReply c (ApiResponse.refusal e none) = .error (.app e) :=
  readReply_refusal c e fun _ h => by cases h

/-- The result of a handler comes back as the client of the model has it. -/
theorem readReply_reply (c : JsonCodec β) (status : Nat) (result : Except ServiceError β) :
    readReply c (reply status c result) = received result := by
  cases result with
  | ok b => exact readReply_answer c status b
  | error e => exact readReply_refused c e.toAppError

/-- A call whose reply is read like the result of a handler. -/
theorem fetchJson_eq {outcome : CallOutcome} {c : JsonCodec β}
    {service : Database → HttpReply × Database}
    {handler : Database → Except ServiceError β × Database}
    (h : ∀ d, readReply c (service d).1 = received (handler d).1 ∧
      (service d).2 = (handler d).2) (d : Database) :
    fetchJson outcome c service d = request outcome handler d := by
  obtain ⟨hreply, hstate⟩ := h d
  cases outcome with
  | replied =>
    rw [fetchJson, hreply, hstate]
    rfl
  | refused e =>
    rw [fetchJson, readReply_refused]
    rfl
  | unreachable => rfl
  | replyLost =>
    rw [fetchJson, hstate]
    rfl
  | unreadable =>
    rw [fetchJson, hstate]
    rfl

variable {input : JsonCodec α} {schema : α → Bool} {output : JsonCodec β}
  {handler : α → Database → Except ServiceError β × Database} {a : α}

/-- A body within the limit is validated and handled. -/
theorem answerBody_fits {members : List (String × Json)} (hrecord : input.write a = .record members)
    (hfits : (input.encode a).length ≤ bodyLimit) (d : Database) :
    readReply output (answerBody zod input schema output handler (input.encode a) d).1 =
        received (validateBody (schema a) (handler a) d).1 ∧
      (answerBody zod input schema output handler (input.encode a) d).2 =
        (validateBody (schema a) (handler a) d).2 := by
  have hbody : jsonBody (input.encode a) = some (input.write a) := by
    rw [jsonBody_encode input hrecord, if_pos hfits]
  unfold answerBody
  simp only [hbody, input.read_write, Option.filter]
  unfold validateBody
  split_ifs with hschema
  · exact ⟨readReply_reply output 201 _, rfl⟩
  · refine ⟨readReply_refusal output _ ?_, rfl⟩
    intro v hv
    cases hv
    exact zod.written _

/-- A body that is not parsed is refused, and nothing is changed. -/
theorem answerBody_unparsed (zod : Zod) (input : JsonCodec α) (schema : α → Bool)
    (output : JsonCodec β) (handler : α → Database → Except ServiceError β × Database)
    {body : List UInt8} (h : jsonBody body = none) (d : Database) :
    answerBody zod input schema output handler body d = (ApiResponse.refusal .internal none, d) := by
  unfold answerBody
  rw [h]

theorem jsonBody_above {members : List (String × Json)} (hrecord : input.write a = .record members)
    (habove : ¬(input.encode a).length ≤ bodyLimit) : jsonBody (input.encode a) = none := by
  rw [jsonBody_encode input hrecord, if_neg habove]

/-- Whatever becomes of a call that the body parser refuses, it registers nothing. -/
theorem fetchJson_refused {service : Database → HttpReply × Database} {d : Database}
    (h : service d = (ApiResponse.refusal .internal none, d)) (outcome : CallOutcome)
    (output : JsonCodec β) :
    ∃ e, fetchJson outcome output service d = (.error e, d) ∧
      (outcome = .replied → e = .app .internal) := by
  cases outcome with
  | replied =>
    refine ⟨.app .internal, ?_, fun _ => rfl⟩
    rw [fetchJson, h, readReply_refused]
  | refused e =>
    refine ⟨.app e, ?_, fun h => by cases h⟩
    rw [fetchJson, readReply_refused]
  | unreachable => exact ⟨unreachable, rfl, fun h => by cases h⟩
  | replyLost =>
    refine ⟨unreachable, ?_, fun h => by cases h⟩
    rw [fetchJson, h]
  | unreadable =>
    refine ⟨.library, ?_, fun h => by cases h⟩
    rw [fetchJson, h]

/-- The call over HTTP is the call of the model. Only a body above the limit and an unreadable reply
together have no counterpart. -/
theorem fetchJson_answerBody {members : List (String × Json)}
    (hrecord : input.write a = .record members) {outcome : CallOutcome}
    (houtcome : outcome = .unreadable → (input.encode a).length ≤ bodyLimit) (d : Database) :
    fetchJson outcome output (answerBody zod input schema output handler (input.encode a)) d =
      request (outcome.carrying (input.encode a)) (validateBody (schema a) (handler a)) d := by
  unfold CallOutcome.carrying
  split_ifs with hfits
  · exact fetchJson_eq (answerBody_fits hrecord hfits) d
  · have habove := answerBody_unparsed zod input schema output handler
      (jsonBody_above hrecord hfits) d
    cases outcome with
    | replied =>
      rw [fetchJson, habove, readReply_refused]
      rfl
    | refused e =>
      rw [fetchJson, readReply_refused]
      rfl
    | unreachable => rfl
    | replyLost =>
      rw [fetchJson, habove]
      rfl
    | unreadable => exact absurd (houtcome rfl) hfits

end HttpMetadataClient
end Storage
end IntelliStore
