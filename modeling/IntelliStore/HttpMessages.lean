import IntelliStore.AppError
import IntelliStore.Library.IsoDate
import IntelliStore.Library.JsonCodec
import IntelliStore.Metadata.Postgres

/-! The bodies of requests and replies: `ApiResponse`, `express.json()`, the error handler of
`createApp`, and what a client makes of a reply. -/

namespace IntelliStore
open Library Postgres

namespace Wire

def uuid : JsonCodec Uuid := .text uuidOut uuidIn uuidIn_uuidOut

/-- `Date.prototype.toJSON`, and `new Date` of its text. -/
def timestamp : JsonCodec Nat :=
  .text (fun time => String.ofList (IsoDate.toISOString time))
    (fun text => IsoDate.parseISOString text.toList)
    fun time => by rw [String.toList_ofList, IsoDate.parse_toISOString]

end Wire

structure HttpReply where
  status : Nat
  body : List UInt8

/-- `res.status(status).json(v)` -/
def HttpReply.json (status : Nat) (v : Json) : HttpReply := ⟨status, utf8Encode v.stringify⟩

/-- `res.json()` of the client; `none` is its SyntaxError. -/
def HttpReply.value (reply : HttpReply) : Option Json := Json.parse (utf8Decode reply.body)

theorem HttpReply.value_json {v : Json} (h : v.Written) (status : Nat) :
    (HttpReply.json status v).value = some v := by
  rw [HttpReply.value, HttpReply.json, utf8Decode_encode, Json.parse_stringify h]

namespace ApiResponse
variable {α : Type}

def success (data : Json) : Json := .record [("success", .bool true), ("data", data)]

/-- `details` is left out where it is undefined. -/
def failure (e : AppError) (details : Option Json) : Json :=
  .record [("success", .bool false),
    ("error", .record ([("code", .ofString e.code), ("message", .ofString e.message)] ++
      details.toList.map fun v => ("details", v)))]

/-- What a client throws for a failure. -/
structure Thrown where
  error : AppError
  details : Option Json

/-- The data of a reply, or what the client throws; `none` if the reply is no `ApiResponse`. -/
def unwrap (read : Json → Option α) (reply : HttpReply) : Option (Except Thrown α) :=
  reply.value.bind fun json =>
    match json.field "success" with
    | some (.bool true) => ((json.field "data").bind read).map .ok
    | _ =>
      (json.field "error").bind fun error => do
        let code ← JsonCodec.string.field "code" error
        let message ← JsonCodec.string.field "message" error
        some (.error ⟨⟨reply.status, code, message⟩, error.field "details"⟩)

/-- The reply of a handler that returned. -/
def answer (status : Nat) (data : Json) : HttpReply := .json status (success data)

/-- The reply of the error handler. -/
def refusal (e : AppError) (details : Option Json) : HttpReply :=
  .json e.statusCode (failure e details)

theorem unwrap_answer (c : JsonCodec α) (status : Nat) (a : α) :
    unwrap c.read (answer status (c.write a)) = some (.ok a) := by
  have hwritten : (success (c.write a)).Written := by
    rw [success, Json.written_record]
    simp [Json.Written, c.written]
  rw [unwrap, answer, HttpReply.value_json hwritten, Option.bind_some, success,
    Json.field_record, Json.field_record]
  show ((some (c.write a)).bind c.read).map _ = _
  rw [Option.bind_some, c.read_write]
  rfl

theorem unwrap_refusal (read : Json → Option α) (e : AppError) {details : Option Json}
    (h : ∀ v, details = some v → v.Written) :
    unwrap read (refusal e details) = some (.error ⟨e, details⟩) := by
  have herror : ∀ m ∈ [("code", Json.ofString e.code), ("message", .ofString e.message)] ++
      details.toList.map (fun v => ("details", v)), m.2.Written := by
    intro m hm
    rcases List.mem_append.mp hm with hm | hm
    · simp only [List.mem_cons, List.not_mem_nil, or_false] at hm
      rcases hm with rfl | rfl <;> exact Json.written_ofString _
    · obtain ⟨v, hv, rfl⟩ := List.mem_map.mp hm
      exact h v (Option.mem_toList.mp hv)
  have hwritten : (failure e details).Written := by
    rw [failure, Json.written_record]
    simp only [List.forall_mem_cons, Json.written_record]
    exact ⟨by simp only [Json.Written], herror, by simp⟩
  rw [unwrap, refusal, HttpReply.value_json hwritten, Option.bind_some]
  cases details with
  | none => simp [failure, Json.field_record, JsonCodec.field, JsonCodec.string, HttpReply.json]
  | some v => simp [failure, Json.field_record, JsonCodec.field, JsonCodec.string, HttpReply.json]

end ApiResponse

/-! ### The bodies of requests -/

/-- The limit of `express.json()`, 100kb. -/
def bodyLimit : Nat := 100 * 1024

/-- `express.json()`; its errors are no `AppError`. -/
def jsonBody (body : List UInt8) : Option Json :=
  if body.length ≤ bodyLimit then
    match Json.parse (utf8Decode body) with
    | some (.object members) => some (.object members)
    | some (.array items) => some (.array items)
    | _ => none
  else none

theorem jsonBody_encode {α : Type} (c : JsonCodec α) {a : α} {members : List (String × Json)}
    (hrecord : c.write a = .record members) :
    jsonBody (c.encode a) =
      if (c.encode a).length ≤ bodyLimit then some (c.write a) else none := by
  rw [jsonBody, c.parse_encode, hrecord]
  rfl

end IntelliStore
