import IntelliStore.HttpMessages
import IntelliStore.SharedQueue
import IntelliStore.SharedTypes

/-! What `publishJson` and `publishEvent` put on the wire, and what the callbacks of the consumers
make of it. -/

namespace IntelliStore
open Library Postgres

namespace SharedQueue

/-- `Buffer.from(JSON.stringify(payload))` -/
def content (payload : Json) : List UInt8 := utf8Encode payload.stringify

/-- The default exchange routes by the name of the queue. -/
def publishJson (queueName : String) (payload : Json) : Message := ⟨content payload, queueName⟩

def publishEvent (routingKey : String) (payload : Json) : Message := ⟨content payload, routingKey⟩

theorem payload_content {payload : Json} (h : payload.Written) (routingKey : String) :
    Message.payload ⟨content payload, routingKey⟩ = .ok payload := by
  rw [Message.payload, content, utf8Decode_encode, Json.parse_stringify h]

end SharedQueue

/-! ### The events of the storage service -/

namespace ChunkUploadedEvent

def toJson (chunk : ChunkUploadedEvent) : Json :=
  .record [("chunkId", .ofString (uuidOut chunk.chunkId)),
    ("storageKey", .ofString chunk.storageKey), ("sizeBytes", .ofNat chunk.sizeBytes)]

def ofJson (payload : Json) : Option ChunkUploadedEvent := do
  let chunkId ← uuidIn (← (← payload.field "chunkId").toString)
  let storageKey ← (← payload.field "storageKey").toString
  let sizeBytes ← (← payload.field "sizeBytes").toNat
  some ⟨chunkId, storageKey, sizeBytes⟩

theorem written_toJson (chunk : ChunkUploadedEvent) : chunk.toJson.Written := by
  rw [toJson, Json.written_record]
  simp

theorem ofJson_toJson (chunk : ChunkUploadedEvent) : ofJson chunk.toJson = some chunk := by
  simp [ofJson, toJson, Json.field_record, uuidIn_uuidOut]

end ChunkUploadedEvent

namespace ChunkUploadedBatchEvent

def toJson (event : ChunkUploadedBatchEvent) : Json :=
  .record [("fileId", .ofString event.fileId), ("ownerId", .ofString (uuidOut event.ownerId)),
    ("fileName", .ofString event.fileName), ("versionId", .ofString (uuidOut event.versionId)),
    ("versionNumber", .ofNat event.versionNumber),
    ("chunks", .array (event.chunks.map ChunkUploadedEvent.toJson))]

/-- What the handlers read of a payload. -/
def ofJson (payload : Json) : Option ChunkUploadedBatchEvent := do
  let fileId ← (← payload.field "fileId").toString
  let ownerId ← uuidIn (← (← payload.field "ownerId").toString)
  let fileName ← (← payload.field "fileName").toString
  let versionId ← uuidIn (← (← payload.field "versionId").toString)
  let versionNumber ← (← payload.field "versionNumber").toNat
  let chunks ← (← (← payload.field "chunks").toList).mapM ChunkUploadedEvent.ofJson
  some ⟨fileId, ownerId, fileName, versionId, versionNumber, chunks⟩

theorem written_toJson (event : ChunkUploadedBatchEvent) : event.toJson.Written := by
  rw [toJson, Json.written_record]
  simp [Json.written_array, ChunkUploadedEvent.written_toJson]

theorem ofJson_toJson (event : ChunkUploadedBatchEvent) : ofJson event.toJson = some event := by
  have hchunks : (event.chunks.map ChunkUploadedEvent.toJson).mapM ChunkUploadedEvent.ofJson =
      some event.chunks := by
    induction event.chunks with
    | nil => rfl
    | cons chunk chunks ih =>
      rw [List.map_cons, List.mapM_cons, ChunkUploadedEvent.ofJson_toJson, ih]
      rfl
  simp [ofJson, toJson, Json.field_record, uuidIn_uuidOut, Json.toList, hchunks]

end ChunkUploadedBatchEvent

def FileAccessedEvent.codec : JsonCodec FileAccessedEvent where
  write event := .record [("fileId", .ofString event.fileId),
    ("ownerId", Wire.uuid.write event.ownerId), ("fileName", .ofString event.fileName),
    ("versionId", Wire.uuid.write event.versionId), ("versionNumber", .ofNat event.versionNumber),
    ("accessedAt", Wire.timestamp.write event.accessedAt)]
  read payload := do
    let fileId ← JsonCodec.string.field "fileId" payload
    let ownerId ← Wire.uuid.field "ownerId" payload
    let fileName ← JsonCodec.string.field "fileName" payload
    let versionId ← Wire.uuid.field "versionId" payload
    let versionNumber ← JsonCodec.nat.field "versionNumber" payload
    let accessedAt ← Wire.timestamp.field "accessedAt" payload
    some ⟨fileId, ownerId, fileName, versionId, versionNumber, accessedAt⟩
  written event := by
    rw [Json.written_record]
    simp [JsonCodec.written]
  read_write event := by
    simp [JsonCodec.field, Json.field_record, JsonCodec.read_write, JsonCodec.string,
      JsonCodec.nat]

/-! ### What the handlers receive -/

namespace SharedQueue

theorem subscribeEvent_publishEvent {payload : Json} (h : payload.Written) (channel : Channel)
    (key : String) (handler : Json → String → Except JsError Outcome) :
    subscribeEvent channel handler (some (publishEvent key payload)) =
      settle channel (handler payload key) := by
  rw [publishEvent, subscribeEvent, payload_content h]
  rfl

theorem consumeJson_publishJson {payload : Json} (h : payload.Written) (channel : Channel)
    (queueName : String) (handler : Json → Except JsError Outcome) :
    consumeJson channel handler (some (publishJson queueName payload)) =
      settle channel (handler payload) := by
  rw [publishJson, consumeJson, payload_content h]
  rfl

/-- A published value reaches the handler as it is, and its message is settled once, unless the
handler throws before it returns a promise. -/
theorem published_received {payload : Json} (h : payload.Written) (channel : Channel)
    (hack : channel.ack = .ok ()) (key : String) :
    (∀ handler, subscribeEvent channel handler (some (publishEvent key payload)) =
      settle channel (handler payload key)) ∧
    (∀ handler, consumeJson channel handler (some (publishJson key payload)) =
      settle channel (handler payload)) ∧
    (∀ (handler : Json → String → Except JsError Outcome) (outcome : Outcome),
      handler payload key = .ok outcome →
        subscribeEvent channel handler (some (publishEvent key payload)) =
          ⟨[if outcome = .ok () then .ack else .nack false false], none⟩) ∧
    ∀ (handler : Json → Except JsError Outcome) (outcome : Outcome),
      handler payload = .ok outcome →
        consumeJson channel handler (some (publishJson key payload)) =
          ⟨[if outcome = .ok () then .ack else .nack false false], none⟩ := by
  refine ⟨subscribeEvent_publishEvent h channel key, consumeJson_publishJson h channel key, ?_, ?_⟩
  · intro handler outcome hreturned
    rw [subscribeEvent_publishEvent h, hreturned, settle_returned hack]
  · intro handler outcome hreturned
    rw [consumeJson_publishJson h, hreturned, settle_returned hack]

/-- A handler of uploads sees the event that was published, whatever its texts contain. -/
theorem chunkUploaded_received (event : ChunkUploadedBatchEvent) (channel : Channel) (key : String)
    (handler : ChunkUploadedBatchEvent → Except JsError Outcome) :
    subscribeEvent channel (fun payload _ =>
        match ChunkUploadedBatchEvent.ofJson payload with
        | some event => handler event
        | none => .error (.thrown "not an event"))
      (some (publishEvent key event.toJson)) = settle channel (handler event) := by
  rw [subscribeEvent_publishEvent event.written_toJson, event.ofJson_toJson]

/-- The time of an access is published as a text, and read as the time it was. -/
theorem fileAccessed_received (event : FileAccessedEvent) (channel : Channel) (key : String)
    (handler : FileAccessedEvent → Except JsError Outcome) :
    subscribeEvent channel (fun payload _ =>
        match FileAccessedEvent.codec.read payload with
        | some event => handler event
        | none => .error (.thrown "not an event"))
      (some (publishEvent key (FileAccessedEvent.codec.write event))) =
        settle channel (handler event) := by
  rw [subscribeEvent_publishEvent (FileAccessedEvent.codec.written event),
    FileAccessedEvent.codec.read_write]

/-! A name with quotes, a control character and a letter that is not ASCII. -/

def quotedUpload : ChunkUploadedBatchEvent :=
  ⟨"f-1", 1, "say \"hi\"\u0001 \u1234", 2, 1, [⟨3, "chunks/ab", 5⟩]⟩

theorem published_received_quoted : subscribeEvent ⟨.ok (), .ok ()⟩ (fun _ _ => .ok (.ok ()))
    (some (publishEvent "chunk.uploaded" quotedUpload.toJson)) = ⟨[.ack], none⟩ :=
  (published_received quotedUpload.written_toJson ⟨.ok (), .ok ()⟩ rfl _).2.2.1 _ (.ok ()) rfl

end SharedQueue
end IntelliStore
