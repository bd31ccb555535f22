import IntelliStore.Library.Runs
import IntelliStore.Metadata.Repository
import IntelliStore.SharedTypes

/-! The `notifications` table, `PgNotificationRepository` and `NotificationService`. -/

namespace IntelliStore.Notification
open Library Postgres
open Metadata (DbError orderByDesc)

structure NotificationRecord where
  id : Uuid
  ownerId : Uuid
  type : String
  message : String
  fileId : Option Uuid
  isRead : Bool
  createdAt : Nat
  deriving DecidableEq

def NotificationRecord.asRead (r : NotificationRecord) : NotificationRecord :=
  { r with isRead := true }

structure CreateNotificationInput where
  ownerId : Uuid
  type : String
  message : String
  fileId : Option String

@[ext] structure Notifications where
  rows : List NotificationRecord
  notifications_pkey : (rows.map NotificationRecord.id).Nodup

namespace Notifications

def empty : Notifications := ⟨[], List.nodup_nil⟩

/-- The value of a nullable UUID column. -/
def nullableUuid : Option String → Except DbError (Option Uuid)
  | none => .ok none
  | some text =>
    match uuidIn text with
    | some id => .ok (some id)
    | none => .error .invalidUuid

def insert (d : Notifications) (row : NotificationRecord) : Except DbError Notifications :=
  if isText row.type && isText row.message then
    if hid : (d.rows.map NotificationRecord.id).contains row.id then .error .uniqueViolation
    else .ok ⟨d.rows ++ [row],
      nodup_map_concat d.notifications_pkey (mt List.contains_iff_mem.mpr hid)⟩
  else .error .invalidText

def create (d : Notifications) (id : Uuid) (now : Nat) (input : CreateNotificationInput) :
    Except DbError (NotificationRecord × Notifications) :=
  match nullableUuid input.fileId with
  | .error e => .error e
  | .ok fileId =>
    let row : NotificationRecord :=
      ⟨id, input.ownerId, input.type, input.message, fileId, false, now⟩
    match d.insert row with
    | .error e => .error e
    | .ok d' => .ok (row, d')

/-- Rows created at one time come in the order of `rank`. -/
def listByOwner (d : Notifications) (rank : Uuid → Nat) (ownerId : Uuid) (limit : Nat) :
    List NotificationRecord :=
  (orderByDesc NotificationRecord.createdAt
    (anyOrder (fun r => rank r.id) (d.rows.filter fun r => r.ownerId = ownerId))).take limit

def unreadCount (d : Notifications) (ownerId : Uuid) : Nat :=
  d.rows.countP fun r => r.ownerId = ownerId ∧ r.isRead = false

/-- `UPDATE notifications SET is_read = true WHERE ..`, with its row count. -/
def setRead (d : Notifications) (p : NotificationRecord → Bool) : Nat × Notifications where
  fst := d.rows.countP p
  snd := {
    rows := d.rows.map fun r => if p r then r.asRead else r
    notifications_pkey := by
      rw [map_update (f := NotificationRecord.id) (g := NotificationRecord.asRead) fun _ => rfl]
      exact d.notifications_pkey }

def markRead (d : Notifications) (ownerId : Uuid) (notificationId : String) :
    Except DbError (Bool × Notifications) :=
  match uuidIn notificationId with
  | none => .error .invalidUuid
  | some id =>
    let res := d.setRead fun r => r.id = id ∧ r.ownerId = ownerId
    .ok (0 < res.1, res.2)

def markAllRead (d : Notifications) (ownerId : Uuid) : Nat × Notifications :=
  d.setRead fun r => r.ownerId = ownerId ∧ r.isRead = false

end Notifications

/-! ### `NotificationService` -/

structure NotificationList where
  notifications : List NotificationRecord
  unreadCount : Nat
  deriving DecidableEq

namespace NotificationService

def fileUploaded : String := "file.uploaded"

def fileAccessed : String := "file.accessed"

def uploadMessage (event : ChunkUploadedBatchEvent) : String :=
  if 1 < event.versionNumber then
    "New version (v" ++ toString event.versionNumber ++ ") of \"" ++ event.fileName ++
      "\" uploaded and is being replicated."
  else
    "\"" ++ event.fileName ++
      "\" uploaded successfully and is being replicated across storage nodes."

def handleChunkUploaded (id : Uuid) (now : Nat) (event : ChunkUploadedBatchEvent)
    (d : Notifications) : Except DbError (NotificationRecord × Notifications) :=
  d.create id now ⟨event.ownerId, fileUploaded, uploadMessage event, some event.fileId⟩

def handleFileAccessed (id : Uuid) (now : Nat) (event : FileAccessedEvent) (d : Notifications) :
    Except DbError (NotificationRecord × Notifications) :=
  d.create id now ⟨event.ownerId, fileAccessed, "\"" ++ event.fileName ++ "\" was downloaded.",
    some event.fileId⟩

def list (listLimit : Nat) (rank : Uuid → Nat) (ownerId : Uuid) (d : Notifications) :
    NotificationList :=
  ⟨d.listByOwner rank ownerId listLimit, d.unreadCount ownerId⟩

end NotificationService

/-! ### Runs -/

inductive Call where
  | chunkUploaded (event : ChunkUploadedBatchEvent)
  | fileAccessed (event : FileAccessedEvent)
  | list (ownerId : Uuid)
  | markRead (ownerId : Uuid) (notificationId : String)
  | markAllRead (ownerId : Uuid)

def Call.owner : Call → Uuid
  | .chunkUploaded event => event.ownerId
  | .fileAccessed event => event.ownerId
  | .list ownerId | .markRead ownerId _ | .markAllRead ownerId => ownerId

/-- The values of `gen_random_uuid()` and `now()`, and the order of rows created at one time. -/
structure Op where
  id : Uuid
  now : Nat
  rank : Uuid → Nat
  call : Call

/-- The id a call gives to a new notification. -/
def Op.newIds (op : Op) : List Uuid :=
  match op.call with
  | .chunkUploaded _ | .fileAccessed _ => [op.id]
  | _ => []

inductive Answer where
  | created (record : NotificationRecord)
  | listed (result : NotificationList)
  | found (result : Bool)
  | updated (result : Nat)
  deriving DecidableEq

/-- A statement that fails changes nothing. -/
def commit {α : Type} (answer : α → Answer) (d : Notifications) :
    Except DbError (α × Notifications) → Except DbError Answer × Notifications
  | .ok (a, d') => (.ok (answer a), d')
  | .error e => (.error e, d)

def step (listLimit : Nat) (d : Notifications) (op : Op) : Except DbError Answer × Notifications :=
  match op.call with
  | .chunkUploaded event =>
    commit .created d (NotificationService.handleChunkUploaded op.id op.now event d)
  | .fileAccessed event =>
    commit .created d (NotificationService.handleFileAccessed op.id op.now event d)
  | .list ownerId => (.ok (.listed (NotificationService.list listLimit op.rank ownerId d)), d)
  | .markRead ownerId notificationId => commit .found d (d.markRead ownerId notificationId)
  | .markAllRead ownerId =>
    let res := d.markAllRead ownerId
    (.ok (.updated res.1), res.2)

end IntelliStore.Notification
