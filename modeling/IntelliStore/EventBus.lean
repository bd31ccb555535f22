import IntelliStore.Analytics.AccessStats
import IntelliStore.Library.FanOut
import IntelliStore.Notification.Accounts

/-! The events exchange, with the queues that replication-service, notification-service and
ai-analytics-service bind to it. -/

namespace IntelliStore.EventBus
open Library Postgres Notification Analytics

inductive DomainEvent where
  | chunkUploaded (event : ChunkUploadedBatchEvent)
  | fileAccessed (event : FileAccessedEvent)
  deriving DecidableEq

namespace RoutingKeys

def chunkUploaded : String := "chunk.uploaded"

def fileAccessed : String := "file.accessed"

end RoutingKeys

def DomainEvent.routingKey : DomainEvent → String
  | .chunkUploaded _ => RoutingKeys.chunkUploaded
  | .fileAccessed _ => RoutingKeys.fileAccessed

/-- By the names that the services' configurations give them. -/
inductive Queue where
  | chunkUploadsQueue
  | chunkUploadedQueue
  | fileAccessedQueue
  | fileAccessQueue
  deriving DecidableEq

namespace Queue

instance : Fintype Queue where
  elems := {.chunkUploadsQueue, .chunkUploadedQueue, .fileAccessedQueue, .fileAccessQueue}
  complete q := by cases q <;> decide

theorem sum_eq (g : Queue → Nat) : ∑ q, g q = g .chunkUploadsQueue + g .chunkUploadedQueue +
    g .fileAccessedQueue + g .fileAccessQueue := by
  show ∑ q ∈ {.chunkUploadsQueue, .chunkUploadedQueue, .fileAccessedQueue, .fileAccessQueue}, g q = _
  simp [Nat.add_assoc]

/-- The keys that `subscribeEvent` binds; none has a wildcard. -/
def routingKeys : Queue → List String
  | .chunkUploadsQueue | .chunkUploadedQueue => [RoutingKeys.chunkUploaded]
  | .fileAccessedQueue | .fileAccessQueue => [RoutingKeys.fileAccessed]

def bound (q : Queue) (event : DomainEvent) : Bool := q.routingKeys.contains event.routingKey

end Queue

structure Tables where
  notifications : Notifications
  accessStats : AccessStats

/-- The id and the time of a row that a handler inserts. -/
abbrev Generated := Uuid × Nat

/-- The handlers; the tables of replication-service are not among these. -/
def handle (q : Queue) (w : Generated) (event : DomainEvent) (t : Tables) : Option Tables :=
  match q, event with
  | .chunkUploadsQueue, .chunkUploaded _ => some t
  | .chunkUploadedQueue, .chunkUploaded event =>
    match NotificationService.handleChunkUploaded w.1 w.2 event t.notifications with
    | .ok (_, d) => some { t with notifications := d }
    | .error _ => none
  | .fileAccessedQueue, .fileAccessed event =>
    match NotificationService.handleFileAccessed w.1 w.2 event t.notifications with
    | .ok (_, d) => some { t with notifications := d }
    | .error _ => none
  | .fileAccessQueue, .fileAccessed event =>
    (onFileAccessed event t.accessStats).map fun s => { t with accessStats := s }
  | _, _ => none

/-- The requests of a user to notification-service; ai-analytics-service only reads. -/
def userRequest (listLimit : Nat) (op : Notification.Op) (t : Tables) : Tables :=
  match op.call with
  | .chunkUploaded _ | .fileAccessed _ => t
  | _ => { t with notifications := (Notification.step listLimit t.notifications op).2 }

def exchange (listLimit : Nat) :
    Exchange Queue DomainEvent Generated Notification.Op Tables where
  bound := Queue.bound
  effect := handle
  request := userRequest listLimit

abbrev Bus := FanOut Queue DomainEvent Tables

def start : Bus := .init Queue DomainEvent ⟨.empty, .empty⟩

/-! ### What the tables hold of the events -/

/-- A notification without its id, its time and whether it was read. -/
structure Content where
  ownerId : Uuid
  type : String
  message : String
  fileId : Option Uuid
  deriving DecidableEq

def recordContent (r : NotificationRecord) : Content := ⟨r.ownerId, r.type, r.message, r.fileId⟩

def DomainEvent.content : DomainEvent → Content
  | .chunkUploaded event => ⟨event.ownerId, NotificationService.fileUploaded,
      NotificationService.uploadMessage event, uuidIn event.fileId⟩
  | .fileAccessed event => ⟨event.ownerId, NotificationService.fileAccessed,
      "\"" ++ event.fileName ++ "\" was downloaded.", uuidIn event.fileId⟩

def notified (P : Content → Bool) (t : Tables) : Nat :=
  t.notifications.rows.countP fun r => P (recordContent r)

theorem create_content {d d' : Notifications} {id : Uuid} {now : Nat}
    {ownerId : Uuid} {type message fileId : String} {row : NotificationRecord}
    (h : d.create id now ⟨ownerId, type, message, some fileId⟩ = .ok (row, d')) :
    d'.rows = d.rows ++ [row] ∧ recordContent row = ⟨ownerId, type, message, uuidIn fileId⟩ := by
  refine ⟨(Notifications.create_ok h).2.2.2, ?_⟩
  unfold Notifications.create Notifications.nullableUuid at h
  cases hfile : uuidIn fileId with
  | none =>
    simp only [hfile] at h
    cases h
  | some file =>
    simp only [hfile] at h
    split at h <;> cases h
    rfl

theorem create_notified {d d' : Notifications} {id : Uuid} {now : Nat} {ownerId : Uuid}
    {type message fileId : String} {row : NotificationRecord} (P : Content → Bool)
    (h : d.create id now ⟨ownerId, type, message, some fileId⟩ = .ok (row, d')) :
    (d'.rows.countP fun r => P (recordContent r)) = (d.rows.countP fun r => P (recordContent r)) +
      if P ⟨ownerId, type, message, uuidIn fileId⟩ then 1 else 0 := by
  obtain ⟨hrows, hcontent⟩ := create_content h
  rw [hrows, List.countP_append, List.countP_singleton, hcontent]

theorem setRead_notified (d : Notifications) (P : Content → Bool)
    (p : NotificationRecord → Bool) :
    ((d.setRead p).2.rows.countP fun r => P (recordContent r)) =
      d.rows.countP fun r => P (recordContent r) := by
  rw [Notifications.setRead, List.countP_map]
  refine List.countP_congr fun r _ => ?_
  have hsame : recordContent (if p r then r.asRead else r) = recordContent r := by
    split <;> rfl
  rw [Function.comp_apply, hsame]

/-- The messages of the queues whose handlers notify the owner. -/
def notifies (P : Content → Bool) : Queue → DomainEvent → Bool
  | .chunkUploadedQueue, event | .fileAccessedQueue, event => P event.content
  | _, _ => false

theorem counts_notified (listLimit : Nat) (P : Content → Bool) :
    FanOut.Counts (exchange listLimit) (notified P) (notifies P) where
  effect q w event t t' h := by
    change handle q w event t = some t' at h
    unfold handle at h
    split at h
    · cases h
      rfl
    · split at h <;> cases h
      rename_i hcreate
      exact create_notified P hcreate
    · split at h <;> cases h
      rename_i hcreate
      exact create_notified P hcreate
    · obtain ⟨s, -, rfl⟩ := Option.map_eq_some_iff.mp h
      rfl
    · cases h
  request op t := by
    show notified P (userRequest listLimit op t) = notified P t
    unfold userRequest Notification.step
    cases op.call with
    | chunkUploaded event => rfl
    | fileAccessed event => rfl
    | list ownerId => rfl
    | markRead ownerId notificationId =>
      dsimp only [Notifications.markRead]
      cases uuidIn notificationId with
      | none => rfl
      | some id => exact setRead_notified _ P _
    | markAllRead ownerId => exact setRead_notified _ P _

def accesses (fileId : Uuid) : DomainEvent → Bool
  | .fileAccessed event => names fileId event
  | .chunkUploaded _ => false

/-- The messages of the queue whose handler counts the accesses of the file. -/
def recordsAccess (fileId : Uuid) : Queue → DomainEvent → Bool
  | .fileAccessQueue, event => accesses fileId event
  | _, _ => false

theorem counts_accesses (listLimit : Nat) (fileId : Uuid) :
    FanOut.Counts (exchange listLimit) (fun t => t.accessStats.accessCount fileId)
      (recordsAccess fileId) where
  effect q w event t t' h := by
    change handle q w event t = some t' at h
    unfold handle at h
    split at h
    · cases h
      rfl
    · split at h <;> cases h
      rfl
    · split at h <;> cases h
      rfl
    · obtain ⟨s, hs, rfl⟩ := Option.map_eq_some_iff.mp h
      have hcount := AccessStats.recordAccess_count hs fileId
      simpa [recordsAccess, accesses, names] using hcount
    · cases h
  request op t := by
    show (userRequest listLimit op t).accessStats.accessCount fileId = _
    unfold userRequest
    split <;> rfl

/-! ### The books balance -/

theorem bound_fileAccessed (event : DomainEvent) :
    Queue.bound .fileAccessedQueue event = !Queue.bound .chunkUploadedQueue event := by
  cases event <;> rfl

/-- The two queues of notification-service share out the events. -/
theorem announced_length (events : List DomainEvent) (P : Content → Bool) :
    ((events.filter Queue.chunkUploadedQueue.bound).filter fun e => P e.content).length +
      ((events.filter Queue.fileAccessedQueue.bound).filter fun e => P e.content).length =
        (events.filter fun e => P e.content).length := by
  rw [List.length_eq_length_filter_add (l := events.filter fun e => P e.content)
    Queue.chunkUploadedQueue.bound, ← funext bound_fileAccessed, List.filter_comm,
    List.filter_comm Queue.fileAccessedQueue.bound]

theorem accesses_filter (events : List DomainEvent) (fileId : Uuid) :
    (events.filter Queue.fileAccessQueue.bound).filter (accesses fileId) =
      events.filter (accesses fileId) := by
  rw [List.filter_filter]
  apply List.filter_congr
  intro event _
  cases event with
  | chunkUploaded event => rfl
  | fileAccessed event => exact Bool.and_true _

/-- Every event is in the queues bound to its key, in the order of publication, until its handler has
ended; what a message does to the tables does not depend on the other queues. -/
structure Balanced (b : Bus) : Prop where
  copies : ∀ q, (b.queues q).published.map Prod.snd = b.published.filter q.bound
  placed : ∀ q, ∀ p ∈ (b.queues q).published, p ∈ (b.queues q).queue ∨
    (∃ state, (b.queues q).current = some (p, state)) ∨ p ∈ (b.queues q).acked ∨
      p ∈ (b.queues q).dropped
  notified : ∀ P, EventBus.notified P b.store +
      (((b.queues .chunkUploadedQueue).lost fun e => P e.content).length +
        ((b.queues .fileAccessedQueue).lost fun e => P e.content).length) =
    (b.published.filter fun e => P e.content).length +
      (((b.queues .chunkUploadedQueue).repeats fun e => P e.content) +
        ((b.queues .fileAccessedQueue).repeats fun e => P e.content))
  notified_once : FanOut.Undisturbed (b.queues .chunkUploadedQueue) →
    FanOut.Undisturbed (b.queues .fileAccessedQueue) →
      ∀ P, EventBus.notified P b.store = (b.published.filter fun e => P e.content).length
  accessed : ∀ fileId, b.store.accessStats.accessCount fileId +
      ((b.queues .fileAccessQueue).lost (accesses fileId)).length =
    (b.published.filter (accesses fileId)).length +
      (b.queues .fileAccessQueue).repeats (accesses fileId)
  accessed_once : FanOut.Undisturbed (b.queues .fileAccessQueue) → ∀ fileId,
    b.store.accessStats.accessCount fileId = (b.published.filter (accesses fileId)).length

section
variable {listLimit : Nat} {b : Bus}

theorem recordedOf_false (q : Subscription DomainEvent Unit) :
    (q.recordedOf fun _ => false) = [] := List.filter_false _

theorem notified_eq (h : Reach (FanOut.step (exchange listLimit)) (fun _ _ => True) start b)
    (P : Content → Bool) : notified P b.store =
      ((b.queues .chunkUploadedQueue).recordedOf fun e => P e.content).length +
        ((b.queues .fileAccessedQueue).recordedOf fun e => P e.content).length := by
  have hrecordings := FanOut.recordings_of_reach (counts_notified listLimit P) h
  rw [FanOut.recordings, Queue.sum_eq] at hrecordings
  change _ = 0 + (((b.queues .chunkUploadsQueue).recordedOf fun _ => false).length + _ + _ +
    ((b.queues .fileAccessQueue).recordedOf fun _ => false).length) at hrecordings
  simp only [recordedOf_false, List.length_nil, Nat.zero_add, Nat.add_zero] at hrecordings
  exact hrecordings

theorem accessCount_eq (h : Reach (FanOut.step (exchange listLimit)) (fun _ _ => True) start b)
    (fileId : Uuid) : b.store.accessStats.accessCount fileId =
      ((b.queues .fileAccessQueue).recordedOf (accesses fileId)).length := by
  have hrecordings := FanOut.recordings_of_reach (counts_accesses listLimit fileId) h
  rw [FanOut.recordings, Queue.sum_eq] at hrecordings
  change _ = 0 + (((b.queues .chunkUploadsQueue).recordedOf fun _ => false).length +
    ((b.queues .chunkUploadedQueue).recordedOf fun _ => false).length +
    ((b.queues .fileAccessedQueue).recordedOf fun _ => false).length +
    ((b.queues .fileAccessQueue).recordedOf (accesses fileId)).length) at hrecordings
  simpa only [recordedOf_false, List.length_nil, Nat.zero_add] using hrecordings

end

/-- In every state that publications, consumers and users bring about, in any order. -/
theorem events_balance (listLimit : Nat) (b : Bus)
    (h : Reach (FanOut.step (exchange listLimit)) (fun _ _ => True) start b) : Balanced b := by
  have hcopies := FanOut.Copies.of_reach h
  have hqueue : ∀ (q : Queue) (f : DomainEvent → Bool),
      ((b.queues q).recordedOf f).length + ((b.queues q).lost f).length =
        ((b.published.filter q.bound).filter f).length + (b.queues q).repeats f :=
    fun q f => FanOut.queue_balance h q f
  have honce : ∀ (q : Queue) (f : DomainEvent → Bool), FanOut.Undisturbed (b.queues q) →
      ((b.queues q).recordedOf f).length = ((b.published.filter q.bound).filter f).length :=
    fun _ f hq => FanOut.recorded_of_undisturbed h hq f
  constructor
  case copies => exact hcopies.copies
  case placed => exact fun q => (hcopies.conserved q).placed
  case notified =>
    intro P
    have huploads := hqueue .chunkUploadedQueue fun e => P e.content
    have haccesses := hqueue .fileAccessedQueue fun e => P e.content
    rw [notified_eq h, ← announced_length]
    omega
  case notified_once =>
    intro huploads haccesses P
    rw [notified_eq h, honce _ _ huploads, honce _ _ haccesses, announced_length]
  case accessed =>
    intro fileId
    rw [accessCount_eq h, hqueue, accesses_filter]
  case accessed_once =>
    intro hundisturbed fileId
    rw [accessCount_eq h, honce _ _ hundisturbed, accesses_filter]

/-! A download is announced and counted, while replication-service loses its connection. -/

def sampleRun : List (FanOut.Action Queue DomainEvent Generated Notification.Op) :=
  [.publish (.chunkUploaded ⟨uuidOut 7, 1, "report.pdf", 8, 1, []⟩) true,
    .publish (.fileAccessed ⟨uuidOut 7, 1, "report.pdf", 8, 1, 5⟩) true,
    .consume .chunkUploadsQueue .deliver, .consume .chunkUploadsQueue .disconnect,
    .consume .fileAccessedQueue .deliver, .consume .fileAccessQueue .deliver,
    .consume .fileAccessQueue (.handle (0, 6) .succeeds),
    .consume .fileAccessedQueue (.handle (11, 6) .succeeds),
    .request ⟨0, 7, fun _ => 0, .markAllRead 1⟩,
    .consume .fileAccessQueue .settle, .consume .fileAccessedQueue .settle]

theorem events_balance_sampleRun : ∃ b : Bus, b.store.accessStats.accessCount 7 = 1 ∧
    (b.published.filter (accesses 7)).length = 1 := by
  have hrun : ∃ b ∈ sampleRun.foldlM (fun (b : Bus) a =>
      if True then FanOut.step (exchange 50) b a else none) start,
      FanOut.Undisturbed (b.queues .fileAccessQueue) ∧
        (b.published.filter (accesses 7)).length = 1 := by
    refine ⟨_, rfl, ⟨⟨rfl, rfl⟩, rfl, rfl⟩, rfl⟩
  obtain ⟨b, hb, hundisturbed, haccesses⟩ := hrun
  have hbalanced := events_balance 50 b (reach_of_schedule hb)
  exact ⟨b, (hbalanced.accessed_once hundisturbed 7).trans haccesses, haccesses⟩

end IntelliStore.EventBus
