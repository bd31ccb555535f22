import IntelliStore.Platform.Accesses
import IntelliStore.Platform.Publications

/-! From the requests that a run answers, over their events, to the notifications of the users. -/

namespace IntelliStore.Platform
open Postgres Library Metadata Storage
open EventBus hiding Generated
variable {sha256 : Bytes → String}

/-- Whom a notification is for, of what type it is and which file it is about. -/
abbrev Notice := Uuid × String × Option Uuid

def noticeOf (event : DomainEvent) : Notice :=
  (event.content.ownerId, event.content.type, event.content.fileId)

def noticeOfRow (r : Notification.NotificationRecord) : Notice := (r.ownerId, r.type, r.fileId)

/-- The notice that the answer of a request calls for: the user who made it, and the file. -/
def noticeOfAnswer : Op × Reply → Option Notice
  | (.upload u, .uploaded (.ok result)) =>
    some (u.ownerId, Notification.NotificationService.fileUploaded, some result.version.fileId)
  | (.download q, .downloaded (.ok _)) =>
    some (q.ownerId, Notification.NotificationService.fileAccessed, uuidIn q.fileId)
  | _ => none

/-- The events that a run has left to the publisher. -/
def worldEvents (w : World) : List DomainEvent :=
  w.chunkUploads.map .chunkUploaded ++ w.fileAccesses.map .fileAccessed

/-! ### The event of an answer names its user and its file -/

theorem getFileDetail_owned {g : Generated} {outcomes : Outcomes} {token : BearerToken}
    {fileId : String} {d : Database} {detail : FileDetail}
    (h : (httpMetadataClient g outcomes).getFileDetail token fileId d = .ok detail) :
    FileService.getOwnedFile d token fileId = .ok detail.file := by
  have hget : FileService.getFile d token fileId = .ok detail := HttpMetadataClient.request_ok h
  unfold FileService.getFile at hget
  cases hf : FileService.getOwnedFile d token fileId with
  | error e =>
    rw [hf] at hget
    cases hget
  | ok f =>
    rw [hf] at hget
    cases hget
    rfl

theorem postFile_owned {g : Generated} {ownerId : Uuid} {input : CreateFileInput} {d : Database}
    {result : RegisterFileResult} (h : (FileRouter.postFile g ownerId input d).1 = .ok result) :
    result.file.ownerId = ownerId ∧ result.version.fileId = result.file.id := by
  unfold FileRouter.postFile validateBody at h
  split_ifs at h
  rcases FileService.registerFile_cases g ownerId input d with
    ⟨e, he⟩ | ⟨e, f, d₁, hf, he⟩ | ⟨f, d₁, v, rows, d₂, hf, hv, he⟩
  · rw [he] at h
    cases h
  · rw [he] at h
    cases h
  · rw [he] at h
    cases h
    obtain ⟨rfl, -⟩ := Database.createFile_ok hf
    obtain ⟨rfl, -⟩ := Database.createVersion_ok hv
    exact ⟨rfl, rfl⟩

theorem postVersion_owned {g : Generated} {ownerId : Uuid} {fileId : String}
    {input : CreateVersionInput} {d : Database} {result : VersionDetail}
    (h : (FileRouter.postVersion g ownerId fileId input d).1 = .ok result) :
    uuidIn fileId = some result.version.fileId := by
  unfold FileRouter.postVersion validateBody at h
  split_ifs at h
  rcases FileService.addVersion_cases g ownerId fileId input d with
    ⟨e, he⟩ | ⟨f, v, rows, d₁, hf, hv, he⟩
  · rw [he] at h
    cases h
  · rw [he] at h
    cases h
    obtain ⟨rfl, -⟩ := Database.createVersion_ok hv
    exact (FileService.getOwnedFile_ok.mp hf).2.1

section
variable {u : Upload} {w : World} {result : VersionUploadResult}

theorem Upload.newFile_event {fileName : String} (ht : u.target = .newFile fileName)
    (h : (u.run sha256 w).1 = .ok result) : ∃ fileId fileName,
      uuidIn fileId = some result.version.fileId ∧ (u.run sha256 w).2.chunkUploads =
        w.chunkUploads ++ [UploadService.chunkUploadedEvent fileId u.ownerId fileName
          result.toVersionDetail] := by
  unfold run at h ⊢
  rcases hstore : (u.service sha256).storeChunks u.buffer u.mimeType w.backend with ⟨stored, b⟩
  simp only [ht, UploadService.upload, UploadService.uploadNewFile, hstore] at h ⊢
  cases stored with
  | error e => cases h
  | ok stored =>
    dsimp only at h ⊢
    cases hreg : (u.service sha256).metadataClient.registerFile u.ownerId
      ⟨stored.payload, fileName⟩ w.metadata with
    | mk answer m =>
      simp only [UploadService.registerWithCleanup, hreg] at h ⊢
      cases answer with
      | error e => cases h
      | ok answer =>
        cases h
        have hposted := HttpMetadataClient.request_ok (congrArg Prod.fst hreg)
        obtain ⟨howner, hfile⟩ := postFile_owned hposted
        refine ⟨uuidOut answer.file.id, answer.file.fileName, ?_, ?_⟩
        · rw [uuidIn_uuidOut, ← hfile]
        · rw [← howner]
          rfl

theorem Upload.newVersion_event {fileId : String} (ht : u.target = .newVersion fileId)
    (h : (u.run sha256 w).1 = .ok result) : ∃ fileId fileName,
      uuidIn fileId = some result.version.fileId ∧ (u.run sha256 w).2.chunkUploads =
        w.chunkUploads ++ [UploadService.chunkUploadedEvent fileId u.ownerId fileName
          result.toVersionDetail] := by
  unfold run at h ⊢
  rcases hstore : (u.service sha256).storeChunks u.buffer u.mimeType w.backend with ⟨stored, b⟩
  simp only [ht, UploadService.upload, UploadService.uploadNewVersion, hstore] at h ⊢
  cases stored with
  | error e => cases h
  | ok stored =>
    dsimp only at h ⊢
    cases hreg : (u.service sha256).metadataClient.addVersion u.ownerId fileId stored.payload
      w.metadata with
    | mk answer m =>
      simp only [UploadService.registerWithCleanup, hreg] at h ⊢
      cases answer with
      | error e => cases h
      | ok answer =>
        cases hdetail : (u.service sha256).metadataClient.getFileDetail u.ownerId fileId m with
        | error e =>
          simp only [hdetail] at h
          cases h
        | ok detail =>
          simp only [hdetail] at h ⊢
          cases h
          have hposted := HttpMetadataClient.request_ok (congrArg Prod.fst hreg)
          have howned := FileService.getOwnedFile_ok.mp (getFileDetail_owned hdetail)
          refine ⟨fileId, detail.file.fileName, postVersion_owned hposted, ?_⟩
          rw [← howned.2.2.2]
          rfl

theorem Upload.run_event (h : (u.run sha256 w).1 = .ok result) : ∃ fileId fileName,
    uuidIn fileId = some result.version.fileId ∧ (u.run sha256 w).2.chunkUploads =
      w.chunkUploads ++ [UploadService.chunkUploadedEvent fileId u.ownerId fileName
        result.toVersionDetail] := by
  cases ht : u.target with
  | newFile fileName => exact newFile_event ht h
  | newVersion fileId => exact newVersion_event ht h

end

theorem Download.run_event {q : Download} {w : World} {result : DownloadResult}
    (h : (q.run sha256 w).1 = .ok result) : ∃ event : FileAccessedEvent,
      event.ownerId = q.ownerId ∧ event.fileId = q.fileId ∧
        (q.run sha256 w).2.fileAccesses = w.fileAccesses ++ [event] := by
  unfold run DownloadService.download at h ⊢
  cases hdetail : (containerDownloadService sha256 q.generated q.outcomes).metadataClient.getFileDetail
      q.ownerId q.fileId w.metadata with
  | error e =>
    simp only [hdetail] at h
    cases h
  | ok detail =>
    have howned := FileService.getOwnedFile_ok.mp (getFileDetail_owned hdetail)
    simp only [hdetail] at h ⊢
    split at h
    · cases h
    · split at h
      · cases h
      · split at h
        · cases h
        · split_ifs at h ⊢
          exact ⟨_, howned.2.2.2, rfl, rfl⟩

/-! ### The events of a run -/

theorem Upload.adds_notice (u : Upload) (w : World) :
    ((worldEvents (u.run sha256 w).2).map noticeOf).Perm ((worldEvents w).map noticeOf ++
      (noticeOfAnswer (.upload u, .uploaded (u.run sha256 w).1)).toList) := by
  have haccesses : (u.run sha256 w).2.fileAccesses = w.fileAccesses := upload_fileAccesses u w
  cases hanswer : (u.run sha256 w).1 with
  | error e =>
    have hsame : (u.run sha256 w).2.chunkUploads = w.chunkUploads := by
      rcases u.run_chunkUploads sha256 w with ⟨-, hsame⟩ | ⟨result, _, _, _, _, hok, -⟩
      · exact hsame
      · rw [hanswer] at hok
        cases hok
    rw [worldEvents, hsame, haccesses]
    exact .of_eq (List.append_nil _).symm
  | ok result =>
    obtain ⟨fileId, fileName, hfile, huploads⟩ := u.run_event hanswer
    have hnotice : (([UploadService.chunkUploadedEvent fileId u.ownerId fileName
        result.toVersionDetail].map DomainEvent.chunkUploaded).map noticeOf) =
          (noticeOfAnswer (.upload u, .uploaded (.ok result))).toList := by
      show [(u.ownerId, Notification.NotificationService.fileUploaded, uuidIn fileId)] = _
      rw [hfile]
      rfl
    rw [worldEvents, huploads, haccesses, worldEvents, List.map_append, List.map_append,
      List.map_append, List.map_append, hnotice, List.append_assoc, List.append_assoc]
    -- the event stands before those of the downloads
    exact .append_left _ List.perm_append_comm

theorem Download.adds_notice (q : Download) (w : World) :
    (worldEvents (q.run sha256 w).2).map noticeOf = (worldEvents w).map noticeOf ++
      (noticeOfAnswer (.download q, .downloaded (q.run sha256 w).1)).toList := by
  have huploads := q.run_chunkUploads sha256 w
  cases hanswer : (q.run sha256 w).1 with
  | error e =>
    have hsame : (q.run sha256 w).2.fileAccesses = w.fileAccesses := by
      rcases download_fileAccesses q w with ⟨result, _, hok, -⟩ | ⟨e, -, hsame⟩
      · rw [hanswer] at hok
        cases hok
      · exact hsame
    rw [worldEvents, huploads, hsame]
    exact (List.append_nil _).symm
  | ok result =>
    obtain ⟨event, howner, hfile, haccesses⟩ := q.run_event hanswer
    have hnotice : (([event].map DomainEvent.fileAccessed).map noticeOf) =
        (noticeOfAnswer (.download q, .downloaded (.ok result))).toList := by
      show [(event.ownerId, Notification.NotificationService.fileAccessed,
        uuidIn event.fileId)] = _
      rw [howner, hfile]
      rfl
    have hevents : worldEvents (q.run sha256 w).2 =
        worldEvents w ++ [event].map DomainEvent.fileAccessed := by
      rw [worldEvents, huploads, haccesses, List.map_append, ← List.append_assoc]
      rfl
    rw [hevents, List.map_append, hnotice]

/-- One request adds the event of its answer. -/
theorem worldEvents_step (fold : Char → Char) (w : World) (op : Op) :
    ((worldEvents (step sha256 fold w op).2).map noticeOf).Perm
      ((worldEvents w).map noticeOf ++ (noticeOfAnswer (op, (step sha256 fold w op).1)).toList) := by
  cases op with
  | upload u => exact u.adds_notice w
  | download q => exact .of_eq (q.adds_notice w)
  | metadata r => exact .of_eq (List.append_nil _).symm

theorem worldEvents_run (sha256 : Bytes → String) (fold : Char → Char) (ops : List Op) :
    ((worldEvents (finalState (step sha256 fold) .empty ops)).map noticeOf).Perm
      ((answers (step sha256 fold) .empty ops).filterMap noticeOfAnswer) := by
  have hstep : ∀ (past : List (Op × Reply)) (w : World) (op : Op), True →
      ((worldEvents w).map noticeOf).Perm (past.filterMap noticeOfAnswer) →
      ((worldEvents (step sha256 fold w op).2).map noticeOf).Perm
        ((past ++ [(op, (step sha256 fold w op).1)]).filterMap noticeOfAnswer) := by
    intro past w op _ h
    have hlast : [(op, (step sha256 fold w op).1)].filterMap noticeOfAnswer =
        (noticeOfAnswer (op, (step sha256 fold w op).1)).toList := by
      cases hnotice : noticeOfAnswer (op, (step sha256 fold w op).1) with
      | none => exact List.filterMap_cons_none hnotice
      | some notice => exact List.filterMap_cons_some hnotice
    rw [List.filterMap_append, hlast]
    exact (worldEvents_step fold w op).trans (h.append_right _)
  exact answers_history _ hstep (guarded_of_forall fun _ _ => trivial) (.refl _)

/-! ### The notifications -/

/-- Once notification-service has worked through the events of a run undisturbed, its rows are one
for each upload and each download that was answered, for the user who made it and about that file,
whatever the users have read since. -/
theorem users_notified (fold : Char → Char) (ops : List Op) (listLimit : Nat) (b : Bus)
    (h : Reach (FanOut.step (exchange listLimit)) (fun _ _ => True) start b)
    (huploaded : FanOut.Undisturbed (b.queues .chunkUploadedQueue))
    (haccessed : FanOut.Undisturbed (b.queues .fileAccessedQueue))
    (hpublished : b.published.Perm (worldEvents (finalState (step sha256 fold) .empty ops))) :
    (b.store.notifications.rows.map noticeOfRow).Perm
      ((answers (step sha256 fold) .empty ops).filterMap noticeOfAnswer) := by
  have hcount : (b.store.notifications.rows.map noticeOfRow).Perm (b.published.map noticeOf) := by
    rw [List.perm_iff_count]
    intro notice
    let P (c : Content) : Bool := (c.ownerId, c.type, c.fileId) == notice
    have huploads := FanOut.recorded_of_undisturbed h huploaded fun e => P e.content
    have haccesses := FanOut.recorded_of_undisturbed h haccessed fun e => P e.content
    have hrows : (b.store.notifications.rows.map noticeOfRow).count notice = notified P b.store := by
      rw [List.count_eq_countP, List.countP_map]
      rfl
    have hevents : (b.published.map noticeOf).count notice =
        (b.published.filter fun e => P e.content).length := by
      rw [List.count_eq_countP, List.countP_map, List.countP_eq_length_filter]
      rfl
    rw [hrows, hevents, notified_eq h, ← announced_length]
    exact congrArg₂ (· + ·) huploads haccesses
  exact hcount.trans ((hpublished.map noticeOf).trans (worldEvents_run sha256 fold ops))

/-! User 1 uploads a file and downloads it; notification-service consumes both events, and the user
reads what it says. -/

def noticesConsumed : List (FanOut.Action Queue DomainEvent EventBus.Generated Notification.Op) :=
  (worldEvents (finalState (step sampleSha256 id) .empty uploadAndDownload)).map
    (FanOut.Action.publish · true) ++
  [.consume .fileAccessedQueue .deliver, .consume .fileAccessedQueue (.handle (1, 10) .succeeds),
    .consume .chunkUploadedQueue .deliver, .consume .chunkUploadedQueue (.handle (2, 11) .succeeds),
    .request ⟨0, 12, fun _ => 0, .markAllRead 1⟩,
    .consume .chunkUploadedQueue .settle, .consume .fileAccessedQueue .settle]

theorem users_notified_once : ∃ b : Bus, b.store.notifications.rows.length = 2 ∧
    (b.store.notifications.rows.map noticeOfRow).Perm
      ((answers (step sampleSha256 id) .empty uploadAndDownload).filterMap noticeOfAnswer) := by
  have hrun : ∃ b ∈ noticesConsumed.foldlM (fun (b : Bus) a =>
      if True then FanOut.step (exchange 50) b a else none) start,
      FanOut.Undisturbed (b.queues .chunkUploadedQueue) ∧
      FanOut.Undisturbed (b.queues .fileAccessedQueue) ∧
      b.published = worldEvents (finalState (step sampleSha256 id) .empty uploadAndDownload) ∧
      b.store.notifications.rows.length = 2 :=
    ⟨_, rfl, ⟨⟨rfl, rfl⟩, rfl, rfl⟩, ⟨⟨rfl, rfl⟩, rfl, rfl⟩, rfl, rfl⟩
  obtain ⟨b, hb, huploaded, haccessed, hpublished, hrows⟩ := hrun
  exact ⟨b, hrows, users_notified id uploadAndDownload 50 b (reach_of_schedule hb) huploaded
    haccessed (.of_eq hpublished)⟩

end IntelliStore.Platform
