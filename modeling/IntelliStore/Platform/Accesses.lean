import IntelliStore.Analytics.Recommendations
import IntelliStore.EventBus
import IntelliStore.Platform.Confinement

/-! From the downloads of a run, over the events they publish, to the access counts that the users
are shown. -/

namespace IntelliStore.Platform
open Postgres Library Metadata Storage Analytics EventBus
variable {sha256 : Bytes → String}

/-- A download of the file that was answered with its bytes. -/
def answered (fileId : Uuid) : Op × Reply → Bool
  | (.download q, .downloaded (.ok _)) => uuidIn q.fileId = some fileId
  | _ => false

def fileAccessedEvents (events : List DomainEvent) : List FileAccessedEvent :=
  events.filterMap fun
    | .fileAccessed event => some event
    | .chunkUploaded _ => none

/-! ### The events of a run -/

theorem upload_fileAccesses (u : Upload) (w : World) :
    (u.run sha256 w).2.fileAccesses = w.fileAccesses := by
  rw [Upload.run]
  rcases hstore : (u.service sha256).storeChunks u.buffer u.mimeType w.backend with ⟨result, b⟩
  cases result with
  | error e => rw [UploadService.upload_of_error hstore]
  | ok stored =>
    rcases UploadService.upload_cases u.ownerId u.target hstore with
      ⟨e, m, -, hup⟩ | ⟨result, m, fileId, ownerId, fileName, -, hup⟩ |
      ⟨result, m, fileId, e, -, -, -, hup⟩
    · rw [hup]
    · rw [hup]
      rfl
    · rw [hup]

theorem download_fileAccesses (q : Download) (w : World) :
    (∃ res event, (q.run sha256 w).1 = .ok res ∧ event.fileId = q.fileId ∧
      (q.run sha256 w).2.fileAccesses = w.fileAccesses ++ [event]) ∨
    ∃ e, (q.run sha256 w).1 = .error e ∧ (q.run sha256 w).2.fileAccesses = w.fileAccesses := by
  unfold Download.run DownloadService.download
  split
  · exact Or.inr ⟨_, rfl, rfl⟩
  split
  · exact Or.inr ⟨_, rfl, rfl⟩
  dsimp only
  split
  · exact Or.inr ⟨_, rfl, rfl⟩
  split
  · exact Or.inr ⟨_, rfl, rfl⟩
  split_ifs
  · exact Or.inr ⟨_, rfl, rfl⟩
  · exact Or.inl ⟨_, _, rfl, rfl, rfl⟩

/-- Every answered download left its event, and nothing else did. -/
theorem fileAccesses_run (fold : Char → Char) (ops : List Op) (fileId : Uuid) :
    ((finalState (step sha256 fold) .empty ops).fileAccesses.filter (names fileId)).length =
      ((answers (step sha256 fold) .empty ops).filter (answered fileId)).length := by
  have hstep : ∀ (past : List (Op × Reply)) (w : World) (op : Op), True →
      (w.fileAccesses.filter (names fileId)).length = (past.filter (answered fileId)).length →
      ((step sha256 fold w op).2.fileAccesses.filter (names fileId)).length =
        ((past ++ [(op, (step sha256 fold w op).1)]).filter (answered fileId)).length := by
    intro past w op _ h
    rw [List.filter_append, List.length_append, ← h]
    cases op with
    | upload u =>
      have hsame : (step sha256 fold w (.upload u)).2.fileAccesses = w.fileAccesses :=
        upload_fileAccesses u w
      rw [hsame]
      rfl
    | download q =>
      have hanswer : answered fileId (.download q, .downloaded (q.run sha256 w).1) =
          match (q.run sha256 w).1 with
          | .ok _ => decide (uuidIn q.fileId = some fileId)
          | .error _ => false := by
        cases (q.run sha256 w).1 <;> rfl
      show ((q.run sha256 w).2.fileAccesses.filter (names fileId)).length =
        (w.fileAccesses.filter (names fileId)).length +
          ([(Op.download q, Reply.downloaded (q.run sha256 w).1)].filter (answered fileId)).length
      rcases download_fileAccesses q w with ⟨res, event, hres, hid, hevents⟩ | ⟨e, hres, hevents⟩
      · have hname : names fileId event = decide (uuidIn q.fileId = some fileId) := by
          rw [names, hid]
        rw [hres] at hanswer ⊢
        rw [hevents, List.filter_append, List.length_append]
        by_cases hfile : uuidIn q.fileId = some fileId
        · rw [decide_eq_true hfile] at hname hanswer
          rw [List.filter_cons_of_pos hname, List.filter_cons_of_pos hanswer]
          rfl
        · rw [decide_eq_false hfile] at hname hanswer
          rw [List.filter_cons_of_neg (by simp [hname]), List.filter_cons_of_neg (by simp [hanswer])]
          rfl
      · rw [hres] at hanswer ⊢
        rw [hevents, List.filter_cons_of_neg (by simp [hanswer])]
        rfl
    | metadata r => rfl
  exact answers_history _ hstep (guarded_of_forall fun _ _ => trivial) rfl

theorem length_fileAccessedEvents (events : List DomainEvent) (fileId : Uuid) :
    ((fileAccessedEvents events).filter (names fileId)).length =
      (events.filter (accesses fileId)).length := by
  induction events with
  | nil => rfl
  | cons event events ih =>
    cases event with
    | chunkUploaded event => exact ih
    | fileAccessed event =>
      have hcons : fileAccessedEvents (.fileAccessed event :: events) =
          event :: fileAccessedEvents events := rfl
      rw [hcons]
      by_cases hname : names fileId event = true
      · have haccess : accesses fileId (.fileAccessed event) = true := hname
        rw [List.filter_cons_of_pos hname, List.filter_cons_of_pos haccess, List.length_cons,
          List.length_cons, ih]
      · have haccess : ¬accesses fileId (.fileAccessed event) = true := hname
        rw [List.filter_cons_of_neg hname, List.filter_cons_of_neg haccess, ih]

/-- Once ai-analytics-service has worked through the events of a run undisturbed, the access count
that it shows beside a file is the number of downloads of the file that were answered, whatever the
other subscribers went through. -/
theorem downloads_counted (fold : Char → Char) (ops : List Op) (listLimit : Nat) (b : Bus)
    (h : Reach (FanOut.step (exchange listLimit)) (fun _ _ => True) start b)
    (hundisturbed : FanOut.Undisturbed (b.queues .fileAccessQueue))
    (hpublished : (fileAccessedEvents b.published).Perm
      (finalState (step sha256 fold) .empty ops).fileAccesses)
    (options : ScoringOptions) (clock : Uuid → ℤ) (rank : FileAccessStats → Nat) (ownerId : Uuid) :
    ∀ r ∈ getFileRecommendations options clock rank
        (FileService.listFiles (finalState (step sha256 fold) .empty ops).metadata ownerId)
        b.store.accessStats,
      r.accessCount =
        ((answers (step sha256 fold) .empty ops).filter (answered r.fileId)).length := by
  intro r hr
  rw [getFileRecommendations_eq, List.mem_insertionSort] at hr
  obtain ⟨entry, -, rfl⟩ := List.mem_map.mp hr
  have hrecorded := FanOut.recorded_of_undisturbed h hundisturbed (accesses entry.file.id)
  have hfilter := hpublished.filter (names entry.file.id)
  rw [recommend_accessCount, accessCount_eq h]
  calc ((b.queues .fileAccessQueue).recordedOf (accesses entry.file.id)).length
      = (b.published.filter (accesses entry.file.id)).length := by
        rw [← accesses_filter]
        exact hrecorded
    _ = ((finalState (step sha256 fold) .empty ops).fileAccesses.filter
          (names entry.file.id)).length := by
        rw [← length_fileAccessedEvents, hfilter.length_eq]
    _ = _ := fileAccesses_run fold ops entry.file.id

/-! User 1 uploads a file and downloads it, and the event of the download is consumed. -/

def uploadAndDownload : List Op :=
  [.upload victimUpload, .download (sampleDownload 1 "00000000-0000-0000-0000-000000000010")]

def downloadConsumed : List (FanOut.Action Queue DomainEvent EventBus.Generated Notification.Op) :=
  [.publish (.fileAccessed ⟨"00000000-0000-0000-0000-000000000010", 1, "secret.txt", 0x11, 1, 9⟩)
      true,
    .consume .fileAccessQueue .deliver, .consume .fileAccessQueue (.handle (0, 10) .succeeds),
    .consume .fileAccessQueue .settle]

theorem downloads_counted_once : ∃ b : Bus,
    ∀ r ∈ getFileRecommendations defaultOptions (fun _ => 12) (fun _ => 0)
        (FileService.listFiles (finalState (step sampleSha256 id) .empty
          uploadAndDownload).metadata 1) b.store.accessStats,
      r.accessCount = ((answers (step sampleSha256 id) .empty uploadAndDownload).filter
        (answered r.fileId)).length := by
  have hrun : ∃ b ∈ downloadConsumed.foldlM (fun (b : Bus) a =>
      if True then FanOut.step (exchange 50) b a else none) start,
      FanOut.Undisturbed (b.queues .fileAccessQueue) ∧ fileAccessedEvents b.published =
        [⟨"00000000-0000-0000-0000-000000000010", 1, "secret.txt", 0x11, 1, 9⟩] := by
    refine ⟨_, rfl, ⟨⟨rfl, rfl⟩, rfl, rfl⟩, rfl⟩
  obtain ⟨b, hb, hundisturbed, hevents⟩ := hrun
  have haccesses : (finalState (step sampleSha256 id) .empty uploadAndDownload).fileAccesses =
      [⟨"00000000-0000-0000-0000-000000000010", 1, "secret.txt", 0x11, 1, 9⟩] := by decide
  have hpublished : (fileAccessedEvents b.published).Perm
      (finalState (step sampleSha256 id) .empty uploadAndDownload).fileAccesses := by
    rw [hevents, haccesses]
  exact ⟨b, downloads_counted id uploadAndDownload 50 b (reach_of_schedule hb) hundisturbed
    hpublished defaultOptions _ _ 1⟩

end IntelliStore.Platform
