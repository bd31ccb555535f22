import IntelliStore.Library.Runs
import IntelliStore.Storage.UploadSpec

/-! `uploadNewVersion` one statement of metadata-service at a time, while `deleteFile` calls
for the same file run beside it. -/

namespace IntelliStore.Storage.VersionOutcome
open Postgres Library Metadata

inductive Phase where
  | called
  | stored (stored : StoredChunks)
  | owned (stored : StoredChunks) (file : FileRecord)
  | registered (stored : StoredChunks) (result : VersionDetail)
  | detailed (stored : StoredChunks) (result : VersionDetail) (file : FileRecord)
  | returned (result : VersionUploadResult)
  | threw (e : Failure)
  deriving DecidableEq

def Phase.ofResult : Except Failure VersionUploadResult → Phase
  | .ok result => .returned result
  | .error e => .threw e

variable {σ : Type}

/-- `deletes` are the files that a `deleteFile` call has looked up and not yet marked. -/
structure State (σ : Type) where
  service : ServiceState σ Database
  phase : Phase
  deletes : List Uuid

def State.init (s : ServiceState σ Database) : State σ := ⟨s, .called, []⟩

/-- The call. The requests of the metadata client are steps of their own. -/
structure VersionUpload (σ : Type) where
  svc : UploadService σ Database
  bearerToken : BearerToken
  fileId : String
  mimeType : String
  buffer : Bytes
  generated : Generated

inductive Action where
  | storeChunks
  | addVersionFails (e : Failure)
  | findOwned
  | createVersion
  | getFileDetailFails (e : Failure)
  | getFileDetail
  | publish
  | findDeleted
  | softDelete (id : Uuid) (now : Nat)

/-- A rejected registration: the cleanup of `registerWithCleanup`, and the error. -/
def reject (u : VersionUpload σ) (s : State σ) (stored : StoredChunks) (e : Failure) : State σ where
  service := { s.service with
    backend :=
      UploadService.deleteAll u.svc.storageBackend stored.newlyWrittenKeys s.service.backend }
  phase := .threw e
  deletes := s.deletes

/-- `addVersion` is `findOwned` and `createVersion`, `deleteFile` is `findDeleted` and
`softDelete`. Of `getFileDetail` only the file is used. -/
def step (u : VersionUpload σ) (s : State σ) : Action → Option (State σ)
  | .storeChunks =>
    match s.phase with
    | .called =>
      match u.svc.storeChunks u.buffer u.mimeType s.service.backend with
      | (.error e, b) => some ⟨{ s.service with backend := b }, .threw e, s.deletes⟩
      | (.ok stored, b) => some ⟨{ s.service with backend := b }, .stored stored, s.deletes⟩
    | _ => none
  | .addVersionFails e =>
    match s.phase with
    | .stored stored | .owned stored _ => some (reject u s stored e)
    | _ => none
  | .findOwned =>
    match s.phase with
    | .stored stored =>
      if createVersionSchema stored.payload then
        match FileService.getOwnedFile s.service.metadata u.bearerToken u.fileId with
        | .error e => some (reject u s stored (.app e.toAppError))
        | .ok file => some { s with phase := .owned stored file }
      else some (reject u s stored (.app (.badRequest "Validation failed")))
    | _ => none
  | .createVersion =>
    match s.phase with
    | .owned stored file =>
      match s.service.metadata.createVersion u.generated file.id
          (FileService.totalSize stored.payload.chunks) stored.payload.mimeType
          stored.payload.checksum stored.payload.chunks with
      | .error e => some (reject u s stored (.app (ServiceError.db e).toAppError))
      | .ok ((version, chunks), d) =>
        some ⟨{ s.service with metadata := d }, .registered stored ⟨version, chunks⟩, s.deletes⟩
    | _ => none
  | .getFileDetailFails e =>
    match s.phase with
    -- the version stays registered, and its chunks stored
    | .registered _ _ => some { s with phase := .threw e }
    | _ => none
  | .getFileDetail =>
    match s.phase with
    | .registered stored result =>
      match FileService.getOwnedFile s.service.metadata u.bearerToken u.fileId with
      | .error e => some { s with phase := .threw (.app e.toAppError) }
      | .ok file => some { s with phase := .detailed stored result file }
    | _ => none
  | .publish =>
    match s.phase with
    | .detailed stored result file => some { s with
        service := UploadService.publishChunkUploaded u.fileId file.ownerId file.fileName result
          s.service
        phase := .returned ⟨result, stored.dedup⟩ }
    | _ => none
  | .findDeleted =>
    match FileService.getOwnedFile s.service.metadata u.bearerToken u.fileId with
    | .error _ => some s
    -- the mark is set later, whatever happens to the file until then
    | .ok file => some { s with deletes := s.deletes ++ [file.id] }
  | .softDelete id now =>
    if s.deletes.contains id then
      some { s with
        service := { s.service with metadata := s.service.metadata.softDeleteFile now id }
        deletes := s.deletes.erase id }
    else none

/-! ### Outcome and tables -/

/-- The version `v` and the chunk rows `rows` are what the tables gained. -/
def Gained (s₀ s : ServiceState σ Database) (v : FileVersionRecord) (rows : List ChunkRecord) :
    Prop :=
  s.metadata.versions = s₀.metadata.versions ++ [v] ∧
    s.metadata.chunks = s₀.metadata.chunks ++ rows

/-- One event, listing exactly the chunks of the version, was handed to the publisher. -/
def Announced (s₀ s : ServiceState σ Database) (v : FileVersionRecord) (rows : List ChunkRecord) :
    Prop :=
  ∃ event, s.chunkUploads = s₀.chunkUploads ++ [event] ∧ event.versionId = v.id ∧
    event.chunks = rows.map fun chunk => ⟨chunk.id, chunk.storageKey, chunk.sizeBytes⟩

/-- If the upload threw, no version was registered; if it returned, its version was
registered and announced. -/
def Agrees (s₀ : ServiceState σ Database) (s : State σ) : Prop :=
  match s.phase with
  | .threw _ => s.service.metadata.versions = s₀.metadata.versions
  | .returned result => Gained s₀ s.service result.version result.chunks ∧
      Announced s₀ s.service result.version result.chunks
  | _ => True

/-- `getFileDetail` does not fail, and finds the file still live. -/
def Undisturbed (u : VersionUpload σ) (s : State σ) : Action → Prop
  | .getFileDetailFails _ => False
  | .getFileDetail =>
    ∃ file, FileService.getOwnedFile s.service.metadata u.bearerToken u.fileId = .ok file
  | _ => True

/-- What holds in each phase. -/
def Progress (s₀ : ServiceState σ Database) (s : State σ) : Prop :=
  match s.phase with
  | .called | .stored _ | .owned _ _ => s.service.metadata.versions = s₀.metadata.versions ∧
      s.service.metadata.chunks = s₀.metadata.chunks ∧ s.service.chunkUploads = s₀.chunkUploads
  | .threw _ => s.service.metadata.versions = s₀.metadata.versions
  | .registered _ result | .detailed _ result _ =>
    Gained s₀ s.service result.version result.chunks ∧ s.service.chunkUploads = s₀.chunkUploads
  | .returned result => Gained s₀ s.service result.version result.chunks ∧
      Announced s₀ s.service result.version result.chunks

variable {u : VersionUpload σ} {s₀ : ServiceState σ Database} {s s' : State σ}

theorem Progress.agrees (h : Progress s₀ s) : Agrees s₀ s := by
  obtain ⟨service, phase, deletes⟩ := s
  cases phase with
  | threw e => exact h
  | returned result => exact h
  | _ => trivial

theorem Progress.step {a : Action} (h : Progress s₀ s) (hg : Undisturbed u s a)
    (hs : step u s a = some s') : Progress s₀ s' := by
  obtain ⟨service, phase, deletes⟩ := s
  cases a with
  | storeChunks =>
    cases phase <;> simp only [VersionOutcome.step, reduceCtorEq] at hs
    split at hs <;> cases hs
    · exact h.1
    · exact h
  | addVersionFails e =>
    cases phase <;> simp only [VersionOutcome.step, reduceCtorEq, Option.some.injEq] at hs <;>
      subst hs <;> exact h.1
  | findOwned =>
    cases phase <;> simp only [VersionOutcome.step, reduceCtorEq] at hs
    split_ifs at hs
    · split at hs <;> cases hs
      · exact h.1
      · exact h
    · cases hs
      exact h.1
  | createVersion =>
    cases phase <;> simp only [VersionOutcome.step, reduceCtorEq] at hs
    obtain ⟨hv', hc', he'⟩ := h
    split at hs
    · cases hs
      exact hv'
    · rename_i hv
      cases hs
      obtain ⟨-, -, -, -, hversions, hchunks⟩ := Database.createVersion_ok hv
      exact ⟨⟨hversions.trans (by rw [hv']), hchunks.trans (by rw [hc'])⟩, he'⟩
  | getFileDetailFails e => exact hg.elim
  | getFileDetail =>
    cases phase <;> simp only [VersionOutcome.step, reduceCtorEq] at hs
    obtain ⟨file, hfile⟩ := hg
    simp only [hfile, Option.some.injEq] at hs
    subst hs
    exact h
  | publish =>
    cases phase <;> simp only [VersionOutcome.step, reduceCtorEq, Option.some.injEq] at hs
    subst hs
    obtain ⟨hgained, he⟩ := h
    exact ⟨hgained, _, by rw [← he]; rfl, rfl, rfl⟩
  -- a deletion changes file rows only, and the invariant speaks of versions, chunks and events
  | findDeleted =>
    simp only [VersionOutcome.step] at hs
    split at hs <;> cases hs <;> exact h
  | softDelete id now =>
    simp only [VersionOutcome.step] at hs
    split_ifs at hs
    cases hs
    cases phase <;> exact h

/-- Once an upload has ended, its outcome is final. -/
theorem Agrees.of_step {a : Action} (h : Agrees s₀ s') (hs : step u s a = some s') :
    Agrees s₀ s := by
  obtain ⟨service, phase, deletes⟩ := s
  cases a with
  | findDeleted =>
    simp only [VersionOutcome.step] at hs
    split at hs <;> cases hs <;> exact h
  | softDelete id now =>
    simp only [VersionOutcome.step] at hs
    split_ifs at hs
    cases hs
    cases phase <;> exact h
  | _ => cases phase <;> trivial

/-- A version is registered and then `getFileDetail` throws. -/
theorem undisturbed_of_agrees {a : Action} (hp : Progress s₀ s) (h : Agrees s₀ s')
    (hs : step u s a = some s') : Undisturbed u s a := by
  obtain ⟨service, phase, deletes⟩ := s
  have hgrown : ∀ v, s₀.metadata.versions ++ [v] ≠ s₀.metadata.versions := fun v => by simp
  cases a with
  | getFileDetailFails e =>
    cases phase <;> simp only [VersionOutcome.step, reduceCtorEq, Option.some.injEq] at hs
    subst hs
    exact absurd (hp.1.1.symm.trans h) (hgrown _)
  | getFileDetail =>
    cases phase <;> simp only [VersionOutcome.step, reduceCtorEq] at hs
    split at hs
    · cases hs
      exact absurd (hp.1.1.symm.trans h) (hgrown _)
    · rename_i file hfile
      exact ⟨file, hfile⟩
  | _ => trivial

theorem progress_of_reach (h : Reach (step u) (Undisturbed u) (.init s₀) s) : Progress s₀ s :=
  have hinit : Progress s₀ (.init s₀) := ⟨rfl, rfl, rfl⟩
  h.invariant (Progress s₀) hinit fun _ _ _ ht hg hs => ht.step hg hs

/-- The outcome agrees with the tables in exactly the runs in which `getFileDetail` is
undisturbed. -/
theorem outcome_agrees_iff (u : VersionUpload σ) (s₀ : ServiceState σ Database) (s : State σ)
    (h : Reach (step u) (fun _ _ => True) (.init s₀) s) :
    Agrees s₀ s ↔ Reach (step u) (Undisturbed u) (.init s₀) s := by
  refine ⟨fun hagrees => ?_, fun hreach => (progress_of_reach hreach).agrees⟩
  induction h with
  | refl => exact .refl
  | tail a _ _ hs ih =>
    have ht := ih (hagrees.of_step hs)
    exact ht.tail a (undisturbed_of_agrees (progress_of_reach ht) hagrees hs) hs

/-! ### The steps of a call that runs alone -/

/-- The steps of `addVersion`, answered. -/
theorem reach_addVersion {s₁ : ServiceState σ Database} {stored : StoredChunks}
    (h : Reach (step u) (fun _ _ => True) (.init s₀) ⟨s₁, .stored stored, []⟩) :
    Reach (step u) (fun _ _ => True) (.init s₀)
      (match HttpMetadataClient.request .replied (FileRouter.postVersion u.generated u.bearerToken
          u.fileId stored.payload) s₁.metadata with
        | (.error e, d) => reject u ⟨{ s₁ with metadata := d }, .stored stored, []⟩ stored e
        | (.ok result, d) => ⟨{ s₁ with metadata := d }, .registered stored result, []⟩) := by
  simp only [HttpMetadataClient.request, FileRouter.postVersion, validateBody,
    FileService.addVersion]
  by_cases hschema : createVersionSchema stored.payload = true
  · cases hfile : FileService.getOwnedFile s₁.metadata u.bearerToken u.fileId with
    | error e =>
      refine h.tail .findOwned trivial ?_
      simp only [step, hschema, if_true, hfile, HttpMetadataClient.received, Except.mapError]
    | ok file =>
      have howned : Reach (step u) (fun _ _ => True) (.init s₀) ⟨s₁, .owned stored file, []⟩ := by
        refine h.tail .findOwned trivial ?_
        simp only [step, hschema, if_true, hfile]
      refine howned.tail .createVersion trivial ?_
      cases hv : s₁.metadata.createVersion u.generated file.id
          (FileService.totalSize stored.payload.chunks) stored.payload.mimeType
          stored.payload.checksum stored.payload.chunks with
      | error e =>
        simp only [step, hschema, if_true, hv, HttpMetadataClient.received, Except.mapError]
        rfl
      | ok created =>
        simp only [step, hschema, if_true, hv, HttpMetadataClient.received, Except.mapError]
  · refine h.tail .findOwned trivial ?_
    simp only [step, hschema, if_false, Bool.false_eq_true, HttpMetadataClient.received,
      Except.mapError, ServiceError.toAppError]

/-- With every request answered and no deletion beside it, the steps are those of
`uploadNewVersion`. -/
theorem reach_uploadNewVersion (u : VersionUpload σ) (s₀ : ServiceState σ Database)
    (hsvc : u.svc.metadataClient = httpMetadataClient u.generated .replied) :
    Reach (step u) (fun _ _ => True) (.init s₀) ⟨
      (u.svc.uploadNewVersion u.bearerToken u.fileId u.mimeType u.buffer s₀).2,
      .ofResult (u.svc.uploadNewVersion u.bearerToken u.fileId u.mimeType u.buffer s₀).1, []⟩ := by
  rcases hstore : u.svc.storeChunks u.buffer u.mimeType s₀.backend with ⟨e | stored, b⟩
  · refine Reach.tail .storeChunks .refl trivial ?_
    simp only [step, State.init, hstore, UploadService.uploadNewVersion, Phase.ofResult]
  have hstored : Reach (step u) (fun _ _ => True) (.init s₀)
      ⟨{ s₀ with backend := b }, .stored stored, []⟩ := by
    refine Reach.tail .storeChunks .refl trivial ?_
    simp only [step, State.init, hstore]
  have hadded := reach_addVersion hstored
  simp only [UploadService.uploadNewVersion, hstore, UploadService.registerWithCleanup, hsvc,
    httpMetadataClient, Outcomes.replied]
  rcases hreq : HttpMetadataClient.request .replied (FileRouter.postVersion u.generated
    u.bearerToken u.fileId stored.payload) s₀.metadata with ⟨e | result, d⟩
  · simp only [hreq] at hadded ⊢
    exact hadded
  · simp only [hreq] at hadded ⊢
    cases hfile : FileService.getOwnedFile d u.bearerToken u.fileId with
    | error e =>
      refine hadded.tail .getFileDetail trivial ?_
      simp only [step, hfile, FileService.getFile, HttpMetadataClient.request,
        HttpMetadataClient.received, Except.mapError, Phase.ofResult]
    | ok file =>
      have hdetailed := hadded.tail .getFileDetail trivial (by simp only [step, hfile]; rfl)
      refine hdetailed.tail .publish trivial ?_
      simp only [step, hfile, FileService.getFile, HttpMetadataClient.request,
        HttpMetadataClient.received, Except.mapError, Phase.ofResult]

/-! A new version of a file of one version. In the first schedule the file is deleted between
the registration of the version and `getFileDetail`, in the other one after both. -/

def oneFile : ServiceState Bucket Database :=
  ((containerUploadService sampleSha256 singleByte .none (sampleGenerated 1)
    .replied).uploadNewFile 1 "a.txt" "text/plain" [1] ⟨.ofObjects ∅, .empty, [], []⟩).2

def secondVersion : VersionUpload Bucket where
  svc := containerUploadService sampleSha256 singleByte .none (sampleGenerated 2) .replied
  bearerToken := 1
  fileId := "00000000-0000-0000-0000-000000000010"
  mimeType := "text/plain"
  buffer := [2]
  generated := sampleGenerated 2

def deletedAfterwards : List Action :=
  [.storeChunks, .findOwned, .findDeleted, .createVersion, .softDelete 16 5, .getFileDetail]

def deletedLast : List Action :=
  [.storeChunks, .findOwned, .findDeleted, .createVersion, .getFileDetail, .softDelete 16 5,
    .publish]

theorem version_registered_and_thrown :
    ∃ s, Reach (step secondVersion) (fun _ _ => True) (.init oneFile) s ∧ ¬Agrees oneFile s := by
  have hrun : ∃ s ∈ deletedAfterwards.foldlM
      (fun s a => if True then step secondVersion s a else none) (State.init oneFile),
      s.phase = .threw (.app (.notFound "File not found")) ∧
        s.service.metadata.versions ≠ oneFile.metadata.versions := by decide
  obtain ⟨s, hs, hphase, hversions⟩ := hrun
  refine ⟨s, reach_of_schedule hs, fun hagrees => hversions ?_⟩
  simpa only [Agrees, hphase] using hagrees

theorem outcome_agrees_iff_deleted_last :
    ∃ s, s.service.chunkUploads.length = 2 ∧
      (Agrees oneFile s ↔
        Reach (step secondVersion) (Undisturbed secondVersion) (.init oneFile) s) := by
  have hrun : ∃ s ∈ deletedLast.foldlM
      (fun s a => if True then step secondVersion s a else none) (State.init oneFile),
      s.service.chunkUploads.length = 2 := by decide
  obtain ⟨s, hs, huploads⟩ := hrun
  exact ⟨s, huploads, outcome_agrees_iff secondVersion oneFile s (reach_of_schedule hs)⟩

end IntelliStore.Storage.VersionOutcome
