import IntelliStore.Library.Runs
import IntelliStore.Metadata.RepositorySpec

/-! `registerFile` and `addVersion` one statement at a time, with the transactions of
`createVersion` open beside each other under READ COMMITTED: a statement reads what is committed
and what its own transaction has written, and waits for a row or a key that another transaction
holds. -/

namespace IntelliStore.Metadata
open Library Postgres

/-- The version and the chunk rows of a transaction, on top of what is committed. -/
def Database.view (d : Database) (version : FileVersionRecord) (rows : List ChunkRecord) :
    Except DbError Database := do
  let d' ← d.insertVersion version
  rows.foldlM Database.insertChunk d'

/-- The statement that a call sends next. A transaction that has failed holds its rows until it
is rolled back. -/
inductive Stage where
  | arrived
  | selectingNumber (fileId : Uuid)
  | insertingVersion (fileId : Uuid) (next : Nat)
  | insertingChunks (version : FileVersionRecord) (inserted : List ChunkRecord)
      (chunks : List ChunkInput)
  | committing (version : FileVersionRecord) (inserted : List ChunkRecord)
  | rollingBack (held : Option (FileVersionRecord × List ChunkRecord)) (e : ServiceError)
  | ended (result : Except ServiceError VersionDetail)

namespace Stage

/-- The rows that are written and not committed. -/
def pending : Stage → Option (FileVersionRecord × List ChunkRecord)
  | .insertingChunks version inserted _ => some (version, inserted)
  | .committing version inserted => some (version, inserted)
  | .rollingBack held _ => held
  | _ => none

def result : Stage → Option VersionDetail
  | .ended (.ok result) => some result
  | _ => none

end Stage

/-- A call that registers a version. -/
structure Session where
  request : Request
  input : CreateVersionInput
  stage : Stage

namespace Session

def holdsVersion (version : FileVersionRecord) (o : Session) : Bool :=
  match o.stage.pending with
  | some (v, _) => v.id = version.id ∨
      (v.fileId, v.versionNumber) = (version.fileId, version.versionNumber)
  | none => false

def holdsChunk (row : ChunkRecord) (o : Session) : Bool :=
  match o.stage.pending with
  | some (_, rows) => rows.any fun r => r.id = row.id ∨
      (r.fileVersionId, r.chunkIndex) = (row.fileVersionId, row.chunkIndex)
  | none => false

/-- The `UPDATE` of the file row is not committed. -/
def locksFile (fileId : Uuid) (o : Session) : Bool :=
  match o.stage with
  | .committing version _ => version.fileId = fileId
  | _ => false

def newVersion (c : Session) (fileId : Uuid) (next : Nat) : FileVersionRecord :=
  ⟨c.request.generated.version, fileId, next, FileService.totalSize c.input.chunks,
    c.input.mimeType, c.input.checksum, c.request.generated.now⟩

def newChunk (c : Session) (version : FileVersionRecord) (inserted : List ChunkRecord)
    (chunk : ChunkInput) : ChunkRecord :=
  ⟨c.request.generated.chunk inserted.length, version.id, chunk.chunkIndex, chunk.sizeBytes,
    chunk.checksum, chunk.storageKey⟩

/-- The next statement of the call, or `none` while it waits for another transaction or has
ended. -/
def advance (c : Session) (d : Database) (others : List Session) : Option (Database × Stage) :=
  match c.stage with
  | .arrived =>
    match c.request.call with
    | .registerFile input =>
      match d.createFile c.request.generated c.request.ownerId input.fileName with
      | .error e => some (d, .ended (.error (.db e)))
      | .ok (file, d') => some (d', .selectingNumber file.id)
    | .addVersion fileId _ =>
      match FileService.getOwnedFile d c.request.ownerId fileId with
      | .error e => some (d, .ended (.error e))
      | .ok file => some (d, .selectingNumber file.id)
    | _ => none
  | .selectingNumber fileId =>
    -- the sum is of type INT
    if isInt4 (d.nextVersionNumber fileId) then
      some (d, .insertingVersion fileId (d.nextVersionNumber fileId))
    else some (d, .rollingBack none (.db .outOfRange))
  | .insertingVersion fileId next =>
    if others.any (holdsVersion (c.newVersion fileId next)) then none
    else
      match d.insertVersion (c.newVersion fileId next) with
      | .error e => some (d, .rollingBack none (.db e))
      | .ok _ => some (d, .insertingChunks (c.newVersion fileId next) [] c.input.chunks)
  | .insertingChunks version inserted (chunk :: chunks) =>
    let row := c.newChunk version inserted chunk
    if others.any (holdsChunk row) then none
    else
      match d.view version inserted >>= fun d' => d'.insertChunk row with
      | .error e => some (d, .rollingBack (some (version, inserted)) (.db e))
      | .ok _ => some (d, .insertingChunks version (inserted ++ [row]) chunks)
  | .insertingChunks version inserted [] =>
    if others.any (locksFile version.fileId) then none
    else some (d, .committing version inserted)
  | .committing version inserted =>
    match d.view version inserted with
    | .error e => some (d, .rollingBack (some (version, inserted)) (.db e))
    | .ok d' => some (d'.touchFile c.request.generated.now version.fileId,
        .ended (.ok ⟨version, inserted⟩))
  | .rollingBack _ e => some (d, .ended (.error e))
  | .ended _ => none

end Session

/-- What is committed, and the calls that have come in so far. -/
structure Sessions where
  committed : Database
  calls : List Session

namespace Sessions

def init (d : Database) : Sessions := ⟨d, []⟩

inductive Action where
  | arrive (r : Request)
  | proceed (i : Nat)

def step (s : Sessions) : Action → Option Sessions
  | .arrive r =>
    match r.call.registration with
    | some input => some { s with calls := s.calls ++ [⟨r, input, .arrived⟩] }
    | none => none
  | .proceed i =>
    match s.calls[i]? with
    | some c =>
      match c.advance s.committed (s.calls.eraseIdx i) with
      | some (d, stage) => some ⟨d, s.calls.set i { c with stage := stage }⟩
      | none => none
    | none => none

/-- What the calls that succeeded returned. -/
def results (s : Sessions) : List VersionDetail := s.calls.filterMap fun c => c.stage.result

theorem proceed_inv {s s' : Sessions} {i : Nat} (h : s.step (.proceed i) = some s') :
    ∃ c d stage, s.calls[i]? = some c ∧
      c.advance s.committed (s.calls.eraseIdx i) = some (d, stage) ∧
      s' = ⟨d, s.calls.set i { c with stage := stage }⟩ := by
  simp only [step] at h
  cases hi : s.calls[i]? with
  | none =>
    rw [hi] at h
    cases h
  | some c =>
    rw [hi] at h
    dsimp only at h
    cases hc : c.advance s.committed (s.calls.eraseIdx i) with
    | none =>
      rw [hc] at h
      cases h
    | some res =>
      rw [hc] at h
      cases h
      exact ⟨c, res.1, res.2, rfl, hc, rfl⟩

end Sessions
end IntelliStore.Metadata
