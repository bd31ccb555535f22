import IntelliStore.Library.LikePattern
import IntelliStore.Metadata.Database
import Mathlib.Data.List.Sort

/-! `PgFileRepository`: every method as the SQL it sends. The ids of new rows and the
clock are supplied with the call. -/

namespace IntelliStore.Metadata
open Postgres

structure ChunkInput where
  chunkIndex : Nat
  sizeBytes : Nat
  checksum : String
  storageKey : String
  deriving DecidableEq

/-- The values of `gen_random_uuid()` and `now()` during one call. -/
structure Generated where
  file : Uuid
  version : Uuid
  chunk : Nat → Uuid
  now : Nat

/-- The ids of the `n`-th call of a sample run. -/
def sampleGenerated (n : Nat) : Generated where
  file := BitVec.ofNat 128 (16 * n)
  version := BitVec.ofNat 128 (16 * n + 1)
  chunk := fun i => BitVec.ofNat 128 (16 * n + 2 + i)
  now := n

/-- `ORDER BY key DESC`; rows with equal keys keep their order in the table. -/
def orderByDesc {α : Type*} (key : α → Nat) (rows : List α) : List α :=
  rows.insertionSort fun a b => key b ≤ key a

def orderByAsc {α : Type*} (key : α → Nat) (rows : List α) : List α :=
  rows.insertionSort fun a b => key a ≤ key b

namespace Database

def createFile (d : Database) (g : Generated) (ownerId : Uuid) (fileName : String) :
    Except DbError (FileRecord × Database) := do
  let row : FileRecord := ⟨g.file, ownerId, fileName, false, g.now, g.now⟩
  let d' ← d.insertFile row
  return (row, d')

def findFileById (d : Database) (id : Uuid) : Option FileRecord :=
  d.files.find? fun f => f.id == id && !f.isDeleted

def listFilesByOwner (d : Database) (ownerId : Uuid) : List FileRecord :=
  orderByDesc FileRecord.createdAt (d.files.filter fun f => f.ownerId == ownerId && !f.isDeleted)

/-- The pattern `searchByOwner` sends: LIKE metacharacters escaped, `%` on both sides. -/
def searchPattern (query : String) : List Char :=
  '%' :: query.toList.flatMap (fun c => if c = '\\' ∨ c = '%' ∨ c = '_' then ['\\', c] else [c]) ++
    ['%']

/-- `fold` is the case folding ILIKE applies to both sides. -/
def searchByOwner (fold : Char → Char) (d : Database) (ownerId : Uuid) (query : String) :
    Except DbError (List FileRecord) :=
  if isText query then
    match Library.likeTokens ((searchPattern query).map fold) with
    | none => .error .invalidEscape
    | some pattern => .ok <| orderByDesc FileRecord.createdAt <| d.files.filter fun f =>
        f.ownerId == ownerId && !f.isDeleted &&
          Library.likeMatch pattern (f.fileName.toList.map fold)
  else .error .invalidText

def softDeleteFile (d : Database) (now : Nat) (id : Uuid) : Database :=
  d.updateFile id (fun f => { f with isDeleted := true, updatedAt := now }) fun _ => rfl

/-- `COALESCE(MAX(version_number), 0) + 1`. -/
def nextVersionNumber (d : Database) (fileId : Uuid) : Nat :=
  ((d.versions.filter (·.fileId == fileId)).map FileVersionRecord.versionNumber).foldr max 0 + 1

def touchFile (d : Database) (now : Nat) (id : Uuid) : Database :=
  d.updateFile id (fun f => { f with updatedAt := now }) fun _ => rfl

/-- The rows the chunk loop inserts, from the `i`-th chunk on. -/
def chunkRows (g : Generated) (versionId : Uuid) : Nat → List ChunkInput → List ChunkRecord
  | _, [] => []
  | i, c :: cs =>
    ⟨g.chunk i, versionId, c.chunkIndex, c.sizeBytes, c.checksum, c.storageKey⟩ ::
      chunkRows g versionId (i + 1) cs

/-- One transaction: an error is the rollback, and leaves no new database. -/
def createVersion (d : Database) (g : Generated) (fileId : Uuid) (sizeBytes : Nat)
    (mimeType checksum : String) (chunks : List ChunkInput) :
    Except DbError ((FileVersionRecord × List ChunkRecord) × Database) := do
  let version : FileVersionRecord :=
    ⟨g.version, fileId, d.nextVersionNumber fileId, sizeBytes, mimeType, checksum, g.now⟩
  let d' ← d.insertVersion version
  let rows := chunkRows g version.id 0 chunks
  let d' ← rows.foldlM insertChunk d'
  return ((version, rows), d'.touchFile g.now fileId)

def listVersions (d : Database) (fileId : Uuid) : List FileVersionRecord :=
  orderByDesc FileVersionRecord.versionNumber (d.versions.filter (·.fileId == fileId))

/-- A version number outside the INT range is an error of the query. -/
def findVersion (d : Database) (fileId : Uuid) (versionNumber : Nat) :
    Except DbError (Option FileVersionRecord) :=
  if isInt4 versionNumber then
    .ok (d.versions.find? fun v => v.fileId == fileId && v.versionNumber == versionNumber)
  else .error .outOfRange

/-- `ORDER BY version_number DESC LIMIT 1`. -/
def latestVersion (d : Database) (fileId : Uuid) : Option FileVersionRecord :=
  (d.listVersions fileId).head?

def listChunks (d : Database) (fileVersionId : Uuid) : List ChunkRecord :=
  orderByAsc ChunkRecord.chunkIndex (d.chunks.filter (·.fileVersionId == fileVersionId))

end Database
end IntelliStore.Metadata
