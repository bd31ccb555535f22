import IntelliStore.Library.InsertionMap
import IntelliStore.Metadata.FileRepository

/-! `InMemoryFileRepository`, which the tests of the service run on. The keys of its maps are the
texts of ids, and no constraint is checked. -/

namespace IntelliStore.Metadata
open Library Postgres

structure InMemory where
  files : InsertionMap String FileRecord
  versions : InsertionMap String (List FileVersionRecord)
  chunks : InsertionMap String (List ChunkRecord)

namespace InMemory

def empty : InMemory := ⟨.empty, .empty, .empty⟩

def createFile (g : Generated) (ownerId : Uuid) (fileName : String) (m : InMemory) :
    FileRecord × InMemory :=
  let file : FileRecord := ⟨g.file, ownerId, fileName, false, g.now, g.now⟩
  (file, { m with
    files := m.files.set (uuidOut file.id) file
    versions := m.versions.set (uuidOut file.id) [] })

def findFileById (id : String) (m : InMemory) : Option FileRecord :=
  (m.files.get id).filter fun file => !file.isDeleted

/-- `Array.prototype.sort` is stable. -/
def listFilesByOwner (ownerId : Uuid) (m : InMemory) : List FileRecord :=
  orderByDesc FileRecord.createdAt
    (m.files.values.filter fun file => file.ownerId == ownerId && !file.isDeleted)

def searchByOwner (toLowerCase : String → List Char) (ownerId : Uuid) (query : String)
    (m : InMemory) : List FileRecord :=
  orderByDesc FileRecord.createdAt (m.files.values.filter fun file =>
    file.ownerId == ownerId && !file.isDeleted &&
      decide (toLowerCase query <:+: toLowerCase file.fileName))

def softDeleteFile (id : Uuid) (m : InMemory) : InMemory :=
  match m.files.get (uuidOut id) with
  | some file => { m with files := m.files.set (uuidOut id) { file with isDeleted := true } }
  | none => m

/-- `this.versions.get(fileId) ?? []`. -/
def versionsOf (m : InMemory) (fileId : Uuid) : List FileVersionRecord :=
  (m.versions.get (uuidOut fileId)).getD []

def createVersion (g : Generated) (fileId : Uuid) (sizeBytes : Nat) (mimeType checksum : String)
    (chunks : List ChunkInput) (m : InMemory) :
    (FileVersionRecord × List ChunkRecord) × InMemory :=
  let existing := m.versionsOf fileId
  let record : FileVersionRecord :=
    ⟨g.version, fileId, existing.length + 1, sizeBytes, mimeType, checksum, g.now⟩
  let chunkRecords := Database.chunkRows g record.id 0 chunks
  ((record, chunkRecords), { m with
    versions := m.versions.set (uuidOut fileId) (existing ++ [record])
    chunks := m.chunks.set (uuidOut record.id) chunkRecords })

def listVersions (fileId : Uuid) (m : InMemory) : List FileVersionRecord :=
  orderByDesc FileVersionRecord.versionNumber (m.versionsOf fileId)

def findVersion (fileId : Uuid) (versionNumber : Nat) (m : InMemory) : Option FileVersionRecord :=
  (m.versionsOf fileId).find? fun version => version.versionNumber == versionNumber

/-- The newer of two versions; of two with one number, the first. -/
def newer (latest current : FileVersionRecord) : FileVersionRecord :=
  if latest.versionNumber < current.versionNumber then current else latest

def latestVersion (fileId : Uuid) (m : InMemory) : Option FileVersionRecord :=
  match m.versionsOf fileId with
  | [] => none
  | version :: list => some (list.foldl newer version)

def listChunks (fileVersionId : Uuid) (m : InMemory) : List ChunkRecord :=
  orderByAsc ChunkRecord.chunkIndex ((m.chunks.get (uuidOut fileVersionId)).getD [])

def allChunks (m : InMemory) : List ChunkRecord := m.chunks.values.flatten

/-- The size a key was last seen with. -/
def distinctByKey (m : InMemory) : InsertionMap String Nat :=
  m.allChunks.foldl (fun sizes c => sizes.set c.storageKey c.sizeBytes) .empty

def latestSize (m : InMemory) (file : FileRecord) : Nat :=
  match m.latestVersion file.id with
  | some latest => latest.sizeBytes
  | none => 0

def getSystemStats (m : InMemory) : SystemStats :=
  let activeFiles := m.files.values.filter (!·.isDeleted)
  let logicalChunkBytes := sumNumbers (m.allChunks.map ChunkRecord.sizeBytes)
  let physicalChunkBytes := sumNumbers m.distinctByKey.values
  { totalFiles := activeFiles.length
    totalVersions := (m.versions.values.map List.length).sum
    totalChunks := m.allChunks.length
    totalBytes := sumNumbers (activeFiles.map m.latestSize)
    logicalChunkBytes := logicalChunkBytes
    physicalChunkBytes := physicalChunkBytes
    dedupedBytes := subNumbers logicalChunkBytes physicalChunkBytes }

end InMemory

def inMemoryFileRepository (toLowerCase : String → List Char) : FileRepository InMemory where
  createFile g ownerId fileName m :=
    let res := m.createFile g ownerId fileName
    (.ok res.1, res.2)
  findFileById id m := .ok (m.findFileById id)
  listFilesByOwner ownerId m := m.listFilesByOwner ownerId
  searchByOwner ownerId query m := .ok (m.searchByOwner toLowerCase ownerId query)
  softDeleteFile _ id m := m.softDeleteFile id
  createVersion g fileId sizeBytes mimeType checksum chunks m :=
    let res := m.createVersion g fileId sizeBytes mimeType checksum chunks
    (.ok res.1, res.2)
  listVersions fileId m := m.listVersions fileId
  findVersion fileId versionNumber m := .ok (m.findVersion fileId versionNumber)
  latestVersion fileId m := m.latestVersion fileId
  listChunks fileVersionId m := m.listChunks fileVersionId
  getSystemStats m := m.getSystemStats

end IntelliStore.Metadata
