import IntelliStore.AppError
import IntelliStore.Library.JsNumber
import IntelliStore.Metadata.Repository
import Mathlib.Data.List.DropRight

/-! `FileService` over `PgFileRepository`, and the request schemas of its routes. A call
returns its value or error together with the database it leaves. -/

namespace IntelliStore.Metadata
open Library Postgres

/-- A database error is not an `AppError`; the error handler answers it as internal. -/
inductive ServiceError where
  | app (e : AppError)
  | db (e : DbError)
  deriving DecidableEq

def ServiceError.toAppError : ServiceError → AppError
  | .app e => e
  | .db _ => .internal

structure CreateVersionInput where
  mimeType : String
  checksum : String
  chunks : List ChunkInput
  deriving DecidableEq

structure CreateFileInput extends CreateVersionInput where
  fileName : String
  deriving DecidableEq

/-! ### `file.schema.ts` -/

/-- The `length` of a JavaScript string. -/
def utf16Length (s : String) : Nat :=
  (s.toList.map fun c => if c.toNat < 0x10000 then 1 else 2).sum

def chunkSchema (c : ChunkInput) : Bool :=
  0 < c.sizeBytes && c.checksum ≠ "" && c.storageKey ≠ ""

def createVersionSchema (input : CreateVersionInput) : Bool :=
  input.mimeType ≠ "" && input.checksum ≠ "" && input.chunks ≠ [] && input.chunks.all chunkSchema

def createFileSchema (input : CreateFileInput) : Bool :=
  1 ≤ utf16Length input.fileName && utf16Length input.fileName ≤ 255 &&
    createVersionSchema input.toCreateVersionInput

/-! ### `String.prototype.trim` -/

def isJsSpace (c : Char) : Bool :=
  c.toNat ∈ [0x9, 0xA, 0xB, 0xC, 0xD, 0x20, 0xA0, 0x1680, 0x2028, 0x2029, 0x202F, 0x205F, 0x3000,
    0xFEFF] || (0x2000 ≤ c.toNat && c.toNat ≤ 0x200A)

def trim (s : String) : String :=
  String.ofList ((s.toList.dropWhile isJsSpace).rdropWhile isJsSpace)

/-! ### The service -/

structure FileWithLatestVersion where
  file : FileRecord
  latestVersion : Option FileVersionRecord
  deriving DecidableEq

structure FileDetail where
  file : FileRecord
  versions : List FileVersionRecord
  deriving DecidableEq

structure VersionDetail where
  version : FileVersionRecord
  chunks : List ChunkRecord
  deriving DecidableEq

structure RegisterFileResult extends VersionDetail where
  file : FileRecord
  deriving DecidableEq

namespace FileService

def totalSize (chunks : List ChunkInput) : Nat := sumNumbers (chunks.map ChunkInput.sizeBytes)

/-- A BIGINT takes the size of every chunk, if it takes their total. -/
theorem isInt8_of_totalSize {chunks : List ChunkInput} (h : isInt8 (totalSize chunks) = true)
    {chunk : ChunkInput} (hchunk : chunk ∈ chunks) : isInt8 chunk.sizeBytes = true := by
  rw [isInt8, decide_eq_true_iff] at h ⊢
  by_contra hsize
  have htotal := pow_le_sumNumbers (List.mem_map_of_mem (f := ChunkInput.sizeBytes) hchunk)
    (Nat.le_of_not_lt hsize)
  exact absurd h (Nat.not_lt.mpr htotal)

def getOwnedFile (d : Database) (ownerId : Uuid) (fileId : String) :
    Except ServiceError FileRecord :=
  match uuidIn fileId with
  | none => .error (.db .invalidUuid)
  | some id =>
    match d.findFileById id with
    | none => .error (.app (.notFound "File not found"))
    | some file =>
      -- another owner's file is reported like a missing one
      if file.ownerId ≠ ownerId then .error (.app (.notFound "File not found")) else .ok file

/-- The file row stays when only the version transaction fails. -/
def registerFile (g : Generated) (ownerId : Uuid) (input : CreateFileInput) (d : Database) :
    Except ServiceError RegisterFileResult × Database :=
  match d.createFile g ownerId input.fileName with
  | .error e => (.error (.db e), d)
  | .ok (file, d₁) =>
    match d₁.createVersion g file.id (totalSize input.chunks) input.mimeType input.checksum
        input.chunks with
    | .error e => (.error (.db e), d₁)
    | .ok ((version, chunks), d₂) => (.ok ⟨⟨version, chunks⟩, file⟩, d₂)

def addVersion (g : Generated) (ownerId : Uuid) (fileId : String) (input : CreateVersionInput)
    (d : Database) : Except ServiceError VersionDetail × Database :=
  match getOwnedFile d ownerId fileId with
  | .error e => (.error e, d)
  | .ok file =>
    match d.createVersion g file.id (totalSize input.chunks) input.mimeType input.checksum
        input.chunks with
    | .error e => (.error (.db e), d)
    | .ok ((version, chunks), d₁) => (.ok ⟨version, chunks⟩, d₁)

def withLatestVersions (d : Database) (files : List FileRecord) : List FileWithLatestVersion :=
  files.map fun file => ⟨file, d.latestVersion file.id⟩

def listFiles (d : Database) (ownerId : Uuid) : List FileWithLatestVersion :=
  withLatestVersions d (d.listFilesByOwner ownerId)

def searchFiles (fold : Char → Char) (d : Database) (ownerId : Uuid) (query : String) :
    Except ServiceError (List FileWithLatestVersion) :=
  if utf16Length (trim query) = 0 then
    .error (.app (.badRequest "Search query must not be empty"))
  else
    match d.searchByOwner fold ownerId (trim query) with
    | .error e => .error (.db e)
    | .ok files => .ok (withLatestVersions d files)

def getFile (d : Database) (ownerId : Uuid) (fileId : String) : Except ServiceError FileDetail :=
  match getOwnedFile d ownerId fileId with
  | .error e => .error e
  | .ok file => .ok ⟨file, d.listVersions file.id⟩

def getVersion (d : Database) (ownerId : Uuid) (fileId : String) (versionNumber : Nat) :
    Except ServiceError VersionDetail :=
  match getOwnedFile d ownerId fileId with
  | .error e => .error e
  | .ok file =>
    match d.findVersion file.id versionNumber with
    | .error e => .error (.db e)
    | .ok none => .error (.app (.notFound "Version not found"))
    | .ok (some version) => .ok ⟨version, d.listChunks version.id⟩

def deleteFile (now : Nat) (ownerId : Uuid) (fileId : String) (d : Database) :
    Except ServiceError Unit × Database :=
  match getOwnedFile d ownerId fileId with
  | .error e => (.error e, d)
  | .ok file => (.ok (), d.softDeleteFile now file.id)

end FileService

/-! ### Calls of the service by its owners -/

inductive Call where
  | registerFile (input : CreateFileInput)
  | addVersion (fileId : String) (input : CreateVersionInput)
  | listFiles
  | searchFiles (query : String)
  | getFile (fileId : String)
  | getVersion (fileId : String) (versionNumber : Nat)
  | deleteFile (fileId : String)

/-- The version a call registers. -/
def Call.registration : Call → Option CreateVersionInput
  | .registerFile input => some input.toCreateVersionInput
  | .addVersion _ input => some input
  | _ => none

structure Request where
  ownerId : Uuid
  generated : Generated
  call : Call

inductive Response where
  | registered (result : RegisterFileResult)
  | versionAdded (result : VersionDetail)
  | fileList (files : List FileWithLatestVersion)
  | fileDetail (detail : FileDetail)
  | versionDetail (detail : VersionDetail)
  | deleted
  deriving DecidableEq

def handle (fold : Char → Char) (d : Database) (r : Request) :
    Except ServiceError Response × Database :=
  match r.call with
  | .registerFile input =>
    let res := FileService.registerFile r.generated r.ownerId input d
    (res.1.map .registered, res.2)
  | .addVersion fileId input =>
    let res := FileService.addVersion r.generated r.ownerId fileId input d
    (res.1.map .versionAdded, res.2)
  | .listFiles => (.ok (.fileList (FileService.listFiles d r.ownerId)), d)
  | .searchFiles query => ((FileService.searchFiles fold d r.ownerId query).map .fileList, d)
  | .getFile fileId => ((FileService.getFile d r.ownerId fileId).map .fileDetail, d)
  | .getVersion fileId versionNumber =>
    ((FileService.getVersion d r.ownerId fileId versionNumber).map .versionDetail, d)
  | .deleteFile fileId =>
    let res := FileService.deleteFile r.generated.now r.ownerId fileId d
    (res.1.map fun _ => .deleted, res.2)

end IntelliStore.Metadata
