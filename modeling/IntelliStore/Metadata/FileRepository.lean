import IntelliStore.Metadata.SystemStats

/-! `FileService` over any `FileRepository`, with `PgFileRepository` as an instance. -/

namespace IntelliStore.Metadata
open Postgres

/-- The methods of the interface, over a state of the repository. -/
structure FileRepository (σ : Type) where
  createFile (g : Generated) (ownerId : Uuid) (fileName : String) :
    σ → Except DbError FileRecord × σ
  findFileById (id : String) : σ → Except DbError (Option FileRecord)
  listFilesByOwner (ownerId : Uuid) : σ → List FileRecord
  searchByOwner (ownerId : Uuid) (query : String) : σ → Except DbError (List FileRecord)
  softDeleteFile (now : Nat) (id : Uuid) : σ → σ
  createVersion (g : Generated) (fileId : Uuid) (sizeBytes : Nat) (mimeType checksum : String)
    (chunks : List ChunkInput) : σ → Except DbError (FileVersionRecord × List ChunkRecord) × σ
  listVersions (fileId : Uuid) : σ → List FileVersionRecord
  findVersion (fileId : Uuid) (versionNumber : Nat) :
    σ → Except DbError (Option FileVersionRecord)
  latestVersion (fileId : Uuid) : σ → Option FileVersionRecord
  listChunks (fileVersionId : Uuid) : σ → List ChunkRecord
  getSystemStats : σ → SystemStats

namespace FileRepository
variable {σ : Type} (repo : FileRepository σ)

/-! ### The methods of the service -/

def getOwnedFile (s : σ) (ownerId : Uuid) (fileId : String) : Except ServiceError FileRecord :=
  match repo.findFileById fileId s with
  | .error e => .error (.db e)
  | .ok none => .error (.app (.notFound "File not found"))
  | .ok (some file) =>
    if file.ownerId ≠ ownerId then .error (.app (.notFound "File not found")) else .ok file

def registerFile (g : Generated) (ownerId : Uuid) (input : CreateFileInput) (s : σ) :
    Except ServiceError RegisterFileResult × σ :=
  match repo.createFile g ownerId input.fileName s with
  | (.error e, s) => (.error (.db e), s)
  | (.ok file, s) =>
    match repo.createVersion g file.id (FileService.totalSize input.chunks) input.mimeType
        input.checksum input.chunks s with
    | (.error e, s) => (.error (.db e), s)
    | (.ok (version, chunks), s) => (.ok ⟨⟨version, chunks⟩, file⟩, s)

def addVersion (g : Generated) (ownerId : Uuid) (fileId : String) (input : CreateVersionInput)
    (s : σ) : Except ServiceError VersionDetail × σ :=
  match repo.getOwnedFile s ownerId fileId with
  | .error e => (.error e, s)
  | .ok file =>
    match repo.createVersion g file.id (FileService.totalSize input.chunks) input.mimeType
        input.checksum input.chunks s with
    | (.error e, s) => (.error (.db e), s)
    | (.ok (version, chunks), s) => (.ok ⟨version, chunks⟩, s)

def withLatestVersions (s : σ) (files : List FileRecord) : List FileWithLatestVersion :=
  files.map fun file => ⟨file, repo.latestVersion file.id s⟩

def listFiles (s : σ) (ownerId : Uuid) : List FileWithLatestVersion :=
  repo.withLatestVersions s (repo.listFilesByOwner ownerId s)

def searchFiles (s : σ) (ownerId : Uuid) (query : String) :
    Except ServiceError (List FileWithLatestVersion) :=
  if utf16Length (trim query) = 0 then
    .error (.app (.badRequest "Search query must not be empty"))
  else
    match repo.searchByOwner ownerId (trim query) s with
    | .error e => .error (.db e)
    | .ok files => .ok (repo.withLatestVersions s files)

def getFile (s : σ) (ownerId : Uuid) (fileId : String) : Except ServiceError FileDetail :=
  match repo.getOwnedFile s ownerId fileId with
  | .error e => .error e
  | .ok file => .ok ⟨file, repo.listVersions file.id s⟩

def getVersion (s : σ) (ownerId : Uuid) (fileId : String) (versionNumber : Nat) :
    Except ServiceError VersionDetail :=
  match repo.getOwnedFile s ownerId fileId with
  | .error e => .error e
  | .ok file =>
    match repo.findVersion file.id versionNumber s with
    | .error e => .error (.db e)
    | .ok none => .error (.app (.notFound "Version not found"))
    | .ok (some version) => .ok ⟨version, repo.listChunks version.id s⟩

def deleteFile (now : Nat) (ownerId : Uuid) (fileId : String) (s : σ) :
    Except ServiceError Unit × σ :=
  match repo.getOwnedFile s ownerId fileId with
  | .error e => (.error e, s)
  | .ok file => (.ok (), repo.softDeleteFile now file.id s)

def handle (s : σ) (r : Request) : Except ServiceError Response × σ :=
  match r.call with
  | .registerFile input =>
    let res := repo.registerFile r.generated r.ownerId input s
    (res.1.map .registered, res.2)
  | .addVersion fileId input =>
    let res := repo.addVersion r.generated r.ownerId fileId input s
    (res.1.map .versionAdded, res.2)
  | .listFiles => (.ok (.fileList (repo.listFiles s r.ownerId)), s)
  | .searchFiles query => ((repo.searchFiles s r.ownerId query).map .fileList, s)
  | .getFile fileId => ((repo.getFile s r.ownerId fileId).map .fileDetail, s)
  | .getVersion fileId versionNumber =>
    ((repo.getVersion s r.ownerId fileId versionNumber).map .versionDetail, s)
  | .deleteFile fileId =>
    let res := repo.deleteFile r.generated.now r.ownerId fileId s
    (res.1.map fun _ => .deleted, res.2)

end FileRepository

/-! ### Over the tables -/

def pgFileRepository (fold : Char → Char) : FileRepository Database where
  createFile g ownerId fileName d :=
    match d.createFile g ownerId fileName with
    | .error e => (.error e, d)
    | .ok (file, d') => (.ok file, d')
  findFileById id d :=
    match uuidIn id with
    | none => .error .invalidUuid
    | some id => .ok (d.findFileById id)
  listFilesByOwner ownerId d := d.listFilesByOwner ownerId
  searchByOwner ownerId query d := d.searchByOwner fold ownerId query
  softDeleteFile now id d := d.softDeleteFile now id
  createVersion g fileId sizeBytes mimeType checksum chunks d :=
    match d.createVersion g fileId sizeBytes mimeType checksum chunks with
    | .error e => (.error e, d)
    | .ok (created, d') => (.ok created, d')
  listVersions fileId d := d.listVersions fileId
  findVersion fileId versionNumber d := d.findVersion fileId versionNumber
  latestVersion fileId d := d.latestVersion fileId
  listChunks fileVersionId d := d.listChunks fileVersionId
  getSystemStats d := d.getSystemStats

theorem getOwnedFile_pg (fold : Char → Char) (d : Database) (ownerId : Uuid) (fileId : String) :
    (pgFileRepository fold).getOwnedFile d ownerId fileId =
      FileService.getOwnedFile d ownerId fileId := by
  unfold FileRepository.getOwnedFile FileService.getOwnedFile pgFileRepository
  cases hid : uuidIn fileId with
  | none => simp only [hid]
  | some id => cases hfile : d.findFileById id <;> simp only [hid, hfile]

theorem registerFile_pg (fold : Char → Char) (d : Database) (g : Generated) (ownerId : Uuid)
    (input : CreateFileInput) :
    (pgFileRepository fold).registerFile g ownerId input d =
      FileService.registerFile g ownerId input d := by
  unfold FileRepository.registerFile FileService.registerFile
  cases hfile : d.createFile g ownerId input.fileName with
  | error e => simp [pgFileRepository, hfile]
  | ok created =>
    obtain ⟨file, d₁⟩ := created
    cases hversion : d₁.createVersion g file.id (FileService.totalSize input.chunks)
        input.mimeType input.checksum input.chunks <;>
      simp [pgFileRepository, hfile, hversion]

theorem addVersion_pg (fold : Char → Char) (d : Database) (g : Generated) (ownerId : Uuid)
    (fileId : String) (input : CreateVersionInput) :
    (pgFileRepository fold).addVersion g ownerId fileId input d =
      FileService.addVersion g ownerId fileId input d := by
  unfold FileRepository.addVersion FileService.addVersion
  rw [getOwnedFile_pg]
  cases FileService.getOwnedFile d ownerId fileId with
  | error e => rfl
  | ok file =>
    cases hversion : d.createVersion g file.id (FileService.totalSize input.chunks)
        input.mimeType input.checksum input.chunks <;>
      simp [pgFileRepository, hversion]

theorem searchFiles_pg (fold : Char → Char) (d : Database) (ownerId : Uuid) (query : String) :
    (pgFileRepository fold).searchFiles d ownerId query =
      FileService.searchFiles fold d ownerId query := by
  unfold FileRepository.searchFiles FileService.searchFiles
  by_cases hempty : utf16Length (trim query) = 0
  · simp only [hempty, if_true]
  · cases hsearch : d.searchByOwner fold ownerId (trim query) with
    | error e => simp only [hempty, if_false, pgFileRepository, hsearch]
    | ok files =>
      simp only [hempty, if_false, pgFileRepository, hsearch]
      rfl

/-- The service over the tables is `FileService` as it was modelled on them. -/
theorem handle_pg (fold : Char → Char) (d : Database) (r : Request) :
    (pgFileRepository fold).handle d r = handle fold d r := by
  unfold FileRepository.handle handle
  cases r.call with
  | registerFile input =>
    dsimp only
    rw [registerFile_pg]
  | addVersion fileId input =>
    dsimp only
    rw [addVersion_pg]
  | listFiles => rfl
  | searchFiles query =>
    dsimp only
    rw [searchFiles_pg]
  | getFile fileId =>
    dsimp only
    unfold FileRepository.getFile FileService.getFile
    rw [getOwnedFile_pg]
    rfl
  | getVersion fileId versionNumber =>
    dsimp only
    unfold FileRepository.getVersion FileService.getVersion
    rw [getOwnedFile_pg]
    rfl
  | deleteFile fileId =>
    dsimp only
    unfold FileRepository.deleteFile FileService.deleteFile
    rw [getOwnedFile_pg]
    rfl

end IntelliStore.Metadata
