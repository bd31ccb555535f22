import IntelliStore.HttpMessages
import IntelliStore.Metadata.FileService

/-! The JSON of the metadata service: the bodies of the registrations, and the records that it
answers with. -/

namespace IntelliStore.Metadata
open Library Wire

def ChunkInput.codec : JsonCodec ChunkInput where
  write c := .record [("chunkIndex", .ofNat c.chunkIndex), ("sizeBytes", .ofNat c.sizeBytes),
    ("checksum", .ofString c.checksum), ("storageKey", .ofString c.storageKey)]
  read v := do
    let chunkIndex ← JsonCodec.nat.field "chunkIndex" v
    let sizeBytes ← JsonCodec.nat.field "sizeBytes" v
    let checksum ← JsonCodec.string.field "checksum" v
    let storageKey ← JsonCodec.string.field "storageKey" v
    some ⟨chunkIndex, sizeBytes, checksum, storageKey⟩
  written c := by
    rw [Json.written_record]
    simp
  read_write c := by simp [JsonCodec.field, Json.field_record, JsonCodec.nat, JsonCodec.string]

/-- The members that both registrations have. -/
def CreateVersionInput.members (input : CreateVersionInput) : List (String × Json) :=
  [("mimeType", .ofString input.mimeType), ("checksum", .ofString input.checksum),
    ("chunks", ChunkInput.codec.list.write input.chunks)]

def CreateVersionInput.read (v : Json) : Option CreateVersionInput := do
  let mimeType ← JsonCodec.string.field "mimeType" v
  let checksum ← JsonCodec.string.field "checksum" v
  let chunks ← ChunkInput.codec.list.field "chunks" v
  some ⟨mimeType, checksum, chunks⟩

theorem CreateVersionInput.written_members (input : CreateVersionInput) :
    ∀ m ∈ input.members, m.2.Written := by
  simp [members, JsonCodec.written]

def CreateVersionInput.codec : JsonCodec CreateVersionInput where
  write input := .record input.members
  read := CreateVersionInput.read
  written input := (Json.written_record _).mpr input.written_members
  read_write input := by
    simp [CreateVersionInput.read, CreateVersionInput.members, JsonCodec.field, Json.field_record,
      JsonCodec.string, JsonCodec.read_write]

def CreateFileInput.codec : JsonCodec CreateFileInput where
  write input := .record (("fileName", .ofString input.fileName) ::
    input.toCreateVersionInput.members)
  read v := do
    let fileName ← JsonCodec.string.field "fileName" v
    let rest ← CreateVersionInput.read v
    some ⟨rest, fileName⟩
  written input := by
    rw [Json.written_record, List.forall_mem_cons]
    exact ⟨Json.written_ofString _, input.written_members⟩
  read_write input := by
    simp [CreateVersionInput.read, CreateVersionInput.members, JsonCodec.field, Json.field_record,
      JsonCodec.string, JsonCodec.read_write]

/-! ### The records -/

def FileRecord.codec : JsonCodec FileRecord where
  write r := .record [("id", uuid.write r.id), ("ownerId", uuid.write r.ownerId),
    ("fileName", .ofString r.fileName), ("isDeleted", .bool r.isDeleted),
    ("createdAt", timestamp.write r.createdAt), ("updatedAt", timestamp.write r.updatedAt)]
  read v := do
    let id ← uuid.field "id" v
    let ownerId ← uuid.field "ownerId" v
    let fileName ← JsonCodec.string.field "fileName" v
    let isDeleted ← JsonCodec.bool.field "isDeleted" v
    let createdAt ← timestamp.field "createdAt" v
    let updatedAt ← timestamp.field "updatedAt" v
    some ⟨id, ownerId, fileName, isDeleted, createdAt, updatedAt⟩
  written r := by
    rw [Json.written_record]
    simp [JsonCodec.written, Json.Written]
  read_write r := by
    simp [JsonCodec.field, Json.field_record, JsonCodec.read_write, JsonCodec.string,
      JsonCodec.bool]

def FileVersionRecord.codec : JsonCodec FileVersionRecord where
  write r := .record [("id", uuid.write r.id), ("fileId", uuid.write r.fileId),
    ("versionNumber", .ofNat r.versionNumber), ("sizeBytes", .ofNat r.sizeBytes),
    ("mimeType", .ofString r.mimeType), ("checksum", .ofString r.checksum),
    ("createdAt", timestamp.write r.createdAt)]
  read v := do
    let id ← uuid.field "id" v
    let fileId ← uuid.field "fileId" v
    let versionNumber ← JsonCodec.nat.field "versionNumber" v
    let sizeBytes ← JsonCodec.nat.field "sizeBytes" v
    let mimeType ← JsonCodec.string.field "mimeType" v
    let checksum ← JsonCodec.string.field "checksum" v
    let createdAt ← timestamp.field "createdAt" v
    some ⟨id, fileId, versionNumber, sizeBytes, mimeType, checksum, createdAt⟩
  written r := by
    rw [Json.written_record]
    simp [JsonCodec.written]
  read_write r := by
    simp [JsonCodec.field, Json.field_record, JsonCodec.read_write, JsonCodec.string,
      JsonCodec.nat]

def ChunkRecord.codec : JsonCodec ChunkRecord where
  write r := .record [("id", uuid.write r.id), ("fileVersionId", uuid.write r.fileVersionId),
    ("chunkIndex", .ofNat r.chunkIndex), ("sizeBytes", .ofNat r.sizeBytes),
    ("checksum", .ofString r.checksum), ("storageKey", .ofString r.storageKey)]
  read v := do
    let id ← uuid.field "id" v
    let fileVersionId ← uuid.field "fileVersionId" v
    let chunkIndex ← JsonCodec.nat.field "chunkIndex" v
    let sizeBytes ← JsonCodec.nat.field "sizeBytes" v
    let checksum ← JsonCodec.string.field "checksum" v
    let storageKey ← JsonCodec.string.field "storageKey" v
    some ⟨id, fileVersionId, chunkIndex, sizeBytes, checksum, storageKey⟩
  written r := by
    rw [Json.written_record]
    simp [JsonCodec.written]
  read_write r := by
    simp [JsonCodec.field, Json.field_record, JsonCodec.read_write, JsonCodec.string,
      JsonCodec.nat]

def VersionDetail.members (detail : VersionDetail) : List (String × Json) :=
  [("version", FileVersionRecord.codec.write detail.version),
    ("chunks", ChunkRecord.codec.list.write detail.chunks)]

def VersionDetail.read (v : Json) : Option VersionDetail := do
  let version ← FileVersionRecord.codec.field "version" v
  let chunks ← ChunkRecord.codec.list.field "chunks" v
  some ⟨version, chunks⟩

theorem VersionDetail.written_members (detail : VersionDetail) :
    ∀ m ∈ detail.members, m.2.Written := by
  simp [members, JsonCodec.written]

def VersionDetail.codec : JsonCodec VersionDetail where
  write detail := .record detail.members
  read := VersionDetail.read
  written detail := (Json.written_record _).mpr detail.written_members
  read_write detail := by
    simp [VersionDetail.read, VersionDetail.members, JsonCodec.field, Json.field_record,
      JsonCodec.read_write]

def RegisterFileResult.codec : JsonCodec RegisterFileResult where
  write result := .record (("file", FileRecord.codec.write result.file) ::
    result.toVersionDetail.members)
  read v := do
    let file ← FileRecord.codec.field "file" v
    let detail ← VersionDetail.read v
    some ⟨detail, file⟩
  written result := by
    rw [Json.written_record, List.forall_mem_cons]
    exact ⟨FileRecord.codec.written _, result.written_members⟩
  read_write result := by
    simp [VersionDetail.read, VersionDetail.members, JsonCodec.field, Json.field_record,
      JsonCodec.read_write]

def FileDetail.codec : JsonCodec FileDetail where
  write detail := .record [("file", FileRecord.codec.write detail.file),
    ("versions", FileVersionRecord.codec.list.write detail.versions)]
  read v := do
    let file ← FileRecord.codec.field "file" v
    let versions ← FileVersionRecord.codec.list.field "versions" v
    some ⟨file, versions⟩
  written detail := by
    rw [Json.written_record]
    simp [JsonCodec.written]
  read_write detail := by
    simp [JsonCodec.field, Json.field_record, JsonCodec.read_write]

def FileWithLatestVersion.codec : JsonCodec FileWithLatestVersion where
  write entry := .record [("file", FileRecord.codec.write entry.file),
    ("latestVersion", (FileVersionRecord.codec.nullable rfl).write entry.latestVersion)]
  read v := do
    let file ← FileRecord.codec.field "file" v
    let latestVersion ← (FileVersionRecord.codec.nullable rfl).field "latestVersion" v
    some ⟨file, latestVersion⟩
  written entry := by
    rw [Json.written_record]
    simp [JsonCodec.written]
  read_write entry := by
    simp [JsonCodec.field, Json.field_record, JsonCodec.read_write]

end IntelliStore.Metadata
