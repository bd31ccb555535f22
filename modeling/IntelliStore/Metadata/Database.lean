import IntelliStore.Library.Tables
import IntelliStore.Metadata.Postgres

/-! The three tables of the metadata-service migration. A `Database` carries the
constraints of the migration as fields, so the insertions below are the only way in. -/

namespace IntelliStore.Metadata
open Library Postgres

structure FileRecord where
  id : Uuid
  ownerId : Uuid
  fileName : String
  isDeleted : Bool
  createdAt : Nat
  updatedAt : Nat
  deriving DecidableEq

structure FileVersionRecord where
  id : Uuid
  fileId : Uuid
  versionNumber : Nat
  sizeBytes : Nat
  mimeType : String
  checksum : String
  createdAt : Nat
  deriving DecidableEq

structure ChunkRecord where
  id : Uuid
  fileVersionId : Uuid
  chunkIndex : Nat
  sizeBytes : Nat
  checksum : String
  storageKey : String
  deriving DecidableEq

inductive DbError where
  | invalidUuid
  | invalidText
  | invalidEscape
  | outOfRange
  | uniqueViolation
  | foreignKeyViolation
  deriving DecidableEq

@[ext] structure Database where
  files : List FileRecord
  versions : List FileVersionRecord
  chunks : List ChunkRecord
  files_pkey : (files.map FileRecord.id).Nodup
  versions_pkey : (versions.map FileVersionRecord.id).Nodup
  versions_file_fkey : ∀ v ∈ versions, v.fileId ∈ files.map FileRecord.id
  versions_number_key : (versions.map fun v => (v.fileId, v.versionNumber)).Nodup
  versions_number_int : ∀ v ∈ versions, isInt4 v.versionNumber = true
  chunks_pkey : (chunks.map ChunkRecord.id).Nodup
  chunks_version_fkey : ∀ c ∈ chunks, c.fileVersionId ∈ versions.map FileVersionRecord.id
  chunks_index_key : (chunks.map fun c => (c.fileVersionId, c.chunkIndex)).Nodup

namespace Database

def empty : Database where
  files := []
  versions := []
  chunks := []
  files_pkey := List.nodup_nil
  versions_pkey := List.nodup_nil
  versions_file_fkey := by simp
  versions_number_key := List.nodup_nil
  versions_number_int := by simp
  chunks_pkey := List.nodup_nil
  chunks_version_fkey := by simp
  chunks_index_key := List.nodup_nil

def insertFile (d : Database) (r : FileRecord) : Except DbError Database :=
  if isText r.fileName then
    if h : r.id ∈ d.files.map FileRecord.id then .error .uniqueViolation
    else .ok { d with
      files := d.files ++ [r]
      files_pkey := nodup_map_concat d.files_pkey h
      versions_file_fkey := fun v hv => mem_map_concat (d.versions_file_fkey v hv) }
  else .error .invalidText

def insertVersion (d : Database) (r : FileVersionRecord) : Except DbError Database :=
  if hint : isInt4 r.versionNumber && isInt8 r.sizeBytes then
    if isText r.mimeType && isText r.checksum then
      if hid : r.id ∈ d.versions.map FileVersionRecord.id then .error .uniqueViolation
      else if hnum : (r.fileId, r.versionNumber) ∈
          d.versions.map fun v => (v.fileId, v.versionNumber) then .error .uniqueViolation
      else if hfk : r.fileId ∈ d.files.map FileRecord.id then
        .ok { d with
          versions := d.versions ++ [r]
          versions_pkey := nodup_map_concat d.versions_pkey hid
          versions_file_fkey := List.forall_mem_append.mpr
            ⟨d.versions_file_fkey, List.forall_mem_singleton.mpr hfk⟩
          versions_number_key := nodup_map_concat d.versions_number_key hnum
          versions_number_int := List.forall_mem_append.mpr
            ⟨d.versions_number_int, List.forall_mem_singleton.mpr (Bool.and_eq_true_iff.mp hint).1⟩
          chunks_version_fkey := fun c hc => mem_map_concat (d.chunks_version_fkey c hc) }
      else .error .foreignKeyViolation
    else .error .invalidText
  else .error .outOfRange

def insertChunk (d : Database) (r : ChunkRecord) : Except DbError Database :=
  if isInt4 r.chunkIndex && isInt8 r.sizeBytes then
    if isText r.checksum && isText r.storageKey then
      if hid : r.id ∈ d.chunks.map ChunkRecord.id then .error .uniqueViolation
      else if hidx : (r.fileVersionId, r.chunkIndex) ∈
          d.chunks.map fun c => (c.fileVersionId, c.chunkIndex) then .error .uniqueViolation
      else if hfk : r.fileVersionId ∈ d.versions.map FileVersionRecord.id then
        .ok { d with
          chunks := d.chunks ++ [r]
          chunks_pkey := nodup_map_concat d.chunks_pkey hid
          chunks_version_fkey := List.forall_mem_append.mpr
            ⟨d.chunks_version_fkey, List.forall_mem_singleton.mpr hfk⟩
          chunks_index_key := nodup_map_concat d.chunks_index_key hidx }
      else .error .foreignKeyViolation
    else .error .invalidText
  else .error .outOfRange

/-- `UPDATE files SET .. WHERE id = $1`. -/
def updateFile (d : Database) (id : Uuid) (g : FileRecord → FileRecord)
    (hg : ∀ r, (g r).id = r.id) : Database :=
  { d with
    files := d.files.map fun r => if r.id = id then g r else r
    files_pkey := by rw [map_update hg]; exact d.files_pkey
    versions_file_fkey := fun v hv => by
      rw [map_update hg]; exact d.versions_file_fkey v hv }

/-! ### What an insertion that succeeds does -/

theorem insertFile_ok {d d' : Database} {r : FileRecord} (h : d.insertFile r = .ok d') :
    d'.files = d.files ++ [r] ∧ d'.versions = d.versions ∧ d'.chunks = d.chunks := by
  unfold insertFile at h
  split_ifs at h
  cases h
  exact ⟨rfl, rfl, rfl⟩

theorem insertVersion_ok {d d' : Database} {r : FileVersionRecord}
    (h : d.insertVersion r = .ok d') :
    d'.files = d.files ∧ d'.versions = d.versions ++ [r] ∧ d'.chunks = d.chunks ∧
      r.id ∉ d.versions.map FileVersionRecord.id := by
  unfold insertVersion at h
  split_ifs at h with _ _ hid
  cases h
  exact ⟨rfl, rfl, rfl, hid⟩

theorem insertChunk_ok {d d' : Database} {r : ChunkRecord} (h : d.insertChunk r = .ok d') :
    d'.files = d.files ∧ d'.versions = d.versions ∧ d'.chunks = d.chunks ++ [r] := by
  unfold insertChunk at h
  split_ifs at h
  cases h
  exact ⟨rfl, rfl, rfl⟩

/-! ### Rows are determined by their keys -/

theorem file_unique (d : Database) {f g : FileRecord} (hf : f ∈ d.files) (hg : g ∈ d.files)
    (h : f.id = g.id) : f = g := List.inj_on_of_nodup_map d.files_pkey hf hg h

theorem version_number_unique (d : Database) {v w : FileVersionRecord} (hv : v ∈ d.versions)
    (hw : w ∈ d.versions) (hfile : v.fileId = w.fileId) (hnum : v.versionNumber = w.versionNumber) :
    v = w :=
  List.inj_on_of_nodup_map d.versions_number_key hv hw (Prod.ext hfile hnum)

end Database
end IntelliStore.Metadata
