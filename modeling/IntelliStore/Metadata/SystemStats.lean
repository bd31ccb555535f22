import IntelliStore.Metadata.RepositorySpec

/-! `getSystemStats`: the counts and sums the dashboard shows. -/

namespace IntelliStore.Metadata
open Library Postgres

structure SystemStats where
  totalFiles : Nat
  totalVersions : Nat
  totalChunks : Nat
  totalBytes : Nat
  logicalChunkBytes : Nat
  physicalChunkBytes : Nat
  dedupedBytes : Int
  deriving DecidableEq

/-- `ORDER BY fv.file_id, fv.version_number DESC`. -/
def FileVersionRecord.Before (v w : FileVersionRecord) : Prop :=
  v.fileId.toNat < w.fileId.toNat ∨ v.fileId = w.fileId ∧ w.versionNumber ≤ v.versionNumber

instance : DecidableRel FileVersionRecord.Before := fun _ _ =>
  inferInstanceAs (Decidable (_ ∨ _ ∧ _))

namespace Database

/-- `SELECT DISTINCT storage_key, size_bytes FROM chunks`. -/
def distinctChunks (d : Database) : List (String × Nat) :=
  (d.chunks.map fun c => (c.storageKey, c.sizeBytes)).dedup

/-- `file_versions fv JOIN files f ON f.id = fv.file_id AND f.is_deleted = false`. -/
def liveVersions (d : Database) : List FileVersionRecord :=
  d.versions.flatMap fun v =>
    (d.files.filter fun f => f.id == v.fileId && !f.isDeleted).map fun _ => v

/-- `SELECT DISTINCT ON (fv.file_id) fv.size_bytes`. -/
def latestSizes (d : Database) : List Nat :=
  (distinctOn FileVersionRecord.fileId
    (d.liveVersions.insertionSort FileVersionRecord.Before)).map FileVersionRecord.sizeBytes

/-- The counts and sums of the query, which SQL takes exactly, with their difference. -/
def exactStats (d : Database) : SystemStats :=
  let logicalChunkBytes := (d.chunks.map ChunkRecord.sizeBytes).sum
  let physicalChunkBytes := (d.distinctChunks.map Prod.snd).sum
  { totalFiles := (d.files.filter (!·.isDeleted)).length
    totalVersions := d.versions.length
    totalChunks := d.chunks.length
    totalBytes := d.latestSizes.sum
    logicalChunkBytes := logicalChunkBytes
    physicalChunkBytes := physicalChunkBytes
    dedupedBytes := (logicalChunkBytes : Int) - physicalChunkBytes }

/-- The columns are read as Numbers. No table has 2 ^ 53 rows, so counts stay as they are. -/
def getSystemStats (d : Database) : SystemStats :=
  let row := d.exactStats
  let logicalChunkBytes := toNumber row.logicalChunkBytes
  let physicalChunkBytes := toNumber row.physicalChunkBytes
  { totalFiles := row.totalFiles
    totalVersions := row.totalVersions
    totalChunks := row.totalChunks
    totalBytes := toNumber row.totalBytes
    logicalChunkBytes := logicalChunkBytes
    physicalChunkBytes := physicalChunkBytes
    dedupedBytes := subNumbers logicalChunkBytes physicalChunkBytes }

/-- No row is counted more than once. -/
theorem physical_le_logical (d : Database) :
    d.exactStats.physicalChunkBytes ≤ d.exactStats.logicalChunkBytes := by
  have hsub : (d.distinctChunks.map Prod.snd).Sublist
      ((d.chunks.map fun c => (c.storageKey, c.sizeBytes)).map Prod.snd) :=
    (List.dedup_sublist _).map Prod.snd
  have hsum := hsub.sum_le_sum fun _ _ => Nat.zero_le _
  rwa [List.map_map] at hsum

section
variable {d : Database} (hlogical : d.exactStats.logicalChunkBytes ≤ maxSafeInteger)
include hlogical

theorem physicalChunkBytes_of_safe :
    d.getSystemStats.physicalChunkBytes = d.exactStats.physicalChunkBytes :=
  toNumber_of_safe (d.physical_le_logical.trans hlogical)

theorem dedupedBytes_of_safe : d.getSystemStats.dedupedBytes = d.exactStats.dedupedBytes := by
  have hlogical' : d.getSystemStats.logicalChunkBytes = d.exactStats.logicalChunkBytes :=
    toNumber_of_safe hlogical
  show subNumbers d.getSystemStats.logicalChunkBytes d.getSystemStats.physicalChunkBytes = _
  rw [hlogical', physicalChunkBytes_of_safe hlogical]
  exact subNumbers_of_safe d.physical_le_logical hlogical

theorem getSystemStats_of_safe (htotal : d.exactStats.totalBytes ≤ maxSafeInteger) :
    d.getSystemStats = d.exactStats := by
  have hphysical := physicalChunkBytes_of_safe hlogical
  have hdeduped := dedupedBytes_of_safe hlogical
  have hbytes : d.getSystemStats.totalBytes = d.exactStats.totalBytes := toNumber_of_safe htotal
  have hchunks : d.getSystemStats.logicalChunkBytes = d.exactStats.logicalChunkBytes :=
    toNumber_of_safe hlogical
  rw [SystemStats.mk.injEq]
  exact ⟨rfl, rfl, rfl, hbytes, hchunks, hphysical, hdeduped⟩

end

/-! ### The newest versions -/

instance : Std.Refl FileVersionRecord.Before := ⟨fun _ => .inr ⟨rfl, le_rfl⟩⟩

instance : IsTrans FileVersionRecord FileVersionRecord.Before where
  trans := by
    rintro u v w (huv | ⟨huv, huv'⟩) (hvw | ⟨hvw, hvw'⟩)
    · exact .inl (huv.trans hvw)
    · exact .inl (hvw ▸ huv)
    · exact .inl (huv ▸ hvw)
    · exact .inr ⟨huv.trans hvw, hvw'.trans huv'⟩

instance : Std.Total FileVersionRecord.Before where
  total v w := by
    rcases lt_trichotomy v.fileId.toNat w.fileId.toNat with hlt | heq | hgt
    · exact .inl (.inl hlt)
    · have heq := BitVec.eq_of_toNat_eq heq
      rcases le_total w.versionNumber v.versionNumber with hle | hle
      · exact .inl (.inr ⟨heq, hle⟩)
      · exact .inr (.inr ⟨heq.symm, hle⟩)
    · exact .inr (.inl hgt)

theorem latestVersion_eq_some {d : Database} {fileId : Uuid} {v : FileVersionRecord} :
    d.latestVersion fileId = some v ↔ (v ∈ d.versions ∧ v.fileId = fileId) ∧
      ∀ w ∈ d.versions, w.fileId = fileId → w.versionNumber ≤ v.versionNumber := by
  have hsorted : (d.listVersions fileId).Pairwise fun v w => w.versionNumber ≤ v.versionNumber :=
    orderByDesc_pairwise FileVersionRecord.versionNumber _
  have hmem : ∀ w, w ∈ d.listVersions fileId ↔ w ∈ d.versions ∧ w.fileId = fileId :=
    fun w => mem_listVersions
  rw [latestVersion]
  cases hlist : d.listVersions fileId with
  | nil =>
    rw [hlist] at hmem
    exact iff_of_false (by simp) fun h => List.not_mem_nil ((hmem v).mpr h.1)
  | cons first rest =>
    rw [hlist] at hsorted hmem
    have hfirst := (hmem first).mp List.mem_cons_self
    have hmax : ∀ w ∈ d.versions, w.fileId = fileId → w.versionNumber ≤ first.versionNumber := by
      intro w hw hfile
      rcases List.mem_cons.mp ((hmem w).mpr ⟨hw, hfile⟩) with rfl | hrest
      · exact le_rfl
      · exact List.rel_of_pairwise_cons hsorted hrest
    rw [List.head?_cons, Option.some_inj]
    constructor
    · rintro rfl
      exact ⟨hfirst, hmax⟩
    · rintro ⟨⟨hv, hfile⟩, hmax'⟩
      have hnumber := le_antisymm (hmax' first hfirst.1 hfirst.2) (hmax v hv hfile)
      exact d.version_number_unique hfirst.1 hv (hfirst.2.trans hfile.symm) hnumber

theorem mem_liveVersions {d : Database} {v : FileVersionRecord} : v ∈ d.liveVersions ↔
    v ∈ d.versions ∧ ∃ f ∈ d.files, f.id = v.fileId ∧ f.isDeleted = false := by
  simp [liveVersions]

theorem before_iff {v w : FileVersionRecord} (h : w.fileId = v.fileId) :
    v.Before w ↔ w.versionNumber ≤ v.versionNumber := by
  simp [FileVersionRecord.Before, h]

/-- `DISTINCT ON` picks for each file what the query for its latest version picks. -/
theorem distinctOn_liveVersions_perm (d : Database) :
    (distinctOn FileVersionRecord.fileId
      (d.liveVersions.insertionSort FileVersionRecord.Before)).Perm
      (((d.files.filter (!·.isDeleted)).map FileRecord.id).filterMap d.latestVersion) := by
  have hsorted := List.pairwise_insertionSort FileVersionRecord.Before d.liveVersions
  have hlive : ∀ v, v ∈ d.liveVersions.insertionSort FileVersionRecord.Before ↔
      v ∈ d.versions ∧ ∃ f ∈ d.files, f.id = v.fileId ∧ f.isDeleted = false :=
    fun v => (List.mem_insertionSort _).trans mem_liveVersions
  have hanti : ∀ v ∈ d.liveVersions.insertionSort FileVersionRecord.Before,
      ∀ w ∈ d.liveVersions.insertionSort FileVersionRecord.Before, v.fileId = w.fileId →
        v.Before w → w.Before v → v = w := by
    intro v hv w hw hfile hvw hwv
    have hnumber := le_antisymm ((before_iff hfile).mp hwv) ((before_iff hfile.symm).mp hvw)
    exact d.version_number_unique ((hlive v).mp hv).1 ((hlive w).mp hw).1 hfile hnumber
  have hids : ((d.files.filter (!·.isDeleted)).map FileRecord.id).Nodup :=
    d.files_pkey.sublist (List.filter_sublist.map FileRecord.id)
  apply (List.perm_ext_iff_of_nodup (distinctOn_keys _ _).of_map (hids.filterMap ?_)).mpr
  · intro v
    rw [mem_distinctOn hsorted hanti, hlive, List.mem_filterMap]
    simp only [latestVersion_eq_some]
    constructor
    · rintro ⟨⟨hv, f, hf, hid, hdeleted⟩, hfirst⟩
      have hfile : f ∈ d.files.filter (!·.isDeleted) :=
        List.mem_filter.mpr ⟨hf, by rw [hdeleted]; rfl⟩
      refine ⟨f.id, List.mem_map_of_mem hfile, ⟨hv, hid.symm⟩, fun w hw hw' => ?_⟩
      have hw' := hw'.trans hid
      exact (before_iff hw').mp (hfirst w ((hlive w).mpr ⟨hw, f, hf, hid.trans hw'.symm, hdeleted⟩)
        hw')
    · rintro ⟨id, hid, ⟨hv, rfl⟩, hmax⟩
      obtain ⟨f, hfile, hid⟩ := List.mem_map.mp hid
      obtain ⟨hf, hdeleted⟩ := List.mem_filter.mp hfile
      refine ⟨⟨hv, f, hf, hid, by simpa using hdeleted⟩, fun w hw hw' => ?_⟩
      exact (before_iff hw').mpr (hmax w ((hlive w).mp hw).1 hw')
  · intro id id' v hv hv'
    rw [← (latestVersion_eq_some.mp hv).1.2, ← (latestVersion_eq_some.mp hv').1.2]

theorem latestSizes_sum (d : Database) : d.latestSizes.sum =
    ((d.files.filter (!·.isDeleted)).map fun f =>
      ((d.latestVersion f.id).map FileVersionRecord.sizeBytes).getD 0).sum := by
  have hperm := (distinctOn_liveVersions_perm d).map FileVersionRecord.sizeBytes
  rw [latestSizes, hperm.sum_nat, List.map_filterMap, sum_filterMap, List.map_map]
  rfl

/-! ### Reading back what a transaction committed -/

/-- The file is still there, with its owner, once its version is committed. -/
theorem getOwnedFile_createVersion {d d' : Database} {g : Generated} {ownerId : Uuid}
    {fileId : String} {file : FileRecord} {sizeBytes : Nat} {mimeType checksum : String}
    {chunks : List ChunkInput} {r : FileVersionRecord × List ChunkRecord}
    (howned : FileService.getOwnedFile d ownerId fileId = .ok file)
    (h : d.createVersion g file.id sizeBytes mimeType checksum chunks = .ok (r, d')) :
    ∃ file', FileService.getOwnedFile d' ownerId fileId = .ok file' := by
  obtain ⟨v, rows⟩ := r
  obtain ⟨hmem, hid, hlive, howner⟩ := FileService.getOwnedFile_ok.mp howned
  obtain ⟨-, -, -, hfiles, -, -⟩ := createVersion_ok h
  refine ⟨{ file with updatedAt := g.now }, FileService.getOwnedFile_ok.mpr ⟨?_, hid, hlive, howner⟩⟩
  rw [hfiles, touchFile, updateFile_files]
  exact List.mem_map.mpr ⟨file, hmem, if_pos rfl⟩

end Database
end IntelliStore.Metadata
