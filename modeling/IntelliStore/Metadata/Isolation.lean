import IntelliStore.Library.Outcomes
import IntelliStore.Library.Unwinding
import IntelliStore.Metadata.RepositorySpec

/-! Owner isolation of metadata-service. The rows of one owner form a database of their
own: the owner's calls act on it as they act on the whole, and the calls of others leave
it as it is. -/

namespace IntelliStore.Metadata
open Postgres Library

/-- The version and chunk ids of a call that registers `n` chunks are new to the tables. -/
structure Generated.FreshVersion (g : Generated) (n : Nat) (d : Database) : Prop where
  version : g.version ∉ d.versions.map FileVersionRecord.id
  nodup : ((List.range n).map g.chunk).Nodup
  chunks : ∀ i ∈ (List.range n).map g.chunk, i ∉ d.chunks.map ChunkRecord.id

theorem Generated.freshVersion_of_ids {g : Generated} {n : Nat} {d : Database}
    (hnodup : (g.ids n).Nodup) (hfresh : ∀ i ∈ g.ids n, i ∉ d.ids) : g.FreshVersion n d where
  version := fun hm => hfresh _ (List.mem_cons_of_mem _ List.mem_cons_self) (.inr (.inl hm))
  nodup := (List.nodup_cons.mp (List.nodup_cons.mp hnodup).2).2
  chunks := fun i hi hm =>
    hfresh i (List.mem_cons_of_mem _ (List.mem_cons_of_mem _ hi)) (.inr (.inr hm))

/-- `t` holds the files of `owner` in `d`, with their versions and chunks. -/
structure OwnedPart (owner : Uuid) (d t : Database) : Prop where
  files : t.files = d.files.filter fun f => f.ownerId == owner
  versions : t.versions = d.versions.filter fun v => v.fileId ∈ t.files.map FileRecord.id
  chunks : t.chunks = d.chunks.filter fun c =>
    c.fileVersionId ∈ t.versions.map FileVersionRecord.id

theorem mem_map_filter {α β : Type*} {f : α → β} {p : α → Bool} {l : List α} {b : β}
    (hp : ∀ x ∈ l, f x = b → p x = true) : b ∈ (l.filter p).map f ↔ b ∈ l.map f := by
  simp only [List.mem_map, List.mem_filter]
  exact exists_congr fun x => ⟨fun h => ⟨h.1.1, h.2⟩, fun h => ⟨⟨h.1, hp x h.1 h.2⟩, h.2⟩⟩

namespace OwnedPart
variable {owner : Uuid} {d d' t t' : Database}

theorem empty (owner : Uuid) : OwnedPart owner .empty .empty := ⟨rfl, rfl, rfl⟩

theorem mem_files (h : OwnedPart owner d t) {f : FileRecord} :
    f ∈ t.files ↔ f ∈ d.files ∧ f.ownerId = owner := by
  rw [h.files, List.mem_filter, beq_iff_eq]

theorem mem_versions (h : OwnedPart owner d t) {v : FileVersionRecord} :
    v ∈ t.versions ↔ v ∈ d.versions ∧ v.fileId ∈ t.files.map FileRecord.id := by
  rw [h.versions, List.mem_filter, decide_eq_true_iff]

theorem files_ids_subset (h : OwnedPart owner d t) :
    t.files.map FileRecord.id ⊆ d.files.map FileRecord.id :=
  List.map_subset _ (h.files ▸ List.filter_subset_self _)

theorem versions_ids_subset (h : OwnedPart owner d t) :
    t.versions.map FileVersionRecord.id ⊆ d.versions.map FileVersionRecord.id :=
  List.map_subset _ (h.versions ▸ List.filter_subset_self _)

/-- A file's key is among the owner's keys exactly when the file is the owner's. -/
theorem id_mem_files (h : OwnedPart owner d t) {f : FileRecord} (hf : f ∈ d.files) :
    f.id ∈ t.files.map FileRecord.id ↔ f.ownerId = owner := by
  constructor
  · intro hid
    obtain ⟨g, hg, hgf⟩ := List.mem_map.mp hid
    obtain ⟨hg, ho⟩ := h.mem_files.mp hg
    rw [← d.file_unique hg hf hgf]
    exact ho
  · intro ho
    exact List.mem_map.mpr ⟨f, h.mem_files.mpr ⟨hf, ho⟩, rfl⟩

/-! ### Writes of other owners -/

theorem createFile_other (h : OwnedPart owner d t) {other : Uuid} (hne : other ≠ owner)
    {g : Generated} {fileName : String} {f : FileRecord}
    (hi : d.createFile g other fileName = .ok (f, d')) : OwnedPart owner d' t := by
  obtain ⟨rfl, hf, hv, hc⟩ := Database.createFile_ok hi
  exact ⟨by rw [hf, List.filter_append, ← h.files]; simp [hne], hv ▸ h.versions, hc ▸ h.chunks⟩

/-! ### Writes of the owner -/

theorem updateFile (h : OwnedPart owner d t) {id : Uuid} {g : FileRecord → FileRecord}
    {hg : ∀ r, (g r).id = r.id} (howner : ∀ r, (g r).ownerId = r.ownerId) :
    OwnedPart owner (d.updateFile id g hg) (t.updateFile id g hg) := by
  refine ⟨?_, ?_, h.chunks⟩
  · rw [Database.updateFile_files, Database.updateFile_files, List.filter_map, h.files]
    congr 1
    refine List.filter_congr fun r _ => ?_
    by_cases he : r.id = id <;> simp [he, howner]
  · rw [Database.updateFile_ids]
    exact h.versions

/-- An update of a file that is not the owner's. -/
theorem updateFile_other (h : OwnedPart owner d t) {id : Uuid} {g : FileRecord → FileRecord}
    {hg : ∀ r, (g r).id = r.id} (howner : ∀ r, (g r).ownerId = r.ownerId)
    (hid : id ∉ t.files.map FileRecord.id) : OwnedPart owner (d.updateFile id g hg) t :=
  (Database.updateFile_of_notMem hid : t.updateFile id g hg = t) ▸ h.updateFile howner

theorem softDeleteFile (h : OwnedPart owner d t) (now : Nat) (id : Uuid) :
    OwnedPart owner (d.softDeleteFile now id) (t.softDeleteFile now id) :=
  h.updateFile fun _ => rfl

theorem softDeleteFile_other (h : OwnedPart owner d t) (now : Nat) {id : Uuid}
    (hid : id ∉ t.files.map FileRecord.id) : OwnedPart owner (d.softDeleteFile now id) t :=
  h.updateFile_other (fun _ => rfl) hid

theorem insertFile (h : OwnedPart owner d t) {r : FileRecord} (hr : r.ownerId = owner)
    (hid : r.id ∉ d.files.map FileRecord.id) :
    Alike (OwnedPart owner) (d.insertFile r) (t.insertFile r) := by
  have hid' : r.id ∉ t.files.map FileRecord.id := fun hm => hid (h.files_ids_subset hm)
  unfold Database.insertFile
  by_cases ht : isText r.fileName
  · rw [if_pos ht, if_pos ht, dif_neg hid, dif_neg hid', alike_ok]
    refine ⟨by simp [h.files, hr], ?_, h.chunks⟩
    -- no version refers to the new key, so none changes sides
    refine h.versions.trans (List.filter_congr fun v hv => ?_)
    have hne : v.fileId ≠ r.id := fun he => hid (he ▸ d.versions_file_fkey v hv)
    simp [hne]
  · rw [if_neg ht, if_neg ht, alike_error]

theorem insertVersion (h : OwnedPart owner d t) {r : FileVersionRecord}
    (hr : r.fileId ∈ t.files.map FileRecord.id)
    (hid : r.id ∉ d.versions.map FileVersionRecord.id) :
    Alike (OwnedPart owner) (d.insertVersion r) (t.insertVersion r) := by
  have hid' : r.id ∉ t.versions.map FileVersionRecord.id := fun hm => hid (h.versions_ids_subset hm)
  have hnum : (r.fileId, r.versionNumber) ∈ t.versions.map (fun v => (v.fileId, v.versionNumber)) ↔
      (r.fileId, r.versionNumber) ∈ d.versions.map (fun v => (v.fileId, v.versionNumber)) := by
    rw [h.versions]
    exact mem_map_filter fun v _ hv => decide_eq_true ((Prod.mk.inj hv).1 ▸ hr)
  have hchunk : ∀ c ∈ d.chunks, c.fileVersionId ≠ r.id :=
    fun c hc he => hid (he ▸ d.chunks_version_fkey c hc)
  unfold Database.insertVersion
  by_cases hint : (isInt4 r.versionNumber && isInt8 r.sizeBytes) = true
  · by_cases htext : (isText r.mimeType && isText r.checksum) = true
    · rw [dif_pos hint, dif_pos hint, if_pos htext, if_pos htext, dif_neg hid, dif_neg hid']
      by_cases hn : (r.fileId, r.versionNumber) ∈
          d.versions.map fun v => (v.fileId, v.versionNumber)
      · rw [dif_pos hn, dif_pos (hnum.mpr hn), alike_error]
      · rw [dif_neg hn, dif_neg (mt hnum.mp hn), dif_pos (h.files_ids_subset hr), dif_pos hr,
          alike_ok]
        -- nor does a chunk refer to the new version yet
        refine ⟨h.files, ?_, h.chunks.trans (List.filter_congr fun c hc => ?_)⟩
        · rw [List.filter_append, ← h.versions, List.filter_singleton, decide_eq_true hr, cond_true]
        · simp [hchunk c hc]
    · rw [dif_pos hint, dif_pos hint, if_neg htext, if_neg htext, alike_error]
  · rw [dif_neg hint, dif_neg hint, alike_error]

theorem insertChunk (h : OwnedPart owner d t) {r : ChunkRecord}
    (hr : r.fileVersionId ∈ t.versions.map FileVersionRecord.id)
    (hid : r.id ∉ d.chunks.map ChunkRecord.id) :
    Alike (fun d' t' => OwnedPart owner d' t' ∧ t'.versions = t.versions)
      (d.insertChunk r) (t.insertChunk r) := by
  have hid' : r.id ∉ t.chunks.map ChunkRecord.id := fun hm =>
    hid (List.map_subset _ (h.chunks ▸ List.filter_subset_self _) hm)
  have hidx : (r.fileVersionId, r.chunkIndex) ∈
      t.chunks.map (fun c => (c.fileVersionId, c.chunkIndex)) ↔
        (r.fileVersionId, r.chunkIndex) ∈
          d.chunks.map (fun c => (c.fileVersionId, c.chunkIndex)) := by
    rw [h.chunks]
    exact mem_map_filter fun c _ hc => decide_eq_true ((Prod.mk.inj hc).1 ▸ hr)
  unfold Database.insertChunk
  by_cases hint : (isInt4 r.chunkIndex && isInt8 r.sizeBytes) = true
  · by_cases htext : (isText r.checksum && isText r.storageKey) = true
    · rw [if_pos hint, if_pos hint, if_pos htext, if_pos htext, dif_neg hid, dif_neg hid']
      by_cases hn : (r.fileVersionId, r.chunkIndex) ∈
          d.chunks.map fun c => (c.fileVersionId, c.chunkIndex)
      · rw [dif_pos hn, dif_pos (hidx.mpr hn), alike_error]
      · rw [dif_neg hn, dif_neg (mt hidx.mp hn), dif_pos (h.versions_ids_subset hr), dif_pos hr,
          alike_ok]
        refine ⟨⟨h.files, h.versions, ?_⟩, rfl⟩
        rw [List.filter_append, ← h.chunks, List.filter_singleton, decide_eq_true hr, cond_true]
    · rw [if_pos hint, if_pos hint, if_neg htext, if_neg htext, alike_error]
  · rw [if_neg hint, if_neg hint, alike_error]

theorem insertChunks (h : OwnedPart owner d t) {rows : List ChunkRecord}
    (hr : ∀ r ∈ rows, r.fileVersionId ∈ t.versions.map FileVersionRecord.id)
    (hnodup : (rows.map ChunkRecord.id).Nodup)
    (hid : ∀ r ∈ rows, r.id ∉ d.chunks.map ChunkRecord.id) :
    Alike (OwnedPart owner) (rows.foldlM Database.insertChunk d)
      (rows.foldlM Database.insertChunk t) := by
  induction rows generalizing d t with
  | nil => exact h
  | cons r rows ih =>
    rw [List.foldlM_cons, List.foldlM_cons]
    rw [List.map_cons, List.nodup_cons] at hnodup
    rcases (h.insertChunk (hr r List.mem_cons_self) (hid r List.mem_cons_self)).cases with
      ⟨e, hd, ht⟩ | ⟨d', t', hd, ht, hp, hv⟩ <;> rw [hd, ht]
    · exact rfl
    · refine ih hp (fun s hs => hv ▸ hr s (List.mem_cons_of_mem _ hs)) hnodup.2 fun s hs hm => ?_
      rw [(Database.insertChunk_ok hd).2.2, List.map_append, List.mem_append] at hm
      rcases hm with hm | hm
      · exact hid s (List.mem_cons_of_mem _ hs) hm
      · exact hnodup.1 (List.mem_map.mpr ⟨s, hs, by simpa using hm⟩)

/-! ### Reads of the owner -/

theorem filter_versions (h : OwnedPart owner d t) {fileId : Uuid}
    (hfile : fileId ∈ t.files.map FileRecord.id) :
    t.versions.filter (·.fileId == fileId) = d.versions.filter (·.fileId == fileId) := by
  rw [h.versions, List.filter_filter]
  refine List.filter_congr fun v _ => ?_
  by_cases hv : v.fileId = fileId
  · rw [hv, decide_eq_true hfile, Bool.and_true]
  · rw [beq_eq_false_iff_ne.mpr hv, Bool.false_and]

theorem nextVersionNumber (h : OwnedPart owner d t) {fileId : Uuid}
    (hfile : fileId ∈ t.files.map FileRecord.id) :
    t.nextVersionNumber fileId = d.nextVersionNumber fileId := by
  unfold Database.nextVersionNumber
  rw [h.filter_versions hfile]

theorem listVersions (h : OwnedPart owner d t) {fileId : Uuid}
    (hfile : fileId ∈ t.files.map FileRecord.id) :
    t.listVersions fileId = d.listVersions fileId := by
  unfold Database.listVersions
  rw [h.filter_versions hfile]

theorem findVersion (h : OwnedPart owner d t) {fileId : Uuid}
    (hfile : fileId ∈ t.files.map FileRecord.id) (n : Nat) :
    t.findVersion fileId n = d.findVersion fileId n := by
  have hfind : ∀ e : Database,
      e.versions.find? (fun v => v.fileId == fileId && v.versionNumber == n) =
        (e.versions.filter (·.fileId == fileId)).find? fun v => v.versionNumber == n := by
    intro e
    rw [List.find?_filter]
    congr 1
    funext v
    rw [Bool.decide_and, Bool.decide_eq_true, Bool.decide_eq_true]
  unfold Database.findVersion
  rw [hfind, hfind, h.filter_versions hfile]

theorem listChunks (h : OwnedPart owner d t) {versionId : Uuid}
    (hv : versionId ∈ t.versions.map FileVersionRecord.id) :
    t.listChunks versionId = d.listChunks versionId := by
  unfold Database.listChunks
  rw [h.chunks, List.filter_filter]
  congr 1
  refine List.filter_congr fun c _ => ?_
  by_cases hc : c.fileVersionId = versionId
  · rw [hc, decide_eq_true hv, Bool.and_true]
  · rw [beq_eq_false_iff_ne.mpr hc, Bool.false_and]

/-- A query over the live files of the owner. -/
theorem filter_files (h : OwnedPart owner d t) (p : FileRecord → Bool)
    (hp : ∀ f, p f = true → f.ownerId = owner) : t.files.filter p = d.files.filter p := by
  rw [h.files, List.filter_filter]
  refine List.filter_congr fun f _ => ?_
  cases hf : p f with
  | false => rfl
  | true => rw [beq_iff_eq.mpr (hp f hf)]; rfl

theorem listFilesByOwner (h : OwnedPart owner d t) :
    t.listFilesByOwner owner = d.listFilesByOwner owner := by
  unfold Database.listFilesByOwner
  rw [h.filter_files _ fun f hf => by simp only [Bool.and_eq_true, beq_iff_eq] at hf; exact hf.1]

theorem searchByOwner (h : OwnedPart owner d t) (fold : Char → Char) (query : String) :
    t.searchByOwner fold owner query = d.searchByOwner fold owner query := by
  unfold Database.searchByOwner
  split_ifs with hq
  · split
    · rfl
    · rw [h.filter_files _ fun f hf => by
        simp only [Bool.and_eq_true, beq_iff_eq] at hf; exact hf.1.1]
  · rfl

theorem createVersion (h : OwnedPart owner d t) (g : Generated) {fileId : Uuid} (sizeBytes : Nat)
    (mimeType checksum : String) {chunks : List ChunkInput}
    (hfile : fileId ∈ t.files.map FileRecord.id) (hg : g.FreshVersion chunks.length d) :
    Alike (fun x y => x.1 = y.1 ∧ OwnedPart owner x.2 y.2)
      (d.createVersion g fileId sizeBytes mimeType checksum chunks)
      (t.createVersion g fileId sizeBytes mimeType checksum chunks) := by
  have hids : (Database.chunkRows g g.version 0 chunks).map ChunkRecord.id =
      (List.range chunks.length).map g.chunk := by
    rw [Database.chunkRows_map_id, List.range_eq_range']
  have hversion : Alike (OwnedPart owner)
      (d.insertVersion
        ⟨g.version, fileId, d.nextVersionNumber fileId, sizeBytes, mimeType, checksum, g.now⟩)
      (t.insertVersion
        ⟨g.version, fileId, d.nextVersionNumber fileId, sizeBytes, mimeType, checksum, g.now⟩) :=
    h.insertVersion hfile hg.version
  unfold Database.createVersion
  rw [h.nextVersionNumber hfile]
  rcases hversion.cases with ⟨e, hd, ht⟩ | ⟨d₁, t₁, hd, ht, h₁⟩
  · simp only [hd, ht, bind, Except.bind, alike_error]
  have hrows : Alike (OwnedPart owner)
      ((Database.chunkRows g g.version 0 chunks).foldlM Database.insertChunk d₁)
      ((Database.chunkRows g g.version 0 chunks).foldlM Database.insertChunk t₁) := by
    refine h₁.insertChunks (fun r hr => ?_) ?_ fun r hr hm => ?_
    · rw [Database.fileVersionId_of_mem_chunkRows hr, (Database.insertVersion_ok ht).2.1]
      simp
    · rw [hids]
      exact hg.nodup
    · have hid := List.mem_map_of_mem (f := ChunkRecord.id) hr
      rw [hids] at hid
      exact hg.chunks r.id hid ((Database.insertVersion_ok hd).2.2.1 ▸ hm)
  rcases hrows.cases with ⟨e, hd', ht'⟩ | ⟨d₂, t₂, hd', ht', h₂⟩
  · simp only [hd, ht, hd', ht', bind, Except.bind, alike_error]
  · simp only [hd, ht, hd', ht', bind, Except.bind, pure, Except.pure, alike_ok, true_and]
    exact h₂.updateFile fun _ => rfl

theorem createVersion_other (h : OwnedPart owner d t) {g : Generated} {fileId : Uuid}
    {sizeBytes : Nat} {mimeType checksum : String} {chunks : List ChunkInput}
    {r : FileVersionRecord × List ChunkRecord} (hfile : fileId ∉ t.files.map FileRecord.id)
    (hi : d.createVersion g fileId sizeBytes mimeType checksum chunks = .ok (r, d')) :
    OwnedPart owner d' t := by
  obtain ⟨v, rows⟩ := r
  obtain ⟨rfl, rfl, hid, hf, hv, hc⟩ := Database.createVersion_ok hi
  have htouch : OwnedPart owner (d.touchFile g.now fileId) t :=
    h.updateFile_other (fun _ => rfl) hfile
  refine ⟨hf ▸ htouch.files, ?_, ?_⟩
  · rw [hv, List.filter_append, ← h.versions, List.filter_singleton, decide_eq_false hfile,
      cond_false, List.append_nil]
  · have hnone : (Database.chunkRows g g.version 0 chunks).filter (fun c =>
        decide (c.fileVersionId ∈ t.versions.map FileVersionRecord.id)) = [] := by
      refine List.filter_eq_nil_iff.mpr fun c hm => ?_
      rw [Database.fileVersionId_of_mem_chunkRows hm, decide_eq_true_iff]
      exact fun hg => hid (h.versions_ids_subset hg)
    rw [hc, List.filter_append, ← h.chunks, hnone, List.append_nil]

end OwnedPart

/-! ### Calls -/

namespace OwnedPart
variable {owner : Uuid} {d t : Database}

theorem getOwnedFile (h : OwnedPart owner d t) (fileId : String) :
    FileService.getOwnedFile t owner fileId = FileService.getOwnedFile d owner fileId := by
  unfold FileService.getOwnedFile
  cases hu : uuidIn fileId with
  | none => rfl
  | some id =>
    cases hd : d.findFileById id with
    | none =>
      have ht : t.findFileById id = none := Database.findFileById_eq_none.mpr fun f hf =>
        Database.findFileById_eq_none.mp hd f (h.mem_files.mp hf).1
      simp only [hd, ht]
    | some f =>
      obtain ⟨hf, hid, hdel⟩ := Database.findFileById_eq_some.mp hd
      by_cases ho : f.ownerId = owner
      · have ht : t.findFileById id = some f :=
          Database.findFileById_eq_some.mpr ⟨h.mem_files.mpr ⟨hf, ho⟩, hid, hdel⟩
        simp only [hd, ht]
      -- found in the whole and refused there, not found in the part
      · have ht : t.findFileById id = none := Database.findFileById_eq_none.mpr fun g hg hgid => by
          obtain ⟨hg, hgo⟩ := h.mem_files.mp hg
          exact absurd (d.file_unique hg hf (hgid.trans hid.symm) ▸ hgo) ho
        simp only [hd, ht, ne_eq, ho, not_false_eq_true, if_true]

theorem withLatestVersions (h : OwnedPart owner d t) {files : List FileRecord}
    (hfiles : ∀ f ∈ files, f ∈ t.files) :
    FileService.withLatestVersions t files = FileService.withLatestVersions d files := by
  refine List.map_congr_left fun f hf => ?_
  rw [Database.latestVersion, h.listVersions (List.mem_map_of_mem (hfiles f hf))]
  rfl

theorem id_mem_of_getOwnedFile (h : OwnedPart owner d t) {fileId : String} {f : FileRecord}
    (hf : FileService.getOwnedFile d owner fileId = .ok f) : f.id ∈ t.files.map FileRecord.id := by
  obtain ⟨hf, -, -, ho⟩ := FileService.getOwnedFile_ok.mp hf
  exact (h.id_mem_files hf).mpr ho

theorem id_notMem_of_getOwnedFile (h : OwnedPart owner d t) {other : Uuid} (hne : other ≠ owner)
    {fileId : String} {f : FileRecord} (hf : FileService.getOwnedFile d other fileId = .ok f) :
    f.id ∉ t.files.map FileRecord.id := by
  obtain ⟨hf, -, -, ho⟩ := FileService.getOwnedFile_ok.mp hf
  exact fun hm => hne (ho.symm.trans ((h.id_mem_files hf).mp hm))

theorem listFiles (h : OwnedPart owner d t) :
    FileService.listFiles t owner = FileService.listFiles d owner := by
  unfold FileService.listFiles
  rw [← h.listFilesByOwner]
  refine h.withLatestVersions fun f hf => ?_
  exact List.mem_of_mem_filter ((List.perm_insertionSort _ _).mem_iff.mp hf)

theorem searchFiles (h : OwnedPart owner d t) (fold : Char → Char) (query : String) :
    FileService.searchFiles fold t owner query = FileService.searchFiles fold d owner query := by
  unfold FileService.searchFiles
  rw [← h.searchByOwner]
  split_ifs
  · rfl
  · cases hs : t.searchByOwner fold owner (trim query) with
    | error e => rfl
    | ok files =>
      refine congrArg Except.ok (h.withLatestVersions fun f hf => ?_)
      unfold Database.searchByOwner at hs
      split_ifs at hs
      split at hs
      · cases hs
      · cases hs
        exact List.mem_of_mem_filter ((List.perm_insertionSort _ _).mem_iff.mp hf)

theorem getFile (h : OwnedPart owner d t) (fileId : String) :
    FileService.getFile t owner fileId = FileService.getFile d owner fileId := by
  unfold FileService.getFile
  rw [h.getOwnedFile]
  cases hf : FileService.getOwnedFile d owner fileId with
  | error e => rfl
  | ok f => simp only [h.listVersions (h.id_mem_of_getOwnedFile hf)]

theorem getVersion (h : OwnedPart owner d t) (fileId : String) (n : Nat) :
    FileService.getVersion t owner fileId n = FileService.getVersion d owner fileId n := by
  unfold FileService.getVersion
  rw [h.getOwnedFile]
  cases hf : FileService.getOwnedFile d owner fileId with
  | error e => rfl
  | ok f =>
    simp only [h.findVersion (h.id_mem_of_getOwnedFile hf)]
    cases hv : d.findVersion f.id n with
    | error e => rfl
    | ok o =>
      cases o with
      | none => rfl
      | some v =>
        obtain ⟨hmem, hfile, -⟩ := Database.findVersion_eq_some.mp hv
        have hid : v.id ∈ t.versions.map FileVersionRecord.id := List.mem_map_of_mem
          (h.mem_versions.mpr ⟨hmem, hfile ▸ h.id_mem_of_getOwnedFile hf⟩)
        simp only [h.listChunks hid]

theorem createFile (h : OwnedPart owner d t) {g : Generated} (fileName : String)
    (hg : g.file ∉ d.files.map FileRecord.id) :
    Alike (fun x y => x.1 = y.1 ∧ OwnedPart owner x.2 y.2) (d.createFile g owner fileName)
      (t.createFile g owner fileName) := by
  have hrow : Alike (OwnedPart owner) (d.insertFile ⟨g.file, owner, fileName, false, g.now, g.now⟩)
      (t.insertFile ⟨g.file, owner, fileName, false, g.now, g.now⟩) := h.insertFile rfl hg
  exact hrow.bind fun a b hab => ⟨rfl, hab⟩

theorem registerFile (h : OwnedPart owner d t) {g : Generated} {input : CreateFileInput}
    (hf : g.file ∉ d.files.map FileRecord.id) (hv : g.FreshVersion input.chunks.length d) :
    (FileService.registerFile g owner input d).1 = (FileService.registerFile g owner input t).1 ∧
      OwnedPart owner (FileService.registerFile g owner input d).2
        (FileService.registerFile g owner input t).2 := by
  unfold FileService.registerFile
  rcases (h.createFile input.fileName hf).cases with
    ⟨e, hd, ht⟩ | ⟨⟨f, d₁⟩, ⟨f', t₁⟩, hd, ht, heq, h₁⟩
  · simpa only [hd, ht, true_and] using h
  · cases heq
    obtain ⟨rfl, hfiles, hversions, hchunks⟩ := Database.createFile_ok ht
    obtain ⟨-, -, hversions', hchunks'⟩ := Database.createFile_ok hd
    have hv₁ : g.FreshVersion input.chunks.length d₁ :=
      ⟨hversions' ▸ hv.version, hv.nodup, hchunks' ▸ hv.chunks⟩
    have hfile : g.file ∈ t₁.files.map FileRecord.id := by simp [hfiles]
    rcases (h₁.createVersion g (FileService.totalSize input.chunks) input.mimeType input.checksum
        hfile hv₁).cases with
      ⟨e, hd', ht'⟩ | ⟨⟨r, d₂⟩, ⟨r', t₂⟩, hd', ht', heq, h₂⟩
    · simpa only [hd, ht, hd', ht', true_and] using h₁
    · cases heq
      simpa only [hd, ht, hd', ht', true_and] using h₂

theorem addVersion (h : OwnedPart owner d t) {g : Generated} (fileId : String)
    {input : CreateVersionInput} (hv : g.FreshVersion input.chunks.length d) :
    (FileService.addVersion g owner fileId input d).1 =
        (FileService.addVersion g owner fileId input t).1 ∧
      OwnedPart owner (FileService.addVersion g owner fileId input d).2
        (FileService.addVersion g owner fileId input t).2 := by
  unfold FileService.addVersion
  rw [h.getOwnedFile]
  cases hf : FileService.getOwnedFile d owner fileId with
  | error e => exact ⟨rfl, h⟩
  | ok f =>
    rcases (h.createVersion g (FileService.totalSize input.chunks) input.mimeType input.checksum
        (h.id_mem_of_getOwnedFile hf) hv).cases with
      ⟨e, hd, ht⟩ | ⟨⟨r, d₁⟩, ⟨r', t₁⟩, hd, ht, heq, h₁⟩
    · simpa only [hd, ht, true_and] using h
    · cases heq
      simpa only [hd, ht, true_and] using h₁

theorem deleteFile (h : OwnedPart owner d t) (now : Nat) (fileId : String) :
    (FileService.deleteFile now owner fileId d).1 = (FileService.deleteFile now owner fileId t).1 ∧
      OwnedPart owner (FileService.deleteFile now owner fileId d).2
        (FileService.deleteFile now owner fileId t).2 := by
  unfold FileService.deleteFile
  rw [h.getOwnedFile]
  cases FileService.getOwnedFile d owner fileId with
  | error e => exact ⟨rfl, h⟩
  | ok f => exact ⟨rfl, h.softDeleteFile now f.id⟩

/-- A call of the owner is answered from the owner's part, and acts on it as on the whole. -/
theorem handle_own (h : OwnedPart owner d t) (fold : Char → Char) {r : Request}
    (hr : r.ownerId = owner) (hnodup : r.newIds.Nodup) (hfresh : ∀ i ∈ r.newIds, i ∉ d.ids) :
    (handle fold d r).1 = (handle fold t r).1 ∧
      OwnedPart owner (handle fold d r).2 (handle fold t r).2 := by
  have hv := Generated.freshVersion_of_ids hnodup hfresh
  obtain ⟨ownerId, g, call⟩ := r
  subst hr
  cases call with
  | registerFile input =>
    have hf : g.file ∉ d.files.map FileRecord.id := fun hm =>
      hfresh g.file List.mem_cons_self (.inl hm)
    obtain ⟨hres, hpart⟩ := h.registerFile hf hv
    simp only [handle, hres, true_and]
    exact hpart
  | addVersion fileId input =>
    obtain ⟨hres, hpart⟩ := h.addVersion fileId hv
    simp only [handle, hres, true_and]
    exact hpart
  | listFiles => exact ⟨by simp only [handle, h.listFiles], h⟩
  | searchFiles query => exact ⟨by simp only [handle, h.searchFiles], h⟩
  | getFile fileId => exact ⟨by simp only [handle, h.getFile], h⟩
  | getVersion fileId n => exact ⟨by simp only [handle, h.getVersion], h⟩
  | deleteFile fileId =>
    obtain ⟨hres, hpart⟩ := h.deleteFile g.now fileId
    simp only [handle, hres, true_and]
    exact hpart

/-- A call of another owner leaves the owner's part as it is. -/
theorem handle_other (h : OwnedPart owner d t) (fold : Char → Char) {r : Request}
    (hr : r.ownerId ≠ owner) : OwnedPart owner (handle fold d r).2 t := by
  obtain ⟨ownerId, g, call⟩ := r
  cases call with
  | registerFile input =>
    simp only [handle]
    rcases FileService.registerFile_cases g ownerId input d with
      ⟨e, he⟩ | ⟨e, f, d₁, hf, he⟩ | ⟨f, d₁, v, rows, d₂, hf, hv, he⟩ <;> rw [he]
    · exact h
    · exact h.createFile_other hr hf
    · have h₁ := h.createFile_other hr hf
      obtain ⟨rfl, hfiles, -, -⟩ := Database.createFile_ok hf
      -- the version goes to the file just created, which is the other owner's
      refine h₁.createVersion_other (fun hm => hr ((h₁.id_mem_files ?_).mp hm)) hv
      rw [hfiles]
      exact List.mem_concat_self
  | addVersion fileId input =>
    simp only [handle]
    rcases FileService.addVersion_cases g ownerId fileId input d with
      ⟨e, he⟩ | ⟨f, v, rows, d₁, hf, hv, he⟩ <;> rw [he]
    · exact h
    · exact h.createVersion_other (h.id_notMem_of_getOwnedFile hr hf) hv
  | deleteFile fileId =>
    simp only [handle]
    rcases FileService.deleteFile_cases g.now ownerId fileId d with
      ⟨e, he⟩ | ⟨f, hf, he⟩ <;> rw [he]
    · exact h
    · exact h.softDeleteFile_other g.now (h.id_notMem_of_getOwnedFile hr hf)
  | _ => exact h

end OwnedPart

/-- The call with another file id in the place of the one it names, if it names one. -/
def Call.rename (fileId : String) : Call → Call
  | .addVersion _ input => .addVersion fileId input
  | .getFile _ => .getFile fileId
  | .getVersion _ n => .getVersion fileId n
  | .deleteFile _ => .deleteFile fileId
  | call => call

/-- A file of another owner is not found, just as one that does not exist. -/
theorem getOwnedFile_foreign {d : Database} {owner : Uuid} {fileId : String}
    (hid : (uuidIn fileId).isSome)
    (h : ∀ f ∈ d.files, uuidIn fileId = some f.id → f.ownerId ≠ owner) :
    FileService.getOwnedFile d owner fileId = .error (.app (.notFound "File not found")) := by
  unfold FileService.getOwnedFile
  cases hu : uuidIn fileId with
  | none => rw [hu] at hid; cases hid
  | some id =>
    cases hf : d.findFileById id with
    | none => simp only [hf]
    | some f =>
      obtain ⟨hmem, hfid, -⟩ := Database.findFileById_eq_some.mp hf
      have hother : f.ownerId ≠ owner := h f hmem (hu.trans (congrArg some hfid.symm))
      simp only [hf, ne_eq, hother, not_false_eq_true, if_true]

theorem handle_rename (fold : Char → Char) (d : Database) (r : Request) {fileId fileId' : String}
    (h : FileService.getOwnedFile d r.ownerId fileId =
      FileService.getOwnedFile d r.ownerId fileId') :
    handle fold d { r with call := r.call.rename fileId } =
      handle fold d { r with call := r.call.rename fileId' } := by
  obtain ⟨ownerId, g, call⟩ := r
  cases call with
  | addVersion _ input => simp only [handle, Call.rename, FileService.addVersion, h]
  | getFile _ => simp only [handle, Call.rename, FileService.getFile, h]
  | getVersion _ n => simp only [handle, Call.rename, FileService.getVersion, h]
  | deleteFile _ => simp only [handle, Call.rename, FileService.deleteFile, h]
  | _ => rfl

/-! ### Whole histories -/

theorem guarded_newIds (fold : Char → Char) {history : List Request}
    (hids : (history.flatMap Request.newIds).Nodup) :
    Guarded (handle fold) (fun d r => r.newIds.Nodup ∧ ∀ i ∈ r.newIds, i ∉ d.ids) .empty history :=
  guarded_fresh Database.ids Request.newIds (fun d r => handle_ids fold d r)
    (fun i _ hm => by simp [Database.ids, Database.empty] at hm) hids

/-- What an owner is answered does not depend on the calls of others, and a call naming a
file of another owner is answered, and acts, as one naming a file that does not exist. -/
theorem owner_isolation (fold : Char → Char) (owner : Uuid) (history : List Request)
    (hids : (history.flatMap Request.newIds).Nodup) :
    (answers (handle fold) .empty history).filter (fun p => p.1.ownerId == owner) =
        answers (handle fold) .empty (history.filter fun r => r.ownerId == owner) ∧
      ∀ (f : FileRecord) (absent : Uuid) (fileId absentId : String) (r : Request),
        f ∈ (finalState (handle fold) .empty history).files → f.ownerId ≠ owner →
        absent ∉ (finalState (handle fold) .empty history).files.map FileRecord.id →
        uuidIn fileId = some f.id → uuidIn absentId = some absent → r.ownerId = owner →
        handle fold (finalState (handle fold) .empty history)
            { r with call := r.call.rename fileId } =
          handle fold (finalState (handle fold) .empty history)
            { r with call := r.call.rename absentId } := by
  constructor
  · refine answers_purge (OwnedPart owner) (fun r : Request => r.ownerId == owner) ?_ ?_
      (guarded_newIds fold hids) (OwnedPart.empty owner)
    · intro d t r h _ hr
      exact h.handle_other fold (beq_eq_false_iff_ne.mp hr)
    · intro d t r h hg hr
      exact h.handle_own fold (beq_iff_eq.mp hr) hg.1 hg.2
  · rintro f absent fileId absentId r hf hne habsent hid hid' rfl
    refine handle_rename fold _ r ?_
    rw [getOwnedFile_foreign (by rw [hid]; rfl) fun g hg hgid => ?_,
      getOwnedFile_foreign (by rw [hid']; rfl) fun g hg hgid => ?_]
    · rw [hid', Option.some.injEq] at hgid
      exact absurd (List.mem_map.mpr ⟨g, hg, hgid.symm⟩) habsent
    · rw [hid, Option.some.injEq] at hgid
      rwa [← Database.file_unique _ hf hg hgid]

/-! Two owners: 1 registers a file, 2 registers one and asks for the file of 1. -/

def sampleFile : CreateFileInput where
  fileName := "report.pdf"
  mimeType := "application/pdf"
  checksum := "c"
  chunks := [⟨0, 3, "c", "chunks/c"⟩]

def sampleHistory : List Request :=
  [⟨1, sampleGenerated 1, .registerFile sampleFile⟩,
    ⟨2, sampleGenerated 2, .registerFile sampleFile⟩,
    ⟨2, sampleGenerated 3, .getFile "00000000-0000-0000-0000-000000000010"⟩]

theorem owner_isolation_sample :
    (answers (handle id) .empty sampleHistory).filter (fun p => p.1.ownerId == 2) =
        answers (handle id) .empty (sampleHistory.filter fun r => r.ownerId == 2) ∧
      handle id (finalState (handle id) .empty sampleHistory)
          ⟨2, sampleGenerated 4, .deleteFile "00000000-0000-0000-0000-000000000010"⟩ =
        handle id (finalState (handle id) .empty sampleHistory)
          ⟨2, sampleGenerated 4, .deleteFile "00000000-0000-0000-0000-0000000000ff"⟩ := by
  obtain ⟨hpurge, hforeign⟩ := owner_isolation id 2 sampleHistory (by decide)
  exact ⟨hpurge, hforeign ⟨0x10, 1, "report.pdf", false, 1, 1⟩ 0xff
    "00000000-0000-0000-0000-000000000010" "00000000-0000-0000-0000-0000000000ff"
    ⟨2, sampleGenerated 4, .deleteFile ""⟩ (by decide) (by decide) (by decide) (by decide)
    (by decide) rfl⟩

end IntelliStore.Metadata
