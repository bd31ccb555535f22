import IntelliStore.Metadata.Totals
import IntelliStore.Platform.Effects
import IntelliStore.Storage.DownloadSpec

/-! What the events of the uploads say: each is about a version that metadata-service holds, and
its chunks are the pieces of what was uploaded. -/

namespace IntelliStore.Metadata

/-- A chunk as the event of its upload names it. -/
def ChunkRecord.announcement (row : ChunkRecord) : ChunkUploadedEvent :=
  ⟨row.id, row.storageKey, row.sizeBytes⟩

theorem Database.chunk_of_announcement {d : Database} {row row' : ChunkRecord} (h : row ∈ d.chunks)
    (h' : row' ∈ d.chunks) (hid : row.announcement.chunkId = row'.announcement.chunkId) :
    row = row' := List.inj_on_of_nodup_map d.chunks_pkey h h' hid

end IntelliStore.Metadata

namespace IntelliStore.Platform
open Postgres Library Metadata Storage
variable {sha256 : Bytes → String}

/-! ### The events of a run -/

/-- The chunks that metadata-service answers with are the rows it has added. -/
theorem Upload.served_chunks {u : Upload} {d d' : Database} {result : VersionDetail}
    (h : u.served sha256 d = (.ok result, d')) : result.chunks =
      Database.chunkRows u.generated result.version.id 0 (u.payload sha256).chunks := by
  unfold served at h
  cases ht : u.target with
  | newFile fileName =>
    rw [ht] at h
    by_cases hs : createFileSchema ⟨u.payload sha256, fileName⟩ = true
    · rcases FileService.registerFile_cases u.generated u.ownerId
        ⟨u.payload sha256, fileName⟩ d with
        ⟨e, he⟩ | ⟨e, f, d₁, hf, he⟩ | ⟨f, d₁, v, rows, d₂, hf, hv, he⟩ <;>
        simp only [FileRouter.postFile, validateBody, hs, if_true, he, Except.map] at h
      · cases h
      · cases h
      · cases h
        obtain ⟨rfl, hrows, -⟩ := Database.createVersion_ok hv
        exact hrows
    · simp only [FileRouter.postFile, validateBody, hs, Bool.false_eq_true, if_false,
        Except.map] at h
      cases h
  | newVersion fileId =>
    rw [ht] at h
    by_cases hs : createVersionSchema (u.payload sha256) = true
    · rcases FileService.addVersion_cases u.generated u.ownerId fileId (u.payload sha256) d with
        ⟨e, he⟩ | ⟨f, v, rows, d₁, hf, hv, he⟩ <;>
        simp only [FileRouter.postVersion, validateBody, hs, if_true, he] at h
      · cases h
      · cases h
        obtain ⟨rfl, hrows, -⟩ := Database.createVersion_ok hv
        exact hrows
    · simp only [FileRouter.postVersion, validateBody, hs, Bool.false_eq_true, if_false] at h
      cases h

/-- An upload that is answered with a version publishes the event of that version; another one
publishes nothing. -/
theorem Upload.run_chunkUploads (sha256 : Bytes → String) (u : Upload) (w : World) :
    ((∃ e, (u.run sha256 w).1 = .error e) ∧
      (u.run sha256 w).2.chunkUploads = w.chunkUploads) ∨
    ∃ result v fileId ownerId fileName, (u.run sha256 w).1 = .ok result ∧
      u.Commits sha256 w.metadata (u.run sha256 w).2.metadata v ∧ result.version = v ∧
      result.chunks = Database.chunkRows u.generated v.id 0 (u.payload sha256).chunks ∧
      (u.run sha256 w).2.chunkUploads = w.chunkUploads ++
        [UploadService.chunkUploadedEvent fileId ownerId fileName result.toVersionDetail] := by
  by_cases hbuffer : u.buffer = []
  · left
    have hstore := UploadService.storeChunks_empty (u.service sha256) u.mimeType w.backend
    rw [← hbuffer] at hstore
    rw [run, UploadService.upload_of_error hstore]
    exact ⟨⟨_, rfl⟩, rfl⟩
  obtain ⟨stored, b, hstored, -, hpayload, -⟩ :=
    UploadService.storeChunks_ok (u.service sha256) rfl (fun _ => rfl) hbuffer u.mimeType
      w.backend fun _ _ => rfl
  have hpay : stored.payload = u.payload sha256 := hpayload
  rw [run]
  rcases UploadService.upload_cases (s := w) u.ownerId u.target hstored with
    ⟨e, m, -, hup⟩ | ⟨result, m, fileId, ownerId, fileName, hreg, hup⟩ |
    ⟨result, m, fileId, e, -, -, -, hup⟩
  · rw [hup]
    exact .inl ⟨⟨e, rfl⟩, rfl⟩
  · rw [hpay, register_eq] at hreg
    have hserved := HttpMetadataClient.request_eq_ok hreg
    rw [hup]
    right
    rcases u.served_cases sha256 w.metadata with ⟨answer, d', hs, hcommits⟩ | ⟨e, d', hs, -⟩
    · rw [hserved] at hs
      cases hs
      exact ⟨_, _, fileId, ownerId, fileName, rfl, hcommits, rfl, served_chunks hserved, rfl⟩
    · rw [hserved] at hs
      cases hs
  · rw [hup]
    exact .inl ⟨⟨e, rfl⟩, rfl⟩

theorem Download.run_chunkUploads (sha256 : Bytes → String) (q : Download) (w : World) :
    (q.run sha256 w).2.chunkUploads = w.chunkUploads := by
  unfold run DownloadService.download
  split
  · rfl
  split
  · rfl
  dsimp only
  split
  · rfl
  split
  · rfl
  split_ifs
  · rfl
  · rfl

/-! ### The rows behind an event -/

/-- The version of the event is committed, and the rows of its chunks describe the pieces. -/
structure Published (sha256 : Bytes → String) (d : Database) (event : ChunkUploadedBatchEvent)
    (pieces : List ChunkPiece) : Prop where
  version : ∃ v ∈ d.versions, v.id = event.versionId ∧
    v.checksum = sha256 (pieces.flatMap ChunkPiece.data)
  chunks : List.Forall₂ (fun chunk p => ∃ row ∈ d.chunks, row.announcement = chunk ∧
    row.checksum = sha256 p.data ∧ row.storageKey = chunkKey (sha256 p.data) ∧
    row.sizeBytes = p.data.length) event.chunks pieces

theorem Published.mono {d d' : Database} {event : ChunkUploadedBatchEvent}
    {pieces : List ChunkPiece} (h : Published sha256 d event pieces)
    (hversions : d.versions ⊆ d'.versions) (hchunks : d.chunks ⊆ d'.chunks) :
    Published sha256 d' event pieces where
  version := by
    obtain ⟨v, hv, hversion⟩ := h.version
    exact ⟨v, hversions hv, hversion⟩
  chunks := by
    apply h.chunks.imp
    intro chunk p hrow
    obtain ⟨row, hmem, hrow⟩ := hrow
    exact ⟨row, hchunks hmem, hrow⟩

/-- The event of an upload. -/
theorem Published.of_commits {u : Upload} {d d' : Database} {v : FileVersionRecord}
    (hcommits : u.Commits sha256 d d' v) {event : ChunkUploadedBatchEvent}
    (hversion : event.versionId = v.id) (hchunks : event.chunks = (Database.chunkRows u.generated
      v.id 0 (u.payload sha256).chunks).map ChunkRecord.announcement) :
    Published sha256 d' event (u.pieces sha256) where
  version := by
    have hmem : v ∈ d'.versions := by
      rw [hcommits.versions]
      exact List.mem_concat_self
    have hbuffer : (u.pieces sha256).flatMap ChunkPiece.data = u.buffer :=
      splitIntoChunks_data sha256 u.buffer u.chunkSizeBytes
    exact ⟨v, hmem, hversion.symm, by rw [hbuffer, hcommits.checksum]⟩
  chunks := by
    have hinputs : (Database.chunkRows u.generated v.id 0 (u.payload sha256).chunks).map
        ChunkRecord.input = (u.pieces sha256).map ChunkPiece.payload :=
      Database.chunkRows_map_input _ _ _ _
    rw [← List.forall₂_eq_eq_eq, List.forall₂_map_left_iff, List.forall₂_map_right_iff,
      List.forall₂_iff_zip] at hinputs
    rw [hchunks, List.forall₂_map_left_iff, List.forall₂_iff_zip]
    refine ⟨hinputs.1, fun {row p} hzip => ?_⟩
    obtain ⟨hrow, hp⟩ := List.of_mem_zip hzip
    obtain ⟨hsize, hsum, -⟩ := mem_splitIntoChunks hp
    have hinput : row.input = p.payload := hinputs.2 hzip
    have hchecksum : row.checksum = sha256 p.data :=
      (congrArg ChunkInput.checksum hinput).trans hsum
    have hkey : row.storageKey = chunkKey (sha256 p.data) :=
      (congrArg ChunkInput.storageKey hinput).trans (congrArg chunkKey hsum)
    have hlength : row.sizeBytes = p.data.length :=
      (congrArg ChunkInput.sizeBytes hinput).trans hsize
    have hmem : row ∈ d'.chunks := by
      rw [hcommits.chunks]
      exact List.mem_append_right _ hrow
    exact ⟨row, hmem, rfl, hchecksum, hkey, hlength⟩

/-! ### What a request keeps -/

theorem versions_chunks_of_step (sha256 : Bytes → String) (fold : Char → Char) (w : World)
    (op : Op) : w.metadata.versions ⊆ (step sha256 fold w op).2.metadata.versions ∧
      w.metadata.chunks ⊆ (step sha256 fold w op).2.metadata.chunks := by
  cases op with
  | upload u =>
    show w.metadata.versions ⊆ (u.run sha256 w).2.metadata.versions ∧
      w.metadata.chunks ⊆ (u.run sha256 w).2.metadata.chunks
    rcases u.run_cases sha256 w with ⟨hadds, -, -⟩ | ⟨-, -, v, hcommits, -⟩
    · rw [hadds.versions, hadds.chunks]
      exact ⟨List.Subset.refl _, List.Subset.refl _⟩
    · rw [hcommits.versions, hcommits.chunks]
      exact ⟨List.subset_append_left _ _, List.subset_append_left _ _⟩
  | download q =>
    have hframe := (DownloadService.download_frame (containerDownloadService sha256 q.generated
      q.outcomes) q.ownerId q.fileId q.versionNumber q.now w).2
    show w.metadata.versions ⊆ (q.run sha256 w).2.metadata.versions ∧
      w.metadata.chunks ⊆ (q.run sha256 w).2.metadata.chunks
    rw [Download.run, hframe]
    exact ⟨List.Subset.refl _, List.Subset.refl _⟩
  | metadata r =>
    show w.metadata.versions ⊆ (FileRouter.handle fold w.metadata r).2.versions ∧
      w.metadata.chunks ⊆ (FileRouter.handle fold w.metadata r).2.chunks
    rcases FileRouter.handle_commits fold w.metadata r with
      ⟨hversions, hchunks⟩ | ⟨input, v, rows, -, -, hcommits⟩
    · rw [hversions, hchunks]
      exact ⟨List.Subset.refl _, List.Subset.refl _⟩
    · rw [hcommits.versions, hcommits.chunks]
      exact ⟨List.subset_append_left _ _, List.subset_append_left _ _⟩

theorem chunkUploads_of_step (sha256 : Bytes → String) (fold : Char → Char) (w : World) (op : Op) :
    w.chunkUploads ⊆ (step sha256 fold w op).2.chunkUploads := by
  cases op with
  | upload u =>
    show w.chunkUploads ⊆ (u.run sha256 w).2.chunkUploads
    rcases u.run_chunkUploads sha256 w with ⟨-, hsame⟩ | ⟨_, _, _, _, _, -, -, -, -, huploads⟩
    · rw [hsame]
      exact List.Subset.refl _
    · rw [huploads]
      exact List.subset_append_left _ _
  | download q =>
    show w.chunkUploads ⊆ (q.run sha256 w).2.chunkUploads
    rw [q.run_chunkUploads]
    exact List.Subset.refl _
  | metadata r => exact List.Subset.refl _

/-- The events of the uploads that have been published so far. -/
theorem published_of_step (fold : Char → Char) {w : World} (op : Op)
    {event : ChunkUploadedBatchEvent} (h : event ∈ (step sha256 fold w op).2.chunkUploads) :
    event ∈ w.chunkUploads ∨ ∃ u, op = .upload u ∧
      Published sha256 (step sha256 fold w op).2.metadata event (u.pieces sha256) := by
  cases op with
  | upload u =>
    change event ∈ (u.run sha256 w).2.chunkUploads at h
    rcases u.run_chunkUploads sha256 w with ⟨-, hsame⟩ |
      ⟨result, v, fileId, ownerId, fileName, -, hcommits, rfl, hchunks, huploads⟩
    · exact .inl (hsame ▸ h)
    · rw [huploads, List.mem_append, List.mem_singleton] at h
      rcases h with h | rfl
      · exact .inl h
      · refine .inr ⟨u, rfl, Published.of_commits hcommits rfl ?_⟩
        rw [← hchunks]
        rfl
  | download q =>
    have hsame := q.run_chunkUploads sha256 w
    exact .inl (hsame ▸ h)
  | metadata r => exact .inl h

/-- An object of the bucket was there before the request, or is a piece that it uploads. -/
theorem objects_of_step (fold : Char → Char) {w : World} (op : Op) {key : String} {data : Bytes}
    (h : (step sha256 fold w op).2.backend.objects.lookup key = some data) :
    w.backend.objects.lookup key = some data ∨ ∃ u, op = .upload u ∧
      ∃ p ∈ u.pieces sha256, p.data = data ∧ key = chunkKey (sha256 data) := by
  cases op with
  | upload u =>
    change (u.run sha256 w).2.backend.objects.lookup key = some data at h
    rcases u.run_cases sha256 w with ⟨-, hobj, -⟩ | ⟨-, -, v, -, ⟨-, hobj⟩ | ⟨-, hobj⟩⟩
    · exact .inl (hobj ▸ h)
    · rw [hobj] at h
      refine (ObjectStore.lookup_putAll_eq_some h).imp_right fun hmem => ?_
      obtain ⟨p, hp, hpair⟩ := List.mem_map.mp hmem
      cases hpair
      exact ⟨u, rfl, p, hp, rfl, congrArg chunkKey (mem_splitIntoChunks hp).2.1⟩
    · exact .inl (hobj ▸ h)
  | download q =>
    have hframe := (DownloadService.download_frame (containerDownloadService sha256 q.generated
      q.outcomes) q.ownerId q.fileId q.versionNumber q.now w).1
    change (q.run sha256 w).2.backend.objects.lookup key = some data at h
    rw [Download.run, hframe] at h
    exact .inl h
  | metadata r => exact .inl h

end IntelliStore.Platform
