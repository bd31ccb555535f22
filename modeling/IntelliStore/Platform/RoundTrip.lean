import IntelliStore.Platform.Effects
import IntelliStore.Storage.DownloadSpec

/-! What was uploaded is what a download returns, over whole runs: the bucket holds the pieces
of every committed version, each under the digest of its content. -/

namespace IntelliStore.Platform
open Postgres Library Metadata Storage
variable {sha256 : Bytes → String}

/-- No registration behind the back of storage-service, and none whose reply is lost. -/
def Op.Settled : Op → Prop
  | .upload u => u.outcomes.registration.ambiguous = false
  | .download _ => True
  | .metadata r => r.call.registration = none

/-- The byte strings the uploads of a run hash. -/
def hashed (sha256 : Bytes → String) (ops : List Op) : Set Bytes :=
  {x | ∃ u, .upload u ∈ ops ∧ (x = u.buffer ∨ ∃ p ∈ u.pieces sha256, p.data = x)}

/-- The version `v` is that of the upload, and its pieces are in the bucket. -/
structure StoredVersion (sha256 : Bytes → String) (u : Upload) (w : World)
    (v : FileVersionRecord) : Prop where
  versionId : u.generated.version = v.id
  versionNumber : 1 ≤ v.versionNumber
  mimeType : v.mimeType = u.mimeType
  checksum : v.checksum = sha256 u.buffer
  owner : ∃ fileName, (v.fileId, u.ownerId, fileName) ∈ w.metadata.origins
  chunks : w.metadata.chunks.filter (·.fileVersionId == v.id) =
    Database.chunkRows u.generated v.id 0 (u.payload sha256).chunks
  keys : ∀ p ∈ u.pieces sha256, p.key ∈ w.backend.objects

structure Stored (sha256 : Bytes → String) (past : List Op) (w : World) : Prop where
  addressed : ∀ k x, w.backend.objects.lookup k = some x →
    k = chunkKey (sha256 x) ∧ x ∈ hashed sha256 past
  files : ∀ o ∈ w.metadata.origins, ∃ u, .upload u ∈ past ∧ u.target = .newFile o.2.2 ∧
    u.generated.file = o.1 ∧ u.ownerId = o.2.1
  versions : ∀ v ∈ w.metadata.versions, ∃ u, .upload u ∈ past ∧ StoredVersion sha256 u w v

theorem hashed_mono {past : List Op} {op : Op} {x : Bytes} (h : x ∈ hashed sha256 past) :
    x ∈ hashed sha256 (past ++ [op]) := by
  obtain ⟨u, hu, hx⟩ := h
  exact ⟨u, List.mem_append_left _ hu, hx⟩

namespace Stored

theorem empty : Stored sha256 [] .empty where
  addressed := fun k x hx => by
    rw [show World.empty.backend.objects = ∅ from rfl, Finmap.lookup_empty] at hx
    cases hx
  files := fun o ho => by cases ho
  versions := fun v hv => by cases hv

/-- A step that keeps the objects and the rows, up to the deletion marks of the files. -/
theorem same {past : List Op} {w w' : World} (op : Op) (h : Stored sha256 past w)
    (hobjects : w'.backend.objects = w.backend.objects)
    (horigins : w'.metadata.origins = w.metadata.origins)
    (hversions : w'.metadata.versions = w.metadata.versions)
    (hchunks : w'.metadata.chunks = w.metadata.chunks) : Stored sha256 (past ++ [op]) w' where
  addressed := fun k x hx => by
    obtain ⟨hk, hx⟩ := h.addressed k x (hobjects ▸ hx)
    exact ⟨hk, hashed_mono hx⟩
  files := fun o ho => by
    obtain ⟨u, hu, hfile⟩ := h.files o (horigins ▸ ho)
    exact ⟨u, List.mem_append_left _ hu, hfile⟩
  versions := fun v hv => by
    obtain ⟨u, hu, hs⟩ := h.versions v (hversions ▸ hv)
    exact ⟨u, List.mem_append_left _ hu, { hs with
      owner := horigins ▸ hs.owner
      chunks := hchunks ▸ hs.chunks
      keys := hobjects ▸ hs.keys }⟩

end Stored

theorem files_of_addsOrigin {past : List Op} {w : World} {d : Database} {u : Upload}
    (h : Stored sha256 past w) (hadds : u.AddsOrigin w.metadata d) :
    ∀ o ∈ d.origins, ∃ u', .upload u' ∈ past ++ [.upload u] ∧ u'.target = .newFile o.2.2 ∧
      u'.generated.file = o.1 ∧ u'.ownerId = o.2.1 := by
  have hold : ∀ o ∈ w.metadata.origins, ∃ u', .upload u' ∈ past ++ [Op.upload u] ∧
      u'.target = .newFile o.2.2 ∧ u'.generated.file = o.1 ∧ u'.ownerId = o.2.1 := by
    intro o ho
    obtain ⟨u', hu', hfile⟩ := h.files o ho
    exact ⟨u', List.mem_append_left _ hu', hfile⟩
  rcases hadds with hd | ⟨fileName, ht, hd⟩ <;> rw [hd]
  · exact hold
  · refine List.forall_mem_append.mpr ⟨hold, List.forall_mem_singleton.mpr ⟨u, ?_, ht, rfl, rfl⟩⟩
    exact List.mem_concat_self

namespace Stored

/-- The rows of a version that was there are kept by a commit, and the new version has its own. -/
theorem chunks_of_commits {u : Upload} {d d' : Database} {v : FileVersionRecord}
    (hcommits : u.Commits sha256 d d' v) :
    (∀ v' ∈ d.versions, d'.chunks.filter (·.fileVersionId == v'.id) =
        d.chunks.filter (·.fileVersionId == v'.id)) ∧
      d'.chunks.filter (·.fileVersionId == v.id) =
        Database.chunkRows u.generated v.id 0 (u.payload sha256).chunks := by
  rw [hcommits.chunks]
  constructor
  · intro v' hv'
    have hnone : (Database.chunkRows u.generated v.id 0 (u.payload sha256).chunks).filter
        (·.fileVersionId == v'.id) = [] := by
      refine List.filter_eq_nil_iff.mpr fun c hc => ?_
      rw [Database.fileVersionId_of_mem_chunkRows hc, beq_iff_eq]
      exact fun he => hcommits.fresh (he ▸ List.mem_map_of_mem hv')
    rw [List.filter_append, hnone, List.append_nil]
  · have hnone : d.chunks.filter (·.fileVersionId == v.id) = [] := by
      refine List.filter_eq_nil_iff.mpr fun c hc => ?_
      rw [beq_iff_eq]
      exact fun he => hcommits.fresh (he ▸ d.chunks_version_fkey c hc)
    rw [List.filter_append, hnone, List.nil_append]
    exact List.filter_eq_self.mpr fun c hc =>
      beq_iff_eq.mpr (Database.fileVersionId_of_mem_chunkRows hc)

theorem upload {past : List Op} {w : World} {u : Upload} (h : Stored sha256 past w)
    (hu : u.outcomes.registration.ambiguous = false) :
    Stored sha256 (past ++ [.upload u]) (u.run sha256 w).2 := by
  have hnew : Op.upload u ∈ past ++ [Op.upload u] :=
    List.mem_concat_self
  rcases u.run_cases sha256 w with ⟨hadds, hobj, -⟩ | ⟨-, -, v, hcommits, hobj⟩
  · refine ⟨fun k x hx => ?_, files_of_addsOrigin h hadds.origins, fun v hv => ?_⟩
    · obtain ⟨hk, hx⟩ := h.addressed k x (hobj ▸ hx)
      exact ⟨hk, hashed_mono hx⟩
    · obtain ⟨u', hu', hs⟩ := h.versions v (hadds.versions ▸ hv)
      exact ⟨u', List.mem_append_left _ hu', { hs with
        owner := hs.owner.imp fun _ ho => hadds.origins.subset ho
        chunks := hadds.chunks ▸ hs.chunks
        keys := hobj ▸ hs.keys }⟩
  -- a settled registration has its reply, so the pieces stay in the bucket
  rcases hobj with ⟨-, hobj⟩ | ⟨hamb, -⟩
  swap
  · rw [hu] at hamb
    cases hamb
  obtain ⟨hkept, hown⟩ := chunks_of_commits hcommits
  refine ⟨fun k x hx => ?_, files_of_addsOrigin h hcommits.origins, fun v' hv' => ?_⟩
  · rw [hobj] at hx
    rcases ObjectStore.lookup_putAll_eq_some hx with hx | hx
    · obtain ⟨hk, hx⟩ := h.addressed k x hx
      exact ⟨hk, hashed_mono hx⟩
    · obtain ⟨p, hp, hpx⟩ := List.mem_map.mp hx
      cases hpx
      refine ⟨congrArg chunkKey (mem_splitIntoChunks hp).2.1, u, hnew, .inr ⟨p, hp, rfl⟩⟩
  · rw [hcommits.versions, List.mem_append, List.mem_singleton] at hv'
    rcases hv' with hv' | rfl
    · obtain ⟨u', hu', hs⟩ := h.versions v' hv'
      exact ⟨u', List.mem_append_left _ hu', { hs with
        owner := hs.owner.imp fun _ ho => hcommits.origins.subset ho
        chunks := (hkept v' hv').trans hs.chunks
        keys := fun p hp => hobj ▸ ObjectStore.mem_putAll.mpr (.inl (hs.keys p hp)) }⟩
    · refine ⟨u, hnew, ⟨hcommits.versionId.symm, hcommits.versionNumber, hcommits.mimeType,
        hcommits.checksum, hcommits.owner, hown, fun p hp => ?_⟩⟩
      rw [hobj, ObjectStore.mem_putAll, map_fst_entries]
      exact .inr (List.mem_map_of_mem hp)

theorem step {past : List Op} {w : World} (fold : Char → Char) {op : Op}
    (h : Stored sha256 past w) (hop : op.Settled) :
    Stored sha256 (past ++ [op]) (step sha256 fold w op).2 := by
  cases op with
  | upload u => exact h.upload hop
  | download q =>
    obtain ⟨hbackend, hmetadata⟩ := DownloadService.download_frame
      (containerDownloadService sha256 q.generated q.outcomes) q.ownerId q.fileId q.versionNumber
      q.now w
    exact h.same _ (congrArg Bucket.objects hbackend) (congrArg Database.origins hmetadata)
      (congrArg Database.versions hmetadata) (congrArg Database.chunks hmetadata)
  | metadata r =>
    obtain ⟨horigins, hversions, hchunks⟩ :=
      FileRouter.handle_of_no_registration fold w.metadata hop
    exact h.same _ rfl horigins hversions hchunks

theorem run (sha256 : Bytes → String) (fold : Char → Char) {ops : List Op}
    (hops : ∀ op ∈ ops, op.Settled) :
    Stored sha256 ops (finalState (Platform.step sha256 fold) .empty ops) :=
  finalState_history (Stored sha256) (fun _ _ _ hop h => h.step fold hop)
    (guarded_of_forall hops) empty

end Stored

/-! ### Reading a stored version back -/

section
variable {u : Upload} {w : World} {v : FileVersionRecord} {ops : List Op}

/-- The chunk rows of a stored version come back in the order of its pieces. -/
theorem StoredVersion.listChunks (h : StoredVersion sha256 u w v) :
    w.metadata.listChunks v.id =
      Database.chunkRows u.generated v.id 0 (u.payload sha256).chunks := by
  have hindex : (Database.chunkRows u.generated v.id 0 (u.payload sha256).chunks).map
      ChunkRecord.chunkIndex = List.range' 0 (u.pieces sha256).length := by
    rw [Database.chunkRows_map_chunkIndex]
    exact List.map_map.trans (splitLoop_index _ _ _ _)
  rw [Database.listChunks, h.chunks]
  refine List.Pairwise.insertionSort_eq ?_
  rw [← List.pairwise_map (R := fun a b : Nat => a ≤ b), hindex]
  exact List.pairwise_le_range'

/-- The byte strings that the objects named by the chunks of a version amount to. -/
def readBack (w : World) (v : FileVersionRecord) : Set Bytes :=
  {x | ∃ parts, List.Forall₂ (fun c y => w.backend.objects.lookup c.storageKey = some y)
    (w.metadata.listChunks v.id) parts ∧ parts.flatten = x}

/-- In the bucket of the run, they amount to what was uploaded. -/
theorem StoredVersion.readBack (h : StoredVersion sha256 u w v) (hw : Stored sha256 ops w)
    (hu : .upload u ∈ ops) (hinj : Set.InjOn sha256 (hashed sha256 ops)) :
    u.buffer ∈ readBack w v := by
  refine ⟨(u.pieces sha256).map ChunkPiece.data, ?_, ?_⟩
  · have hkeys : (Database.chunkRows u.generated v.id 0 (u.payload sha256).chunks).map
        ChunkRecord.storageKey = (u.pieces sha256).map ChunkPiece.key := by
      rw [Database.chunkRows_map_storageKey]
      exact List.map_map
    rw [h.listChunks, ← List.forall₂_map_left_iff (f := ChunkRecord.storageKey)
      (R := fun k y => w.backend.objects.lookup k = some y), hkeys, List.forall₂_map_left_iff,
      List.forall₂_map_right_iff, List.forall₂_same]
    intro p hp
    -- the object under the key of the piece has its digest, and so its bytes
    obtain ⟨x, hx⟩ := Finmap.mem_iff.mp (h.keys p hp)
    obtain ⟨hk, hmem⟩ := hw.addressed p.key x hx
    have hsum : sha256 p.data = sha256 x :=
      (mem_splitIntoChunks hp).2.1.symm.trans (chunkKey_inj.mp hk)
    rw [hx, hinj ⟨u, hu, .inr ⟨p, hp, rfl⟩⟩ hmem hsum]
  · exact splitIntoChunks_data sha256 u.buffer u.chunkSizeBytes

end

/-- The version `v` of the file `f`, asked for by its number or as the newest. -/
def Download.Targets (q : Download) (w : World) (f : FileRecord) (v : FileVersionRecord) : Prop :=
  q.ownerId = f.ownerId ∧ uuidIn q.fileId = some f.id ∧ q.outcomes = .replied ∧
    (q.versionNumber = some v.versionNumber ∨ q.versionNumber = none ∧
      ∀ v' ∈ w.metadata.versions, v'.fileId = f.id → v'.versionNumber ≤ v.versionNumber)

theorem Download.run_eq (sha256 : Bytes → String) {q : Download} {w : World} {f : FileRecord}
    {v : FileVersionRecord} (hq : q.Targets w f v) (hf : f ∈ w.metadata.files) (hlive : f.isDeleted = false)
    (hv : v ∈ w.metadata.versions) (hfile : v.fileId = f.id) (hpos : 1 ≤ v.versionNumber) :
    (∃ x ∈ readBack w v, sha256 x = v.checksum ∧
      (q.run sha256 w).1 = .ok ⟨x, f.fileName, v.mimeType, v.versionNumber⟩) ∨
    (¬(∃ x ∈ readBack w v, sha256 x = v.checksum) ∧
      ∃ e, q.run sha256 w = (.error e, w)) := by
  obtain ⟨howner, hid, hreplied, hn⟩ := hq
  have howned : FileService.getOwnedFile w.metadata q.ownerId q.fileId = .ok f :=
    FileService.getOwnedFile_ok.mpr ⟨hf, hid, hlive, howner.symm⟩
  rw [Download.run, hreplied, DownloadService.download_eq howned hv hfile hpos hn]
  have hread : ∀ x, x ∈ readBack w v ↔ (containerDownloadService sha256 q.generated
      .replied).combined (w.metadata.listChunks v.id) w.backend = .ok x :=
    fun x => (DownloadService.combined_eq_ok rfl).symm
  cases hc : (containerDownloadService sha256 q.generated .replied).combined
      (w.metadata.listChunks v.id) w.backend with
  | error e =>
    refine .inr ⟨?_, e, rfl⟩
    rintro ⟨x, hx, -⟩
    rw [hread, hc] at hx
    cases hx
  | ok x =>
    by_cases hsum : sha256 x = v.checksum
    · simp only [hsum, ne_eq, not_true_eq_false, if_false]
      exact .inl ⟨x, (hread x).mpr hc, hsum, rfl⟩
    · simp only [hsum, ne_eq, not_false_eq_true, if_true]
      refine .inr ⟨?_, _, rfl⟩
      rintro ⟨y, hy, hysum⟩
      rw [hread, hc] at hy
      cases hy
      exact hsum hysum

def firstVersion : Upload where
  ownerId := 1
  target := .newFile "a.txt"
  mimeType := "text/plain"
  buffer := [1]
  chunkSizeBytes := 4
  generated := sampleGenerated 1
  outcomes := .replied

def secondVersion : Upload where
  ownerId := 1
  target := .newVersion "00000000-0000-0000-0000-000000000010"
  mimeType := "text/plain"
  buffer := [1, 2]
  chunkSizeBytes := singleByte
  generated := sampleGenerated 2
  outcomes := .replied

def refusedUpload : Upload where
  ownerId := 2
  target := .newFile "b.txt"
  mimeType := "text/plain"
  buffer := [2]
  chunkSizeBytes := singleByte
  generated := sampleGenerated 3
  outcomes := ⟨.unreachable, .replied, .replied⟩

def sampleOps : List Op := [.upload firstVersion, .upload secondVersion, .upload refusedUpload]

def newestDownload : Download where
  ownerId := 1
  fileId := "00000000-0000-0000-0000-000000000010"
  versionNumber := none
  now := 9
  generated := sampleGenerated 9
  outcomes := .replied

theorem mem_hashed_sampleOps {x : Bytes} (h : x ∈ hashed sampleSha256 sampleOps) :
    x ∈ [[1], [2], [1, 2]] := by
  obtain ⟨u, hu, hx⟩ := h
  have hpieces : ∀ u ∈ [firstVersion, secondVersion, refusedUpload], u.buffer ∈ [[1], [2], [1, 2]] ∧
      ∀ p ∈ u.pieces sampleSha256, p.data ∈ [[1], [2], [1, 2]] := by decide
  have hmem : u ∈ [firstVersion, secondVersion, refusedUpload] := by
    simpa [sampleOps] using hu
  rcases hx with rfl | ⟨p, hp, rfl⟩
  · exact (hpieces u hmem).1
  · exact (hpieces u hmem).2 p hp

end IntelliStore.Platform
