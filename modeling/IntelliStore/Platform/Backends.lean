import IntelliStore.Metadata.Totals
import IntelliStore.Platform.RoundTrip
import IntelliStore.Storage.DownloadSpec
import IntelliStore.Storage.LocalFsBackend

/-! The platform over the backend that `container.ts` chooses. Nobody can tell the local disk, or
the double of the tests, from the object store. -/

namespace IntelliStore.Platform
open Postgres Library Metadata Storage
open Library.PosixPath
variable {σ : Type} {sha256 : Bytes → String}

/-- One event over any backend. -/
def stepOver (sha256 : Bytes → String) (fold : Char → Char) (backend : StorageBackend σ)
    (s : ServiceState σ Database) : Op → Reply × ServiceState σ Database
  | .upload u =>
    let res := ((u.service sha256).onBackend backend).upload u.ownerId u.target u.mimeType u.buffer s
    (.uploaded res.1, res.2)
  | .download q =>
    let res := ((containerDownloadService sha256 q.generated q.outcomes).onBackend backend).download
      q.ownerId q.fileId q.versionNumber q.now s
    (.downloaded res.1, res.2)
  | .metadata r =>
    let res := FileRouter.handle fold s.metadata r
    (.metadata res.1, { s with metadata := res.2 })

theorem step_eq_stepOver (fold : Char → Char) :
    step sha256 fold = stepOver sha256 fold (minioStorageBackend .none) := by
  funext w op
  cases op with
  | upload u => rfl
  | download q => rfl
  | metadata r => rfl

/-- The storage keys that the event writes or registers. -/
def Op.KeysIn (sha256 : Bytes → String) (K : String → Prop) : Op → Prop
  | .upload u => ∀ p ∈ u.pieces sha256, K p.key
  | .download _ => True
  | .metadata r => ∀ input, r.call.registration = some input → ∀ c ∈ input.chunks, K c.storageKey

def KeysKnown (K : String → Prop) (d : Database) : Prop := ∀ c ∈ d.chunks, K c.storageKey

variable {K : String → Prop} {R : Bucket → σ → Prop} {backend : StorageBackend σ}

theorem KeysKnown.append {d d' : Database} {rows : List ChunkRecord} {inputs : List ChunkInput}
    (h : KeysKnown K d) (hchunks : d'.chunks = d.chunks ++ rows)
    (hrows : rows.map ChunkRecord.input = inputs) (hinputs : ∀ c ∈ inputs, K c.storageKey) :
    KeysKnown K d' := by
  intro c hc
  rw [hchunks, List.mem_append] at hc
  rcases hc with hc | hc
  · exact h c hc
  · have hinput : c.input ∈ inputs := by
      rw [← hrows]
      exact List.mem_map_of_mem hc
    exact hinputs _ hinput

theorem KeysKnown.step (fold : Char → Char) {w : World} {op : Op} (h : KeysKnown K w.metadata)
    (hop : op.KeysIn sha256 K) : KeysKnown K (step sha256 fold w op).2.metadata := by
  cases op with
  | upload u =>
    change KeysKnown K (u.run sha256 w).2.metadata
    rcases u.run_cases sha256 w with ⟨hadds, -, -⟩ | ⟨-, -, v, hcommits, -⟩
    · intro c hc
      rw [hadds.chunks] at hc
      exact h c hc
    · apply h.append hcommits.chunks (Database.chunkRows_map_input _ _ _ _)
      intro c hc
      obtain ⟨p, hp, rfl⟩ := List.mem_map.mp hc
      exact hop p hp
  | download q =>
    have hframe := (DownloadService.download_frame (containerDownloadService sha256 q.generated
      q.outcomes) q.ownerId q.fileId q.versionNumber q.now w).2
    change KeysKnown K (q.run sha256 w).2.metadata
    rw [Download.run, hframe]
    exact h
  | metadata r =>
    change KeysKnown K (FileRouter.handle fold w.metadata r).2
    rcases FileRouter.handle_commits fold w.metadata r with
      ⟨-, hchunks⟩ | ⟨input, v, rows, hreg, -, hcommits⟩
    · intro c hc
      rw [hchunks] at hc
      exact h c hc
    · exact h.append hcommits.chunks hcommits.inputs (hop input hreg)

/-- One event over the object store and over a backend that agrees with it. -/
theorem stepOver_alike (fold : Char → Char)
    (hagrees : (minioStorageBackend .none).Agrees backend K R)
    {w : World} {s : ServiceState σ Database} {op : Op} (hkeys : KeysKnown K w.metadata)
    (hop : op.KeysIn sha256 K) (h : w.Twins R s) :
    Alike (ServiceState.Twins R) (step sha256 fold w op) (stepOver sha256 fold backend s op) := by
  cases op with
  | upload u =>
    obtain ⟨hresult, hnext⟩ := UploadService.upload_alike (u.service sha256) hagrees hop u.ownerId
      u.target u.mimeType h
    exact ⟨congrArg Reply.uploaded hresult, hnext⟩
  | download q =>
    have hchunks : ∀ n detail, (containerDownloadService sha256 q.generated
        q.outcomes).metadataClient.getVersionDetail q.ownerId q.fileId n w.metadata = .ok detail →
        ∀ c ∈ detail.chunks, K c.storageKey := by
      intro n detail hdetail c hc
      obtain ⟨f, v, -, -, -, -, rfl⟩ :=
        FileRouter.getVersion_eq_ok (HttpMetadataClient.request_ok hdetail)
      exact hkeys c (Database.mem_listChunks.mp hc).1
    obtain ⟨hresult, hnext⟩ := DownloadService.download_alike
      (containerDownloadService sha256 q.generated q.outcomes) hagrees q.ownerId q.fileId
      q.versionNumber q.now h hchunks
    exact ⟨congrArg Reply.downloaded hresult, hnext⟩
  | metadata r =>
    have hsame : FileRouter.handle fold w.metadata r = FileRouter.handle fold s.metadata r := by
      rw [h.metadata]
    have hanswer := congrArg (fun res : _ × Database => Reply.metadata res.1) hsame
    exact ⟨hanswer, h.backend, congrArg Prod.snd hsame, h.chunkUploads, h.fileAccesses⟩

/-- Whole runs over the object store and over a backend that agrees with it on their keys. -/
theorem runs_alike (fold : Char → Char) (hagrees : (minioStorageBackend .none).Agrees backend K R)
    {ops : List Op} (hops : ∀ op ∈ ops, op.KeysIn sha256 K) {t : σ}
    (hR : R World.empty.backend t) :
    answers (step sha256 fold) .empty ops =
        answers (stepOver sha256 fold backend) ⟨t, .empty, [], []⟩ ops ∧
      (finalState (step sha256 fold) .empty ops).Twins R
        (finalState (stepOver sha256 fold backend) ⟨t, .empty, [], []⟩ ops) := by
  have hempty : KeysKnown K World.empty.metadata := fun c hc => absurd hc List.not_mem_nil
  have htwins : World.empty.Twins R ⟨t, .empty, [], []⟩ := ⟨hR, rfl, rfl, rfl⟩
  have hstep : ∀ (w : World) (s : ServiceState σ Database) (op : Op), op.KeysIn sha256 K →
      KeysKnown K w.metadata ∧ w.Twins R s →
      (step sha256 fold w op).1 = (stepOver sha256 fold backend s op).1 ∧
        KeysKnown K (step sha256 fold w op).2.metadata ∧
        (step sha256 fold w op).2.Twins R (stepOver sha256 fold backend s op).2 := by
    intro w s op hop h
    obtain ⟨hanswer, hnext⟩ := stepOver_alike fold hagrees h.1 hop h.2
    exact ⟨hanswer, h.1.step fold hop, hnext⟩
  obtain ⟨hanswers, -, hfinal⟩ := answers_eq_of_step
    (fun (w : World) (s : ServiceState σ Database) => KeysKnown K w.metadata ∧ w.Twins R s) hstep
    hops ⟨hempty, htwins⟩
  exact ⟨hanswers, hfinal⟩

/-- On a local disk, every run gets the answers it gets over the object store, and ends with the
objects as files, the same tables and the same events. The disk holds nothing under the directory
of the pieces at the start, and every key that is written or registered names a piece. -/
theorem localFs_runs_alike (fold : Char → Char) {cwd baseDir : Path}
    (habs : isAbsolute baseDir = true) (hroot : segments (resolve cwd [baseDir]) ≠ [])
    {before disk : Disk} (hnew : LocalFsStorageBackend.new cwd baseDir before = some disk)
    (hfresh : ∀ path, LocalFsStorageBackend.chunksDir cwd baseDir <+: path → path ∉ before.entries)
    (ops : List Op) (hops : ∀ op ∈ ops, op.KeysIn sha256 ContentKey) :
    answers (step sha256 fold) .empty ops =
        answers (stepOver sha256 fold (localFsStorageBackend cwd baseDir))
          ⟨disk, .empty, [], []⟩ ops ∧
      (finalState (step sha256 fold) .empty ops).Twins (LocalFsStorageBackend.Mirrors cwd baseDir)
        (finalState (stepOver sha256 fold (localFsStorageBackend cwd baseDir))
          ⟨disk, .empty, [], []⟩ ops) :=
  runs_alike fold (LocalFsStorageBackend.localFs_agrees habs hroot) hops
    (LocalFsStorageBackend.mirrors_new hnew hfresh)

/-- The sample run with its download, on a disk that holds only its root. -/
theorem localFs_runs_alike_sample :
    ∃ disk, LocalFsStorageBackend.new "/srv".toList "/data".toList .empty = some disk ∧
      answers (step sampleSha256 id) .empty (sampleOps ++ [.download newestDownload]) =
        answers (stepOver sampleSha256 id (localFsStorageBackend "/srv".toList "/data".toList))
          ⟨disk, .empty, [], []⟩ (sampleOps ++ [.download newestDownload]) := by
  have habs : isAbsolute "/data".toList = true := by decide
  have hroot : segments (resolve "/srv".toList ["/data".toList]) ≠ [] := by decide
  have hentries : ∀ path, path ∈ (FileTree.empty : Disk).entries → path = [] := by
    intro path hmem
    exact (Finmap.mem_singleton _ _ _).mp hmem
  have hnew : ∃ disk, LocalFsStorageBackend.new "/srv".toList "/data".toList .empty = some disk := by
    apply FileTree.exists_mkdirRecursive
    intro path _ hmem
    rw [hentries path hmem]
    exact FileTree.isDirectory_root _
  obtain ⟨disk, hdisk⟩ := hnew
  have hfresh : ∀ path, LocalFsStorageBackend.chunksDir "/srv".toList "/data".toList <+: path →
      path ∉ (FileTree.empty : Disk).entries := by
    intro path hpre hmem
    rw [hentries path hmem] at hpre
    exact absurd (List.prefix_nil.mp hpre) (by decide)
  have hnames : ∀ u ∈ [firstVersion, secondVersion, refusedUpload], ∀ p ∈ u.pieces sampleSha256,
      p.checksum = sampleSha256 [1] ∨ p.checksum = sampleSha256 [2] := by decide
  have hone : IsName (sampleSha256 [1]).toList := by constructor <;> decide
  have htwo : IsName (sampleSha256 [2]).toList := by constructor <;> decide
  have hcontent : ∀ u ∈ [firstVersion, secondVersion, refusedUpload],
      (Op.upload u).KeysIn sampleSha256 ContentKey := by
    intro u hu p hp
    rcases hnames u hu p hp with hname | hname
    · exact ⟨_, hone, congrArg chunkKey hname⟩
    · exact ⟨_, htwo, congrArg chunkKey hname⟩
  refine ⟨disk, hdisk, (localFs_runs_alike id habs hroot hdisk hfresh _ ?_).1⟩
  intro op hop
  rcases List.mem_append.mp hop with hop | hop
  · have hupload : ∃ u ∈ [firstVersion, secondVersion, refusedUpload], Op.upload u = op :=
      List.mem_map.mp hop
    obtain ⟨u, hu, rfl⟩ := hupload
    exact hcontent u hu
  · rw [List.mem_singleton.mp hop]
    trivial

/-- The double of the tests answers any run as the object store does. -/
theorem inMemory_runs_alike (fold : Char → Char) (ops : List Op) :
    answers (step sha256 fold) .empty ops =
        answers (stepOver sha256 fold inMemoryStorageBackend) ⟨∅, .empty, [], []⟩ ops ∧
      (finalState (step sha256 fold) .empty ops).Twins (fun b store => b.objects = store)
        (finalState (stepOver sha256 fold inMemoryStorageBackend) ⟨∅, .empty, [], []⟩ ops) := by
  have hops : ∀ op ∈ ops, op.KeysIn sha256 fun _ => True := by
    intro op _
    cases op with
    | upload u => exact fun _ _ => trivial
    | download q => trivial
    | metadata r => exact fun _ _ _ _ => trivial
  exact runs_alike fold inMemory_agrees hops rfl

end IntelliStore.Platform
