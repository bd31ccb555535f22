import IntelliStore.Library.Runs
import IntelliStore.Metadata.Routes
import IntelliStore.Metadata.SystemStats
import Mathlib.Algebra.BigOperators.Finprod

/-! The totals of `getSystemStats` over whole runs: against what each owner is shown, and against
the stored objects. -/

namespace IntelliStore.Metadata
open Library Postgres

/-! ### What a request commits -/

/-- The version and the chunk rows of `input`, added to the tables. -/
structure Commits (d d' : Database) (input : CreateVersionInput) (v : FileVersionRecord)
    (rows : List ChunkRecord) : Prop where
  versions : d'.versions = d.versions ++ [v]
  chunks : d'.chunks = d.chunks ++ rows
  id_new : v.id ∉ d.versions.map FileVersionRecord.id
  size : v.sizeBytes = FileService.totalSize input.chunks
  owned : ∀ c ∈ rows, c.fileVersionId = v.id
  inputs : rows.map ChunkRecord.input = input.chunks

theorem commits_createVersion {d d' : Database} {g : Generated} {fileId : Uuid}
    {input : CreateVersionInput} {v : FileVersionRecord} {rows : List ChunkRecord}
    (h : d.createVersion g fileId (FileService.totalSize input.chunks) input.mimeType input.checksum
      input.chunks = .ok ((v, rows), d')) : Commits d d' input v rows := by
  obtain ⟨rfl, rfl, hid, -, hversions, hchunks⟩ := Database.createVersion_ok h
  exact ⟨hversions, hchunks, hid, rfl, fun c hc => Database.fileVersionId_of_mem_chunkRows hc,
    Database.chunkRows_map_input g g.version 0 input.chunks⟩

namespace FileRouter

/-- A request leaves the versions and chunks alone, or commits a version that its schema accepts. -/
theorem handle_commits (fold : Char → Char) (d : Database) (r : Request) :
    ((handle fold d r).2.versions = d.versions ∧ (handle fold d r).2.chunks = d.chunks) ∨
      ∃ input v rows, r.call.registration = some input ∧ createVersionSchema input = true ∧
        Commits d (handle fold d r).2 input v rows := by
  obtain ⟨ownerId, g, call⟩ := r
  cases call with
  | registerFile input =>
    simp only [handle, postFile, validateBody]
    split_ifs with hschema
    · rcases FileService.registerFile_cases g ownerId input d with
        ⟨e, h⟩ | ⟨e, file, d₁, hfile, h⟩ | ⟨file, d₁, v, rows, d₂, hfile, hversion, h⟩ <;> rw [h]
      · exact .inl ⟨rfl, rfl⟩
      · exact .inl (Database.createFile_ok hfile).2.2
      · obtain ⟨-, -, hversions, hchunks⟩ := Database.createFile_ok hfile
        have hcommit : Commits d₁ d₂ input.toCreateVersionInput v rows :=
          commits_createVersion hversion
        refine .inr ⟨input.toCreateVersionInput, v, rows, rfl, (Bool.and_eq_true_iff.mp hschema).2, ?_⟩
        exact ⟨hversions ▸ hcommit.versions, hchunks ▸ hcommit.chunks, hversions ▸ hcommit.id_new,
          hcommit.size, hcommit.owned, hcommit.inputs⟩
    · exact .inl ⟨rfl, rfl⟩
  | addVersion fileId input =>
    simp only [handle, postVersion, validateBody]
    split_ifs with hschema
    · rcases FileService.addVersion_cases g ownerId fileId input d with
        ⟨e, h⟩ | ⟨file, v, rows, d₁, -, hversion, h⟩ <;> rw [h]
      · exact .inl ⟨rfl, rfl⟩
      · exact .inr ⟨input, v, rows, rfl, hschema, commits_createVersion hversion⟩
    · exact .inl ⟨rfl, rfl⟩
  | _ => exact .inl (handle_of_no_registration fold d rfl).2

end FileRouter

/-! ### The owners' views -/

/-- A sum taken group by group. -/
theorem sum_groups {α κ : Type*} [DecidableEq κ] (key : α → κ) (f : α → Nat) (l : List α) :
    (l.map f).sum = ∑ᶠ k, ((l.filter (key · == k)).map f).sum := by
  -- over any set of groups that has all keys, by induction on the list
  have hgroups : ∀ s : Finset κ, (∀ a ∈ l, key a ∈ s) →
      (l.map f).sum = ∑ k ∈ s, ((l.filter (key · == k)).map f).sum := by
    intro s
    induction l with
    | nil => simp
    | cons a l ih =>
      intro hs
      obtain ⟨ha, hl⟩ := List.forall_mem_cons.mp hs
      have hsplit : ∀ k, (((a :: l).filter (key · == k)).map f).sum =
          (if key a = k then f a else 0) + ((l.filter (key · == k)).map f).sum := by
        intro k
        rw [List.filter_cons]
        by_cases hk : key a = k
        · simp [hk]
        · simp [hk]
      rw [List.map_cons, List.sum_cons, ih hl, Finset.sum_congr rfl fun k _ => hsplit k,
        Finset.sum_add_distrib, Finset.sum_ite_eq, if_pos ha]
  have hsupport : (Function.support fun k => ((l.filter (key · == k)).map f).sum) ⊆
      ((l.map key).toFinset : Set κ) := by
    intro k hk
    by_contra hnone
    refine hk ?_
    have hempty : l.filter (key · == k) = [] := by
      refine List.filter_eq_nil_iff.mpr fun a ha hka => hnone ?_
      simpa using ⟨a, ha, beq_iff_eq.mp hka⟩
    dsimp only
    rw [hempty]
    rfl
  rw [finsum_eq_sum_of_support_subset _ hsupport]
  exact hgroups _ fun a ha => List.mem_toFinset.mpr (List.mem_map_of_mem ha)

/-- The listings of all owners share the live files among them. -/
theorem sum_listFiles (d : Database) (f : FileWithLatestVersion → Nat) :
    ∑ᶠ owner, ((FileService.listFiles d owner).map f).sum =
      ((d.files.filter (!·.isDeleted)).map fun file => f ⟨file, d.latestVersion file.id⟩).sum := by
  rw [sum_groups FileRecord.ownerId]
  refine finsum_congr fun owner => ?_
  have hperm : (d.listFilesByOwner owner).Perm
      ((d.files.filter (!·.isDeleted)).filter (·.ownerId == owner)) := by
    rw [List.filter_filter]
    exact List.perm_insertionSort _ _
  rw [FileService.listFiles, FileService.withLatestVersions, List.map_map]
  exact (hperm.map _).sum_nat

namespace Database

/-- The size of a version is that of its chunks, added up as Numbers. -/
def Sized (d : Database) : Prop := ∀ v ∈ d.versions,
  v.sizeBytes = sumNumbers ((d.chunks.filter (·.fileVersionId == v.id)).map ChunkRecord.sizeBytes)

theorem Sized.commits {d d' : Database} {input : CreateVersionInput} {v : FileVersionRecord}
    {rows : List ChunkRecord} (h : d.Sized) (hcommit : Commits d d' input v rows) : d'.Sized := by
  have hsum : v.sizeBytes = sumNumbers (rows.map ChunkRecord.sizeBytes) := by
    have hinputs := congrArg (List.map ChunkInput.sizeBytes) hcommit.inputs
    rw [List.map_map] at hinputs
    rw [hcommit.size, FileService.totalSize, ← hinputs]
    rfl
  intro w hw
  rw [hcommit.versions] at hw
  rw [hcommit.chunks, List.filter_append]
  rcases List.mem_append.mp hw with hw | hw
  · -- the new rows are not of an old version
    have hnone : rows.filter (·.fileVersionId == w.id) = [] := by
      refine List.filter_eq_nil_iff.mpr fun c hc hcw => hcommit.id_new ?_
      rw [← hcommit.owned c hc, beq_iff_eq.mp hcw]
      exact List.mem_map_of_mem hw
    rw [hnone, List.append_nil]
    exact h w hw
  · -- the old rows are not of the new version
    obtain rfl := List.mem_singleton.mp hw
    have hnone : d.chunks.filter (·.fileVersionId == w.id) = [] := by
      refine List.filter_eq_nil_iff.mpr fun c hc hcw => hcommit.id_new ?_
      rw [← beq_iff_eq.mp hcw]
      exact d.chunks_version_fkey c hc
    have hall : rows.filter (·.fileVersionId == w.id) = rows :=
      List.filter_eq_self.mpr fun c hc => beq_iff_eq.mpr (hcommit.owned c hc)
    rw [hnone, hall, List.nil_append]
    exact hsum

theorem sized_run (fold : Char → Char) (history : List Request) :
    (finalState (FileRouter.handle fold) .empty history).Sized := by
  refine finalState_invariant Database.Sized (fun d r _ h => ?_)
    (guarded_of_forall fun _ _ => trivial) fun v hv => by cases hv
  rcases FileRouter.handle_commits fold d r with ⟨hversions, hchunks⟩ | ⟨input, v, rows, -, -, hcommit⟩
  · rw [Sized, hversions, hchunks]
    exact h
  · exact h.commits hcommit

/-- The chunks that are read back for a version that is there, if their sum is exact. -/
theorem sum_listChunks {d : Database} (h : d.Sized) {v : FileVersionRecord} (hv : v ∈ d.versions)
    (hsafe : ((d.listChunks v.id).map ChunkRecord.sizeBytes).sum ≤ maxSafeInteger) :
    v.sizeBytes = ((d.listChunks v.id).map ChunkRecord.sizeBytes).sum := by
  have hperm := (List.perm_insertionSort (fun a b : ChunkRecord => a.chunkIndex ≤ b.chunkIndex)
    (d.chunks.filter (·.fileVersionId == v.id))).map ChunkRecord.sizeBytes
  have hsum : ((d.listChunks v.id).map ChunkRecord.sizeBytes).sum =
      ((d.chunks.filter (·.fileVersionId == v.id)).map ChunkRecord.sizeBytes).sum := hperm.sum_nat
  rw [hsum] at hsafe ⊢
  rw [h v hv, sumNumbers_of_safe hsafe]

end Database

theorem mem_listFiles {d : Database} {owner : Uuid} {entry : FileWithLatestVersion} :
    entry ∈ FileService.listFiles d owner ↔ (entry.file ∈ d.files ∧ entry.file.ownerId = owner ∧
      entry.file.isDeleted = false) ∧ entry.latestVersion = d.latestVersion entry.file.id := by
  have hfile : ∀ file, file ∈ d.listFilesByOwner owner ↔
      file ∈ d.files ∧ file.ownerId = owner ∧ file.isDeleted = false := by
    intro file
    rw [Database.listFilesByOwner, orderByDesc, List.mem_insertionSort]
    simp [List.mem_filter]
  rw [FileService.listFiles, FileService.withLatestVersions, List.mem_map]
  constructor
  · rintro ⟨file, hmem, rfl⟩
    exact ⟨(hfile file).mp hmem, rfl⟩
  · rintro ⟨hmem, hlatest⟩
    exact ⟨entry.file, (hfile _).mpr hmem, by rw [← hlatest]⟩

/-- The version that is listed with a file can be read, and is as large as its chunks, if their sum
is exact. -/
theorem getVersion_listed {d : Database} (h : d.Sized) {owner : Uuid} {entry : FileWithLatestVersion}
    (hentry : entry ∈ FileService.listFiles d owner) {v : FileVersionRecord}
    (hv : entry.latestVersion = some v) :
    ∃ chunks, FileService.getVersion d owner (uuidOut entry.file.id) v.versionNumber =
        .ok ⟨v, chunks⟩ ∧ ((chunks.map ChunkRecord.sizeBytes).sum ≤ maxSafeInteger →
          v.sizeBytes = (chunks.map ChunkRecord.sizeBytes).sum) := by
  obtain ⟨⟨hfile, howner, hlive⟩, hlatest⟩ := mem_listFiles.mp hentry
  obtain ⟨⟨hmem, hfileId⟩, -⟩ := Database.latestVersion_eq_some.mp (hlatest ▸ hv)
  have howned : FileService.getOwnedFile d owner (uuidOut entry.file.id) = .ok entry.file :=
    FileService.getOwnedFile_ok.mpr ⟨hfile, uuidIn_uuidOut _, hlive, howner⟩
  have hfind : d.findVersion entry.file.id v.versionNumber = .ok (some v) :=
    Database.findVersion_eq_some.mpr ⟨hmem, hfileId, rfl⟩
  refine ⟨d.listChunks v.id, ?_, Database.sum_listChunks h hmem⟩
  rw [FileService.getVersion, howned]
  dsimp only
  rw [hfind]

/-- The size that a file is listed with, or 0 without a version. -/
def FileWithLatestVersion.sizeBytes (entry : FileWithLatestVersion) : Nat :=
  (entry.latestVersion.map FileVersionRecord.sizeBytes).getD 0

/-- The totals are the sums over all owners of what each of them is shown, and a version is as
large as the chunks that are read back for it, as long as the sums are exact in Numbers. -/
theorem totals_agree (fold : Char → Char) (history : List Request) :
    let d := finalState (FileRouter.handle fold) .empty history
    let listed := ∑ᶠ owner,
      ((FileService.listFiles d owner).map FileWithLatestVersion.sizeBytes).sum
    d.getSystemStats.totalFiles = ∑ᶠ owner, (FileService.listFiles d owner).length ∧
    (listed ≤ maxSafeInteger → d.getSystemStats.totalBytes = listed) ∧
    ∀ owner, ∀ entry ∈ FileService.listFiles d owner, ∀ v, entry.latestVersion = some v →
      ∃ chunks, FileService.getVersion d owner (uuidOut entry.file.id) v.versionNumber =
          .ok ⟨v, chunks⟩ ∧ ((chunks.map ChunkRecord.sizeBytes).sum ≤ maxSafeInteger →
            v.sizeBytes = (chunks.map ChunkRecord.sizeBytes).sum) := by
  intro d listed
  have hsized : d.Sized := Database.sized_run fold history
  refine ⟨?_, fun hsafe => ?_, ?_⟩
  · have hones : ∀ owner, (FileService.listFiles d owner).length =
        ((FileService.listFiles d owner).map fun _ => 1).sum := by simp
    rw [finsum_congr hones, sum_listFiles]
    simp [Database.getSystemStats, Database.exactStats]
  · have hlisted : listed = d.exactStats.totalBytes := by
      rw [show listed = _ from sum_listFiles d FileWithLatestVersion.sizeBytes]
      exact d.latestSizes_sum.symm
    rw [hlisted] at hsafe ⊢
    exact toNumber_of_safe hsafe
  · intro owner entry hentry v hv
    exact getVersion_listed hsized hentry hv

/-! One file of two chunks is registered, by owner 1. -/

def registerSizes (sizes : Nat × Nat) : Request :=
  ⟨1, sampleGenerated 1, .registerFile
    { fileName := "report.pdf", mimeType := "application/pdf", checksum := "d",
      chunks := [⟨0, sizes.1, "d", "chunks/d"⟩, ⟨1, sizes.2, "e", "chunks/e"⟩] }⟩

/-- The version that is read back, with its chunks. -/
def detailOfSizes (sizes : Nat × Nat) : VersionDetail :=
  ⟨⟨(sampleGenerated 1).version, (sampleGenerated 1).file, 1, sumNumbers [sizes.1, sizes.2],
    "application/pdf", "d", (sampleGenerated 1).now⟩,
    Database.chunkRows (sampleGenerated 1) (sampleGenerated 1).version 0
      [⟨0, sizes.1, "d", "chunks/d"⟩, ⟨1, sizes.2, "e", "chunks/e"⟩]⟩

/-- In Numbers, `2 ** 53 + 1` is `2 ** 53`. -/
theorem totals_rounded : ¬∀ (fold : Char → Char) (history : List Request),
    let d := finalState (FileRouter.handle fold) .empty history
    d.getSystemStats.totalFiles = ∑ᶠ owner, (FileService.listFiles d owner).length ∧
    d.getSystemStats.totalBytes = ∑ᶠ owner,
      ((FileService.listFiles d owner).map FileWithLatestVersion.sizeBytes).sum ∧
    ∀ owner, ∀ entry ∈ FileService.listFiles d owner, ∀ v, entry.latestVersion = some v →
      ∃ chunks, FileService.getVersion d owner (uuidOut entry.file.id) v.versionNumber =
        .ok ⟨v, chunks⟩ ∧ v.sizeBytes = (chunks.map ChunkRecord.sizeBytes).sum := by
  intro h
  obtain ⟨-, -, hsizes⟩ := h id [registerSizes (2 ^ 53, 1)]
  obtain ⟨chunks, hget, hsize⟩ := hsizes 1 _ List.mem_cons_self _ rfl
  have hread : FileService.getVersion
      (finalState (FileRouter.handle id) .empty [registerSizes (2 ^ 53, 1)]) 1
      (uuidOut (sampleGenerated 1).file) 1 = .ok (detailOfSizes (2 ^ 53, 1)) := rfl
  obtain ⟨-, rfl⟩ := VersionDetail.mk.inj (Except.ok.inj (hread.symm.trans hget))
  revert hsize
  decide

theorem totals_agree_sample :
    let d := finalState (FileRouter.handle id) .empty [registerSizes (4, 2)]
    d.getSystemStats.totalBytes = ∑ᶠ owner,
      ((FileService.listFiles d owner).map FileWithLatestVersion.sizeBytes).sum ∧
    (detailOfSizes (4, 2)).version.sizeBytes =
      ((detailOfSizes (4, 2)).chunks.map ChunkRecord.sizeBytes).sum := by
  intro d
  obtain ⟨-, hbytes, hsizes⟩ := totals_agree id [registerSizes (4, 2)]
  refine ⟨hbytes ?_, ?_⟩
  · rw [sum_listFiles]
    decide
  · obtain ⟨chunks, hget, hsize⟩ := hsizes 1 _ List.mem_cons_self _ rfl
    have hread : FileService.getVersion d 1 (uuidOut (sampleGenerated 1).file) 1 =
        .ok (detailOfSizes (4, 2)) := rfl
    obtain ⟨-, rfl⟩ := VersionDetail.mk.inj (Except.ok.inj (hread.symm.trans hget))
    exact hsize (by decide)

end IntelliStore.Metadata
