import IntelliStore.Library.Outcomes
import IntelliStore.Storage.DownloadService

/-! What a download returns, and from which rows and objects. -/

namespace IntelliStore.Metadata
open Postgres

theorem FileService.getFile_ok {d : Database} {ownerId : Uuid} {fileId : String} {f : FileRecord}
    (hf : getOwnedFile d ownerId fileId = .ok f) :
    getFile d ownerId fileId = .ok ⟨f, d.listVersions f.id⟩ := by
  simp only [getFile, hf]

theorem FileRouter.getVersion_eq_ok {d : Database} {ownerId : Uuid} {fileId : String} {n : Nat}
    {detail : VersionDetail} (h : getVersion d ownerId fileId n = .ok detail) :
    ∃ f v, FileService.getOwnedFile d ownerId fileId = .ok f ∧ v ∈ d.versions ∧
      v.fileId = f.id ∧ v.versionNumber = n ∧ detail = ⟨v, d.listChunks v.id⟩ := by
  unfold getVersion at h
  split_ifs at h
  unfold FileService.getVersion at h
  cases hf : FileService.getOwnedFile d ownerId fileId with
  | error e => simp only [hf, reduceCtorEq] at h
  | ok f =>
    simp only [hf] at h
    cases hv : d.findVersion f.id n with
    | error e => simp only [hv, reduceCtorEq] at h
    | ok found =>
      cases found with
      | none => simp only [hv, reduceCtorEq] at h
      | some v =>
        simp only [hv, Except.ok.injEq] at h
        obtain ⟨hmem, hfile, hnum⟩ := Database.findVersion_eq_some.mp hv
        exact ⟨f, v, rfl, hmem, hfile, hnum, h.symm⟩

theorem FileRouter.getVersion_ok {d : Database} {ownerId : Uuid} {fileId : String}
    {f : FileRecord} {v : FileVersionRecord}
    (hf : FileService.getOwnedFile d ownerId fileId = .ok f) (hv : v ∈ d.versions)
    (hfile : v.fileId = f.id) (hpos : 1 ≤ v.versionNumber) :
    getVersion d ownerId fileId v.versionNumber = .ok ⟨v, d.listChunks v.id⟩ := by
  have hfind : d.findVersion f.id v.versionNumber = .ok (some v) :=
    Database.findVersion_eq_some.mpr ⟨hv, hfile, rfl⟩
  simp only [getVersion, Nat.not_lt.mpr hpos, if_false, FileService.getVersion, hf, hfind]

end IntelliStore.Metadata

namespace IntelliStore.Storage
open Postgres Library Metadata

theorem HttpMetadataClient.request_ok {α : Type} {outcome : CallOutcome}
    {service : Database → Except ServiceError α × Database} {d : Database} {a : α}
    (h : (request outcome service d).1 = .ok a) : (service d).1 = .ok a := by
  cases outcome with
  | replied =>
    cases hs : (service d).1 with
    | error e => simp only [request, received, hs, Except.mapError, reduceCtorEq] at h
    | ok b =>
      simp only [request, received, hs, Except.mapError, Except.ok.injEq] at h
      rw [h]
  | refused e => cases h
  | unreachable => cases h
  | replyLost => cases h
  | unreadable => cases h

theorem HttpMetadataClient.request_eq_ok {α : Type} {outcome : CallOutcome}
    {service : Database → Except ServiceError α × Database} {d d' : Database} {a : α}
    (h : request outcome service d = (.ok a, d')) : service d = (.ok a, d') := by
  have hanswer := request_ok (congrArg Prod.fst h)
  rcases request_cases outcome service d with ⟨-, hreq⟩ | ⟨-, e, hreq⟩ | ⟨-, e, hreq⟩ <;>
    rw [hreq] at h
  · exact Prod.ext hanswer (Prod.mk.inj h).2
  · cases h
  · cases h

namespace DownloadService
variable {sha256 : Bytes → String} {g : Generated} {outcomes : Outcomes}

/-- The chunks are read one by one, in the order of their rows. -/
theorem combined_eq_ok {svc : DownloadService Bucket Database}
    {faults : Faults} (hsvc : svc.storageBackend = minioStorageBackend faults)
    {chunks : List ChunkRecord} {b : Bucket} {buffer : Bytes} :
    svc.combined chunks b = .ok buffer ↔
      ∃ parts, List.Forall₂ (fun c x => b.objects.lookup c.storageKey = some x) chunks parts ∧
        parts.flatten = buffer := by
  have hget : ∀ key x, svc.storageBackend.get key b = .ok x ↔ b.objects.lookup key = some x := by
    intro key x
    rw [hsvc]
    simp only [minioStorageBackend, MinioStorageBackend.get]
    cases b.objects.lookup key <;> simp
  rw [combined]
  cases hm : chunks.mapM fun chunk => svc.storageBackend.get chunk.storageKey b with
  | error e =>
    constructor
    · intro h
      cases h
    · rintro ⟨parts, hparts, -⟩
      simp only [← hget] at hparts
      rw [mapM_eq_ok.mpr hparts] at hm
      cases hm
  | ok parts =>
    have hparts := mapM_eq_ok.mp hm
    simp only [hget] at hparts
    constructor
    · intro h
      exact ⟨parts, hparts, Except.ok.inj h⟩
    · rintro ⟨parts', hparts', rfl⟩
      simp only [← hget] at hparts'
      rw [mapM_eq_ok.mpr hparts'] at hm
      rw [Except.ok.inj hm]

/-- A download changes neither the objects nor the rows. -/
theorem download_frame {σ μ : Type} (svc : DownloadService σ μ) (token : BearerToken)
    (fileId : String) (n : Option Nat) (now : Nat) (s : ServiceState σ μ) :
    (svc.download token fileId n now s).2.backend = s.backend ∧
      (svc.download token fileId n now s).2.metadata = s.metadata := by
  unfold download
  split
  · exact ⟨rfl, rfl⟩
  split
  · exact ⟨rfl, rfl⟩
  dsimp only
  split
  · exact ⟨rfl, rfl⟩
  split
  · exact ⟨rfl, rfl⟩
  split_ifs <;> exact ⟨rfl, rfl⟩

/-- A download of the version `v` by its number, or of the newest version `v`. -/
theorem download_eq {ownerId : Uuid} {fileId : String} {n : Option Nat} {now : Nat}
    {s : ServiceState Bucket Database} {f : FileRecord} {v : FileVersionRecord}
    (hf : FileService.getOwnedFile s.metadata ownerId fileId = .ok f) (hv : v ∈ s.metadata.versions)
    (hfile : v.fileId = f.id) (hpos : 1 ≤ v.versionNumber)
    (hn : n = some v.versionNumber ∨ n = none ∧
      ∀ w ∈ s.metadata.versions, w.fileId = f.id → w.versionNumber ≤ v.versionNumber) :
    (containerDownloadService sha256 g .replied).download ownerId fileId n now s =
      match (containerDownloadService sha256 g .replied).combined (s.metadata.listChunks v.id)
        s.backend with
      | .error e => (.error e, s)
      | .ok buffer =>
        if sha256 buffer ≠ v.checksum then
          (.error (.app (.integrityFailure "Reconstructed file failed checksum verification")), s)
        else (.ok ⟨buffer, f.fileName, v.mimeType, v.versionNumber⟩,
          { s with fileAccesses := s.fileAccesses ++
            [⟨fileId, f.ownerId, f.fileName, v.id, v.versionNumber, now⟩] }) := by
  have hmem : v ∈ s.metadata.listVersions f.id := Database.mem_listVersions.mpr ⟨hv, hfile⟩
  obtain ⟨newest, rest, hlist, hnum⟩ : ∃ newest rest,
      s.metadata.listVersions f.id = newest :: rest ∧
        n.getD newest.versionNumber = v.versionNumber := by
    rcases hn with rfl | ⟨rfl, hmax⟩
    · obtain ⟨newest, rest, hlist⟩ := List.exists_cons_of_ne_nil (List.ne_nil_of_mem hmem)
      exact ⟨newest, rest, hlist, rfl⟩
    · refine orderByDesc_head FileVersionRecord.versionNumber
        (List.mem_filter.mpr ⟨hv, beq_iff_eq.mpr hfile⟩) fun w hw => ?_
      obtain ⟨hw, hwf⟩ := List.mem_filter.mp hw
      exact hmax w hw (beq_iff_eq.mp hwf)
  have hdetail : (containerDownloadService sha256 g .replied).metadataClient.getFileDetail ownerId
      fileId s.metadata = .ok ⟨f, newest :: rest⟩ := by
    rw [← hlist]
    exact congrArg HttpMetadataClient.received (FileService.getFile_ok hf)
  have hversion : (containerDownloadService sha256 g .replied).metadataClient.getVersionDetail
      ownerId fileId v.versionNumber s.metadata = .ok ⟨v, s.metadata.listChunks v.id⟩ :=
    congrArg HttpMetadataClient.received (FileRouter.getVersion_ok hf hv hfile hpos)
  simp only [download, hdetail, hnum, hversion]
  rfl

/-- A download that succeeds returns the chunks of a version of a file of the caller, and
they have the version's checksum. -/
theorem download_ok {ownerId : Uuid} {fileId : String} {n : Option Nat} {now : Nat}
    {s : ServiceState Bucket Database} {res : DownloadResult}
    (h : ((containerDownloadService sha256 g outcomes).download ownerId fileId n now s).1 =
      .ok res) :
    ∃ f v, FileService.getOwnedFile s.metadata ownerId fileId = .ok f ∧
      v ∈ s.metadata.versions ∧ v.fileId = f.id ∧
      (containerDownloadService sha256 g outcomes).combined (s.metadata.listChunks v.id) s.backend =
        .ok res.buffer ∧ sha256 res.buffer = v.checksum := by
  unfold download at h
  cases hdetail : (containerDownloadService sha256 g outcomes).metadataClient.getFileDetail ownerId
      fileId s.metadata with
  | error e => simp only [hdetail, reduceCtorEq] at h
  | ok detail =>
    simp only [hdetail] at h
    cases hversions : detail.versions with
    | nil => simp only [hversions, reduceCtorEq] at h
    | cons newest rest =>
      simp only [hversions] at h
      cases hversion : (containerDownloadService sha256 g outcomes).metadataClient.getVersionDetail
          ownerId fileId (n.getD newest.versionNumber) s.metadata with
      | error e => simp only [hversion, reduceCtorEq] at h
      | ok vd =>
        simp only [hversion] at h
        obtain ⟨f, v, hf, hv, hfile, -, rfl⟩ :=
          FileRouter.getVersion_eq_ok (HttpMetadataClient.request_ok hversion)
        cases hcombined : (containerDownloadService sha256 g outcomes).combined
            (s.metadata.listChunks v.id) s.backend with
        | error e => simp only [hcombined, reduceCtorEq] at h
        | ok buffer =>
          simp only [hcombined] at h
          have hsha : (containerDownloadService sha256 g outcomes).sha256 buffer = v.checksum := by
            by_contra hne
            simp only [ne_eq, hne, not_false_eq_true, if_true, reduceCtorEq] at h
          simp only [hsha, ne_eq, not_true_eq_false, if_false, Except.ok.injEq] at h
          subst h
          exact ⟨f, v, hf, hv, hfile, hcombined, hsha⟩

end DownloadService
end IntelliStore.Storage
