import IntelliStore.Platform.Effects
import IntelliStore.Storage.DownloadSpec

/-! Where the bytes of a download come from. Metadata-service takes any storage key a user
registers, so a user downloads what it uploaded or what it knows the digests of. -/

namespace IntelliStore.Metadata
open Postgres

/-- What one request does to the versions: nothing, or it adds the one it registers to a file
of its owner. -/
theorem FileRouter.handle_versions (fold : Char → Char) (d : Database) (r : Request) :
    d.origins ⊆ (handle fold d r).2.origins ∧
      ((handle fold d r).2.versions = d.versions ∨
        ∃ input v fileName, r.call.registration = some input ∧
          (handle fold d r).2.versions = d.versions ++ [v] ∧ v.checksum = input.checksum ∧
          (v.fileId, r.ownerId, fileName) ∈ (handle fold d r).2.origins) := by
  obtain ⟨ownerId, g, call⟩ := r
  cases call with
  | registerFile input =>
    simp only [handle, postFile, validateBody]
    split_ifs
    · rcases FileService.registerFile_cases g ownerId input d with
        ⟨e, he⟩ | ⟨e, f, d₁, hf, he⟩ | ⟨f, d₁, v, rows, d₂, hf, hv, he⟩ <;> rw [he]
      · exact ⟨List.Subset.refl _, .inl rfl⟩
      · obtain ⟨-, -, hversions, -⟩ := Database.createFile_ok hf
        refine ⟨?_, .inl hversions⟩
        rw [Database.createFile_origins hf]
        exact List.subset_append_left _ _
      · have horigins : d₂.origins = d.origins ++ [(g.file, ownerId, input.fileName)] :=
          (Database.createVersion_origins hv).trans (Database.createFile_origins hf)
        obtain ⟨rfl, -, hversions, -⟩ := Database.createFile_ok hf
        obtain ⟨rfl, -, -, -, hversions', -⟩ := Database.createVersion_ok hv
        refine ⟨horigins ▸ List.subset_append_left _ _, .inr ⟨input.toCreateVersionInput, _,
          input.fileName, rfl, hversions ▸ hversions', rfl, ?_⟩⟩
        rw [horigins]
        exact List.mem_concat_self
    · exact ⟨List.Subset.refl _, .inl rfl⟩
  | addVersion fileId input =>
    simp only [handle, postVersion, validateBody]
    split_ifs
    · rcases FileService.addVersion_cases g ownerId fileId input d with
        ⟨e, he⟩ | ⟨f, v, rows, d₁, hf, hv, he⟩ <;> rw [he]
      · exact ⟨List.Subset.refl _, .inl rfl⟩
      · have horigins : d₁.origins = d.origins := Database.createVersion_origins hv
        obtain ⟨hmem, -, -, rfl⟩ := FileService.getOwnedFile_ok.mp hf
        obtain ⟨rfl, -, -, -, hversions, -⟩ := Database.createVersion_ok hv
        refine ⟨horigins ▸ List.Subset.refl _, .inr ⟨input, _, f.fileName, rfl, hversions, rfl, ?_⟩⟩
        rw [horigins]
        exact List.mem_map.mpr ⟨f, hmem, rfl⟩
    · exact ⟨List.Subset.refl _, .inl rfl⟩
  | deleteFile fileId =>
    simp only [handle, Metadata.handle]
    rcases FileService.deleteFile_cases g.now ownerId fileId d with ⟨e, he⟩ | ⟨f, -, he⟩ <;> rw [he]
    · exact ⟨List.Subset.refl _, .inl rfl⟩
    · exact ⟨(d.softDeleteFile_origins g.now f.id).symm ▸ List.Subset.refl _, .inl rfl⟩
  | _ => exact ⟨List.Subset.refl _, .inl rfl⟩

end IntelliStore.Metadata

namespace IntelliStore.Platform
open Postgres Library Metadata Storage
variable {sha256 : Bytes → String}

/-- `past` accounts for the objects of the bucket and for the versions of the tables. -/
structure Provenance (sha256 : Bytes → String) (past : List Op) (w : World) : Prop where
  objects : ∀ k x, w.backend.objects.lookup k = some x →
    ∃ u p, .upload u ∈ past ∧ p ∈ u.pieces sha256 ∧ p.data = x
  versions : ∀ v ∈ w.metadata.versions, ∃ owner fileName,
    (v.fileId, owner, fileName) ∈ w.metadata.origins ∧
      ((∃ u, .upload u ∈ past ∧ u.ownerId = owner ∧ v.checksum = sha256 u.buffer) ∨
        ∃ r input, .metadata r ∈ past ∧ r.ownerId = owner ∧ r.call.registration = some input ∧
          v.checksum = input.checksum)

namespace Provenance

theorem empty : Provenance sha256 [] .empty where
  objects := fun k x hx => by
    rw [show World.empty.backend.objects = ∅ from rfl, Finmap.lookup_empty] at hx
    cases hx
  versions := fun v hv => by cases hv

/-- More events, more objects and more versions, all accounted for. -/
theorem extend {past : List Op} {w w' : World} {op : Op} (h : Provenance sha256 past w)
    (hobjects : ∀ k x, w'.backend.objects.lookup k = some x →
      w.backend.objects.lookup k = some x ∨
        ∃ u p, op = .upload u ∧ p ∈ u.pieces sha256 ∧ p.data = x)
    (horigins : w.metadata.origins ⊆ w'.metadata.origins)
    (hversions : ∀ v ∈ w'.metadata.versions, v ∈ w.metadata.versions ∨ ∃ owner fileName,
      (v.fileId, owner, fileName) ∈ w'.metadata.origins ∧
        ((∃ u, op = .upload u ∧ u.ownerId = owner ∧ v.checksum = sha256 u.buffer) ∨
          ∃ r input, op = .metadata r ∧ r.ownerId = owner ∧ r.call.registration = some input ∧
            v.checksum = input.checksum)) : Provenance sha256 (past ++ [op]) w' where
  objects := by
    intro k x hx
    rcases hobjects k x hx with hx | ⟨u, p, rfl, hp, hdata⟩
    · obtain ⟨u, p, hu, hp, hdata⟩ := h.objects k x hx
      exact ⟨u, p, List.mem_append_left _ hu, hp, hdata⟩
    · exact ⟨u, p, List.mem_concat_self, hp, hdata⟩
  versions := by
    intro v hv
    rcases hversions v hv with hv | ⟨owner, fileName, horigin, hsource⟩
    · obtain ⟨owner, fileName, horigin, hsource⟩ := h.versions v hv
      refine ⟨owner, fileName, horigins horigin, ?_⟩
      rcases hsource with ⟨u, hu, hsource⟩ | ⟨r, input, hr, hsource⟩
      · exact .inl ⟨u, List.mem_append_left _ hu, hsource⟩
      · exact .inr ⟨r, input, List.mem_append_left _ hr, hsource⟩
    · refine ⟨owner, fileName, horigin, ?_⟩
      rcases hsource with ⟨u, rfl, hsource⟩ | ⟨r, input, rfl, hsource⟩
      · exact .inl ⟨u, List.mem_concat_self, hsource⟩
      · exact .inr ⟨r, input, List.mem_concat_self, hsource⟩

theorem upload {past : List Op} {w : World} (h : Provenance sha256 past w) (u : Upload) :
    Provenance sha256 (past ++ [.upload u]) (u.run sha256 w).2 := by
  rcases u.run_cases sha256 w with ⟨hadds, hobj, -⟩ | ⟨-, -, v, hcommits, hobj⟩
  · refine h.extend (fun k x hx => .inl (hobj ▸ hx)) hadds.origins.subset fun v hv => ?_
    rw [hadds.versions] at hv
    exact .inl hv
  · refine h.extend (fun k x hx => ?_) hcommits.origins.subset fun v' hv' => ?_
    · rcases hobj with ⟨-, hobj⟩ | ⟨-, hobj⟩ <;> rw [hobj] at hx
      · refine (ObjectStore.lookup_putAll_eq_some hx).imp_right fun hmem => ?_
        obtain ⟨p, hp, hpx⟩ := List.mem_map.mp hmem
        cases hpx
        exact ⟨u, p, rfl, hp, rfl⟩
      · exact .inl hx
    · rw [hcommits.versions, List.mem_append, List.mem_singleton] at hv'
      refine hv'.imp_right ?_
      rintro rfl
      obtain ⟨fileName, howner⟩ := hcommits.owner
      exact ⟨u.ownerId, fileName, howner, .inl ⟨u, rfl, rfl, hcommits.checksum⟩⟩

theorem step {past : List Op} {w : World} (fold : Char → Char) (h : Provenance sha256 past w)
    (op : Op) : Provenance sha256 (past ++ [op]) (step sha256 fold w op).2 := by
  cases op with
  | upload u => exact h.upload u
  | download q =>
    obtain ⟨hbackend, hmetadata⟩ := DownloadService.download_frame
      (containerDownloadService sha256 q.generated q.outcomes) q.ownerId q.fileId q.versionNumber
      q.now w
    refine h.extend (fun k x hx => .inl ?_) ?_ fun v hv => .inl ?_
    · exact hbackend ▸ hx
    · exact (congrArg Database.origins hmetadata).symm ▸ List.Subset.refl _
    · exact hmetadata ▸ hv
  | metadata r =>
    obtain ⟨horigins, hversions⟩ := FileRouter.handle_versions fold w.metadata r
    refine h.extend (fun k x hx => .inl hx) horigins fun v hv => ?_
    rcases hversions with hsame | ⟨input, v', fileName, hreg, hadd, hsum, howner⟩
    · exact .inl (hsame ▸ hv)
    · have hv' : v ∈ w.metadata.versions ++ [v'] := hadd ▸ hv
      rw [List.mem_append, List.mem_singleton] at hv'
      refine hv'.imp_right ?_
      rintro rfl
      exact ⟨r.ownerId, fileName, howner, .inr ⟨r, input, rfl, rfl, hreg, hsum⟩⟩

theorem run (sha256 : Bytes → String) (fold : Char → Char) (past : List Op) :
    Provenance sha256 past (finalState (Platform.step sha256 fold) .empty past) :=
  finalState_history (Provenance sha256) (fun _ _ op _ h => h.step fold op)
    (guarded_of_forall fun _ _ => trivial) empty

end Provenance

/-- A download returns bytes that its user uploaded, or bytes whose digest its user gave as
the checksum of a version it registered itself; these are then put together from chunks of
uploads. -/
theorem download_confined (fold : Char → Char) (past : List Op) (q : Download)
    (res : DownloadResult)
    (hdownload : (q.run sha256 (finalState (step sha256 fold) .empty past)).1 = .ok res)
    (hinj : Set.InjOn sha256 {x | x = res.buffer ∨ ∃ u, .upload u ∈ past ∧ x = u.buffer}) :
    (∃ u, .upload u ∈ past ∧ u.ownerId = q.ownerId ∧ u.buffer = res.buffer) ∨
      ∃ r input, .metadata r ∈ past ∧ r.ownerId = q.ownerId ∧
        r.call.registration = some input ∧ input.checksum = sha256 res.buffer ∧
        ∃ parts : List Bytes, parts.flatten = res.buffer ∧
          ∀ x ∈ parts, ∃ u p, .upload u ∈ past ∧ p ∈ u.pieces sha256 ∧ p.data = x := by
  have hprov := Provenance.run sha256 fold past
  obtain ⟨f, v, hf, hv, hfile, hcombined, hsum⟩ := DownloadService.download_ok hdownload
  obtain ⟨hmem, -, -, howner⟩ := FileService.getOwnedFile_ok.mp hf
  obtain ⟨owner, fileName, horigin, hsource⟩ := hprov.versions v hv
  have hsame : owner = q.ownerId :=
    (Database.eq_of_mem_origins hmem (hfile ▸ horigin)).1.trans howner
  rcases hsource with ⟨u, hu, huo, husum⟩ | ⟨r, input, hr, hro, hreg, hrsum⟩
  · refine .inl ⟨u, hu, huo.trans hsame, hinj ?_ ?_ (husum.symm.trans hsum.symm)⟩
    · exact .inr ⟨u, hu, rfl⟩
    · exact .inl rfl
  · refine .inr ⟨r, input, hr, hro.trans hsame, hreg, hrsum.symm.trans hsum.symm, ?_⟩
    obtain ⟨parts, hparts, hflat⟩ := (DownloadService.combined_eq_ok rfl).mp hcombined
    refine ⟨parts, hflat, fun x hx => ?_⟩
    obtain ⟨c, -, hlookup⟩ := exists_of_mem_right hparts hx
    exact hprov.objects _ x hlookup

/-! User 1 uploads a byte string. User 2, who knows its digest, registers a file of its own
on the same chunk and downloads it. -/

def victimUpload : Upload where
  ownerId := 1
  target := .newFile "secret.txt"
  mimeType := "text/plain"
  buffer := [1]
  chunkSizeBytes := singleByte
  generated := sampleGenerated 1
  outcomes := .replied

def foreignRegistration : Request where
  ownerId := 2
  generated := sampleGenerated 2
  call := .registerFile {
    fileName := "mine.txt"
    mimeType := "text/plain"
    checksum := sampleSha256 [1]
    chunks := [⟨0, 1, sampleSha256 [1], chunkKey (sampleSha256 [1])⟩] }

def sampleDownload (ownerId : BearerToken) (fileId : String) : Download where
  ownerId := ownerId
  fileId := fileId
  versionNumber := none
  now := 9
  generated := sampleGenerated 9
  outcomes := .replied

theorem foreign_bytes_downloaded :
    ((sampleDownload 2 "00000000-0000-0000-0000-000000000020").run sampleSha256
        (finalState (step sampleSha256 id) .empty
          [.upload victimUpload, .metadata foreignRegistration])).1 =
        .ok ⟨[1], "mine.txt", "text/plain", 1⟩ ∧
      ¬∃ u, .upload u ∈ [Op.upload victimUpload, .metadata foreignRegistration] ∧
        u.ownerId = 2 ∧ u.buffer = [1] := by
  refine ⟨by decide, ?_⟩
  rintro ⟨u, hu, howner, -⟩
  simp only [List.mem_cons, Op.upload.injEq, reduceCtorEq, List.not_mem_nil, or_false] at hu
  subst hu
  exact absurd howner (by decide)

theorem download_confined_own :
    (∃ u, .upload u ∈ [Op.upload victimUpload] ∧ u.ownerId = 1 ∧ u.buffer = [1]) ∨
      ∃ r input, .metadata r ∈ [Op.upload victimUpload] ∧ r.ownerId = 1 ∧
        r.call.registration = some input ∧ input.checksum = sampleSha256 [1] ∧
        ∃ parts : List Bytes, parts.flatten = [1] ∧ ∀ x ∈ parts, ∃ u p,
          .upload u ∈ [Op.upload victimUpload] ∧ p ∈ u.pieces sampleSha256 ∧ p.data = x := by
  refine download_confined id [.upload victimUpload]
    (sampleDownload 1 "00000000-0000-0000-0000-000000000010") ⟨[1], "secret.txt", "text/plain", 1⟩
    (by decide) ?_
  have hone : ∀ x ∈ {x : Bytes | x = [1] ∨
      ∃ u, .upload u ∈ [Op.upload victimUpload] ∧ x = u.buffer}, x = [1] := by
    rintro x (rfl | ⟨u, hu, rfl⟩)
    · rfl
    · simp only [List.mem_singleton, Op.upload.injEq] at hu
      rw [hu]
      rfl
  intro x hx y hy _
  rw [hone x hx, hone y hy]

end IntelliStore.Platform
