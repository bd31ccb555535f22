import IntelliStore.Platform.Run

/-! What an upload over a bucket without faults does to the bucket and to the tables. -/

namespace IntelliStore.Platform
open Postgres Library Metadata Storage
variable {sha256 : Bytes → String}

namespace Upload

/-! ### What metadata-service does with the registration -/

def AddsOrigin (u : Upload) (d d' : Database) : Prop :=
  d'.origins = d.origins ∨ ∃ fileName, u.target = .newFile fileName ∧
    d'.origins = d.origins ++ [(u.generated.file, u.ownerId, fileName)]

theorem AddsOrigin.subset {u : Upload} {d d' : Database} (h : u.AddsOrigin d d') :
    d.origins ⊆ d'.origins := by
  rcases h with h | ⟨fileName, -, h⟩ <;> rw [h]
  · exact List.Subset.refl _
  · exact List.subset_append_left _ _

/-- The tables gained no version; at most a file row was added. -/
structure AddsNoVersion (u : Upload) (d d' : Database) : Prop where
  origins : u.AddsOrigin d d'
  versions : d'.versions = d.versions
  chunks : d'.chunks = d.chunks

/-- The tables gained the version `v` of the upload, with its chunks. -/
structure Commits (sha256 : Bytes → String) (u : Upload) (d d' : Database)
    (v : FileVersionRecord) : Prop where
  versionId : v.id = u.generated.version
  versionNumber : 1 ≤ v.versionNumber
  mimeType : v.mimeType = u.mimeType
  checksum : v.checksum = sha256 u.buffer
  owner : ∃ fileName, (v.fileId, u.ownerId, fileName) ∈ d'.origins
  origins : u.AddsOrigin d d'
  fresh : v.id ∉ d.versions.map FileVersionRecord.id
  versions : d'.versions = d.versions ++ [v]
  chunks : d'.chunks = d.chunks ++
    Database.chunkRows u.generated v.id 0 (u.payload sha256).chunks

theorem AddsNoVersion.refl (u : Upload) (d : Database) : u.AddsNoVersion d d :=
  ⟨.inl rfl, rfl, rfl⟩

theorem addsNoVersion_of_createFile {u : Upload} {d d' : Database} {fileName : String}
    {f : FileRecord} (ht : u.target = .newFile fileName)
    (h : d.createFile u.generated u.ownerId fileName = .ok (f, d')) : u.AddsNoVersion d d' := by
  obtain ⟨-, -, hv, hc⟩ := Database.createFile_ok h
  exact ⟨.inr ⟨fileName, ht, Database.createFile_origins h⟩, hv, hc⟩

/-- The version transaction on a file of the owner, in tables `d₁` that gained no version yet. -/
theorem commits_of_createVersion {u : Upload} {d d₁ d' : Database} {f : FileRecord}
    {v : FileVersionRecord} {rows : List ChunkRecord} (hadds : u.AddsNoVersion d d₁)
    (hf : f ∈ d₁.files) (howner : f.ownerId = u.ownerId)
    (h : d₁.createVersion u.generated f.id (FileService.totalSize (u.payload sha256).chunks)
      (u.payload sha256).mimeType (u.payload sha256).checksum (u.payload sha256).chunks =
        .ok ((v, rows), d')) : u.Commits sha256 d d' v := by
  have horigins : d'.origins = d₁.origins := Database.createVersion_origins h
  obtain ⟨rfl, rfl, hid, -, hv, hc⟩ := Database.createVersion_ok h
  exact {
    versionId := rfl
    versionNumber := d₁.nextVersionNumber_pos f.id
    mimeType := rfl
    checksum := rfl
    owner := ⟨f.fileName, by rw [horigins, ← howner]; exact List.mem_map.mpr ⟨f, hf, rfl⟩⟩
    origins := by simpa only [AddsOrigin, horigins] using hadds.origins
    fresh := hadds.versions ▸ hid
    versions := hadds.versions ▸ hv
    chunks := hadds.chunks ▸ hc }

/-- It commits, or adds no more than a file row. -/
theorem served_cases (sha256 : Bytes → String) (u : Upload) (d : Database) :
    (∃ result d', u.served sha256 d = (.ok result, d') ∧ u.Commits sha256 d d' result.version) ∨
    (∃ e d', u.served sha256 d = (.error e, d') ∧ u.AddsNoVersion d d') := by
  cases ht : u.target with
  | newFile fileName =>
    by_cases hs : createFileSchema ⟨u.payload sha256, fileName⟩ = true
    · rcases FileService.registerFile_cases u.generated u.ownerId
        ⟨u.payload sha256, fileName⟩ d with
        ⟨e, he⟩ | ⟨e, f, d₁, hf, he⟩ | ⟨f, d₁, v, rows, d₂, hf, hv, he⟩ <;>
        simp only [served, ht, FileRouter.postFile, validateBody, hs, if_true, he, Except.map]
      · exact .inr ⟨e, d, rfl, .refl u d⟩
      · exact .inr ⟨e, d₁, rfl, addsNoVersion_of_createFile ht hf⟩
      · refine .inl ⟨⟨v, rows⟩, d₂, rfl, ?_⟩
        obtain ⟨rfl, hfiles, -, -⟩ := Database.createFile_ok hf
        refine commits_of_createVersion (addsNoVersion_of_createFile ht hf) ?_ rfl hv
        rw [hfiles]
        exact List.mem_concat_self
    · simp only [served, ht, FileRouter.postFile, validateBody, hs, Bool.false_eq_true, if_false,
        Except.map]
      exact .inr ⟨_, d, rfl, .refl u d⟩
  | newVersion fileId =>
    by_cases hs : createVersionSchema (u.payload sha256) = true
    · rcases FileService.addVersion_cases u.generated u.ownerId fileId (u.payload sha256) d with
        ⟨e, he⟩ | ⟨f, v, rows, d₁, hf, hv, he⟩ <;>
        simp only [served, ht, FileRouter.postVersion, validateBody, hs, if_true, he]
      · exact .inr ⟨e, d, rfl, .refl u d⟩
      · refine .inl ⟨⟨v, rows⟩, d₁, rfl, ?_⟩
        obtain ⟨hmem, -, -, howner⟩ := FileService.getOwnedFile_ok.mp hf
        exact commits_of_createVersion (.refl u d) hmem howner hv
    · simp only [served, ht, FileRouter.postVersion, validateBody, hs, Bool.false_eq_true, if_false]
      exact .inr ⟨_, d, rfl, .refl u d⟩

/-! ### What an upload does to the bucket and the tables -/

theorem register_eq (sha256 : Bytes → String) (u : Upload) (d : Database) :
    (u.service sha256).register u.ownerId u.target (u.payload sha256) d =
      HttpMetadataClient.request u.outcomes.registration (u.served sha256) d := by
  unfold UploadService.register served
  cases u.target with
  | newVersion fileId => rfl
  | newFile fileName =>
    simp only [service, containerUploadService, httpMetadataClient]
    cases u.outcomes.registration with
    | replied =>
      simp only [HttpMetadataClient.request]
      cases (FileRouter.postFile u.generated u.ownerId ⟨u.payload sha256, fileName⟩ d).1 <;> rfl
    | _ => rfl

/-- An upload that is not empty keeps what it wrote exactly if its registration is answered. -/
theorem run_register (sha256 : Bytes → String) {u : Upload} (hbuffer : u.buffer ≠ []) (w : World) :
    (∃ e d', HttpMetadataClient.request u.outcomes.registration (u.served sha256) w.metadata =
        (.error e, d') ∧ (u.run sha256 w).2.metadata = d' ∧
      (u.run sha256 w).2.backend.objects = w.backend.objects) ∨
    (∃ result d', HttpMetadataClient.request u.outcomes.registration (u.served sha256) w.metadata =
        (.ok result, d') ∧ (u.run sha256 w).2.metadata = d' ∧
      (u.run sha256 w).2.backend.objects =
        w.backend.objects.putAll (entries (u.pieces sha256))) := by
  obtain ⟨stored, b, hstored, hkeys, hpayload, hobj⟩ :=
    UploadService.storeChunks_ok (u.service sha256) rfl (fun _ => rfl) hbuffer u.mimeType
      w.backend fun _ _ => rfl
  have hback := UploadService.rollback (u.service sha256) rfl (fun _ => rfl) hobj
  have hpay : stored.payload = u.payload sha256 := hpayload
  rw [← register_eq, run]
  rcases UploadService.upload_cases (s := w) u.ownerId u.target hstored with
    ⟨e, m, hreg, hup⟩ | ⟨result, m, fileId, ownerId, fileName, hreg, hup⟩ |
    ⟨result, m, fileId, e, -, hreg, -, hup⟩ <;> rw [hup] <;> rw [hpay] at hreg
  · exact .inl ⟨e, m, hreg, rfl, by rw [hkeys]; exact hback⟩
  · exact .inr ⟨result, m, hreg, rfl, hobj⟩
  · exact .inr ⟨result, m, hreg, rfl, hobj⟩

/-- An upload leaves the bucket as it was unless its registration commits; and it leaves it
as it was, too, when the registration commits and its reply is lost. -/
theorem run_cases (sha256 : Bytes → String) (u : Upload) (w : World) :
    (u.AddsNoVersion w.metadata (u.run sha256 w).2.metadata ∧
      (u.run sha256 w).2.backend.objects = w.backend.objects ∧
      (u.buffer ≠ [] → u.outcomes.registration.ambiguous = true → ¬u.Accepted sha256 w.metadata)) ∨
    (u.buffer ≠ [] ∧ u.Accepted sha256 w.metadata ∧
      ∃ v, u.Commits sha256 w.metadata (u.run sha256 w).2.metadata v ∧
      ((u.outcomes.registration.ambiguous = false ∧ (u.run sha256 w).2.backend.objects =
          w.backend.objects.putAll (entries (u.pieces sha256))) ∨
        (u.outcomes.registration.ambiguous = true ∧
          (u.run sha256 w).2.backend.objects = w.backend.objects))) := by
  by_cases hbuffer : u.buffer = []
  · left
    have hstore := UploadService.storeChunks_empty (u.service sha256) u.mimeType w.backend
    rw [← hbuffer] at hstore
    rw [run, UploadService.upload_of_error hstore]
    exact ⟨.refl u _, rfl, fun h => absurd hbuffer h⟩
  have hrun := run_register sha256 hbuffer w
  have hserved := u.served_cases sha256 w.metadata
  -- the call is answered, is not handled, or is handled and its reply lost
  rcases HttpMetadataClient.request_cases u.outcomes.registration (u.served sha256) w.metadata with
    ⟨hout, hreq⟩ | ⟨hout, e, hreq⟩ | ⟨hout, e, hreq⟩
  · have hno : u.outcomes.registration.ambiguous = true → ¬u.Accepted sha256 w.metadata :=
      fun h => by rw [hout] at h; cases h
    rcases hserved with ⟨result, d', hs, hcommits⟩ | ⟨e, d', hs, hadds⟩
    · rcases hrun with ⟨e, d₁, h, -, -⟩ | ⟨r, d₁, h, hm, ho⟩ <;>
        rw [hreq, hs, HttpMetadataClient.received] at h <;> cases h
      have haccepted : u.Accepted sha256 w.metadata := ⟨result, congrArg Prod.fst hs⟩
      exact .inr ⟨hbuffer, haccepted, _, by rw [hm]; exact hcommits, .inl ⟨hout, ho⟩⟩
    · rcases hrun with ⟨e, d₁, h, hm, ho⟩ | ⟨r, d₁, h, -, -⟩ <;>
        rw [hreq, hs, HttpMetadataClient.received] at h <;> cases h
      exact .inl ⟨hm ▸ hadds, ho, fun _ => hno⟩
  · have hno : u.outcomes.registration.ambiguous = true → ¬u.Accepted sha256 w.metadata :=
      fun h => by rw [hout] at h; cases h
    rcases hrun with ⟨e, d₁, h, hm, ho⟩ | ⟨r, d₁, h, -, -⟩ <;> rw [hreq] at h <;> cases h
    exact .inl ⟨hm ▸ .refl u _, ho, fun _ => hno⟩
  · rcases hrun with ⟨e, d₁, h, hm, ho⟩ | ⟨r, d₁, h, -, -⟩ <;> rw [hreq] at h <;> cases h
    rcases hserved with ⟨result, d', hs, hcommits⟩ | ⟨e, d', hs, hadds⟩ <;> rw [hs] at hm
    · have haccepted : u.Accepted sha256 w.metadata := ⟨result, congrArg Prod.fst hs⟩
      exact .inr ⟨hbuffer, haccepted, _, by rw [hm]; exact hcommits, .inr ⟨hout, ho⟩⟩
    · refine .inl ⟨hm ▸ hadds, ho, fun _ _ ⟨result, hok⟩ => ?_⟩
      rw [hs] at hok
      cases hok

end Upload
end IntelliStore.Platform
