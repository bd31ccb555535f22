import IntelliStore.Metadata.Bodies
import IntelliStore.Metadata.Totals
import IntelliStore.Metadata.TransactionsSpec

/-! `registerFile` as a whole: its two commits, and the inputs for which the second one fails. -/

namespace IntelliStore.Metadata
open Library Postgres

/-- The version and its chunks meet the types and the constraints of their tables. -/
structure CreateVersionInput.Committable (input : CreateVersionInput) : Prop where
  total : isInt8 (FileService.totalSize input.chunks) = true
  texts : isText input.mimeType = true ∧ isText input.checksum = true
  indices : (input.chunks.map ChunkInput.chunkIndex).Nodup
  chunks : ∀ c ∈ input.chunks, isInt4 c.chunkIndex = true ∧ isText c.checksum = true ∧
    isText c.storageKey = true

/-! ### The version transaction -/

section
variable {d : Database} {g : Generated} {fileId : Uuid} {input : CreateVersionInput}

theorem createVersion_isOk {sizeBytes : Nat} {mimeType checksum : String} {chunks : List ChunkInput} :
    (∃ r, d.createVersion g fileId sizeBytes mimeType checksum chunks = .ok r) ↔
      d.Insertable ⟨g.version, fileId, d.nextVersionNumber fileId, sizeBytes, mimeType, checksum,
        g.now⟩ (Database.chunkRows g g.version 0 chunks) := by
  rw [← Database.view_isOk fun r hr => Database.fileVersionId_of_mem_chunkRows hr]
  unfold Database.createVersion Database.view
  dsimp only [bind, Except.bind, pure, Except.pure]
  cases d.insertVersion ⟨g.version, fileId, d.nextVersionNumber fileId, sizeBytes, mimeType, checksum,
      g.now⟩ with
  | error e => simp
  | ok d₁ =>
    dsimp only
    cases (Database.chunkRows g g.version 0 chunks).foldlM Database.insertChunk d₁ <;> simp

theorem mem_chunkRows_input {r : ChunkRecord} {chunks : List ChunkInput}
    (hr : r ∈ Database.chunkRows g g.version 0 chunks) : r.input ∈ chunks := by
  rw [← Database.chunkRows_map_input g g.version 0 chunks]
  exact List.mem_map_of_mem hr

/-- With new ids, only the input decides whether the rows can be inserted. -/
theorem insertable_iff_committable (hnext : isInt4 (d.nextVersionNumber fileId) = true)
    (hfile : fileId ∈ d.files.map FileRecord.id)
    (hversion : g.version ∉ d.versions.map FileVersionRecord.id)
    (hnodup : ((List.range input.chunks.length).map g.chunk).Nodup)
    (hchunks : ∀ id ∈ (List.range input.chunks.length).map g.chunk,
      id ∉ d.chunks.map ChunkRecord.id) :
    d.Insertable ⟨g.version, fileId, d.nextVersionNumber fileId,
      FileService.totalSize input.chunks, input.mimeType, input.checksum, g.now⟩
      (Database.chunkRows g g.version 0 input.chunks) ↔ input.Committable := by
  have hids : (Database.chunkRows g g.version 0 input.chunks).map ChunkRecord.id =
      (List.range input.chunks.length).map g.chunk := by
    rw [Database.chunkRows_map_id, ← List.range_eq_range']
  constructor
  · intro h
    obtain ⟨-, htotal, htexts⟩ := h.version.storable
    refine ⟨htotal, htexts, ?_, fun c hc => ?_⟩
    · rw [← Database.chunkRows_map_chunkIndex g g.version 0]
      exact h.indices
    · rw [← Database.chunkRows_map_input g g.version 0 input.chunks] at hc
      obtain ⟨r, hr, rfl⟩ := List.mem_map.mp hc
      obtain ⟨hindex, -, hrest⟩ := h.storable r hr
      exact ⟨hindex, hrest⟩
  · intro h
    constructor
    case version =>
      refine ⟨⟨hnext, h.total, h.texts⟩, hversion, fun hmem => ?_, hfile⟩
      obtain ⟨v, hv, heq⟩ := List.mem_map.mp hmem
      obtain ⟨rfl, hnumber⟩ := Prod.mk.injEq _ _ _ _ ▸ heq
      exact absurd hnumber (Nat.ne_of_lt (Database.lt_nextVersionNumber hv))
    case storable =>
      intro r hr
      have hinput := mem_chunkRows_input hr
      obtain ⟨hindex, htexts⟩ := h.chunks _ hinput
      exact ⟨hindex, FileService.isInt8_of_totalSize h.total hinput, htexts⟩
    case owned => exact fun r hr => Database.fileVersionId_of_mem_chunkRows hr
    case ids_new =>
      intro r hr
      apply hchunks
      rw [← hids]
      exact List.mem_map_of_mem hr
    case ids =>
      rw [hids]
      exact hnodup
    case indices =>
      rw [Database.chunkRows_map_chunkIndex]
      exact h.indices

end

/-! ### One registration -/

/-- One file is added, with version 1 and the given chunks. -/
structure Registers (d d' : Database) (ownerId : Uuid) (input : CreateFileInput)
    (r : RegisterFileResult) : Prop where
  files : d'.files = d.files ++ [r.file]
  file : r.file.ownerId = ownerId ∧ r.file.fileName = input.fileName ∧ r.file.isDeleted = false
  versions : d'.versions = d.versions ++ [r.version]
  version : r.version.fileId = r.file.id ∧ r.version.versionNumber = 1 ∧
    r.version.mimeType = input.mimeType ∧ r.version.checksum = input.checksum
  chunks : d'.chunks = d.chunks ++ r.chunks
  chunks_version : ∀ c ∈ r.chunks, c.fileVersionId = r.version.id
  inputs : r.chunks.map ChunkRecord.input = input.chunks

/-- All is registered as it is sent, and the chunk rows are the given ones, unit for unit; or the
call throws and the tables stay as they were. -/
def AllOrNothing (d : Database) (ownerId : Uuid) (body : CreateFileBody)
    (outcome : Except ServiceError RegisterFileResult × Database) : Prop :=
  (∃ r, outcome.1 = .ok r ∧ Registers d outcome.2 ownerId body.sent r ∧
    r.chunks.map ChunkRecord.body = body.chunks) ∨
    (∃ e, outcome.1 = .error e) ∧ outcome.2 = d

/-- The name is refused already, or the version can be committed. -/
def CreateFileInput.Decided (input : CreateFileInput) : Prop :=
  isText input.fileName = false ∨ input.toCreateVersionInput.Committable

/-- The name is refused already, or the version can be committed with the texts as they are. -/
def CreateFileBody.Decided (body : CreateFileBody) : Prop :=
  isText body.fileName.sent = false ∨
    body.sent.toCreateVersionInput.Committable ∧ ∀ c ∈ body.chunks, c.WellFormed

section
variable {d d₁ : Database} {g : Generated} {ownerId : Uuid} {input : CreateFileInput}
  {file : FileRecord}

theorem createFile_isOk (hnew : g.file ∉ d.files.map FileRecord.id) :
    (∃ r, d.createFile g ownerId input.fileName = .ok r) ↔ isText input.fileName = true := by
  rw [Database.createFile, Database.insertFile]
  by_cases htext : isText input.fileName = true
  · rw [if_pos htext, dif_neg hnew]
    exact iff_of_true ⟨_, rfl⟩ htext
  · rw [if_neg htext]
    refine iff_of_false ?_ htext
    rintro ⟨r, h⟩
    cases h

/-- Of a new file there is no version yet. -/
theorem nextVersionNumber_of_new (hnew : g.file ∉ d.files.map FileRecord.id)
    (hversions : d₁.versions = d.versions) : d₁.nextVersionNumber g.file = 1 := by
  have hnone : d.versions.filter (·.fileId == g.file) = [] := by
    refine List.filter_eq_nil_iff.mpr fun v hv hfile => hnew ?_
    rw [← beq_iff_eq.mp hfile]
    exact d.versions_file_fkey v hv
  rw [Database.nextVersionNumber_congr hversions, Database.nextVersionNumber, hnone]
  rfl

theorem createVersion_isOk_iff (hnodup : (g.ids input.chunks.length).Nodup)
    (hnew : ∀ id ∈ g.ids input.chunks.length, id ∉ d.ids)
    (hfile : d.createFile g ownerId input.fileName = .ok (file, d₁)) :
    (∃ r, d₁.createVersion g file.id (FileService.totalSize input.chunks) input.mimeType
      input.checksum input.chunks = .ok r) ↔ input.toCreateVersionInput.Committable := by
  obtain ⟨hfileId, hversionId, hchunkIds⟩ : g.file ∉ d.ids ∧ g.version ∉ d.ids ∧
      ∀ id ∈ (List.range input.chunks.length).map g.chunk, id ∉ d.ids := by
    simpa only [Generated.ids, List.forall_mem_cons] using hnew
  obtain ⟨rfl, hfiles, hversions, hchunks⟩ := Database.createFile_ok hfile
  have hnext : d₁.nextVersionNumber g.file = 1 :=
    nextVersionNumber_of_new (fun hmem => hfileId (.inl hmem)) hversions
  rw [createVersion_isOk]
  refine insertable_iff_committable (by rw [hnext]; decide) ?_ ?_
    (List.nodup_cons.mp (List.nodup_cons.mp hnodup).2).2 fun id hid => ?_
  · rw [hfiles]
    exact List.mem_map_of_mem List.mem_concat_self
  · rw [hversions]
    exact fun hmem => hversionId (.inr (.inl hmem))
  · rw [hchunks]
    exact fun hmem => hchunkIds id hid (.inr (.inr hmem))

theorem registers_of_ok {v : FileVersionRecord} {rows : List ChunkRecord} {d₂ : Database}
    (hnew : g.file ∉ d.files.map FileRecord.id)
    (hfile : d.createFile g ownerId input.fileName = .ok (file, d₁))
    (hversion : d₁.createVersion g file.id (FileService.totalSize input.chunks) input.mimeType
      input.checksum input.chunks = .ok ((v, rows), d₂)) :
    Registers d d₂ ownerId input ⟨⟨v, rows⟩, file⟩ := by
  obtain ⟨rfl, hfiles, hversions, hchunks⟩ := Database.createFile_ok hfile
  obtain ⟨rfl, rfl, -, hfiles', hversions', hchunks'⟩ := Database.createVersion_ok hversion
  constructor
  case files =>
    -- the update of the time touches the new row alone, and leaves it as it is
    have hold : d.files.map (fun r => if r.id = g.file then { r with updatedAt := g.now } else r) =
        d.files := by
      refine (List.map_congr_left fun r hr => if_neg fun heq => hnew ?_).trans (List.map_id _)
      exact heq ▸ List.mem_map_of_mem hr
    rw [hfiles', Database.touchFile, Database.updateFile_files, hfiles, List.map_append, hold]
    simp
  case file => exact ⟨rfl, rfl, rfl⟩
  case versions => rw [hversions', hversions]
  case version => exact ⟨rfl, nextVersionNumber_of_new hnew hversions, rfl, rfl⟩
  case chunks => rw [hchunks', hchunks]
  case chunks_version => exact fun c hc => Database.fileVersionId_of_mem_chunkRows hc
  case inputs => exact Database.chunkRows_map_input g g.version 0 input.chunks

/-- Nothing is written, or the file row alone, or all of the registration. -/
theorem registerFile_spec (ownerId : Uuid) (hnodup : (g.ids input.chunks.length).Nodup)
    (hnew : ∀ id ∈ g.ids input.chunks.length, id ∉ d.ids) :
    (isText input.fileName = false ∧ ∃ e, FileService.registerFile g ownerId input d = (.error e, d)) ∨
    (¬input.Decided ∧ ∃ e file d₁, d.createFile g ownerId input.fileName = .ok (file, d₁) ∧
      FileService.registerFile g ownerId input d = (.error e, d₁)) ∨
    (isText input.fileName = true ∧ input.toCreateVersionInput.Committable ∧
      ∃ r d₂, FileService.registerFile g ownerId input d = (.ok r, d₂) ∧
        Registers d d₂ ownerId input r) := by
  have hfileId : g.file ∉ d.files.map FileRecord.id :=
    fun hmem => hnew g.file List.mem_cons_self (.inl hmem)
  have hcreated : (∃ r, d.createFile g ownerId input.fileName = .ok r) ↔ isText input.fileName = true :=
    createFile_isOk hfileId
  unfold FileService.registerFile
  cases hfile : d.createFile g ownerId input.fileName with
  | error e =>
    have htext : ¬isText input.fileName = true := by
      rw [← hcreated, hfile]
      rintro ⟨r, h⟩
      cases h
    exact .inl ⟨Bool.eq_false_of_not_eq_true htext, _, rfl⟩
  | ok created =>
    obtain ⟨file, d₁⟩ := created
    have htext : isText input.fileName = true := hcreated.mp ⟨_, hfile⟩
    have hstored := createVersion_isOk_iff hnodup hnew hfile
    dsimp only
    cases hversion : d₁.createVersion g file.id (FileService.totalSize input.chunks) input.mimeType
        input.checksum input.chunks with
    | error e =>
      refine .inr (.inl ⟨?_, _, file, d₁, rfl, rfl⟩)
      rintro (hname | hcommittable)
      · rw [htext] at hname
        cases hname
      · obtain ⟨r, h⟩ := hstored.mpr hcommittable
        rw [hversion] at h
        cases h
    | ok result =>
      obtain ⟨⟨v, rows⟩, d₂⟩ := result
      exact .inr (.inr ⟨htext, hstored.mp ⟨_, hversion⟩, _, _, rfl,
        registers_of_ok hfileId hfile hversion⟩)

/-- The row of a new file is in the table. -/
theorem createFile_ne (hfile : d.createFile g ownerId input.fileName = .ok (file, d₁)) : d₁ ≠ d := by
  intro h
  have hfiles := (Database.createFile_ok hfile).2.1
  rw [h] at hfiles
  simp at hfiles

theorem registerFile_all_or_nothing_iff {body : CreateFileBody}
    (hnodup : (g.ids body.chunks.length).Nodup)
    (hnew : ∀ id ∈ g.ids body.chunks.length, id ∉ d.ids) :
    AllOrNothing d ownerId body (FileService.registerFile g ownerId body.sent d) ↔ body.Decided := by
  have hlength : body.sent.chunks.length = body.chunks.length := List.length_map _
  rw [← hlength] at hnodup hnew
  rcases registerFile_spec ownerId hnodup hnew with
    ⟨htext, e, hres⟩ | ⟨hundecided, e, file, d₁, hfile, hres⟩ | ⟨htext, hcommittable, r, d₂, hres, hreg⟩ <;>
    rw [hres]
  · exact iff_of_true (.inr ⟨⟨e, rfl⟩, rfl⟩) (.inl htext)
  · refine iff_of_false ?_ fun hdecided => hundecided (hdecided.imp_right And.left)
    rintro (⟨r, h, -⟩ | ⟨-, h⟩)
    · cases h
    · exact createFile_ne hfile h
  · have hrows := map_body_eq_iff hreg.inputs
    constructor
    · rintro (⟨r', h, -, hbodies⟩ | ⟨⟨e, h⟩, -⟩)
      · cases h
        exact .inr ⟨hcommittable, hrows.mp hbodies⟩
      · cases h
    · rintro (hname | ⟨-, hwell⟩)
      · exact absurd (htext.symm.trans hname) (by decide)
      · exact .inl ⟨r, rfl, hreg, hrows.mpr hwell⟩

end

/-! ### Runs -/

/-- Every live file has a version. -/
def Database.Versioned (d : Database) : Prop :=
  ∀ f ∈ d.files, f.isDeleted = false → ∃ v ∈ d.versions, v.fileId = f.id

theorem versioned_iff {d : Database} : d.Versioned ↔
    ∀ owner, ∀ entry ∈ FileService.listFiles d owner, ∃ v, entry.latestVersion = some v := by
  have hlatest : ∀ id, (∃ v, d.latestVersion id = some v) ↔ ∃ v ∈ d.versions, v.fileId = id := by
    intro id
    rw [← Option.isSome_iff_exists, Database.latestVersion, List.isSome_head?,
      ← List.length_pos_iff, List.length_pos_iff_exists_mem]
    exact exists_congr fun v => Database.mem_listVersions
  constructor
  · intro h owner entry hentry
    obtain ⟨⟨hfile, -, hlive⟩, hentry⟩ := mem_listFiles.mp hentry
    rw [hentry, hlatest]
    exact h _ hfile hlive
  · intro h f hf hlive
    have hentry : ⟨f, d.latestVersion f.id⟩ ∈ FileService.listFiles d f.ownerId :=
      mem_listFiles.mpr ⟨⟨hf, rfl, hlive⟩, rfl⟩
    exact (hlatest f.id).mp (h f.ownerId _ hentry)

/-- What a request registers, if its schema accepts it, is decided. -/
def Request.Decided (r : Request) : Prop :=
  ∀ input, r.call = .registerFile input → createFileSchema input = true → input.Decided

theorem Database.Versioned.updateFile {d : Database} (h : d.Versioned) {id : Uuid}
    {g : FileRecord → FileRecord} {hg : ∀ r, (g r).id = r.id}
    (hdeleted : ∀ r, r.isDeleted = true → (g r).isDeleted = true) :
    (d.updateFile id g hg).Versioned := by
  intro f hf hlive
  obtain ⟨r, hr, rfl⟩ := List.mem_map.mp hf
  have hid : (if r.id = id then g r else r).id = r.id := by
    split_ifs
    · exact hg r
    · rfl
  rw [hid]
  refine h r hr (Bool.eq_false_of_not_eq_true fun hr' => ?_)
  split_ifs at hlive
  · rw [hdeleted r hr'] at hlive
    cases hlive
  · rw [hr'] at hlive
    cases hlive

theorem versioned_of_versions {d d' : Database} (h : d.Versioned) (hfiles : d'.files = d.files)
    (hversions : d.versions ⊆ d'.versions) : d'.Versioned := by
  intro f hf hlive
  rw [hfiles] at hf
  obtain ⟨v, hv, hvf⟩ := h f hf hlive
  exact ⟨v, hversions hv, hvf⟩

/-- The file row that is left alone is the one that a listing shows without a version. -/
theorem versioned_registerFile {d : Database} {g : Generated} {ownerId : Uuid}
    {input : CreateFileInput} (h : d.Versioned) (hnodup : (g.ids input.chunks.length).Nodup)
    (hnew : ∀ id ∈ g.ids input.chunks.length, id ∉ d.ids) :
    (FileService.registerFile g ownerId input d).2.Versioned ↔ input.Decided := by
  rcases registerFile_spec ownerId hnodup hnew with
    ⟨htext, e, hres⟩ | ⟨hundecided, e, file, d₁, hfile, hres⟩ | ⟨-, hcommittable, r, d₂, hres, hreg⟩ <;>
    rw [hres]
  · exact iff_of_true h (.inl htext)
  · refine iff_of_false (fun hversioned => ?_) hundecided
    obtain ⟨rfl, hfiles, hversions, -⟩ := Database.createFile_ok hfile
    obtain ⟨v, hv, hvf⟩ := hversioned _ (hfiles ▸ List.mem_concat_self) rfl
    rw [hversions] at hv
    have hmem := d.versions_file_fkey v hv
    rw [hvf] at hmem
    exact absurd (.inl hmem) (hnew g.file List.mem_cons_self)
  · refine iff_of_true (fun f hf hlive => ?_) (.inr hcommittable)
    rw [hreg.files] at hf
    rw [hreg.versions]
    rcases List.mem_append.mp hf with hf | hf
    · obtain ⟨v, hv, hvf⟩ := h f hf hlive
      exact ⟨v, List.mem_append_left _ hv, hvf⟩
    · obtain rfl := List.mem_singleton.mp hf
      exact ⟨r.version, List.mem_concat_self, hreg.version.1⟩

theorem versioned_step (fold : Char → Char) {d : Database} {r : Request}
    (hfresh : r.newIds.Nodup ∧ ∀ id ∈ r.newIds, id ∉ d.ids) (h : d.Versioned) :
    (FileRouter.handle fold d r).2.Versioned ↔ r.Decided := by
  obtain ⟨ownerId, g, call⟩ := r
  cases call with
  | registerFile input =>
    have hdecided : Request.Decided ⟨ownerId, g, .registerFile input⟩ ↔
        (createFileSchema input = true → input.Decided) :=
      ⟨fun h => h input rfl, fun h input' heq => by cases heq; exact h⟩
    rw [hdecided]
    simp only [FileRouter.handle, FileRouter.postFile, validateBody]
    split_ifs with hschema
    · rw [forall_prop_of_true hschema]
      exact versioned_registerFile h hfresh.1 hfresh.2
    · exact iff_of_true h fun hs => absurd hs hschema
  | addVersion fileId input =>
    refine iff_of_true ?_ fun input' heq => by cases heq
    simp only [FileRouter.handle, FileRouter.postVersion, validateBody]
    split_ifs
    · rcases FileService.addVersion_cases g ownerId fileId input d with
        ⟨e, hres⟩ | ⟨file, v, rows, d₁, -, hversion, hres⟩ <;> rw [hres]
      · exact h
      · obtain ⟨-, -, -, hfiles, hversions, -⟩ := Database.createVersion_ok hversion
        have htouched : (d.touchFile g.now file.id).Versioned := h.updateFile fun _ hr => hr
        refine versioned_of_versions htouched hfiles ?_
        rw [hversions]
        exact List.subset_append_left _ _
    · exact h
  | deleteFile fileId =>
    refine iff_of_true ?_ fun input' heq => by cases heq
    simp only [FileRouter.handle, handle]
    rcases FileService.deleteFile_cases g.now ownerId fileId d with ⟨e, hres⟩ | ⟨file, -, hres⟩ <;>
      rw [hres]
    · exact h
    · have hmarked : (d.updateFile file.id (fun f => { f with isDeleted := true, updatedAt := g.now })
          fun _ => rfl).Versioned := h.updateFile fun _ _ => rfl
      exact hmarked
  | _ => exact iff_of_true h fun input' heq => by cases heq

theorem FileRouter.handle_ids (fold : Char → Char) (d : Database) (r : Request) :
    (FileRouter.handle fold d r).2.ids ⊆ d.ids ∪ {i | i ∈ r.newIds} := by
  obtain ⟨ownerId, g, call⟩ := r
  have hhandled := Metadata.handle_ids fold d ⟨ownerId, g, call⟩
  cases call with
  | registerFile input =>
    simp only [FileRouter.handle, FileRouter.postFile, validateBody]
    split_ifs
    · exact hhandled
    · exact Set.subset_union_left
  | addVersion fileId input =>
    simp only [FileRouter.handle, FileRouter.postVersion, validateBody]
    split_ifs
    · exact hhandled
    · exact Set.subset_union_left
  | _ => exact hhandled

/-- In every state, a registration is all or nothing exactly if it is decided; and in a run every
listed file has a version all along exactly if all its registrations are, whatever their texts. -/
theorem registerFile_all_or_nothing (fold : Char → Char) (history : List JsRequest)
    (hids : (history.flatMap fun r => r.sent.newIds).Nodup) (ownerId : Uuid) (g : Generated)
    (body : CreateFileBody) (hnodup : (g.ids body.chunks.length).Nodup)
    (hnew : ∀ id ∈ g.ids body.chunks.length,
      id ∉ (finalState (FileRouter.receive fold) .empty history).ids) :
    let d := finalState (FileRouter.receive fold) .empty history
    (AllOrNothing d ownerId body (FileService.registerFile g ownerId body.sent d) ↔ body.Decided) ∧
    ((∀ pre, pre <+: history → ∀ owner, ∀ entry ∈
        FileService.listFiles (finalState (FileRouter.receive fold) .empty pre) owner,
          ∃ v, entry.latestVersion = some v) ↔ ∀ r ∈ history, r.sent.Decided) := by
  refine ⟨registerFile_all_or_nothing_iff hnodup hnew, ?_⟩
  have hids' : ∀ (d : Database) (r : JsRequest),
      (FileRouter.receive fold d r).2.ids ⊆ d.ids ∪ {i | i ∈ r.sent.newIds} := by
    intro d r
    rw [FileRouter.receive_eq]
    exact FileRouter.handle_ids fold d r.sent
  have hfresh : Guarded (FileRouter.receive fold)
      (fun d r => r.sent.newIds.Nodup ∧ ∀ id ∈ r.sent.newIds, id ∉ d.ids) .empty history :=
    guarded_fresh Database.ids (fun r : JsRequest => r.sent.newIds) hids'
      (fun i _ hm => by simp [Database.ids, Database.empty] at hm) hids
  have hstep : ∀ (d : Database) (r : JsRequest),
      (r.sent.newIds.Nodup ∧ ∀ id ∈ r.sent.newIds, id ∉ d.ids) → d.Versioned →
        ((FileRouter.receive fold d r).2.Versioned ↔ r.sent.Decided) := by
    intro d r hnew h
    rw [FileRouter.receive_eq]
    exact versioned_step fold hnew h
  simp only [← versioned_iff]
  rw [← guarded_iff_forall, guarded_iff_forall_prefix Database.Versioned hstep hfresh
    fun f hf => by cases hf]

/-! A file of two chunks: with one index for both, the file row stays without a version. -/

def registerChunks (index : Nat) : CreateFileBody where
  fileName := Json.units "report.pdf"
  mimeType := Json.units "application/pdf"
  checksum := Json.units "c"
  chunks := [⟨0, 4, Json.units "c", Json.units "chunks/c"⟩,
    ⟨index, 2, Json.units "e", Json.units "chunks/e"⟩]

theorem repeated_index_leaves_file : ¬∀ (fold : Char → Char) (history : List JsRequest),
    (history.flatMap fun r => r.sent.newIds).Nodup → ∀ (ownerId : Uuid) (g : Generated)
      (body : CreateFileBody), body.schema = true →
        (g.ids body.chunks.length).Nodup → (∀ id ∈ g.ids body.chunks.length,
          id ∉ (finalState (FileRouter.receive fold) .empty history).ids) →
          AllOrNothing (finalState (FileRouter.receive fold) .empty history) ownerId body
            (FileService.registerFile g ownerId body.sent
              (finalState (FileRouter.receive fold) .empty history)) := by
  intro h
  have hnone : ∀ id ∈ (sampleGenerated 1).ids 2, id ∉ Database.empty.ids := by
    intro id _ hid
    simp [Database.ids, Database.empty] at hid
  have hatomic := h id [] List.nodup_nil 1 (sampleGenerated 1) (registerChunks 0) (by decide)
    (by decide) hnone
  rw [finalState_nil, registerFile_all_or_nothing_iff (by decide) hnone] at hatomic
  rcases hatomic with htext | ⟨hcommittable, -⟩
  · revert htext
    decide
  · exact absurd hcommittable.indices (by decide)

theorem registerFile_all_or_nothing_sample :
    AllOrNothing .empty 1 (registerChunks 1)
      (FileService.registerFile (sampleGenerated 1) 1 (registerChunks 1).sent .empty) := by
  have hcommittable : (registerChunks 1).Decided :=
    .inr ⟨⟨by decide, by decide, by decide, by decide⟩, by decide⟩
  refine (registerFile_all_or_nothing id [] List.nodup_nil 1 (sampleGenerated 1) (registerChunks 1)
    (by decide) ?_).1.mpr hcommittable
  intro id _ hid
  simp [Database.ids, Database.empty] at hid

end IntelliStore.Metadata
