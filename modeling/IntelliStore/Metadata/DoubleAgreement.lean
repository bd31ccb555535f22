import IntelliStore.Library.Runs
import IntelliStore.Metadata.Bodies
import IntelliStore.Metadata.InMemorySpec
import IntelliStore.Metadata.Registrations

/-! The service over the tables and over the double, under the same calls with the same new ids.
Each side has its own clock, and results are compared without their timestamps. The double keeps
the strings themselves, which for well-formed texts are what the tables are sent. -/

namespace IntelliStore.Metadata
open Library Postgres

namespace Doubles

/-- A call of the service, with the time on the clock of the double. -/
inductive Event where
  | service (r : JsRequest) (clock : Nat)
  | getSystemStats

inductive Answer where
  | response (result : Except ServiceError Response)
  | stats (result : SystemStats)
  deriving DecidableEq

def Answer.untimed : Answer → Answer
  | .response result => .response (result.map Response.untimed)
  | .stats result => .stats result

structure State where
  tables : Database
  double : InMemory

def init : State := ⟨.empty, .empty⟩

/-- The answers over the tables and over the double. -/
def step (fold : Char → Char) (toLowerCase : String → List Char) (s : State) :
    Event → (Answer × Answer) × State
  | .service r clock =>
    let r' : Request := { r.sent with generated := { r.generated with now := clock } }
    let production := (pgFileRepository fold).handle s.tables r.sent
    let test := (inMemoryFileRepository toLowerCase).handle s.double r'
    ((.response production.1, .response test.1), ⟨production.2, test.2⟩)
  | .getSystemStats =>
    ((.stats ((pgFileRepository fold).getSystemStats s.tables),
      .stats ((inMemoryFileRepository toLowerCase).getSystemStats s.double)), s)

/-- The text of an id that a call has returned. -/
def Returned (d : Database) (text : String) : Prop := ∃ id ∈ d.ids, text = uuidOut id

/-- The input passes its schema, new ids are new, and ids come from earlier results. -/
def Valid (s : State) : Event → Prop
  | .service r _ => r.sent.newIds.Nodup ∧ (∀ id ∈ r.sent.newIds, id ∉ s.tables.ids) ∧
    match r.call with
    | .registerFile body => body.schema = true
    | .addVersion fileId body => Returned s.tables fileId ∧ body.schema = true
    | .getFile fileId => Returned s.tables fileId
    | .getVersion fileId _ => Returned s.tables fileId
    | .deleteFile fileId => Returned s.tables fileId
    | _ => True
  | .getSystemStats => True

/-- The version meets the types and the constraints of its tables. -/
structure Registrable (d : Database) (fileId : Uuid) (input : CreateVersionInput) : Prop where
  total : isInt8 (FileService.totalSize input.chunks) = true
  next : isInt4 (d.nextVersionNumber fileId) = true
  texts : isText input.mimeType = true ∧ isText input.checksum = true
  indices : (input.chunks.map ChunkInput.chunkIndex).Nodup
  chunks : ∀ c ∈ input.chunks, isInt4 c.chunkIndex = true ∧ isText c.checksum = true ∧
    isText c.storageKey = true

/-- Later files of the owner have later times, on both clocks. -/
def Ordered (s : State) (ownerId : Uuid) : Prop :=
  InOrder (liveFiles ownerId s.tables.files) ∧ InOrder (liveFiles ownerId s.double.files.values)

/-- What the double leaves out of the tables does not come into play. -/
def Covered (fold : Char → Char) (toLowerCase : String → List Char) (s : State) : Event → Prop
  | .service r _ => r.call.WellFormed ∧
    match r.sent.call with
    | .registerFile input => isText input.fileName = true ∧
      Registrable s.tables r.generated.file input.toCreateVersionInput
    | .addVersion fileId input => ∀ file,
      FileService.getOwnedFile s.tables r.ownerId fileId = .ok file →
        Registrable s.tables file.id input
    | .listFiles => Ordered s r.ownerId
    | .searchFiles query => utf16Length (trim query) ≠ 0 →
      isText (trim query) = true ∧ Ordered s r.ownerId ∧
        ∀ f ∈ liveFiles r.ownerId s.tables.files,
          ((trim query).toList.map fold <:+: f.fileName.toList.map fold ↔
            toLowerCase (trim query) <:+: toLowerCase f.fileName)
    | .getVersion fileId versionNumber => ∀ file,
      FileService.getOwnedFile s.tables r.ownerId fileId = .ok file → isInt4 versionNumber = true
    | _ => True
  | .getSystemStats => s.tables.exactStats.totalBytes ≤ maxSafeInteger ∧
    s.tables.exactStats.logicalChunkBytes ≤ maxSafeInteger ∧
    ∀ c ∈ s.tables.chunks, ∀ c' ∈ s.tables.chunks, c.storageKey = c'.storageKey →
      c.sizeBytes = c'.sizeBytes

/-! ### A version on both sides -/

variable {d d' : Database} {m : InMemory} {g : Generated} {fileId : Uuid}
  {input : CreateVersionInput}

theorem Registrable.committable (h : Registrable d fileId input) : input.Committable where
  total := h.total
  texts := h.texts
  indices := h.indices
  chunks := h.chunks

/-- The rows do not depend on the clock. -/
theorem chunkRows_clock (g : Generated) (clock : Nat) (versionId : Uuid) (i : Nat)
    (chunks : List ChunkInput) : Database.chunkRows { g with now := clock } versionId i chunks =
      Database.chunkRows g versionId i chunks := by
  induction chunks generalizing i with
  | nil => rfl
  | cons c cs ih => rw [Database.chunkRows, Database.chunkRows, ih]

theorem nextVersionNumber_eq (h : Mirrors d m) (fileId : Uuid) :
    d.nextVersionNumber fileId = (m.versionsOf fileId).length + 1 := by
  have hnumbers : ((d.versions.filter (·.fileId == fileId)).map FileVersionRecord.versionNumber) =
      List.range' 1 (m.versionsOf fileId).length := by
    rw [← h.numbers]
    have hmap := congrArg (List.map FileVersionRecord.versionNumber) (h.versions fileId)
    rw [List.map_map, List.map_map] at hmap
    exact hmap.symm
  have hmax : ∀ n, (List.range' 1 n).foldr max 0 = n := by
    intro n
    induction n with
    | zero => rfl
    | succ n ih =>
      rw [List.range'_1_concat, foldr_max_concat, ih]
      omega
  rw [Database.nextVersionNumber, hnumbers, hmax]

theorem touchFile_untimed (d : Database) (now : Nat) (id : Uuid) :
    (d.touchFile now id).files.map FileRecord.untimed = d.files.map FileRecord.untimed := by
  rw [Database.touchFile, Database.updateFile_files, List.map_map]
  refine List.map_congr_left fun f _ => ?_
  rw [Function.comp_apply]
  split_ifs <;> rfl

theorem createVersion (h : Mirrors d m) (hreg : Registrable d fileId input) (clock : Nat)
    (hfile : fileId ∈ d.files.map FileRecord.id)
    (hversion : g.version ∉ d.versions.map FileVersionRecord.id)
    (hnodup : ((List.range input.chunks.length).map g.chunk).Nodup)
    (hchunks : ∀ id ∈ (List.range input.chunks.length).map g.chunk,
      id ∉ d.chunks.map ChunkRecord.id) :
    ∃ v v' rows d' m',
      d.createVersion g fileId (FileService.totalSize input.chunks) input.mimeType input.checksum
        input.chunks = .ok ((v, rows), d') ∧
      m.createVersion { g with now := clock } fileId (FileService.totalSize input.chunks)
        input.mimeType input.checksum input.chunks = ((v', rows), m') ∧
      v'.untimed = v.untimed ∧ Mirrors d' m' := by
  obtain ⟨⟨⟨v, rows⟩, d'⟩, hcreate⟩ :=
    createVersion_isOk.mpr ((insertable_iff_committable hreg.next hfile hversion hnodup hchunks).mpr
      hreg.committable)
  obtain ⟨hv, hrows, hid, hfiles, hversions, hchunks'⟩ := Database.createVersion_ok hcreate
  have hnumber := nextVersionNumber_eq h fileId
  have hrows' : (Database.chunkRows { g with now := clock } g.version 0 input.chunks) = rows := by
    rw [hrows]
    exact chunkRows_clock g clock g.version 0 input.chunks
  subst hv
  let v' : FileVersionRecord := ⟨g.version, fileId, (m.versionsOf fileId).length + 1,
    FileService.totalSize input.chunks, input.mimeType, input.checksum, clock⟩
  have huntimed : v'.untimed = FileVersionRecord.untimed ⟨g.version, fileId,
      d.nextVersionNumber fileId, FileService.totalSize input.chunks, input.mimeType,
      input.checksum, g.now⟩ := by simp only [v', FileVersionRecord.untimed, hnumber]
  refine ⟨_, v', rows, d', _, hcreate, ?_, huntimed, h.pushVersion huntimed hnumber hfile hid ?_ ?_
    hversions hchunks'⟩
  · rw [InMemory.createVersion]
    dsimp only
    rw [hrows']
  · intro r hr
    rw [hrows] at hr
    exact Database.fileVersionId_of_mem_chunkRows hr
  · rw [hfiles, touchFile_untimed]

theorem createFile (h : Mirrors d m) (clock : Nat) (ownerId : Uuid) {fileName : String}
    (htext : isText fileName = true) (hnew : g.file ∉ d.files.map FileRecord.id) :
    ∃ f f' d' m', d.createFile g ownerId fileName = .ok (f, d') ∧
      m.createFile { g with now := clock } ownerId fileName = (f', m') ∧ f.id = g.file ∧
      f'.untimed = f.untimed ∧ d'.files = d.files ++ [f] ∧ d'.versions = d.versions ∧
      d'.chunks = d.chunks ∧ Mirrors d' m' := by
  have hinsert : ∃ d', d.insertFile ⟨g.file, ownerId, fileName, false, g.now, g.now⟩ = .ok d' := by
    unfold Database.insertFile
    rw [if_pos htext, dif_neg hnew]
    exact ⟨_, rfl⟩
  obtain ⟨d', hinsert⟩ := hinsert
  obtain ⟨hfiles, hversions, hchunks⟩ := Database.insertFile_ok hinsert
  refine ⟨⟨g.file, ownerId, fileName, false, g.now, g.now⟩,
    ⟨g.file, ownerId, fileName, false, clock, clock⟩, d', _, ?_, rfl, rfl, rfl, hfiles, hversions,
    hchunks, ?_⟩
  · rw [Database.createFile, hinsert]
    rfl
  · exact h.addFile (f := ⟨g.file, ownerId, fileName, false, g.now, g.now⟩) rfl hnew hfiles hversions
      hchunks

/-! ### One call on both sides -/

/-- Both sides answer alike, and the double goes on to hold what the tables hold. -/
def Agree (production : Except ServiceError Response × Database)
    (test : Except ServiceError Response × InMemory) : Prop :=
  production.1.map Response.untimed = test.1.map Response.untimed ∧ Mirrors production.2 test.2

section
variable {fold : Char → Char} {toLowerCase : String → List Char} {ownerId : Uuid} {clock : Nat}

theorem agree_registerFile {input : CreateFileInput} (h : Mirrors d m)
    (hnodup : (g.ids input.chunks.length).Nodup)
    (hnew : ∀ id ∈ g.ids input.chunks.length, id ∉ d.ids) (htext : isText input.fileName = true)
    (hreg : Registrable d g.file input.toCreateVersionInput) :
    Agree (handle fold d ⟨ownerId, g, .registerFile input⟩)
      ((inMemoryFileRepository toLowerCase).handle m
        ⟨ownerId, { g with now := clock }, .registerFile input⟩) := by
  obtain ⟨hfileId, hversionId, hchunkIds⟩ : g.file ∉ d.ids ∧ g.version ∉ d.ids ∧
      ∀ id ∈ (List.range input.chunks.length).map g.chunk, id ∉ d.ids := by
    simpa only [Generated.ids, List.forall_mem_cons] using hnew
  obtain ⟨f, f', d₁, m₁, hcreate, htest, hid, huntimed, hfiles, hversions, hchunks, h₁⟩ :=
    createFile h clock ownerId htext fun hmem => hfileId (.inl hmem)
  have hreg₁ : Registrable d₁ f.id input.toCreateVersionInput := by
    rw [hid]
    refine ⟨hreg.total, ?_, hreg.texts, hreg.indices, hreg.chunks⟩
    rw [Database.nextVersionNumber_congr hversions]
    exact hreg.next
  obtain ⟨v, v', rows, d₂, m₂, hversion, htest', huntimed', h₂⟩ :=
    createVersion (g := g) h₁ hreg₁ clock
      (by rw [hfiles]; exact List.mem_map_of_mem List.mem_concat_self)
      (by rw [hversions]; exact fun hmem => hversionId (.inr (.inl hmem)))
      (List.nodup_cons.mp (List.nodup_cons.mp hnodup).2).2
      (by rw [hchunks]; exact fun id hid hmem => hchunkIds id hid (.inr (.inr hmem)))
  have hid' : f'.id = f.id := (FileRecord.eq_of_untimed huntimed).1
  have hproduction : FileService.registerFile g ownerId input d = (.ok ⟨⟨v, rows⟩, f⟩, d₂) := by
    simp only [FileService.registerFile, hcreate, hversion]
  have htest : (inMemoryFileRepository toLowerCase).registerFile { g with now := clock } ownerId
      input m = (.ok ⟨⟨v', rows⟩, f'⟩, m₂) := by
    simp only [FileRepository.registerFile, inMemoryFileRepository, htest, hid', htest']
  refine ⟨?_, ?_⟩
  · simp only [handle, FileRepository.handle, hproduction, htest, Except.map, Response.untimed,
      VersionDetail.untimed, huntimed, huntimed']
  · simp only [handle, FileRepository.handle, hproduction, htest]
    exact h₂

theorem agree_addVersion (h : Mirrors d m) {id : Uuid}
    (hnodup : (g.ids input.chunks.length).Nodup)
    (hnew : ∀ id ∈ g.ids input.chunks.length, id ∉ d.ids)
    (hreg : ∀ file, FileService.getOwnedFile d ownerId (uuidOut id) = .ok file →
      Registrable d file.id input) :
    Agree (handle fold d ⟨ownerId, g, .addVersion (uuidOut id) input⟩)
      ((inMemoryFileRepository toLowerCase).handle m
        ⟨ownerId, { g with now := clock }, .addVersion (uuidOut id) input⟩) := by
  rcases h.getOwnedFile toLowerCase ownerId id with
    ⟨e, hrow, hdouble⟩ | ⟨f, f', hrow, hdouble, heq, hget⟩
  · simp only [Agree, handle, FileRepository.handle, FileService.addVersion,
      FileRepository.addVersion, hrow, hdouble]
    exact ⟨trivial, h⟩
  · have hfile := (FileService.getOwnedFile_ok.mp hrow).1
    have hid : f'.id = f.id := (FileRecord.eq_of_untimed heq).1
    obtain ⟨-, hversionId, hchunkIds⟩ : g.file ∉ d.ids ∧ g.version ∉ d.ids ∧
        ∀ id ∈ (List.range input.chunks.length).map g.chunk, id ∉ d.ids := by
      simpa only [Generated.ids, List.forall_mem_cons] using hnew
    obtain ⟨v, v', rows, d₁, m₁, hversion, htest, huntimed, h₁⟩ :=
      createVersion (g := g) h (hreg f hrow) clock (List.mem_map_of_mem hfile)
        (fun hmem => hversionId (.inr (.inl hmem)))
        (List.nodup_cons.mp (List.nodup_cons.mp hnodup).2).2
        (fun id hid hmem => hchunkIds id hid (.inr (.inr hmem)))
    have hproduction : FileService.addVersion g ownerId (uuidOut id) input d =
        (.ok ⟨v, rows⟩, d₁) := by
      simp only [FileService.addVersion, hrow, hversion]
    have htest : (inMemoryFileRepository toLowerCase).addVersion { g with now := clock } ownerId
        (uuidOut id) input m = (.ok ⟨v', rows⟩, m₁) := by
      simp only [FileRepository.addVersion, hdouble]
      simp only [inMemoryFileRepository, hid, htest]
    refine ⟨?_, ?_⟩
    · simp only [handle, FileRepository.handle, hproduction, htest, Except.map, Response.untimed,
        VersionDetail.untimed, huntimed]
    · simp only [handle, FileRepository.handle, hproduction, htest]
      exact h₁

theorem agree_listFiles (h : Mirrors d m) (horder : Ordered ⟨d, m⟩ ownerId) :
    Agree (handle fold d ⟨ownerId, g, .listFiles⟩) ((inMemoryFileRepository toLowerCase).handle m
      ⟨ownerId, { g with now := clock }, .listFiles⟩) := by
  have hlist := h.withLatestVersions fold toLowerCase (h.listFilesByOwner horder.1 horder.2)
  refine ⟨?_, h⟩
  simp only [handle, FileRepository.handle, FileService.listFiles, FileRepository.listFiles,
    Except.map, Response.untimed]
  exact congrArg (fun files => Except.ok (Response.fileList files)) hlist.symm

theorem agree_searchFiles (hfold : ∀ c ∈ ['\\', '%', '_'], ∀ c', fold c' = c ↔ c' = c)
    (h : Mirrors d m) {query : String}
    (hquery : utf16Length (trim query) ≠ 0 → isText (trim query) = true ∧
      Ordered ⟨d, m⟩ ownerId ∧ ∀ f ∈ liveFiles ownerId d.files,
        ((trim query).toList.map fold <:+: f.fileName.toList.map fold ↔
          toLowerCase (trim query) <:+: toLowerCase f.fileName)) :
    Agree (handle fold d ⟨ownerId, g, .searchFiles query⟩)
      ((inMemoryFileRepository toLowerCase).handle m
        ⟨ownerId, { g with now := clock }, .searchFiles query⟩) := by
  refine ⟨?_, h⟩
  simp only [handle, FileRepository.handle, FileService.searchFiles, FileRepository.searchFiles]
  split_ifs with hempty
  · rfl
  · obtain ⟨htext, horder, hcase⟩ := hquery hempty
    obtain ⟨files, hproduction, htest⟩ :=
      h.searchByOwner hfold htext horder.1 horder.2 hcase
    have hlist := h.withLatestVersions fold toLowerCase htest
    simp only [hproduction, inMemoryFileRepository, Except.map, Response.untimed]
    exact congrArg (fun files => Except.ok (Response.fileList files)) hlist.symm

theorem agree_getFile (h : Mirrors d m) (id : Uuid) :
    Agree (handle fold d ⟨ownerId, g, .getFile (uuidOut id)⟩)
      ((inMemoryFileRepository toLowerCase).handle m
        ⟨ownerId, { g with now := clock }, .getFile (uuidOut id)⟩) := by
  refine ⟨?_, h⟩
  simp only [handle, FileRepository.handle, FileService.getFile, FileRepository.getFile]
  rcases h.getOwnedFile toLowerCase ownerId id with
    ⟨e, hrow, hdouble⟩ | ⟨f, f', hrow, hdouble, heq, hget⟩
  · simp only [hrow, hdouble]
  · have hversions := h.listVersions f.id
    have hid : f'.id = f.id := (FileRecord.eq_of_untimed heq).1
    simp only [hrow, hdouble]
    simp only [Except.map, Response.untimed, FileDetail.untimed, heq, hid, inMemoryFileRepository,
      hversions]

theorem agree_getVersion (h : Mirrors d m) (id : Uuid) {versionNumber : Nat}
    (hint : ∀ file, FileService.getOwnedFile d ownerId (uuidOut id) = .ok file →
      isInt4 versionNumber = true) :
    Agree (handle fold d ⟨ownerId, g, .getVersion (uuidOut id) versionNumber⟩)
      ((inMemoryFileRepository toLowerCase).handle m
        ⟨ownerId, { g with now := clock }, .getVersion (uuidOut id) versionNumber⟩) := by
  refine ⟨?_, h⟩
  simp only [handle, FileRepository.handle, FileService.getVersion, FileRepository.getVersion]
  rcases h.getOwnedFile toLowerCase ownerId id with
    ⟨e, hrow, hdouble⟩ | ⟨f, f', hrow, hdouble, heq, hget⟩
  · simp only [hrow, hdouble]
  · have hfind := h.findVersion f.id versionNumber
    have hid : f'.id = f.id := (FileRecord.eq_of_untimed heq).1
    simp only [hrow, hdouble, Database.findVersion, hint f hrow, if_true]
    simp only [inMemoryFileRepository, hid]
    cases hrow' : d.versions.find? fun v => v.fileId == f.id && v.versionNumber == versionNumber with
    | none =>
      rw [hrow', Option.map_none, Option.map_eq_none_iff] at hfind
      rw [hfind]
    | some v =>
      rw [hrow', Option.map_some] at hfind
      obtain ⟨v', hv', huntimed⟩ := Option.map_eq_some_iff.mp hfind
      have hversion : v'.id = v.id := (FileVersionRecord.eq_of_untimed huntimed).1
      rw [hv']
      simp only [Except.map, Response.untimed, VersionDetail.untimed, huntimed, h.listChunks,
        hversion]

theorem agree_deleteFile (h : Mirrors d m) (id : Uuid) :
    Agree (handle fold d ⟨ownerId, g, .deleteFile (uuidOut id)⟩)
      ((inMemoryFileRepository toLowerCase).handle m
        ⟨ownerId, { g with now := clock }, .deleteFile (uuidOut id)⟩) := by
  rcases h.getOwnedFile toLowerCase ownerId id with
    ⟨e, hrow, hdouble⟩ | ⟨f, f', hrow, hdouble, heq, hget⟩
  · simp only [Agree, handle, FileRepository.handle, FileService.deleteFile,
      FileRepository.deleteFile, hrow, hdouble]
    exact ⟨trivial, h⟩
  · have hid : f'.id = f.id := (FileRecord.eq_of_untimed heq).1
    have hfile := (FileService.getOwnedFile_ok.mp hrow).2.1
    rw [uuidIn_uuidOut, Option.some_inj] at hfile
    have hdeleted := h.softDeleteFile (hfile ▸ hget) g.now
    simp only [Agree, handle, FileRepository.handle, FileService.deleteFile,
      FileRepository.deleteFile, hrow, hdouble]
    simp only [inMemoryFileRepository, hid]
    exact ⟨trivial, hdeleted⟩

end

/-! ### Runs -/

variable {fold : Char → Char} {toLowerCase : String → List Char}

theorem agree_handle (hfold : ∀ c ∈ ['\\', '%', '_'], ∀ c', fold c' = c ↔ c' = c) {s : State}
    {r : JsRequest} {clock : Nat} (h : Mirrors s.tables s.double)
    (hvalid : Valid s (.service r clock))
    (hcovered : Covered fold toLowerCase s (.service r clock)) :
    Agree (handle fold s.tables r.sent) ((inMemoryFileRepository toLowerCase).handle s.double
      { r.sent with generated := { r.generated with now := clock } }) := by
  obtain ⟨ownerId, g, call⟩ := r
  obtain ⟨hnodup, hnew, hinput⟩ := hvalid
  obtain ⟨-, hcovered⟩ := hcovered
  cases call with
  | registerFile body => exact agree_registerFile h hnodup hnew hcovered.1 hcovered.2
  | addVersion fileId body =>
    obtain ⟨⟨id, -, rfl⟩, -⟩ := hinput
    exact agree_addVersion h hnodup hnew hcovered
  | listFiles => exact agree_listFiles h hcovered
  | searchFiles query => exact agree_searchFiles hfold h hcovered
  | getFile fileId =>
    obtain ⟨id, -, rfl⟩ := hinput
    exact agree_getFile h id
  | getVersion fileId versionNumber =>
    obtain ⟨id, -, rfl⟩ := hinput
    exact agree_getVersion h id hcovered
  | deleteFile fileId =>
    obtain ⟨id, -, rfl⟩ := hinput
    exact agree_deleteFile h id

theorem step_agrees (hfold : ∀ c ∈ ['\\', '%', '_'], ∀ c', fold c' = c ↔ c' = c) {s : State}
    {e : Event} (h : Mirrors s.tables s.double) (hvalid : Valid s e)
    (hcovered : Covered fold toLowerCase s e) :
    (step fold toLowerCase s e).1.1.untimed = (step fold toLowerCase s e).1.2.untimed ∧
      Mirrors (step fold toLowerCase s e).2.tables (step fold toLowerCase s e).2.double := by
  cases e with
  | service r clock =>
    have hagree := agree_handle hfold h hvalid hcovered
    rw [← handle_pg] at hagree
    exact ⟨congrArg Answer.response hagree.1, hagree.2⟩
  | getSystemStats =>
    obtain ⟨htotal, hlogical, hkeys⟩ := hcovered
    exact ⟨congrArg Answer.stats (h.getSystemStats htotal hlogical hkeys).symm, h⟩

/-- On calls that do not bring out what the double leaves aside, both repositories give every
result alike. -/
theorem double_agrees (fold : Char → Char) (toLowerCase : String → List Char)
    (hfold : ∀ c ∈ ['\\', '%', '_'], ∀ c', fold c' = c ↔ c' = c) (es : List Event)
    (hvalid : Guarded (step fold toLowerCase) Valid init es)
    (hcovered : Guarded (step fold toLowerCase) (Covered fold toLowerCase) init es) :
    ∀ p ∈ answers (step fold toLowerCase) init es, p.2.1.untimed = p.2.2.untimed := by
  refine forall_answers (fun s => Mirrors s.tables s.double)
    (fun p : Event × Answer × Answer => p.2.1.untimed = p.2.2.untimed) (fun s e h hg => ?_)
    (hvalid.and hcovered fun s e hv hc => And.intro hv hc) Mirrors.empty
  exact step_agrees hfold h hg.1 hg.2

/-! A file of two chunks is registered and searched for; with one index for both chunks, the
tables refuse it. -/

def sampleFile (index : Nat) : CreateFileBody where
  mimeType := Json.units "application/pdf"
  checksum := Json.units "d"
  chunks := [⟨0, 4, Json.units "d", Json.units "chunks/d"⟩,
    ⟨index, 2, Json.units "e", Json.units "chunks/e"⟩]
  fileName := Json.units "report.pdf"

theorem wellFormed_sampleFile (index : Nat) : (sampleFile index).WellFormed := by
  refine ⟨Text.wellFormed_units _, Text.wellFormed_units _, Text.wellFormed_units _, ?_⟩
  exact List.forall_mem_cons.mpr ⟨⟨Text.wellFormed_units _, Text.wellFormed_units _⟩,
    List.forall_mem_singleton.mpr ⟨Text.wellFormed_units _, Text.wellFormed_units _⟩⟩

def registerSample (index : Nat) : Event :=
  .service ⟨1, sampleGenerated 1, .registerFile (sampleFile index)⟩ 7

theorem valid_registerSample (index : Nat) : Valid init (registerSample index) := by
  have hnodup : ((sampleGenerated 1).ids 2).Nodup := by decide
  refine ⟨hnodup, fun id _ hid => ?_, rfl⟩
  simp [init, Database.ids, Database.empty] at hid

theorem double_accepts_repeated_index : ¬∀ (fold : Char → Char) (toLowerCase : String → List Char),
    (∀ c ∈ ['\\', '%', '_'], ∀ c', fold c' = c ↔ c' = c) → ∀ es : List Event,
      Guarded (step fold toLowerCase) Valid init es →
        ∀ p ∈ answers (step fold toLowerCase) init es, p.2.1.untimed = p.2.2.untimed := by
  intro h
  have hagree := h id String.toList (fun _ _ _ => Iff.rfl) [registerSample 0]
    ⟨valid_registerSample 0, trivial⟩ _ List.mem_cons_self
  revert hagree
  decide

def searchSample : Event := .service ⟨1, sampleGenerated 2, .searchFiles (Json.units " port")⟩ 8

theorem double_agrees_sample :
    (answers (step id String.toList) init [registerSample 1, searchSample, .getSystemStats]).Forall
      fun p => p.2.1.untimed = p.2.2.untimed := by
  have hregister : Registrable .empty (sampleGenerated 1).file
      (sampleFile 1).sent.toCreateVersionInput := by
    refine ⟨by decide, by decide, by decide, by decide, ?_⟩
    decide
  have hsearch : isText (trim (Text.sent (Json.units " port"))) = true ∧
      Ordered (step id String.toList init (registerSample 1)).2 1 ∧
      ∀ f ∈ liveFiles 1 (step id String.toList init (registerSample 1)).2.tables.files,
        ((trim (Text.sent (Json.units " port"))).toList.map id <:+: f.fileName.toList.map id ↔
          (trim (Text.sent (Json.units " port"))).toList <:+: f.fileName.toList) := by
    refine ⟨by decide, ⟨by decide, by decide⟩, fun f _ => ?_⟩
    rw [List.map_id, List.map_id]
  have hids : ∀ i, i ∈ (step id String.toList init (registerSample 1)).2.tables.ids →
      i ∈ (sampleGenerated 1).ids 2 := by
    intro i hi
    have hhandled := handle_ids id .empty ⟨1, sampleGenerated 1, .registerFile (sampleFile 1).sent⟩
    rw [← handle_pg] at hhandled
    refine (hhandled hi).resolve_left fun hempty => ?_
    simp [Database.ids, Database.empty] at hempty
  apply List.forall_iff_forall_mem.mpr
  refine double_agrees id String.toList (fun _ _ _ => Iff.rfl) _
    ⟨valid_registerSample 1, ⟨by decide, ?_, trivial⟩, trivial, trivial⟩
    ⟨⟨wellFormed_sampleFile 1, by decide, hregister⟩, ⟨Text.wellFormed_units _, fun _ => hsearch⟩,
      ⟨by decide, by decide, by decide⟩, trivial⟩
  refine List.forall_mem_cons.mpr ⟨fun h => ?_, List.forall_mem_singleton.mpr fun h => ?_⟩
  · exact absurd (hids _ h) (by decide)
  · exact absurd (hids _ h) (by decide)

end Doubles
end IntelliStore.Metadata
