import IntelliStore.Metadata.FileService

/-! What each repository method does to the tables, and the ids a call can add to them. -/

namespace IntelliStore.Metadata
open Postgres

/-- The keys of all rows, of all three tables. -/
def Database.ids (d : Database) : Set Uuid :=
  {i | i ∈ d.files.map FileRecord.id ∨ i ∈ d.versions.map FileVersionRecord.id ∨
    i ∈ d.chunks.map ChunkRecord.id}

/-- The ids generated for a call that registers `n` chunks. -/
def Generated.ids (g : Generated) (n : Nat) : List Uuid :=
  g.file :: g.version :: (List.range n).map g.chunk

def Call.chunkCount : Call → Nat
  | .registerFile input => input.chunks.length
  | .addVersion _ input => input.chunks.length
  | _ => 0

def Request.newIds (r : Request) : List Uuid := r.generated.ids r.call.chunkCount

/-- What no update of a file row changes. -/
def FileRecord.origin (f : FileRecord) : Uuid × Uuid × String := (f.id, f.ownerId, f.fileName)

/-- What the row of a chunk was inserted from. -/
def ChunkRecord.input (c : ChunkRecord) : ChunkInput :=
  ⟨c.chunkIndex, c.sizeBytes, c.checksum, c.storageKey⟩

def Database.origins (d : Database) : List (Uuid × Uuid × String) :=
  d.files.map FileRecord.origin

theorem orderByDesc_pairwise {α : Type*} (key : α → Nat) (rows : List α) :
    (orderByDesc key rows).Pairwise fun a b => key b ≤ key a := by
  have : Std.Total fun a b : α => key b ≤ key a := ⟨fun a b => le_total (key b) (key a)⟩
  have : IsTrans α fun a b => key b ≤ key a := ⟨fun _ _ _ hab hbc => hbc.trans hab⟩
  exact List.pairwise_insertionSort _ rows

/-- The first row of a descending order has the greatest key. -/
theorem orderByDesc_head {α : Type*} (key : α → Nat) {rows : List α} {a : α} (ha : a ∈ rows)
    (hmax : ∀ b ∈ rows, key b ≤ key a) :
    ∃ first rest, orderByDesc key rows = first :: rest ∧ key first = key a := by
  have hmem : ∀ b, b ∈ orderByDesc key rows ↔ b ∈ rows := fun b => List.mem_insertionSort _
  have hsorted := orderByDesc_pairwise key rows
  -- the order of equal keys is not needed: the first key bounds `key a` and is bounded by it
  cases hs : orderByDesc key rows with
  | nil =>
    rw [← hmem, hs] at ha
    cases ha
  | cons first rest =>
    rw [hs] at hmem hsorted
    refine ⟨first, rest, rfl, le_antisymm (hmax first ((hmem first).mp List.mem_cons_self)) ?_⟩
    rcases List.mem_cons.mp ((hmem a).mpr ha) with rfl | hrest
    · exact le_rfl
    · exact List.rel_of_pairwise_cons hsorted hrest

namespace Database

theorem mem_listVersions {d : Database} {fileId : Uuid} {v : FileVersionRecord} :
    v ∈ d.listVersions fileId ↔ v ∈ d.versions ∧ v.fileId = fileId := by
  rw [listVersions, orderByDesc, List.mem_insertionSort, List.mem_filter, beq_iff_eq]

theorem mem_listChunks {d : Database} {versionId : Uuid} {c : ChunkRecord} :
    c ∈ d.listChunks versionId ↔ c ∈ d.chunks ∧ c.fileVersionId = versionId := by
  rw [listChunks, orderByAsc, List.mem_insertionSort, List.mem_filter, beq_iff_eq]

@[simp] theorem updateFile_files (d : Database) (id : Uuid) (g : FileRecord → FileRecord)
    (hg : ∀ r, (g r).id = r.id) :
    (d.updateFile id g hg).files = d.files.map fun r => if r.id = id then g r else r := rfl

@[simp] theorem updateFile_ids (d : Database) (id : Uuid) (g : FileRecord → FileRecord)
    (hg : ∀ r, (g r).id = r.id) :
    (d.updateFile id g hg).files.map FileRecord.id = d.files.map FileRecord.id :=
  Library.map_update hg _ d.files

theorem updateFile_of_notMem {d : Database} {id : Uuid} {g : FileRecord → FileRecord}
    {hg : ∀ r, (g r).id = r.id} (h : id ∉ d.files.map FileRecord.id) :
    d.updateFile id g hg = d := by
  refine Database.ext ?_ rfl rfl
  refine (List.map_congr_left fun r hr => if_neg fun he => h ?_).trans (List.map_id _)
  exact List.mem_map.mpr ⟨r, hr, he⟩

theorem updateFile_origins {d : Database} {id : Uuid} {g : FileRecord → FileRecord}
    {hg : ∀ r, (g r).id = r.id} (horigin : ∀ r, (g r).origin = r.origin) :
    (d.updateFile id g hg).origins = d.origins := by
  rw [origins, updateFile_files, List.map_map]
  refine List.map_congr_left fun r _ => ?_
  by_cases he : r.id = id
  · simp only [Function.comp_apply, he, if_true, horigin]
  · simp only [Function.comp_apply, he, if_false]

theorem softDeleteFile_origins (d : Database) (now : Nat) (id : Uuid) :
    (d.softDeleteFile now id).origins = d.origins := updateFile_origins fun _ => rfl

theorem touchFile_origins (d : Database) (now : Nat) (id : Uuid) :
    (d.touchFile now id).origins = d.origins := updateFile_origins fun _ => rfl

theorem nextVersionNumber_pos (d : Database) (fileId : Uuid) : 1 ≤ d.nextVersionNumber fileId :=
  Nat.le_add_left 1 _

theorem findFileById_eq_some {d : Database} {id : Uuid} {f : FileRecord} :
    d.findFileById id = some f ↔ f ∈ d.files ∧ f.id = id ∧ f.isDeleted = false := by
  unfold findFileById
  constructor
  · intro h
    have hp := List.find?_some h
    simp only [Bool.and_eq_true, beq_iff_eq, Bool.not_eq_eq_eq_not, Bool.not_true] at hp
    exact ⟨List.mem_of_find?_eq_some h, hp⟩
  · rintro ⟨hf, rfl, hdel⟩
    cases h : d.files.find? fun r => r.id == f.id && !r.isDeleted with
    | none =>
      have := List.find?_eq_none.mp h f hf
      simp [hdel] at this
    | some r =>
      have hp := List.find?_some h
      simp only [Bool.and_eq_true, beq_iff_eq] at hp
      rw [d.file_unique (List.mem_of_find?_eq_some h) hf hp.1]

theorem findFileById_eq_none {d : Database} {id : Uuid} :
    d.findFileById id = none ↔ ∀ f ∈ d.files, f.id = id → f.isDeleted = true := by
  simp [findFileById, List.find?_eq_none]

theorem findVersion_eq_some {d : Database} {fileId : Uuid} {n : Nat} {v : FileVersionRecord} :
    d.findVersion fileId n = .ok (some v) ↔
      v ∈ d.versions ∧ v.fileId = fileId ∧ v.versionNumber = n := by
  unfold findVersion
  constructor
  · intro h
    split_ifs at h
    rw [Except.ok.injEq] at h
    have hp := List.find?_some h
    simp only [Bool.and_eq_true, beq_iff_eq] at hp
    exact ⟨List.mem_of_find?_eq_some h, hp⟩
  · rintro ⟨hv, rfl, rfl⟩
    rw [if_pos (d.versions_number_int v hv)]
    cases h : d.versions.find? fun w =>
        w.fileId == v.fileId && w.versionNumber == v.versionNumber with
    | none =>
      have := List.find?_eq_none.mp h v hv
      simp at this
    | some w =>
      have hp := List.find?_some h
      simp only [Bool.and_eq_true, beq_iff_eq] at hp
      rw [d.version_number_unique (List.mem_of_find?_eq_some h) hv hp.1 hp.2]

theorem createFile_ok {d d' : Database} {g : Generated} {ownerId : Uuid} {fileName : String}
    {f : FileRecord} (h : d.createFile g ownerId fileName = .ok (f, d')) :
    f = ⟨g.file, ownerId, fileName, false, g.now, g.now⟩ ∧ d'.files = d.files ++ [f] ∧
      d'.versions = d.versions ∧ d'.chunks = d.chunks := by
  unfold createFile at h
  cases hi : d.insertFile ⟨g.file, ownerId, fileName, false, g.now, g.now⟩ with
  | error e => simp only [hi, bind, Except.bind] at h; cases h
  | ok d₁ =>
    simp only [hi, bind, Except.bind, pure, Except.pure] at h
    cases h
    exact ⟨rfl, insertFile_ok hi⟩

theorem foldlM_insertChunk_ok {d d' : Database} {rows : List ChunkRecord}
    (h : rows.foldlM insertChunk d = .ok d') :
    d'.files = d.files ∧ d'.versions = d.versions ∧ d'.chunks = d.chunks ++ rows := by
  induction rows generalizing d with
  | nil => cases h; exact ⟨rfl, rfl, (List.append_nil _).symm⟩
  | cons r rows ih =>
    rw [List.foldlM_cons] at h
    cases hi : d.insertChunk r with
    | error e => rw [hi] at h; cases h
    | ok d₁ =>
      rw [hi] at h
      obtain ⟨hf, hv, hc⟩ := insertChunk_ok hi
      obtain ⟨hf', hv', hc'⟩ := ih h
      exact ⟨hf'.trans hf, hv'.trans hv, by rw [hc', hc, List.append_assoc]; rfl⟩

/-- The one effect of a version transaction that commits. -/
theorem createVersion_ok {d d' : Database} {g : Generated} {fileId : Uuid} {sizeBytes : Nat}
    {mimeType checksum : String} {chunks : List ChunkInput} {v : FileVersionRecord}
    {rows : List ChunkRecord}
    (h : d.createVersion g fileId sizeBytes mimeType checksum chunks = .ok ((v, rows), d')) :
    v = ⟨g.version, fileId, d.nextVersionNumber fileId, sizeBytes, mimeType, checksum, g.now⟩ ∧
      rows = chunkRows g g.version 0 chunks ∧ g.version ∉ d.versions.map FileVersionRecord.id ∧
      d'.files = (d.touchFile g.now fileId).files ∧ d'.versions = d.versions ++ [v] ∧
      d'.chunks = d.chunks ++ rows := by
  unfold createVersion at h
  cases hv : d.insertVersion
      ⟨g.version, fileId, d.nextVersionNumber fileId, sizeBytes, mimeType, checksum, g.now⟩ with
  | error e => simp only [hv, bind, Except.bind] at h; cases h
  | ok d₁ =>
    cases hc : (chunkRows g g.version 0 chunks).foldlM insertChunk d₁ with
    | error e => simp only [hv, hc, bind, Except.bind] at h; cases h
    | ok d₂ =>
      simp only [hv, hc, bind, Except.bind, pure, Except.pure] at h
      cases h
      obtain ⟨hf₁, hv₁, hc₁, hid⟩ := insertVersion_ok hv
      obtain ⟨hf₂, hv₂, hc₂⟩ := foldlM_insertChunk_ok hc
      refine ⟨rfl, rfl, hid, ?_, hv₂.trans hv₁, hc₂.trans (by rw [hc₁])⟩
      simp only [touchFile, updateFile_files, hf₂, hf₁]

/-! ### What files keep -/

theorem createFile_origins {d d' : Database} {g : Generated} {ownerId : Uuid} {fileName : String}
    {f : FileRecord} (h : d.createFile g ownerId fileName = .ok (f, d')) :
    d'.origins = d.origins ++ [(g.file, ownerId, fileName)] := by
  obtain ⟨rfl, hfiles, -, -⟩ := createFile_ok h
  rw [origins, hfiles, List.map_append]
  rfl

theorem createVersion_origins {d d' : Database} {g : Generated} {fileId : Uuid} {sizeBytes : Nat}
    {mimeType checksum : String} {chunks : List ChunkInput}
    {r : FileVersionRecord × List ChunkRecord}
    (h : d.createVersion g fileId sizeBytes mimeType checksum chunks = .ok (r, d')) :
    d'.origins = d.origins := by
  obtain ⟨v, rows⟩ := r
  obtain ⟨-, -, -, hfiles, -, -⟩ := createVersion_ok h
  rw [origins, hfiles]
  exact d.touchFile_origins g.now fileId

/-- A file has one owner and one name. -/
theorem eq_of_mem_origins {d : Database} {f : FileRecord} {owner : Uuid} {fileName : String}
    (hf : f ∈ d.files) (h : (f.id, owner, fileName) ∈ d.origins) :
    owner = f.ownerId ∧ fileName = f.fileName := by
  obtain ⟨f', hf', horigin⟩ := List.mem_map.mp h
  rw [FileRecord.origin, Prod.mk.injEq, Prod.mk.injEq] at horigin
  obtain ⟨hid, rfl, rfl⟩ := horigin
  rw [d.file_unique hf' hf hid]
  exact ⟨rfl, rfl⟩

/-! ### The chunk rows of a version -/

theorem chunkRows_map_id (g : Generated) (versionId : Uuid) (i : Nat) (chunks : List ChunkInput) :
    (chunkRows g versionId i chunks).map ChunkRecord.id =
      (List.range' i chunks.length).map g.chunk := by
  induction chunks generalizing i with
  | nil => rfl
  | cons c cs ih => simp only [chunkRows, List.map_cons, ih, List.length_cons, List.range'_succ]

theorem fileVersionId_of_mem_chunkRows {g : Generated} {versionId : Uuid} {i : Nat}
    {chunks : List ChunkInput} {c : ChunkRecord} (h : c ∈ chunkRows g versionId i chunks) :
    c.fileVersionId = versionId := by
  induction chunks generalizing i with
  | nil => cases h
  | cons c cs ih =>
    rcases List.mem_cons.mp h with rfl | h
    · rfl
    · exact ih h

theorem chunkRows_map_input (g : Generated) (versionId : Uuid) (i : Nat)
    (chunks : List ChunkInput) : (chunkRows g versionId i chunks).map ChunkRecord.input = chunks := by
  induction chunks generalizing i with
  | nil => rfl
  | cons c cs ih => simp only [chunkRows, List.map_cons, ih, ChunkRecord.input]

theorem chunkRows_map {α : Type*} (g : Generated) (versionId : Uuid) (i : Nat)
    (chunks : List ChunkInput) (f : ChunkInput → α) :
    (chunkRows g versionId i chunks).map (fun c => f c.input) = chunks.map f := by
  have h := congrArg (List.map f) (chunkRows_map_input g versionId i chunks)
  rwa [List.map_map] at h

theorem chunkRows_map_storageKey (g : Generated) (versionId : Uuid) (i : Nat)
    (chunks : List ChunkInput) :
    (chunkRows g versionId i chunks).map ChunkRecord.storageKey =
      chunks.map ChunkInput.storageKey := chunkRows_map g versionId i chunks ChunkInput.storageKey

theorem chunkRows_map_chunkIndex (g : Generated) (versionId : Uuid) (i : Nat)
    (chunks : List ChunkInput) :
    (chunkRows g versionId i chunks).map ChunkRecord.chunkIndex =
      chunks.map ChunkInput.chunkIndex := chunkRows_map g versionId i chunks ChunkInput.chunkIndex

theorem chunkRows_map_sizeBytes (g : Generated) (versionId : Uuid) (i : Nat)
    (chunks : List ChunkInput) :
    (chunkRows g versionId i chunks).map ChunkRecord.sizeBytes =
      chunks.map ChunkInput.sizeBytes := chunkRows_map g versionId i chunks ChunkInput.sizeBytes

theorem mem_ids_of_eq {d d' : Database} {f : List FileRecord} {v : List FileVersionRecord}
    {c : List ChunkRecord} {new : List Uuid}
    (hf : d'.files.map FileRecord.id = d.files.map FileRecord.id ++ f.map FileRecord.id)
    (hv : d'.versions = d.versions ++ v) (hc : d'.chunks = d.chunks ++ c)
    (hnew : ∀ i, i ∈ f.map FileRecord.id ∨ i ∈ v.map FileVersionRecord.id ∨
      i ∈ c.map ChunkRecord.id → i ∈ new) : d'.ids ⊆ d.ids ∪ {i | i ∈ new} := by
  intro i hi
  simp only [ids, hf, hv, hc, List.map_append, List.mem_append, Set.mem_ofPred_eq, Set.mem_union]
    at hi ⊢
  have := hnew i
  tauto

end Database

namespace FileService
open Database

/-- What `registerFile` does: nothing, only the file row, or the file with its first version. -/
theorem registerFile_cases (g : Generated) (ownerId : Uuid) (input : CreateFileInput)
    (d : Database) :
    (∃ e, registerFile g ownerId input d = (.error e, d)) ∨
    (∃ e file d₁, d.createFile g ownerId input.fileName = .ok (file, d₁) ∧
      registerFile g ownerId input d = (.error e, d₁)) ∨
    (∃ file d₁ v rows d₂, d.createFile g ownerId input.fileName = .ok (file, d₁) ∧
      d₁.createVersion g file.id (totalSize input.chunks) input.mimeType input.checksum
        input.chunks = .ok ((v, rows), d₂) ∧
      registerFile g ownerId input d = (.ok ⟨⟨v, rows⟩, file⟩, d₂)) := by
  unfold registerFile
  cases hf : d.createFile g ownerId input.fileName with
  | error e => exact .inl ⟨_, rfl⟩
  | ok p =>
    obtain ⟨file, d₁⟩ := p
    cases hv : d₁.createVersion g file.id (totalSize input.chunks) input.mimeType input.checksum
        input.chunks with
    | error e => exact .inr (.inl ⟨.db e, file, d₁, rfl, by simp only [hv]⟩)
    | ok q =>
      obtain ⟨⟨v, rows⟩, d₂⟩ := q
      exact .inr (.inr ⟨file, d₁, v, rows, d₂, rfl, hv, by simp only [hv]⟩)

theorem getOwnedFile_ok {d : Database} {ownerId : Uuid} {fileId : String} {f : FileRecord} :
    getOwnedFile d ownerId fileId = .ok f ↔
      f ∈ d.files ∧ uuidIn fileId = some f.id ∧ f.isDeleted = false ∧ f.ownerId = ownerId := by
  unfold getOwnedFile
  cases hu : uuidIn fileId with
  | none => simp
  | some id =>
    cases hf : d.findFileById id with
    | none =>
      simp only [hf, reduceCtorEq, Option.some.injEq, false_iff, not_and]
      rintro hmem rfl hdel
      rw [findFileById_eq_none] at hf
      simp [hf f hmem rfl] at hdel
    | some r =>
      obtain ⟨hr, rfl, hdel⟩ := findFileById_eq_some.mp hf
      by_cases ho : r.ownerId = ownerId
      · simp only [hf, ne_eq, ho, not_true_eq_false, if_false, Except.ok.injEq, Option.some.injEq]
        constructor
        · rintro rfl
          exact ⟨hr, rfl, hdel, ho⟩
        · rintro ⟨hmem, hid, -, -⟩
          exact d.file_unique hr hmem hid
      · simp only [hf, ne_eq, ho, not_false_eq_true, if_true, reduceCtorEq, Option.some.injEq,
          false_iff, not_and]
        rintro hmem hid - rfl
        exact ho (by rw [d.file_unique hr hmem hid])

theorem addVersion_cases (g : Generated) (ownerId : Uuid) (fileId : String)
    (input : CreateVersionInput) (d : Database) :
    (∃ e, addVersion g ownerId fileId input d = (.error e, d)) ∨
    (∃ file v rows d₁, getOwnedFile d ownerId fileId = .ok file ∧
      d.createVersion g file.id (totalSize input.chunks) input.mimeType input.checksum
        input.chunks = .ok ((v, rows), d₁) ∧
      addVersion g ownerId fileId input d = (.ok ⟨v, rows⟩, d₁)) := by
  unfold addVersion
  cases ho : getOwnedFile d ownerId fileId with
  | error e => exact .inl ⟨e, rfl⟩
  | ok file =>
    cases hv : d.createVersion g file.id (totalSize input.chunks) input.mimeType input.checksum
        input.chunks with
    | error e => exact .inl ⟨.db e, by simp only [hv]⟩
    | ok q =>
      obtain ⟨⟨v, rows⟩, d₁⟩ := q
      exact .inr ⟨file, v, rows, d₁, rfl, hv, by simp only [hv]⟩

theorem deleteFile_cases (now : Nat) (ownerId : Uuid) (fileId : String) (d : Database) :
    (∃ e, deleteFile now ownerId fileId d = (.error e, d)) ∨
    (∃ file, getOwnedFile d ownerId fileId = .ok file ∧
      deleteFile now ownerId fileId d = (.ok (), d.softDeleteFile now file.id)) := by
  unfold deleteFile
  cases ho : getOwnedFile d ownerId fileId with
  | error e => exact .inl ⟨e, rfl⟩
  | ok file => exact .inr ⟨file, rfl, rfl⟩

end FileService

/-! ### The ids a call adds -/

namespace Database

theorem createFile_ids {d d' : Database} {g : Generated} {ownerId : Uuid} {fileName : String}
    {f : FileRecord} (n : Nat) (h : d.createFile g ownerId fileName = .ok (f, d')) :
    d'.ids ⊆ d.ids ∪ {i | i ∈ g.ids n} := by
  obtain ⟨rfl, hf, hv, hc⟩ := createFile_ok h
  exact mem_ids_of_eq (f := [⟨g.file, ownerId, fileName, false, g.now, g.now⟩]) (v := []) (c := [])
    (by rw [hf, List.map_append])
    (by rw [hv, List.append_nil]) (by rw [hc, List.append_nil]) (by simp [Generated.ids])

theorem createVersion_ids {d d' : Database} {g : Generated} {fileId : Uuid} {sizeBytes : Nat}
    {mimeType checksum : String} {chunks : List ChunkInput}
    {r : FileVersionRecord × List ChunkRecord}
    (h : d.createVersion g fileId sizeBytes mimeType checksum chunks = .ok (r, d')) :
    d'.ids ⊆ d.ids ∪ {i | i ∈ g.ids chunks.length} := by
  obtain ⟨v, rows⟩ := r
  obtain ⟨rfl, rfl, -, hf, hv, hc⟩ := createVersion_ok h
  have hfiles : d'.files.map FileRecord.id = d.files.map FileRecord.id ++ [] := by
    rw [hf, touchFile, updateFile_ids, List.append_nil]
  refine mem_ids_of_eq (f := []) hfiles hv hc fun i hi => ?_
  rw [chunkRows_map_id, ← List.range_eq_range'] at hi
  rcases hi with hi | hi | hi
  · cases hi
  · exact List.mem_cons_of_mem _ (List.mem_cons.mpr (.inl (by simpa using hi)))
  · exact List.mem_cons_of_mem _ (List.mem_cons_of_mem _ hi)

end Database

open Database in
theorem registerFile_ids (g : Generated) (ownerId : Uuid) (input : CreateFileInput)
    (d : Database) :
    (FileService.registerFile g ownerId input d).2.ids ⊆
      d.ids ∪ {i | i ∈ g.ids input.chunks.length} := by
  rcases FileService.registerFile_cases g ownerId input d with
    ⟨e, h⟩ | ⟨e, file, d₁, hf, h⟩ | ⟨file, d₁, v, rows, d₂, hf, hv, h⟩ <;> rw [h]
  · exact Set.subset_union_left
  · exact createFile_ids _ hf
  · have hfile := createFile_ids input.chunks.length hf
    exact (createVersion_ids hv).trans (Set.union_subset hfile Set.subset_union_right)

open Database in
theorem addVersion_ids (g : Generated) (ownerId : Uuid) (fileId : String)
    (input : CreateVersionInput) (d : Database) :
    (FileService.addVersion g ownerId fileId input d).2.ids ⊆
      d.ids ∪ {i | i ∈ g.ids input.chunks.length} := by
  rcases FileService.addVersion_cases g ownerId fileId input d with
    ⟨e, h⟩ | ⟨file, v, rows, d₁, -, hv, h⟩ <;> rw [h]
  · exact Set.subset_union_left
  · exact createVersion_ids hv

theorem softDeleteFile_ids (now : Nat) (id : Uuid) (d : Database) :
    (d.softDeleteFile now id).ids = d.ids := by
  unfold Database.ids Database.softDeleteFile
  rw [Database.updateFile_ids]
  rfl

theorem deleteFile_ids (now : Nat) (ownerId : Uuid) (fileId : String) (d : Database) :
    (FileService.deleteFile now ownerId fileId d).2.ids = d.ids := by
  rcases FileService.deleteFile_cases now ownerId fileId d with ⟨e, h⟩ | ⟨file, -, h⟩ <;> rw [h]
  exact softDeleteFile_ids now file.id d

theorem handle_ids (fold : Char → Char) (d : Database) (r : Request) :
    (handle fold d r).2.ids ⊆ d.ids ∪ {i | i ∈ r.newIds} := by
  unfold handle Request.newIds
  cases r.call with
  | registerFile input => exact registerFile_ids r.generated r.ownerId input d
  | addVersion fileId input => exact addVersion_ids r.generated r.ownerId fileId input d
  | deleteFile fileId =>
    exact (deleteFile_ids r.generated.now r.ownerId fileId d).subset.trans Set.subset_union_left
  | _ => exact Set.subset_union_left

end IntelliStore.Metadata
