import IntelliStore.Metadata.InMemory
import IntelliStore.Metadata.Search
import IntelliStore.Metadata.TransactionsSpec
import Mathlib.Algebra.Order.BigOperators.Group.List
import Mathlib.Algebra.Order.Group.Nat

/-! The double beside the tables: the same calls with the same ids, each on its own clock. -/

namespace IntelliStore.Metadata
open Library Postgres

/-! ### Results without their timestamps -/

def FileRecord.untimed (f : FileRecord) : FileRecord := { f with createdAt := 0, updatedAt := 0 }

def FileVersionRecord.untimed (v : FileVersionRecord) : FileVersionRecord := { v with createdAt := 0 }

def FileWithLatestVersion.untimed (f : FileWithLatestVersion) : FileWithLatestVersion :=
  ⟨f.file.untimed, f.latestVersion.map FileVersionRecord.untimed⟩

def FileDetail.untimed (f : FileDetail) : FileDetail :=
  ⟨f.file.untimed, f.versions.map FileVersionRecord.untimed⟩

def VersionDetail.untimed (v : VersionDetail) : VersionDetail := ⟨v.version.untimed, v.chunks⟩

def Response.untimed : Response → Response
  | .registered result => .registered ⟨result.toVersionDetail.untimed, result.file.untimed⟩
  | .versionAdded result => .versionAdded result.untimed
  | .fileList files => .fileList (files.map FileWithLatestVersion.untimed)
  | .fileDetail detail => .fileDetail detail.untimed
  | .versionDetail detail => .versionDetail detail.untimed
  | .deleted => .deleted

theorem FileRecord.eq_of_untimed {f g : FileRecord} (h : f.untimed = g.untimed) :
    f.id = g.id ∧ f.ownerId = g.ownerId ∧ f.fileName = g.fileName ∧ f.isDeleted = g.isDeleted := by
  obtain ⟨_, _, _, _, _, _⟩ := f
  obtain ⟨_, _, _, _, _, _⟩ := g
  cases h
  exact ⟨rfl, rfl, rfl, rfl⟩

theorem FileVersionRecord.eq_of_untimed {v w : FileVersionRecord} (h : v.untimed = w.untimed) :
    v.id = w.id ∧ v.versionNumber = w.versionNumber ∧ v.sizeBytes = w.sizeBytes := by
  obtain ⟨_, _, _, _, _, _, _⟩ := v
  obtain ⟨_, _, _, _, _, _, _⟩ := w
  cases h
  exact ⟨rfl, rfl, rfl⟩

/-- The live files of the owner, as they stand in the table. -/
def liveFiles (ownerId : Uuid) (files : List FileRecord) : List FileRecord :=
  files.filter fun f => f.ownerId == ownerId && !f.isDeleted

/-- Each file was registered at a later time than the one before it. -/
def InOrder (files : List FileRecord) : Prop := files.Pairwise (·.createdAt < ·.createdAt)

instance InOrder.decidable (files : List FileRecord) : Decidable (InOrder files) :=
  inferInstanceAs (Decidable (files.Pairwise (·.createdAt < ·.createdAt)))

/-- What `softDeleteFile` makes of a record, its timestamps apart. -/
def FileRecord.marked (id : Uuid) (f : FileRecord) : FileRecord :=
  if f.id = id then { f with isDeleted := true } else f

theorem FileRecord.marked_id (id : Uuid) (f : FileRecord) : (f.marked id).id = f.id := by
  unfold marked
  split_ifs <;> rfl

theorem FileRecord.marked_untimed (id : Uuid) (f : FileRecord) :
    (f.marked id).untimed = f.untimed.marked id := by
  unfold marked
  by_cases hid : f.id = id
  · rw [if_pos hid, if_pos (show f.untimed.id = id from hid)]
    rfl
  · rw [if_neg hid, if_neg (show f.untimed.id ≠ id from hid)]

/-! ### Orders -/

/-- The newest first, when the table lists the oldest first. -/
theorem orderByDesc_of_pairwise {α : Type*} {key : α → Nat} {rows : List α}
    (h : rows.Pairwise (key · < key ·)) : orderByDesc key rows = rows.reverse := by
  have hsorted := orderByDesc_pairwise key rows
  have hreverse : rows.reverse.Pairwise fun a b => key b < key a := List.pairwise_reverse.mpr h
  have hperm : (orderByDesc key rows).Perm rows.reverse :=
    (List.perm_insertionSort _ rows).trans (List.reverse_perm rows).symm
  have hkeys : (rows.map key).Nodup := List.pairwise_map.mpr (h.imp Nat.ne_of_lt)
  refine hperm.eq_of_pairwise (fun a b ha hb hab hba => ?_) hsorted (hreverse.imp le_of_lt)
  have ha := (List.mem_insertionSort _).mp ha
  exact List.inj_on_of_nodup_map hkeys ha (List.mem_reverse.mp hb) (le_antisymm hba hab)

theorem map_orderByDesc {α β : Type*} {key : α → Nat} {key' : β → Nat} {f : α → β}
    (hf : ∀ a, key' (f a) = key a) (rows : List α) :
    (orderByDesc key rows).map f = orderByDesc key' (rows.map f) := by
  unfold orderByDesc
  exact List.map_insertionSort _ _ f rows fun a _ b _ => by rw [hf, hf]

theorem newer_foldl {version : FileVersionRecord} {list : List FileVersionRecord}
    (h : (version :: list).Pairwise (·.versionNumber < ·.versionNumber)) :
    list.foldl InMemory.newer version = (version :: list).getLast (List.cons_ne_nil _ _) := by
  induction list generalizing version with
  | nil => rfl
  | cons next list ih =>
    obtain ⟨hnewer, hlist⟩ := List.pairwise_cons.mp h
    rw [List.foldl_cons, InMemory.newer, if_pos (hnewer next List.mem_cons_self), ih hlist,
      List.getLast_cons_cons]

/-! ### What the double holds of the tables -/

/-- The double holds what the tables hold, and its version numbers count without a gap. -/
structure Mirrors (d : Database) (m : InMemory) : Prop where
  files : m.files.values.map FileRecord.untimed = d.files.map FileRecord.untimed
  file_keys : ∀ e ∈ m.files.entries, e.1 = uuidOut e.2.id
  versions : ∀ fileId, (m.versionsOf fileId).map FileVersionRecord.untimed =
    (d.versions.filter (·.fileId == fileId)).map FileVersionRecord.untimed
  numbers : ∀ fileId, (m.versionsOf fileId).map FileVersionRecord.versionNumber =
    List.range' 1 (m.versionsOf fileId).length
  version_count : (m.versions.values.map List.length).sum = d.versions.length
  version_keys : ∀ k ∈ m.versions.entries.map Prod.fst, k ∈ d.files.map fun f => uuidOut f.id
  chunks : m.allChunks = d.chunks
  chunk_lists : ∀ versionId, (m.chunks.get (uuidOut versionId)).getD [] =
    d.chunks.filter (·.fileVersionId == versionId)
  chunk_keys : ∀ k ∈ m.chunks.entries.map Prod.fst, k ∈ d.versions.map fun v => uuidOut v.id

namespace Mirrors
variable {d d' : Database} {m : InMemory}

theorem empty : Mirrors .empty .empty where
  files := rfl
  file_keys := fun e he => (by cases he)
  versions := fun _ => rfl
  numbers := fun _ => rfl
  version_count := rfl
  version_keys := fun k hk => (by cases hk)
  chunks := rfl
  chunk_lists := fun _ => rfl
  chunk_keys := fun k hk => (by cases hk)

/-! ### Reads -/

theorem get_file (h : Mirrors d m) {id : Uuid} {f : FileRecord} :
    m.files.get (uuidOut id) = some f ↔ f ∈ m.files.values ∧ f.id = id := by
  rw [InsertionMap.get_eq_some, InsertionMap.values, List.mem_map]
  constructor
  · intro hmem
    exact ⟨⟨_, hmem, rfl⟩, uuidOut_injective (h.file_keys _ hmem).symm⟩
  · rintro ⟨⟨⟨k, g⟩, hmem, rfl⟩, rfl⟩
    have hkey : k = uuidOut g.id := h.file_keys _ hmem
    exact hkey ▸ hmem

/-- A file of the one side has its counterpart on the other. -/
theorem exists_file (h : Mirrors d m) {f : FileRecord} (hf : f ∈ d.files) :
    ∃ g ∈ m.files.values, g.untimed = f.untimed := by
  have hmem : f.untimed ∈ m.files.values.map FileRecord.untimed := by
    rw [h.files]
    exact List.mem_map_of_mem hf
  exact List.mem_map.mp hmem

theorem exists_row (h : Mirrors d m) {g : FileRecord} (hg : g ∈ m.files.values) :
    ∃ f ∈ d.files, f.untimed = g.untimed := by
  have hmem : g.untimed ∈ d.files.map FileRecord.untimed := by
    rw [← h.files]
    exact List.mem_map_of_mem hg
  exact List.mem_map.mp hmem

theorem findFileById (h : Mirrors d m) (id : Uuid) :
    (m.findFileById (uuidOut id)).map FileRecord.untimed =
      (d.findFileById id).map FileRecord.untimed := by
  unfold InMemory.findFileById
  cases hrow : d.findFileById id with
  | none =>
    have hnone := Database.findFileById_eq_none.mp hrow
    rw [Option.map_none, Option.map_eq_none_iff, Option.filter_eq_none_iff]
    intro g hg
    obtain ⟨hmem, hid⟩ := h.get_file.mp hg
    obtain ⟨f, hf, heq⟩ := h.exists_row hmem
    obtain ⟨hid', -, -, hflag⟩ := FileRecord.eq_of_untimed heq
    have hdeleted := hnone f hf (hid'.trans hid)
    rw [← hflag, hdeleted]
    decide
  | some f =>
    obtain ⟨hf, hid, hlive⟩ := Database.findFileById_eq_some.mp hrow
    obtain ⟨g, hg, heq⟩ := h.exists_file hf
    obtain ⟨hid', -, -, hflag⟩ := FileRecord.eq_of_untimed heq
    have hget : m.files.get (uuidOut id) = some g := h.get_file.mpr ⟨hg, hid'.trans hid⟩
    rw [hget, Option.filter_some, hflag, hlive]
    exact congrArg some heq

/-- Both sides refuse the owner the file, or both find it. -/
theorem getOwnedFile (h : Mirrors d m) (toLowerCase : String → List Char)
    (ownerId id : Uuid) :
    (∃ e, FileService.getOwnedFile d ownerId (uuidOut id) = .error e ∧
      (inMemoryFileRepository toLowerCase).getOwnedFile m ownerId (uuidOut id) = .error e) ∨
    ∃ f g, FileService.getOwnedFile d ownerId (uuidOut id) = .ok f ∧
      (inMemoryFileRepository toLowerCase).getOwnedFile m ownerId (uuidOut id) = .ok g ∧
      g.untimed = f.untimed ∧ m.files.get (uuidOut id) = some g := by
  have hfind := h.findFileById id
  unfold FileService.getOwnedFile FileRepository.getOwnedFile inMemoryFileRepository
  simp only [uuidIn_uuidOut]
  cases hrow : d.findFileById id with
  | none =>
    rw [hrow, Option.map_none, Option.map_eq_none_iff] at hfind
    rw [hfind]
    exact .inl ⟨_, rfl, rfl⟩
  | some f =>
    rw [hrow, Option.map_some] at hfind
    obtain ⟨g, hg, heq⟩ := Option.map_eq_some_iff.mp hfind
    obtain ⟨-, howner, -, -⟩ := FileRecord.eq_of_untimed heq
    rw [hg]
    dsimp only
    rw [howner]
    split_ifs
    · exact .inl ⟨_, rfl, rfl⟩
    · exact .inr ⟨f, g, rfl, rfl, heq, (Option.filter_eq_some_iff.mp hg).1⟩

theorem live_files (h : Mirrors d m) (ownerId : Uuid) :
    (liveFiles ownerId m.files.values).map FileRecord.untimed =
      (liveFiles ownerId d.files).map FileRecord.untimed := by
  have hfilter : ∀ files : List FileRecord, (liveFiles ownerId files).map FileRecord.untimed =
      liveFiles ownerId (files.map FileRecord.untimed) := by
    intro files
    rw [liveFiles, liveFiles, List.filter_map]
    rfl
  rw [hfilter, hfilter, h.files]

theorem listVersions (h : Mirrors d m) (fileId : Uuid) :
    (m.listVersions fileId).map FileVersionRecord.untimed =
      (d.listVersions fileId).map FileVersionRecord.untimed := by
  have horder : ∀ rows, (orderByDesc FileVersionRecord.versionNumber rows).map
      FileVersionRecord.untimed = orderByDesc FileVersionRecord.versionNumber
        (rows.map FileVersionRecord.untimed) := map_orderByDesc fun _ => rfl
  rw [InMemory.listVersions, Database.listVersions, horder, horder, h.versions]

/-- The versions of a file are stored in the order of their numbers. -/
theorem versions_pairwise (h : Mirrors d m) (fileId : Uuid) :
    (m.versionsOf fileId).Pairwise (·.versionNumber < ·.versionNumber) := by
  have hrange : (List.range' 1 (m.versionsOf fileId).length).Pairwise (· < ·) :=
    List.pairwise_lt_range'
  rw [← h.numbers, List.pairwise_map] at hrange
  exact hrange

theorem latestVersion (h : Mirrors d m) (fileId : Uuid) :
    (m.latestVersion fileId).map FileVersionRecord.untimed =
      (d.latestVersion fileId).map FileVersionRecord.untimed := by
  have hlatest : m.latestVersion fileId = (m.listVersions fileId).head? := by
    rw [InMemory.listVersions, orderByDesc_of_pairwise (h.versions_pairwise fileId),
      List.head?_reverse, InMemory.latestVersion]
    cases hversions : m.versionsOf fileId with
    | nil => rfl
    | cons version list =>
      have hpairwise := h.versions_pairwise fileId
      rw [hversions] at hpairwise
      dsimp only
      rw [newer_foldl hpairwise, List.getLast?_eq_some_getLast]
  rw [hlatest, Database.latestVersion, ← List.head?_map, ← List.head?_map, h.listVersions]

theorem findVersion (h : Mirrors d m) (fileId : Uuid) (versionNumber : Nat) :
    (m.findVersion fileId versionNumber).map FileVersionRecord.untimed =
      (d.versions.find? fun v => v.fileId == fileId && v.versionNumber == versionNumber).map
        FileVersionRecord.untimed := by
  have hfind : ∀ rows : List FileVersionRecord,
      (rows.find? (·.versionNumber == versionNumber)).map FileVersionRecord.untimed =
        (rows.map FileVersionRecord.untimed).find? (·.versionNumber == versionNumber) := by
    intro rows
    rw [List.find?_map]
    rfl
  rw [InMemory.findVersion, hfind, h.versions, ← hfind, List.find?_filter]
  simp only [Bool.decide_and, Bool.decide_eq_true]

theorem listChunks (h : Mirrors d m) (versionId : Uuid) :
    m.listChunks versionId = d.listChunks versionId := by
  rw [InMemory.listChunks, h.chunk_lists, Database.listChunks]

theorem withLatestVersions (h : Mirrors d m) (fold : Char → Char)
    (toLowerCase : String → List Char) {files files' : List FileRecord}
    (hfiles : files'.map FileRecord.untimed = files.map FileRecord.untimed) :
    ((inMemoryFileRepository toLowerCase).withLatestVersions m files').map
        FileWithLatestVersion.untimed =
      ((pgFileRepository fold).withLatestVersions d files).map FileWithLatestVersion.untimed := by
  have hlatest : ∀ f : FileRecord, (m.latestVersion f.id).map FileVersionRecord.untimed =
      (d.latestVersion f.id).map FileVersionRecord.untimed := fun f => h.latestVersion f.id
  have hrow : ∀ (latest : FileRecord → Option FileVersionRecord) (files : List FileRecord),
      (∀ f, latest f.untimed = latest f) →
      (files.map fun f => FileWithLatestVersion.mk f (latest f)).map FileWithLatestVersion.untimed =
        (files.map FileRecord.untimed).map fun f =>
          ⟨f, (latest f).map FileVersionRecord.untimed⟩ := by
    intro latest files hkeep
    rw [List.map_map, List.map_map]
    refine List.map_congr_left fun f _ => ?_
    simp only [Function.comp_apply, FileWithLatestVersion.untimed, hkeep]
  show List.map _ (files'.map fun f => FileWithLatestVersion.mk f (m.latestVersion f.id)) =
    List.map _ (files.map fun f => FileWithLatestVersion.mk f (d.latestVersion f.id))
  rw [hrow (fun f => m.latestVersion f.id) files' fun _ => rfl,
    hrow (fun f => d.latestVersion f.id) files fun _ => rfl, hfiles]
  exact List.map_congr_left fun f _ => by rw [hlatest]

/-- Files in the order of their registration are listed the other way round. -/
theorem listed (h : Mirrors d m) {ownerId : Uuid} (hd : InOrder (liveFiles ownerId d.files))
    (hm : InOrder (liveFiles ownerId m.files.values)) {p q : FileRecord → Bool}
    (hq : ∀ f, q f.untimed = q f) (hpq : ∀ f ∈ liveFiles ownerId d.files, p f = q f) :
    (orderByDesc FileRecord.createdAt ((liveFiles ownerId m.files.values).filter q)).map
        FileRecord.untimed =
      (orderByDesc FileRecord.createdAt ((liveFiles ownerId d.files).filter p)).map
        FileRecord.untimed := by
  have hfilter : ∀ (p : FileRecord → Bool) (files : List FileRecord), (∀ f, p f.untimed = p f) →
      (files.filter p).map FileRecord.untimed = (files.map FileRecord.untimed).filter p := by
    intro p files hp
    rw [List.filter_map]
    exact congrArg _ (List.filter_congr fun f _ => (hp f).symm)
  rw [orderByDesc_of_pairwise (hd.filter p), orderByDesc_of_pairwise (hm.filter q),
    List.map_reverse, List.map_reverse, hfilter q _ hq, h.live_files, ← hfilter q _ hq,
    List.filter_congr hpq]

theorem listFilesByOwner (h : Mirrors d m) {ownerId : Uuid}
    (hd : InOrder (liveFiles ownerId d.files))
    (hm : InOrder (liveFiles ownerId m.files.values)) :
    (m.listFilesByOwner ownerId).map FileRecord.untimed =
      (d.listFilesByOwner ownerId).map FileRecord.untimed := by
  have hlisted := h.listed hd hm (p := fun _ => true) (q := fun _ => true)
    (fun _ => rfl) fun _ _ => rfl
  rw [List.filter_true, List.filter_true] at hlisted
  exact hlisted

theorem searchByOwner (h : Mirrors d m) {fold : Char → Char} {toLowerCase : String → List Char}
    (hfold : ∀ c ∈ ['\\', '%', '_'], ∀ c', fold c' = c ↔ c' = c) {ownerId : Uuid} {query : String}
    (htext : isText query = true) (hd : InOrder (liveFiles ownerId d.files))
    (hm : InOrder (liveFiles ownerId m.files.values))
    (hcase : ∀ f ∈ liveFiles ownerId d.files,
      (query.toList.map fold <:+: f.fileName.toList.map fold ↔
        toLowerCase query <:+: toLowerCase f.fileName)) :
    ∃ files, d.searchByOwner fold ownerId query = .ok files ∧
      (m.searchByOwner toLowerCase ownerId query).map FileRecord.untimed =
        files.map FileRecord.untimed := by
  have hlive : ∀ (files : List FileRecord) (p : FileRecord → Bool),
      (files.filter fun f => f.ownerId == ownerId && !f.isDeleted && p f) =
        (liveFiles ownerId files).filter p := by
    intro files p
    rw [liveFiles, List.filter_filter]
    exact List.filter_congr fun f _ => Bool.and_comm _ _
  rw [Database.searchByOwner_eq hfold htext, InMemory.searchByOwner, hlive, hlive]
  refine ⟨_, rfl, h.listed hd hm (fun _ => rfl) fun f hf => ?_⟩
  exact decide_eq_decide.mpr (hcase f hf)

/-! ### Sums -/

theorem totalBytes (h : Mirrors d m) :
    ((m.files.values.filter (!·.isDeleted)).map m.latestSize).sum = d.latestSizes.sum := by
  have hsize : ∀ f : FileRecord, m.latestSize f =
      ((d.latestVersion f.id).map FileVersionRecord.sizeBytes).getD 0 := by
    intro f
    have hlatest := congrArg (Option.map FileVersionRecord.sizeBytes) (h.latestVersion f.id)
    rw [Option.map_map, Option.map_map] at hlatest
    have hlatest : (m.latestVersion f.id).map FileVersionRecord.sizeBytes =
      (d.latestVersion f.id).map FileVersionRecord.sizeBytes := hlatest
    rw [← hlatest, InMemory.latestSize]
    cases m.latestVersion f.id <;> rfl
  have hactive : ∀ files : List FileRecord, (files.filter (!·.isDeleted)).map FileRecord.id =
      ((files.map FileRecord.untimed).filter (!·.isDeleted)).map FileRecord.id := by
    intro files
    rw [List.filter_map, List.map_map]
    rfl
  have hids : (m.files.values.filter (!·.isDeleted)).map FileRecord.id =
      (d.files.filter (!·.isDeleted)).map FileRecord.id := by
    rw [hactive, hactive d.files, h.files]
  have hsums := congrArg (List.map fun id =>
    ((d.latestVersion id).map FileVersionRecord.sizeBytes).getD 0) hids
  rw [List.map_map, List.map_map] at hsums
  rw [Database.latestSizes_sum, List.map_congr_left fun f _ => hsize f]
  exact congrArg List.sum hsums

/-- Summed once for each key, and once for each key and size. -/
theorem physicalChunkBytes (h : Mirrors d m) (hkeys : ∀ c ∈ d.chunks, ∀ c' ∈ d.chunks,
    c.storageKey = c'.storageKey → c.sizeBytes = c'.sizeBytes) :
    m.distinctByKey.values.sum = (d.distinctChunks.map Prod.snd).sum := by
  have hperm : m.distinctByKey.entries.Perm d.distinctChunks := by
    apply (List.perm_ext_iff_of_nodup m.distinctByKey.entries_nodup (List.nodup_dedup _)).mpr
    intro e
    rw [InMemory.distinctByKey, h.chunks, InsertionMap.mem_entries_foldl_set hkeys]
    exact List.mem_dedup.symm
  exact (hperm.map Prod.snd).sum_nat

theorem getSystemStats (h : Mirrors d m) (htotal : d.exactStats.totalBytes ≤ maxSafeInteger)
    (hlogical : d.exactStats.logicalChunkBytes ≤ maxSafeInteger) (hkeys : ∀ c ∈ d.chunks,
      ∀ c' ∈ d.chunks, c.storageKey = c'.storageKey → c.sizeBytes = c'.sizeBytes) :
    m.getSystemStats = d.getSystemStats := by
  have hfiles : (m.files.values.filter (!·.isDeleted)).length =
      (d.files.filter (!·.isDeleted)).length := by
    have hactive : ∀ files : List FileRecord, (files.filter (!·.isDeleted)).length =
        ((files.map FileRecord.untimed).filter (!·.isDeleted)).length := by
      intro files
      rw [List.filter_map, List.length_map]
      rfl
    rw [hactive, hactive d.files, h.files]
  have hphysical := d.physical_le_logical.trans hlogical
  have hbytes : sumNumbers ((m.files.values.filter (!·.isDeleted)).map m.latestSize) =
      d.exactStats.totalBytes :=
    (sumNumbers_of_safe (h.totalBytes.trans_le htotal)).trans h.totalBytes
  have hchunks : sumNumbers (d.chunks.map ChunkRecord.sizeBytes) = d.exactStats.logicalChunkBytes :=
    sumNumbers_of_safe hlogical
  have hkeyed : sumNumbers m.distinctByKey.values = d.exactStats.physicalChunkBytes :=
    (sumNumbers_of_safe ((h.physicalChunkBytes hkeys).trans_le hphysical)).trans
      (h.physicalChunkBytes hkeys)
  rw [Database.getSystemStats_of_safe hlogical htotal]
  simp only [InMemory.getSystemStats, hfiles, h.version_count, h.chunks, hbytes, hchunks, hkeyed,
    subNumbers_of_safe d.physical_le_logical hlogical]
  rfl

/-! ### Updates -/

/-- The key of a row that the table does not have. -/
theorem key_new {α β : Type*} {entries : InsertionMap String α} {rows : List β} {id : β → Uuid}
    (hkeys : ∀ k ∈ entries.entries.map Prod.fst, k ∈ rows.map fun r => uuidOut (id r)) {newId : Uuid}
    (hnew : newId ∉ rows.map id) : uuidOut newId ∉ entries.entries.map Prod.fst := by
  intro hmem
  obtain ⟨r, hr, hkey⟩ := List.mem_map.mp (hkeys _ hmem)
  have hid : id r = newId := uuidOut_injective hkey
  exact hnew (List.mem_map.mpr ⟨r, hr, hid⟩)

theorem file_key_new (h : Mirrors d m) {id : Uuid} (hnew : id ∉ d.files.map FileRecord.id) :
    uuidOut id ∉ m.files.entries.map Prod.fst := by
  have hkeys : ∀ k ∈ m.files.entries.map Prod.fst, k ∈ d.files.map fun f => uuidOut f.id := by
    intro k hk
    obtain ⟨e, he, rfl⟩ := List.mem_map.mp hk
    obtain ⟨f, hf, heq⟩ := h.exists_row (List.mem_map_of_mem (f := Prod.snd) he)
    have hid : f.id = e.2.id := (FileRecord.eq_of_untimed heq).1
    rw [h.file_keys e he]
    exact List.mem_map.mpr ⟨f, hf, congrArg uuidOut hid⟩
  exact key_new hkeys hnew

theorem addFile (h : Mirrors d m) {f f' : FileRecord} (huntimed : f'.untimed = f.untimed)
    (hnew : f.id ∉ d.files.map FileRecord.id) (hfiles : d'.files = d.files ++ [f])
    (hversions : d'.versions = d.versions) (hchunks : d'.chunks = d.chunks) :
    Mirrors d' { m with
      files := m.files.set (uuidOut f.id) f'
      versions := m.versions.set (uuidOut f.id) [] } := by
  have hentries := InsertionMap.entries_set_of_new (a := f') (h.file_key_new hnew)
  have hnone : m.versions.get (uuidOut f.id) = none :=
    InsertionMap.get_eq_none.mpr (key_new h.version_keys hnew)
  have hof : ∀ fileId, ((m.versions.set (uuidOut f.id) []).get (uuidOut fileId)).getD [] =
      m.versionsOf fileId := by
    intro fileId
    rw [InsertionMap.get_set, InMemory.versionsOf]
    split_ifs with hkey
    · rw [hkey, hnone]
      rfl
    · rfl
  exact {
    files := by
      rw [InsertionMap.values, hentries, List.map_append, List.map_append, hfiles, List.map_append,
        ← h.files]
      exact congrArg _ (congrArg (fun r => [r]) huntimed)
    file_keys := by
      intro e he
      rw [hentries, List.mem_append, List.mem_singleton] at he
      rcases he with he | rfl
      · exact h.file_keys e he
      · rw [(FileRecord.eq_of_untimed huntimed).1]
    versions := by
      intro fileId
      rw [hversions, ← h.versions]
      exact congrArg _ (hof fileId)
    numbers := by
      intro fileId
      have hnumbers := h.numbers fileId
      rw [← hof fileId] at hnumbers
      exact hnumbers
    version_count := by
      have hcount := m.versions.sum_set (uuidOut f.id) [] List.length
      rw [hnone] at hcount
      rw [hversions, ← h.version_count]
      exact hcount
    version_keys := by
      rw [hfiles, List.map_append, List.map_singleton]
      exact InsertionMap.keys_set_concat h.version_keys
    chunks := by
      rw [hchunks]
      exact h.chunks
    chunk_lists := by
      rw [hchunks]
      exact h.chunk_lists
    chunk_keys := by
      rw [hversions]
      exact h.chunk_keys }

/-- The versions of a file when one more was pushed on those of the file `id`. -/
theorem versionsOf_push (m : InMemory) (id : Uuid) (v : FileVersionRecord) (fileId : Uuid) :
    ((m.versions.set (uuidOut id) (m.versionsOf id ++ [v])).get (uuidOut fileId)).getD [] =
      m.versionsOf fileId ++ if id = fileId then [v] else [] := by
  rw [InsertionMap.get_set]
  split_ifs with hkey hsame hsame
  · rw [hsame]
    rfl
  · exact absurd (uuidOut_injective hkey).symm hsame
  · exact absurd (congrArg uuidOut hsame.symm) hkey
  · rw [List.append_nil, InMemory.versionsOf]

theorem versions_push (h : Mirrors d m) {v v' : FileVersionRecord} (huntimed : v'.untimed = v.untimed)
    (fileId : Uuid) :
    (m.versionsOf fileId ++ if v.fileId = fileId then [v'] else []).map FileVersionRecord.untimed =
      ((d.versions ++ [v]).filter (·.fileId == fileId)).map FileVersionRecord.untimed := by
  rw [List.filter_append, List.map_append, List.map_append, h.versions, List.filter_singleton]
  split_ifs with hsame
  · rw [beq_iff_eq.mpr hsame, cond_true, List.map_singleton, List.map_singleton, huntimed]
  · rw [beq_eq_false_iff_ne.mpr hsame, cond_false]

/-- The number of a new version is the next one. -/
theorem numbers_push (h : Mirrors d m) {v : FileVersionRecord} {id : Uuid}
    (hnumber : v.versionNumber = (m.versionsOf id).length + 1) (fileId : Uuid) :
    (m.versionsOf fileId ++ if id = fileId then [v] else []).map FileVersionRecord.versionNumber =
      List.range' 1 (m.versionsOf fileId ++ if id = fileId then [v] else []).length := by
  rw [List.map_append, h.numbers, List.length_append]
  split_ifs with hsame
  · rw [List.map_singleton, hnumber, hsame, List.length_singleton, List.range'_1_concat,
      Nat.add_comm 1]
  · rw [List.map_nil, List.append_nil, List.length_nil, Nat.add_zero]

theorem version_count_push (h : Mirrors d m) (id : Uuid) (v : FileVersionRecord) :
    ((m.versions.set (uuidOut id) (m.versionsOf id ++ [v])).values.map List.length).sum =
      d.versions.length + 1 := by
  have hcount := m.versions.sum_set (uuidOut id) (m.versionsOf id ++ [v]) List.length
  have hlength : ((m.versions.get (uuidOut id)).map List.length).getD 0 =
      (m.versionsOf id).length := by
    rw [InMemory.versionsOf]
    cases m.versions.get (uuidOut id) <;> rfl
  rw [hlength, List.length_append, List.length_singleton, h.version_count] at hcount
  omega

/-- The chunks of the versions when one more has got its rows. -/
theorem chunk_lists_push (h : Mirrors d m) {id : Uuid} {rows : List ChunkRecord}
    (hnew : m.chunks.get (uuidOut id) = none) (hrows : ∀ r ∈ rows, r.fileVersionId = id)
    (versionId : Uuid) : ((m.chunks.set (uuidOut id) rows).get (uuidOut versionId)).getD [] =
      (d.chunks ++ rows).filter (·.fileVersionId == versionId) := by
  rw [InsertionMap.get_set, List.filter_append, ← h.chunk_lists]
  split_ifs with hkey
  · have hall : rows.filter (·.fileVersionId == versionId) = rows := by
      refine List.filter_eq_self.mpr fun r hr => ?_
      rw [hrows r hr, uuidOut_injective hkey]
      exact beq_self_eq_true id
    rw [hkey, hnew, Option.getD_some, Option.getD_none, List.nil_append, hall]
  · have hnone : rows.filter (·.fileVersionId == versionId) = [] := by
      refine List.filter_eq_nil_iff.mpr fun r hr heq => ?_
      rw [← beq_iff_eq.mp heq, hrows r hr] at hkey
      exact hkey rfl
    rw [hnone, List.append_nil]

theorem pushVersion (h : Mirrors d m) {v v' : FileVersionRecord} {rows : List ChunkRecord}
    (huntimed : v'.untimed = v.untimed)
    (hnumber : v.versionNumber = (m.versionsOf v.fileId).length + 1)
    (hfile : v.fileId ∈ d.files.map FileRecord.id) (hid : v.id ∉ d.versions.map FileVersionRecord.id)
    (hrows : ∀ r ∈ rows, r.fileVersionId = v.id)
    (hfiles : d'.files.map FileRecord.untimed = d.files.map FileRecord.untimed)
    (hversions : d'.versions = d.versions ++ [v]) (hchunks : d'.chunks = d.chunks ++ rows) :
    Mirrors d' { m with
      versions := m.versions.set (uuidOut v.fileId) (m.versionsOf v.fileId ++ [v'])
      chunks := m.chunks.set (uuidOut v.id) rows } := by
  have hof := versionsOf_push m v.fileId v'
  have hnew : uuidOut v.id ∉ m.chunks.entries.map Prod.fst := key_new h.chunk_keys hid
  have hkeys : d'.files.map (fun f => uuidOut f.id) = d.files.map fun f => uuidOut f.id := by
    have hmap := congrArg (List.map fun f => uuidOut f.id) hfiles
    rw [List.map_map, List.map_map] at hmap
    exact hmap
  exact {
    files := by
      rw [hfiles]
      exact h.files
    file_keys := h.file_keys
    versions := by
      intro fileId
      rw [hversions, ← h.versions_push huntimed]
      exact congrArg _ (hof fileId)
    numbers := by
      intro fileId
      obtain ⟨-, hnumber', -⟩ := FileVersionRecord.eq_of_untimed huntimed
      rw [InMemory.versionsOf, hof fileId]
      exact h.numbers_push (hnumber'.trans hnumber) fileId
    version_count := by
      rw [hversions, List.length_append, List.length_singleton]
      exact h.version_count_push v.fileId v'
    version_keys := by
      rw [hkeys]
      intro k hk
      rcases List.mem_cons.mp (InsertionMap.keys_set _ _ _ hk) with rfl | hk
      · obtain ⟨f, hf, heq⟩ := List.mem_map.mp hfile
        exact List.mem_map.mpr ⟨f, hf, congrArg uuidOut heq⟩
      · exact h.version_keys k hk
    chunks := by
      show (m.chunks.set (uuidOut v.id) rows).values.flatten = _
      rw [InsertionMap.values, InsertionMap.entries_set_of_new hnew, List.map_append,
        List.flatten_append, hchunks, ← h.chunks]
      exact congrArg _ (List.append_nil rows)
    chunk_lists := by
      rw [hchunks]
      exact h.chunk_lists_push (InsertionMap.get_eq_none.mpr hnew) hrows
    chunk_keys := by
      rw [hversions, List.map_append, List.map_singleton]
      exact InsertionMap.keys_set_concat h.chunk_keys }

/-- The double marks the record of the file, and no other. -/
theorem softDeleteFile_entries (h : Mirrors d m) {id : Uuid} {g : FileRecord}
    (hg : m.files.get (uuidOut id) = some g) :
    (m.softDeleteFile id).files.entries = m.files.entries.map fun e => (e.1, e.2.marked id) := by
  have hmem := InsertionMap.get_eq_some.mp hg
  have hkey : uuidOut id ∈ m.files.entries.map Prod.fst := List.mem_map_of_mem (f := Prod.fst) hmem
  have hentry : ∀ e ∈ m.files.entries,
      (if e.1 = uuidOut id then (e.1, { g with isDeleted := true }) else e) = (e.1, e.2.marked id) := by
    intro e he
    have hid := h.file_keys e he
    split_ifs with hsame
    · have heq : e.2 = g := InsertionMap.entry_unique (hsame ▸ he) hmem
      have hfile : g.id = id := (h.get_file.mp hg).2
      rw [heq, FileRecord.marked, if_pos hfile]
    · have hne : e.2.id ≠ id := fun heq => hsame (hid.trans (congrArg uuidOut heq))
      rw [FileRecord.marked, if_neg hne]
  rw [InMemory.softDeleteFile, hg, InsertionMap.entries_set_of_mem hkey]
  exact List.map_congr_left hentry

theorem softDeleteFile_untimed (d : Database) (now : Nat) (id : Uuid) :
    (d.softDeleteFile now id).files.map FileRecord.untimed =
      (d.files.map FileRecord.untimed).map (·.marked id) := by
  rw [Database.softDeleteFile, Database.updateFile_files, List.map_map, List.map_map]
  apply List.map_congr_left
  intro f _
  rw [Function.comp_apply, Function.comp_apply, ← FileRecord.marked_untimed, FileRecord.marked]
  split_ifs <;> rfl

theorem softDeleteFile (h : Mirrors d m) {id : Uuid} {g : FileRecord}
    (hg : m.files.get (uuidOut id) = some g) (now : Nat) :
    Mirrors (d.softDeleteFile now id) (m.softDeleteFile id) := by
  have hentries := h.softDeleteFile_entries hg
  have hsoft : (m.softDeleteFile id).versions = m.versions ∧
      (m.softDeleteFile id).chunks = m.chunks := by
    rw [InMemory.softDeleteFile, hg]
    exact ⟨rfl, rfl⟩
  have hids : (d.softDeleteFile now id).files.map (fun f => uuidOut f.id) =
      d.files.map fun f => uuidOut f.id := by
    have hmap := congrArg (List.map uuidOut) (d.updateFile_ids id
      (fun f => { f with isDeleted := true, updatedAt := now }) fun _ => rfl)
    rw [List.map_map, List.map_map] at hmap
    exact hmap
  exact {
    files := by
      have hleft : (m.softDeleteFile id).files.values.map FileRecord.untimed =
          (m.files.values.map FileRecord.untimed).map (·.marked id) := by
        rw [InsertionMap.values, hentries, InsertionMap.values, List.map_map, List.map_map, List.map_map,
          List.map_map]
        exact List.map_congr_left fun e _ => e.2.marked_untimed id
      rw [hleft, softDeleteFile_untimed, h.files]
    file_keys := by
      intro e he
      rw [hentries] at he
      obtain ⟨e', he', rfl⟩ := List.mem_map.mp he
      rw [FileRecord.marked_id]
      exact h.file_keys e' he'
    versions := by
      intro fileId
      rw [InMemory.versionsOf, hsoft.1]
      exact h.versions fileId
    numbers := by
      intro fileId
      rw [InMemory.versionsOf, hsoft.1]
      exact h.numbers fileId
    version_count := by
      rw [hsoft.1]
      exact h.version_count
    version_keys := by
      rw [hsoft.1, hids]
      exact h.version_keys
    chunks := by
      rw [InMemory.allChunks, hsoft.2]
      exact h.chunks
    chunk_lists := by
      rw [hsoft.2]
      exact h.chunk_lists
    chunk_keys := by
      rw [hsoft.2]
      exact h.chunk_keys }

end Mirrors
end IntelliStore.Metadata
