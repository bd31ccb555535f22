import IntelliStore.Metadata.Transactions
import Mathlib.Data.List.MinMax
import Mathlib.Data.List.Perm.Basic

/-! When the rows of a transaction can be committed, and what that does to the numbering. -/

namespace IntelliStore.Metadata
open Library Postgres

def FileVersionRecord.Storable (v : FileVersionRecord) : Prop :=
  isInt4 v.versionNumber = true ∧ isInt8 v.sizeBytes = true ∧ isText v.mimeType = true ∧
    isText v.checksum = true

def ChunkRecord.Storable (r : ChunkRecord) : Prop :=
  isInt4 r.chunkIndex = true ∧ isInt8 r.sizeBytes = true ∧ isText r.checksum = true ∧
    isText r.storageKey = true

def FileVersionRecord.number (v : FileVersionRecord) : Uuid × Nat := (v.fileId, v.versionNumber)

namespace Database
variable {d d' : Database} {v : FileVersionRecord} {rows : List ChunkRecord} {row : ChunkRecord}

/-! ### Insertions -/

/-- The version meets every constraint of its table. -/
structure Admits (d : Database) (v : FileVersionRecord) : Prop where
  storable : v.Storable
  id_new : v.id ∉ d.versions.map FileVersionRecord.id
  number_new : v.number ∉ d.versions.map FileVersionRecord.number
  file : v.fileId ∈ d.files.map FileRecord.id

theorem insertVersion_isOk : (∃ d', d.insertVersion v = .ok d') ↔ d.Admits v := by
  unfold insertVersion
  constructor
  · rintro ⟨d', h⟩
    split_ifs at h with hint htext hid hnumber hfile
    rw [Bool.and_eq_true] at hint htext
    exact ⟨⟨hint.1, hint.2, htext⟩, hid, hnumber, hfile⟩
  · rintro ⟨⟨hint4, hint8, htext⟩, hid, hnumber, hfile⟩
    have hkey : (v.fileId, v.versionNumber) ∉ d.versions.map fun v => (v.fileId, v.versionNumber) :=
      hnumber
    rw [dif_pos (by rw [hint4, hint8]; rfl), if_pos (by rw [htext.1, htext.2]; rfl), dif_neg hid,
      dif_neg hkey, dif_pos hfile]
    exact ⟨_, rfl⟩

theorem insertChunk_isOk : (∃ d', d.insertChunk row = .ok d') ↔ row.Storable ∧
    row.id ∉ d.chunks.map ChunkRecord.id ∧
    (row.fileVersionId, row.chunkIndex) ∉ d.chunks.map (fun c => (c.fileVersionId, c.chunkIndex)) ∧
    row.fileVersionId ∈ d.versions.map FileVersionRecord.id := by
  unfold insertChunk
  constructor
  · rintro ⟨d', h⟩
    split_ifs at h with hint htext hid hindex hversion
    rw [Bool.and_eq_true] at hint htext
    exact ⟨⟨hint.1, hint.2, htext⟩, hid, hindex, hversion⟩
  · rintro ⟨⟨hint4, hint8, htext⟩, hid, hindex, hversion⟩
    rw [if_pos (by rw [hint4, hint8]; rfl), if_pos (by rw [htext.1, htext.2]; rfl), dif_neg hid,
      dif_neg hindex, dif_pos hversion]
    exact ⟨_, rfl⟩

/-- The rows of a transaction meet every constraint together. -/
structure Insertable (d : Database) (v : FileVersionRecord) (rows : List ChunkRecord) : Prop where
  version : d.Admits v
  storable : ∀ r ∈ rows, r.Storable
  owned : ∀ r ∈ rows, r.fileVersionId = v.id
  ids_new : ∀ r ∈ rows, r.id ∉ d.chunks.map ChunkRecord.id
  ids : (rows.map ChunkRecord.id).Nodup
  indices : (rows.map ChunkRecord.chunkIndex).Nodup

theorem view_concat (d : Database) (v : FileVersionRecord) (rows : List ChunkRecord)
    (row : ChunkRecord) :
    (d.view v rows >>= fun d' => d'.insertChunk row) = d.view v (rows ++ [row]) := by
  unfold view
  cases d.insertVersion v with
  | error e => rfl
  | ok d' =>
    show (rows.foldlM insertChunk d' >>= fun d' => d'.insertChunk row) =
      (rows ++ [row]).foldlM insertChunk d'
    rw [List.foldlM_append]
    cases rows.foldlM insertChunk d' <;> simp

theorem view_ok (h : d.view v rows = .ok d') : d'.files = d.files ∧
    d'.versions = d.versions ++ [v] ∧ d'.chunks = d.chunks ++ rows := by
  unfold view at h
  cases hv : d.insertVersion v with
  | error e =>
    rw [hv] at h
    cases h
  | ok d₁ =>
    rw [hv] at h
    obtain ⟨hfiles, hversions, hchunks, -⟩ := insertVersion_ok hv
    obtain ⟨hfiles', hversions', hchunks'⟩ := foldlM_insertChunk_ok h
    exact ⟨hfiles'.trans hfiles, hversions'.trans hversions, by rw [hchunks', hchunks]⟩

/-- A version that is not there has no chunks. -/
theorem Admits.no_chunks (h : d.Admits v) {c : ChunkRecord} (hc : c ∈ d.chunks) :
    c.fileVersionId ≠ v.id := fun heq => h.id_new (heq ▸ d.chunks_version_fkey c hc)

theorem insertable_concat : d.Insertable v (rows ++ [row]) ↔
    d.Insertable v rows ∧ row.Storable ∧ row.fileVersionId = v.id ∧
      row.id ∉ d.chunks.map ChunkRecord.id ∧ row.id ∉ rows.map ChunkRecord.id ∧
      row.chunkIndex ∉ rows.map ChunkRecord.chunkIndex := by
  constructor
  · intro h
    obtain ⟨hstorable, hstorable'⟩ := List.forall_mem_append.mp h.storable
    obtain ⟨howned, howned'⟩ := List.forall_mem_append.mp h.owned
    obtain ⟨hnew, hnew'⟩ := List.forall_mem_append.mp h.ids_new
    have hids := h.ids
    have hindices := h.indices
    rw [List.map_append, List.map_singleton, List.nodup_append] at hids hindices
    refine ⟨⟨h.version, hstorable, howned, hnew, hids.1, hindices.1⟩,
      hstorable' row List.mem_cons_self, howned' row List.mem_cons_self,
      hnew' row List.mem_cons_self, fun hmem => ?_, fun hmem => ?_⟩
    · exact hids.2.2 _ hmem _ (List.mem_singleton_self _) rfl
    · exact hindices.2.2 _ hmem _ (List.mem_singleton_self _) rfl
  · rintro ⟨h, hstorable, howned, hnew, hid, hindex⟩
    exact ⟨h.version,
      List.forall_mem_append.mpr ⟨h.storable, List.forall_mem_singleton.mpr hstorable⟩,
      List.forall_mem_append.mpr ⟨h.owned, List.forall_mem_singleton.mpr howned⟩,
      List.forall_mem_append.mpr ⟨h.ids_new, List.forall_mem_singleton.mpr hnew⟩,
      nodup_map_concat h.ids hid, nodup_map_concat h.indices hindex⟩

/-- The chunk of a version that is not committed meets only rows of its own transaction. -/
theorem view_insertChunk_isOk (hview : d.view v rows = .ok d') (h : d.Insertable v rows)
    (hrow : row.fileVersionId = v.id) : (∃ d₂, d'.insertChunk row = .ok d₂) ↔
      row.Storable ∧ row.id ∉ d.chunks.map ChunkRecord.id ∧ row.id ∉ rows.map ChunkRecord.id ∧
        row.chunkIndex ∉ rows.map ChunkRecord.chunkIndex := by
  obtain ⟨-, hversions, hchunks⟩ := view_ok hview
  have hversion : row.fileVersionId ∈ d'.versions.map FileVersionRecord.id := by
    rw [hversions, hrow]
    exact List.mem_map_of_mem List.mem_concat_self
  have hindex : (row.fileVersionId, row.chunkIndex) ∈
      d'.chunks.map (fun c => (c.fileVersionId, c.chunkIndex)) ↔
        row.chunkIndex ∈ rows.map ChunkRecord.chunkIndex := by
    rw [hchunks, List.map_append, List.mem_append]
    constructor
    · rintro (hmem | hmem)
      · obtain ⟨c, hc, heq⟩ := List.mem_map.mp hmem
        exact absurd ((congrArg Prod.fst heq).trans hrow) (h.version.no_chunks hc)
      · obtain ⟨r, hr, heq⟩ := List.mem_map.mp hmem
        exact List.mem_map.mpr ⟨r, hr, congrArg Prod.snd heq⟩
    · intro hmem
      obtain ⟨r, hr, heq⟩ := List.mem_map.mp hmem
      refine .inr (List.mem_map.mpr ⟨r, hr, ?_⟩)
      rw [h.owned r hr, hrow, heq]
  rw [insertChunk_isOk, hindex, hchunks, List.map_append, List.mem_append, not_or]
  constructor
  · rintro ⟨hstorable, ⟨hnew, hid⟩, hfree, -⟩
    exact ⟨hstorable, hnew, hid, hfree⟩
  · rintro ⟨hstorable, hnew, hid, hfree⟩
    exact ⟨hstorable, ⟨hnew, hid⟩, hfree, hversion⟩

theorem view_isOk (howned : ∀ r ∈ rows, r.fileVersionId = v.id) :
    (∃ d', d.view v rows = .ok d') ↔ d.Insertable v rows := by
  induction rows using List.reverseRecOn with
  | nil =>
    have hview : d.view v [] = d.insertVersion v := by
      unfold view
      cases d.insertVersion v <;> rfl
    rw [hview, insertVersion_isOk]
    exact ⟨fun h => ⟨h, by simp, by simp, by simp, List.nodup_nil, List.nodup_nil⟩,
      fun h => h.version⟩
  | append_singleton rows row ih =>
    obtain ⟨hrows, hrow⟩ := List.forall_mem_append.mp howned
    have hrow := List.forall_mem_singleton.mp hrow
    rw [← view_concat, insertable_concat, ← ih hrows]
    constructor
    · rintro ⟨d₂, h⟩
      cases hview : d.view v rows with
      | error e =>
        rw [hview] at h
        cases h
      | ok d₁ =>
        rw [hview] at h
        obtain ⟨hstorable, hnew⟩ :=
          (view_insertChunk_isOk hview ((ih hrows).mp ⟨d₁, hview⟩) hrow).mp ⟨d₂, h⟩
        exact ⟨⟨d₁, rfl⟩, hstorable, hrow, hnew⟩
    · rintro ⟨⟨d₁, hview⟩, hstorable, -, hnew⟩
      rw [hview]
      exact (view_insertChunk_isOk hview ((ih hrows).mp ⟨d₁, hview⟩) hrow).mpr ⟨hstorable, hnew⟩

/-- The rows of one transaction leave room for those of another with other keys. -/
structure Apart (v w : FileVersionRecord) (rows rows' : List ChunkRecord) : Prop where
  ids : v.id ≠ w.id
  numbers : v.number ≠ w.number
  chunks : ∀ r ∈ rows, ∀ r' ∈ rows', r.id ≠ r'.id

theorem Insertable.keep {w : FileVersionRecord} {rows' : List ChunkRecord}
    (h : d.Insertable v rows) (hfiles : d.files.map FileRecord.id ⊆ d'.files.map FileRecord.id)
    (hversions : d'.versions = d.versions ++ [w]) (hchunks : d'.chunks = d.chunks ++ rows')
    (hapart : Apart v w rows rows') : d'.Insertable v rows := by
  refine ⟨⟨h.version.storable, ?_, ?_, hfiles h.version.file⟩, h.storable, h.owned, ?_, h.ids,
    h.indices⟩
  · rw [hversions, List.map_append, List.mem_append, not_or]
    exact ⟨h.version.id_new, fun hmem => hapart.ids (List.mem_singleton.mp hmem)⟩
  · rw [hversions, List.map_append, List.mem_append, not_or]
    exact ⟨h.version.number_new, fun hmem => hapart.numbers (List.mem_singleton.mp hmem)⟩
  · intro r hr
    rw [hchunks, List.map_append, List.mem_append, not_or]
    refine ⟨h.ids_new r hr, fun hmem => ?_⟩
    obtain ⟨r', hr', heq⟩ := List.mem_map.mp hmem
    exact hapart.chunks r hr r' hr' heq.symm

theorem Insertable.congr (h : d.Insertable v rows)
    (hfiles : d.files.map FileRecord.id ⊆ d'.files.map FileRecord.id)
    (hversions : d'.versions = d.versions) (hchunks : d'.chunks = d.chunks) :
    d'.Insertable v rows := by
  refine ⟨⟨h.version.storable, ?_, ?_, hfiles h.version.file⟩, h.storable, h.owned, ?_, h.ids,
    h.indices⟩
  · rw [hversions]
    exact h.version.id_new
  · rw [hversions]
    exact h.version.number_new
  · rw [hchunks]
    exact h.ids_new

/-! ### Numbers -/

theorem lt_nextVersionNumber {v : FileVersionRecord} (hv : v ∈ d.versions) :
    v.versionNumber < d.nextVersionNumber v.fileId := by
  have hmem : v.versionNumber ∈
      (d.versions.filter (·.fileId == v.fileId)).map FileVersionRecord.versionNumber :=
    List.mem_map_of_mem (List.mem_filter.mpr ⟨hv, beq_self_eq_true _⟩)
  exact Nat.lt_succ_of_le (List.le_max_of_le' 0 hmem le_rfl)

theorem nextVersionNumber_concat (h : d'.versions = d.versions ++ [v]) (fileId : Uuid) :
    d'.nextVersionNumber fileId = if v.fileId = fileId then
      max (d.nextVersionNumber fileId) (v.versionNumber + 1) else d.nextVersionNumber fileId := by
  rw [nextVersionNumber, h, List.filter_append, List.map_append, nextVersionNumber]
  split_ifs with hfile
  · rw [List.filter_singleton, beq_iff_eq.mpr hfile, cond_true, List.map_singleton,
      foldr_max_concat, Nat.add_max_add_right]
  · rw [List.filter_singleton, beq_eq_false_iff_ne.mpr hfile, cond_false, List.map_nil,
      List.append_nil]

theorem nextVersionNumber_congr (h : d'.versions = d.versions) (fileId : Uuid) :
    d'.nextVersionNumber fileId = d.nextVersionNumber fileId := by
  rw [nextVersionNumber, h, nextVersionNumber]

end Database

/-! ### What a statement does -/

namespace Session

theorem holdsVersion_eq_false {o : Session} {v w : FileVersionRecord} {rows : List ChunkRecord}
    (h : o.holdsVersion v = false) (hpending : o.stage.pending = some (w, rows)) :
    v.id ≠ w.id ∧ v.number ≠ w.number := by
  rw [holdsVersion, hpending] at h
  have hneither := not_or.mp (of_decide_eq_false h)
  exact ⟨Ne.symm hneither.1, Ne.symm hneither.2⟩

theorem holdsChunk_eq_false {o : Session} {row : ChunkRecord} {w : FileVersionRecord}
    {rows : List ChunkRecord} (h : o.holdsChunk row = false)
    (hpending : o.stage.pending = some (w, rows)) : ∀ r ∈ rows, row.id ≠ r.id := by
  rw [holdsChunk, hpending] at h
  intro r hr
  have hneither := not_or.mp fun hor => List.any_eq_false.mp h r hr (decide_eq_true hor)
  exact Ne.symm hneither.1

/-- Why a statement of the transaction fails. -/
def Rejected (c : Session) (d : Database) : Prop :=
  match c.stage with
  | .selectingNumber fileId => isInt4 (d.nextVersionNumber fileId) = false
  | .insertingVersion fileId next => ¬∃ d', d.insertVersion (c.newVersion fileId next) = .ok d'
  | .insertingChunks version inserted (chunk :: _) =>
    ¬∃ d', d.view version (inserted ++ [c.newChunk version inserted chunk]) = .ok d'
  | .committing version inserted => ¬∃ d', d.view version inserted = .ok d'
  | _ => False

inductive Advances (c : Session) (d : Database) (others : List Session) : Database → Stage → Prop
  | registered {input : CreateFileInput} {file : FileRecord} {d' : Database}
      (hstage : c.stage = .arrived) (hcall : c.request.call = .registerFile input)
      (hcreate : d.createFile c.request.generated c.request.ownerId input.fileName =
        .ok (file, d')) : Advances c d others d' (.selectingNumber file.id)
  | found {fileId : String} {input : CreateVersionInput} {file : FileRecord}
      (hstage : c.stage = .arrived) (hcall : c.request.call = .addVersion fileId input)
      (hfile : FileService.getOwnedFile d c.request.ownerId fileId = .ok file) :
      Advances c d others d (.selectingNumber file.id)
  | refused {e : ServiceError} (hstage : c.stage = .arrived)
      (hcall : ∀ fileId input, c.request.call = .addVersion fileId input →
        FileService.getOwnedFile d c.request.ownerId fileId = .error e) :
      Advances c d others d (.ended (.error e))
  | numbered {fileId : Uuid} (hstage : c.stage = .selectingNumber fileId)
      (hint : isInt4 (d.nextVersionNumber fileId) = true) :
      Advances c d others d (.insertingVersion fileId (d.nextVersionNumber fileId))
  | wroteVersion {fileId : Uuid} {next : Nat} (hstage : c.stage = .insertingVersion fileId next)
      (hfree : ∀ o ∈ others, o.holdsVersion (c.newVersion fileId next) = false)
      (hadmits : d.Admits (c.newVersion fileId next)) :
      Advances c d others d (.insertingChunks (c.newVersion fileId next) [] c.input.chunks)
  | wroteChunk {version : FileVersionRecord} {inserted : List ChunkRecord} {chunk : ChunkInput}
      {chunks : List ChunkInput} {d' : Database}
      (hstage : c.stage = .insertingChunks version inserted (chunk :: chunks))
      (hfree : ∀ o ∈ others, o.holdsChunk (c.newChunk version inserted chunk) = false)
      (hview : d.view version (inserted ++ [c.newChunk version inserted chunk]) = .ok d') :
      Advances c d others d (.insertingChunks version
        (inserted ++ [c.newChunk version inserted chunk]) chunks)
  | touched {version : FileVersionRecord} {inserted : List ChunkRecord}
      (hstage : c.stage = .insertingChunks version inserted [])
      (hfree : ∀ o ∈ others, o.locksFile version.fileId = false) :
      Advances c d others d (.committing version inserted)
  | committed {version : FileVersionRecord} {inserted : List ChunkRecord} {d' : Database}
      (hstage : c.stage = .committing version inserted) (hview : d.view version inserted = .ok d') :
      Advances c d others (d'.touchFile c.request.generated.now version.fileId)
        (.ended (.ok ⟨version, inserted⟩))
  | failed {e : ServiceError} (hrejected : c.Rejected d) :
      Advances c d others d (.rollingBack c.stage.pending e)
  | rolledBack {held : Option (FileVersionRecord × List ChunkRecord)} {e : ServiceError}
      (hstage : c.stage = .rollingBack held e) : Advances c d others d (.ended (.error e))

theorem advances_failed {c : Session} {d : Database} {others : List Session} {stage : Stage}
    {e : ServiceError} (hstage : c.stage = stage) (hrejected : c.Rejected d) :
    c.Advances d others d (.rollingBack stage.pending e) := hstage ▸ .failed hrejected

theorem not_ok_of_error {ε α : Type} {x : Except ε α} {e : ε} (h : x = .error e) :
    ¬∃ a, x = .ok a := by
  rintro ⟨a, ha⟩
  rw [h] at ha
  cases ha

theorem forall_of_not_any {p : Session → Bool} {others : List Session}
    (h : ¬others.any p = true) : ∀ o ∈ others, p o = false :=
  fun o ho => eq_false_of_ne_true fun hp => h (List.any_eq_true.mpr ⟨o, ho, hp⟩)

theorem advance_arrived_inv {c : Session} {d d' : Database} {others : List Session} {stage : Stage}
    (hstage : c.stage = .arrived) (h : c.advance d others = some (d', stage)) :
    c.Advances d others d' stage := by
  unfold advance at h
  rw [hstage] at h
  dsimp only at h
  cases hcall : c.request.call with
  | registerFile input =>
    rw [hcall] at h
    dsimp only at h
    cases hcreate : d.createFile c.request.generated c.request.ownerId input.fileName with
    | error e =>
      rw [hcreate] at h
      cases h
      exact .refused hstage fun _ _ heq => (by rw [hcall] at heq; cases heq)
    | ok res =>
      rw [hcreate] at h
      cases h
      exact .registered hstage hcall hcreate
  | addVersion fileId input =>
    rw [hcall] at h
    dsimp only at h
    cases hfile : FileService.getOwnedFile d c.request.ownerId fileId with
    | error e =>
      rw [hfile] at h
      cases h
      refine .refused hstage fun _ _ heq => ?_
      rw [hcall] at heq
      cases heq
      exact hfile
    | ok file =>
      rw [hfile] at h
      cases h
      exact .found hstage hcall hfile
  | _ =>
    rw [hcall] at h
    cases h

theorem advance_chunk_inv {c : Session} {d d' : Database} {others : List Session} {stage : Stage}
    {v : FileVersionRecord} {rows : List ChunkRecord} {chunk : ChunkInput} {rest : List ChunkInput}
    (hstage : c.stage = .insertingChunks v rows (chunk :: rest))
    (h : c.advance d others = some (d', stage)) : c.Advances d others d' stage := by
  unfold advance at h
  rw [hstage] at h
  dsimp only at h
  split_ifs at h with hfree
  rw [Database.view_concat] at h
  cases hview : d.view v (rows ++ [c.newChunk v rows chunk]) with
  | error e =>
    rw [hview] at h
    cases h
    have hrejected : c.Rejected d := by
      rw [Rejected, hstage]
      exact not_ok_of_error hview
    exact advances_failed hstage hrejected
  | ok d₁ =>
    rw [hview] at h
    cases h
    exact .wroteChunk hstage (forall_of_not_any hfree) hview

theorem advance_inv {c : Session} {d d' : Database} {others : List Session} {stage : Stage}
    (h : c.advance d others = some (d', stage)) : c.Advances d others d' stage := by
  cases hstage : c.stage with
  | arrived => exact advance_arrived_inv hstage h
  | selectingNumber fileId =>
    unfold advance at h
    rw [hstage] at h
    dsimp only at h
    split_ifs at h with hint
    · cases h
      exact .numbered hstage hint
    · cases h
      have hrejected : c.Rejected d := by
        rw [Rejected, hstage]
        exact eq_false_of_ne_true hint
      exact advances_failed hstage hrejected
  | insertingVersion fileId next =>
    unfold advance at h
    rw [hstage] at h
    dsimp only at h
    split_ifs at h with hfree
    cases hinsert : d.insertVersion (c.newVersion fileId next) with
    | error e =>
      rw [hinsert] at h
      cases h
      have hrejected : c.Rejected d := by
        rw [Rejected, hstage]
        exact not_ok_of_error hinsert
      exact advances_failed hstage hrejected
    | ok d₁ =>
      rw [hinsert] at h
      cases h
      exact .wroteVersion hstage (forall_of_not_any hfree)
        (Database.insertVersion_isOk.mp ⟨d₁, hinsert⟩)
  | insertingChunks version inserted chunks =>
    cases chunks with
    | nil =>
      unfold advance at h
      rw [hstage] at h
      dsimp only at h
      split_ifs at h with hfree
      cases h
      exact .touched hstage (forall_of_not_any hfree)
    | cons chunk chunks => exact advance_chunk_inv hstage h
  | committing version inserted =>
    unfold advance at h
    rw [hstage] at h
    dsimp only at h
    cases hview : d.view version inserted with
    | error e =>
      rw [hview] at h
      cases h
      have hrejected : c.Rejected d := by
        rw [Rejected, hstage]
        exact not_ok_of_error hview
      exact advances_failed hstage hrejected
    | ok d₁ =>
      rw [hview] at h
      cases h
      exact .committed hstage hview
  | rollingBack held e =>
    unfold advance at h
    rw [hstage] at h
    cases h
    exact .rolledBack hstage
  | ended result =>
    unfold advance at h
    rw [hstage] at h
    cases h

end Session

theorem Sessions.step_inv {s s' : Sessions} {a : Action} (h : s.step a = some s') :
    (∃ r input, a = .arrive r ∧ r.call.registration = some input ∧
      s' = ⟨s.committed, s.calls ++ [⟨r, input, .arrived⟩]⟩) ∨
    ∃ i c d stage, a = .proceed i ∧ s.calls[i]? = some c ∧
      c.Advances s.committed (s.calls.eraseIdx i) d stage ∧
      s' = ⟨d, s.calls.set i { c with stage := stage }⟩ := by
  cases a with
  | arrive r =>
    simp only [step] at h
    cases hr : r.call.registration with
    | none =>
      rw [hr] at h
      cases h
    | some input =>
      rw [hr] at h
      cases h
      exact .inl ⟨r, input, rfl, hr, rfl⟩
  | proceed i =>
    obtain ⟨c, d, stage, hi, hc, rfl⟩ := proceed_inv h
    exact .inr ⟨i, c, d, stage, rfl, hi, Session.advance_inv hc, rfl⟩

end IntelliStore.Metadata
