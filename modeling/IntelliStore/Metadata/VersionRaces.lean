import IntelliStore.Metadata.VersionNumbering
import Mathlib.Data.List.Pairwise

/-! Versions added at the same time: two transactions that read the same number cannot both be
committed, and the transactions that read different ones do not meet. -/

namespace IntelliStore.Metadata
open Library Postgres

/-- The size of the version fits into a BIGINT, and no text has a NUL. -/
def CreateVersionInput.Storable (input : CreateVersionInput) : Prop :=
  isInt8 (FileService.totalSize input.chunks) = true ∧ isText input.mimeType = true ∧
    isText input.checksum = true ∧
    ∀ chunk ∈ input.chunks, isText chunk.checksum = true ∧ isText chunk.storageKey = true

namespace Stage

/-- The number a transaction has read, until it ends. -/
def claim : Stage → Option (Uuid × Nat)
  | .insertingVersion fileId next => some (fileId, next)
  | .insertingChunks version _ _ => some version.number
  | .committing version _ => some version.number
  | _ => none

/-- The number a call has read, or has returned. -/
def number : Stage → Option (Uuid × Nat)
  | .ended (.ok r) => some r.version.number
  | stage => stage.claim

def failing : Stage → Bool
  | .rollingBack _ _ => true
  | .ended (.error _) => true
  | _ => false

def Distinct (p q : Stage) : Prop := ∀ k, p.number = some k → q.number ≠ some k

theorem Distinct.symm {p q : Stage} (h : p.Distinct q) : q.Distinct p := fun k hq hp => h k hp hq

theorem number_of_claim {stage : Stage} {k : Uuid × Nat} (h : stage.claim = some k) :
    stage.number = some k := by
  cases stage with
  | ended result => cases h
  | _ => exact h

end Stage

/-- The request succeeded, and its version is there. -/
def Session.Succeeded (d : Database) (c : Session) : Prop :=
  ∃ r, c.stage = .ended (.ok r) ∧ r.version ∈ d.versions

/-- The statements a call has still to send, at most. -/
def Session.left (c : Session) : Nat :=
  match c.stage with
  | .arrived => c.input.chunks.length + 6
  | .selectingNumber _ => c.input.chunks.length + 5
  | .insertingVersion _ _ => c.input.chunks.length + 4
  | .insertingChunks _ _ chunks => chunks.length + 3
  | .committing _ _ => 2
  | .rollingBack _ _ => 1
  | .ended _ => 0

namespace Sessions

def left (s : Sessions) : Nat := (s.calls.map Session.left).sum

/-- The owner of a live file adds a version to it, with new ids. -/
def AddsVersion (s : Sessions) (r : Request) : Prop :=
  match r.call with
  | .addVersion fileId input =>
    (FileService.getOwnedFile s.committed r.ownerId fileId).isOk = true ∧
      createVersionSchema input = true ∧ (input.chunks.map ChunkInput.chunkIndex).Nodup ∧
      (∀ chunk ∈ input.chunks, isInt4 chunk.chunkIndex = true) ∧ r.newIds.Nodup ∧
      ∀ id ∈ r.newIds, id ∉ s.committed.ids ∧ ∀ c ∈ s.calls, id ∉ c.request.newIds
  | _ => False

def Admissible (s : Sessions) : Action → Prop
  | .arrive r => s.AddsVersion r
  | .proceed _ => True

/-- What is registered can be stored, and a number is read while no other transaction of the
file has read one and not ended. -/
def Undivided (s : Sessions) : Action → Prop
  | .arrive r => ∀ input, r.call.registration = some input → input.Storable
  | .proceed i => ∀ c fileId, s.calls[i]? = some c → c.stage = .selectingNumber fileId →
      isInt4 (s.committed.nextVersionNumber fileId) = true ∧
        ∀ o ∈ s.calls, ∀ n, o.stage.claim ≠ some (fileId, n)

/-! ### A run on which nothing fails -/

/-- No call has failed so far, and no number was read twice. -/
structure Promising (s : Sessions) : Prop where
  calls : ∀ c ∈ s.calls, c.stage.failing = false ∧ c.input.Storable
  numbers : s.calls.Pairwise fun c o => c.stage.Distinct o.stage

variable {d₀ d : Database} {s s' : Sessions} {c : Session} {i : Nat} {stage : Stage}

/-- After a step that does not fail, the call had not failed before, and it has the number it
had. -/
theorem kept_of_not_failing {others : List Session} (h : c.Advances s.committed others d stage)
    (hstage : stage.failing = false) :
    c.stage.failing = false ∧ ∀ k, c.stage.number = some k → stage.number = some k := by
  cases h with
  | registered hbefore _ _ =>
    rw [hbefore]
    exact ⟨rfl, fun k hk => (by cases hk)⟩
  | found hbefore _ _ =>
    rw [hbefore]
    exact ⟨rfl, fun k hk => (by cases hk)⟩
  | numbered hbefore _ =>
    rw [hbefore]
    exact ⟨rfl, fun k hk => (by cases hk)⟩
  | wroteVersion hbefore _ _ =>
    rw [hbefore]
    exact ⟨rfl, fun k hk => hk⟩
  | wroteChunk hbefore _ _ =>
    rw [hbefore]
    exact ⟨rfl, fun k hk => hk⟩
  | touched hbefore _ =>
    rw [hbefore]
    exact ⟨rfl, fun k hk => hk⟩
  | committed hbefore _ =>
    rw [hbefore]
    exact ⟨rfl, fun k hk => hk⟩
  | refused _ _ => cases hstage
  | failed _ => cases hstage
  | rolledBack _ => cases hstage

/-- A number between those of the start and the next one is taken by a result, or it is the
next one. -/
theorem claim_cases (hsound : s.Sound d₀) {o : Session} (ho : o ∈ s.calls) {fileId : Uuid} {n : Nat}
    (hclaim : o.stage.claim = some (fileId, n)) :
    n = s.committed.nextVersionNumber fileId ∨
      ∃ c ∈ s.calls, c.stage.claim = none ∧ c.stage.number = some (fileId, n) := by
  have hproper := hsound.proper o ho
  have hwithin : Within d₀ s.committed fileId n := by
    unfold Session.Proper at hproper
    cases hstage : o.stage with
    | insertingVersion f m =>
      rw [hstage] at hproper hclaim
      cases hclaim
      exact hproper
    | insertingChunks v rows rest =>
      rw [hstage] at hproper hclaim
      cases hclaim
      exact hproper.2.2
    | committing v rows =>
      rw [hstage] at hproper hclaim
      cases hclaim
      exact hproper.2.2
    | _ =>
      rw [hstage] at hclaim
      cases hclaim
  rcases hwithin.2.eq_or_lt with heq | hlt
  · exact .inl heq
  · obtain ⟨r, hr, hfile, hnumber⟩ := hsound.numbers fileId n hwithin.1 hlt
    obtain ⟨c, hc, hstage⟩ := mem_results.mp hr
    refine .inr ⟨c, hc, ?_, ?_⟩
    · rw [hstage]
      rfl
    · rw [hstage, ← hfile, ← hnumber]
      rfl

/-- A step after which nothing has failed is undivided, and nothing had failed before it. -/
theorem Promising.back (hsound : s.Sound d₀) {a : Action} (h : s.step a = some s')
    (hs' : s'.Promising) : s.Promising ∧ s.Undivided a := by
  rcases step_inv h with ⟨r, input, rfl, hr, rfl⟩ | ⟨i, c, d, stage, rfl, hi, hstep, rfl⟩
  · obtain ⟨hcalls, hnew⟩ := List.forall_mem_append.mp hs'.calls
    refine ⟨⟨hcalls, (List.pairwise_append.mp hs'.numbers).1⟩, fun input' hinput => ?_⟩
    rw [hr] at hinput
    cases hinput
    exact (List.forall_mem_singleton.mp hnew).2
  · obtain ⟨hc, hothers⟩ := (forall_mem_set hi).mp hs'.calls
    obtain ⟨hone, hpairs⟩ := (pairwise_set hi Stage.Distinct.symm _).mp hs'.numbers
    obtain ⟨hbefore, hnumber⟩ := kept_of_not_failing hstep hc.1
    have hnumbers : s.calls.Pairwise fun c o => c.stage.Distinct o.stage := by
      refine (pairwise_others hi Stage.Distinct.symm).mpr ⟨fun o ho k hk => ?_, hpairs⟩
      exact hone o ho k (hnumber k hk)
    have hcalls : ∀ o ∈ s.calls, o.stage.failing = false ∧ o.input.Storable :=
      (forall_mem_others hi).mpr ⟨⟨hbefore, hc.2⟩, hothers⟩
    refine ⟨⟨hcalls, hnumbers⟩, fun c' fileId hi' hselecting => ?_⟩
    obtain rfl : c = c' := Option.some_inj.mp (hi.symm.trans hi')
    have hnumbered : isInt4 (s.committed.nextVersionNumber fileId) = true ∧
        stage.number = some (fileId, s.committed.nextVersionNumber fileId) := by
      cases hstep with
      | numbered hbefore hint =>
        rw [hselecting] at hbefore
        cases hbefore
        exact ⟨hint, rfl⟩
      | failed _ => cases hc.1
      | rolledBack _ => cases hc.1
      | _ => simp_all
    refine ⟨hnumbered.1, fun o ho n hclaim => ?_⟩
    -- the other number is the one read here, or that of a version committed since
    rcases claim_cases hsound ho hclaim with rfl | ⟨c', hc', hended, htaken⟩
    · rcases List.mem_cons.mp ((perm_others hi).mem_iff.mp ho) with rfl | ho
      · rw [hselecting] at hclaim
        cases hclaim
      · exact hone o ho _ hnumbered.2 (Stage.number_of_claim hclaim)
    · have : Std.Symm fun c o : Session => c.stage.Distinct o.stage :=
        ⟨fun _ _ => Stage.Distinct.symm⟩
      have hne : o ≠ c' := fun heq => by
        rw [heq, hended] at hclaim
        cases hclaim
      exact hnumbers.forall ho hc' hne _ (Stage.number_of_claim hclaim) htaken

/-- A run to a state in which nothing has failed is undivided. -/
theorem along_undivided {as : List Action} (hrun : as.foldlM step (Sessions.init d₀) = some s)
    (hs : s.Promising) : Along step Undivided (Sessions.init d₀) as := by
  induction as using List.reverseRecOn generalizing s with
  | nil => trivial
  | append_singleton as a ih =>
    rw [List.foldlM_append] at hrun
    obtain ⟨t, ht, hlast⟩ := Option.bind_eq_some_iff.mp hrun
    have hstep : t.step a = some s := by simpa using hlast
    have hreach : Reach step (fun _ _ => True) (Sessions.init d₀) t :=
      (along_of_forall fun _ _ _ => trivial).reach ht
    obtain ⟨hbefore, hundivided⟩ := hs.back (sound_of_reach hreach) hstep
    refine along_append.mpr ⟨ih ht hbefore, fun u hu => ?_⟩
    rw [ht] at hu
    cases hu
    exact ⟨hundivided, fun _ _ => trivial⟩

end Sessions

/-! ### A run that is undivided -/

/-- What the call asks for can be stored in a file of its owner. -/
structure Session.Valid (d : Database) (c : Session) : Prop where
  owned : ∃ fileId file, c.request.call = .addVersion fileId c.input ∧
    FileService.getOwnedFile d c.request.ownerId fileId = .ok file
  storable : c.input.Storable
  indices : (c.input.chunks.map ChunkInput.chunkIndex).Nodup
  ints : ∀ chunk ∈ c.input.chunks, isInt4 chunk.chunkIndex = true
  ids : c.request.newIds.Nodup

/-- No other number is read, and the one that was read is still the next. -/
structure Stage.Calm (d : Database) (stage : Stage) : Prop where
  succeeds : stage.failing = false
  selecting : ∀ fileId, stage = .selectingNumber fileId → fileId ∈ d.files.map FileRecord.id
  claims : ∀ fileId n, stage.claim = some (fileId, n) → n = d.nextVersionNumber fileId ∧
    isInt4 n = true ∧ fileId ∈ d.files.map FileRecord.id

def Stage.Divided (p q : Stage) : Prop :=
  ∀ fileId m n, p.claim = some (fileId, m) → q.claim ≠ some (fileId, n)

theorem Stage.Divided.symm {p q : Stage} (h : p.Divided q) : q.Divided p :=
  fun fileId m n hq hp => h fileId n m hp hq

/-- A stage that keeps the number of the one before. -/
theorem Stage.Calm.keep {d : Database} {p q : Stage} (h : p.Calm d) (hfailing : q.failing = false)
    (hselecting : ∀ fileId, q ≠ .selectingNumber fileId) (hclaim : q.claim = p.claim) :
    q.Calm d where
  succeeds := hfailing
  selecting := fun fileId hq => absurd hq (hselecting fileId)
  claims := fun fileId n hq => h.claims fileId n (hclaim.symm.trans hq)

theorem Stage.Divided.keep {p q r : Stage} (h : p.Divided r) (hclaim : q.claim = p.claim) :
    q.Divided r := fun fileId m n hq => h fileId m n (hclaim.symm.trans hq)

theorem Stage.divided_of_none {p q : Stage} (h : p.claim = none) : p.Divided q := by
  intro fileId m n hp
  rw [h] at hp
  cases hp

namespace Session
variable {d d' : Database} {c : Session}

theorem version_mem_newIds (c : Session) : c.request.generated.version ∈ c.request.newIds :=
  List.mem_cons_of_mem _ List.mem_cons_self

theorem Valid.rows_ids (h : c.Valid d) (versionId : Uuid) :
    ((Database.chunkRows c.request.generated versionId 0 c.input.chunks).map
      ChunkRecord.id).Sublist c.request.newIds := by
  obtain ⟨fileId, -, hcall, -⟩ := h.owned
  rw [Database.chunkRows_map_id, ← List.range_eq_range', Request.newIds, Generated.ids, hcall]
  exact ((List.Sublist.refl _).cons _).cons _

theorem Valid.rows_storable (h : c.Valid d) (versionId : Uuid) :
    ∀ row ∈ Database.chunkRows c.request.generated versionId 0 c.input.chunks, row.Storable := by
  intro row hrow
  have hinput : row.input ∈ c.input.chunks := by
    rw [← Database.chunkRows_map_input c.request.generated versionId 0 c.input.chunks]
    exact List.mem_map_of_mem hrow
  obtain ⟨htotal, -, -, htexts⟩ := h.storable
  exact ⟨h.ints _ hinput, FileService.isInt8_of_totalSize htotal hinput, htexts _ hinput⟩

/-- What a call asks for does not depend on its stage. -/
theorem Valid.at (h : c.Valid d) (stage : Stage) : ({ c with stage := stage } : Session).Valid d :=
  ⟨h.owned, h.storable, h.indices, h.ints, h.ids⟩

/-- The rows of a call can be inserted one by one, if their ids are new. -/
theorem Valid.insertable (h : c.Valid d) {v : FileVersionRecord} {rows : List ChunkRecord}
    (hadmits : d'.Admits v)
    (hnew : ∀ id ∈ c.request.newIds, id ∉ d'.chunks.map ChunkRecord.id)
    (hfirst : rows <+: Database.chunkRows c.request.generated v.id 0 c.input.chunks) :
    d'.Insertable v rows := by
  have hsub := hfirst.sublist
  have hids := (hsub.map ChunkRecord.id).trans (h.rows_ids v.id)
  refine ⟨hadmits, fun r hr => h.rows_storable v.id r (hsub.subset hr),
    fun r hr => Database.fileVersionId_of_mem_chunkRows (hsub.subset hr),
    fun r hr => hnew _ (hids.subset (List.mem_map_of_mem hr)), h.ids.sublist hids, ?_⟩
  have hindices := hsub.map ChunkRecord.chunkIndex
  rw [Database.chunkRows_map_chunkIndex] at hindices
  exact h.indices.sublist hindices

/-- The `UPDATE` of a file row leaves its owner what was theirs. -/
theorem Valid.touch (h : c.Valid d) (hfiles : d'.files = d.files) (now : Nat) (id : Uuid) :
    c.Valid (d'.touchFile now id) := by
  obtain ⟨fileId, file, hcall, hfile⟩ := h.owned
  obtain ⟨hmem, hid, hlive, howner⟩ := FileService.getOwnedFile_ok.mp hfile
  refine ⟨⟨fileId, if file.id = id then { file with updatedAt := now } else file, hcall,
    FileService.getOwnedFile_ok.mpr ?_⟩, h.storable, h.indices, h.ints, h.ids⟩
  refine ⟨List.mem_map.mpr ⟨file, hfiles ▸ hmem, rfl⟩, ?_⟩
  split_ifs
  · exact ⟨hid, hlive, howner⟩
  · exact ⟨hid, hlive, howner⟩

end Session

namespace Sessions

/-- Where every number is read alone, the calls do not meet. -/
structure Calm (d₀ : Database) (s : Sessions) : Prop where
  sound : s.Sound d₀
  valid : ∀ c ∈ s.calls, c.Valid s.committed
  stages : ∀ c ∈ s.calls, c.stage.Calm s.committed
  ids_new : ∀ c ∈ s.calls, ∀ id ∈ c.request.newIds,
    id ∉ d₀.versions.map FileVersionRecord.id ∧ id ∉ d₀.chunks.map ChunkRecord.id
  ids : s.calls.Pairwise fun c o => c.request.newIds.Disjoint o.request.newIds
  divided : s.calls.Pairwise fun c o => c.stage.Divided o.stage

section
variable {d₀ d : Database} {s s' : Sessions} {c : Session} {i : Nat} {stage : Stage}

theorem mem_results_others (hi : s.calls[i]? = some c) (hc : c.stage.result = none)
    {r : VersionDetail} (hr : r ∈ s.results) :
    ∃ o ∈ s.calls.eraseIdx i, o.stage = .ended (.ok r) := by
  obtain ⟨o, ho, hstage⟩ := mem_results.mp hr
  rcases List.mem_cons.mp ((perm_others hi).mem_iff.mp ho) with rfl | ho
  · rw [hstage] at hc
    cases hc
  · exact ⟨o, ho, hstage⟩

theorem Calm.others (h : s.Calm d₀) (hi : s.calls[i]? = some c) {o : Session}
    (ho : o ∈ s.calls.eraseIdx i) :
    c.request.newIds.Disjoint o.request.newIds ∧ c.stage.Divided o.stage :=
  ⟨((pairwise_others hi List.Disjoint.symm).mp h.ids).1 o ho,
    ((pairwise_others hi Stage.Divided.symm).mp h.divided).1 o ho⟩

/-- The ids of a call that has not ended are not in the tables. -/
theorem Calm.fresh (h : s.Calm d₀) (hi : s.calls[i]? = some c) (hc : c.stage.result = none)
    {id : Uuid} (hid : id ∈ c.request.newIds) :
    id ∉ s.committed.versions.map FileVersionRecord.id ∧
      id ∉ s.committed.chunks.map ChunkRecord.id := by
  have hold := h.ids_new c (List.mem_of_getElem? hi) id hid
  constructor
  · rw [(h.sound.versions.map _).mem_iff, List.map_append, List.mem_append, not_or]
    refine ⟨hold.1, fun hmem => ?_⟩
    obtain ⟨v, hv, rfl⟩ := List.mem_map.mp hmem
    obtain ⟨r, hr, rfl⟩ := List.mem_map.mp hv
    obtain ⟨o, ho, hstage⟩ := mem_results_others hi hc hr
    have hwrites := (h.sound.ended (List.mem_of_mem_eraseIdx ho) hstage).2.1
    refine (h.others hi ho).1 hid ?_
    rw [hwrites.version]
    exact o.version_mem_newIds
  · rw [(h.sound.chunks.map _).mem_iff, List.map_append, List.mem_append, not_or]
    refine ⟨hold.2, fun hmem => ?_⟩
    obtain ⟨row, hrow, rfl⟩ := List.mem_map.mp hmem
    obtain ⟨r, hr, hrow⟩ := List.mem_flatMap.mp hrow
    obtain ⟨o, ho, hstage⟩ := mem_results_others hi hc hr
    have ho' := List.mem_of_mem_eraseIdx ho
    have hwrites := (h.sound.ended ho' hstage).2.1
    rw [hwrites.rows_eq] at hrow
    exact (h.others hi ho).1 hid ((h.valid o ho').rows_ids _ |>.subset (List.mem_map_of_mem hrow))

theorem Calm.admits (h : s.Calm d₀) (hi : s.calls[i]? = some c) {fileId : Uuid} {n : Nat}
    (hstage : c.stage = .insertingVersion fileId n) :
    s.committed.Admits (c.newVersion fileId n) := by
  have hc := List.mem_of_getElem? hi
  obtain ⟨hnext, hint, hfile⟩ := (h.stages c hc).claims fileId n (by rw [hstage]; rfl)
  obtain ⟨htotal, hmime, hchecksum, -⟩ := (h.valid c hc).storable
  refine ⟨⟨hint, htotal, hmime, hchecksum⟩, ?_, fun hmem => ?_, hfile⟩
  · exact (h.fresh hi (by rw [hstage]; rfl) c.version_mem_newIds).1
  · obtain ⟨v, hv, heq⟩ := List.mem_map.mp hmem
    have hlt := Database.lt_nextVersionNumber hv
    obtain ⟨hvfile, hvnumber⟩ := Prod.ext_iff.mp heq
    have hvfile : v.fileId = fileId := hvfile
    have hvnumber : v.versionNumber = n := hvnumber
    rw [hvfile, hvnumber, ← hnext] at hlt
    exact absurd hlt (lt_irrefl n)

theorem Calm.not_rejected (h : s.Calm d₀) (hi : s.calls[i]? = some c)
    (hint : ∀ fileId, c.stage = .selectingNumber fileId →
      isInt4 (s.committed.nextVersionNumber fileId) = true) : ¬c.Rejected s.committed := by
  intro hrejected
  have hc := List.mem_of_getElem? hi
  have hproper := h.sound.proper c hc
  unfold Session.Rejected at hrejected
  unfold Session.Proper at hproper
  cases hstage : c.stage with
  | selectingNumber fileId =>
    rw [hstage] at hrejected
    exact absurd (hint fileId hstage) (by rw [hrejected]; exact Bool.false_ne_true)
  | insertingVersion fileId n =>
    rw [hstage] at hrejected
    exact hrejected (Database.insertVersion_isOk.mpr (h.admits hi hstage))
  | insertingChunks v rows rest =>
    rw [hstage] at hrejected hproper
    obtain ⟨hwrites, hrows, -⟩ := hproper
    cases rest with
    | nil => exact hrejected
    | cons chunk rest =>
      have hfresh : ∀ id ∈ c.request.newIds, id ∉ s.committed.chunks.map ChunkRecord.id :=
        fun id hid => (h.fresh hi (by rw [hstage]; rfl) hid).2
      have hnext := (h.valid c hc).insertable hrows.version hfresh ⟨_, hwrites.next.rows⟩
      exact hrejected ((Database.view_isOk hnext.owned).mpr hnext)
  | committing v rows =>
    rw [hstage] at hrejected hproper
    exact hrejected ((Database.view_isOk hproper.2.1.owned).mpr hproper.2.1)
  | _ =>
    rw [hstage] at hrejected
    exact hrejected

theorem Calm.move (h : s.Calm d₀) (hi : s.calls[i]? = some c)
    (hsound : (Sessions.mk d (s.calls.set i { c with stage := stage })).Sound d₀)
    (hvalid : ∀ o ∈ s.calls, o.Valid d) (hothers : ∀ o ∈ s.calls.eraseIdx i, o.stage.Calm d)
    (hstage : stage.Calm d) (hdivided : ∀ o ∈ s.calls.eraseIdx i, stage.Divided o.stage) :
    (Sessions.mk d (s.calls.set i { c with stage := stage })).Calm d₀ where
  sound := hsound
  valid := (forall_mem_set hi).mpr (((forall_mem_others hi).mp hvalid).imp_left fun hc => hc.at _)
  stages := (forall_mem_set hi).mpr ⟨hstage, hothers⟩
  ids_new := (forall_mem_set hi).mpr ((forall_mem_others hi).mp h.ids_new)
  ids := (pairwise_set hi List.Disjoint.symm _).mpr ((pairwise_others hi List.Disjoint.symm).mp h.ids)
  divided := (pairwise_set hi Stage.Divided.symm _).mpr
    ⟨hdivided, ((pairwise_others hi Stage.Divided.symm).mp h.divided).2⟩

/-- A statement that commits nothing and keeps the number. -/
theorem Calm.stay (h : s.Calm d₀) (hi : s.calls[i]? = some c)
    (hsound : (Sessions.mk s.committed (s.calls.set i { c with stage := stage })).Sound d₀)
    (hfailing : stage.failing = false) (hselecting : ∀ fileId, stage ≠ .selectingNumber fileId)
    (hclaim : stage.claim = c.stage.claim) :
    (Sessions.mk s.committed (s.calls.set i { c with stage := stage })).Calm d₀ := by
  apply h.move hi hsound h.valid
  · exact fun o ho => h.stages o (List.mem_of_mem_eraseIdx ho)
  · exact (h.stages c (List.mem_of_getElem? hi)).keep hfailing hselecting hclaim
  · exact fun o ho => (h.others hi ho).2.keep hclaim

theorem Calm.commit (h : s.Calm d₀) (hi : s.calls[i]? = some c) {v : FileVersionRecord}
    {rows : List ChunkRecord} {d' : Database} {now : Nat} (hbefore : c.stage = .committing v rows)
    (hfiles : d'.files = s.committed.files) (hversions : d'.versions = s.committed.versions ++ [v])
    (hsound : (Sessions.mk (d'.touchFile now v.fileId)
      (s.calls.set i { c with stage := .ended (.ok ⟨v, rows⟩) })).Sound d₀) :
    (Sessions.mk (d'.touchFile now v.fileId)
      (s.calls.set i { c with stage := .ended (.ok ⟨v, rows⟩) })).Calm d₀ := by
  have hids : (d'.touchFile now v.fileId).files.map FileRecord.id =
      s.committed.files.map FileRecord.id := by
    rw [Database.touchFile, Database.updateFile_ids, hfiles]
  refine h.move hi hsound (fun o ho => (h.valid o ho).touch hfiles _ _) (fun o ho => ?_)
    ⟨rfl, fun f hf => (by cases hf), fun f n hf => (by cases hf)⟩ fun o _ =>
      Stage.divided_of_none rfl
  have hcalm := h.stages o (List.mem_of_mem_eraseIdx ho)
  refine ⟨hcalm.succeeds, fun f hf => ?_, fun f n hf => ?_⟩
  · rw [hids]
    exact hcalm.selecting f hf
  · -- the number that the other call has read is of another file
    have hne : v.fileId ≠ f := fun heq =>
      (h.others hi ho).2 f v.versionNumber n (by rw [hbefore, ← heq]; rfl) hf
    have hnext : (d'.touchFile now v.fileId).nextVersionNumber f =
        s.committed.nextVersionNumber f :=
      (Database.nextVersionNumber_concat hversions f).trans (if_neg hne)
    rw [hids, hnext]
    exact hcalm.claims f n hf

theorem Calm.proceed (h : s.Calm d₀) (hi : s.calls[i]? = some c)
    (hstep : c.Advances s.committed (s.calls.eraseIdx i) d stage)
    (hundivided : s.Undivided (.proceed i)) :
    (Sessions.mk d (s.calls.set i { c with stage := stage })).Calm d₀ := by
  have hc := List.mem_of_getElem? hi
  have hsound := h.sound.proceed hi hstep
  have hcalm := h.stages c hc
  have hothers : ∀ o ∈ s.calls.eraseIdx i, o.stage.Calm s.committed :=
    fun o ho => h.stages o (List.mem_of_mem_eraseIdx ho)
  obtain ⟨fileId, file, hcall, howned⟩ := (h.valid c hc).owned
  cases hstep with
  | registered _ hregister _ =>
    rw [hcall] at hregister
    cases hregister
  | refused _ hrefused =>
    have herror := hrefused fileId c.input hcall
    rw [howned] at herror
    cases herror
  | failed hrejected =>
    exact absurd hrejected (h.not_rejected hi fun f hf => (hundivided c f hi hf).1)
  | rolledBack hbefore =>
    have hfailing := hcalm.succeeds
    rw [hbefore] at hfailing
    cases hfailing
  | found hbefore _ hfound =>
    refine h.move hi hsound h.valid hothers ⟨rfl, fun f hf => ?_, fun f n hf => ?_⟩ fun o _ =>
      Stage.divided_of_none rfl
    · cases hf
      exact List.mem_map_of_mem (FileService.getOwnedFile_ok.mp hfound).1
    · cases hf
  | @numbered selected hbefore hint =>
    refine h.move hi hsound h.valid hothers ⟨rfl, fun f hf => ?_, fun f n hf => ?_⟩
      fun o ho f m n hf => ?_
    · cases hf
    · cases hf
      exact ⟨rfl, hint, hcalm.selecting selected hbefore⟩
    · cases hf
      exact (hundivided c selected hi hbefore).2 o (List.mem_of_mem_eraseIdx ho) n
  | wroteVersion hbefore _ _ =>
    exact h.stay hi hsound rfl (by simp) (by rw [hbefore]; rfl)
  | wroteChunk hbefore _ _ =>
    exact h.stay hi hsound rfl (by simp) (by rw [hbefore]; rfl)
  | touched hbefore _ =>
    exact h.stay hi hsound rfl (by simp) (by rw [hbefore]; rfl)
  | committed hbefore hview =>
    obtain ⟨hfiles, hversions, -⟩ := Database.view_ok hview
    exact h.commit hi hbefore hfiles hversions hsound

theorem Calm.arrive (h : s.Calm d₀) {r : Request} {input : CreateVersionInput}
    (hr : r.call.registration = some input) (hadds : s.AddsVersion r)
    (hstorable : input.Storable) :
    (Sessions.mk s.committed (s.calls ++ [⟨r, input, .arrived⟩])).Calm d₀ := by
  unfold AddsVersion at hadds
  cases hcall : r.call with
  | addVersion fileId input' =>
    rw [hcall] at hadds hr
    cases hr
    obtain ⟨hfile, -, hindices, hints, hids, hnew⟩ := hadds
    have howned : ∃ file, FileService.getOwnedFile s.committed r.ownerId fileId = .ok file := by
      cases hfound : FileService.getOwnedFile s.committed r.ownerId fileId with
      | error e =>
        rw [hfound] at hfile
        cases hfile
      | ok file => exact ⟨file, rfl⟩
    obtain ⟨file, hfile⟩ := howned
    constructor
    case sound =>
      exact h.sound.arrive (by rw [hcall]; rfl)
    case valid =>
      refine List.forall_mem_append.mpr ⟨h.valid, List.forall_mem_singleton.mpr ?_⟩
      exact ⟨⟨fileId, file, hcall, hfile⟩, hstorable, hindices, hints, hids⟩
    case stages =>
      refine List.forall_mem_append.mpr ⟨h.stages, List.forall_mem_singleton.mpr ?_⟩
      exact ⟨rfl, fun f hf => (by cases hf), fun f n hf => (by cases hf)⟩
    case ids_new =>
      refine List.forall_mem_append.mpr ⟨h.ids_new, List.forall_mem_singleton.mpr ?_⟩
      intro id hid
      have hnotin := (hnew id hid).1
      rw [Database.ids, Set.mem_ofPred_eq, not_or, not_or, (h.sound.versions.map _).mem_iff,
        (h.sound.chunks.map _).mem_iff, List.map_append, List.map_append, List.mem_append,
        List.mem_append, not_or, not_or] at hnotin
      exact ⟨hnotin.2.1.1, hnotin.2.2.1⟩
    case ids =>
      refine List.pairwise_append.mpr ⟨h.ids, List.pairwise_singleton _ _, fun c hc x hx id => ?_⟩
      rw [List.mem_singleton.mp hx]
      exact fun hid hid' => (hnew id hid').2 c hc hid
    case divided =>
      refine List.pairwise_append.mpr ⟨h.divided, List.pairwise_singleton _ _, fun c _ x hx => ?_⟩
      rw [List.mem_singleton.mp hx]
      exact (Stage.divided_of_none rfl).symm
  | _ =>
    rw [hcall] at hadds
    exact hadds.elim

theorem calm_of_reach
    (h : Reach step (fun s a => s.Admissible a ∧ s.Undivided a) (Sessions.init d₀) s) :
    s.Calm d₀ := by
  apply h.invariant (fun s => s.Calm d₀)
  · exact ⟨Sound.init d₀, by simp [Sessions.init], by simp [Sessions.init], by simp [Sessions.init],
      List.Pairwise.nil, List.Pairwise.nil⟩
  · intro t a u ht hguard hstep
    rcases step_inv hstep with ⟨r, input, rfl, hr, rfl⟩ | ⟨i, c, d, stage, rfl, hi, hc, rfl⟩
    · exact ht.arrive hr hguard.1 (hguard.2 input hr)
    · exact ht.proceed hi hc hguard.2

/-! ### No call waits -/

theorem Calm.pending_inv (h : s.Calm d₀) (hc : c ∈ s.calls) {v : FileVersionRecord}
    {rows : List ChunkRecord} (hpending : c.stage.pending = some (v, rows)) :
    (∃ rest, c.Writes v rows rest) ∧ c.stage.claim = some v.number := by
  have hproper := h.sound.proper c hc
  have hsucceeds := (h.stages c hc).succeeds
  unfold Session.Proper at hproper
  cases hstage : c.stage with
  | insertingChunks w inserted rest =>
    rw [hstage] at hproper hpending
    cases hpending
    exact ⟨⟨rest, hproper.1⟩, rfl⟩
  | committing w inserted =>
    rw [hstage] at hproper hpending
    cases hpending
    exact ⟨⟨[], hproper.1⟩, rfl⟩
  | rollingBack held e =>
    rw [hstage] at hsucceeds
    cases hsucceeds
  | _ =>
    rw [hstage] at hpending
    cases hpending

theorem Calm.writes_ids (h : s.Calm d₀) (hc : c ∈ s.calls) {v : FileVersionRecord}
    {rows : List ChunkRecord} {rest : List ChunkInput} (hwrites : c.Writes v rows rest) :
    v.id ∈ c.request.newIds ∧
      ∀ row ∈ rows, row.id ∈ c.request.newIds ∧ row.fileVersionId = v.id := by
  constructor
  · rw [hwrites.version]
    exact c.version_mem_newIds
  · intro row hrow
    have hmem : row ∈ Database.chunkRows c.request.generated v.id 0 c.input.chunks := by
      rw [← hwrites.rows]
      exact List.mem_append_left _ hrow
    exact ⟨((h.valid c hc).rows_ids v.id).subset (List.mem_map_of_mem hmem),
      Database.fileVersionId_of_mem_chunkRows hmem⟩

theorem Calm.not_holdsVersion (h : s.Calm d₀) (hi : s.calls[i]? = some c) {fileId : Uuid} {n : Nat}
    (hclaim : c.stage.claim = some (fileId, n)) :
    (s.calls.eraseIdx i).any (Session.holdsVersion (c.newVersion fileId n)) = false := by
  refine List.any_eq_false.mpr fun o ho hholds => ?_
  unfold Session.holdsVersion at hholds
  split at hholds
  · rename_i w rows hpending
    obtain ⟨⟨rest, hwrites⟩, hclaim'⟩ := h.pending_inv (List.mem_of_mem_eraseIdx ho) hpending
    obtain ⟨hids, hdivided⟩ := h.others hi ho
    rcases of_decide_eq_true hholds with hid | hnumber
    · have hmem := (h.writes_ids (List.mem_of_mem_eraseIdx ho) hwrites).1
      rw [hid] at hmem
      exact hids c.version_mem_newIds hmem
    · have hnumber : w.number = (fileId, n) := hnumber
      rw [hnumber] at hclaim'
      exact hdivided fileId n n hclaim hclaim'
  · cases hholds

theorem Calm.not_holdsChunk (h : s.Calm d₀) (hi : s.calls[i]? = some c) {v : FileVersionRecord}
    {rows : List ChunkRecord} {chunk : ChunkInput} {rest : List ChunkInput}
    (hwrites : c.Writes v rows (chunk :: rest)) :
    (s.calls.eraseIdx i).any (Session.holdsChunk (c.newChunk v rows chunk)) = false := by
  refine List.any_eq_false.mpr fun o ho hholds => ?_
  unfold Session.holdsChunk at hholds
  split at hholds
  · rename_i w rows' hpending
    have ho' := List.mem_of_mem_eraseIdx ho
    obtain ⟨⟨rest', hwrites'⟩, -⟩ := h.pending_inv ho' hpending
    obtain ⟨hversion', hrows'⟩ := h.writes_ids ho' hwrites'
    obtain ⟨hversion, hrows⟩ := h.writes_ids (List.mem_of_getElem? hi) hwrites.next
    have hids := (h.others hi ho).1
    obtain ⟨r, hr, hkeys⟩ := List.any_eq_true.mp hholds
    rcases of_decide_eq_true hkeys with hid | hindex
    · refine hids (hrows _ List.mem_concat_self).1 ?_
      rw [← hid]
      exact (hrows' r hr).1
    · have hid : r.fileVersionId = v.id := (Prod.ext_iff.mp hindex).1
      rw [(hrows' r hr).2] at hid
      rw [hid] at hversion'
      exact hids hversion hversion'
  · cases hholds

theorem Calm.not_locksFile (h : s.Calm d₀) (hi : s.calls[i]? = some c) {v : FileVersionRecord}
    (hclaim : c.stage.claim = some v.number) :
    (s.calls.eraseIdx i).any (Session.locksFile v.fileId) = false := by
  refine List.any_eq_false.mpr fun o ho hlocks => ?_
  unfold Session.locksFile at hlocks
  split at hlocks
  · rename_i w rows hstage
    refine (h.others hi ho).2 v.fileId v.versionNumber w.versionNumber hclaim ?_
    rw [hstage, ← of_decide_eq_true hlocks]
    rfl
  · cases hlocks

/-- The next statement of a call that has not ended never waits. -/
theorem Calm.advance_isSome (h : s.Calm d₀) (hi : s.calls[i]? = some c)
    (hended : ∀ result, c.stage ≠ .ended result) :
    ∃ d stage, c.advance s.committed (s.calls.eraseIdx i) = some (d, stage) := by
  have hc := List.mem_of_getElem? hi
  have hproper := h.sound.proper c hc
  obtain ⟨fileId, file, hcall, hfile⟩ := (h.valid c hc).owned
  unfold Session.Proper at hproper
  unfold Session.advance
  cases hstage : c.stage with
  | arrived =>
    dsimp only
    rw [hcall]
    dsimp only
    rw [hfile]
    exact ⟨_, _, rfl⟩
  | selectingNumber selected =>
    dsimp only
    split_ifs
    · exact ⟨_, _, rfl⟩
    · exact ⟨_, _, rfl⟩
  | insertingVersion selected n =>
    have hclaim : c.stage.claim = some (selected, n) := by
      rw [hstage]
      rfl
    have hfree := h.not_holdsVersion hi hclaim
    dsimp only
    rw [hfree, if_neg Bool.false_ne_true]
    cases s.committed.insertVersion (c.newVersion selected n) with
    | error e => exact ⟨_, _, rfl⟩
    | ok d => exact ⟨_, _, rfl⟩
  | insertingChunks v rows rest =>
    rw [hstage] at hproper
    cases rest with
    | nil =>
      have hfree := h.not_locksFile hi (v := v) (by rw [hstage]; rfl)
      dsimp only
      rw [hfree, if_neg Bool.false_ne_true]
      exact ⟨_, _, rfl⟩
    | cons chunk rest =>
      have hfree := h.not_holdsChunk hi hproper.1
      dsimp only
      rw [hfree, if_neg Bool.false_ne_true]
      cases s.committed.view v rows >>= fun d' => d'.insertChunk (c.newChunk v rows chunk) with
      | error e => exact ⟨_, _, rfl⟩
      | ok d => exact ⟨_, _, rfl⟩
  | committing v rows =>
    dsimp only
    cases s.committed.view v rows with
    | error e => exact ⟨_, _, rfl⟩
    | ok d => exact ⟨_, _, rfl⟩
  | rollingBack held e => exact ⟨_, _, rfl⟩
  | ended result => exact absurd hstage (hended result)

theorem one_lt_left_of_rejected (h : c.Rejected d) : 1 < c.left := by
  unfold Session.Rejected at h
  unfold Session.left
  cases hstage : c.stage with
  | selectingNumber fileId => exact Nat.lt_add_left _ (by decide)
  | insertingVersion fileId n => exact Nat.lt_add_left _ (by decide)
  | insertingChunks v rows rest => exact Nat.lt_add_left _ (by decide)
  | committing v rows => exact Nat.lt_succ_self 1
  | _ =>
    rw [hstage] at h
    exact h.elim

theorem advances_left {others : List Session} (h : c.Advances s.committed others d stage) :
    ({ c with stage := stage } : Session).left < c.left := by
  cases h with
  | failed hrejected => exact one_lt_left_of_rejected hrejected
  | registered hbefore _ _ => simp [Session.left, hbefore]
  | found hbefore _ _ => simp [Session.left, hbefore]
  | refused hbefore _ => simp [Session.left, hbefore]
  | numbered hbefore _ => simp [Session.left, hbefore]
  | wroteVersion hbefore _ _ => simp [Session.left, hbefore]
  | wroteChunk hbefore _ _ => simp [Session.left, hbefore]
  | touched hbefore _ => simp [Session.left, hbefore]
  | committed hbefore _ => simp [Session.left, hbefore]
  | rolledBack hbefore => simp [Session.left, hbefore]

theorem left_set (hi : s.calls[i]? = some c) {c' : Session} (hlt : c'.left < c.left) :
    (Sessions.mk d (s.calls.set i c')).left < s.left := by
  have hbefore := ((perm_others hi).map Session.left).sum_nat
  have hafter := ((set_perm_others hi c').map Session.left).sum_nat
  rw [List.map_cons, List.sum_cons] at hbefore hafter
  show ((s.calls.set i c').map Session.left).sum < (s.calls.map Session.left).sum
  omega

theorem Calm.succeeded (h : s.Calm d₀) (hc : c ∈ s.calls) {result : Except ServiceError VersionDetail}
    (hstage : c.stage = .ended result) : c.Succeeded s.committed := by
  cases result with
  | error e =>
    have hsucceeds := (h.stages c hc).succeeds
    rw [hstage] at hsucceeds
    cases hsucceeds
  | ok r =>
    have hr := (h.sound.ended hc hstage).1
    refine ⟨r, hstage, h.sound.versions.mem_iff.mpr (List.mem_append_right _ ?_)⟩
    exact List.mem_map_of_mem hr

/-- Every call succeeds, or its next statement is answered at once. -/
theorem Calm.goes_on (h : s.Calm d₀) (hi : s.calls[i]? = some c) : c.Succeeded s.committed ∨
    ∃ s', s.step (.proceed i) = some s' ∧ s'.left < s.left := by
  by_cases hended : ∃ result, c.stage = .ended result
  · obtain ⟨result, hstage⟩ := hended
    exact .inl (h.succeeded (List.mem_of_getElem? hi) hstage)
  · obtain ⟨d, stage, hadvance⟩ := h.advance_isSome hi (not_exists.mp hended)
    refine .inr ⟨⟨d, s.calls.set i { c with stage := stage }⟩, ?_, ?_⟩
    · simp only [step, hi, hadvance]
    · exact left_set hi (advances_left (Session.advance_inv hadvance))

/-- Where every call has succeeded, no two returned the same number of a file. -/
theorem Sound.promising (h : s.Sound d₀)
    (hs : ∀ c ∈ s.calls, ∃ r, c.stage = .ended (.ok r)) : s.Promising := by
  constructor
  · intro c hc
    obtain ⟨r, hr⟩ := hs c hc
    obtain ⟨-, hwrites, hversion, hrows, -⟩ := h.ended hc hr
    refine ⟨by rw [hr]; rfl, ?_⟩
    rw [hwrites.version] at hversion
    rw [hwrites.rows_eq] at hrows
    refine ⟨hversion.2.1, hversion.2.2.1, hversion.2.2.2, fun chunk hchunk => ?_⟩
    rw [← Database.chunkRows_map_input c.request.generated r.version.id 0 c.input.chunks] at hchunk
    obtain ⟨row, hrow, rfl⟩ := List.mem_map.mp hchunk
    exact (hrows row hrow).2.2
  · have hnumbers := (h.versions.map FileVersionRecord.number).nodup_iff.mp
      s.committed.versions_number_key
    rw [List.map_append, List.map_map] at hnumbers
    have hresults := (List.nodup_append.mp hnumbers).2.1
    rw [results, List.nodup_iff_pairwise_ne, List.pairwise_map, List.pairwise_filterMap] at hresults
    refine hresults.imp_of_mem fun {c o} hc ho hne k hk hk' => ?_
    obtain ⟨r, hr⟩ := hs c hc
    obtain ⟨q, hq⟩ := hs o ho
    rw [hr] at hk
    rw [hq] at hk'
    cases hk
    exact hne r (by rw [hr]; rfl) q (by rw [hq]; rfl) (Option.some_inj.mp hk').symm

/-- While every number is read alone, each call succeeds or goes on; and a run to the end has
lost no version exactly if every number was read alone. -/
theorem no_version_lost_iff (d₀ : Database) (as : List Action) (s : Sessions)
    (hrun : as.foldlM step (Sessions.init d₀) = some s)
    (hadmissible : Along step Admissible (Sessions.init d₀) as) :
    (Along step Undivided (Sessions.init d₀) as → ∀ (i : Nat) c, s.calls[i]? = some c →
      c.Succeeded s.committed ∨ ∃ s', s.step (.proceed i) = some s' ∧ s'.left < s.left) ∧
    ((∀ c ∈ s.calls, ∃ result, c.stage = .ended result) →
      ((∀ c ∈ s.calls, c.Succeeded s.committed) ↔
        Along step Undivided (Sessions.init d₀) as)) := by
  have hcalm : Along step Undivided (Sessions.init d₀) as → s.Calm d₀ := fun h =>
    calm_of_reach ((hadmissible.and h).reach hrun)
  constructor
  · intro h i c hi
    exact (hcalm h).goes_on hi
  · intro hended
    constructor
    · intro hs
      have hsound := sound_of_reach (hadmissible.reach hrun)
      refine along_undivided hrun (hsound.promising fun c hc => ?_)
      obtain ⟨r, hr, -⟩ := hs c hc
      exact ⟨r, hr⟩
    · intro h c hc
      obtain ⟨result, hstage⟩ := hended c hc
      exact (hcalm h).succeeded hc hstage

end

/-! The owner of a file adds two versions to it: at once, and one after the other. -/

def oneFile : Database where
  files := [⟨0x10, 1, "report.pdf", false, 1, 1⟩]
  versions := [⟨0x11, 0x10, 1, 4, "application/pdf", "d", 1⟩]
  chunks := [⟨0x12, 0x11, 0, 4, "d", "chunks/d"⟩]
  files_pkey := by decide
  versions_pkey := by decide
  versions_file_fkey := by decide
  versions_number_key := by decide
  versions_number_int := by decide
  chunks_pkey := by decide
  chunks_version_fkey := by decide
  chunks_index_key := by decide

/-- Both requests come in, and their statements follow in this order. -/
def twoRequests (is : List Nat) : List Action :=
  [.arrive (addSample 2), .arrive (addSample 3)] ++ is.map .proceed

theorem along_twoRequests (is : List Nat) :
    Along step Admissible (Sessions.init oneFile) (twoRequests is) := by
  have hfirst : (Sessions.init oneFile).AddsVersion (addSample 2) := by
    refine ⟨by decide, by decide, by decide, by decide, by decide, ?_⟩
    simp [addSample, Request.newIds, Generated.ids, sampleGenerated, oneFile, Database.ids,
      Sessions.init, sampleVersion, Call.chunkCount]
  have hsecond : (Sessions.mk oneFile [⟨addSample 2, sampleVersion, .arrived⟩]).AddsVersion
      (addSample 3) := by
    refine ⟨by decide, by decide, by decide, by decide, by decide, ?_⟩
    simp [addSample, Request.newIds, Generated.ids, sampleGenerated, oneFile, Database.ids,
      sampleVersion, Call.chunkCount]
  refine ⟨hfirst, fun t ht => ?_⟩
  cases ht
  refine ⟨hsecond, fun t _ => along_of_forall fun a ha s => ?_⟩
  obtain ⟨i, -, rfl⟩ := List.mem_map.mp ha
  trivial

theorem concurrent_version_lost :
    ¬∀ (d₀ : Database) (as : List Action) (s : Sessions),
      as.foldlM step (Sessions.init d₀) = some s →
        Along step Admissible (Sessions.init d₀) as →
          (∀ c ∈ s.calls, ∃ result, c.stage = .ended result) →
            ∀ c ∈ s.calls, c.Succeeded s.committed := by
  intro h
  obtain ⟨s, hs, c, c', r, hcalls, hc, hc'⟩ : ∃ s,
      (twoRequests [0, 1, 0, 1, 0, 0, 0, 0, 1, 1]).foldlM step (Sessions.init oneFile) = some s ∧
        ∃ c c' r, s.calls = [c, c'] ∧ c.stage = .ended (.ok r) ∧
          c'.stage = .ended (.error (.db .uniqueViolation)) := ⟨_, rfl, _, _, _, rfl, rfl, rfl⟩
  have hended : ∀ o ∈ s.calls, ∃ result, o.stage = .ended result := by
    rw [hcalls]
    exact List.forall_mem_cons.mpr ⟨⟨_, hc⟩, List.forall_mem_singleton.mpr ⟨_, hc'⟩⟩
  obtain ⟨q, hq, -⟩ := h oneFile _ s hs (along_twoRequests _) hended c'
    (by rw [hcalls]; exact List.mem_cons_of_mem _ List.mem_cons_self)
  rw [hc'] at hq
  cases hq

theorem no_version_lost_iff_inTurn : Along step Undivided (Sessions.init oneFile)
    (twoRequests [0, 0, 0, 0, 0, 0, 1, 1, 1, 1, 1, 1]) := by
  obtain ⟨s, hs, c, c', r, r', hcalls, hc, hc', hr, hr'⟩ : ∃ s,
      (twoRequests [0, 0, 0, 0, 0, 0, 1, 1, 1, 1, 1, 1]).foldlM step (Sessions.init oneFile) =
        some s ∧ ∃ c c' r r', s.calls = [c, c'] ∧ c.stage = .ended (.ok r) ∧
          c'.stage = .ended (.ok r') ∧ r.version ∈ s.committed.versions ∧
            r'.version ∈ s.committed.versions :=
    ⟨_, rfl, _, _, _, _, rfl, rfl, rfl, by decide, by decide⟩
  have hsucceeded : ∀ o ∈ s.calls, o.Succeeded s.committed := by
    rw [hcalls]
    exact List.forall_mem_cons.mpr ⟨⟨r, hc, hr⟩, List.forall_mem_singleton.mpr ⟨r', hc', hr'⟩⟩
  apply ((no_version_lost_iff oneFile _ s hs (along_twoRequests _)).2 ?_).mp hsucceeded
  intro o ho
  obtain ⟨q, hq, -⟩ := hsucceeded o ho
  exact ⟨_, hq⟩

end Sessions
end IntelliStore.Metadata
