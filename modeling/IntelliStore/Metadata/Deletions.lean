import IntelliStore.Metadata.VersionRaces

/-! Deletions beside the calls that register versions, one statement at a time. The check of a
call and the transaction that follows it are apart, so a deletion may come between them. -/

namespace IntelliStore.Metadata
open Library Postgres

namespace Deletions

/-- The statement that a call of `deleteFile` sends next. -/
inductive DeletionStage where
  | arrived
  | updating (fileId : Uuid)
  | ended (result : Except ServiceError Unit)

structure Deletion where
  ownerId : Uuid
  fileId : String
  now : Nat
  stage : DeletionStage

/-- `UPDATE files` waits for a transaction that has updated the row and is not committed. -/
def Deletion.advance (c : Deletion) (s : Sessions) : Option (Database × DeletionStage) :=
  match c.stage with
  | .arrived =>
    match FileService.getOwnedFile s.committed c.ownerId c.fileId with
    | .error e => some (s.committed, .ended (.error e))
    | .ok file => some (s.committed, .updating file.id)
  | .updating fileId =>
    if s.calls.any (Session.locksFile fileId) then none
    else some (s.committed.softDeleteFile c.now fileId, .ended (.ok ()))
  | .ended _ => none

/-- The file whose row the next statement marks. -/
def Deletion.marks (c : Deletion) : Option Uuid :=
  match c.stage with
  | .updating fileId => some fileId
  | _ => none

structure State where
  sessions : Sessions
  deletions : List Deletion

inductive Action where
  | call (a : Sessions.Action)
  | arrive (ownerId : Uuid) (fileId : String) (now : Nat)
  | proceed (i : Nat)

def init (d : Database) : State := ⟨.init d, []⟩

def step (s : State) : Action → Option State
  | .call a => (s.sessions.step a).map fun u => { s with sessions := u }
  | .arrive ownerId fileId now =>
    some { s with deletions := s.deletions ++ [⟨ownerId, fileId, now, .arrived⟩] }
  | .proceed i =>
    match s.deletions[i]? with
    | some c =>
      match c.advance s.sessions with
      | some (d, stage) =>
        some ⟨{ s.sessions with committed := d }, s.deletions.set i { c with stage := stage }⟩
      | none => none
    | none => none

/-- The row that the step inserts into `file_versions`. -/
def inserted (s : State) : Action → Option FileVersionRecord
  | .call (.proceed i) =>
    match s.sessions.calls[i]? with
    | some c =>
      match c.stage, c.advance s.sessions.committed (s.sessions.calls.eraseIdx i) with
      | .insertingVersion _ _, some (_, .insertingChunks version _ _) => some version
      | _, _ => none
    | none => none
  | _ => none

/-- No row of the file is marked deleted. -/
def Live (d : Database) (fileId : Uuid) : Prop :=
  ∀ f ∈ d.files, f.id = fileId → f.isDeleted = false

/-- The file a call has checked, until its version row is inserted. -/
def checked : Stage → Option Uuid
  | .selectingNumber fileId => some fileId
  | .insertingVersion fileId _ => some fileId
  | _ => none

/-- The file a call has checked, until its transaction ends. -/
def underway : Stage → Option Uuid
  | .insertingChunks version _ _ => some version.fileId
  | .committing version _ => some version.fileId
  | stage => checked stage

/-- A file is marked while no call has it in `target`. -/
def Spares (target : Stage → Option Uuid) (s : State) : Action → Prop
  | .proceed i => ∀ c ∈ s.deletions[i]?, ∀ o ∈ s.sessions.calls,
      c.marks = none ∨ target o.stage ≠ c.marks
  | _ => True

instance Spares.decidable (target : Stage → Option Uuid) (s : State) :
    (a : Action) → Decidable (Spares target s a)
  | .proceed i => inferInstanceAs (Decidable (∀ c ∈ s.deletions[i]?, ∀ o ∈ s.sessions.calls,
      c.marks = none ∨ target o.stage ≠ c.marks))
  | .call _ => .isTrue trivial
  | .arrive _ _ _ => .isTrue trivial

def addsOrDeletes : Action → Bool
  | .call (.arrive r) =>
    match r.call with
    | .addVersion _ _ => true
    | _ => false
  | _ => true

/-! ### What a statement does to the flag -/

section
variable {d d' : Database} {fileId : Uuid}

theorem live_of_mem {f : FileRecord} (hf : f ∈ d.files) (hlive : f.isDeleted = false) :
    Live d f.id := by
  intro g hg hid
  rw [d.file_unique hg hf hid]
  exact hlive

theorem live_createFile {g : Generated} {ownerId : Uuid} {fileName : String} {f : FileRecord}
    (h : d.createFile g ownerId fileName = .ok (f, d')) (hlive : Live d fileId) :
    Live d' fileId := by
  obtain ⟨rfl, hfiles, -, -⟩ := Database.createFile_ok h
  intro r hr hid
  rw [hfiles, List.mem_append, List.mem_singleton] at hr
  rcases hr with hr | rfl
  · exact hlive r hr hid
  · rfl

theorem live_touchFile (now : Nat) (id : Uuid) (hlive : Live d fileId) :
    Live (d.touchFile now id) fileId := by
  intro r hr hid
  obtain ⟨f, hf, rfl⟩ := List.mem_map.mp hr
  split_ifs at hid ⊢ with hfile
  · exact hlive f hf hid
  · exact hlive f hf hid

theorem live_softDeleteFile {id : Uuid} (now : Nat) (hne : id ≠ fileId) (hlive : Live d fileId) :
    Live (d.softDeleteFile now id) fileId := by
  intro r hr hid
  obtain ⟨f, hf, rfl⟩ := List.mem_map.mp hr
  split_ifs at hid ⊢ with hfile
  · exact absurd (hfile.symm.trans hid) hne
  · exact hlive f hf hid

theorem live_advances {c : Session} {others : List Session} {stage : Stage}
    (h : c.Advances d others d' stage) (hlive : Live d fileId) : Live d' fileId := by
  cases h with
  | registered _ _ hcreate => exact live_createFile hcreate hlive
  | committed _ hview =>
    apply live_touchFile
    rw [Live, (Database.view_ok hview).1]
    exact hlive
  | _ => exact hlive

end

/-! ### Calls and deletions -/

theorem Deletion.advance_inv {c : Deletion} {s : Sessions} {d : Database} {stage : DeletionStage}
    (h : c.advance s = some (d, stage)) : d = s.committed ∨
      ∃ fileId, c.stage = .updating fileId ∧ d = s.committed.softDeleteFile c.now fileId := by
  unfold advance at h
  cases hstage : c.stage with
  | arrived =>
    rw [hstage] at h
    dsimp only at h
    cases hfile : FileService.getOwnedFile s.committed c.ownerId c.fileId with
    | error e =>
      rw [hfile] at h
      cases h
      exact .inl rfl
    | ok file =>
      rw [hfile] at h
      cases h
      exact .inl rfl
  | updating fileId =>
    rw [hstage] at h
    dsimp only at h
    split_ifs at h
    cases h
    exact .inr ⟨fileId, rfl, rfl⟩
  | ended result =>
    rw [hstage] at h
    cases h

theorem step_inv {s t : State} {a : Action} (h : step s a = some t) :
    (∃ b u, a = .call b ∧ s.sessions.step b = some u ∧ t = ⟨u, s.deletions⟩) ∨
    (∃ deletions, t = ⟨s.sessions, deletions⟩) ∨
    ∃ i c fileId deletions, a = .proceed i ∧ s.deletions[i]? = some c ∧
      c.stage = .updating fileId ∧
      t = ⟨⟨s.sessions.committed.softDeleteFile c.now fileId, s.sessions.calls⟩, deletions⟩ := by
  cases a with
  | call b =>
    obtain ⟨u, hu, rfl⟩ := Option.map_eq_some_iff.mp h
    exact .inl ⟨b, u, rfl, hu, rfl⟩
  | arrive ownerId fileId now =>
    cases h
    exact .inr (.inl ⟨_, rfl⟩)
  | proceed i =>
    simp only [step] at h
    cases hi : s.deletions[i]? with
    | none =>
      rw [hi] at h
      cases h
    | some c =>
      rw [hi] at h
      dsimp only at h
      cases hc : c.advance s.sessions with
      | none =>
        rw [hc] at h
        cases h
      | some res =>
        obtain ⟨d, stage⟩ := res
        rw [hc] at h
        cases h
        rcases Deletion.advance_inv hc with rfl | ⟨fileId, hstage, rfl⟩
        · exact .inr (.inl ⟨_, rfl⟩)
        · exact .inr (.inr ⟨i, c, fileId, _, rfl, hi, hstage, rfl⟩)

/-- The files that the calls have checked are live. -/
def Sound (target : Stage → Option Uuid) (s : State) : Prop :=
  ∀ o ∈ s.sessions.calls, ∀ fileId, target o.stage = some fileId →
    Live s.sessions.committed fileId

/-- A call comes to its file by the check, and keeps it. -/
def Carried (target : Stage → Option Uuid) : Prop :=
  target .arrived = none ∧ ∀ {c : Session} {d d' : Database} {others : List Session}
    {stage : Stage} {fileId : Uuid}, c.Advances d others d' stage →
      target stage = some fileId → target c.stage = some fileId ∨ Live d' fileId

theorem carried_underway : Carried underway := by
  refine ⟨rfl, fun {c d d' others stage fileId} h htarget => ?_⟩
  cases h with
  | registered _ _ hcreate =>
    obtain ⟨hfile, hfiles, -, -⟩ := Database.createFile_ok hcreate
    cases htarget
    refine .inr (live_of_mem (by rw [hfiles]; exact List.mem_concat_self) ?_)
    rw [hfile]
  | found _ _ hfile =>
    obtain ⟨hmem, -, hlive, -⟩ := FileService.getOwnedFile_ok.mp hfile
    cases htarget
    exact .inr (live_of_mem hmem hlive)
  | numbered hstage _ =>
    rw [hstage]
    exact .inl htarget
  | wroteVersion hstage _ _ =>
    rw [hstage]
    exact .inl htarget
  | wroteChunk hstage _ _ =>
    rw [hstage]
    exact .inl htarget
  | touched hstage _ =>
    rw [hstage]
    exact .inl htarget
  | _ => cases htarget

theorem carried_checked : Carried checked := by
  refine ⟨rfl, fun {c d d' others stage fileId} h htarget => ?_⟩
  have hunderway : underway stage = some fileId := by
    cases stage <;> first | exact htarget | cases htarget
  rcases carried_underway.2 h hunderway with hbefore | hlive
  · refine .inl ?_
    cases h with
    | numbered hstage _ =>
      rw [hstage] at hbefore ⊢
      exact hbefore
    | registered hstage _ _ =>
      rw [hstage] at hbefore
      cases hbefore
    | found hstage _ _ =>
      rw [hstage] at hbefore
      cases hbefore
    | _ => cases htarget
  · exact .inr hlive

theorem Sound.step {target : Stage → Option Uuid} (htarget : Carried target) {s t : State}
    {a : Action} (hs : Sound target s) (hg : Spares target s a) (h : step s a = some t) :
    Sound target t := by
  rcases step_inv h with ⟨b, u, rfl, hu, rfl⟩ | ⟨deletions, rfl⟩ |
    ⟨i, c, fileId, deletions, rfl, hi, hstage, rfl⟩
  · rcases Sessions.step_inv hu with ⟨r, input, rfl, -, rfl⟩ | ⟨i, c, d, stage, rfl, hi, hc, rfl⟩
    · intro o ho fileId hfile
      rcases List.mem_append.mp ho with ho | ho
      · exact hs o ho fileId hfile
      · rw [List.mem_singleton.mp ho, htarget.1] at hfile
        cases hfile
    · have hbefore := (forall_mem_others hi).mp hs
      refine (forall_mem_set hi).mpr ⟨fun fileId hfile => ?_, fun o ho fileId hfile => ?_⟩
      · rcases htarget.2 hc hfile with hfile | hlive
        · exact live_advances hc (hbefore.1 fileId hfile)
        · exact hlive
      · exact live_advances hc (hbefore.2 o ho fileId hfile)
  · exact hs
  · intro o ho file hfile
    refine live_softDeleteFile c.now (fun heq => ?_) (hs o ho file hfile)
    have hmarks : c.marks = some fileId := by rw [Deletion.marks, hstage]
    rcases hg c hi o ho with hnone | hne
    · rw [hmarks] at hnone
      cases hnone
    · rw [hmarks] at hne
      exact hne (heq ▸ hfile)

theorem sound_of_reach {target : Stage → Option Uuid} (htarget : Carried target) {d₀ : Database}
    {s : State} (h : Reach step (Spares target) (init d₀) s) : Sound target s := by
  have hinit : Sound target (init d₀) := fun o ho => (by cases ho)
  exact h.invariant (Sound target) hinit fun _ _ _ ht hg hstep => ht.step htarget hg hstep

theorem inserted_inv {s : State} {a : Action} {v : FileVersionRecord} (h : inserted s a = some v) :
    ∃ i c next, a = .call (.proceed i) ∧ s.sessions.calls[i]? = some c ∧
      c.stage = .insertingVersion v.fileId next := by
  unfold inserted at h
  split at h
  · rename_i i
    split at h
    · rename_i c hi
      split at h
      · rename_i fileId next d version rows chunks hstage hadvance
        cases h
        have hadvances := Session.advance_inv hadvance
        cases hadvances with
        | wroteVersion hbefore _ _ => exact ⟨i, c, _, rfl, hi, hbefore⟩
        | wroteChunk hbefore _ _ =>
          rw [hstage] at hbefore
          cases hbefore
      · cases h
    · cases h
  · cases h

/-- While no file is marked between the check of a call and its insertion, the file of every
inserted version is live. -/
theorem inserted_live (d₀ : Database) (s : State) (a : Action) (v : FileVersionRecord)
    (h : Reach step (Spares checked) (init d₀) s) (hinserted : inserted s a = some v) :
    Live s.sessions.committed v.fileId := by
  obtain ⟨i, c, next, -, hi, hstage⟩ := inserted_inv hinserted
  have hsound := sound_of_reach carried_checked h
  exact hsound c (List.mem_of_getElem? hi) v.fileId (by rw [hstage]; rfl)

/-- While no file is marked before the transaction of a call on it has ended, the file of every
committed version is live. -/
theorem committed_live {d₀ : Database} {s t : State} {a : Action} {v : FileVersionRecord}
    (h : Reach step (Spares underway) (init d₀) s) (hstep : step s a = some t)
    (hold : v ∉ s.sessions.committed.versions) (hnew : v ∈ t.sessions.committed.versions) :
    Live t.sessions.committed v.fileId := by
  have hsound := sound_of_reach carried_underway h
  rcases step_inv hstep with ⟨b, u, rfl, hu, rfl⟩ | ⟨deletions, rfl⟩ |
    ⟨i, c, fileId, deletions, rfl, hi, hstage, rfl⟩
  · rcases Sessions.step_inv hu with ⟨r, input, rfl, -, rfl⟩ | ⟨i, c, d, stage, rfl, hi, hc, rfl⟩
    · exact absurd hnew hold
    · have hbefore := hsound c (List.mem_of_getElem? hi)
      refine live_advances hc (hbefore v.fileId ?_)
      cases hc with
      | committed hstage hview =>
        have hversions := (Database.view_ok hview).2.1
        rcases List.mem_append.mp (hversions ▸ hnew) with hmem | hmem
        · exact absurd hmem hold
        · rw [hstage, List.mem_singleton.mp hmem]
          rfl
      | registered _ _ hcreate =>
        obtain ⟨-, -, hversions, -⟩ := Database.createFile_ok hcreate
        exact absurd (hversions ▸ hnew) hold
      | _ => exact absurd hnew hold
  · exact absurd hnew hold
  · exact absurd hnew hold

/-! The owner of a file adds a version to it and deletes it. The deletion is marked between the
check of the call and its insertion, or is still to come. -/

def markedBetween : List Action :=
  [.call (.arrive (Sessions.addSample 2)), .arrive 1 (uuidOut 0x10) 3, .call (.proceed 0), .proceed 0,
    .proceed 0, .call (.proceed 0)]

def markedLater : List Action :=
  [.call (.arrive (Sessions.addSample 2)), .arrive 1 (uuidOut 0x10) 3, .call (.proceed 0), .proceed 0,
    .call (.proceed 0)]

theorem deleted_file_gains_version :
    ¬∀ (d₀ : Database) (s : State) (a : Action) (v : FileVersionRecord),
      Reach step (fun _ a => addsOrDeletes a = true) (init d₀) s → inserted s a = some v →
        Live s.sessions.committed v.fileId := by
  intro h
  have hrun : ∃ s ∈ markedBetween.foldlM
      (fun s a => if addsOrDeletes a = true then step s a else none) (init Sessions.oneFile),
      ∃ v ∈ inserted s (.call (.proceed 0)), v.fileId = 0x10 ∧
        ∃ f ∈ s.sessions.committed.files, f.id = 0x10 ∧ f.isDeleted = true := by decide
  obtain ⟨s, hs, v, hv, hfile, f, hf, hid, hdeleted⟩ := hrun
  have hlive := h Sessions.oneFile s (.call (.proceed 0)) v (reach_of_schedule hs) hv
  have hlive := hlive f hf (hid.trans hfile.symm)
  rw [hdeleted] at hlive
  cases hlive

theorem inserted_live_markedLater : ∃ s v, inserted s (.call (.proceed 0)) = some v ∧
    Live s.sessions.committed v.fileId := by
  have hrun : ∃ s ∈ markedLater.foldlM
      (fun s a => if Spares checked s a then step s a else none) (init Sessions.oneFile),
      ∃ v, inserted s (.call (.proceed 0)) = some v := ⟨_, rfl, _, rfl⟩
  obtain ⟨s, hs, v, hv⟩ := hrun
  exact ⟨s, v, hv, inserted_live Sessions.oneFile s _ v (reach_of_schedule hs) hv⟩

end Deletions
end IntelliStore.Metadata
