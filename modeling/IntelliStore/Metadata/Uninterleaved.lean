import IntelliStore.Metadata.VersionNumbering

/-! A call that no other overlaps leaves the database, and returns the result, that
`FileService` has for it in one step. -/

namespace IntelliStore.Metadata
open Library Postgres

/-- The call is the only one, and at this stage. -/
def Session.alone (c : Session) (d : Database) (stage : Stage) : Sessions :=
  ⟨d, [{ c with stage := stage }]⟩

/-- What `createVersion` leaves and returns. -/
def Session.created (c : Session) (d : Database) (fileId : Uuid) : Sessions :=
  match d.createVersion c.request.generated fileId (FileService.totalSize c.input.chunks)
    c.input.mimeType c.input.checksum c.input.chunks with
  | .error e => c.alone d (.ended (.error (.db e)))
  | .ok ((version, rows), d') => c.alone d' (.ended (.ok ⟨version, rows⟩))

abbrev ReachAlone : Sessions → Sessions → Prop := Reach Sessions.step fun _ _ => True

namespace Session
variable {c : Session} {d d' : Database} {stage stage' : Stage} {t : Sessions}

theorem reach_next (h : ({ c with stage := stage } : Session).advance d [] = some (d', stage'))
    (hrest : ReachAlone (c.alone d' stage') t) : ReachAlone (c.alone d stage) t := by
  have hstep : (c.alone d stage).step (.proceed 0) = some (c.alone d' stage') := by
    simp only [alone, Sessions.step, List.getElem?_cons_zero, List.eraseIdx_zero, List.tail_cons, h,
      List.set_cons_zero]
  exact (Reach.tail (.proceed 0) .refl trivial hstep).trans hrest

theorem reach_rollback (d : Database) (held : Option (FileVersionRecord × List ChunkRecord))
    (e : ServiceError) :
    ReachAlone (c.alone d (.rollingBack held e)) (c.alone d (.ended (.error e))) :=
  reach_next rfl .refl

/-- The rest of the chunk loop, and the end of the transaction. -/
theorem reach_chunks (c : Session) {v : FileVersionRecord} (rest : List ChunkInput)
    {rows : List ChunkRecord} {d₁ : Database} (hview : d.view v rows = .ok d₁) :
    ReachAlone (c.alone d (.insertingChunks v rows rest))
      (match (Database.chunkRows c.request.generated v.id rows.length rest).foldlM
          Database.insertChunk d₁ with
        | .error e => c.alone d (.ended (.error (.db e)))
        | .ok d₂ => c.alone (d₂.touchFile c.request.generated.now v.fileId) (.ended (.ok
            ⟨v, rows ++ Database.chunkRows c.request.generated v.id rows.length rest⟩))) := by
  induction rest generalizing rows d₁ with
  | nil =>
    have htouch : ({ c with stage := .insertingChunks v rows [] } : Session).advance d [] =
        some (d, .committing v rows) := rfl
    have hcommit : ({ c with stage := .committing v rows } : Session).advance d [] =
        some (d₁.touchFile c.request.generated.now v.fileId, .ended (.ok ⟨v, rows⟩)) := by
      simp only [advance, hview]
    refine reach_next htouch (reach_next hcommit ?_)
    simp only [Database.chunkRows, List.append_nil]
    exact .refl
  | cons chunk rest ih =>
    have hrow : (⟨c.request.generated.chunk rows.length, v.id, chunk.chunkIndex, chunk.sizeBytes,
      chunk.checksum, chunk.storageKey⟩ : ChunkRecord) = c.newChunk v rows chunk := rfl
    have hbind : (d.view v rows >>= fun d' => d'.insertChunk (c.newChunk v rows chunk)) =
        d₁.insertChunk (c.newChunk v rows chunk) := by
      rw [hview]
      rfl
    rw [Database.chunkRows, hrow, List.foldlM_cons]
    cases hinsert : d₁.insertChunk (c.newChunk v rows chunk) with
    | error e =>
      have hfail : ({ c with stage := .insertingChunks v rows (chunk :: rest) } : Session).advance
          d [] = some (d, .rollingBack (some (v, rows)) (.db e)) := by
        have hres : (d.view v rows >>= fun d' => d'.insertChunk (newChunk { c with
            stage := .insertingChunks v rows (chunk :: rest) } v rows chunk)) = .error e :=
          hbind.trans hinsert
        simp only [advance, List.any_nil, Bool.false_eq_true, if_false, hres]
      exact reach_next hfail (reach_rollback d _ _)
    | ok d₂ =>
      have hnext : ({ c with stage := .insertingChunks v rows (chunk :: rest) } : Session).advance
          d [] = some (d, .insertingChunks v (rows ++ [c.newChunk v rows chunk]) rest) := by
        have hres : (d.view v rows >>= fun d' => d'.insertChunk (newChunk { c with
            stage := .insertingChunks v rows (chunk :: rest) } v rows chunk)) = .ok d₂ :=
          hbind.trans hinsert
        simp only [advance, List.any_nil, Bool.false_eq_true, if_false, hres]
        rfl
      refine reach_next hnext ?_
      have hview' : d.view v (rows ++ [c.newChunk v rows chunk]) = .ok d₂ := by
        rw [← Database.view_concat, hbind, hinsert]
      have hrest := ih hview'
      rw [List.length_append, List.append_assoc] at hrest
      exact hrest

theorem reach_inserted (c : Session) (d : Database) (fileId : Uuid) (n : Nat) :
    ReachAlone (c.alone d (.insertingVersion fileId n))
      (match d.insertVersion (c.newVersion fileId n) >>= (Database.chunkRows c.request.generated
          c.request.generated.version 0 c.input.chunks).foldlM Database.insertChunk with
        | .error e => c.alone d (.ended (.error (.db e)))
        | .ok d₂ => c.alone (d₂.touchFile c.request.generated.now fileId) (.ended (.ok
            ⟨c.newVersion fileId n, Database.chunkRows c.request.generated
              c.request.generated.version 0 c.input.chunks⟩))) := by
  cases hinsert : d.insertVersion (c.newVersion fileId n) with
  | error e =>
    have hfail : ({ c with stage := .insertingVersion fileId n } : Session).advance d [] =
        some (d, .rollingBack none (.db e)) := by
      have hres : d.insertVersion (newVersion { c with stage := .insertingVersion fileId n }
          fileId n) = .error e := hinsert
      simp only [advance, List.any_nil, Bool.false_eq_true, if_false, hres]
    exact reach_next hfail (reach_rollback d _ _)
  | ok d₁ =>
    have hnext : ({ c with stage := .insertingVersion fileId n } : Session).advance d [] =
        some (d, .insertingChunks (c.newVersion fileId n) [] c.input.chunks) := by
      have hres : d.insertVersion (newVersion { c with stage := .insertingVersion fileId n }
          fileId n) = .ok d₁ := hinsert
      simp only [advance, List.any_nil, Bool.false_eq_true, if_false, hres]
      rfl
    have hview : d.view (c.newVersion fileId n) [] = .ok d₁ := by
      rw [Database.view, hinsert]
      rfl
    have hchunks := c.reach_chunks c.input.chunks hview
    rw [List.length_nil, List.nil_append] at hchunks
    exact reach_next hnext hchunks

/-- The transaction of a call whose number is still to be read. -/
theorem reach_created (c : Session) (d : Database) (fileId : Uuid) :
    ReachAlone (c.alone d (.selectingNumber fileId)) (c.created d fileId) := by
  have hinserted := c.reach_inserted d fileId (d.nextVersionNumber fileId)
  have hversion : (⟨c.request.generated.version, fileId, d.nextVersionNumber fileId,
    FileService.totalSize c.input.chunks, c.input.mimeType, c.input.checksum,
    c.request.generated.now⟩ : FileVersionRecord) =
      c.newVersion fileId (d.nextVersionNumber fileId) := rfl
  unfold created Database.createVersion
  dsimp only
  rw [hversion]
  by_cases hint : isInt4 (d.nextVersionNumber fileId) = true
  · have hselect : ({ c with stage := .selectingNumber fileId } : Session).advance d [] =
        some (d, .insertingVersion fileId (d.nextVersionNumber fileId)) := if_pos hint
    refine reach_next hselect ?_
    dsimp only [bind, Except.bind] at hinserted ⊢
    cases hinsert : d.insertVersion (c.newVersion fileId (d.nextVersionNumber fileId)) with
    | error e =>
      rw [hinsert] at hinserted
      exact hinserted
    | ok d₁ =>
      rw [hinsert] at hinserted
      dsimp only at hinserted ⊢
      cases hrows : (Database.chunkRows c.request.generated c.request.generated.version 0
          c.input.chunks).foldlM Database.insertChunk d₁ with
      | error e =>
        rw [hrows] at hinserted
        exact hinserted
      | ok d₂ =>
        rw [hrows] at hinserted
        exact hinserted
  · -- an INT that is out of range is found by the SELECT, before the INSERT would find it
    have hout : d.insertVersion (c.newVersion fileId (d.nextVersionNumber fileId)) =
        .error .outOfRange := by
      refine dif_neg fun hboth => hint ?_
      exact (Bool.and_eq_true_iff.mp hboth).1
    have hfail : ({ c with stage := .selectingNumber fileId } : Session).advance d [] =
        some (d, .rollingBack none (.db .outOfRange)) := if_neg hint
    rw [hout]
    exact reach_next hfail (reach_rollback d _ _)

end Session

namespace Sessions

theorem reach_addVersion (d : Database) {r : Request} {fileId : String} {input : CreateVersionInput}
    (hcall : r.call = .addVersion fileId input) :
    ReachAlone ⟨d, [⟨r, input, .arrived⟩]⟩
      ⟨(FileService.addVersion r.generated r.ownerId fileId input d).2,
        [⟨r, input, .ended (FileService.addVersion r.generated r.ownerId fileId input d).1⟩]⟩ := by
  let c : Session := ⟨r, input, .arrived⟩
  show ReachAlone (c.alone d .arrived) _
  unfold FileService.addVersion
  cases hfile : FileService.getOwnedFile d r.ownerId fileId with
  | error e =>
    have hrefused : c.advance d [] = some (d, .ended (.error e)) := by
      simp only [Session.advance, c, hcall, hfile]
    exact Session.reach_next hrefused .refl
  | ok file =>
    have hfound : c.advance d [] = some (d, .selectingNumber file.id) := by
      simp only [Session.advance, c, hcall, hfile]
    have hcreated := c.reach_created d file.id
    refine Session.reach_next hfound ?_
    unfold Session.created at hcreated
    dsimp only [c] at hcreated ⊢
    cases hcreate : d.createVersion r.generated file.id (FileService.totalSize input.chunks)
        input.mimeType input.checksum input.chunks with
    | error e =>
      rw [hcreate] at hcreated
      exact hcreated
    | ok res =>
      rw [hcreate] at hcreated
      exact hcreated

/-- Of what `registerFile` returns, the call keeps the version. -/
theorem reach_registerFile (d : Database) {r : Request} {input : CreateFileInput}
    (hcall : r.call = .registerFile input) :
    ReachAlone ⟨d, [⟨r, input.toCreateVersionInput, .arrived⟩]⟩
      ⟨(FileService.registerFile r.generated r.ownerId input d).2,
        [⟨r, input.toCreateVersionInput, .ended
          ((FileService.registerFile r.generated r.ownerId input d).1.map
            RegisterFileResult.toVersionDetail)⟩]⟩ := by
  let c : Session := ⟨r, input.toCreateVersionInput, .arrived⟩
  show ReachAlone (c.alone d .arrived) _
  unfold FileService.registerFile
  cases hfile : d.createFile r.generated r.ownerId input.fileName with
  | error e =>
    have hrefused : c.advance d [] = some (d, .ended (.error (.db e))) := by
      simp only [Session.advance, c, hcall, hfile]
    exact Session.reach_next hrefused .refl
  | ok res =>
    obtain ⟨file, d₁⟩ := res
    have hregistered : c.advance d [] = some (d₁, .selectingNumber file.id) := by
      simp only [Session.advance, c, hcall, hfile]
    have hcreated := c.reach_created d₁ file.id
    refine Session.reach_next hregistered ?_
    unfold Session.created at hcreated
    dsimp only [c] at hcreated ⊢
    cases hcreate : d₁.createVersion r.generated file.id (FileService.totalSize input.chunks)
        input.mimeType input.checksum input.chunks with
    | error e =>
      rw [hcreate] at hcreated
      exact hcreated
    | ok res =>
      rw [hcreate] at hcreated
      exact hcreated

end Sessions
end IntelliStore.Metadata
