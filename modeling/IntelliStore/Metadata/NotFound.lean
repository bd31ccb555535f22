import IntelliStore.Metadata.Routes

/-! Which requests for a file are answered NOT_FOUND. -/

namespace IntelliStore.Metadata
open Postgres

/-- The file id in the path of a request. -/
def Call.fileId : Call → Option String
  | .addVersion fileId _ => some fileId
  | .getFile fileId => some fileId
  | .getVersion fileId _ => some fileId
  | .deleteFile fileId => some fileId
  | _ => none

/-- The body passes its schema, and the version number is positive. -/
def Call.Accepted : Call → Prop
  | .addVersion _ input => createVersionSchema input = true
  | .getVersion _ versionNumber => 1 ≤ versionNumber
  | _ => True

/-- `id` is the key of a live file of the owner. -/
def Database.OwnsLive (d : Database) (ownerId id : Uuid) : Prop :=
  ∃ f ∈ d.files, f.id = id ∧ f.ownerId = ownerId ∧ f.isDeleted = false

/-- The call asks for a version that the file `id` does not have. -/
def Call.AsksMissingVersion (d : Database) (id : Uuid) : Call → Prop
  | .getVersion _ versionNumber =>
    ∀ v ∈ d.versions, v.fileId = id → v.versionNumber ≠ versionNumber
  | _ => False

/-- The version number asked for, if any, is in the range of its column. -/
def Call.NumberFits : Call → Prop
  | .getVersion _ versionNumber => isInt4 versionNumber = true
  | _ => True

/-- The answer is NOT_FOUND, and the tables are as they were. -/
def AnswersNotFound (answer : Except ServiceError Response × Database) (d : Database) : Prop :=
  (∃ message, answer.1 = .error (.app (.notFound message))) ∧ answer.2 = d

theorem not_answersNotFound_ok {d d' : Database} {response : Response} :
    ¬AnswersNotFound (.ok response, d') d := by
  rintro ⟨⟨message, h⟩, -⟩
  cases h

theorem not_answersNotFound_db {d d' : Database} {e : DbError} :
    ¬AnswersNotFound (.error (.db e), d') d := by
  rintro ⟨⟨message, h⟩, -⟩
  cases h

section
variable {d : Database} {ownerId : Uuid} {fileId : String}

theorem getOwnedFile_unreadable (h : uuidIn fileId = none) :
    FileService.getOwnedFile d ownerId fileId = .error (.db .invalidUuid) := by
  rw [FileService.getOwnedFile, h]

theorem getOwnedFile_unknown {id : Uuid} (hid : uuidIn fileId = some id)
    (h : ¬d.OwnsLive ownerId id) :
    FileService.getOwnedFile d ownerId fileId = .error (.app (.notFound "File not found")) := by
  rw [FileService.getOwnedFile, hid]
  dsimp only
  cases hfile : d.findFileById id with
  | none => rfl
  | some f =>
    obtain ⟨hf, hfid, hlive⟩ := Database.findFileById_eq_some.mp hfile
    exact if_pos fun howner => h ⟨f, hf, hfid, howner, hlive⟩

/-- When the file is not found, neither is anything else, and nothing changes. -/
theorem handle_of_error (fold : Char → Char) (g : Generated) {e : ServiceError}
    (h : FileService.getOwnedFile d ownerId fileId = .error e) {call : Call}
    (hcall : call.fileId = some fileId) (haccepted : call.Accepted) :
    FileRouter.handle fold d ⟨ownerId, g, call⟩ = (.error e, d) := by
  cases call with
  | registerFile input => cases hcall
  | listFiles => cases hcall
  | searchFiles query => cases hcall
  | addVersion text input =>
    cases hcall
    have haccepted : createVersionSchema input = true := haccepted
    simp only [FileRouter.handle, FileRouter.postVersion, validateBody, haccepted, if_true,
      FileService.addVersion, h]
    rfl
  | getFile text =>
    cases hcall
    simp only [FileRouter.handle, handle, FileService.getFile, h]
    rfl
  | getVersion text n =>
    cases hcall
    have haccepted : ¬n < 1 := Nat.not_lt.mpr haccepted
    simp only [FileRouter.handle, FileRouter.getVersion, haccepted, if_false,
      FileService.getVersion, h]
    rfl
  | deleteFile text =>
    cases hcall
    simp only [FileRouter.handle, handle, FileService.deleteFile, h]
    rfl

/-- Of a file that is found, only a version may be missing. -/
theorem handle_owned (fold : Char → Char) (g : Generated) {file : FileRecord}
    (h : FileService.getOwnedFile d ownerId fileId = .ok file) {call : Call}
    (hcall : call.fileId = some fileId) (haccepted : call.Accepted) :
    AnswersNotFound (FileRouter.handle fold d ⟨ownerId, g, call⟩) d ↔
      call.AsksMissingVersion d file.id ∧ call.NumberFits := by
  cases call with
  | registerFile input => cases hcall
  | listFiles => cases hcall
  | searchFiles query => cases hcall
  | addVersion text input =>
    cases hcall
    have haccepted : createVersionSchema input = true := haccepted
    simp only [FileRouter.handle, FileRouter.postVersion, validateBody, haccepted, if_true,
      FileService.addVersion, h]
    cases d.createVersion g file.id (FileService.totalSize input.chunks) input.mimeType
        input.checksum input.chunks with
    | error e => exact iff_of_false not_answersNotFound_db fun h => h.1
    | ok result => exact iff_of_false not_answersNotFound_ok fun h => h.1
  | getFile text =>
    cases hcall
    simp only [FileRouter.handle, handle, FileService.getFile, h]
    exact iff_of_false not_answersNotFound_ok fun h => h.1
  | deleteFile text =>
    cases hcall
    simp only [FileRouter.handle, handle, FileService.deleteFile, h]
    exact iff_of_false not_answersNotFound_ok fun h => h.1
  | getVersion text n =>
    cases hcall
    have haccepted : ¬n < 1 := Nat.not_lt.mpr haccepted
    simp only [FileRouter.handle, FileRouter.getVersion, haccepted, if_false,
      FileService.getVersion, h]
    have hmissing : Call.AsksMissingVersion d file.id (.getVersion fileId n) ↔
        ∀ v, d.findVersion file.id n ≠ .ok (some v) := by
      simp only [Call.AsksMissingVersion, ne_eq, Database.findVersion_eq_some, not_and]
    rw [hmissing, Call.NumberFits]
    cases hint : isInt4 n with
    | false =>
      have hfind : d.findVersion file.id n = .error .outOfRange := by
        rw [Database.findVersion, hint]
        rfl
      rw [hfind]
      exact iff_of_false not_answersNotFound_db fun h => Bool.false_ne_true h.2
    | true =>
      have hfind : d.findVersion file.id n = .ok (d.versions.find? fun v =>
          v.fileId == file.id && v.versionNumber == n) := by
        rw [Database.findVersion, hint]
        rfl
      rw [hfind]
      cases d.versions.find? fun v => v.fileId == file.id && v.versionNumber == n with
      | none => exact iff_of_true ⟨⟨_, rfl⟩, rfl⟩ ⟨fun v h => (by cases h), rfl⟩
      | some v => exact iff_of_false not_answersNotFound_ok fun h => h.1 v rfl

end

/-- A request is answered NOT_FOUND, and changes nothing, if and only if its id is a UUID that is
not the key of a live file of the owner, or asks for a missing version by a number that fits. -/
theorem not_found_iff (fold : Char → Char) (d : Database) (ownerId : Uuid) (g : Generated)
    (call : Call) (fileId : String) (hcall : call.fileId = some fileId)
    (haccepted : call.Accepted) :
    AnswersNotFound (FileRouter.handle fold d ⟨ownerId, g, call⟩) d ↔
      ∃ id, uuidIn fileId = some id ∧
        (¬d.OwnsLive ownerId id ∨ call.AsksMissingVersion d id ∧ call.NumberFits) := by
  cases hid : uuidIn fileId with
  | none =>
    rw [handle_of_error fold g (getOwnedFile_unreadable hid) hcall haccepted]
    refine iff_of_false not_answersNotFound_db ?_
    rintro ⟨id, h, -⟩
    cases h
  | some id =>
    by_cases howns : d.OwnsLive ownerId id
    · obtain ⟨file, hfile, rfl, howner, hlive⟩ := howns
      have howned := FileService.getOwnedFile_ok.mpr ⟨hfile, hid, hlive, howner⟩
      rw [handle_owned fold g howned hcall haccepted]
      refine ⟨fun h => ⟨file.id, rfl, .inr h⟩, fun ⟨id, hid', h⟩ => ?_⟩
      cases hid'
      exact h.resolve_left fun hnone => hnone ⟨file, hfile, rfl, howner, hlive⟩
    · rw [handle_of_error fold g (getOwnedFile_unknown hid howns) hcall haccepted]
      exact iff_of_true ⟨⟨_, rfl⟩, rfl⟩ ⟨id, rfl, .inl howns⟩

/-! An id that is no UUID, and a UUID of no file. -/

theorem malformed_id_not_found : ¬∀ (fold : Char → Char) (d : Database) (ownerId : Uuid)
    (g : Generated) (call : Call) (fileId : String), call.fileId = some fileId → call.Accepted →
      (∀ f ∈ d.files, f.ownerId = ownerId → f.isDeleted = false → uuidOut f.id ≠ fileId) →
        AnswersNotFound (FileRouter.handle fold d ⟨ownerId, g, call⟩) d := by
  intro h
  have hanswer := h id .empty 1 (sampleGenerated 1) (.getFile "report") "report" rfl trivial
    (fun f hf => by cases hf)
  have hnone : uuidIn "report" = none := by decide
  have haccepted : (Call.getFile "report").Accepted := trivial
  rw [handle_of_error id (sampleGenerated 1) (getOwnedFile_unreadable hnone) rfl haccepted]
    at hanswer
  exact not_answersNotFound_db hanswer

theorem not_found_iff_sample :
    AnswersNotFound (FileRouter.handle id .empty
      ⟨1, sampleGenerated 1, .getVersion "00000000-0000-0000-0000-000000000010" (2 ^ 31)⟩) .empty := by
  refine (not_found_iff id .empty 1 (sampleGenerated 1) _ _ rfl (Nat.one_le_two_pow)).mpr
    ⟨0x10, by decide, .inl ?_⟩
  rintro ⟨f, hf, -⟩
  cases hf

end IntelliStore.Metadata
