import IntelliStore.Metadata.RepositorySpec

/-! `fileRouter`: the request schemas stand before the service. -/

namespace IntelliStore.Metadata
open Postgres
variable {α : Type}

def validateBody (accepted : Bool) (handler : Database → Except ServiceError α × Database)
    (d : Database) : Except ServiceError α × Database :=
  if accepted then handler d else (.error (.app (.badRequest "Validation failed")), d)

namespace FileRouter

def postFile (g : Generated) (ownerId : Uuid) (input : CreateFileInput) :
    Database → Except ServiceError RegisterFileResult × Database :=
  validateBody (createFileSchema input) (FileService.registerFile g ownerId input)

def postVersion (g : Generated) (ownerId : Uuid) (fileId : String) (input : CreateVersionInput) :
    Database → Except ServiceError VersionDetail × Database :=
  validateBody (createVersionSchema input) (FileService.addVersion g ownerId fileId input)

def getVersion (d : Database) (ownerId : Uuid) (fileId : String) (versionNumber : Nat) :
    Except ServiceError VersionDetail :=
  if versionNumber < 1 then .error (.app (.badRequest "versionNumber must be a positive integer"))
  else FileService.getVersion d ownerId fileId versionNumber

def handle (fold : Char → Char) (d : Database) (r : Request) :
    Except ServiceError Response × Database :=
  match r.call with
  | .registerFile input =>
    let res := postFile r.generated r.ownerId input d
    (res.1.map .registered, res.2)
  | .addVersion fileId input =>
    let res := postVersion r.generated r.ownerId fileId input d
    (res.1.map .versionAdded, res.2)
  | .getVersion fileId versionNumber =>
    ((getVersion d r.ownerId fileId versionNumber).map .versionDetail, d)
  | _ => Metadata.handle fold d r

/-- A request that registers nothing changes no row but the deletion mark of a file. -/
theorem handle_of_no_registration (fold : Char → Char) (d : Database) {r : Request}
    (hr : r.call.registration = none) :
    (handle fold d r).2.origins = d.origins ∧ (handle fold d r).2.versions = d.versions ∧
      (handle fold d r).2.chunks = d.chunks := by
  obtain ⟨ownerId, g, call⟩ := r
  cases call with
  | registerFile input => cases hr
  | addVersion fileId input => cases hr
  | deleteFile fileId =>
    simp only [handle, Metadata.handle]
    rcases FileService.deleteFile_cases g.now ownerId fileId d with ⟨e, he⟩ | ⟨f, -, he⟩ <;> rw [he]
    · exact ⟨rfl, rfl, rfl⟩
    · exact ⟨d.softDeleteFile_origins g.now f.id, rfl, rfl⟩
  | _ => exact ⟨rfl, rfl, rfl⟩

end FileRouter
end IntelliStore.Metadata
