import IntelliStore.Library.JsonText
import IntelliStore.Library.Runs
import IntelliStore.Metadata.Routes

/-! Calls whose texts are the strings of JavaScript. The driver sends a string in UTF-8, where a
surrogate without its other half becomes U+FFFD; the calls on the database have the text it sends. -/

namespace IntelliStore.Metadata
open Library Postgres

/-- The code units of a string. -/
abbrev Text := List UInt16

namespace Text

/-- The text that the database is sent. -/
def sent (text : Text) : String := String.ofList (Json.utf16Chars text)

/-- Every surrogate has its other half, and the text is read back as it was. -/
def WellFormed (text : Text) : Prop := Json.units text.sent = text

instance : DecidablePred WellFormed := fun _ => inferInstanceAs (Decidable (_ = _))

theorem sent_units (s : String) : sent (Json.units s) = s := by
  rw [sent, Json.units, Json.utf16Chars_flatMap, String.ofList_toList]

theorem wellFormed_units (s : String) : WellFormed (Json.units s) :=
  congrArg Json.units (sent_units s)

theorem length_units (s : String) : (Json.units s).length = utf16Length s := by
  rw [Json.units, utf16Length, List.length_flatMap]
  congr 1
  apply List.map_congr_left
  intro c _
  unfold Json.utf16Units
  split_ifs <;> rfl

theorem utf16Length_sent (text : Text) : utf16Length text.sent = text.length := by
  rw [← length_units, Json.units, sent, String.toList_ofList, Json.length_utf16Chars]

theorem sent_ne_empty {text : Text} : text.sent ≠ "" ↔ text ≠ [] := by
  rw [not_iff_not]
  constructor
  · intro h
    have hlength := utf16Length_sent text
    rw [h] at hlength
    exact List.length_eq_zero_iff.mp hlength.symm
  · rintro rfl
    rfl

end Text

/-! ### Bodies -/

structure ChunkBody where
  chunkIndex : Nat
  sizeBytes : Nat
  checksum : Text
  storageKey : Text
  deriving DecidableEq

structure CreateVersionBody where
  mimeType : Text
  checksum : Text
  chunks : List ChunkBody
  deriving DecidableEq

structure CreateFileBody extends CreateVersionBody where
  fileName : Text
  deriving DecidableEq

def ChunkBody.sent (c : ChunkBody) : ChunkInput :=
  ⟨c.chunkIndex, c.sizeBytes, c.checksum.sent, c.storageKey.sent⟩

def CreateVersionBody.sent (body : CreateVersionBody) : CreateVersionInput :=
  ⟨body.mimeType.sent, body.checksum.sent, body.chunks.map ChunkBody.sent⟩

def CreateFileBody.sent (body : CreateFileBody) : CreateFileInput :=
  ⟨body.toCreateVersionBody.sent, body.fileName.sent⟩

def ChunkBody.WellFormed (c : ChunkBody) : Prop := c.checksum.WellFormed ∧ c.storageKey.WellFormed

instance : DecidablePred ChunkBody.WellFormed := fun _ => inferInstanceAs (Decidable (_ ∧ _))

def CreateVersionBody.WellFormed (body : CreateVersionBody) : Prop :=
  body.mimeType.WellFormed ∧ body.checksum.WellFormed ∧ ∀ c ∈ body.chunks, c.WellFormed

def CreateFileBody.WellFormed (body : CreateFileBody) : Prop :=
  body.fileName.WellFormed ∧ body.toCreateVersionBody.WellFormed

/-- A row as it is read back. -/
def ChunkRecord.body (r : ChunkRecord) : ChunkBody :=
  ⟨r.chunkIndex, r.sizeBytes, Json.units r.checksum, Json.units r.storageKey⟩

/-- The rows of well-formed texts, and of no others, have the texts as they were. -/
theorem map_body_eq_iff {rows : List ChunkRecord} {chunks : List ChunkBody}
    (h : rows.map ChunkRecord.input = chunks.map ChunkBody.sent) :
    rows.map ChunkRecord.body = chunks ↔ ∀ c ∈ chunks, c.WellFormed := by
  induction rows generalizing chunks with
  | nil =>
    rw [List.map_nil, eq_comm, List.map_eq_nil_iff] at h
    subst h
    exact iff_of_true rfl fun c hc => absurd hc List.not_mem_nil
  | cons r rows ih =>
    cases chunks with
    | nil => cases h
    | cons c chunks =>
      obtain ⟨hrow, hrows⟩ := List.cons_eq_cons.mp h
      rw [List.map_cons, List.cons_eq_cons, ih hrows, List.forall_mem_cons]
      refine and_congr_left' ?_
      obtain ⟨hindex, hsize, hchecksum, hkey⟩ : r.chunkIndex = c.chunkIndex ∧
          r.sizeBytes = c.sizeBytes ∧ r.checksum = c.checksum.sent ∧
          r.storageKey = c.storageKey.sent := by
        simpa [ChunkRecord.input, ChunkBody.sent] using hrow
      rw [ChunkRecord.body, hindex, hsize, hchecksum, hkey]
      obtain ⟨index, size, checksum, key⟩ := c
      simp only [ChunkBody.mk.injEq, true_and, ChunkBody.WellFormed, Text.WellFormed]

/-! ### The schemas -/

def ChunkBody.schema (c : ChunkBody) : Bool :=
  0 < c.sizeBytes && c.checksum ≠ [] && c.storageKey ≠ []

def CreateVersionBody.schema (body : CreateVersionBody) : Bool :=
  body.mimeType ≠ [] && body.checksum ≠ [] && body.chunks ≠ [] && body.chunks.all ChunkBody.schema

def CreateFileBody.schema (body : CreateFileBody) : Bool :=
  1 ≤ body.fileName.length && body.fileName.length ≤ 255 && body.toCreateVersionBody.schema

theorem chunkSchema_sent (c : ChunkBody) : chunkSchema c.sent = c.schema := by
  have hchecksum : decide (c.checksum.sent ≠ "") = decide (c.checksum ≠ []) :=
    decide_eq_decide.mpr Text.sent_ne_empty
  have hkey : decide (c.storageKey.sent ≠ "") = decide (c.storageKey ≠ []) :=
    decide_eq_decide.mpr Text.sent_ne_empty
  exact congrArg₂ and (congrArg (and (decide (0 < c.sizeBytes))) hchecksum) hkey

theorem createVersionSchema_sent (body : CreateVersionBody) :
    createVersionSchema body.sent = body.schema := by
  have hchunks : (body.chunks.map ChunkBody.sent).all chunkSchema =
      body.chunks.all ChunkBody.schema := by
    rw [List.all_map]
    exact congrArg body.chunks.all (funext chunkSchema_sent)
  rw [Bool.eq_iff_iff]
  simp only [createVersionSchema, CreateVersionBody.sent, CreateVersionBody.schema,
    Bool.and_eq_true, decide_eq_true_eq, Text.sent_ne_empty, hchunks, ne_eq, List.map_eq_nil_iff]

theorem createFileSchema_sent (body : CreateFileBody) :
    createFileSchema body.sent = body.schema := by
  rw [createFileSchema, CreateFileBody.sent, Text.utf16Length_sent, createVersionSchema_sent,
    CreateFileBody.schema]

/-! ### Calls -/

inductive JsCall where
  | registerFile (body : CreateFileBody)
  | addVersion (fileId : String) (body : CreateVersionBody)
  | listFiles
  | searchFiles (query : Text)
  | getFile (fileId : String)
  | getVersion (fileId : String) (versionNumber : Nat)
  | deleteFile (fileId : String)

def JsCall.sent : JsCall → Call
  | .registerFile body => .registerFile body.sent
  | .addVersion fileId body => .addVersion fileId body.sent
  | .listFiles => .listFiles
  | .searchFiles query => .searchFiles query.sent
  | .getFile fileId => .getFile fileId
  | .getVersion fileId versionNumber => .getVersion fileId versionNumber
  | .deleteFile fileId => .deleteFile fileId

/-- The texts of the call are read back as they were. -/
def JsCall.WellFormed : JsCall → Prop
  | .registerFile body => body.WellFormed
  | .addVersion _ body => body.WellFormed
  | .searchFiles query => query.WellFormed
  | _ => True

structure JsRequest where
  ownerId : Uuid
  generated : Generated
  call : JsCall

def JsRequest.sent (r : JsRequest) : Request := ⟨r.ownerId, r.generated, r.call.sent⟩

namespace FileRouter

/-- `validateBody` sees the strings of the body, and the repository what is sent of them. -/
def receive (fold : Char → Char) (d : Database) (r : JsRequest) :
    Except ServiceError Response × Database :=
  match r.call with
  | .registerFile body =>
    let res := validateBody body.schema (FileService.registerFile r.generated r.ownerId body.sent) d
    (res.1.map .registered, res.2)
  | .addVersion fileId body =>
    let res := validateBody body.schema
      (FileService.addVersion r.generated r.ownerId fileId body.sent) d
    (res.1.map .versionAdded, res.2)
  | _ => handle fold d r.sent

theorem receive_eq (fold : Char → Char) (d : Database) (r : JsRequest) :
    receive fold d r = handle fold d r.sent := by
  obtain ⟨ownerId, g, call⟩ := r
  cases call with
  | registerFile body =>
    simp only [receive, handle, JsRequest.sent, JsCall.sent, postFile, createFileSchema_sent]
  | addVersion fileId body =>
    simp only [receive, handle, JsRequest.sent, JsCall.sent, postVersion, createVersionSchema_sent]
  | _ => rfl

end FileRouter
end IntelliStore.Metadata
