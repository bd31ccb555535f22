import IntelliStore.Platform.Run
import IntelliStore.Storage.WireClient

/-! The platform with the calls of metadata-service written out as bytes. Its runs are the runs of
the platform. -/

namespace IntelliStore

namespace Storage
open Library Metadata HttpMetadataClient
variable {σ μ : Type} (client : MetadataClient μ)

def UploadService.onClient (svc : UploadService σ μ) : UploadService σ μ :=
  { svc with metadataClient := client }

def DownloadService.onClient (svc : DownloadService σ μ) : DownloadService σ μ :=
  { svc with metadataClient := client }

variable {client}

theorem UploadService.payload_onClient (svc : UploadService σ μ) (mimeType : String)
    (buffer : Bytes) : (svc.onClient client).payload mimeType buffer = svc.payload mimeType buffer :=
  rfl

theorem UploadService.storeChunks_payload (svc : UploadService σ μ) {buffer : Bytes}
    {mimeType : String} {b b' : σ} {stored : StoredChunks}
    (h : svc.storeChunks buffer mimeType b = (.ok stored, b')) :
    stored.payload = svc.payload mimeType buffer := by
  unfold storeChunks at h
  split_ifs at h with hempty
  · cases h
  · dsimp only at h
    split at h
    · cases h
    · cases h
      rfl

/-- An upload makes one registration, and a version reads its file back. -/
theorem UploadService.upload_onClient (svc : UploadService σ μ) {token : BearerToken}
    {target : Target} {mimeType : String} {buffer : Bytes}
    (hfile : ∀ fileName, target = .newFile fileName →
      client.registerFile token ⟨svc.payload mimeType buffer, fileName⟩ =
        svc.metadataClient.registerFile token ⟨svc.payload mimeType buffer, fileName⟩)
    (hversion : ∀ fileId, target = .newVersion fileId →
      client.addVersion token fileId (svc.payload mimeType buffer) =
        svc.metadataClient.addVersion token fileId (svc.payload mimeType buffer))
    (hdetail : ∀ fileId, target = .newVersion fileId →
      client.getFileDetail token fileId = svc.metadataClient.getFileDetail token fileId)
    (s : ServiceState σ μ) :
    (svc.onClient client).upload token target mimeType buffer s =
      svc.upload token target mimeType buffer s := by
  rcases hstored : svc.storeChunks buffer mimeType s.backend with ⟨stored | stored, b⟩
  · have hstored' : (svc.onClient client).storeChunks buffer mimeType s.backend =
      (.error stored, b) := hstored
    rw [upload_of_error hstored, upload_of_error hstored']
  · have hstored' : (svc.onClient client).storeChunks buffer mimeType s.backend =
      (.ok stored, b) := hstored
    have hpayload := svc.storeChunks_payload hstored
    cases target with
    | newFile fileName =>
      have hregister := hfile fileName rfl
      rw [← hpayload] at hregister
      simp only [upload, uploadNewFile, hstored, hstored']
      simp only [onClient, registerWithCleanup, hregister]
    | newVersion fileId =>
      have hregister := hversion fileId rfl
      rw [← hpayload] at hregister
      simp only [upload, uploadNewVersion, hstored, hstored']
      simp only [onClient, registerWithCleanup, hregister, hdetail fileId rfl]

theorem DownloadService.download_onClient (svc : DownloadService σ μ) {token : BearerToken}
    {fileId : String}
    (hdetail : client.getFileDetail token fileId = svc.metadataClient.getFileDetail token fileId)
    (hversion : ∀ versionNumber, client.getVersionDetail token fileId versionNumber =
      svc.metadataClient.getVersionDetail token fileId versionNumber) :
    (svc.onClient client).download token fileId = svc.download token fileId := by
  have hclient : svc.onClient client = { svc with metadataClient := client } := rfl
  funext versionNumber now s
  unfold download
  simp only [hclient, hdetail, hversion]
  rfl

end Storage

namespace Platform
open Postgres Library Metadata Storage HttpMetadataClient
variable (sha256 : Bytes → String) (fold : Char → Char) (app : MetadataApp)

/-- The body of the registration. -/
def Upload.body (u : Upload) : List UInt8 :=
  match u.target with
  | .newFile fileName => CreateFileInput.codec.encode ⟨u.payload sha256, fileName⟩
  | .newVersion _ => CreateVersionInput.codec.encode (u.payload sha256)

/-- The upload whose registration ends as the size of its body has it. -/
def Upload.wired (u : Upload) : Upload :=
  { u with outcomes := { u.outcomes with
      registration := u.outcomes.registration.carrying (u.body sha256) } }

def Op.wired : Op → Op
  | .upload u => .upload (u.wired sha256)
  | op => op

/-- One event, the calls of metadata-service as requests over HTTP. -/
def wireStep (w : World) : Op → Reply × World
  | .upload u =>
    let res := ((u.service sha256).onClient (wireMetadataClient app u.generated u.outcomes)).upload
      u.ownerId u.target u.mimeType u.buffer w
    (.uploaded res.1, res.2)
  | .download q =>
    let res := ((containerDownloadService sha256 q.generated q.outcomes).onClient
      (wireMetadataClient app q.generated q.outcomes)).download q.ownerId q.fileId q.versionNumber
      q.now w
    (.downloaded res.1, res.2)
  | .metadata r =>
    let res := FileRouter.handle fold w.metadata r
    (.metadata res.1, { w with metadata := res.2 })

/-- The paths of the upload's requests carry its file id. -/
def Upload.PathCarries (u : Upload) : Prop :=
  ∀ fileId, u.target = .newVersion fileId → Carries .getFileDetail fileId

/-- The paths carry the file ids, and a reply that is no JSON answers a body within the limit. -/
def Op.Carried : Op → Prop
  | .upload u => u.PathCarries ∧
    (u.outcomes.registration = .unreadable → (u.body sha256).length ≤ bodyLimit)
  | .download q => Carries .getFileDetail q.fileId
  | .metadata _ => True

variable {sha256 fold app}

theorem upload_wired {u : Upload} (h : (Op.upload u).Carried sha256) (w : World) :
    ((u.service sha256).onClient (wireMetadataClient app u.generated u.outcomes)).upload
      u.ownerId u.target u.mimeType u.buffer w = (u.wired sha256).run sha256 w := by
  have hservice : (u.service sha256).onClient (wireMetadataClient app u.generated u.outcomes) =
      ((u.wired sha256).service sha256).onClient
        (wireMetadataClient app u.generated u.outcomes) := rfl
  obtain ⟨hpath, hreply⟩ := h
  rw [hservice, Upload.run]
  apply UploadService.upload_onClient
  · intro fileName htarget
    have hbody : u.body sha256 = CreateFileInput.codec.encode ⟨u.payload sha256, fileName⟩ := by
      rw [Upload.body, show u.target = .newFile fileName from htarget]
    exact wireMetadataClient_registerFile app u.generated u.outcomes u.ownerId hbody hreply
  · intro fileId htarget
    have hbody : u.body sha256 = CreateVersionInput.codec.encode (u.payload sha256) := by
      rw [Upload.body, show u.target = .newVersion fileId from htarget]
    exact wireMetadataClient_addVersion app u.generated u.outcomes u.ownerId
      ((hpath fileId htarget).of_getFileDetail _) hbody hreply
  · intro fileId htarget
    exact wireMetadataClient_getFileDetail app u.generated u.outcomes u.ownerId
      (hpath fileId htarget)

theorem wireStep_eq {op : Op} (h : op.Carried sha256) (w : World) :
    wireStep sha256 fold app w op = step sha256 fold w (op.wired sha256) := by
  cases op with
  | upload u =>
    rw [wireStep, upload_wired h]
    rfl
  | download q =>
    have hid : Carries .getFileDetail q.fileId := h
    have hdownload := DownloadService.download_onClient
      (containerDownloadService sha256 q.generated q.outcomes)
      (wireMetadataClient_getFileDetail app q.generated q.outcomes q.ownerId hid)
      fun _ => wireMetadataClient_getVersionDetail app q.generated q.outcomes q.ownerId
        (hid.of_getFileDetail _)
    rw [wireStep, hdownload]
    rfl
  | metadata r => rfl

/-- Every run over HTTP is a run of the platform, with the same answers and the same last state. -/
theorem wire_runs {ops : List Op} (hops : ∀ op ∈ ops, op.Carried sha256) (w : World) :
    (answers (wireStep sha256 fold app) w ops).map Prod.snd =
        (answers (step sha256 fold) w (ops.map (Op.wired sha256))).map Prod.snd ∧
      finalState (wireStep sha256 fold app) w ops =
        finalState (step sha256 fold) w (ops.map (Op.wired sha256)) :=
  run_map_of_step (Op.wired sha256) (fun w _ hop => wireStep_eq hop w) hops w

/-- A file of one byte. -/
def byteUpload : Upload where
  ownerId := 1
  target := .newFile "a.txt"
  mimeType := "text/plain"
  buffer := [1]
  chunkSizeBytes := singleByte
  generated := sampleGenerated 1
  outcomes := .replied

/-- The file that `byteUpload` makes, read back. -/
def byteDownload : Download where
  ownerId := 1
  fileId := uuidOut byteUpload.generated.file
  versionNumber := none
  now := 2
  generated := sampleGenerated 2
  outcomes := .replied

/-- The text of a user's id is the user's token. -/
def plainApp : MetadataApp where
  zod := ⟨fun _ => .object [], fun _ => by simp only [Json.Written, Json.WrittenMembers]⟩
  isEmail _ := true
  verify token := some (Auth.TokenClaims.payload ⟨token, "ada@example.com", .access⟩)
  signed := uuidOut
  verified token := by
    refine ⟨"ada@example.com", ?_⟩
    have hemail : "ada@example.com" ≠ "" := by decide
    have hverified : Auth.verifyToken (some (Auth.TokenClaims.payload
        ⟨uuidOut token, "ada@example.com", .access⟩)) .access =
          .ok ⟨uuidOut token, "ada@example.com", .access⟩ :=
      Auth.verifyToken_eq_ok.mpr ⟨rfl, rfl, uuidOut_ne_empty token, hemail⟩
    rw [Gateway.authenticate, Auth.extractBearerToken_bearer]
    exact hverified
  elsewhere _ d := (ApiResponse.refusal .internal none, d)

theorem wire_runs_byteUpload :
    finalState (wireStep sampleSha256 id plainApp) .empty
        [.upload byteUpload, .download byteDownload] =
      finalState (step sampleSha256 id) .empty
        [.upload (byteUpload.wired sampleSha256), .download byteDownload] := by
  have hcarried : ∀ op ∈ [Op.upload byteUpload, .download byteDownload],
      op.Carried sampleSha256 := by
    intro op hop
    rcases List.mem_pair.mp hop with rfl | rfl
    · refine ⟨?_, fun h => by cases h⟩
      intro fileId htarget
      cases htarget
    · exact carries_uuidOut _ _
  exact (wire_runs hcarried .empty).2

end Platform
end IntelliStore
