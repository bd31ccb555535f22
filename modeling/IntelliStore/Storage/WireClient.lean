import IntelliStore.Storage.HttpClient
import IntelliStore.Storage.MetadataUrls

/-! The requests of `HttpMetadataClient` as they are sent: the path is parsed as a URL, and the
routes of metadata-service lead from it to a handler. -/

namespace IntelliStore.Storage
open Library Library.Url Library.Routing Postgres Metadata Gateway

inductive Sending where
  | get
  | post (body : List UInt8)

def Sending.method : Sending → Method
  | get => .get
  | post _ => .post

/-- A request without a body passes `express.json()`. -/
def Sending.parsed : Sending → Bool
  | get => true
  | post body => (jsonBody body).isSome

/-- `Number` of a text of digits. -/
def versionNumberParam (text : String) : Option Nat :=
  if text ≠ "" ∧ text.toList.all Char.isDigit then some (Nat.ofDigitChars 10 text.toList 0)
  else none

/-- metadata-service behind its port. It takes the token of each user for that user, and what it
answers to requests that the client has no use for is left open. -/
structure MetadataApp where
  zod : Zod
  isEmail : String → Bool
  verify : String → Option Auth.Payload
  signed : BearerToken → String
  verified : ∀ token, ∃ email,
    authenticate verify (some ("Bearer " ++ signed token)) = .ok ⟨uuidOut token, email, .access⟩
  elsewhere : Action Unit → Database → HttpReply × Database

namespace MetadataApp
open FileRouter
variable (app : MetadataApp) (g : Generated) (token : BearerToken)

def request (sending : Sending) (path : String) : Gateway.Request Unit :=
  ⟨sending.method, (parse path).path, some ("Bearer " ++ app.signed token),
    ⟨sending.parsed, none, none, none⟩⟩

def handle : Sending → Action Unit → Database → HttpReply × Database
  | .post body, .guarded .registerFile => answerPostFile app.zod g token body
  | .post body, .guarded (.addVersion id) => answerPostVersion app.zod g token id body
  | .get, .guarded (.getFile id) => fun d => (answerGetFile token id d, d)
  | .get, .guarded (.getVersion id versionNumber) =>
    match versionNumberParam versionNumber with
    | some n => fun d => (answerGetVersion token id n d, d)
    | none => app.elsewhere (.guarded (.getVersion id versionNumber))
  | _, action => app.elsewhere action

def answer (sending : Sending) (path : String) (d : Database) : HttpReply × Database :=
  let r := app.request token sending path
  match respond app.isEmail app.verify .metadata r.path r with
  | .ok action => app.handle g token sending action d
  | .error (.error e) => (ApiResponse.refusal e none, d)
  | .error .preflight => (⟨204, []⟩, d)

end MetadataApp

open HttpMetadataClient

/-- `HttpMetadataClient` with its requests and their replies written out. -/
def wireMetadataClient (app : MetadataApp) (g : Generated) (outcomes : Outcomes) :
    MetadataClient Database where
  registerFile token payload :=
    fetchJson outcomes.registration RegisterFileResult.codec
      (app.answer g token (.post (CreateFileInput.codec.encode payload)) "/files")
  addVersion token fileId payload :=
    fetchJson outcomes.registration VersionDetail.codec
      (app.answer g token (.post (CreateVersionInput.codec.encode payload))
        (Operation.addVersion.path fileId))
  getFileDetail token fileId d :=
    (fetchJson outcomes.fileDetail FileDetail.codec
      (app.answer g token .get (Operation.getFileDetail.path fileId)) d).1
  getVersionDetail token fileId versionNumber d :=
    (fetchJson outcomes.versionDetail VersionDetail.codec
      (app.answer g token .get
        ((Operation.getVersionDetail (.ofNat versionNumber)).path fileId)) d).1

/-! ### Which handler answers -/

theorem versionNumberParam_ofNat (n : Nat) :
    versionNumberParam (VersionText.ofNat n).text = some n := by
  have hdigits : (Nat.toDigits 10 n).all Char.isDigit = true :=
    List.all_eq_true.mpr fun _ hc => Nat.isDigit_of_mem_toDigits (by decide) (by decide) hc
  have hne : n.repr ≠ "" := by
    intro h
    exact Nat.toDigits_ne_nil (b := 10) (n := n) (by rw [← Nat.toList_repr, h]; rfl)
  unfold versionNumberParam VersionText.ofNat
  dsimp only
  rw [Nat.toList_repr, if_pos ⟨hne, hdigits⟩, Nat.ofDigitChars_ten_toDigits]

namespace MetadataApp
open FileRouter
variable {app : MetadataApp} {g : Generated} {token : BearerToken} {sending : Sending}
  {path fileId : String} {op : Operation}

theorem authenticated (app : MetadataApp) (token : BearerToken) (sending : Sending)
    (path : String) : requireAuth app.verify (app.request token sending path) = none := by
  obtain ⟨email, hverified⟩ := app.verified token
  rw [requireAuth, request, hverified]

theorem sent (hmethod : sending.method = op.method) (hparsed : sending.parsed = true) :
    Sent app.verify (app.request token sending path) op where
  method := hmethod
  parsed := hparsed
  authenticated := app.authenticated token sending path

/-- The body parser stands before the routers. -/
theorem answer_unparsed (h : sending.parsed = false) (d : Database) :
    app.answer g token sending path d = (ApiResponse.refusal .internal none, d) := by
  have hoptions : ¬(app.request token sending path).method = .options := by
    cases sending <;> exact Method.noConfusion
  have hbody : (app.request token sending path).body.parsed = false := h
  have hmount : ∀ path, stripMount [] path = some path := fun _ => rfl
  simp only [answer, respond, createApp, dispatchApp, hmount, Option.bind_some, cors, json,
    dispatch, if_neg hoptions, hbody]
  rfl

theorem answer_of_carries (hsent : Sent app.verify (app.request token sending (op.path fileId)) op)
    (h : Carries op fileId) (d : Database) : app.answer g token sending (op.path fileId) d =
      app.handle g token sending (.guarded (op.handler fileId)) d := by
  have hreaches : Reaches app.isEmail app.verify (app.request token sending (op.path fileId)) op
    fileId := reaches_of_carries hsent h
  have hpath : (app.request token sending (op.path fileId)).path =
    (parse (op.path fileId)).path := rfl
  unfold answer
  simp only [hpath, hreaches.route]

theorem parsed_post {body : List UInt8} {parsed : Option Json} (h : jsonBody body = parsed) :
    (Sending.post body).parsed = parsed.isSome := by
  rw [Sending.parsed, h]

/-- `POST /files` -/
theorem answer_registerFile (body : List UInt8) :
    app.answer g token (.post body) "/files" = answerPostFile app.zod g token body := by
  funext d
  cases hbody : jsonBody body with
  | none =>
    rw [answer_unparsed (parsed_post hbody), answerPostFile, answerBody_unparsed _ _ _ _ _ hbody]
  | some v =>
    have hpath : (parse "/files").path = ["files"] := by decide
    have hroute : respond app.isEmail app.verify .metadata ["files"]
        (app.request token (.post body) "/files") = .ok (.guarded .registerFile) :=
      respond_registerFile (sent rfl (parsed_post hbody))
    have hrequest : (app.request token (.post body) "/files").path = ["files"] := hpath
    unfold answer
    simp only [hrequest, hroute, handle]

/-- `POST /files/:id/versions` -/
theorem answer_addVersion (h : Carries .addVersion fileId) (body : List UInt8) :
    app.answer g token (.post body) (Operation.addVersion.path fileId) =
      answerPostVersion app.zod g token fileId body := by
  funext d
  cases hbody : jsonBody body with
  | none =>
    rw [answer_unparsed (parsed_post hbody), answerPostVersion, answerBody_unparsed _ _ _ _ _ hbody]
  | some v =>
    rw [answer_of_carries (sent rfl (parsed_post hbody)) h]
    rfl

/-- `GET /files/:id` -/
theorem answer_getFile (h : Carries .getFileDetail fileId) (d : Database) :
    app.answer g token .get (Operation.getFileDetail.path fileId) d =
      (answerGetFile token fileId d, d) := by
  rw [answer_of_carries (sent rfl rfl) h]
  rfl

/-- `GET /files/:id/versions/:versionNumber` -/
theorem answer_getVersion {versionNumber : Nat}
    (h : Carries (.getVersionDetail (.ofNat versionNumber)) fileId) (d : Database) :
    app.answer g token .get ((Operation.getVersionDetail (.ofNat versionNumber)).path fileId) d =
      (answerGetVersion token fileId versionNumber d, d) := by
  rw [answer_of_carries (sent rfl rfl) h, Operation.handler, handle, versionNumberParam_ofNat]

end MetadataApp

/-! ### The calls of the model -/

section
variable (app : MetadataApp) (g : Generated) (outcomes : Outcomes) (token : BearerToken)

theorem wireMetadataClient_registerFile {input : CreateFileInput} {body : List UInt8}
    (hbody : body = CreateFileInput.codec.encode input)
    (h : outcomes.registration = .unreadable → body.length ≤ bodyLimit) :
    (wireMetadataClient app g outcomes).registerFile token input =
      request (outcomes.registration.carrying body) (FileRouter.postFile g token input) := by
  subst hbody
  funext d
  unfold wireMetadataClient
  dsimp only
  rw [MetadataApp.answer_registerFile]
  exact fetchJson_answerBody rfl h d

theorem wireMetadataClient_addVersion {fileId : String} (hid : Carries .addVersion fileId)
    {input : CreateVersionInput} {body : List UInt8}
    (hbody : body = CreateVersionInput.codec.encode input)
    (h : outcomes.registration = .unreadable → body.length ≤ bodyLimit) :
    (wireMetadataClient app g outcomes).addVersion token fileId input =
      request (outcomes.registration.carrying body)
        (FileRouter.postVersion g token fileId input) := by
  subst hbody
  funext d
  unfold wireMetadataClient
  dsimp only
  rw [MetadataApp.answer_addVersion hid]
  exact fetchJson_answerBody rfl h d

/-- The reads carry no body. -/
theorem wireMetadataClient_getFileDetail {fileId : String} (hid : Carries .getFileDetail fileId) :
    (wireMetadataClient app g outcomes).getFileDetail token fileId =
      (httpMetadataClient g outcomes).getFileDetail token fileId := by
  funext d
  refine congrArg Prod.fst (fetchJson_eq (fun d => ?_) d)
  rw [MetadataApp.answer_getFile hid]
  exact ⟨readReply_reply _ _ _, rfl⟩

theorem wireMetadataClient_getVersionDetail {fileId : String} {versionNumber : Nat}
    (hid : Carries (.getVersionDetail (.ofNat versionNumber)) fileId) :
    (wireMetadataClient app g outcomes).getVersionDetail token fileId versionNumber =
      (httpMetadataClient g outcomes).getVersionDetail token fileId versionNumber := by
  funext d
  refine congrArg Prod.fst (fetchJson_eq (fun d => ?_) d)
  rw [MetadataApp.answer_getVersion hid]
  exact ⟨readReply_reply _ _ _, rfl⟩

end

/-! ### The ids of the tables -/

namespace HttpMetadataClient

/-- An id that can be asked for by itself stands in every path. -/
theorem Carries.of_getFileDetail {fileId : String} (h : Carries .getFileDetail fileId)
    (op : Operation) : Carries op fileId where
  nonempty := h.nonempty
  not_here := h.not_here
  not_parent := h.not_parent
  plain := h.plain
  last _ := h.last rfl
  free _ := h.free rfl

/-- The characters of the text of a UUID. -/
theorem uuidText_chars {P : Char → Prop} (hhyphen : P '-') (hhex : ∀ k < 16, P (hexChar k))
    (a n : Nat) : ∀ c ∈ uuidText a n, P c := by
  induction n with
  | zero => simp [uuidText]
  | succ n ih =>
    intro c hc
    rw [uuidText, List.mem_cons, List.mem_cons, List.mem_append] at hc
    rcases hc with rfl | rfl | hsep | hrest
    · exact hhex _ (Nat.mod_lt _ (by decide))
    · exact hhex _ (Nat.mod_lt _ (by decide))
    · split_ifs at hsep
      · rw [List.mem_singleton.mp hsep]
        exact hhyphen
      · cases hsep
    · exact ih c hrest

theorem uuidOut_chars {P : Char → Prop} (hhyphen : P '-') (hhex : ∀ k < 16, P (hexChar k))
    (id : Uuid) : ∀ c ∈ (uuidOut id).toList, P c := by
  rw [uuidOut_eq, String.toList_ofList]
  exact uuidText_chars hhyphen hhex _ _

/-- The path carries every id that the tables return. -/
theorem carries_uuidOut (op : Operation) (id : Uuid) : Carries op (uuidOut id) := by
  have hplain : ∀ c ∈ (uuidOut id).toList, Plain c ∧ isEncoded c = false :=
    uuidOut_chars (by decide) (by decide) id
  have hdot : ∀ c ∈ (uuidOut id).toList, c ≠ '.' := uuidOut_chars (by decide) (by decide) id
  have hletter : ∀ c ∈ (uuidOut id).toList, c.toUpper ≠ '_' ∧ c.toUpper ≠ 'S' :=
    uuidOut_chars (by decide) (by decide) id
  have hother : ∀ (text : String) (letter : Char), letter ∈ text.toList.map Char.toUpper →
      (∀ c ∈ (uuidOut id).toList, c.toUpper ≠ letter) → sameText text (uuidOut id) = false := by
    intro text letter hmem hnone
    apply decide_eq_false
    intro heq
    rw [heq] at hmem
    obtain ⟨c, hc, rfl⟩ := List.mem_map.mp hmem
    exact hnone c hc rfl
  exact {
    nonempty := uuidOut_ne_empty id
    not_here := by
      intro heq
      exact hdot '.' (by rw [heq]; decide) rfl
    not_parent := by
      intro heq
      exact hdot '.' (by rw [heq]; decide) rfl
    plain := fun c hc => (hplain c hc).1
    last := fun _ => rdropWhile_of_not_encoded fun c hc => (hplain c hc).2
    free := fun _ => ⟨hother "_stats" '_' (by decide) fun c hc => (hletter c hc).1,
      hother "search" 'S' (by decide) fun c hc => (hletter c hc).2⟩ }

end HttpMetadataClient
end IntelliStore.Storage
