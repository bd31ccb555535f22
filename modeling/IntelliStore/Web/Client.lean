import IntelliStore.Library.UrlQuery
import IntelliStore.Auth.Tokens
import IntelliStore.Metadata.Search
import IntelliStore.Storage.MetadataUrls
import IntelliStore.Web.Session

/-! The requests that the web client sends to the gateway, from the paths it builds to the handlers
that answer them. -/

namespace IntelliStore.Web
open Library Library.Routing Library.Url Gateway Auth Postgres
open Storage.HttpMetadataClient (encoded decode_encoded encoded_ne_empty encoded_of_unchanged)

/-- The functions of `api.ts`. -/
inductive ApiCall where
  | registerAccount (input : RegisterInput)
  | login (input : LoginInput)
  | listFiles
  | searchFiles (query : String)
  | uploadFile
  | downloadFile (fileId : String)
  | listNodes
  | getAnalyticsOverview
  | getFileRecommendations
  | getNotifications
  | markNotificationRead (id : String)
  | markAllNotificationsRead

namespace ApiCall

def method : ApiCall → Method
  | registerAccount _ | login _ | uploadFile | markNotificationRead _
  | markAllNotificationsRead => .post
  | _ => .get

def path : ApiCall → String
  | registerAccount _ => "/api/auth/register"
  | login _ => "/api/auth/login"
  | listFiles => "/api/files"
  | searchFiles query =>
    "/api/files/search?q=" ++ String.ofList (encodeURIComponent query.toList)
  | uploadFile => "/api/storage"
  | downloadFile fileId => "/api/storage/" ++ fileId ++ "/download"
  | listNodes => "/api/replication/nodes"
  | getAnalyticsOverview => "/api/analytics/overview"
  | getFileRecommendations => "/api/analytics/files"
  | getNotifications => "/api/notifications"
  | markNotificationRead id => "/api/notifications/" ++ id ++ "/read"
  | markAllNotificationsRead => "/api/notifications/read-all"

/-- What the call is meant to do. -/
def action {τ : Type} : ApiCall → Action τ
  | registerAccount input => .register input
  | login input => .login input
  | listFiles => .guarded .listFiles
  | searchFiles _ => .guarded .searchFiles
  | uploadFile => .guarded .uploadNewFile
  | downloadFile fileId => .guarded (.download fileId)
  | listNodes => .guarded .listNodes
  | getAnalyticsOverview => .guarded .getOverview
  | getFileRecommendations => .guarded .getFileRecommendations
  | getNotifications => .guarded .listNotifications
  | markNotificationRead id => .guarded (.markRead id)
  | markAllNotificationsRead => .guarded .markAllRead

/-- The ids in the path. -/
def ids : ApiCall → List String
  | downloadFile fileId => [fileId]
  | markNotificationRead id => [id]
  | _ => []

end ApiCall

variable {τ : Type}

/-- The proxies of the gateway, and the service behind them. -/
def forward (isEmail : String → Bool) (verify : String → Option Payload) (r : Request τ) :
    Except Halt (Action τ) :=
  match mountProxies r.path with
  | none => .error (.error (.notFound "Route not found"))
  | some (upstream, path) => respond isEmail verify upstream path r

/-- The gateway, whose rate limiter lets the request pass or does not. -/
def route (isEmail : String → Bool) (verify : String → Option Payload) (passes : Bool)
    (r : Request τ) : Except Halt (Action τ) :=
  match dispatchApp (.error .internal) r.method r.path r (gatewayApp passes) with
  | some result => result
  | none => forward isEmail verify r

/-- A request as `fetch` sends it for the call. -/
structure Sends (isEmail : String → Bool) (r : Request τ) (call : ApiCall) : Prop where
  method : r.method = call.method
  path : r.path = (parse call.path).path
  parsed : r.body.parsed = true
  registered : ∀ input, call = .registerAccount input →
    r.body.register.filter (registerSchema isEmail) = some input
  loggedIn : ∀ input, call = .login input → r.body.login.filter (loginSchema isEmail) = some input

section
variable {isEmail : String → Bool} {verify : String → Option Payload} {r : Request τ}

theorem dispatch_cors_json (hmethod : r.method = .get ∨ r.method = .post)
    (hparsed : r.body.parsed = true) (path : List String) :
    dispatch (.error .internal) r.method path r [cors, json] = none := by
  have hoptions : ¬r.method = .options := by
    rcases hmethod with h | h <;> rw [h] <;> decide
  simp only [cors, json, dispatch, if_neg hoptions, hparsed, if_true]

/-- The router of a service that has one. -/
theorem respond_of_router {upstream : Upstream} {path rest mount : List String} {router : Router τ}
    {result : Except Halt (Action τ)} (hmethod : r.method = .get ∨ r.method = .post)
    (hparsed : r.body.parsed = true)
    (happ : createApp isEmail verify upstream =
      [([], [cors, json]), ([], healthRouter), (mount, router)])
    (hhealth : matchPath [.literal "health"] path = none)
    (hstrip : stripMount mount path = some rest)
    (hrouter : dispatch (.error .internal) r.method rest r router = some result) :
    respond isEmail verify upstream path r = result := by
  have hmount : ∀ path, stripMount [] path = some path := fun _ => rfl
  have hnone : dispatch (.error .internal) r.method path r (healthRouter : Router τ) = none := by
    rw [healthRouter, dispatch, hhealth]
    rfl
  simp only [respond, happ, dispatchApp, hmount, hstrip, Option.bind_some, hnone, hrouter,
    dispatch_cors_json hmethod hparsed]

theorem forward_of_router {names : List String} {mount : List String} {router : Router τ}
    {result : Except Halt (Action τ)} (upstream : Upstream) (path rest : List String)
    (hpath : r.path = names) (hmethod : r.method = .get ∨ r.method = .post)
    (hparsed : r.body.parsed = true) (hproxy : mountProxies names = some (upstream, path))
    (happ : createApp isEmail verify upstream =
      [([], [cors, json]), ([], healthRouter), (mount, router)])
    (hhealth : matchPath [.literal "health"] path = none)
    (hstrip : stripMount mount path = some rest)
    (hrouter : dispatch (.error .internal) r.method rest r router = some result) :
    forward isEmail verify r = result := by
  rw [forward, hpath, hproxy]
  exact respond_of_router hmethod hparsed happ hhealth hstrip hrouter

end

/-! ### The paths -/

/-- The names of the path. -/
def ApiCall.names : ApiCall → List String
  | registerAccount _ => ["api", "auth", "register"]
  | login _ => ["api", "auth", "login"]
  | listFiles => ["api", "files"]
  | searchFiles _ => ["api", "files", "search"]
  | uploadFile => ["api", "storage"]
  | downloadFile fileId => ["api", "storage", encoded fileId, "download"]
  | listNodes => ["api", "replication", "nodes"]
  | getAnalyticsOverview => ["api", "analytics", "overview"]
  | getFileRecommendations => ["api", "analytics", "files"]
  | getNotifications => ["api", "notifications"]
  | markNotificationRead id => ["api", "notifications", encoded id, "read"]
  | markAllNotificationsRead => ["api", "notifications", "read-all"]

theorem name_of_chars {text : String} (h : ∀ c ∈ text.toList, Plain c ∧ isEncoded c = false)
    (hdots : text ≠ "" ∧ text ≠ "." ∧ text ≠ "..") : Name text.toList ∧ encoded text = text := by
  have hpercent : '%' ∉ text.toList := fun hmem => (h _ hmem).1.not_percent rfl
  have hne : ∀ dots : String, text ≠ dots → text.toList ≠ dots.toList :=
    fun dots hne heq => hne (String.toList_inj.mp heq)
  refine ⟨?_, ?_⟩
  · exact {
      nonempty := hne "" hdots.1
      not_single := isSingleDot_eq_false hpercent (hne _ hdots.2.1)
      not_double := isDoubleDot_eq_false hpercent (hne _ hdots.2.2)
      plain := fun c hc => (h c hc).1 }
  · exact encoded_of_unchanged fun c hc => (h c hc).2

/-- A literal part of a path. -/
theorem name_of_all {text : String}
    (h : (text.toList.all fun c => decide (Plain c ∧ isEncoded c = false)) = true)
    (hdots : text ≠ "" ∧ text ≠ "." ∧ text ≠ "..") : Name text.toList ∧ encoded text = text :=
  name_of_chars (forall_of_all h) hdots

/-- The path of an id between two literal parts and a third. -/
theorem parse_id {text first second last id : String}
    (htext : text.toList = ('/' :: first.toList ++ '/' :: second.toList ++ ['/']) ++ id.toList ++
      '/' :: last.toList)
    (hfirst : Name first.toList ∧ encoded first = first)
    (hsecond : Name second.toList ∧ encoded second = second)
    (hlast : Name last.toList ∧ encoded last = last)
    (hend : last.toList.rdropWhile isControlOrSpace = last.toList) (hid : Name id.toList) :
    (parse text).path = [first, second, encoded id, last] := by
  have hjoined : text.toList =
      joined ([first.toList, second.toList, id.toList] ++ [last.toList]) := by
    rw [htext]
    simp only [joined, List.flatMap_cons, List.flatMap_nil, List.append_nil,
      List.append_assoc, List.cons_append, List.nil_append]
  have hnames : ∀ s ∈ [first.toList, second.toList, id.toList] ++ [last.toList], Name s := by
    simpa only [List.cons_append, List.nil_append, List.forall_mem_cons, List.not_mem_nil,
      false_implies, implies_true, and_true] using ⟨hfirst.1, hsecond.1, hid, hlast.1⟩
  rw [parse_joined hjoined hnames hend]
  change [encoded first, encoded second, encoded id, encoded last] = _
  rw [hfirst.2, hsecond.2, hlast.2]

theorem names_of_searchFiles (query : String) : parse (ApiCall.searchFiles query).path =
    ⟨["api", "files", "search"], String.ofList ('q' :: '=' :: encodeURIComponent query.toList)⟩ := by
  have htext : (ApiCall.searchFiles query).path.toList =
      "/api/files/search".toList ++ '?' :: 'q' :: '=' :: encodeURIComponent query.toList := by
    show ("/api/files/search?q=" ++ String.ofList (encodeURIComponent query.toList)).toList = _
    have hencoded : (String.ofList (encodeURIComponent query.toList)).toList =
        encodeURIComponent query.toList := String.toList_ofList
    rw [String.toList_append, hencoded]
    rfl
  have hquery : ∀ c ∈ 'q' :: '=' :: encodeURIComponent query.toList,
      isControlOrSpace c = false ∧ c ≠ '#' := by
    intro c hc
    rcases List.mem_cons.mp hc with rfl | hc
    · decide
    · rcases List.mem_cons.mp hc with rfl | hc
      · decide
      · exact visible_encodeURIComponent _ c hc
  have hfront : ∀ c ∈ "/api/files/search".toList, isControlOrSpace c = false ∧ endsPath c = false :=
    forall_of_all (by decide)
  have hpath : pathFrom [] (("/api/files/search".toList).splitOnP isSlash).tail =
      ["api", "files", "search"] := by decide
  exact (parse_query htext hfront hquery).trans (congrArg (Target.mk · _) hpath)

theorem path_names (call : ApiCall) (hids : ∀ id ∈ call.ids, Name id.toList) :
    (parse call.path).path = call.names := by
  have hapi : Name "api".toList ∧ encoded "api" = "api" := name_of_all (by decide) (by decide)
  cases call with
  | registerAccount input =>
    show (parse "/api/auth/register").path = ["api", "auth", "register"]
    decide
  | login input =>
    show (parse "/api/auth/login").path = ["api", "auth", "login"]
    decide
  | searchFiles query =>
    rw [names_of_searchFiles]
    rfl
  | downloadFile fileId =>
    have hid : Name fileId.toList := hids fileId (List.mem_singleton_self _)
    have hstorage : Name "storage".toList ∧ encoded "storage" = "storage" :=
      name_of_all (by decide) (by decide)
    have hdownload : Name "download".toList ∧ encoded "download" = "download" :=
      name_of_all (by decide) (by decide)
    apply parse_id _ hapi hstorage hdownload (by decide) hid
    show ("/api/storage/" ++ fileId ++ "/download").toList = _
    rw [String.toList_append, String.toList_append]
    rfl
  | markNotificationRead id =>
    have hid : Name id.toList := hids id (List.mem_singleton_self _)
    have hnotifications : Name "notifications".toList ∧ encoded "notifications" = "notifications" :=
      name_of_all (by decide) (by decide)
    have hread : Name "read".toList ∧ encoded "read" = "read" :=
      name_of_all (by decide) (by decide)
    apply parse_id _ hapi hnotifications hread (by decide) hid
    show ("/api/notifications/" ++ id ++ "/read").toList = _
    rw [String.toList_append, String.toList_append]
    rfl
  | _ => decide

section
variable {isEmail : String → Bool} {verify : String → Option Payload} {r : Request τ}
  {call : ApiCall}

/-! ### The routes -/

theorem stripMount_param {mount : List String} {path rest : List String} {name : String}
    (hmount : mount ≠ []) (hname : name ≠ "") (h : afterMount mount path = some (name :: rest)) :
    stripMount mount path = some (name :: rest) := by
  rw [stripMount, if_neg hmount, h, Option.map_some]
  split
  · rename_i heq
    exact absurd heq (List.cons_ne_nil _ _)
  · rename_i heq
    exact absurd (List.cons.inj heq).1 hname
  · rfl

/-- The answer of `requireAuth`, or else the handler's. -/
def behindAuth (verify : String → Option Payload) (r : Request τ) (action : Action τ) :
    Except Halt (Action τ) :=
  match requireAuth verify r with
  | some halt => .error halt
  | none => .ok action

/-- A router whose first layer is `requireAuth`. -/
theorem dispatch_requireAuth {path : List String} {layers : Router τ} {action : Action τ}
    (h : dispatch (.error .internal) r.method path r layers = some (.ok action)) :
    dispatch (.error .internal) r.method path r (.use (requireAuth verify) :: layers) =
      some (behindAuth verify r action) := by
  rw [dispatch, behindAuth]
  cases requireAuth verify r with
  | some halt => rfl
  | none => exact h

theorem ApiCall.get_or_post (call : ApiCall) : call.method = .get ∨ call.method = .post := by
  cases call <;> simp [ApiCall.method]

/-- A call to a router whose first layer is `requireAuth`. -/
theorem forward_of_guarded {mount : List String} {layers : Router τ} (upstream : Upstream)
    (path rest : List String) (hsends : Sends isEmail r call) (hpath : r.path = call.names)
    (hproxy : mountProxies call.names = some (upstream, path))
    (happ : createApp isEmail verify upstream =
      [([], [cors, json]), ([], healthRouter), (mount, .use (requireAuth verify) :: layers)])
    (hhealth : matchPath [.literal "health"] path = none)
    (hstrip : stripMount mount path = some rest)
    (hlayers : dispatch (.error .internal) call.method rest r layers = some (.ok call.action)) :
    forward isEmail verify r = behindAuth verify r call.action := by
  have hmethod : r.method = .get ∨ r.method = .post := by
    rw [hsends.method]
    exact call.get_or_post
  apply forward_of_router upstream path rest hpath hmethod hsends.parsed hproxy happ hhealth hstrip
  apply dispatch_requireAuth
  rw [hsends.method]
  exact hlayers

theorem forward_registerAccount {input : RegisterInput}
    (hsends : Sends isEmail r (.registerAccount input)) :
    forward isEmail verify r = .ok (.register input) := by
  have hvalid : validateBody (fun body => body.register.filter (registerSchema isEmail))
      Action.register [] r = .ok (.register input) := by
    rw [validateBody, hsends.registered input rfl]
  have hpath := hsends.path.trans (path_names _ fun id hid => absurd hid List.not_mem_nil)
  apply forward_of_router .auth ["auth", "register"] ["register"] hpath (.inr hsends.method)
    hsends.parsed rfl rfl rfl rfl
  rw [hsends.method]
  exact congrArg some hvalid

theorem forward_login {input : LoginInput} (hsends : Sends isEmail r (.login input)) :
    forward isEmail verify r = .ok (.login input) := by
  have hvalid : validateBody (fun body => body.login.filter (loginSchema isEmail))
      Action.login [] r = .ok (.login input) := by
    rw [validateBody, hsends.loggedIn input rfl]
  have hpath := hsends.path.trans (path_names _ fun id hid => absurd hid List.not_mem_nil)
  apply forward_of_router .auth ["auth", "login"] ["login"] hpath (.inr hsends.method)
    hsends.parsed rfl rfl rfl rfl
  rw [hsends.method]
  exact congrArg some hvalid

theorem forward_downloadFile {fileId : String} (hsends : Sends isEmail r (.downloadFile fileId))
    (hid : Name fileId.toList) :
    forward isEmail verify r = behindAuth verify r (.guarded (.download fileId)) := by
  have hne := encoded_ne_empty hid
  have hdecode := decode_encoded hid
  have hpath :=
    hsends.path.trans (path_names (.downloadFile fileId) (by simpa [ApiCall.ids] using hid))
  have hproxy : mountProxies ["api", "storage", encoded fileId, "download"] =
      some (.storage, ["files", encoded fileId, "download"]) := by
    have hmount : stripMount ["api", "storage"] ["api", "storage", encoded fileId, "download"] =
        some [encoded fileId, "download"] := stripMount_param (by decide) hne rfl
    simp only [mountProxies, routes, List.findSome?_cons, hmount]
    rfl
  have hstrip : stripMount ["files"] ["files", encoded fileId, "download"] =
      some [encoded fileId, "download"] := stripMount_param (by decide) hne rfl
  have hdownload : sameText "download" "download" = true := by decide
  have hversions : sameText "versions" "download" = false := by decide
  apply forward_of_guarded .storage _ _ hsends hpath hproxy rfl rfl hstrip
  simp only [dispatch, ApiCall.method, matchPath, if_neg hne, hdownload, if_true]
  simp [hdecode, hversions, Method.answers, guarded₁, withParams, ApiCall.action]

theorem forward_markNotificationRead {id : String}
    (hsends : Sends isEmail r (.markNotificationRead id)) (hid : Name id.toList) :
    forward isEmail verify r = behindAuth verify r (.guarded (.markRead id)) := by
  have hne := encoded_ne_empty hid
  have hdecode := decode_encoded hid
  have hpath :=
    hsends.path.trans (path_names (.markNotificationRead id) (by simpa [ApiCall.ids] using hid))
  have hproxy : mountProxies ["api", "notifications", encoded id, "read"] =
      some (.notification, ["notifications", encoded id, "read"]) := by
    have hmount : stripMount ["api", "notifications"] ["api", "notifications", encoded id, "read"] =
        some [encoded id, "read"] := stripMount_param (by decide) hne rfl
    simp only [mountProxies, routes, List.findSome?_cons, hmount]
    rfl
  have hnotifications : sameText "notifications" "notifications" = true := by decide
  have hread : sameText "read" "read" = true := by decide
  apply forward_of_guarded .notification _ _ hsends hpath hproxy rfl rfl rfl
  simp only [dispatch, ApiCall.method, matchPath, if_neg hne, hnotifications, hread, if_true]
  simp [hdecode, Method.answers, guarded₁, withParams, ApiCall.action]

/-- The heartbeats of replication-service come before the check. -/
theorem forward_listNodes (hsends : Sends isEmail r .listNodes) :
    forward isEmail verify r = behindAuth verify r (.guarded .listNodes) := by
  have hmethod : r.method = .get := hsends.method
  have hpath := hsends.path.trans (path_names _ fun id hid => absurd hid List.not_mem_nil)
  have hmount : ∀ path, stripMount [] path = some path := fun _ => rfl
  have hhealth : dispatch (.error .internal) r.method ["nodes"] r (healthRouter : Router τ) =
      none := rfl
  have hheartbeat : dispatch (.error .internal) r.method ["nodes"] r (heartbeatRouter : Router τ) =
      none := rfl
  have hnodes : dispatch (.error .internal) r.method ["nodes"] r (replicaRouter verify) =
      some (behindAuth verify r (.guarded .listNodes)) := by
    apply dispatch_requireAuth
    rw [hmethod]
    rfl
  rw [forward, hpath]
  show respond isEmail verify .replication ["nodes"] r = _
  simp only [respond, createApp, dispatchApp, hmount, Option.bind_some,
    dispatch_cors_json (.inl hmethod) hsends.parsed, hhealth, hheartbeat, hnodes]

/-- The calls that need a session. -/
def ApiCall.guarded : ApiCall → Bool
  | registerAccount _ | login _ => false
  | _ => true

/-- A call reaches the handler it is meant for, with the id it was called with. -/
theorem forward_sends (hsends : Sends isEmail r call) (hids : ∀ id ∈ call.ids, Name id.toList) :
    forward isEmail verify r =
      if call.guarded then behindAuth verify r call.action else .ok call.action := by
  have hpath := hsends.path.trans (path_names call hids)
  cases call with
  | registerAccount input => exact forward_registerAccount hsends
  | login input => exact forward_login hsends
  | downloadFile fileId => exact forward_downloadFile hsends (hids _ (List.mem_singleton_self _))
  | markNotificationRead id =>
    exact forward_markNotificationRead hsends (hids _ (List.mem_singleton_self _))
  | listNodes => exact forward_listNodes hsends
  | listFiles =>
    exact forward_of_guarded .metadata ["files", ""] [""] hsends hpath rfl rfl rfl rfl rfl
  | searchFiles query =>
    exact forward_of_guarded .metadata ["files", "search"] ["search"] hsends hpath rfl rfl rfl rfl rfl
  | uploadFile =>
    exact forward_of_guarded .storage ["files", ""] [""] hsends hpath rfl rfl rfl rfl rfl
  | getAnalyticsOverview =>
    exact forward_of_guarded .aiAnalytics ["analytics", "overview"] ["overview"] hsends hpath rfl rfl
      rfl rfl rfl
  | getFileRecommendations =>
    exact forward_of_guarded .aiAnalytics ["analytics", "files"] ["files"] hsends hpath rfl rfl rfl
      rfl rfl
  | getNotifications =>
    exact forward_of_guarded .notification ["notifications", ""] ["notifications", ""] hsends hpath
      rfl rfl rfl rfl rfl
  | markAllNotificationsRead =>
    exact forward_of_guarded .notification ["notifications", "read-all"]
      ["notifications", "read-all"] hsends hpath rfl rfl rfl rfl rfl

/-- Every path of the client is one of the gateway's API. -/
theorem dispatchApp_names (hmethod : r.method = .get ∨ r.method = .post) (call : ApiCall)
    (passes : Bool) : dispatchApp (.error .internal) r.method call.names r (gatewayApp passes) =
      if passes then none else some (.error (.error tooManyRequests)) := by
  have hoptions : ¬r.method = .options := by
    rcases hmethod with h | h <;> rw [h] <;> decide
  have hnames : ∃ rest, call.names = "api" :: rest := by
    cases call <;> exact ⟨_, rfl⟩
  obtain ⟨rest, hnames⟩ := hnames
  have hcors : dispatch (.error .internal) r.method ("api" :: rest) r [cors] = none := by
    simp only [cors, dispatch, if_neg hoptions]
  have hhealth : dispatch (.error .internal) r.method ("api" :: rest) r (healthRouter : Router τ) =
      none := rfl
  have hmount : ∃ path, stripMount ["api"] ("api" :: rest) = some path := ⟨_, rfl⟩
  obtain ⟨path, hmount⟩ := hmount
  have hroot : ∀ path, stripMount [] path = some path := fun _ => rfl
  rw [hnames]
  simp only [gatewayApp, dispatchApp, hroot, Option.bind_some, hcors, hhealth, hmount, rateLimit,
    dispatch]
  cases passes <;> rfl

theorem route_sends (hsends : Sends isEmail r call) (hids : ∀ id ∈ call.ids, Name id.toList)
    (passes : Bool) : route isEmail verify passes r =
      if passes then if call.guarded then behindAuth verify r call.action else .ok call.action
      else .error (.error tooManyRequests) := by
  have hpath := hsends.path.trans (path_names call hids)
  have hmethod : r.method = .get ∨ r.method = .post := by
    rw [hsends.method]
    exact call.get_or_post
  have hdispatch := dispatchApp_names hmethod call passes
  rw [← hpath] at hdispatch
  rw [route, hdispatch]
  cases passes with
  | false => rfl
  | true => exact forward_sends hsends hids

end

/-! ### With the session of the browser -/

/-- A token of visible characters is sent as it is. -/
def authHeader (session : Option StoredSession) : Option String :=
  session.map fun s => "Bearer " ++ s.accessToken

theorem authenticate_authHeader (verify : String → Option Payload) (session : Option StoredSession) :
    authenticate verify (authHeader session) =
      match session with
      | none => .error ⟨"Missing bearer token"⟩
      | some s => verifyToken (verify s.accessToken) .access := by
  cases session with
  | none => rfl
  | some s =>
    show (extractBearerToken (some ("Bearer " ++ s.accessToken)) >>= _) = _
    rw [extractBearerToken_bearer]
    rfl

section
variable {svc : AuthService String} {ops : List (Op String)} {now : Nat}
  {changes : List StorageChange}

/-- The access token of the current session was issued to a user, and is not expired. -/
structure Live (svc : AuthService String) (ops : List (Op String)) (now : Nat)
    (changes : List StorageChange) (i : Issue String) : Prop where
  issued : Issued (answers (Auth.step svc) State.init ops) i
  current : ∃ session, currentSession changes = some session ∧
    i.pair.accessToken = session.accessToken
  unexpired : now < i.issuedAt + svc.options.accessExpiresIn

/-- `jwt.verify` after these calls of auth-service. -/
def verifyAccess (svc : AuthService String) (ops : List (Op String)) (now : Nat) (token : String) :
    Option Payload :=
  svc.jwt.verify (finalState (Auth.step svc) State.init ops).signed token svc.options.accessSecret
    now

/-- A call that the rate limiter lets pass is answered by its handler, as the user whom the token of
the session was issued to; it is unauthorized where the browser has no session, or one whose token
is not live. -/
theorem session_calls (isEmail : String → Bool) (svc : AuthService String) (ops : List (Op String))
    (hops : ∀ op ∈ ops, ∀ input, op.call = .register input → input.email ≠ "") (now : Nat)
    (changes : List StorageChange) (call : ApiCall) (r : Request τ) (hsends : Sends isEmail r call)
    (hauthorization : (getStoredSession (some (browser changes))).map authHeader =
      .ok r.authorization) (hids : ∀ id ∈ call.ids, Name id.toList)
    (hguarded : call.guarded = true) :
    (∀ i, Live svc ops now changes i →
      authenticate (verifyAccess svc ops now) r.authorization =
          .ok ⟨uuidOut i.id, i.email, .access⟩ ∧
        route isEmail (verifyAccess svc ops now) true r = .ok call.action) ∧
    ((∀ i, ¬Live svc ops now changes i) → ∃ message,
      route isEmail (verifyAccess svc ops now) true r =
        .error (.error (.unauthorized message))) ∧
    route isEmail (verifyAccess svc ops now) false r = .error (.error tooManyRequests) := by
  have hroute : route isEmail (verifyAccess svc ops now) true r = _ := route_sends hsends hids true
  have hledger : Ledger svc _ _ := ledger_run hops
  have hstored : getStoredSession (some (browser changes)) = .ok (currentSession changes) :=
    getStoredSession_foldl rfl changes
  rw [hstored] at hauthorization
  have hheader : r.authorization = authHeader (currentSession changes) :=
    (Except.ok.inj hauthorization).symm
  rw [if_pos rfl, if_pos hguarded, behindAuth, requireAuth] at hroute
  refine ⟨fun i hlive => ?_, fun hnone => ?_, route_sends hsends hids false⟩
  · obtain ⟨session, hsession, htoken⟩ := hlive.current
    have haccess : authenticate (verifyAccess svc ops now) r.authorization =
        .ok ⟨uuidOut i.id, i.email, .access⟩ := by
      rw [hheader, hsession, authenticate_authHeader]
      exact (hledger.verifyToken_iff .access).mpr ⟨i, hlive.issued, htoken, hlive.unexpired, rfl⟩
    rw [haccess] at hroute
    exact ⟨haccess, hroute⟩
  · cases haccess : authenticate (verifyAccess svc ops now) r.authorization with
    | error e =>
      rw [haccess] at hroute
      exact ⟨e.message, hroute⟩
    | ok claims =>
      rw [hheader, authenticate_authHeader] at haccess
      cases hsession : currentSession changes with
      | none =>
        rw [hsession] at haccess
        cases haccess
      | some session =>
        rw [hsession] at haccess
        obtain ⟨i, hissued, htoken, hnow, -⟩ := (hledger.verifyToken_iff .access).mp haccess
        exact absurd ⟨hissued, ⟨session, hsession, htoken⟩, hnow⟩ (hnone i)

end

/-! Tokens that are JSON texts; a user signs up and lists her files. -/

def payloadJson : Payload → Json
  | .text s => .ofString s
  | .object sub email type => .record [("sub", sub.elim .null .ofString),
      ("email", email.elim .null .ofString), ("type", type.elim .null .ofString)]

def payloadOf : Json → Payload
  | .string units => .text (((Json.string units).toString).getD "")
  | v => .object ((v.field "sub").bind Json.toString) ((v.field "email").bind Json.toString)
      ((v.field "type").bind Json.toString)

theorem payloadOf_payloadJson (p : Payload) : payloadOf (payloadJson p) = p := by
  cases p with
  | text s =>
    show Payload.text (((Json.ofString s).toString).getD "") = _
    rw [Json.toString_ofString]
    rfl
  | object sub email type =>
    have hread : ∀ o : Option String, (o.elim Json.null Json.ofString).toString = o := by
      intro o
      cases o with
      | none => rfl
      | some s => exact Json.toString_ofString s
    show Payload.object (((Json.record _).field "sub").bind Json.toString)
      (((Json.record _).field "email").bind Json.toString)
      (((Json.record _).field "type").bind Json.toString) = _
    simp [Json.field_record, hread]

def callJson (c : SignCall) : Json :=
  .record [("payload", payloadJson c.payload), ("secret", .ofString c.secret),
    ("issuedAt", .ofNat c.issuedAt), ("expiresIn", .ofNat c.expiresIn)]

def readCall (token : String) : Option (Payload × Nat) := do
  let v ← Json.parse token.toList
  let payload ← v.field "payload"
  let issuedAt ← (← v.field "issuedAt").toNat
  let expiresIn ← (← v.field "expiresIn").toNat
  some (payloadOf payload, issuedAt + expiresIn)

theorem readCall_sign (c : SignCall) : readCall (String.ofList (callJson c).stringify) =
    some (c.payload, c.issuedAt + c.expiresIn) := by
  have hwritten : (callJson c).Written := by
    have hpayload : (payloadJson c.payload).Written := by
      cases c.payload with
      | text s => exact Json.written_ofString s
      | object sub email type =>
        rw [payloadJson, Json.written_record]
        cases sub <;> cases email <;> cases type <;> simp [Json.Written]
    simp [callJson, Json.written_record, hpayload]
  rw [readCall, String.toList_ofList, Json.parse_stringify hwritten]
  simp [callJson, Json.field_record, payloadOf_payloadJson]

/-- A token is the text of the call that produced it. -/
def jsonJwt : Jwt String where
  sign c := String.ofList (callJson c).stringify
  payload token := ((readCall token).map Prod.fst).getD (.text "")
  expiresAt token := ((readCall token).map Prod.snd).getD 0
  verify calls token secret now :=
    if (∃ c ∈ calls, String.ofList (callJson c).stringify = token ∧ c.secret = secret) ∧
        now < ((readCall token).map Prod.snd).getD 0 then
      some (((readCall token).map Prod.fst).getD (.text ""))
    else none
  payload_sign c := by
    rw [readCall_sign]
    rfl
  expiresAt_sign c := by
    rw [readCall_sign]
    rfl
  verify_eq_some := by
    intro calls token secret now p
    rw [Option.ite_none_right_eq_some, Option.some_inj, and_assoc, eq_comm (a := p)]

def jsonService : AuthService String :=
  ⟨transparentBcrypt, jsonJwt, ⟨"secret", "secret", 900, 604800⟩⟩

def signUp : List (Op String) :=
  [⟨⟨1, 0, 0⟩, .register ⟨"alice@example.com", "correct horse", "Alice"⟩⟩]

def aliceTokens : TokenPair String := jsonService.tokens 0 1 "alice@example.com"

def aliceSession : List StorageChange :=
  [.setStoredSession ⟨aliceTokens.accessToken, aliceTokens.refreshToken,
    ⟨uuidOut 1, "alice@example.com", "Alice"⟩⟩]

def listRequest : Request String :=
  ⟨.get, ["api", "files"], authHeader (currentSession aliceSession), ⟨true, none, none, none⟩⟩

theorem session_calls_signUp : route (fun _ => true) (verifyAccess jsonService signUp 7) true
    listRequest = .ok (.guarded .listFiles) := by
  have hops : ∀ op ∈ signUp, ∀ input, op.call = .register input → input.email ≠ "" := by
    intro op hop input hcall
    rw [List.mem_singleton.mp hop] at hcall
    cases hcall
    decide
  have hsends : Sends (fun _ => true) listRequest .listFiles :=
    ⟨rfl, by decide, rfl, fun _ h => ApiCall.noConfusion h, fun _ h => ApiCall.noConfusion h⟩
  have hheader : (getStoredSession (some (browser aliceSession))).map authHeader =
      .ok listRequest.authorization := by
    have hstored : getStoredSession (some (browser aliceSession)) =
        .ok (currentSession aliceSession) := getStoredSession_foldl rfl aliceSession
    rw [hstored]
    rfl
  have hissued : Issued (answers (Auth.step jsonService) State.init signUp)
      ⟨aliceTokens, 1, "alice@example.com", 0⟩ := by
    exact @Issued.signedIn _ [] _ _
  have hlive : Live jsonService signUp 7 aliceSession ⟨aliceTokens, 1, "alice@example.com", 0⟩ :=
    ⟨hissued, ⟨_, rfl, rfl⟩, by decide⟩
  exact ((session_calls _ _ _ hops _ _ _ _ hsends hheader (fun _ h => absurd h List.not_mem_nil)
    rfl).1 _ hlive).2

/-! ### The search box -/

/-- The request that the dashboard makes of the text in its search box, if any. -/
def dashboardSearch (searchQuery : String) : Option ApiCall :=
  let query := Metadata.trim searchQuery
  if Metadata.utf16Length query = 0 then none else some (.searchFiles query)

/-- Nothing is sent of a blank text. Of any other, `req.query.q` is the text without the blanks at
its ends, however the query parser goes about it. -/
theorem search_query_read {parser : String → Option String} (hparser : ReadsPair "q" parser)
    (searchQuery : String) :
    (dashboardSearch searchQuery = none ↔ Metadata.trim searchQuery = "") ∧
    ∀ call, dashboardSearch searchQuery = some call →
      parser (String.ofList (queryEncode (parse call.path).query.toList)) =
        some (Metadata.trim searchQuery) := by
  have hname : ∀ c ∈ "q".toList, Literal c := by
    intro c hc
    have hq : c = 'q' := List.mem_singleton.mp hc
    rw [hq]
    decide
  have hblank : Metadata.utf16Length (Metadata.trim searchQuery) = 0 ↔
      Metadata.trim searchQuery = "" :=
    ⟨fun h => by_contra fun hne => Metadata.utf16Length_pos hne h, fun h => by rw [h]; rfl⟩
  constructor
  · rw [← hblank]
    simp [dashboardSearch]
  · intro call hcall
    obtain ⟨-, hcall⟩ := Option.ite_none_left_eq_some.mp hcall
    obtain rfl := Option.some.inj hcall
    rw [names_of_searchFiles]
    show parser (String.ofList (queryEncode (String.ofList _).toList)) = _
    rw [String.toList_ofList]
    exact hparser.encodeURIComponent hname _

/-- A parser that reads a pair of the name `q` alone. -/
def pairParser (query : String) : Option String :=
  match query.toList with
  | 'q' :: '=' :: value =>
    decodeURIComponent (String.ofList (value.map fun c => if c = '+' then ' ' else c))
  | _ => none

theorem readsPair_pairParser : ReadsPair "q" pairParser := by
  intro value text hliteral hdecode
  have htext : ("q" ++ "=" ++ value).toList = 'q' :: '=' :: value.toList := by
    rw [String.toList_append]
    rfl
  have hplus : value.toList.map (fun c => if c = '+' then ' ' else c) = value.toList := by
    conv_rhs => rw [← List.map_id value.toList]
    exact List.map_congr_left fun c hc => if_neg (hliteral c hc).not_plus
  simp only [pairParser, htext]
  rw [hplus, String.ofList_toList, hdecode]

theorem search_query_read_pair : pairParser (String.ofList
    (queryEncode (parse (ApiCall.searchFiles "a+b & c").path).query.toList)) = some "a+b & c" := by
  have htrim : Metadata.trim " a+b & c " = "a+b & c" := by decide
  have hsearch : dashboardSearch " a+b & c " = some (.searchFiles "a+b & c") := by
    rw [dashboardSearch, htrim]
    rfl
  rw [← htrim] at hsearch ⊢
  exact (search_query_read readsPair_pairParser " a+b & c ").2 _ hsearch

end IntelliStore.Web
