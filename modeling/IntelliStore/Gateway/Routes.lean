import IntelliStore.Auth.AuthService
import IntelliStore.Library.Routing
import IntelliStore.Replication.Services

/-! The routers of the services, and the proxies of the gateway in front of them. -/

namespace IntelliStore.Gateway
open Library Library.Routing Auth

/-- A body, by what `express.json()` and the schemas of auth-service make of it. -/
structure Body (τ : Type) where
  parsed : Bool
  register : Option RegisterInput
  login : Option LoginInput
  refreshToken : Option τ

structure Request (τ : Type) where
  method : Method
  path : List String
  authorization : Option String
  body : Body τ

/-- What a service answers before any handler. -/
inductive Halt where
  | preflight
  | error (e : AppError)
  deriving DecidableEq

/-- The handlers that stand behind `requireAuth`. -/
inductive Guarded where
  | getProfile
  | registerFile
  | listFiles
  | getSystemStats
  | searchFiles
  | getFile (id : String)
  | deleteFile (id : String)
  | addVersion (id : String)
  | getVersion (id versionNumber : String)
  | uploadNewFile
  | uploadNewVersion (id : String)
  | download (id : String)
  | downloadVersion (id versionNumber : String)
  | listNodes
  | getDiagnostics
  | listReplicas (chunkId : String)
  | getFileRecommendations
  | getOverview
  | listNotifications
  | markAllRead
  | markRead (id : String)

inductive Action (τ : Type) where
  | health
  | register (input : RegisterInput)
  | login (input : LoginInput)
  | refresh (refreshToken : τ)
  | postHeartbeat (name : String)
  | guarded (handler : Guarded)

variable {τ : Type}

abbrev Handler (τ : Type) := List String → Request τ → Except Halt (Action τ)
abbrev Router (τ : Type) := List (Layer (Request τ) Halt (Action τ))

/-! ### Handlers -/

/-- A handler of the parameters of its path. -/
def withParams (action : List String → Option (Action τ)) : Handler τ := fun params _ =>
  match action params with
  | some a => .ok a
  | none => .error (.error .internal)

def guarded (handler : Guarded) : Handler τ := fun _ _ => .ok (.guarded handler)

def guarded₁ (handler : String → Guarded) : Handler τ :=
  withParams fun
    | [a] => some (.guarded (handler a))
    | _ => none

def guarded₂ (handler : String → String → Guarded) : Handler τ :=
  withParams fun
    | [a, b] => some (.guarded (handler a b))
    | _ => none

def validateBody {α : Type} (parse : Body τ → Option α) (action : α → Action τ) : Handler τ :=
  fun _ r =>
    match parse r.body with
    | some input => .ok (action input)
    | none => .error (.error (.badRequest "Validation failed"))

/-! ### The middleware -/

/-- `cors()` answers a preflight itself. -/
def cors : Layer (Request τ) Halt (Action τ) :=
  .use fun r => if r.method = .options then some .preflight else none

def json : Layer (Request τ) Halt (Action τ) :=
  .use fun r => if r.body.parsed then none else some (.error .internal)

def authenticate (verify : String → Option Payload) (authorization : Option String) :
    Except TokenError TokenClaims := do
  let token ← extractBearerToken authorization
  verifyToken (verify token) .access

def requireAuth (verify : String → Option Payload) (r : Request τ) : Option Halt :=
  match authenticate verify r.authorization with
  | .ok _ => none
  | .error e => some (.error (.unauthorized e.message))

/-! ### The routers -/

section
variable (isEmail : String → Bool) (verify : String → Option Payload)

def healthRouter : Router τ := [.route .get [.literal "health"] fun _ _ => .ok .health]

def getMe : Handler τ := fun params r =>
  match requireAuth verify r with
  | some halt => .error halt
  | none => guarded .getProfile params r

def authRouter : Router τ := [
  .route .post [.literal "register"]
    (validateBody (fun body => body.register.filter (registerSchema isEmail)) .register),
  .route .post [.literal "login"]
    (validateBody (fun body => body.login.filter (loginSchema isEmail)) .login),
  .route .post [.literal "refresh"] (validateBody Body.refreshToken .refresh),
  .route .get [.literal "me"] (getMe verify)]

def fileRouter : Router τ := [
  .use (requireAuth verify),
  .route .post [] (guarded .registerFile),
  .route .get [] (guarded .listFiles),
  .route .get [.literal "_stats"] (guarded .getSystemStats),
  .route .get [.literal "search"] (guarded .searchFiles),
  .route .get [.param] (guarded₁ .getFile),
  .route .delete [.param] (guarded₁ .deleteFile),
  .route .post [.param, .literal "versions"] (guarded₁ .addVersion),
  .route .get [.param, .literal "versions", .param] (guarded₂ .getVersion)]

def uploadRouter : Router τ := [
  .use (requireAuth verify),
  .route .post [] (guarded .uploadNewFile),
  .route .post [.param, .literal "versions"] (guarded₁ .uploadNewVersion),
  .route .get [.param, .literal "download"] (guarded₁ .download),
  .route .get [.param, .literal "versions", .param, .literal "download"]
    (guarded₂ .downloadVersion)]

/-- `POST /nodes/:name/heartbeat`, without `requireAuth`. -/
def heartbeatPath : List Piece := [.literal "nodes", .param, .literal "heartbeat"]

def heartbeatRouter : Router τ := [
  .route .post heartbeatPath (withParams fun
    | [name] => some (.postHeartbeat name)
    | _ => none)]

def replicaRouter : Router τ := [
  .use (requireAuth verify),
  .route .get [.literal "nodes"] (guarded .listNodes),
  .route .get [.literal "diagnostics"] (guarded .getDiagnostics),
  .route .get [.literal "chunks", .param, .literal "replicas"] (guarded₁ .listReplicas)]

def analyticsRouter : Router τ := [
  .use (requireAuth verify),
  .route .get [.literal "files"] (guarded .getFileRecommendations),
  .route .get [.literal "overview"] (guarded .getOverview)]

def notificationRouter : Router τ := [
  .use (requireAuth verify),
  .route .get [.literal "notifications"] (guarded .listNotifications),
  .route .post [.literal "notifications", .literal "read-all"] (guarded .markAllRead),
  .route .post [.literal "notifications", .param, .literal "read"] (guarded₁ .markRead)]

inductive Upstream where
  | auth
  | metadata
  | storage
  | replication
  | aiAnalytics
  | notification
  deriving DecidableEq

/-- `createApp` of every service: its routers, each at its mount path. -/
def createApp : Upstream → List (List String × Router τ)
  | .auth => [([], [cors, json]), ([], healthRouter), (["auth"], authRouter isEmail verify)]
  | .metadata => [([], [cors, json]), ([], healthRouter), (["files"], fileRouter verify)]
  | .storage => [([], [cors, json]), ([], healthRouter), (["files"], uploadRouter verify)]
  -- the heartbeats come before the check
  | .replication =>
    [([], [cors, json]), ([], healthRouter), ([], heartbeatRouter), ([], replicaRouter verify)]
  | .aiAnalytics =>
    [([], [cors, json]), ([], healthRouter), (["analytics"], analyticsRouter verify)]
  | .notification => [([], [cors, json]), ([], healthRouter), ([], notificationRouter verify)]

/-- The service's answer to a request, at the path it is sent to. -/
def respond (upstream : Upstream) (path : List String) (r : Request τ) :
    Except Halt (Action τ) :=
  match dispatchApp (.error .internal) r.method path r (createApp isEmail verify upstream) with
  | some result => result
  | none => .error (.error (.notFound "Route not found"))

end

/-! ### The proxies -/

structure Route where
  mountPath : List String
  target : Upstream
  rewriteTo : List String

def routes : List Route := [
  ⟨["api", "auth"], .auth, ["auth"]⟩,
  ⟨["api", "files"], .metadata, ["files"]⟩,
  ⟨["api", "storage"], .storage, ["files"]⟩,
  ⟨["api", "replication"], .replication, []⟩,
  ⟨["api", "analytics"], .aiAnalytics, ["analytics"]⟩,
  ⟨["api", "notifications"], .notification, ["notifications"]⟩]

/-- The upstream and the path a request is forwarded to: the mount path is stripped, and
`pathRewrite` puts the base path of the upstream before the rest. -/
def mountProxies (path : List String) : Option (Upstream × List String) :=
  routes.findSome? fun route =>
    (stripMount route.mountPath path).map fun rest => (route.target, route.rewriteTo ++ rest)

def tooManyRequests : AppError := ⟨429, "RATE_LIMITED", "Too many requests, slow down"⟩

/-- `rateLimit` counts the requests of a client. It lets a request pass, or answers it. -/
def rateLimit (passes : Bool) : Layer (Request τ) Halt (Action τ) :=
  .use fun _ => if passes then none else some (.error tooManyRequests)

/-- `createApp` of the gateway, up to the proxies. -/
def gatewayApp (passes : Bool) : List (List String × Router τ) :=
  [([], [cors]), ([], healthRouter), (["api"], [rateLimit passes])]

/-! ### What a request does -/

/-- The accounts, the cluster, and what the other services store. -/
structure World (Ω : Type) where
  accounts : State
  cluster : Replication.Cluster
  others : Ω

/-- The services; what the handlers behind `requireAuth` do is left open. -/
structure Platform (τ Ω : Type) where
  auth : AuthService τ
  isEmail : String → Bool
  verify : String → Option Payload
  handle : Guarded → Request τ → World Ω → World Ω

/-- What the handling of a request meets. -/
structure Occasion where
  supply : Supply
  statements : Nat → Replication.Circumstances

variable {Ω : Type}

def perform (p : Platform τ Ω) (occasion : Occasion) (r : Request τ) (w : World Ω) :
    Action τ → World Ω
  | .health => w
  | .register input =>
    { w with accounts := (p.auth.register occasion.supply input w.accounts).2 }
  | .login input => { w with accounts := (p.auth.login occasion.supply.now input w.accounts).2 }
  | .refresh refreshToken =>
    { w with accounts := (p.auth.refresh occasion.supply.now refreshToken w.accounts).2 }
  | .postHeartbeat name =>
    { w with cluster := ((Replication.postHeartbeat name).run Replication.Statement.exec
      occasion.statements w.cluster).2 }
  | .guarded handler => p.handle handler r w

/-- A request to the gateway that the rate limiter lets pass, forwarded and handled. -/
def serve (p : Platform τ Ω) (occasion : Occasion) (r : Request τ) (w : World Ω) : World Ω :=
  match mountProxies r.path with
  | none => w
  | some (upstream, path) =>
    match respond p.isEmail p.verify upstream path r with
    | .error _ => w
    | .ok action => perform p occasion r w action

end IntelliStore.Gateway
