import IntelliStore.Gateway.Routes
import IntelliStore.Replication.ServiceRules

/-! What a request without a valid access token changes in the tables of replication-service. -/

namespace IntelliStore.Gateway
open Library Library.Routing Auth Replication

variable {τ Ω : Type} {isEmail : String → Bool} {verify : String → Option Payload}
  {r : Request τ} {path : List String} {action : Action τ}

/-- The request carries no valid access token. -/
def Anonymous (verify : String → Option Payload) (r : Request τ) : Prop :=
  ∀ claims, authenticate verify r.authorization ≠ .ok claims

/-- A heartbeat for `name`, at a path of replication-service. -/
def IsHeartbeat (r : Request τ) (path : List String) (name : String) : Prop :=
  r.method = .post ∧ ∃ segment, matchPath heartbeatPath path = some [segment] ∧
    decodeURIComponent segment = some name

/-- A handler that no check stands before, other than that of the heartbeats. -/
def Public : Action τ → Prop
  | .guarded _ | .postHeartbeat _ => False
  | _ => True

theorem Anonymous.requireAuth (h : Anonymous verify r) :
    ∃ halt, requireAuth verify r = some halt := by
  unfold Gateway.requireAuth
  cases hauth : authenticate verify r.authorization with
  | ok claims => exact absurd hauth (h claims)
  | error e => exact ⟨_, rfl⟩

/-! ### The routers -/

/-- Every handler the request reaches through a router is public. -/
def Open (r : Request τ) (layers : Router τ) : Prop :=
  ∀ path action, dispatch (.error .internal) r.method path r layers = some (.ok action) →
    Public action

theorem Anonymous.open_behind (h : Anonymous verify r) (layers : Router τ) :
    Open r (.use (Gateway.requireAuth verify) :: layers) := by
  intro path action hok
  obtain ⟨halt, hhalt⟩ := h.requireAuth
  rw [dispatch_use hhalt] at hok
  cases hok

theorem open_middleware : Open r [cors, json] := by
  intro path action hok
  obtain ⟨declared, pieces, handler, _, _, hmem, -⟩ := reaches_of_dispatch hok
  rcases List.mem_pair.mp hmem with h | h <;> cases h

theorem open_healthRouter : Open r healthRouter := by
  intro path action hok
  obtain ⟨declared, pieces, handler, _, _, hmem, -, -, -, haction⟩ := reaches_of_dispatch hok
  cases List.mem_singleton.mp hmem
  cases haction
  trivial

theorem validateBody_ok {α : Type} {parse : Body τ → Option α} {f : α → Action τ}
    {params : List String} (h : validateBody parse f params r = .ok action) :
    ∃ input, action = f input := by
  unfold validateBody at h
  split at h
  · exact ⟨_, (Except.ok.inj h).symm⟩
  · cases h

theorem Anonymous.open_authRouter (h : Anonymous verify r) :
    Open r (authRouter isEmail verify) := by
  intro path action hok
  obtain ⟨declared, pieces, handler, _, params, hmem, -, -, -, haction⟩ :=
    reaches_of_dispatch hok
  simp only [authRouter, List.mem_cons, List.not_mem_nil, or_false] at hmem
  rcases hmem with heq | heq | heq | heq <;> cases heq
  · obtain ⟨input, rfl⟩ := validateBody_ok haction
    trivial
  · obtain ⟨input, rfl⟩ := validateBody_ok haction
    trivial
  · obtain ⟨input, rfl⟩ := validateBody_ok haction
    trivial
  · obtain ⟨halt, hhalt⟩ := h.requireAuth
    rw [getMe, hhalt] at haction
    cases haction

theorem heartbeatRouter_ok
    (hok : dispatch (.error .internal) r.method path r heartbeatRouter = some (.ok action)) :
    ∃ name, action = .postHeartbeat name ∧ IsHeartbeat r path name := by
  obtain ⟨declared, pieces, handler, segments, params, hmem, hmethod, hmatch, hdecode, haction⟩ :=
    reaches_of_dispatch hok
  cases List.mem_singleton.mp hmem
  unfold withParams at haction
  dsimp only at haction
  split at haction
  · rename_i a ha
    split at ha
    · rename_i name
      cases ha
      cases haction
      obtain ⟨segment, rfl, hname⟩ := mapM_eq_singleton hdecode
      exact ⟨name, rfl, (of_decide_eq_true hmethod).symm, segment, hmatch, hname⟩
    · cases ha
  · cases haction

/-- The routers of a service. -/
theorem createApp_routers {upstream : Upstream} {mount : List String} {layers : Router τ}
    (h : (mount, layers) ∈ createApp isEmail verify upstream) :
    layers = [cors, json] ∨ layers = healthRouter ∨ layers = authRouter isEmail verify ∨
    (upstream = .replication ∧ mount = [] ∧ layers = heartbeatRouter) ∨
    ∃ guarded, layers = .use (Gateway.requireAuth verify) :: guarded := by
  cases upstream <;> simp only [createApp, List.mem_cons, List.not_mem_nil, or_false,
    Prod.mk.injEq] at h
  case auth =>
    rcases h with ⟨-, rfl⟩ | ⟨-, rfl⟩ | ⟨-, rfl⟩
    · exact .inl rfl
    · exact .inr (.inl rfl)
    · exact .inr (.inr (.inl rfl))
  case replication =>
    rcases h with ⟨-, rfl⟩ | ⟨-, rfl⟩ | ⟨rfl, rfl⟩ | ⟨-, rfl⟩
    · exact .inl rfl
    · exact .inr (.inl rfl)
    · exact .inr (.inr (.inr (.inl ⟨rfl, rfl, rfl⟩)))
    · exact .inr (.inr (.inr (.inr ⟨_, rfl⟩)))
  all_goals
    rcases h with ⟨-, rfl⟩ | ⟨-, rfl⟩ | ⟨-, rfl⟩
    · exact .inl rfl
    · exact .inr (.inl rfl)
    · exact .inr (.inr (.inr (.inr ⟨_, rfl⟩)))

/-- What a stranger reaches in a service is public, or is the handler of a heartbeat. -/
theorem Anonymous.respond_ok (h : Anonymous verify r) {upstream : Upstream}
    (hok : respond isEmail verify upstream path r = .ok action) : Public action ∨
      upstream = .replication ∧ ∃ name, action = .postHeartbeat name ∧ IsHeartbeat r path name := by
  unfold respond at hok
  split at hok
  · rename_i result hresult
    obtain ⟨mount, layers, rest, hmem, hstrip, hdispatch⟩ :=
      reaches_of_dispatchApp (hok ▸ hresult)
    rcases createApp_routers hmem with rfl | rfl | rfl | ⟨rfl, rfl, rfl⟩ | ⟨_, rfl⟩
    · exact .inl (open_middleware _ _ hdispatch)
    · exact .inl (open_healthRouter _ _ hdispatch)
    · exact .inl (h.open_authRouter _ _ hdispatch)
    · cases hstrip
      exact .inr ⟨rfl, heartbeatRouter_ok hdispatch⟩
    · exact .inl (h.open_behind _ _ _ hdispatch)
  · cases hok

/-! ### The gateway -/

theorem mountProxies_replication {rest : List String}
    (h : mountProxies path = some (.replication, rest)) :
    stripMount ["api", "replication"] path = some rest := by
  obtain ⟨route, hroute, hstrip⟩ := List.exists_of_findSome?_eq_some h
  obtain ⟨sub, hsub, heq⟩ := Option.map_eq_some_iff.mp hstrip
  simp only [routes, List.mem_cons, List.not_mem_nil, or_false] at hroute
  rcases hroute with rfl | rfl | rfl | rfl | rfl | rfl <;> cases heq
  exact hsub

/-- A heartbeat marks the node of its name as healthy, or fails. -/
theorem postHeartbeat_run (name : String) (es : Nat → Circumstances) (s : Cluster) :
    ((postHeartbeat name).run Statement.exec es s).2 = s ∨
    ∃ node, s.findByName name = some node ∧
      ((postHeartbeat name).run Statement.exec es s).2 = s.setHealth node.id true (es 1).now := by
  unfold postHeartbeat
  change (Prog.run Statement.exec (Prog.call (Statement.findByName name) _) es s).2 = s ∨ ∃ node, _ ∧
    (Prog.run Statement.exec (Prog.call (Statement.findByName name) _) es s).2 = _
  rw [Prog.run]
  rcases Statement.exec_read (c := .findByName name) (w := es 0) (s := s) rfl with hfind | ⟨e, hfind⟩
  · rw [hfind]
    cases hnode : s.findByName name with
    | none => exact .inl rfl
    | some node =>
      rcases (Statement.setHealth node.id true (es 1).now).exec_cases (es 2) s with hset | hset
      · exact .inl hset
      · exact .inr ⟨node, rfl, hset⟩
  · rw [hfind]
    exact .inl rfl

/-- Without a valid access token no replica is changed, and no node but that of a heartbeat, which
is marked as healthy. -/
theorem anonymous_writes (p : Platform τ Ω) (occasion : Occasion) (r : Request τ) (w : World Ω)
    (h : Anonymous p.verify r) :
    (serve p occasion r w).cluster.replicas = w.cluster.replicas ∧
    ((serve p occasion r w).cluster.nodes = w.cluster.nodes ∨
      ∃ rest name node, stripMount ["api", "replication"] r.path = some rest ∧
        IsHeartbeat r rest name ∧ w.cluster.findByName name = some node ∧
        (serve p occasion r w).cluster.nodes = w.cluster.nodes.map fun n =>
          if n.id = node.id then
            { n with isHealthy := true, lastHeartbeatAt := some (occasion.statements 1).now }
          else n) := by
  unfold serve
  split
  · exact ⟨rfl, .inl rfl⟩
  · rename_i upstream path hproxy
    split
    · exact ⟨rfl, .inl rfl⟩
    · rename_i action hok
      rcases h.respond_ok hok with hpublic | ⟨rfl, name, rfl, hbeat⟩
      · cases action with
        | guarded handler => exact hpublic.elim
        | postHeartbeat name => exact hpublic.elim
        | _ => exact ⟨rfl, .inl rfl⟩
      · have hrest := mountProxies_replication hproxy
        rcases postHeartbeat_run name occasion.statements w.cluster with hrun | ⟨node, hfind, hrun⟩
        · simp only [perform, hrun]
          exact ⟨trivial, .inl trivial⟩
        · simp only [perform, hrun]
          exact ⟨rfl, .inr ⟨path, name, node, hrest, hbeat, hfind, rfl⟩⟩

/-! ### A heartbeat by a stranger -/

/-- No token is valid, and nothing happens behind `requireAuth`. -/
def lockedPlatform : Platform SignCall Unit :=
  ⟨transparentService, fun _ => true, fun _ => none, fun _ _ w => w⟩

/-- The node has missed its heartbeats. -/
def staleWorld : World Unit := ⟨State.init, (Cluster.installed 1).markStale 1, ()⟩

def strangersBeat : Request SignCall :=
  ⟨.post, ["api", "replication", "nodes", "node-1", "heartbeat"], none, ⟨true, none, none, none⟩⟩

def calmOccasion : Occasion := ⟨⟨2, 0, 20⟩, fun _ => .calm 20⟩

theorem strangersBeat_anonymous : Anonymous lockedPlatform.verify strangersBeat := by
  intro claims h
  cases h

theorem anonymous_writes_strangersBeat :
    (serve lockedPlatform calmOccasion strangersBeat staleWorld).cluster.replicas =
      staleWorld.cluster.replicas :=
  (anonymous_writes lockedPlatform calmOccasion strangersBeat staleWorld
    strangersBeat_anonymous).1

/-- The stale node is healthy again. -/
theorem stranger_revives_node : Anonymous lockedPlatform.verify strangersBeat ∧
    staleWorld.cluster.nodes.map (·.isHealthy) = [false] ∧
    (serve lockedPlatform calmOccasion strangersBeat staleWorld).cluster.nodes.map (·.isHealthy) =
      [true] := by
  have hdecode : decodeURIComponent "node-1" = some "node-1" :=
    decodeURIComponent_of_plain (by decide)
  have hproxy : mountProxies strangersBeat.path =
    some (.replication, ["nodes", "node-1", "heartbeat"]) := by decide
  have hbeat : dispatch (.error .internal) .post ["nodes", "node-1", "heartbeat"] strangersBeat
      heartbeatRouter = some (.ok (.postHeartbeat "node-1")) := by
    have hmatch : matchPath heartbeatPath ["nodes", "node-1", "heartbeat"] = some ["node-1"] := by
      decide
    simp only [heartbeatRouter, dispatch, hmatch, Option.map_some, List.mapM_cons, hdecode]
    rfl
  have hrespond : respond lockedPlatform.isEmail lockedPlatform.verify .replication
      ["nodes", "node-1", "heartbeat"] strangersBeat = .ok (.postHeartbeat "node-1") := by
    have hhealth : dispatch (.error .internal) .post ["nodes", "node-1", "heartbeat"] strangersBeat
        healthRouter = none := rfl
    unfold respond createApp
    simp only [dispatchApp, stripMount]
    rw [show strangersBeat.method = .post from rfl]
    simp only [if_true, Option.bind_some, hhealth, hbeat]
    rfl
  refine ⟨strangersBeat_anonymous, by decide, ?_⟩
  rw [serve, hproxy]
  dsimp only
  rw [hrespond]
  decide

end IntelliStore.Gateway
