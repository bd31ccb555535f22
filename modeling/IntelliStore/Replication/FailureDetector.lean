import IntelliStore.Library.Runs
import IntelliStore.Replication.ServiceRules
import IntelliStore.Replication.Undisturbed

/-! The health flags after a sweep, in runs of heartbeats and sweeps one at a time. -/

namespace IntelliStore.Replication
open Library Postgres

/-! ### One sweep -/

namespace HeartbeatMonitor

/-- The sweep marks the node. -/
def marks (staleMs now : Nat) (node : StorageNodeRecord) : Bool :=
  node.isHealthy && isStale staleMs now node

/-- The node as the sweep leaves it. -/
def judged (staleMs now : Nat) (node : StorageNodeRecord) : StorageNodeRecord :=
  if marks staleMs now node then { node with isHealthy := false } else node

variable {staleMs now : Nat} {node : StorageNodeRecord}

theorem isStale_eq_false : isStale staleMs now node = false ↔
    ∃ lastBeat, node.lastHeartbeatAt = some lastBeat ∧ (now : Int) - staleMs ≤ lastBeat := by
  rw [isStale]
  cases node.lastHeartbeatAt with
  | none =>
    simp only [Bool.true_eq_false, false_iff, not_exists, not_and]
    intro lastBeat h
    cases h
  | some lastBeat =>
    simp only [decide_eq_false_iff_not, Option.some.injEq, exists_eq_left']
    omega

theorem isStale_mono {later : Nat} (h : isStale staleMs now node = true) (hle : now ≤ later) :
    isStale staleMs later node = true := by
  rw [isStale] at h ⊢
  cases hbeat : node.lastHeartbeatAt with
  | none => rfl
  | some lastBeat =>
    rw [hbeat] at h
    simp only [decide_eq_true_iff] at h ⊢
    omega

theorem judged_lastHeartbeatAt : (judged staleMs now node).lastHeartbeatAt = node.lastHeartbeatAt := by
  rw [judged]
  split_ifs <;> rfl

theorem isStale_judged {later : Nat} :
    isStale staleMs later (judged staleMs now node) = isStale staleMs later node := by
  rw [isStale, isStale, judged_lastHeartbeatAt]

theorem judged_isHealthy : (judged staleMs now node).isHealthy =
    (node.isHealthy && !isStale staleMs now node) := by
  rw [judged, marks]
  cases hhealthy : node.isHealthy <;> cases hstale : isStale staleMs now node <;> simp [hhealthy]

end HeartbeatMonitor

theorem wp_sweepEach (staleMs now : Nat) (nodes : List StorageNodeRecord) (s : Cluster) :
    (HeartbeatMonitor.sweepEach staleMs now nodes).wp undisturbed (fun _ t =>
      t.nodes = s.nodes.map fun node =>
        if node.id ∈ (nodes.filter (HeartbeatMonitor.marks staleMs now)).map StorageNodeRecord.id
        then { node with isHealthy := false } else node) s := by
  induction nodes generalizing s with
  | nil => exact (List.map_id _).symm
  | cons node nodes ih =>
    rw [HeartbeatMonitor.sweepEach]
    split_ifs with hmarks
    · have hfilter : (node :: nodes).filter (HeartbeatMonitor.marks staleMs now) =
          node :: nodes.filter (HeartbeatMonitor.marks staleMs now) := List.filter_cons_of_pos hmarks
      rw [hfilter, Prog.wp_bind]
      refine wp_query.mpr fun w _ => Prog.wp_mono ?_ (ih (s.markStale node.id))
      intro r t hnodes
      exact hnodes.trans (map_update_cons (f := StorageNodeRecord.id)
        (g := fun n => { n with isHealthy := false }) (fun _ => rfl) (fun _ => rfl) node.id _ _)
    · have hfilter : (node :: nodes).filter (HeartbeatMonitor.marks staleMs now) =
          nodes.filter (HeartbeatMonitor.marks staleMs now) := List.filter_cons_of_neg hmarks
      rw [hfilter]
      exact ih s

/-- A complete sweep judges every node at its time. -/
theorem wp_sweepOnce (staleMs now : Nat) (s : Cluster) :
    (HeartbeatMonitor.sweepOnce staleMs now).wp undisturbed (fun _ t =>
      t.nodes = s.nodes.map (HeartbeatMonitor.judged staleMs now)) s := by
  rw [HeartbeatMonitor.sweepOnce, Prog.wp_bind]
  refine wp_query.mpr fun w _ => Prog.wp_mono ?_ (wp_sweepEach staleMs now s.listAll s)
  intro r t hnodes
  refine hnodes.trans (List.map_congr_left fun node hn => ?_)
  have hmem : node.id ∈ (s.listAll.filter (HeartbeatMonitor.marks staleMs now)).map
      StorageNodeRecord.id ↔ HeartbeatMonitor.marks staleMs now node = true := by
    rw [List.mem_map]
    constructor
    · rintro ⟨listed, hlisted, hid⟩
      obtain ⟨hlisted, hmarks⟩ := List.mem_filter.mp hlisted
      rwa [← s.node_unique (Cluster.mem_listAll.mp hlisted) hn hid]
    · intro hmarks
      exact ⟨node, List.mem_filter.mpr ⟨Cluster.mem_listAll.mpr hn, hmarks⟩, rfl⟩
  rw [HeartbeatMonitor.judged]
  simp only [hmem]

theorem operate_stalenessSweep (options : ReplicationServiceOptions) {staleMs : Nat} (s : Cluster)
    {ws : Nat → Circumstances} (hws : ∀ n, (ws n).outcome = .succeeded) :
    (operate options s (.stalenessSweep staleMs, ws)).2.nodes =
      s.nodes.map (HeartbeatMonitor.judged staleMs (ws 0).now) :=
  Prog.wp_run (w := undisturbed) (fun _ => rfl) (fun n => hws (n + 1))
    (wp_sweepOnce staleMs (ws 0).now s)

/-- A sweep keeps every heartbeat time, whatever its statements meet. -/
theorem operate_stalenessSweep_lastHeartbeatAt (options : ReplicationServiceOptions)
    (staleMs : Nat) (s : Cluster) (ws : Nat → Circumstances) :
    (operate options s (.stalenessSweep staleMs, ws)).2.nodes.map
        (fun node => (node.id, node.lastHeartbeatAt)) =
      s.nodes.map fun node => (node.id, node.lastHeartbeatAt) := by
  let K : Statement → Prop := fun c => ∀ (w : Circumstances) (t : Cluster),
    (c.effect w t).2.nodes.map (fun node => (node.id, node.lastHeartbeatAt)) =
      t.nodes.map fun node => (node.id, node.lastHeartbeatAt)
  have hissues : (HeartbeatMonitor.tick staleMs).OnlyIssues K :=
    onlyIssues_tick (fun _ _ => rfl) (fun _ _ => rfl)
      (fun id _ t => map_update (f := fun node : StorageNodeRecord => (node.id, node.lastHeartbeatAt))
        (g := fun node => { node with isHealthy := false }) (fun _ => rfl) _ _) staleMs
  exact Prog.run_of_issues
    (fun t : Cluster => t.nodes.map (fun node => (node.id, node.lastHeartbeatAt)) =
      s.nodes.map fun node => (node.id, node.lastHeartbeatAt))
    (fun c w t hc ht => by
      rcases c.exec_cases w t with h | h
      · rw [h, ht]
      · rw [h, hc w t, ht])
    hissues ws rfl

/-! ### Runs -/

/-- Every node that is down has been silent for longer than `staleMs` at the time `now`. -/
def Cluster.DownAreStale (s : Cluster) (staleMs now : Nat) : Prop :=
  ∀ node ∈ s.nodes, node.isHealthy = false → HeartbeatMonitor.isStale staleMs now node = true

/-- Operations of the monitor with the window `staleMs`, and heartbeats. -/
def Operation.Beats (staleMs : Nat) : Operation → Prop
  | .heartbeat _ => True
  | .stalenessSweep ms => ms = staleMs
  | _ => False

/-- The answer of the `Date.now()` of an operation. -/
def clockReading (op : Operation × (Nat → Circumstances)) : Nat :=
  match op.1 with
  -- the node is looked up before
  | .heartbeat _ => (op.2 1).now
  | _ => (op.2 0).now

/-- A heartbeat revives its node and changes no other. -/
theorem Cluster.DownAreStale.heartbeat (options : ReplicationServiceOptions) {staleMs now : Nat}
    {s : Cluster} (h : s.DownAreStale staleMs now) (name : String) (ws : Nat → Circumstances) :
    (operate options s (.heartbeat name, ws)).2.DownAreStale staleMs now := by
  let K : Statement → Prop := fun c => ∀ (w : Circumstances) (t : Cluster),
    t.DownAreStale staleMs now → (c.effect w t).2.DownAreStale staleMs now
  have hrevive : ∀ id heartbeatAt, K (.setHealth id true heartbeatAt) := by
    intro id heartbeatAt w t ht node hn hdown
    obtain ⟨old, hold, rfl⟩ := List.mem_map.mp hn
    by_cases hid : old.id = id
    · rw [if_pos hid] at hdown
      cases hdown
    · rw [if_neg hid] at hdown ⊢
      exact ht old hold hdown
  have hissues : (postHeartbeat name).OnlyIssues fun c => K c := by
    apply Prog.onlyIssues_bind (Prog.onlyIssues_perform fun _ _ ht => ht)
    rintro (_ | node)
    · trivial
    · apply Prog.onlyIssues_bind (Prog.onlyIssues_perform fun _ _ ht => ht)
      exact fun heartbeatAt => Prog.onlyIssues_perform (hrevive node.id heartbeatAt)
  refine Prog.run_of_issues (fun t : Cluster => t.DownAreStale staleMs now) ?_ hissues ws h
  intro c w t hc ht
  rcases c.exec_cases w t with hexec | hexec
  · rwa [hexec]
  · rw [hexec]
    exact hc w t ht

/-- A sweep marks what is stale at its time, and so later on. -/
theorem Cluster.DownAreStale.sweep (options : ReplicationServiceOptions) {staleMs now : Nat}
    {s : Cluster} (h : s.DownAreStale staleMs now) {ws : Nat → Circumstances}
    (hws : ∀ n, (ws n).outcome = .succeeded) (htime : (ws 0).now ≤ now) :
    (operate options s (.stalenessSweep staleMs, ws)).2.DownAreStale staleMs now := by
  intro node hn hdown
  rw [operate_stalenessSweep options s hws] at hn
  obtain ⟨old, hold, rfl⟩ := List.mem_map.mp hn
  rw [HeartbeatMonitor.isStale_judged]
  rw [HeartbeatMonitor.judged_isHealthy, Bool.and_eq_false_iff, Bool.not_eq_false'] at hdown
  rcases hdown with hdown | hstale
  · exact h old hold hdown
  · exact HeartbeatMonitor.isStale_mono hstale htime

theorem downAreStale_run (options : ReplicationServiceOptions) {staleMs : Nat} {s : Cluster}
    (hhealthy : ∀ node ∈ s.nodes, node.isHealthy = true)
    {ops : List (Operation × (Nat → Circumstances))} (hops : ∀ op ∈ ops, op.1.Beats staleMs)
    (hcalm : ∀ op ∈ ops, ∀ n, (op.2 n).outcome = .succeeded) {now : Nat}
    (hnow : ∀ op ∈ ops, clockReading op ≤ now) :
    (finalState (operate options) s ops).DownAreStale staleMs now := by
  apply finalState_invariant (fun t : Cluster => t.DownAreStale staleMs now) ?_
    (guarded_of_forall fun op hop => (⟨hops op hop, hcalm op hop, hnow op hop⟩ :
      op.1.Beats staleMs ∧ (∀ n, (op.2 n).outcome = .succeeded) ∧ clockReading op ≤ now))
  · intro node hn hdown
    rw [hhealthy node hn] at hdown
    cases hdown
  · rintro t ⟨op, ws⟩ ⟨hbeats, hws, htime⟩ ht
    cases op with
    | heartbeat name => exact ht.heartbeat options name ws
    | stalenessSweep ms =>
      obtain rfl : ms = staleMs := hbeats
      exact ht.sweep options hws htime
    | _ => exact hbeats.elim

/-- In a run of heartbeats and complete sweeps, one at a time and under a clock that does not go
back, exactly the nodes that were heard of within `staleMs` are healthy after each sweep; and no
sweep changes a heartbeat time. -/
theorem detector_exact (options : ReplicationServiceOptions) {staleMs : Nat} {s : Cluster}
    (hhealthy : ∀ node ∈ s.nodes, node.isHealthy = true)
    {ops : List (Operation × (Nat → Circumstances))} {ws : Nat → Circumstances}
    (hops : ∀ op ∈ ops, op.1.Beats staleMs)
    (hcalm : ∀ op ∈ ops ++ [(Operation.stalenessSweep staleMs, ws)], ∀ n, (op.2 n).outcome = .succeeded)
    (hclock : (ops ++ [(Operation.stalenessSweep staleMs, ws)]).Pairwise fun x y =>
      clockReading x ≤ clockReading y) :
    (∀ node ∈ (finalState (operate options) s (ops ++ [(.stalenessSweep staleMs, ws)])).nodes,
      node.isHealthy = true ↔ ∃ lastBeat, node.lastHeartbeatAt = some lastBeat ∧
        (clockReading (.stalenessSweep staleMs, ws) : Int) - staleMs ≤ lastBeat) ∧
    ∀ (t : Cluster) (ws' : Nat → Circumstances),
      (operate options t (.stalenessSweep staleMs, ws')).2.nodes.map
          (fun node => (node.id, node.lastHeartbeatAt)) =
        t.nodes.map fun node => (node.id, node.lastHeartbeatAt) := by
  refine ⟨?_, operate_stalenessSweep_lastHeartbeatAt options staleMs⟩
  intro node hn
  have hbefore : (finalState (operate options) s ops).DownAreStale staleMs (ws 0).now := by
    apply downAreStale_run options hhealthy hops
    · exact fun op hop => hcalm op (List.mem_append_left _ hop)
    · exact fun op hop => (List.pairwise_append.mp hclock).2.2 op hop _ (List.mem_singleton_self _)
  have hws : ∀ n, (ws n).outcome = .succeeded :=
    hcalm _ (List.mem_append_right _ (List.mem_singleton_self _))
  rw [finalState_concat, operate_stalenessSweep options _ hws] at hn
  obtain ⟨old, hold, rfl⟩ := List.mem_map.mp hn
  rw [HeartbeatMonitor.judged_lastHeartbeatAt, HeartbeatMonitor.judged_isHealthy, clockReading,
    ← HeartbeatMonitor.isStale_eq_false, Bool.and_eq_true_iff, Bool.not_eq_true']
  constructor
  · exact fun h => h.2
  · intro hfresh
    refine ⟨?_, hfresh⟩
    cases hdown : old.isHealthy with
    | true => rfl
    | false =>
      -- it went down before, so it was stale then, and is now
      rw [hbefore old hold hdown] at hfresh
      cases hfresh

/-! The first node beats at 9 and is heard of exactly `staleMs` before the second sweep. -/

def heartbeatOnTheEdge : List (Operation × (Nat → Circumstances)) :=
  [(.stalenessSweep 10, fun _ => .calm 5), (.heartbeat "node-1", fun _ => .calm 9)]

theorem detector_exact_sample :
    (∀ node ∈ (finalState (operate .sample) (.installed 2)
        (heartbeatOnTheEdge ++ [(.stalenessSweep 10, fun _ => .calm 19)])).nodes,
      node.isHealthy = true ↔ ∃ lastBeat, node.lastHeartbeatAt = some lastBeat ∧
        (clockReading (.stalenessSweep 10, fun _ => .calm 19) : Int) - (10 : Nat) ≤ lastBeat) ∧
    ∀ (t : Cluster) (ws' : Nat → Circumstances),
      (operate .sample t (.stalenessSweep 10, ws')).2.nodes.map
          (fun node => (node.id, node.lastHeartbeatAt)) =
        t.nodes.map fun node => (node.id, node.lastHeartbeatAt) :=
  detector_exact .sample (by decide)
    (by
      intro op hop
      simp only [heartbeatOnTheEdge, List.mem_cons, List.not_mem_nil, or_false] at hop
      rcases hop with rfl | rfl
      · exact rfl
      · trivial)
    (by
      intro op hop n
      simp only [heartbeatOnTheEdge, List.cons_append, List.nil_append, List.mem_cons,
        List.not_mem_nil, or_false] at hop
      rcases hop with rfl | rfl | rfl <;> rfl)
    (by
      simp only [heartbeatOnTheEdge, List.cons_append, List.nil_append]
      decide)

end IntelliStore.Replication
