import IntelliStore.Replication.Served

/-! How far a sweep gets with a chunk while some nodes take no copies. -/

namespace IntelliStore.Replication
open Library Postgres

/-- Copies succeed on the buckets that `accepts` holds for, and so does everything else. -/
def Statement.takes (accepts : String → Bool) (c : Statement) (w : Circumstances) : Prop :=
  w.outcome = .succeeded ↔ c.accepted accepts = true

instance (accepts : String → Bool) (c : Statement) (w : Circumstances) :
    Decidable (c.takes accepts w) :=
  inferInstanceAs (Decidable (w.outcome = .succeeded ↔ c.accepted accepts = true))

theorem takes_reliable (accepts : String → Bool) (c : Statement) (w : Circumstances)
    (hc : c.faulty = false) (h : c.takes accepts w) : w.outcome = .succeeded := by
  apply h.mpr
  cases c with
  | copyToNode sourceBucket key destBucket => cases hc
  | _ => rfl

theorem takes_decides (accepts : String → Bool) :
    Decides (fun c w => c.takes accepts w) accepts := fun _ _ h => h

/-! ### The marking pass loses no synced replica of a healthy node -/

theorem Cluster.marked_synced_iff {s : Cluster} {r : ChunkReplicaRecord}
    (h : r.status = .synced → r.nodeId ∉ s.unhealthyNodeIds) :
    (s.marked r).status = .synced ↔ r.status = .synced := by
  by_cases hnode : r.nodeId ∈ s.unhealthyNodeIds
  · rw [Cluster.marked_of_mem hnode]
    exact iff_of_false (by simp) fun hstatus => h hstatus hnode
  · rw [Cluster.marked_of_notMem hnode]

theorem Marked.syncedCount {s t : Cluster} (h : Marked s t)
    (hsynced : ∀ r ∈ s.replicas, r.status = .synced → r.nodeId ∉ s.unhealthyNodeIds)
    (chunkId : Uuid) : t.syncedCount chunkId = s.syncedCount chunkId := by
  rw [Cluster.syncedCount, Cluster.syncedCount, h.rowsOf, List.countP_map]
  refine List.countP_congr fun r hr => ?_
  rw [Function.comp_apply, decide_eq_true_iff, decide_eq_true_iff]
  exact Cluster.marked_synced_iff (hsynced r (Cluster.mem_rowsOf.mp hr).1)

/-! ### The nodes tried -/

/-- What is counted of the vacant nodes depends neither on `used_bytes` nor on its order. -/
theorem Cluster.vacantNodes_countP {t u : Cluster} {chunkId : Uuid}
    (hnodes : u.nodes.map StorageNodeRecord.emptied = t.nodes.map StorageNodeRecord.emptied)
    (hrows : (u.rowsOf chunkId).map ChunkReplicaRecord.nodeId =
      (t.rowsOf chunkId).map ChunkReplicaRecord.nodeId)
    {p : StorageNodeRecord → Bool} (hp : ∀ node, p node.emptied = p node) :
    (u.vacantNodes chunkId).countP p = (t.vacantNodes chunkId).countP p := by
  rw [vacantNodes_eq, vacantNodes_eq, hrows, List.countP_filter, List.countP_filter,
    List.countP_eq_length_filter, List.countP_eq_length_filter]
  refine Cluster.filter_nodes_length hnodes fun node => ?_
  rw [hp]
  rfl

/-- The nodes that a sweep tries for a chunk with the synced replicas of `s`, as it finds them in
`u` in the circumstances `w`. -/
def targetsAt (options : ReplicationServiceOptions) (s u : Cluster) (w : Circumstances)
    (chunkId : Uuid) : List StorageNodeRecord :=
  (u.candidates w.uuidRank chunkId).take (options.replicationFactor - s.syncedCount chunkId)

/-- A sweep from `s` to `s'` that listed the chunk, and found the cluster as `u` when it read the
nodes for it. -/
structure ProgressAt (options : ReplicationServiceOptions) (accepts : String → Bool) (chunkId : Uuid)
    (s s' : Cluster) (trace : Trace) (w : Circumstances) (u : Cluster) : Prop where
  listed : ∃ w t, ⟨.listUnderReplicated options.replicationFactor, w, t⟩ ∈ trace ∧
    ∃ chunk ∈ t.listUnderReplicated w.uuidRank options.replicationFactor, chunk.chunkId = chunkId
  read : NodesRead trace chunkId w u
  nodes : u.nodes.map StorageNodeRecord.emptied = s.nodes.map StorageNodeRecord.emptied
  rows : (u.rowsOf chunkId).map ChunkReplicaRecord.nodeId =
    (s.rowsOf chunkId).map ChunkReplicaRecord.nodeId
  gain : s'.syncedCount chunkId = s.syncedCount chunkId +
    (targetsAt options s u w chunkId).countP fun node => accepts node.bucket

namespace ProgressAt
variable {options : ReplicationServiceOptions} {accepts : String → Bool} {chunkId : Uuid}
  {s s' u : Cluster} {trace : Trace} {w : Circumstances}

theorem increases_iff (h : ProgressAt options accepts chunkId s s' trace w u) :
    s.syncedCount chunkId < s'.syncedCount chunkId ↔
      ∃ node ∈ targetsAt options s u w chunkId, accepts node.bucket = true := by
  rw [h.gain, Nat.lt_add_right_iff_pos, List.countP_pos_iff]

/-- One of the nodes tried takes the copy if fewer refuse than replicas are missing. -/
theorem increases (h : ProgressAt options accepts chunkId s s' trace w u)
    (haccepts : ∃ node ∈ s.vacantNodes chunkId, accepts node.bucket = true)
    (hfew : (s.vacantNodes chunkId).countP (fun node => !accepts node.bucket) <
      options.replicationFactor - s.syncedCount chunkId) :
    s.syncedCount chunkId < s'.syncedCount chunkId := by
  have hcount : ∀ p : StorageNodeRecord → Bool, (∀ node, p node.emptied = p node) →
      (u.candidates w.uuidRank chunkId).countP p = (s.vacantNodes chunkId).countP p :=
    fun p hp => ((u.candidates_perm w.uuidRank chunkId).countP_eq p).trans
      (Cluster.vacantNodes_countP h.nodes h.rows hp)
  have hsome : ∃ node ∈ u.candidates w.uuidRank chunkId, accepts node.bucket = true := by
    apply List.countP_pos_iff.mp
    rw [hcount (fun node => accepts node.bucket) fun _ => rfl]
    exact List.countP_pos_iff.mpr haccepts
  rw [← hcount _ fun _ => rfl] at hfew
  exact h.increases_iff.mpr (exists_mem_take hsome hfew)

end ProgressAt

/-- A chunk gains as many replicas as take the copy among the nodes tried: as many vacant nodes as
replicas are missing, those with the fewest `used_bytes` at the turn of the chunk. -/
theorem healing_progress (options : ReplicationServiceOptions) (s : Cluster)
    (accepts : String → Bool) (ws : Nat → Circumstances)
    (hws : (SelfHealingService.healOnce options).Meets (fun c w _ => c.takes accepts w)
      Statement.exec ws s)
    (hsynced : ∀ r ∈ s.replicas, r.status = .synced → r.nodeId ∉ s.unhealthyNodeIds)
    (chunkId : Uuid) (htracked : ∃ r ∈ s.replicas, r.chunkId = chunkId)
    (hunder : s.syncedCount chunkId < options.replicationFactor) :
    let s' := (operate options s (.healingSweep, ws)).2
    (∃ w u, ProgressAt options accepts chunkId s s'
      ((SelfHealingService.healOnce options).trace Statement.exec ws s) w u ∧
      (s.syncedCount chunkId < s'.syncedCount chunkId ↔
        ∃ node ∈ targetsAt options s u w chunkId, accepts node.bucket = true)) ∧
      ((∃ node ∈ s.vacantNodes chunkId, accepts node.bucket = true) →
        (s.vacantNodes chunkId).countP (fun node => !accepts node.bucket) <
          options.replicationFactor - s.syncedCount chunkId →
        s.syncedCount chunkId < s'.syncedCount chunkId) := by
  intro s'
  obtain ⟨-, t, v, trace, hmarked, hread, hhealed⟩ :=
    Prog.sat_alone_run (sat_healOnce options (takes_reliable accepts) s) hws
  have hcount : t.syncedCount chunkId = s.syncedCount chunkId :=
    hmarked.syncedCount hsynced chunkId
  obtain ⟨r, hr, rfl⟩ := htracked
  have hlisted : t.group r.chunkId ∈ t.listUnderReplicated v.uuidRank options.replicationFactor := by
    refine Cluster.mem_listUnderReplicated.mpr ⟨s.marked r, ?_, ?_, ?_⟩
    · rw [hmarked.replicas]
      exact List.mem_map_of_mem hr
    · rw [s.marked_chunkId]
    · rw [s.marked_chunkId, hcount]
      exact hunder
  obtain ⟨w, u, placed, new, hserved⟩ := hhealed.served (t.listUnderReplicated_nodup _ _) hlisted
  have hprogress : ProgressAt options accepts r.chunkId s s'
      ((SelfHealingService.healOnce options).trace Statement.exec ws s) w u := by
    refine ⟨⟨v, t, hhealed.trace.subset hread, _, hlisted, rfl⟩, hserved.read, ?_, ?_, ?_⟩
    · rw [hserved.nodes, hmarked.nodes]
    · have hbefore : u.rowsOf r.chunkId = t.rowsOf r.chunkId := hserved.before
      rw [hbefore, hmarked.rowsOf_nodeIds]
    · have hgain : s'.syncedCount r.chunkId = t.syncedCount r.chunkId + placed.length :=
        hserved.syncedCount
      have htargets : triedNodes options u w.uuidRank (t.group r.chunkId) =
          targetsAt options s u w r.chunkId := by
        rw [targetsAt, ← hcount]
        rfl
      rw [hgain, hserved.decided accepts (takes_decides accepts), ← List.countP_eq_length_filter,
        htargets, hcount]
  exact ⟨⟨w, u, hprogress, hprogress.increases_iff⟩, hprogress.increases⟩

/-! Three nodes, the first of which is up and takes no copies. It stays the least used. -/

def refusedAt (ns : List Nat) (n : Nat) : Circumstances :=
  if ns.contains n then ⟨.failed, 1, fun _ => 0, fun _ => 0⟩ else .calm 1

def refusing : List (Operation × (Nat → Circumstances)) :=
  [(.replicateChunk ⟨7, "chunks/a", 5⟩, refusedAt [1]),
    (.replicateChunk ⟨8, "chunks/b", 5⟩, refusedAt [1])]

def refusingNode (bucket : String) : Bool := bucket ≠ "intellistore-node-1"

theorem least_used_node_starves :
    ¬∀ (options : ReplicationServiceOptions) (s : Cluster) (accepts : String → Bool)
      (ws : Nat → Circumstances),
      (SelfHealingService.healOnce options).Meets (fun c w _ => c.takes accepts w)
        Statement.exec ws s →
      (∀ r ∈ s.replicas, r.status = .synced → r.nodeId ∉ s.unhealthyNodeIds) →
      ∀ chunkId, (∃ r ∈ s.replicas, r.chunkId = chunkId) →
        s.syncedCount chunkId < options.replicationFactor →
        (∃ node ∈ s.vacantNodes chunkId, accepts node.bucket = true) →
        s.syncedCount chunkId < (operate options s (.healingSweep, ws)).2.syncedCount chunkId := by
  intro h
  have hgain := h .sample (finalState (operate .sample) (.installed 3) refusing) refusingNode
    (refusedAt [4, 7]) (by decide) (by decide) 7 (by decide) (by decide) (by decide)
  exact absurd hgain (by decide)

theorem healing_progress_refusing :
    let options : ReplicationServiceOptions := ⟨3, "intellistore-chunks"⟩
    let s := finalState (operate .sample) (.installed 3) refusing
    let ws := refusedAt [4, 10]
    let s' := (operate options s (.healingSweep, ws)).2
    (∃ w u, ProgressAt options refusingNode 7 s s'
      ((SelfHealingService.healOnce options).trace Statement.exec ws s) w u ∧
      (s.syncedCount 7 < s'.syncedCount 7 ↔
        ∃ node ∈ targetsAt options s u w 7, refusingNode node.bucket = true)) ∧
      ((∃ node ∈ s.vacantNodes 7, refusingNode node.bucket = true) →
        (s.vacantNodes 7).countP (fun node => !refusingNode node.bucket) <
          options.replicationFactor - s.syncedCount 7 →
        s.syncedCount 7 < s'.syncedCount 7) :=
  healing_progress ⟨3, "intellistore-chunks"⟩ (finalState (operate .sample) (.installed 3) refusing)
    refusingNode (refusedAt [4, 10]) (by decide) (by decide) 7 (by decide) (by decide)

end IntelliStore.Replication
