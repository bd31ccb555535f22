import IntelliStore.Replication.Served

/-! What a sweep may touch, whatever copies, increments and upserts fail. -/

namespace IntelliStore.Replication
open Library Postgres

/-- The rows of the chunk that `s'` has and `s` has not. -/
def Cluster.gained (s s' : Cluster) (chunkId : Uuid) : List ChunkReplicaRecord :=
  (s'.rowsOf chunkId).filter fun r => r.id ∉ s.replicas.map ChunkReplicaRecord.id

/-- A sweep from `s` to `s'` by way of `t`, where the marking pass ends. -/
structure Touched (options : ReplicationServiceOptions) (s t s' : Cluster) (trace : Trace) :
    Prop where
  nodes : s'.nodes.map StorageNodeRecord.emptied = s.nodes.map StorageNodeRecord.emptied
  kept : ∀ r ∈ s.replicas, ∃ r' ∈ s'.replicas, r'.id = r.id ∧ r'.chunkId = r.chunkId ∧
    r'.nodeId = r.nodeId ∧ r'.storageKey = r.storageKey
  lost : ∀ r' ∈ s'.replicas, r'.nodeId ∈ s.unhealthyNodeIds → r'.status = .lost
  spared : ∀ r ∈ s.replicas, r.nodeId ∉ s.unhealthyNodeIds →
    ∀ r' ∈ s'.replicas, r'.id = r.id → r'.status = r.status
  added : ∀ chunkId, ∀ r ∈ s.gained s' chunkId, r.status = .synced ∧
    ∃ node ∈ s.vacantNodes chunkId, node.id = r.nodeId ∧
      Copied trace options.primaryBucket r.storageKey node.bucket
  bounded : ∀ chunkId,
    (s.gained s' chunkId).length ≤ options.replicationFactor - t.syncedCount chunkId
  apart : ∀ chunkId, ((s.gained s' chunkId).map ChunkReplicaRecord.nodeId).Nodup

section
variable {options : ReplicationServiceOptions} {allowed : Statement → Circumstances → Prop}
  {s t s' : Cluster} {rank : Uuid → Nat} {trace trace' : Trace}

/-- What a chunk gains are the rows of its turn, if it has one. -/
theorem Healed.gained (hmarked : Marked s t)
    (h : Healed options allowed (t.listUnderReplicated rank options.replicationFactor) (t, trace)
      (s', trace')) (chunkId : Uuid) :
    s.gained s' chunkId = [] ∨ ∃ w u placed new,
      Served options allowed (t.group chunkId) w u placed new (t, trace) (s', trace') ∧
        (s.gained s' chunkId).Sublist new := by
  have hold : ∀ chunkId, ((s.rowsOf chunkId).map s.marked).filter
      (fun r => r.id ∉ s.replicas.map ChunkReplicaRecord.id) = [] := by
    intro chunkId
    refine List.filter_eq_nil_iff.mpr fun r hr => ?_
    obtain ⟨r₀, hr₀, rfl⟩ := List.mem_map.mp hr
    have hmem : (s.marked r₀).id ∈ s.replicas.map ChunkReplicaRecord.id := by
      rw [s.marked_id]
      exact List.mem_map_of_mem (Cluster.mem_rowsOf.mp hr₀).1
    exact Bool.not_eq_true _ ▸ decide_eq_false (not_not_intro hmem)
  by_cases hlisted : chunkId ∈ (t.listUnderReplicated rank options.replicationFactor).map
      UnderReplicatedChunk.chunkId
  · right
    obtain ⟨chunk, hchunk, rfl⟩ := List.mem_map.mp hlisted
    obtain ⟨row, -, rfl, -⟩ := Cluster.mem_listUnderReplicated.mp hchunk
    obtain ⟨w, u, placed, new, hserved⟩ := h.served (t.listUnderReplicated_nodup _ _) hchunk
    refine ⟨w, u, placed, new, hserved, ?_⟩
    have hafter : s'.rowsOf row.chunkId = t.rowsOf row.chunkId ++ new := hserved.after
    show ((s'.rowsOf row.chunkId).filter _).Sublist new
    rw [hafter, hmarked.rowsOf, List.filter_append, hold, List.nil_append]
    exact List.filter_sublist
  · left
    have hrows : s'.rowsOf chunkId = t.rowsOf chunkId := h.reconciled.rowsOf hlisted
    rw [Cluster.gained, hrows, hmarked.rowsOf, hold]

theorem Healed.touched (hmarked : Marked s t)
    (h : Healed options allowed (t.listUnderReplicated rank options.replicationFactor) (t, trace)
      (s', trace')) : Touched options s t s' trace' where
  nodes := by
    rw [← hmarked.nodes]
    exact h.reconciled.nodes
  kept r hr := by
    obtain ⟨new, hreplicas, -⟩ := h.reconciled.rows
    have hmem : s.marked r ∈ s'.replicas := by
      rw [hreplicas, hmarked.replicas]
      exact List.mem_append_left _ (List.mem_map_of_mem hr)
    exact ⟨s.marked r, hmem, s.marked_id r, s.marked_chunkId r, s.marked_nodeId r,
      s.marked_storageKey r⟩
  lost r' hr' hunhealthy := by
    obtain ⟨new, hreplicas, hnew⟩ := h.reconciled.rows
    rw [hreplicas, hmarked.replicas] at hr'
    rcases List.mem_append.mp hr' with hr' | hr'
    · obtain ⟨r, -, rfl⟩ := List.mem_map.mp hr'
      rw [s.marked_nodeId] at hunhealthy
      rw [Cluster.marked_of_mem hunhealthy]
    · obtain ⟨-, -, node, hn, hid, hhealthy⟩ := hnew r' hr'
      have hn' : node ∈ s.nodes := hmarked.nodes ▸ hn
      rw [← hid, Cluster.mem_unhealthyNodeIds hn', hhealthy] at hunhealthy
      cases hunhealthy
  spared r hr hhealthy r' hr' hid := by
    obtain ⟨new, hreplicas, -⟩ := h.reconciled.rows
    have hmem : r ∈ s'.replicas := by
      rw [hreplicas, hmarked.replicas]
      exact List.mem_append_left _ (List.mem_map.mpr ⟨r, hr, Cluster.marked_of_notMem hhealthy⟩)
    rw [Cluster.replica_unique hr' hmem hid]
  added chunkId r hr := by
    rcases h.gained hmarked chunkId with hnil | ⟨w, u, placed, new, hserved, hsub⟩
    · rw [hnil] at hr
      cases hr
    · have hrow := hserved.row (hsub.subset hr)
      rw [← hmarked.vacantNodes chunkId]
      exact ⟨hserved.synced (hsub.subset hr), hrow⟩
  bounded chunkId := by
    rcases h.gained hmarked chunkId with hnil | ⟨w, u, placed, new, hserved, hsub⟩
    · rw [hnil]
      exact Nat.zero_le _
    · exact hsub.length_le.trans hserved.length_le
  apart chunkId := (s'.rowsOf_nodeIds_nodup chunkId).sublist (List.filter_sublist.map _)

end

/-- Copies, increments and upserts may fail, and nothing else. -/
def Statement.onlyCopying (c : Statement) (w : Circumstances) : Prop :=
  c.faulty = false → w.outcome = .succeeded

instance (c : Statement) (w : Circumstances) : Decidable (c.onlyCopying w) :=
  inferInstanceAs (Decidable (c.faulty = false → w.outcome = .succeeded))

/-- A sweep loses no row, marks the rows on unhealthy nodes and no others, and adds for a chunk
at most the replicas that it lacks, on nodes that took a copy and had none. -/
theorem sweep_touches (options : ReplicationServiceOptions) (s : Cluster)
    (ws : Nat → Circumstances)
    (hws : (SelfHealingService.healOnce options).Meets (fun c w _ => c.onlyCopying w)
      Statement.exec ws s) :
    Touched options s (SelfHealingService.markReplicasOnUnhealthyNodesLost.run Statement.exec ws s).2
      (operate options s (.healingSweep, ws)).2
      ((SelfHealingService.healOnce options).trace Statement.exec ws s) := by
  have hreliable : ∀ c w, c.faulty = false → Statement.onlyCopying c w →
      w.outcome = .succeeded := fun _ _ hc h => h hc
  obtain ⟨-, t, w, trace, hmarked, -, hhealed⟩ :=
    Prog.sat_alone_run (sat_healOnce options hreliable s) hws
  have htouched := hhealed.touched hmarked
  obtain ⟨-, hmarked'⟩ := Prog.sat_alone_run (sat_marking hreliable s) hws.of_bind
  have hcount : ∀ chunkId, t.syncedCount chunkId =
      (SelfHealingService.markReplicasOnUnhealthyNodesLost.run
        Statement.exec ws s).2.syncedCount chunkId := by
    intro chunkId
    rw [Cluster.syncedCount, Cluster.syncedCount, hmarked.rowsOf, hmarked'.rowsOf]
  exact { htouched with bounded := fun chunkId => hcount chunkId ▸ htouched.bounded chunkId }

/-! Three nodes, the second of which goes down with its replica. -/

def nodeDown : List (Operation × (Nat → Circumstances)) :=
  [(.replicateChunk ⟨7, "chunks/a", 5⟩, fun _ => .calm 1), (.heartbeat "node-1", fun _ => .calm 20),
    (.heartbeat "node-3", fun _ => .calm 20), (.stalenessSweep 10, fun _ => .calm 20)]

/-- The upsert of the new replica is not acknowledged. -/
def lateUpsert (n : Nat) : Circumstances :=
  if n = 8 then ⟨.unacknowledged, 30, fun _ => 0, fun _ => 0⟩ else .calm 30

theorem sweep_touches_nodeDown :
    let s := finalState (operate .sample) (.installed 3) nodeDown
    Touched .sample s
      (SelfHealingService.markReplicasOnUnhealthyNodesLost.run Statement.exec lateUpsert s).2
      (operate .sample s (.healingSweep, lateUpsert)).2
      ((SelfHealingService.healOnce .sample).trace Statement.exec lateUpsert s) :=
  sweep_touches .sample (finalState (operate .sample) (.installed 3) nodeDown) lateUpsert
    (by decide)

end IntelliStore.Replication
