import IntelliStore.Replication.Healing

/-! What the turns of a sweep do for one chunk, and that they leave the others alone. -/

namespace IntelliStore.Replication
open Library Postgres

/-! ### Rows and vacant nodes of one chunk -/

theorem StorageNodeRecord.id_of_emptied {n m : StorageNodeRecord} (h : n.emptied = m.emptied) :
    n.id = m.id :=
  show n.emptied.id = m.emptied.id from congrArg _ h

theorem StorageNodeRecord.bucket_of_emptied {n m : StorageNodeRecord} (h : n.emptied = m.emptied) :
    n.bucket = m.bucket :=
  show n.emptied.bucket = m.emptied.bucket from congrArg _ h

theorem StorageNodeRecord.isHealthy_of_emptied {n m : StorageNodeRecord}
    (h : n.emptied = m.emptied) : n.isHealthy = m.isHealthy :=
  show n.emptied.isHealthy = m.emptied.isHealthy from congrArg _ h

theorem Cluster.vacantNodes_eq (s : Cluster) (chunkId : Uuid) :
    s.vacantNodes chunkId = s.nodes.filter fun node => node.isHealthy &&
      !((s.rowsOf chunkId).map ChunkReplicaRecord.nodeId).contains node.id := by
  refine List.filter_congr fun node _ => ?_
  have hfree : (∀ r ∈ s.replicas, r.chunkId = chunkId → r.nodeId ≠ node.id) ↔
      node.id ∉ (s.rowsOf chunkId).map ChunkReplicaRecord.nodeId := by
    simp only [List.mem_map, Cluster.mem_rowsOf, not_exists, not_and, and_imp, ne_eq]
  rw [Bool.decide_and, Bool.decide_eq_true, decide_eq_decide.mpr hfree, List.contains_eq_mem,
    decide_not]

theorem Cluster.mem_vacantNodes_iff {s : Cluster} {chunkId : Uuid} {node : StorageNodeRecord} :
    node ∈ s.vacantNodes chunkId ↔ node ∈ s.nodes ∧ node.isHealthy = true ∧
      node.id ∉ (s.rowsOf chunkId).map ChunkReplicaRecord.nodeId := by
  rw [Cluster.vacantNodes_eq, List.mem_filter, Bool.and_eq_true, Bool.not_eq_true',
    ← Bool.not_eq_true, List.contains_iff_mem]

/-- The vacant nodes of a chunk depend on its rows and on the nodes up to their `used_bytes`. -/
theorem Cluster.vacant_of_emptied {t u : Cluster} {chunkId : Uuid} {node : StorageNodeRecord}
    (hnodes : u.nodes.map StorageNodeRecord.emptied = t.nodes.map StorageNodeRecord.emptied)
    (hrows : (t.rowsOf chunkId).map ChunkReplicaRecord.nodeId ⊆
      (u.rowsOf chunkId).map ChunkReplicaRecord.nodeId)
    (hnode : node ∈ u.vacantNodes chunkId) :
    ∃ node' ∈ t.vacantNodes chunkId, node'.emptied = node.emptied := by
  obtain ⟨hn, hhealthy, hfree⟩ := Cluster.mem_vacantNodes_iff.mp hnode
  obtain ⟨node', hn', heq⟩ := Cluster.exists_node_of_emptied hnodes.symm hn
  have hhealthy' : node'.isHealthy = true :=
    (StorageNodeRecord.isHealthy_of_emptied heq).trans hhealthy
  refine ⟨node', Cluster.mem_vacantNodes_iff.mpr ⟨hn', hhealthy', fun hmem => ?_⟩, heq⟩
  exact hfree (StorageNodeRecord.id_of_emptied heq ▸ hrows hmem)

theorem Reconciled.rowsOf {t u : Cluster} {chunkIds : List Uuid} (h : Reconciled t u chunkIds)
    {chunkId : Uuid} (hchunk : chunkId ∉ chunkIds) : u.rowsOf chunkId = t.rowsOf chunkId := by
  obtain ⟨new, hreplicas, hnew⟩ := h.rows
  have hnone : new.filter (fun r => r.chunkId = chunkId) = [] := by
    refine List.filter_eq_nil_iff.mpr fun r hr => ?_
    rw [decide_eq_true_iff]
    exact fun heq => hchunk (heq ▸ (hnew r hr).1)
  rw [Cluster.rowsOf, Cluster.rowsOf, hreplicas, List.filter_append, hnone, List.append_nil]

theorem Placed.rowsOf {t u : Cluster} {chunkId : Uuid} {targets : List StorageNodeRecord}
    {new : List ChunkReplicaRecord} (h : Placed t u chunkId targets new) :
    u.rowsOf chunkId = t.rowsOf chunkId ++ new := by
  have hall : new.filter (fun r => r.chunkId = chunkId) = new := by
    refine List.filter_eq_self.mpr fun r hr => ?_
    exact decide_eq_true (h.row hr).1
  rw [Cluster.rowsOf, Cluster.rowsOf, h.replicas, List.filter_append, hall]

theorem Cluster.marked_id (s : Cluster) (r : ChunkReplicaRecord) : (s.marked r).id = r.id := by
  rw [marked]
  split <;> rfl

theorem Cluster.marked_storageKey (s : Cluster) (r : ChunkReplicaRecord) :
    (s.marked r).storageKey = r.storageKey := by
  rw [marked]
  split <;> rfl

/-- The marking pass changes statuses only. -/
theorem Marked.rowsOf {s t : Cluster} (h : Marked s t) (chunkId : Uuid) :
    t.rowsOf chunkId = (s.rowsOf chunkId).map s.marked := by
  rw [Cluster.rowsOf, Cluster.rowsOf, h.replicas, List.filter_map]
  congr 2
  funext r
  rw [Function.comp_apply, s.marked_chunkId]

theorem Marked.rowsOf_nodeIds {s t : Cluster} (h : Marked s t) (chunkId : Uuid) :
    (t.rowsOf chunkId).map ChunkReplicaRecord.nodeId =
      (s.rowsOf chunkId).map ChunkReplicaRecord.nodeId := by
  rw [h.rowsOf, List.map_map]
  exact List.map_congr_left fun r _ => s.marked_nodeId r

theorem Marked.vacantNodes {s t : Cluster} (h : Marked s t) (chunkId : Uuid) :
    t.vacantNodes chunkId = s.vacantNodes chunkId := by
  simp only [Cluster.vacantNodes, h.nodes, h.replicas, List.forall_mem_map, s.marked_chunkId,
    s.marked_nodeId]

/-! ### Turns -/

section
variable {options : ReplicationServiceOptions} {allowed : Statement → Circumstances → Prop}
  {chunk : UnderReplicatedChunk} {chunks : List UnderReplicatedChunk} {x y : Cluster × Trace}

theorem Turn.reconciled (h : Turn options allowed chunk x y) :
    Reconciled x.1 y.1 [chunk.chunkId] := by
  obtain ⟨w, placed, new, -, hfilled, -⟩ := h
  exact hfilled.rows.reconciled fun node hn => mem_triedNodes (hfilled.chosen.subset hn)

theorem Turn.trace (h : Turn options allowed chunk x y) : x.2 <+: y.2 := by
  obtain ⟨w, placed, new, -, hfilled, -⟩ := h
  exact hfilled.trace

theorem Healed.reconciled (h : Healed options allowed chunks x y) :
    Reconciled x.1 y.1 (chunks.map UnderReplicatedChunk.chunkId) := by
  induction h with
  | nil x => exact .refl x.1
  | cons turn _ ih => exact turn.reconciled.trans ih

theorem Healed.trace (h : Healed options allowed chunks x y) : x.2 <+: y.2 := by
  induction h with
  | nil x => exact List.prefix_rfl
  | cons turn _ ih => exact turn.trace.trans ih

/-- The turn of one chunk, between those of the others. -/
theorem Healed.split (h : Healed options allowed chunks x y) (hchunk : chunk ∈ chunks) :
    ∃ before after u v, chunks = before ++ chunk :: after ∧ Healed options allowed before x u ∧
      Turn options allowed chunk u v ∧ Healed options allowed after v y := by
  induction h with
  | nil x => cases hchunk
  | @cons first chunks x v y turn rest ih =>
    rcases List.mem_cons.mp hchunk with rfl | hmem
    · exact ⟨[], chunks, x, v, rfl, .nil x, turn, rest⟩
    · obtain ⟨before, after, u', v', rfl, hbefore, hturn, hafter⟩ := ih hmem
      exact ⟨first :: before, after, u', v', rfl, .cons turn hbefore, hturn, hafter⟩

variable (options allowed chunk) in
/-- The sweep found the cluster as `u` at the turn of the chunk, and has added the rows `new`. -/
structure Served (w : Circumstances) (u : Cluster) (placed : List StorageNodeRecord)
    (new : List ChunkReplicaRecord) (x y : Cluster × Trace) : Prop where
  read : NodesRead y.2 chunk.chunkId w u
  nodes : u.nodes.map StorageNodeRecord.emptied = x.1.nodes.map StorageNodeRecord.emptied
  before : u.rowsOf chunk.chunkId = x.1.rowsOf chunk.chunkId
  after : y.1.rowsOf chunk.chunkId = x.1.rowsOf chunk.chunkId ++ new
  chosen : placed.Sublist (triedNodes options u w.uuidRank chunk)
  rows : new.map (fun r => (r.chunkId, r.nodeId, r.status)) =
    placed.map fun node => (chunk.chunkId, node.id, .synced)
  copied : ∀ r ∈ new, ∃ node ∈ placed, node.id = r.nodeId ∧
    Copied y.2 options.primaryBucket r.storageKey node.bucket
  decided : ∀ accepts, Decides allowed accepts →
    placed = (triedNodes options u w.uuidRank chunk).filter fun node => accepts node.bucket

namespace Served
variable {w : Circumstances} {u : Cluster} {placed : List StorageNodeRecord}
  {new : List ChunkReplicaRecord}

theorem length (h : Served options allowed chunk w u placed new x y) :
    new.length = placed.length := by
  simpa only [List.length_map] using congrArg List.length h.rows

theorem length_le (h : Served options allowed chunk w u placed new x y) :
    new.length ≤ options.replicationFactor - chunk.syncedCount := by
  rw [h.length]
  exact h.chosen.length_le.trans (List.length_take_le _ _)

theorem synced (h : Served options allowed chunk w u placed new x y) {r : ChunkReplicaRecord}
    (hr : r ∈ new) : r.status = .synced := by
  have hmem := List.mem_map_of_mem (f := fun r => (r.chunkId, r.nodeId, r.status)) hr
  rw [h.rows] at hmem
  obtain ⟨node, -, heq⟩ := List.mem_map.mp hmem
  exact (congrArg (·.2.2) heq).symm

theorem exists_row (h : Served options allowed chunk w u placed new x y) {node : StorageNodeRecord}
    (hn : node ∈ placed) : ∃ r ∈ new, r.nodeId = node.id := by
  have hmem : (chunk.chunkId, node.id, ReplicaStatus.synced) ∈
      new.map fun r => (r.chunkId, r.nodeId, r.status) := by
    rw [h.rows]
    exact List.mem_map_of_mem (f := fun node => (chunk.chunkId, node.id, ReplicaStatus.synced)) hn
  obtain ⟨r, hr, heq⟩ := List.mem_map.mp hmem
  exact ⟨r, hr, congrArg (·.2.1) heq⟩

theorem syncedCount (h : Served options allowed chunk w u placed new x y) :
    y.1.syncedCount chunk.chunkId = x.1.syncedCount chunk.chunkId + placed.length := by
  rw [Cluster.syncedCount, h.after, List.countP_append, ← h.length,
    List.countP_eq_length.mpr fun r hr => decide_eq_true (h.synced hr), Cluster.syncedCount]

/-- A new row stands for a node that had none, and for a copy that succeeded. -/
theorem row (h : Served options allowed chunk w u placed new x y) {r : ChunkReplicaRecord}
    (hr : r ∈ new) : ∃ node ∈ x.1.vacantNodes chunk.chunkId, node.id = r.nodeId ∧
      Copied y.2 options.primaryBucket r.storageKey node.bucket := by
  obtain ⟨node, hn, hid, hcopied⟩ := h.copied r hr
  have hvacant := mem_triedNodes (h.chosen.subset hn)
  have hrows : (x.1.rowsOf chunk.chunkId).map ChunkReplicaRecord.nodeId ⊆
      (u.rowsOf chunk.chunkId).map ChunkReplicaRecord.nodeId := by
    rw [h.before]
    exact List.Subset.refl _
  obtain ⟨node', hn', heq⟩ := Cluster.vacant_of_emptied h.nodes hrows hvacant
  refine ⟨node', hn', (StorageNodeRecord.id_of_emptied heq).trans hid, ?_⟩
  rw [StorageNodeRecord.bucket_of_emptied heq]
  exact hcopied

end Served

theorem Healed.served (h : Healed options allowed chunks x y)
    (hnodup : (chunks.map UnderReplicatedChunk.chunkId).Nodup) (hchunk : chunk ∈ chunks) :
    ∃ w u placed new, Served options allowed chunk w u placed new x y := by
  obtain ⟨before, after, u, v, rfl, hbefore, hturn, hafter⟩ := h.split hchunk
  rw [List.map_append, List.map_cons] at hnodup
  obtain ⟨-, hafterNodup, hdisjoint⟩ := List.nodup_append.mp hnodup
  have hnotBefore : chunk.chunkId ∉ before.map UnderReplicatedChunk.chunkId :=
    fun hmem => hdisjoint _ hmem _ List.mem_cons_self rfl
  have hnotAfter := (List.nodup_cons.mp hafterNodup).1
  obtain ⟨w, placed, new, hread, hfilled, -⟩ := hturn
  have hrows := hbefore.reconciled.rowsOf hnotBefore
  refine ⟨w, u.1, placed, new, hread.mono hafter.trace, hbefore.reconciled.nodes, hrows, ?_,
    hfilled.chosen, hfilled.rows.rows, fun r hr => ?_, hfilled.decided⟩
  · rw [hafter.reconciled.rowsOf hnotAfter, hfilled.rows.rowsOf, hrows]
  · obtain ⟨node, hn, hid, hcopied⟩ := hfilled.copied r hr
    exact ⟨node, hn, hid, hcopied.mono hafter.trace⟩

end
end IntelliStore.Replication
