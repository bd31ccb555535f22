import IntelliStore.Replication.Cluster

/-! What the statements of the repositories read and change. -/

namespace IntelliStore.Replication
open Library Postgres

/-- A node up to its `used_bytes`. -/
def StorageNodeRecord.emptied (node : StorageNodeRecord) : StorageNodeRecord :=
  { node with usedBytes := 0 }

namespace Cluster
variable {s : Cluster} {chunkId nodeId : Uuid}

/-! ### Rows are determined by their keys -/

theorem node_unique {n m : StorageNodeRecord} (hn : n ∈ s.nodes) (hm : m ∈ s.nodes)
    (h : n.id = m.id) : n = m := List.inj_on_of_nodup_map s.nodes_pkey hn hm h

theorem replica_unique {r q : ChunkReplicaRecord} (hr : r ∈ s.replicas) (hq : q ∈ s.replicas)
    (h : r.id = q.id) : r = q := List.inj_on_of_nodup_map s.replicas_pkey hr hq h

theorem replica_key_unique {r q : ChunkReplicaRecord} (hr : r ∈ s.replicas) (hq : q ∈ s.replicas)
    (hchunk : r.chunkId = q.chunkId) (hnode : r.nodeId = q.nodeId) : r = q :=
  List.inj_on_of_nodup_map s.replicas_chunk_node_key hr hq (Prod.ext hchunk hnode)

/-! ### Nodes -/

@[simp] theorem mem_listAll {node : StorageNodeRecord} : node ∈ s.listAll ↔ node ∈ s.nodes :=
  mem_orderBy

theorem listHealthy_perm (s : Cluster) (rank : Uuid → Nat) :
    (s.listHealthy rank).Perm (s.nodes.filter (·.isHealthy)) := orderBy_perm _ _ _

theorem updateNode_ids {id : Uuid} {g : StorageNodeRecord → StorageNodeRecord}
    {hid : ∀ node, (g node).id = node.id} {hname : ∀ node, (g node).name = node.name}
    {hbucket : ∀ node, (g node).bucket = node.bucket} :
    (s.updateNode id g hid hname hbucket).nodes.map StorageNodeRecord.id =
      s.nodes.map StorageNodeRecord.id := map_update hid _ _

theorem incrementUsedBytes_emptied (s : Cluster) (id : Uuid) (deltaBytes : Nat) :
    (s.incrementUsedBytes id deltaBytes).nodes.map StorageNodeRecord.emptied =
      s.nodes.map StorageNodeRecord.emptied :=
  map_update (f := StorageNodeRecord.emptied)
    (g := fun node => { node with usedBytes := node.usedBytes + deltaBytes }) (fun _ => rfl) _ _

/-- What depends on neither `used_bytes` nor its order may be read of the emptied nodes. -/
theorem filter_nodes_length {t : Cluster} (h : t.nodes.map StorageNodeRecord.emptied =
    s.nodes.map StorageNodeRecord.emptied) {p : StorageNodeRecord → Bool}
    (hp : ∀ node, p node.emptied = p node) :
    (t.nodes.filter p).length = (s.nodes.filter p).length := by
  have hcount : ∀ l : List StorageNodeRecord,
      (l.filter p).length = ((l.map StorageNodeRecord.emptied).filter p).length := fun l => by
    rw [List.filter_map, List.length_map]
    exact congrArg (fun q => (l.filter q).length) (funext fun node => (hp node).symm)
  rw [hcount t.nodes, h, ← hcount]

theorem exists_node_of_emptied {t : Cluster} (h : t.nodes.map StorageNodeRecord.emptied =
    s.nodes.map StorageNodeRecord.emptied) {node : StorageNodeRecord} (hn : node ∈ s.nodes) :
    ∃ node' ∈ t.nodes, node'.emptied = node.emptied :=
  List.mem_map.mp (h ▸ List.mem_map_of_mem hn)

/-! ### Replicas -/

theorem mem_listByNodeIds {rank : Nat → Nat} {nodeIds : List Uuid} {r : ChunkReplicaRecord} :
    r ∈ s.listByNodeIds rank nodeIds ↔ r ∈ s.replicas ∧ r.nodeId ∈ nodeIds := by
  rw [listByNodeIds, mem_anyOrder, List.mem_filter, List.contains_iff_mem]

theorem mem_listNodeIdsForChunk {rank : Nat → Nat} :
    nodeId ∈ s.listNodeIdsForChunk rank chunkId ↔
      ∃ r ∈ s.replicas, r.chunkId = chunkId ∧ r.nodeId = nodeId := by
  simp only [listNodeIdsForChunk, listByChunk, List.mem_map, mem_anyOrder, List.mem_filter,
    decide_eq_true_iff, and_assoc]

theorem mem_rowsOf {r : ChunkReplicaRecord} :
    r ∈ s.rowsOf chunkId ↔ r ∈ s.replicas ∧ r.chunkId = chunkId := by
  rw [rowsOf, List.mem_filter, decide_eq_true_iff]

/-- A chunk has one row on a node. -/
theorem rowsOf_nodeIds_nodup (s : Cluster) (chunkId : Uuid) :
    ((s.rowsOf chunkId).map ChunkReplicaRecord.nodeId).Nodup := by
  have hrows : (s.rowsOf chunkId).Nodup := (List.Nodup.of_map _ s.replicas_pkey).filter _
  refine List.Nodup.map_on (fun r hr q hq hnode => ?_) hrows
  obtain ⟨hr, hchunk⟩ := mem_rowsOf.mp hr
  obtain ⟨hq, hchunk'⟩ := mem_rowsOf.mp hq
  exact replica_key_unique hr hq (hchunk.trans hchunk'.symm) hnode

theorem mem_listUnderReplicated {rank : Uuid → Nat} {desiredCount : Nat}
    {chunk : UnderReplicatedChunk} :
    chunk ∈ s.listUnderReplicated rank desiredCount ↔
      ∃ r ∈ s.replicas, chunk = s.group r.chunkId ∧ s.syncedCount r.chunkId < desiredCount := by
  simp only [listUnderReplicated, List.mem_filter, List.mem_map, mem_anyOrder, List.mem_dedup,
    decide_eq_true_iff]
  constructor
  · rintro ⟨⟨_, ⟨r, hr, rfl⟩, rfl⟩, hlt⟩
    exact ⟨r, hr, rfl, hlt⟩
  · rintro ⟨r, hr, rfl, hlt⟩
    exact ⟨⟨_, ⟨r, hr, rfl⟩, rfl⟩, hlt⟩

/-- `GROUP BY` lists a chunk once. -/
theorem listUnderReplicated_nodup (s : Cluster) (rank : Uuid → Nat) (desiredCount : Nat) :
    ((s.listUnderReplicated rank desiredCount).map UnderReplicatedChunk.chunkId).Nodup := by
  have hgroups : ((anyOrder rank (s.replicas.map ChunkReplicaRecord.chunkId).dedup).map s.group).map
      UnderReplicatedChunk.chunkId =
        anyOrder rank (s.replicas.map ChunkReplicaRecord.chunkId).dedup := by
    rw [List.map_map]
    exact List.map_id _
  refine List.Nodup.sublist (List.filter_sublist.map _) ?_
  rw [hgroups, (anyOrder_perm rank _).nodup_iff]
  exact List.nodup_dedup _

theorem syncedCount_append {t : Cluster} {new : List ChunkReplicaRecord}
    (h : t.replicas = s.replicas ++ new) (chunkId : Uuid) :
    t.syncedCount chunkId = s.syncedCount chunkId +
      new.countP fun r => r.chunkId = chunkId ∧ r.status = .synced := by
  rw [syncedCount, syncedCount, rowsOf, rowsOf, h, List.filter_append, List.countP_append,
    List.countP_filter (l := new)]
  congr 2
  funext r
  simp only [Bool.decide_and, Bool.and_comm]

theorem find_replica_eq_none :
    s.findReplica chunkId nodeId = none ↔
      ∀ r ∈ s.replicas, r.chunkId = chunkId → r.nodeId ≠ nodeId := by
  simp only [findReplica, List.find?_eq_none, Prod.mk.injEq, decide_eq_true_iff, not_and, ne_eq]

theorem find_replica_some {row : ChunkReplicaRecord} (h : s.findReplica chunkId nodeId = some row) :
    row ∈ s.replicas ∧ row.chunkId = chunkId ∧ row.nodeId = nodeId := by
  have hkey := List.find?_some (p := fun r : ChunkReplicaRecord =>
    decide ((r.chunkId, r.nodeId) = (chunkId, nodeId))) h
  rw [decide_eq_true_iff, Prod.mk.injEq] at hkey
  exact ⟨List.mem_of_find?_eq_some h, hkey⟩

section
variable (now : Nat) (storageKey : String) (sizeBytes : Nat) (status : ReplicaStatus)

/-- The row that the chunk has on the node is updated. -/
theorem upsert_old {old : ChunkReplicaRecord} (h : s.findReplica chunkId nodeId = some old) :
    ∃ row t, s.upsert now chunkId nodeId storageKey sizeBytes status = some (row, t) ∧
      row = { old with status := status, sizeBytes := sizeBytes, lastVerifiedAt := some now } ∧
      (t.replicas = s.replicas.map fun r => if r.id = old.id then
        { r with status := status, sizeBytes := sizeBytes, lastVerifiedAt := some now } else r) ∧
      t.nodes = s.nodes ∧ t.objects = s.objects := by
  unfold upsert
  split
  · rename_i row hrow
    rw [h] at hrow
    cases hrow
    refine ⟨_, _, rfl, rfl, ?_, rfl, rfl⟩
    simp only [updateReplicas, decide_eq_true_iff]
  · rename_i hnone
    rw [h] at hnone
    cases hnone

/-- The chunk gets its first row on the node. -/
theorem upsert_new (hnew : ∀ r ∈ s.replicas, r.chunkId = chunkId → r.nodeId ≠ nodeId)
    (hnode : nodeId ∈ s.nodes.map StorageNodeRecord.id) :
    ∃ row t, s.upsert now chunkId nodeId storageKey sizeBytes status = some (row, t) ∧
      row = ⟨s.nextReplicaId, chunkId, nodeId, storageKey, sizeBytes, status, some now, now⟩ ∧
      t.replicas = s.replicas ++ [row] ∧ t.nodes = s.nodes ∧ t.objects = s.objects := by
  have hnone := find_replica_eq_none.mpr hnew
  unfold upsert
  split
  · rename_i row hrow
    rw [hnone] at hrow
    cases hrow
  · rw [dif_pos (List.contains_iff_mem.mpr hnode)]
    exact ⟨_, _, rfl, rfl, rfl, rfl, rfl⟩

theorem upsert_unknown (hnew : ∀ r ∈ s.replicas, r.chunkId = chunkId → r.nodeId ≠ nodeId)
    (hnode : nodeId ∉ s.nodes.map StorageNodeRecord.id) :
    s.upsert now chunkId nodeId storageKey sizeBytes status = none := by
  have hnone := find_replica_eq_none.mpr hnew
  unfold upsert
  split
  · rename_i row hrow
    rw [hnone] at hrow
    cases hrow
  · rw [dif_neg fun h => hnode (List.contains_iff_mem.mp h)]

end

theorem upsert_eq_none {now : Nat} {storageKey : String} {sizeBytes : Nat}
    {status : ReplicaStatus} :
    s.upsert now chunkId nodeId storageKey sizeBytes status = none ↔
      (∀ r ∈ s.replicas, r.chunkId = chunkId → r.nodeId ≠ nodeId) ∧
        nodeId ∉ s.nodes.map StorageNodeRecord.id := by
  refine ⟨fun h => ?_, fun h => upsert_unknown now storageKey sizeBytes status h.1 h.2⟩
  cases hfind : s.findReplica chunkId nodeId with
  | some old =>
    obtain ⟨row, t, hupsert, -⟩ := upsert_old now storageKey sizeBytes status hfind
    rw [h] at hupsert
    cases hupsert
  | none =>
    have hnew := find_replica_eq_none.mp hfind
    refine ⟨hnew, fun hnode => ?_⟩
    obtain ⟨row, t, hupsert, -⟩ := upsert_new now storageKey sizeBytes status hnew hnode
    rw [h] at hupsert
    cases hupsert

/-- The row the chunk has on the node is updated, or it gets its first one there. -/
theorem upsert_inv {now : Nat} {storageKey : String} {sizeBytes : Nat} {status : ReplicaStatus}
    {row : ChunkReplicaRecord} {t : Cluster}
    (h : s.upsert now chunkId nodeId storageKey sizeBytes status = some (row, t)) :
    t.nodes = s.nodes ∧ t.objects = s.objects ∧
      ((∃ old ∈ s.replicas, old.chunkId = chunkId ∧ old.nodeId = nodeId ∧
          row = { old with status := status, sizeBytes := sizeBytes, lastVerifiedAt := some now } ∧
          t.replicas = s.replicas.map fun r => if r.id = old.id then
            { r with status := status, sizeBytes := sizeBytes, lastVerifiedAt := some now } else r) ∨
        ((∀ r ∈ s.replicas, r.chunkId = chunkId → r.nodeId ≠ nodeId) ∧
          nodeId ∈ s.nodes.map StorageNodeRecord.id ∧
          row = ⟨s.nextReplicaId, chunkId, nodeId, storageKey, sizeBytes, status, some now, now⟩ ∧
          t.replicas = s.replicas ++ [row])) := by
  cases hfind : s.findReplica chunkId nodeId with
  | some old =>
    obtain ⟨row', t', hupsert, hrow, hreplicas, hnodes, hobjects⟩ :=
      upsert_old now storageKey sizeBytes status hfind
    cases hupsert.symm.trans h
    obtain ⟨hold, hchunk, hnode⟩ := find_replica_some hfind
    exact ⟨hnodes, hobjects, .inl ⟨old, hold, hchunk, hnode, hrow, hreplicas⟩⟩
  | none =>
    have hnew := find_replica_eq_none.mp hfind
    by_cases hnode : nodeId ∈ s.nodes.map StorageNodeRecord.id
    · obtain ⟨row', t', hupsert, hrow, hreplicas, hnodes, hobjects⟩ :=
        upsert_new now storageKey sizeBytes status hnew hnode
      cases hupsert.symm.trans h
      exact ⟨hnodes, hobjects, .inr ⟨hnew, hnode, hrow, hreplicas⟩⟩
    · rw [upsert_unknown now storageKey sizeBytes status hnew hnode] at h
      cases h

end Cluster
end IntelliStore.Replication
