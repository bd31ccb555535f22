import IntelliStore.Library.Tables
import IntelliStore.Metadata.Postgres
import Mathlib.Data.Finset.Insert
import Mathlib.Data.String.Basic

/-! The tables of the replication-service migrations, with their constraints as fields, the
buckets of the storage nodes, and the statements of `PgNodeRepository`, `PgReplicaRepository`
and `MinioNodeStorage`. -/

namespace IntelliStore.Replication
open Library Postgres

structure StorageNodeRecord where
  id : Uuid
  name : String
  bucket : String
  isHealthy : Bool
  lastHeartbeatAt : Option Nat
  capacityBytes : Nat
  usedBytes : Nat
  deriving DecidableEq

inductive ReplicaStatus where
  | pending
  | synced
  | degraded
  | lost
  deriving DecidableEq

/-- Rows are numbered in the order of their insertion in place of their random UUIDs. -/
structure ChunkReplicaRecord where
  id : Nat
  chunkId : Uuid
  nodeId : Uuid
  storageKey : String
  sizeBytes : Nat
  status : ReplicaStatus
  lastVerifiedAt : Option Nat
  createdAt : Nat
  deriving DecidableEq

structure UnderReplicatedChunk where
  chunkId : Uuid
  storageKey : String
  sizeBytes : Nat
  syncedCount : Nat
  deriving DecidableEq

/-- `objects` are the pairs of a bucket of a node and a key stored there. -/
structure Cluster where
  nodes : List StorageNodeRecord
  replicas : List ChunkReplicaRecord
  objects : Finset (String × String)
  nextReplicaId : Nat
  nodes_pkey : (nodes.map StorageNodeRecord.id).Nodup
  nodes_name_key : (nodes.map StorageNodeRecord.name).Nodup
  nodes_bucket_key : (nodes.map StorageNodeRecord.bucket).Nodup
  replicas_pkey : (replicas.map ChunkReplicaRecord.id).Nodup
  replicas_id_lt : ∀ r ∈ replicas, r.id < nextReplicaId
  replicas_node_fkey : ∀ r ∈ replicas, r.nodeId ∈ nodes.map StorageNodeRecord.id
  replicas_chunk_node_key : (replicas.map fun r => (r.chunkId, r.nodeId)).Nodup

namespace Cluster

/-- A cluster of nodes that store nothing yet. -/
def ofNodes (nodes : List StorageNodeRecord) (hid : (nodes.map StorageNodeRecord.id).Nodup)
    (hname : (nodes.map StorageNodeRecord.name).Nodup)
    (hbucket : (nodes.map StorageNodeRecord.bucket).Nodup) : Cluster where
  nodes := nodes
  replicas := []
  objects := ∅
  nextReplicaId := 0
  nodes_pkey := hid
  nodes_name_key := hname
  nodes_bucket_key := hbucket
  replicas_pkey := List.nodup_nil
  replicas_id_lt := by simp
  replicas_node_fkey := by simp
  replicas_chunk_node_key := List.nodup_nil

/-- The first `n` nodes of the migration, as they are installed. -/
def installed (n : Nat) : Cluster :=
  let nodes := [⟨1, "node-1", "intellistore-node-1", true, some 0, 10737418240, 0⟩,
    ⟨2, "node-2", "intellistore-node-2", true, some 0, 10737418240, 0⟩,
    ⟨3, "node-3", "intellistore-node-3", true, some 0, 10737418240, 0⟩]
  .ofNodes (nodes.take n)
    (List.Nodup.sublist ((List.take_sublist n nodes).map _) (by decide))
    (List.Nodup.sublist ((List.take_sublist n nodes).map _) (by decide))
    (List.Nodup.sublist ((List.take_sublist n nodes).map _) (by decide))

/-! ### `PgNodeRepository` -/

def listAll (s : Cluster) : List StorageNodeRecord :=
  orderBy StorageNodeRecord.name (fun _ => 0) s.nodes

/-- Nodes with equal `used_bytes` come in the order of `rank`. -/
def listHealthy (s : Cluster) (rank : Uuid → Nat) : List StorageNodeRecord :=
  orderBy StorageNodeRecord.usedBytes (fun node => rank node.id) (s.nodes.filter (·.isHealthy))

def findByName (s : Cluster) (name : String) : Option StorageNodeRecord :=
  s.nodes.find? fun node => node.name = name

/-- `UPDATE storage_nodes SET .. WHERE id = $1`. -/
def updateNode (s : Cluster) (id : Uuid) (g : StorageNodeRecord → StorageNodeRecord)
    (hid : ∀ node, (g node).id = node.id) (hname : ∀ node, (g node).name = node.name)
    (hbucket : ∀ node, (g node).bucket = node.bucket) : Cluster :=
  { s with
    nodes := s.nodes.map fun node => if node.id = id then g node else node
    nodes_pkey := by rw [map_update hid]; exact s.nodes_pkey
    nodes_name_key := by rw [map_update hname]; exact s.nodes_name_key
    nodes_bucket_key := by rw [map_update hbucket]; exact s.nodes_bucket_key
    replicas_node_fkey := fun r hr => by rw [map_update hid]; exact s.replicas_node_fkey r hr }

def incrementUsedBytes (s : Cluster) (id : Uuid) (deltaBytes : Nat) : Cluster :=
  s.updateNode id (fun node => { node with usedBytes := node.usedBytes + deltaBytes })
    (fun _ => rfl) (fun _ => rfl) fun _ => rfl

def setHealth (s : Cluster) (id : Uuid) (isHealthy : Bool) (heartbeatAt : Nat) : Cluster :=
  s.updateNode id
    (fun node => { node with isHealthy := isHealthy, lastHeartbeatAt := some heartbeatAt })
    (fun _ => rfl) (fun _ => rfl) fun _ => rfl

def markStale (s : Cluster) (id : Uuid) : Cluster :=
  s.updateNode id (fun node => { node with isHealthy := false })
    (fun _ => rfl) (fun _ => rfl) fun _ => rfl

/-! ### `PgReplicaRepository` -/

def listByChunk (s : Cluster) (rank : Nat → Nat) (chunkId : Uuid) : List ChunkReplicaRecord :=
  anyOrder (fun r => rank r.id) (s.replicas.filter fun r => r.chunkId = chunkId)

def listByNodeIds (s : Cluster) (rank : Nat → Nat) (nodeIds : List Uuid) :
    List ChunkReplicaRecord :=
  anyOrder (fun r => rank r.id) (s.replicas.filter fun r => nodeIds.contains r.nodeId)

def listNodeIdsForChunk (s : Cluster) (rank : Nat → Nat) (chunkId : Uuid) : List Uuid :=
  (s.listByChunk rank chunkId).map ChunkReplicaRecord.nodeId

/-- `UPDATE chunk_replicas SET .. WHERE ..`. -/
def updateReplicas (s : Cluster) (p : ChunkReplicaRecord → Bool)
    (g : ChunkReplicaRecord → ChunkReplicaRecord) (hid : ∀ r, (g r).id = r.id)
    (hchunk : ∀ r, (g r).chunkId = r.chunkId) (hnode : ∀ r, (g r).nodeId = r.nodeId) : Cluster :=
  { s with
    replicas := s.replicas.map fun r => if p r then g r else r
    replicas_pkey := by rw [map_update hid]; exact s.replicas_pkey
    replicas_id_lt := fun r hr => by
      obtain ⟨r₀, hr₀, hmap⟩ := List.mem_map.mp (map_update hid (p ·) s.replicas ▸
        List.mem_map_of_mem (f := ChunkReplicaRecord.id) hr)
      exact hmap ▸ s.replicas_id_lt r₀ hr₀
    replicas_node_fkey := fun r hr => by
      obtain ⟨r₀, hr₀, hmap⟩ := List.mem_map.mp (map_update hnode (p ·) s.replicas ▸
        List.mem_map_of_mem (f := ChunkReplicaRecord.nodeId) hr)
      exact hmap ▸ s.replicas_node_fkey r₀ hr₀
    replicas_chunk_node_key := by
      rw [map_update (f := fun r : ChunkReplicaRecord => (r.chunkId, r.nodeId))
        fun r => by rw [hchunk, hnode]]
      exact s.replicas_chunk_node_key }

def markLost (s : Cluster) (replicaId : Nat) : Cluster :=
  s.updateReplicas (fun r => r.id = replicaId) (fun r => { r with status := .lost })
    (fun _ => rfl) (fun _ => rfl) fun _ => rfl

def rowsOf (s : Cluster) (chunkId : Uuid) : List ChunkReplicaRecord :=
  s.replicas.filter fun r => r.chunkId = chunkId

def syncedCount (s : Cluster) (chunkId : Uuid) : Nat :=
  (s.rowsOf chunkId).countP fun r => r.status = .synced

/-- One group of the `GROUP BY`; `MAX` of a text compares by code point. -/
def group (s : Cluster) (chunkId : Uuid) : UnderReplicatedChunk where
  chunkId := chunkId
  storageKey := ((s.rowsOf chunkId).map ChunkReplicaRecord.storageKey).foldr max ""
  sizeBytes := ((s.rowsOf chunkId).map ChunkReplicaRecord.sizeBytes).foldr max 0
  syncedCount := s.syncedCount chunkId

def listUnderReplicated (s : Cluster) (rank : Uuid → Nat) (desiredCount : Nat) :
    List UnderReplicatedChunk :=
  ((anyOrder rank (s.replicas.map ChunkReplicaRecord.chunkId).dedup).map s.group).filter
    fun chunk => chunk.syncedCount < desiredCount

def findReplica (s : Cluster) (chunkId nodeId : Uuid) : Option ChunkReplicaRecord :=
  s.replicas.find? fun r => (r.chunkId, r.nodeId) = (chunkId, nodeId)

/-- The row is given the next number. -/
def insertReplica (s : Cluster) (row : ChunkReplicaRecord)
    (hkey : (row.chunkId, row.nodeId) ∉ s.replicas.map fun r => (r.chunkId, r.nodeId))
    (hfk : row.nodeId ∈ s.nodes.map StorageNodeRecord.id) : Cluster :=
  { s with
    replicas := s.replicas ++ [{ row with id := s.nextReplicaId }]
    nextReplicaId := s.nextReplicaId + 1
    replicas_pkey := nodup_map_concat s.replicas_pkey fun hmem => by
      obtain ⟨r, hr, hid⟩ := List.mem_map.mp hmem
      exact absurd (s.replicas_id_lt r hr) (by rw [hid]; exact lt_irrefl _)
    replicas_id_lt := List.forall_mem_append.mpr
      ⟨fun r hr => Nat.lt_succ_of_lt (s.replicas_id_lt r hr),
        List.forall_mem_singleton.mpr (Nat.lt_succ_self _)⟩
    replicas_node_fkey := List.forall_mem_append.mpr
      ⟨s.replicas_node_fkey, List.forall_mem_singleton.mpr hfk⟩
    replicas_chunk_node_key := nodup_map_concat s.replicas_chunk_node_key hkey }

/-- `INSERT .. ON CONFLICT (chunk_id, node_id) DO UPDATE SET ..`; fails if the node is unknown. -/
def upsert (s : Cluster) (now : Nat) (chunkId nodeId : Uuid) (storageKey : String)
    (sizeBytes : Nat) (status : ReplicaStatus) : Option (ChunkReplicaRecord × Cluster) :=
  match h : s.findReplica chunkId nodeId with
  -- the storage key is not among the updated columns
  | some row =>
    some ({ row with status := status, sizeBytes := sizeBytes, lastVerifiedAt := some now },
      s.updateReplicas (fun r => r.id = row.id)
        (fun r => { r with status := status, sizeBytes := sizeBytes, lastVerifiedAt := some now })
        (fun _ => rfl) (fun _ => rfl) fun _ => rfl)
  | none =>
    let row : ChunkReplicaRecord :=
      ⟨s.nextReplicaId, chunkId, nodeId, storageKey, sizeBytes, status, some now, now⟩
    if hfk : (s.nodes.map StorageNodeRecord.id).contains nodeId then
      some (row, s.insertReplica row (fun hmem => by
        obtain ⟨r, hr, hkey⟩ := List.mem_map.mp hmem
        exact List.find?_eq_none.mp h r hr (decide_eq_true hkey)) (List.contains_iff_mem.mp hfk))
    else none

/-! ### `MinioNodeStorage` -/

def copyToNode (s : Cluster) (key destBucket : String) : Cluster :=
  { s with objects := insert (destBucket, key) s.objects }

end Cluster
end IntelliStore.Replication
