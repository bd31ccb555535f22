import IntelliStore.AppError
import IntelliStore.Library.Programs
import IntelliStore.Replication.Cluster
import IntelliStore.SharedTypes

/-! `ReplicationService`, `SelfHealingService`, `HeartbeatMonitor` and the heartbeat route as
programs over the statements of the repositories and of the node storage. -/

namespace IntelliStore.Replication
open Library Postgres

inductive Failure where
  | library
  | error (message : String)
  | app (e : AppError)
  deriving DecidableEq

/-! ### Statements -/

inductive Statement where
  | dateNow
  | listAll
  | listHealthy
  | findByName (name : String)
  | incrementUsedBytes (id : Uuid) (deltaBytes : Nat)
  | setHealth (id : Uuid) (isHealthy : Bool) (heartbeatAt : Nat)
  | markStale (id : Uuid)
  | listByChunk (chunkId : Uuid)
  | listByNodeIds (nodeIds : List Uuid)
  | listNodeIdsForChunk (chunkId : Uuid)
  | markLost (replicaId : Nat)
  | listUnderReplicated (desiredCount : Nat)
  | upsert (chunkId nodeId : Uuid) (storageKey : String) (sizeBytes : Nat) (status : ReplicaStatus)
  | copyToNode (sourceBucket key destBucket : String)

@[reducible] def Statement.Reply : Statement → Type
  | .dateNow => Nat
  | .listAll | .listHealthy => List StorageNodeRecord
  | .findByName _ => Option StorageNodeRecord
  | .incrementUsedBytes .. | .setHealth .. | .markStale _ | .markLost _ | .copyToNode .. => Unit
  | .listByChunk _ | .listByNodeIds _ => List ChunkReplicaRecord
  | .listNodeIdsForChunk _ => List Uuid
  | .listUnderReplicated _ => List UnderReplicatedChunk
  | .upsert .. => ChunkReplicaRecord

/-- An unacknowledged statement has taken effect. -/
inductive Outcome where
  | succeeded
  | failed
  | unacknowledged
  deriving DecidableEq

/-- What a statement meets: its outcome, the time, and the order of rows that no `ORDER BY`
determines. -/
structure Circumstances where
  outcome : Outcome
  now : Nat
  uuidRank : Uuid → Nat
  rowRank : Nat → Nat

/-- The statement succeeds, at the time `now`. -/
def Circumstances.calm (now : Nat) : Circumstances := ⟨.succeeded, now, fun _ => 0, fun _ => 0⟩

/-- The statement on a database and buckets that answer. -/
def Statement.effect (w : Circumstances) (s : Cluster) :
    (c : Statement) → Except Failure c.Reply × Cluster
  | .dateNow => (.ok w.now, s)
  | .listAll => (.ok s.listAll, s)
  | .listHealthy => (.ok (s.listHealthy w.uuidRank), s)
  | .findByName name => (.ok (s.findByName name), s)
  | .incrementUsedBytes id deltaBytes => (.ok (), s.incrementUsedBytes id deltaBytes)
  | .setHealth id isHealthy heartbeatAt => (.ok (), s.setHealth id isHealthy heartbeatAt)
  | .markStale id => (.ok (), s.markStale id)
  | .listByChunk chunkId => (.ok (s.listByChunk w.rowRank chunkId), s)
  | .listByNodeIds nodeIds => (.ok (s.listByNodeIds w.rowRank nodeIds), s)
  | .listNodeIdsForChunk chunkId => (.ok (s.listNodeIdsForChunk w.rowRank chunkId), s)
  | .markLost replicaId => (.ok (), s.markLost replicaId)
  | .listUnderReplicated desiredCount => (.ok (s.listUnderReplicated w.uuidRank desiredCount), s)
  | .upsert chunkId nodeId storageKey sizeBytes status =>
    match s.upsert w.now chunkId nodeId storageKey sizeBytes status with
    | some (row, t) => (.ok row, t)
    | none => (.error .library, s)
  | .copyToNode _ key destBucket => (.ok (), s.copyToNode key destBucket)

/-- `Date.now()` asks nobody. -/
def Statement.remote : Statement → Bool
  | .dateNow => false
  | _ => true

def Statement.exec (c : Statement) (w : Circumstances) (s : Cluster) :
    Except Failure c.Reply × Cluster :=
  match c.remote, w.outcome with
  | false, _ | true, .succeeded => c.effect w s
  | true, .failed => (.error .library, s)
  | true, .unacknowledged => (.error .library, (c.effect w s).2)

theorem Statement.exec_of_succeeded (c : Statement) {w : Circumstances}
    (hw : w.outcome = .succeeded) (s : Cluster) : c.exec w s = c.effect w s := by
  rw [exec, hw]
  cases c.remote <;> rfl

abbrev Service := Prog Statement Statement.Reply Failure

/-! ### The interfaces of the repositories and of the node storage -/

abbrev dateNow : Service Nat := Prog.perform Statement.dateNow

namespace NodeRepository

abbrev listAll : Service (List StorageNodeRecord) := Prog.perform Statement.listAll

abbrev listHealthy : Service (List StorageNodeRecord) := Prog.perform Statement.listHealthy

abbrev findByName (name : String) : Service (Option StorageNodeRecord) :=
  Prog.perform (Statement.findByName name)

abbrev incrementUsedBytes (id : Uuid) (deltaBytes : Nat) : Service Unit :=
  Prog.perform (Statement.incrementUsedBytes id deltaBytes)

abbrev setHealth (id : Uuid) (isHealthy : Bool) (heartbeatAt : Nat) : Service Unit :=
  Prog.perform (Statement.setHealth id isHealthy heartbeatAt)

abbrev markStale (id : Uuid) : Service Unit := Prog.perform (Statement.markStale id)

end NodeRepository

namespace ReplicaRepository

abbrev listByChunk (chunkId : Uuid) : Service (List ChunkReplicaRecord) :=
  Prog.perform (Statement.listByChunk chunkId)

abbrev listByNodeIds (nodeIds : List Uuid) : Service (List ChunkReplicaRecord) :=
  Prog.perform (Statement.listByNodeIds nodeIds)

abbrev listNodeIdsForChunk (chunkId : Uuid) : Service (List Uuid) :=
  Prog.perform (Statement.listNodeIdsForChunk chunkId)

abbrev markLost (replicaId : Nat) : Service Unit := Prog.perform (Statement.markLost replicaId)

abbrev listUnderReplicated (desiredCount : Nat) : Service (List UnderReplicatedChunk) :=
  Prog.perform (Statement.listUnderReplicated desiredCount)

abbrev upsert (chunkId nodeId : Uuid) (storageKey : String) (sizeBytes : Nat)
    (status : ReplicaStatus) : Service ChunkReplicaRecord :=
  Prog.perform (Statement.upsert chunkId nodeId storageKey sizeBytes status)

end ReplicaRepository

abbrev NodeStorage.copyToNode (sourceBucket key destBucket : String) : Service Unit :=
  Prog.perform (Statement.copyToNode sourceBucket key destBucket)

/-! ### `ReplicationService` -/

structure ReplicationServiceOptions where
  replicationFactor : Nat
  primaryBucket : String

def ReplicationServiceOptions.sample : ReplicationServiceOptions := ⟨2, "intellistore-chunks"⟩

namespace ReplicationService
variable (options : ReplicationServiceOptions)

def replicateToNode (storageKey : String) (sizeBytes : Nat) (node : StorageNodeRecord) :
    Service Unit := do
  NodeStorage.copyToNode options.primaryBucket storageKey node.bucket
  NodeRepository.incrementUsedBytes node.id sizeBytes

/-- The loop of `copyToTargets`. -/
def copyToEach (chunkId : Uuid) (storageKey : String) (sizeBytes : Nat) :
    List StorageNodeRecord → List ChunkReplicaRecord → Service (List ChunkReplicaRecord)
  | [], results => pure results
  | node :: targets, results => do
    let results ←
      try
        replicateToNode options storageKey sizeBytes node
        let replica ← ReplicaRepository.upsert chunkId node.id storageKey sizeBytes .synced
        pure (results ++ [replica])
      -- the node is skipped; what was done on it before the error stays
      catch _ => pure results
    copyToEach chunkId storageKey sizeBytes targets results

def copyToTargets (chunkId : Uuid) (storageKey : String) (sizeBytes : Nat)
    (targets : List StorageNodeRecord) : Service (List ChunkReplicaRecord) := do
  let results ← copyToEach options chunkId storageKey sizeBytes targets []
  if results.length = 0 then
    throw (.error ("Failed to replicate chunk " ++ uuidOut chunkId ++ " to any node"))
  else pure results

def replicateChunk (chunkId : Uuid) (storageKey : String) (sizeBytes : Nat) :
    Service (List ChunkReplicaRecord) := do
  let healthyNodes ← NodeRepository.listHealthy
  if healthyNodes.length = 0 then
    throw (.error "No healthy storage nodes available for replication")
  else
    copyToTargets options chunkId storageKey sizeBytes
      (healthyNodes.take options.replicationFactor)

def healChunk (chunkId : Uuid) (storageKey : String) (sizeBytes neededCount : Nat)
    (excludeNodeIds : List Uuid) : Service (List ChunkReplicaRecord) :=
  if neededCount = 0 then pure []
  else do
    let healthyNodes ← NodeRepository.listHealthy
    let targets :=
      (healthyNodes.filter fun node => !excludeNodeIds.contains node.id).take neededCount
    if targets.length = 0 then pure []
    else copyToTargets options chunkId storageKey sizeBytes targets

def listReplicas (chunkId : Uuid) : Service (List ChunkReplicaRecord) :=
  ReplicaRepository.listByChunk chunkId

def listNodes : Service (List StorageNodeRecord) := NodeRepository.listAll

structure Diagnostics where
  totalNodes : Nat
  healthyNodes : Nat
  unhealthyNodes : Nat
  underReplicatedChunkCount : Nat
  deriving DecidableEq

def getDiagnostics : Service Diagnostics := do
  let nodes ← NodeRepository.listAll
  let healthyNodes := (nodes.filter (·.isHealthy)).length
  let underReplicated ← ReplicaRepository.listUnderReplicated options.replicationFactor
  pure ⟨nodes.length, healthyNodes, nodes.length - healthyNodes, underReplicated.length⟩

/-- The handler of the chunk-uploaded subscription. -/
def onChunkUploaded : List ChunkUploadedEvent → Service Unit
  | [] => pure ()
  | chunk :: chunks => do
    let _ ← replicateChunk options chunk.chunkId chunk.storageKey chunk.sizeBytes
    onChunkUploaded chunks

end ReplicationService

/-! ### `SelfHealingService`, with the options of the `ReplicationService` beside it -/

namespace SelfHealingService
variable (options : ReplicationServiceOptions)

def markEachLost : List ChunkReplicaRecord → Service Unit
  | [] => pure ()
  | replica :: replicas => do
    ReplicaRepository.markLost replica.id
    markEachLost replicas

def markReplicasOnUnhealthyNodesLost : Service Unit := do
  let nodes ← NodeRepository.listAll
  let unhealthyNodeIds := (nodes.filter (!·.isHealthy)).map StorageNodeRecord.id
  if unhealthyNodeIds.length = 0 then pure ()
  else
    let replicas ← ReplicaRepository.listByNodeIds unhealthyNodeIds
    markEachLost (replicas.filter (·.status ≠ .lost))

def reconcileEach : List UnderReplicatedChunk → Service Unit
  | [] => pure ()
  | chunk :: chunks => do
    let needed := options.replicationFactor - chunk.syncedCount
    -- a node with a row of any status is no target, a lost one included
    let existingNodeIds ← ReplicaRepository.listNodeIdsForChunk chunk.chunkId
    try
      let _ ← ReplicationService.healChunk options chunk.chunkId chunk.storageKey chunk.sizeBytes
        needed existingNodeIds
      pure ()
    catch _ => pure ()
    reconcileEach chunks

def reconcileUnderReplicatedChunks : Service Unit := do
  let underReplicated ← ReplicaRepository.listUnderReplicated options.replicationFactor
  reconcileEach options underReplicated

def healOnce : Service Unit := do
  markReplicasOnUnhealthyNodesLost
  reconcileUnderReplicatedChunks options

end SelfHealingService

/-! ### `HeartbeatMonitor` and `heartbeatRouter` -/

namespace HeartbeatMonitor

def isStale (staleMs now : Nat) (node : StorageNodeRecord) : Bool :=
  match node.lastHeartbeatAt with
  | none => true
  | some lastBeat => lastBeat + staleMs < now

def sweepEach (staleMs now : Nat) : List StorageNodeRecord → Service Unit
  | [] => pure ()
  | node :: nodes => do
    if node.isHealthy && isStale staleMs now node then NodeRepository.markStale node.id
    sweepEach staleMs now nodes

def sweepOnce (staleMs now : Nat) : Service Unit := do
  let nodes ← NodeRepository.listAll
  sweepEach staleMs now nodes

/-- A sweep as the timer starts it. -/
def tick (staleMs : Nat) : Service Unit := do
  let now ← dateNow
  sweepOnce staleMs now

end HeartbeatMonitor

/-- `POST /nodes/:name/heartbeat`. -/
def postHeartbeat (name : String) : Service Unit := do
  match ← NodeRepository.findByName name with
  | none => throw (.app (.notFound ("Unknown node: " ++ name)))
  | some node =>
    let now ← dateNow
    NodeRepository.setHealth node.id true now

/-! ### The operations of the service -/

inductive Operation where
  | replicateChunk (chunk : ChunkUploadedEvent)
  | heartbeat (name : String)
  | stalenessSweep (staleMs : Nat)
  | healingSweep

def Operation.service (options : ReplicationServiceOptions) : Operation → Service Unit
  | .replicateChunk chunk => ReplicationService.onChunkUploaded options [chunk]
  | .heartbeat name => postHeartbeat name
  | .stalenessSweep staleMs => HeartbeatMonitor.tick staleMs
  | .healingSweep => SelfHealingService.healOnce options

/-- One operation to its end, each of its statements in the circumstances it meets. -/
def operate (options : ReplicationServiceOptions) (s : Cluster)
    (op : Operation × (Nat → Circumstances)) : Except Failure Unit × Cluster :=
  (op.1.service options).run Statement.exec op.2 s

end IntelliStore.Replication
