import IntelliStore.Library.RelyGuarantee
import IntelliStore.Library.Runs
import IntelliStore.Replication.Services

/-! Calls of the replication-service in progress at the same time, one statement at a time. What
is recorded beside the cluster is for the statements about runs; no call reads it. -/

namespace IntelliStore.Replication
open Library Postgres

/-- A node that `markStale` has marked: the heartbeat recorded for it then, and the time. -/
structure Marking where
  lastHeartbeatAt : Option Nat
  time : Nat
  deriving DecidableEq

/-- `handled` are the chunks whose events have been handed to the handler. -/
structure Shared where
  cluster : Cluster
  clock : Nat
  handled : List Uuid
  markings : List Marking

def Shared.init (cluster : Cluster) : Shared := ⟨cluster, 0, [], []⟩

/-- What a call has set out to do: the chunks it works on or still has to, the nodes it read. -/
structure Notes where
  working : List Uuid
  nodes : List StorageNodeRecord
  deriving DecidableEq

def Statement.note : (c : Statement) → Except Failure c.Reply → Notes → Notes
  | .listAll, .ok nodes, notes => { notes with nodes := nodes }
  | .listUnderReplicated _, .ok chunks, notes =>
    { notes with working := chunks.map UnderReplicatedChunk.chunkId }
  -- the chunks before this one are done with
  | .listNodeIdsForChunk chunkId, _, notes =>
    { notes with working := notes.working.dropWhile (· ≠ chunkId) }
  | _, _, notes => notes

def Statement.marks (w : Circumstances) (s : Cluster) : Statement → List Marking
  | .markStale id =>
    if w.outcome = .failed then []
    else (s.nodes.filter (·.id = id)).map fun node => ⟨node.lastHeartbeatAt, w.now⟩
  | _ => []

/-- One statement of a call among others. -/
def Statement.perform (c : Statement) (w : Circumstances) (x : Shared × Notes) :
    Except Failure c.Reply × (Shared × Notes) :=
  let res := c.exec w x.1.cluster
  (res.1, { x.1 with
    cluster := res.2
    clock := w.now
    markings := x.1.markings ++ c.marks w x.1.cluster }, c.note res.1 x.2)

inductive Call where
  | operation (op : Operation)
  | healChunk (chunk : ChunkUploadedEvent) (neededCount : Nat) (excludeNodeIds : List Uuid)
  | setHealth (id : Uuid) (isHealthy : Bool) (heartbeatAt : Nat)

namespace Call
variable (options : ReplicationServiceOptions)

def service : Call → Service Unit
  | .operation op => op.service options
  | .healChunk chunk neededCount excludeNodeIds => do
    let _ ← ReplicationService.healChunk options chunk.chunkId chunk.storageKey chunk.sizeBytes
      neededCount excludeNodeIds
    pure ()
  | .setHealth id isHealthy heartbeatAt => NodeRepository.setHealth id isHealthy heartbeatAt

/-- The chunk of the event that the call handles. -/
def event : Call → List Uuid
  | .operation (.replicateChunk chunk) => [chunk.chunkId]
  | _ => []

def start (call : Call) (s : Shared) : Shared × (Notes × Service Unit) :=
  ({ s with handled := s.handled ++ call.event }, ⟨call.event, []⟩, call.service options)

end Call

abbrev Calls := Pool Statement Statement.Reply Failure Unit Notes Shared

namespace Calls

abbrev Action := Pool.Action Call Circumstances

def init (cluster : Cluster) : Calls := ⟨.init cluster, []⟩

def step (options : ReplicationServiceOptions) : Calls → Action → Option Calls :=
  Pool.step Statement.perform (Call.start options)

end Calls
end IntelliStore.Replication
