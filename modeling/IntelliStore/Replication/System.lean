import IntelliStore.Library.Runs
import IntelliStore.Replication.Services
import IntelliStore.Storage.UploadService

/-! From the uploads of the storage-service to the replicas: the publications, the queue of the
replication-service, the event it handles, and its heartbeats and sweeps, one statement at a
time. -/

namespace IntelliStore.Replication
open Library Postgres Metadata

/-- `registered` are the chunks of the versions that metadata-service holds. -/
structure System where
  cluster : Cluster
  registered : List ChunkRecord
  queue : List ChunkUploadedBatchEvent
  handler : Option (ChunkUploadedBatchEvent × Service Unit)
  others : List (Service Unit)

def System.init (cluster : Cluster) : System := ⟨cluster, [], [], none, []⟩

/-- No event is in flight or being handled. -/
def System.Quiescent (s : System) : Prop := s.queue = [] ∧ s.handler = none

inductive Action where
  | upload (fileId : String) (ownerId : Uuid) (fileName : String) (result : VersionDetail)
      (published : Bool)
  | deliver
  | handle (w : Circumstances)
  | settle
  | begin (op : Operation)
  | proceed (i : Nat) (w : Circumstances)

/-- `RabbitMqEventPublisher` swallows the error of a publication. A message is acknowledged when
its handler is done and discarded when it throws; the next one is delivered after that. -/
def System.step (options : ReplicationServiceOptions) (s : System) : Action → Option System
  | .upload fileId ownerId fileName result published => some { s with
      registered := s.registered ++ result.chunks
      queue := if published then
          s.queue ++ [Storage.UploadService.chunkUploadedEvent fileId ownerId fileName result]
        else s.queue }
  | .deliver =>
    match s.handler, s.queue with
    | none, event :: queue => some { s with
        queue := queue
        handler := some (event, ReplicationService.onChunkUploaded options event.chunks) }
    | _, _ => none
  | .handle w =>
    match s.handler with
    | some (event, p) =>
      match p.step Statement.exec w s.cluster with
      | some (p, cluster) => some { s with cluster := cluster, handler := some (event, p) }
      | none => none
    | none => none
  | .settle =>
    match s.handler with
    | some (_, .done _) => some { s with handler := none }
    | _ => none
  -- events are handled through the queue alone
  | .begin (.replicateChunk _) => none
  | .begin op => some { s with others := s.others ++ [op.service options] }
  | .proceed i w =>
    match s.others[i]? with
    | some p =>
      match p.step Statement.exec w s.cluster with
      | some (p, cluster) => some { s with cluster := cluster, others := s.others.set i p }
      | none => none
    | none => none

end IntelliStore.Replication
