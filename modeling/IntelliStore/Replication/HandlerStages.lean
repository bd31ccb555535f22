import IntelliStore.Replication.Services

/-! How far the handler of a chunk-uploaded event has got, and with which outcomes of its next
statement it throws. -/

namespace IntelliStore.Replication
open Library Postgres

/-- A statement of the loop of `copyToTargets` for one node. -/
inductive TargetCall where
  | copyToNode
  | incrementUsedBytes
  | upsert

/-- The handler is about to read the nodes for the next of the chunks, or to make a call on a node
for `chunk`, with `targets` still to come and `results` from the nodes before. -/
inductive Stage where
  | reading (chunks : List ChunkUploadedEvent)
  | copying (call : TargetCall) (node : StorageNodeRecord) (targets : List StorageNodeRecord)
      (results : List ChunkReplicaRecord) (chunk : ChunkUploadedEvent)
      (chunks : List ChunkUploadedEvent)

section
variable (options : ReplicationServiceOptions) (chunk : ChunkUploadedEvent)
  (node : StorageNodeRecord)

def TargetCall.statement : TargetCall → Statement
  | copyToNode => .copyToNode options.primaryBucket chunk.storageKey node.bucket
  | incrementUsedBytes => .incrementUsedBytes node.id chunk.sizeBytes
  | upsert => .upsert chunk.chunkId node.id chunk.storageKey chunk.sizeBytes .synced

/-- The rest of the `try` block, from the call on. -/
def TargetCall.rest (results : List ChunkReplicaRecord) :
    TargetCall → Service (List ChunkReplicaRecord)
  | copyToNode => do
    ReplicationService.replicateToNode options chunk.storageKey chunk.sizeBytes node
    let replica ← ReplicaRepository.upsert chunk.chunkId node.id chunk.storageKey chunk.sizeBytes
      .synced
    pure (results ++ [replica])
  | incrementUsedBytes => do
    NodeRepository.incrementUsedBytes node.id chunk.sizeBytes
    let replica ← ReplicaRepository.upsert chunk.chunkId node.id chunk.storageKey chunk.sizeBytes
      .synced
    pure (results ++ [replica])
  | upsert => do
    let replica ← ReplicaRepository.upsert chunk.chunkId node.id chunk.storageKey chunk.sizeBytes
      .synced
    pure (results ++ [replica])

/-- The handler after the loop over the nodes. -/
def afterTargets (chunks : List ChunkUploadedEvent) (loop : Service (List ChunkReplicaRecord)) :
    Service Unit := do
  let _ ← (do
    let results ← loop
    if results.length = 0 then
      throw (.error ("Failed to replicate chunk " ++ uuidOut chunk.chunkId ++ " to any node"))
    else pure results : Service (List ChunkReplicaRecord))
  ReplicationService.onChunkUploaded options chunks

end

namespace Stage
variable (options : ReplicationServiceOptions)

/-- What is left of the handler. -/
def program : Stage → Service Unit
  | reading chunks => ReplicationService.onChunkUploaded options chunks
  | copying call node targets results chunk chunks =>
    afterTargets options chunk chunks do
      let results ←
        try call.rest options chunk node results
        catch _ => pure results
      ReplicationService.copyToEach options chunk.chunkId chunk.storageKey chunk.sizeBytes targets
        results

/-- The next statement takes the last chance of a chunk: the nodes are not read, or none of them
can be a target, or the call fails on the last target after all the others failed. -/
def Fails (w : Circumstances) (s : Cluster) : Stage → Prop
  | reading _ => w.outcome ≠ .succeeded ∨
    (s.listHealthy w.uuidRank).take options.replicationFactor = []
  | copying call node targets results chunk _ => targets = [] ∧ results = [] ∧
    ∃ e, ((call.statement options chunk node).exec w s).1 = .error e

/-- `p` has thrown if `lost`, and is the handler at another stage if not. -/
def Resumes (lost : Prop) (p : Service Unit) : Prop :=
  (lost ∧ p.threw = true) ∨ (¬lost ∧ ∃ next, p = program options next)

variable {options} {chunk : ChunkUploadedEvent} {chunks : List ChunkUploadedEvent}
  {lost lost' : Prop} {p : Service Unit}

theorem Resumes.congr (h : lost ↔ lost') (hp : Resumes options lost p) :
    Resumes options lost' p := by
  rwa [Resumes, ← h]

/-- After the loop the handler throws, or reads the nodes for the next chunk. -/
theorem resumes_copyToEach (targets : List StorageNodeRecord) (results : List ChunkReplicaRecord) :
    Resumes options (targets = [] ∧ results = []) (afterTargets options chunk chunks
      (ReplicationService.copyToEach options chunk.chunkId chunk.storageKey chunk.sizeBytes targets
        results)) := by
  cases targets with
  | nil =>
    cases results with
    | nil => exact .inl ⟨⟨rfl, rfl⟩, rfl⟩
    | cons row results =>
      refine .inr ⟨?_, .reading chunks, rfl⟩
      rintro ⟨-, ⟨⟩⟩
  | cons node targets =>
    refine .inr ⟨?_, .copying .copyToNode node targets results chunk chunks, rfl⟩
    rintro ⟨⟨⟩, -⟩

/-- A call that fails leaves the nodes that are still to come. -/
theorem resumes_failed {targets : List StorageNodeRecord} {results : List ChunkReplicaRecord}
    {R : Type} (e : Failure) :
    Resumes options (targets = [] ∧ results = [] ∧ ∃ e', (.error e : Except Failure R) = .error e')
      (afterTargets options chunk chunks (ReplicationService.copyToEach options chunk.chunkId
        chunk.storageKey chunk.sizeBytes targets results)) := by
  refine (resumes_copyToEach targets results).congr ?_
  exact and_congr_right fun _ => (and_iff_left ⟨e, rfl⟩).symm

/-- A call that succeeds fails nothing. -/
theorem resumes_done {targets : List StorageNodeRecord} {results : List ChunkReplicaRecord}
    {R : Type} {a : R} (h : ∃ next, p = program options next) :
    Resumes options (targets = [] ∧ results = [] ∧ ∃ e, (.ok a : Except Failure R) = .error e)
      p := by
  refine .inr ⟨?_, h⟩
  rintro ⟨-, -, e, ⟨⟩⟩

theorem resumes_call (call : TargetCall) {node : StorageNodeRecord}
    {targets : List StorageNodeRecord} {results : List ChunkReplicaRecord} {w : Circumstances}
    {s t : Cluster} (h : ((copying call node targets results chunk chunks).program options).step
      Statement.exec w s = some (p, t)) :
    Resumes options (Fails options w s (copying call node targets results chunk chunks)) p := by
  unfold Fails
  cases call with
  | copyToNode =>
    cases h
    show Resumes options (_ ∧ _ ∧ ∃ e, (Statement.exec (.copyToNode _ _ _) w s).1 = .error e) _
    cases (Statement.exec
      (.copyToNode options.primaryBucket chunk.storageKey node.bucket) w s).1 with
    | error e => exact resumes_failed e
    | ok _ =>
      exact resumes_done ⟨.copying .incrementUsedBytes node targets results chunk chunks, rfl⟩
  | incrementUsedBytes =>
    cases h
    show Resumes options
      (_ ∧ _ ∧ ∃ e, (Statement.exec (.incrementUsedBytes _ _) w s).1 = .error e) _
    cases (Statement.exec (.incrementUsedBytes node.id chunk.sizeBytes) w s).1 with
    | error e => exact resumes_failed e
    | ok _ => exact resumes_done ⟨.copying .upsert node targets results chunk chunks, rfl⟩
  | upsert =>
    cases h
    show Resumes options (_ ∧ _ ∧ ∃ e, (Statement.exec (.upsert _ _ _ _ _) w s).1 = .error e) _
    cases (Statement.exec
      (.upsert chunk.chunkId node.id chunk.storageKey chunk.sizeBytes .synced) w s).1 with
    | error e => exact resumes_failed e
    | ok row =>
      -- the new row keeps the handler from throwing after the loop
      have hloop : Resumes options (targets = [] ∧ results ++ [row] = [])
          (afterTargets options chunk chunks (ReplicationService.copyToEach options chunk.chunkId
            chunk.storageKey chunk.sizeBytes targets (results ++ [row]))) := resumes_copyToEach _ _
      apply resumes_done
      rcases hloop with ⟨⟨-, hnil⟩, -⟩ | ⟨-, hnext⟩
      · exact absurd hnil (List.append_ne_nil_of_right_ne_nil _ (List.cons_ne_nil _ _))
      · exact hnext

theorem resumes_nodes (nodes : List StorageNodeRecord) :
    Resumes options (nodes.take options.replicationFactor = [])
      ((if nodes.length = 0 then
          throw (.error "No healthy storage nodes available for replication")
        else ReplicationService.copyToTargets options chunk.chunkId chunk.storageKey chunk.sizeBytes
          (nodes.take options.replicationFactor) : Service (List ChunkReplicaRecord)) >>=
        fun _ => ReplicationService.onChunkUploaded options chunks) := by
  cases nodes with
  | nil => exact .inl ⟨List.take_nil, rfl⟩
  | cons node nodes =>
    have hne : ¬(node :: nodes).length = 0 := Nat.succ_ne_zero _
    rw [if_neg hne]
    exact (resumes_copyToEach _ []).congr (and_iff_left rfl)

theorem resumes_reading {w : Circumstances} {s t : Cluster}
    (h : ((reading chunks).program options).step Statement.exec w s = some (p, t)) :
    Resumes options (Fails options w s (reading chunks)) p := by
  cases chunks with
  | nil => cases h
  | cons chunk chunks =>
    unfold Fails
    cases hw : w.outcome with
    | succeeded =>
      have hread : (Statement.exec .listHealthy w s).1 = .ok (s.listHealthy w.uuidRank) := by
        rw [Statement.exec_of_succeeded _ hw]
        rfl
      cases h
      rw [hread]
      exact (resumes_nodes _).congr (or_iff_right fun h => h rfl).symm
    | _ =>
      cases h
      refine .inl ⟨.inl Outcome.noConfusion, ?_⟩
      simp only [Statement.exec, Statement.remote, hw]
      rfl

theorem resumes_step (stage : Stage) {w : Circumstances} {s t : Cluster}
    (h : (stage.program options).step Statement.exec w s = some (p, t)) :
    Resumes options (stage.Fails options w s) p := by
  cases stage with
  | reading chunks => exact resumes_reading h
  | copying call => exact resumes_call call h

/-- The work of a stage is not done by throwing. -/
theorem program_threw (options : ReplicationServiceOptions) (stage : Stage) :
    (stage.program options).threw = false := by
  cases stage with
  | reading chunks => cases chunks <;> rfl
  | copying call => cases call <;> rfl

/-- The handler throws at its next statement exactly if that statement fails it. -/
theorem threw_iff {stage : Stage} {w : Circumstances} {s t : Cluster}
    (h : (stage.program options).step Statement.exec w s = some (p, t)) :
    p.threw = true ↔ stage.Fails options w s := by
  rcases resumes_step stage h with ⟨hlost, hp⟩ | ⟨hlost, next, rfl⟩
  · exact iff_of_true hp hlost
  · exact iff_of_false (by rw [program_threw]; decide) hlost

end Stage
end IntelliStore.Replication
