import IntelliStore.Library.RelyGuarantee
import IntelliStore.Replication.ClusterSpec
import IntelliStore.Replication.Services

/-! Rules for the services under any contract: what each of them may issue, and its loops. -/

namespace IntelliStore.Replication
open Library Postgres

/-- A statement leaves the cluster as it was or has its effect. -/
theorem Statement.exec_cases (c : Statement) (w : Circumstances) (s : Cluster) :
    (c.exec w s).2 = s ∨ (c.exec w s).2 = (c.effect w s).2 := by
  unfold exec
  split
  · exact .inr rfl
  · exact .inr rfl
  · exact .inl rfl
  · exact .inr rfl

/-- A statement that answers has had its effect. -/
theorem Statement.exec_ok {c : Statement} {w : Circumstances} {s : Cluster} {a : c.Reply}
    (h : (c.exec w s).1 = .ok a) : c.exec w s = c.effect w s := by
  unfold exec at h ⊢
  split at h
  · rfl
  · rfl
  · cases h
  · cases h

/-- A statement that reads replies with what it finds, or fails. -/
theorem Statement.exec_read {c : Statement} {w : Circumstances} {s : Cluster} {x : c.Reply}
    (hread : c.effect w s = (.ok x, s)) :
    c.exec w s = (.ok x, s) ∨ ∃ e, c.exec w s = (.error e, s) := by
  unfold exec
  split
  · exact .inl hread
  · exact .inl hread
  · exact .inr ⟨_, rfl⟩
  · rw [hread]
    exact .inr ⟨_, rfl⟩

/-! ### What the services issue -/

section
variable {K : Statement → Prop}

theorem onlyIssues_markEachLost (hK : ∀ replicaId, K (.markLost replicaId))
    (replicas : List ChunkReplicaRecord) :
    (SelfHealingService.markEachLost replicas).OnlyIssues K := by
  induction replicas with
  | nil => trivial
  | cons replica replicas ih =>
    exact Prog.onlyIssues_bind (Prog.onlyIssues_perform (hK replica.id)) fun _ => ih

theorem onlyIssues_markReplicasOnUnhealthyNodesLost (hlist : K .listAll)
    (hread : ∀ nodeIds, K (.listByNodeIds nodeIds)) (hK : ∀ replicaId, K (.markLost replicaId)) :
    SelfHealingService.markReplicasOnUnhealthyNodesLost.OnlyIssues K := by
  apply Prog.onlyIssues_bind (Prog.onlyIssues_perform hlist)
  intro nodes
  dsimp only
  split_ifs
  · trivial
  · apply Prog.onlyIssues_bind (Prog.onlyIssues_perform (hread _))
    exact fun replicas => onlyIssues_markEachLost hK _

theorem onlyIssues_sweepEach (hK : ∀ id, K (.markStale id)) (staleMs now : Nat)
    (nodes : List StorageNodeRecord) :
    (HeartbeatMonitor.sweepEach staleMs now nodes).OnlyIssues K := by
  induction nodes with
  | nil => trivial
  | cons node nodes ih =>
    rw [HeartbeatMonitor.sweepEach]
    split_ifs
    · exact Prog.onlyIssues_bind (Prog.onlyIssues_perform (hK node.id)) fun _ => ih
    · exact ih

theorem onlyIssues_tick (hnow : K .dateNow) (hlist : K .listAll) (hK : ∀ id, K (.markStale id))
    (staleMs : Nat) : (HeartbeatMonitor.tick staleMs).OnlyIssues K := by
  apply Prog.onlyIssues_bind (Prog.onlyIssues_perform hnow)
  intro now
  apply Prog.onlyIssues_bind (Prog.onlyIssues_perform hlist)
  exact fun nodes => onlyIssues_sweepEach hK staleMs now nodes

theorem onlyIssues_postHeartbeat (hfind : ∀ name, K (.findByName name)) (hnow : K .dateNow)
    (hK : ∀ id isHealthy heartbeatAt, K (.setHealth id isHealthy heartbeatAt)) (name : String) :
    (postHeartbeat name).OnlyIssues K := by
  apply Prog.onlyIssues_bind (Prog.onlyIssues_perform (hfind name))
  rintro (_ | node)
  · trivial
  · apply Prog.onlyIssues_bind (Prog.onlyIssues_perform hnow)
    exact fun now => Prog.onlyIssues_perform (hK node.id true now)

end

/-! ### Loops -/

section
variable {S : Type} {w : Contract Statement Statement.Reply Failure Circumstances S}
  (options : ReplicationServiceOptions) (chunkId : Uuid) (storageKey : String) (sizeBytes : Nat)

/-- One target of `copyToTargets`. -/
def placeOn (node : StorageNodeRecord) : Service ChunkReplicaRecord := do
  ReplicationService.replicateToNode options storageKey sizeBytes node
  ReplicaRepository.upsert chunkId node.id storageKey sizeBytes .synced

/-- `replicateChunk` after its query. -/
def replicateOnto (healthyNodes : List StorageNodeRecord) : Service (List ChunkReplicaRecord) :=
  if healthyNodes.length = 0 then
    throw (.error "No healthy storage nodes available for replication")
  else
    ReplicationService.copyToTargets options chunkId storageKey sizeBytes
      (healthyNodes.take options.replicationFactor)

theorem replicateChunk_eq : ReplicationService.replicateChunk options chunkId storageKey sizeBytes =
    NodeRepository.listHealthy >>= replicateOnto options chunkId storageKey sizeBytes := rfl

/-- `Inv` of the replicas recorded so far, after one more target. -/
def tallied (Inv : List ChunkReplicaRecord → S → Prop) (results : List ChunkReplicaRecord) :
    Except Failure ChunkReplicaRecord → S → Prop
  | .ok replica, t => Inv (results ++ [replica]) t
  | .error _, t => Inv results t

theorem sat_copyToEach (Inv : List StorageNodeRecord → List ChunkReplicaRecord → S → Prop)
    (hnode : ∀ node targets results x, Inv (node :: targets) results x →
      (placeOn options chunkId storageKey sizeBytes node).sat w (tallied (Inv targets) results) x)
    {targets : List StorageNodeRecord} {results : List ChunkReplicaRecord} {x : S}
    (hx : Inv targets results x) :
    (ReplicationService.copyToEach options chunkId storageKey sizeBytes targets results).sat w
      (fun r t => ∃ results, r = .ok results ∧ Inv [] results t) x := by
  induction targets generalizing results x with
  | nil => exact ⟨results, rfl, hx⟩
  | cons node targets ih =>
    rw [ReplicationService.copyToEach, Prog.sat_bind, Prog.sat_tryCatch, Prog.sat_bind]
    refine Prog.sat_mono ?_ ((Prog.sat_bind _ _).mp (hnode node targets results x hx))
    rintro (e | done) t ht
    · exact ih ht
    · refine (Prog.sat_bind _ _).mpr (Prog.sat_mono ?_ ht)
      rintro (e | replica) u hu
      · exact ih hu
      · exact ih hu

theorem sat_copyToTargets_tallied (targets : List StorageNodeRecord)
    (Inv : List StorageNodeRecord → List ChunkReplicaRecord → S → Prop)
    (hnode : ∀ node targets results x, Inv (node :: targets) results x →
      (placeOn options chunkId storageKey sizeBytes node).sat w (tallied (Inv targets) results) x)
    {x : S} (hx : Inv targets [] x) :
    (ReplicationService.copyToTargets options chunkId storageKey sizeBytes targets).sat w
      (fun r t => ∃ results, Inv [] results t ∧ ∀ rows, r = .ok rows ↔ results = rows ∧ rows ≠ [])
      x := by
  rw [ReplicationService.copyToTargets, Prog.sat_bind]
  refine Prog.sat_mono ?_ (sat_copyToEach options chunkId storageKey sizeBytes Inv hnode hx)
  rintro _ t ⟨results, rfl, ht⟩
  rw [Prog.sequel]
  split_ifs with hempty
  · refine ⟨results, ht, fun rows => iff_of_false (fun h => by cases h) ?_⟩
    rintro ⟨rfl, hne⟩
    exact hne (List.length_eq_zero_iff.mp hempty)
  · refine ⟨results, ht, fun rows => ⟨fun h => ?_, fun h => by rw [h.1]⟩⟩
    cases h
    exact ⟨rfl, fun h => hempty (List.length_eq_zero_iff.mpr h)⟩

theorem sat_copyToTargets (Inv : List StorageNodeRecord → S → Prop)
    (hnode : ∀ node targets x, Inv (node :: targets) x →
      (placeOn options chunkId storageKey sizeBytes node).sat w (fun _ t => Inv targets t) x)
    {targets : List StorageNodeRecord} {x : S} (hx : Inv targets x) :
    (ReplicationService.copyToTargets options chunkId storageKey sizeBytes targets).sat w
      (fun _ t => Inv [] t) x := by
  refine Prog.sat_mono (fun r t ht => ?_) (sat_copyToTargets_tallied options chunkId
    storageKey sizeBytes targets (fun targets _ => Inv targets) (fun node targets results y hy => ?_) hx)
  · obtain ⟨_, ht, -⟩ := ht
    exact ht
  · refine Prog.sat_mono (fun r t ht => ?_) (hnode node targets y hy)
    cases r <;> exact ht

/-- One chunk of the reconciliation pass. -/
def healListed (chunk : UnderReplicatedChunk) : Service (List ChunkReplicaRecord) := do
  let existingNodeIds ← ReplicaRepository.listNodeIdsForChunk chunk.chunkId
  ReplicationService.healChunk options chunk.chunkId chunk.storageKey chunk.sizeBytes
    (options.replicationFactor - chunk.syncedCount) existingNodeIds

theorem sat_reconcileEach (Inv : List UnderReplicatedChunk → S → Prop) (P : S → Prop)
    (hP : ∀ chunks x, Inv chunks x → P x)
    (hchunk : ∀ chunk chunks x, Inv (chunk :: chunks) x →
      (healListed options chunk).sat w (fun _ t => Inv chunks t) x)
    {chunks : List UnderReplicatedChunk} {x : S} (hx : Inv chunks x) :
    (SelfHealingService.reconcileEach options chunks).sat w (fun _ t => P t) x := by
  induction chunks generalizing x with
  | nil => exact hP [] x hx
  | cons chunk chunks ih =>
    rw [SelfHealingService.reconcileEach, Prog.sat_bind]
    refine Prog.sat_mono ?_ ((Prog.sat_bind _ _).mp (hchunk chunk chunks x hx))
    rintro (e | existingNodeIds) t ht
    · exact hP chunks t ht
    -- what `healChunk` throws is caught, so the next chunk follows either way
    · refine (Prog.sat_bind _ _).mpr ((Prog.sat_tryCatch _ _).mpr
        ((Prog.sat_bind _ _).mpr (Prog.sat_mono ?_ ht)))
      rintro (e | replicas) u hu
      · exact ih hu
      · exact ih hu

end
end IntelliStore.Replication
