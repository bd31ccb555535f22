import IntelliStore.Replication.ClusterSpec
import IntelliStore.Replication.Services

/-! The services when they run alone and every statement succeeds. -/

namespace IntelliStore.Replication
open Library Postgres

def undisturbed : Semantics Statement Statement.Reply Failure Circumstances Cluster where
  exec := Statement.exec
  allowed w := w.outcome = .succeeded
  rely := Eq

theorem wp_query {c : Statement} {Q : Except Failure c.Reply → Cluster → Prop} {s : Cluster} :
    (Prog.perform c : Service c.Reply).wp undisturbed Q s ↔
      ∀ w, w.outcome = .succeeded → Q (c.effect w s).1 (c.effect w s).2 := by
  rw [Prog.wp_perform]
  constructor
  · intro h w hw
    rw [← c.exec_of_succeeded hw]
    exact h s rfl w hw
  · rintro h t rfl w hw
    have hexec : undisturbed.exec c w s = c.effect w s := c.exec_of_succeeded hw s
    rw [hexec]
    exact h w hw

/-! ### The marking pass -/

theorem wp_markEachLost (replicas : List ChunkReplicaRecord) (s : Cluster) :
    (SelfHealingService.markEachLost replicas).wp undisturbed (fun r t => r = .ok () ∧
      t.nodes = s.nodes ∧ t.replicas = s.replicas.map fun q =>
        if q.id ∈ replicas.map ChunkReplicaRecord.id then { q with status := .lost } else q) s := by
  induction replicas generalizing s with
  | nil => exact ⟨rfl, rfl, by simp⟩
  | cons replica replicas ih =>
    rw [SelfHealingService.markEachLost, Prog.wp_bind]
    refine wp_query.mpr fun w _ => Prog.wp_mono ?_ (ih (s.markLost replica.id))
    rintro r t ⟨hr, hnodes, hreplicas⟩
    refine ⟨hr, hnodes, hreplicas.trans ?_⟩
    rw [Cluster.markLost, Cluster.updateReplicas]
    simp only [decide_eq_true_iff]
    exact map_update_cons (f := ChunkReplicaRecord.id) (g := fun q => { q with status := .lost })
      (fun _ => rfl) (fun _ => rfl) replica.id _ _

def Cluster.unhealthyNodeIds (s : Cluster) : List Uuid :=
  (s.listAll.filter (!·.isHealthy)).map StorageNodeRecord.id

theorem Cluster.mem_unhealthyNodeIds {s : Cluster} {node : StorageNodeRecord}
    (hn : node ∈ s.nodes) : node.id ∈ s.unhealthyNodeIds ↔ node.isHealthy = false := by
  simp only [unhealthyNodeIds, List.mem_map, List.mem_filter, mem_listAll, Bool.not_eq_true']
  constructor
  · rintro ⟨node', ⟨hn', hhealth⟩, hid⟩
    rw [← s.node_unique hn' hn hid, hhealth]
  · exact fun h => ⟨node, ⟨hn, h⟩, rfl⟩

/-- A row as the marking pass leaves it. -/
def Cluster.marked (s : Cluster) (r : ChunkReplicaRecord) : ChunkReplicaRecord :=
  if s.unhealthyNodeIds.contains r.nodeId then { r with status := .lost } else r

theorem Cluster.marked_of_mem {s : Cluster} {r : ChunkReplicaRecord}
    (h : r.nodeId ∈ s.unhealthyNodeIds) : s.marked r = { r with status := .lost } :=
  if_pos (List.contains_iff_mem.mpr h)

theorem Cluster.marked_of_notMem {s : Cluster} {r : ChunkReplicaRecord}
    (h : r.nodeId ∉ s.unhealthyNodeIds) : s.marked r = r :=
  if_neg fun hmem => h (List.contains_iff_mem.mp hmem)

theorem wp_markReplicasOnUnhealthyNodesLost (s : Cluster) :
    SelfHealingService.markReplicasOnUnhealthyNodesLost.wp undisturbed (fun r t =>
      r = .ok () ∧ t.nodes = s.nodes ∧ t.replicas = s.replicas.map s.marked) s := by
  rw [SelfHealingService.markReplicasOnUnhealthyNodesLost, Prog.wp_bind]
  refine wp_query.mpr fun w _ => ?_
  show Prog.wp undisturbed _ (if s.unhealthyNodeIds.length = 0 then _ else _) s
  split_ifs with hempty
  · refine ⟨rfl, rfl, ?_⟩
    rw [List.map_congr_left (g := id) fun r _ => ?_, List.map_id]
    refine Cluster.marked_of_notMem ?_
    rw [List.length_eq_zero_iff.mp hempty]
    exact List.not_mem_nil
  · rw [Prog.wp_bind]
    refine wp_query.mpr fun w' _ => Prog.wp_mono ?_ (wp_markEachLost _ s)
    rintro r t ⟨hr, hnodes, hreplicas⟩
    refine ⟨hr, hnodes, hreplicas.trans (List.map_congr_left fun q hq => ?_)⟩
    have hmem : q.id ∈ ((s.listByNodeIds w'.rowRank s.unhealthyNodeIds).filter
        (·.status ≠ .lost)).map ChunkReplicaRecord.id ↔
          q.nodeId ∈ s.unhealthyNodeIds ∧ q.status ≠ .lost := by
      simp only [List.mem_map, List.mem_filter, Cluster.mem_listByNodeIds, decide_eq_true_iff]
      constructor
      · rintro ⟨r, ⟨⟨hr, hnode⟩, hstatus⟩, hid⟩
        rw [← s.replica_unique hr hq hid]
        exact ⟨hnode, hstatus⟩
      · exact fun h => ⟨q, ⟨⟨hq, h.1⟩, h.2⟩, rfl⟩
    -- a row that is lost already is left out of the pass, which changes nothing
    have hkeep : q.status = .lost → { q with status := .lost } = q := fun h => by rw [← h]
    show (if q.id ∈ ((s.listByNodeIds w'.rowRank s.unhealthyNodeIds).filter
      (·.status ≠ .lost)).map ChunkReplicaRecord.id then _ else _) = s.marked q
    by_cases hnode : q.nodeId ∈ s.unhealthyNodeIds
    · rw [Cluster.marked_of_mem hnode]
      by_cases hlost : q.status = .lost
      · rw [if_neg fun h => (hmem.mp h).2 hlost, hkeep hlost]
      · rw [if_pos (hmem.mpr ⟨hnode, hlost⟩)]
    · rw [Cluster.marked_of_notMem hnode, if_neg fun h => hnode (hmem.mp h).1]

/-! ### Copies to nodes that have no row for the chunk -/

/-- `u` is `t` with one more synced row of the chunk for each target. -/
structure Placed (t u : Cluster) (chunkId : Uuid) (targets : List StorageNodeRecord)
    (new : List ChunkReplicaRecord) : Prop where
  nodes : u.nodes.map StorageNodeRecord.emptied = t.nodes.map StorageNodeRecord.emptied
  replicas : u.replicas = t.replicas ++ new
  rows : new.map (fun r => (r.chunkId, r.nodeId, r.status)) =
    targets.map fun node => (chunkId, node.id, .synced)

theorem Placed.length {t u : Cluster} {chunkId : Uuid} {targets : List StorageNodeRecord}
    {new : List ChunkReplicaRecord} (h : Placed t u chunkId targets new) :
    new.length = targets.length := by
  simpa only [List.length_map] using congrArg List.length h.rows

theorem Placed.row {t u : Cluster} {chunkId : Uuid} {targets : List StorageNodeRecord}
    {new : List ChunkReplicaRecord} (h : Placed t u chunkId targets new) {r : ChunkReplicaRecord}
    (hr : r ∈ new) :
    r.chunkId = chunkId ∧ r.status = .synced ∧ ∃ node ∈ targets, node.id = r.nodeId := by
  have hmem := List.mem_map_of_mem (f := fun r => (r.chunkId, r.nodeId, r.status)) hr
  rw [h.rows] at hmem
  obtain ⟨node, hnode, heq⟩ := List.mem_map.mp hmem
  simp only [Prod.mk.injEq] at heq
  exact ⟨heq.1.symm, heq.2.2.symm, node, hnode, heq.2.1⟩

theorem ids_of_emptied {t u : Cluster}
    (h : u.nodes.map StorageNodeRecord.emptied = t.nodes.map StorageNodeRecord.emptied) :
    u.nodes.map StorageNodeRecord.id = t.nodes.map StorageNodeRecord.id := by
  have := congrArg (List.map StorageNodeRecord.id) h
  rwa [List.map_map, List.map_map] at this

section
variable (options : ReplicationServiceOptions) {chunkId : Uuid} {storageKey : String}
  {sizeBytes : Nat}

theorem wp_copyToEach {targets : List StorageNodeRecord} (results : List ChunkReplicaRecord)
    {t : Cluster} (hids : (targets.map StorageNodeRecord.id).Nodup)
    (hnodes : ∀ node ∈ targets, node.id ∈ t.nodes.map StorageNodeRecord.id)
    (hnew : ∀ node ∈ targets, ∀ r ∈ t.replicas, r.chunkId = chunkId → r.nodeId ≠ node.id) :
    (ReplicationService.copyToEach options chunkId storageKey sizeBytes targets results).wp
      undisturbed (fun r u =>
        ∃ new, r = .ok (results ++ new) ∧ Placed t u chunkId targets new) t := by
  induction targets generalizing results t with
  | nil => exact ⟨[], by rw [List.append_nil], rfl, by rw [List.append_nil], rfl⟩
  | cons node targets ih =>
    rw [ReplicationService.copyToEach, Prog.wp_bind, Prog.wp_tryCatch, Prog.wp_bind,
      ReplicationService.replicateToNode, Prog.wp_bind]
    refine wp_query.mpr fun w₁ _ => wp_query.mpr fun w₂ _ => (Prog.wp_bind _ _).mpr ?_
    refine wp_query.mpr fun w₃ _ => ?_
    let t₂ := (t.copyToNode storageKey node.bucket).incrementUsedBytes node.id sizeBytes
    have hids₂ : t₂.nodes.map StorageNodeRecord.id = t.nodes.map StorageNodeRecord.id :=
      Cluster.updateNode_ids
    have hknown : node.id ∈ t₂.nodes.map StorageNodeRecord.id :=
      hids₂ ▸ hnodes node List.mem_cons_self
    obtain ⟨row, t₃, hupsert, hrow, hrows, hnodes₃, -⟩ := Cluster.upsert_new (s := t₂)
      w₃.now storageKey sizeBytes .synced (hnew node List.mem_cons_self) hknown
    have heffect : Statement.effect w₃ t₂
        (.upsert chunkId node.id storageKey sizeBytes .synced) = (.ok row, t₃) := by
      simp only [Statement.effect, hupsert]
    show Prog.follow _ _ _
      (Statement.effect w₃ t₂ (.upsert chunkId node.id storageKey sizeBytes .synced)).1
      (Statement.effect w₃ t₂ (.upsert chunkId node.id storageKey sizeBytes .synced)).2
    rw [heffect]
    show (ReplicationService.copyToEach options chunkId storageKey sizeBytes targets
      (results ++ [row])).wp undisturbed _ t₃
    have hemptied : t₃.nodes.map StorageNodeRecord.emptied =
        t.nodes.map StorageNodeRecord.emptied := by
      rw [hnodes₃]
      exact Cluster.incrementUsedBytes_emptied _ _ _
    obtain ⟨hnotin, hids⟩ := List.nodup_cons.mp hids
    refine Prog.wp_mono ?_ (ih (results ++ [row]) (t := t₃) hids (fun n hn => ?_)
      fun n hn r hr => ?_)
    · rintro r u ⟨new, hr, hplaced⟩
      refine ⟨row :: new, by rw [hr, List.append_assoc]; rfl, hplaced.nodes.trans hemptied, ?_, ?_⟩
      · rw [hplaced.replicas, hrows, List.append_assoc]
        rfl
      · rw [List.map_cons, List.map_cons, hplaced.rows, hrow]
    · rw [ids_of_emptied hemptied]
      exact hnodes n (List.mem_cons_of_mem _ hn)
    · rw [hrows, List.mem_append, List.mem_singleton] at hr
      rcases hr with hr | rfl
      · exact hnew n (List.mem_cons_of_mem _ hn) r hr
      · intro _ heq
        rw [hrow] at heq
        exact hnotin (List.mem_map.mpr ⟨n, hn, heq.symm⟩)

theorem wp_copyToTargets {targets : List StorageNodeRecord} {t : Cluster} (hne : targets ≠ [])
    (hids : (targets.map StorageNodeRecord.id).Nodup)
    (hnodes : ∀ node ∈ targets, node.id ∈ t.nodes.map StorageNodeRecord.id)
    (hnew : ∀ node ∈ targets, ∀ r ∈ t.replicas, r.chunkId = chunkId → r.nodeId ≠ node.id) :
    (ReplicationService.copyToTargets options chunkId storageKey sizeBytes targets).wp undisturbed
      (fun r u => ∃ new, r = .ok new ∧ Placed t u chunkId targets new) t := by
  rw [ReplicationService.copyToTargets, Prog.wp_bind]
  refine Prog.wp_mono ?_ (wp_copyToEach options [] hids hnodes hnew)
  rintro r u ⟨new, rfl, hplaced⟩
  have hlength : new.length ≠ 0 := by
    rw [hplaced.length]
    exact fun h => hne (List.length_eq_zero_iff.mp h)
  rw [List.nil_append, Prog.follow, if_neg hlength]
  exact ⟨new, rfl, hplaced⟩

end

/-- The healthy nodes without a row for the chunk. -/
def Cluster.vacantNodes (s : Cluster) (chunkId : Uuid) : List StorageNodeRecord :=
  s.nodes.filter fun node =>
    node.isHealthy ∧ ∀ r ∈ s.replicas, r.chunkId = chunkId → r.nodeId ≠ node.id

theorem Cluster.mem_vacantNodes {s : Cluster} {chunkId : Uuid} {node : StorageNodeRecord} :
    node ∈ s.vacantNodes chunkId ↔ node ∈ s.nodes ∧ node.isHealthy = true ∧
      ∀ r ∈ s.replicas, r.chunkId = chunkId → r.nodeId ≠ node.id := by
  rw [vacantNodes, List.mem_filter, decide_eq_true_iff]

theorem Cluster.vacantNodes_ids_nodup (s : Cluster) (chunkId : Uuid) :
    ((s.vacantNodes chunkId).map StorageNodeRecord.id).Nodup :=
  s.nodes_pkey.sublist (List.filter_sublist.map _)

/-- The vacant nodes in the order of `listHealthy`. -/
def Cluster.candidates (s : Cluster) (rank : Uuid → Nat) (chunkId : Uuid) :
    List StorageNodeRecord :=
  (s.listHealthy rank).filter fun node =>
    ∀ r ∈ s.replicas, r.chunkId = chunkId → r.nodeId ≠ node.id

theorem Cluster.candidates_perm (s : Cluster) (rank : Uuid → Nat) (chunkId : Uuid) :
    (s.candidates rank chunkId).Perm (s.vacantNodes chunkId) := by
  refine ((s.listHealthy_perm rank).filter _).trans (List.Perm.of_eq ?_)
  rw [List.filter_filter, vacantNodes]
  congr 1
  funext node
  rw [Bool.and_comm, Bool.decide_and, Bool.decide_eq_true]

theorem Cluster.candidates_ids_nodup (s : Cluster) (rank : Uuid → Nat) (chunkId : Uuid) :
    ((s.candidates rank chunkId).map StorageNodeRecord.id).Nodup :=
  ((s.candidates_perm rank chunkId).map _).nodup_iff.mpr (s.vacantNodes_ids_nodup chunkId)

/-- The nodes `healChunk` may choose from. -/
theorem Cluster.candidates_eq (s : Cluster) (chunkId : Uuid) (rank : Uuid → Nat)
    {excludeNodeIds : List Uuid}
    (hexclude : ∀ id, id ∈ excludeNodeIds ↔ ∃ r ∈ s.replicas, r.chunkId = chunkId ∧ r.nodeId = id) :
    (s.listHealthy rank).filter (fun node => !excludeNodeIds.contains node.id) =
      s.candidates rank chunkId := by
  rw [candidates]
  congr 1
  funext node
  rw [List.contains_eq_mem, ← decide_not]
  simp only [hexclude, not_exists, not_and, ne_eq]

/-- As many new replicas as are needed, or as there are nodes for. -/
theorem wp_healChunk (options : ReplicationServiceOptions) {chunkId : Uuid} {storageKey : String}
    {sizeBytes neededCount : Nat} {excludeNodeIds : List Uuid} {t : Cluster}
    (hexclude : ∀ id, id ∈ excludeNodeIds ↔
      ∃ r ∈ t.replicas, r.chunkId = chunkId ∧ r.nodeId = id) :
    (ReplicationService.healChunk options chunkId storageKey sizeBytes neededCount
      excludeNodeIds).wp undisturbed (fun r u => ∃ new targets, r = .ok new ∧
        Placed t u chunkId targets new ∧ (∀ node ∈ targets, node ∈ t.vacantNodes chunkId) ∧
        targets.length = min neededCount (t.vacantNodes chunkId).length) t := by
  have hnone : Placed t t chunkId [] [] := ⟨rfl, by rw [List.append_nil], rfl⟩
  have hnil : ∀ node ∈ ([] : List StorageNodeRecord), node ∈ t.vacantNodes chunkId := by simp
  unfold ReplicationService.healChunk
  split_ifs with hneeded
  · exact ⟨[], [], rfl, hnone, hnil, by rw [hneeded, Nat.zero_min]; rfl⟩
  · rw [Prog.wp_bind]
    refine wp_query.mpr fun w _ => ?_
    let targets := (t.candidates w.uuidRank chunkId).take neededCount
    have hperm := t.candidates_perm w.uuidRank chunkId
    have hlength : targets.length = min neededCount (t.vacantNodes chunkId).length := by
      rw [List.length_take, hperm.length_eq]
    have hvacant : ∀ node ∈ targets, node ∈ t.vacantNodes chunkId := fun node hn =>
      hperm.mem_iff.mp (List.mem_of_mem_take hn)
    have htargets : ((t.listHealthy w.uuidRank).filter fun node =>
        !excludeNodeIds.contains node.id).take neededCount = targets := by
      rw [t.candidates_eq chunkId w.uuidRank hexclude]
    show Prog.wp undisturbed _ (if (List.take _ _).length = 0 then _ else _) t
    rw [htargets]
    split_ifs with hempty
    · exact ⟨[], [], rfl, hnone, hnil, by rw [← hlength, hempty]; rfl⟩
    · have hids : (targets.map StorageNodeRecord.id).Nodup :=
        (t.candidates_ids_nodup w.uuidRank chunkId).sublist ((List.take_sublist _ _).map _)
      have hne : targets ≠ [] := fun h => hempty (List.length_eq_zero_iff.mpr h)
      refine Prog.wp_mono ?_ (wp_copyToTargets options hne hids
        (fun node hn => List.mem_map_of_mem (Cluster.mem_vacantNodes.mp (hvacant node hn)).1)
        fun node hn => (Cluster.mem_vacantNodes.mp (hvacant node hn)).2.2)
      rintro r u ⟨new, hr, hplaced⟩
      exact ⟨new, targets, hr, hplaced, hvacant, hlength⟩

end IntelliStore.Replication
