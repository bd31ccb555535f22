import IntelliStore.Library.Runs
import IntelliStore.Replication.Undisturbed

/-! What one sweep of `SelfHealingService` restores, after any history of the cluster. -/

namespace IntelliStore.Replication
open Library Postgres

/-! ### One sweep -/

section
variable (options : ReplicationServiceOptions)

/-- New rows are synced, on healthy nodes, and of the chunks listed. -/
structure Reconciled (t u : Cluster) (chunkIds : List Uuid) : Prop where
  nodes : u.nodes.map StorageNodeRecord.emptied = t.nodes.map StorageNodeRecord.emptied
  rows : ∃ new, u.replicas = t.replicas ++ new ∧ ∀ r ∈ new, r.chunkId ∈ chunkIds ∧
    r.status = .synced ∧ ∃ node ∈ t.nodes, node.id = r.nodeId ∧ node.isHealthy = true

theorem Reconciled.refl (t : Cluster) : Reconciled t t [] :=
  ⟨rfl, [], by rw [List.append_nil], by simp⟩

/-- The vacant nodes of a chunk are those of before while its rows are. -/
theorem Reconciled.vacantNodes_length {t u : Cluster} {chunkIds : List Uuid}
    (h : Reconciled t u chunkIds) {chunkId : Uuid} (hchunk : chunkId ∉ chunkIds) :
    (u.vacantNodes chunkId).length = (t.vacantNodes chunkId).length := by
  obtain ⟨new, hreplicas, hnew⟩ := h.rows
  have hrows : ∀ id, (∀ r ∈ u.replicas, r.chunkId = chunkId → r.nodeId ≠ id) ↔
      ∀ r ∈ t.replicas, r.chunkId = chunkId → r.nodeId ≠ id := fun id => by
    rw [hreplicas, List.forall_mem_append, and_iff_left]
    exact fun r hr heq => absurd (heq ▸ (hnew r hr).1) hchunk
  simp only [Cluster.vacantNodes, hrows]
  exact Cluster.filter_nodes_length h.nodes fun _ => rfl

theorem Reconciled.syncedCount {t u : Cluster} {chunkIds : List Uuid}
    (h : Reconciled t u chunkIds) {chunkId : Uuid} (hchunk : chunkId ∉ chunkIds) :
    u.syncedCount chunkId = t.syncedCount chunkId := by
  obtain ⟨new, hreplicas, hnew⟩ := h.rows
  rw [Cluster.syncedCount_append hreplicas, List.countP_eq_zero.mpr fun r hr => ?_, Nat.add_zero]
  rw [decide_eq_true_iff]
  exact fun heq => hchunk (heq.1 ▸ (hnew r hr).1)

theorem Reconciled.trans {t u v : Cluster} {chunkIds chunkIds' : List Uuid}
    (h : Reconciled t u chunkIds) (h' : Reconciled u v chunkIds') :
    Reconciled t v (chunkIds ++ chunkIds') := by
  obtain ⟨new, hreplicas, hnew⟩ := h.rows
  obtain ⟨new', hreplicas', hnew'⟩ := h'.rows
  refine ⟨h'.nodes.trans h.nodes, new ++ new', by rw [hreplicas', hreplicas, List.append_assoc],
    List.forall_mem_append.mpr ⟨fun r hr => ?_, fun r hr => ?_⟩⟩
  · obtain ⟨hchunk, hrest⟩ := hnew r hr
    exact ⟨List.mem_append_left _ hchunk, hrest⟩
  · obtain ⟨hchunk, hstatus, node, hn, hid, hhealthy⟩ := hnew' r hr
    obtain ⟨node', hn', heq⟩ := Cluster.exists_node_of_emptied h.nodes.symm hn
    refine ⟨List.mem_append_right _ hchunk, hstatus, node', hn', ?_, ?_⟩
    · exact (congrArg StorageNodeRecord.id heq).trans hid
    · exact (congrArg StorageNodeRecord.isHealthy heq).trans hhealthy

theorem Placed.reconciled {t u : Cluster} {chunkId : Uuid} {targets : List StorageNodeRecord}
    {new : List ChunkReplicaRecord} (h : Placed t u chunkId targets new)
    (htargets : ∀ node ∈ targets, node ∈ t.vacantNodes chunkId) : Reconciled t u [chunkId] := by
  refine ⟨h.nodes, new, h.replicas, fun r hr => ?_⟩
  obtain ⟨hchunk, hstatus, node, hn, hid⟩ := h.row hr
  have hvacant := Cluster.mem_vacantNodes.mp (htargets node hn)
  exact ⟨List.mem_singleton.mpr hchunk, hstatus, node, hvacant.1, hid, hvacant.2.1⟩

theorem Placed.syncedCount {t u : Cluster} {chunkId : Uuid} {targets : List StorageNodeRecord}
    {new : List ChunkReplicaRecord} (h : Placed t u chunkId targets new) :
    u.syncedCount chunkId = t.syncedCount chunkId + targets.length := by
  rw [Cluster.syncedCount_append h.replicas, List.countP_eq_length.mpr fun r hr => ?_, h.length]
  obtain ⟨hchunk, hstatus, -⟩ := h.row hr
  exact decide_eq_true ⟨hchunk, hstatus⟩

theorem wp_reconcileEach {chunks : List UnderReplicatedChunk} {t : Cluster}
    (hnodup : (chunks.map UnderReplicatedChunk.chunkId).Nodup)
    (hcount : ∀ chunk ∈ chunks, chunk.syncedCount = t.syncedCount chunk.chunkId) :
    (SelfHealingService.reconcileEach options chunks).wp undisturbed (fun r u => r = .ok () ∧
      Reconciled t u (chunks.map UnderReplicatedChunk.chunkId) ∧ ∀ chunk ∈ chunks,
        u.syncedCount chunk.chunkId = t.syncedCount chunk.chunkId +
          min (options.replicationFactor - chunk.syncedCount)
            (t.vacantNodes chunk.chunkId).length) t := by
  induction chunks generalizing t with
  | nil => exact ⟨rfl, .refl t, by simp⟩
  | cons chunk chunks ih =>
    obtain ⟨hnotin, hnodup⟩ := List.nodup_cons.mp hnodup
    rw [SelfHealingService.reconcileEach, Prog.wp_bind]
    refine wp_query.mpr fun w _ => (Prog.wp_bind _ _).mpr ((Prog.wp_tryCatch _ _).mpr
      ((Prog.wp_bind _ _).mpr (Prog.wp_mono ?_
        (wp_healChunk options (t := t) fun id => Cluster.mem_listNodeIdsForChunk))))
    rintro r u ⟨new, targets, rfl, hplaced, hvacant, hlength⟩
    -- healing one chunk leaves the rows and the vacant nodes of the others as they are
    have hfirst := hplaced.reconciled hvacant
    have hother : ∀ chunk' ∈ chunks, chunk'.chunkId ∉ [chunk.chunkId] := fun chunk' hc heq =>
      hnotin (List.mem_singleton.mp heq ▸ List.mem_map_of_mem hc)
    show (SelfHealingService.reconcileEach options chunks).wp undisturbed _ u
    refine Prog.wp_mono ?_ (ih hnodup fun chunk' hc => ?_)
    · rintro r v ⟨hr, hrest, hcounts⟩
      refine ⟨hr, hfirst.trans hrest, List.forall_mem_cons.mpr ⟨?_, fun chunk' hc => ?_⟩⟩
      · rw [hrest.syncedCount hnotin, hplaced.syncedCount, hlength]
      · rw [hcounts chunk' hc, hfirst.syncedCount (hother chunk' hc),
          hfirst.vacantNodes_length (hother chunk' hc)]
    · rw [hcount chunk' (List.mem_cons_of_mem _ hc), hfirst.syncedCount (hother chunk' hc)]

end

/-- The rows after the marking pass. -/
structure Marked (s t : Cluster) : Prop where
  nodes : t.nodes = s.nodes
  replicas : t.replicas = s.replicas.map s.marked

theorem Cluster.marked_chunkId (s : Cluster) (r : ChunkReplicaRecord) :
    (s.marked r).chunkId = r.chunkId := by
  rw [marked]
  split <;> rfl

theorem Cluster.marked_nodeId (s : Cluster) (r : ChunkReplicaRecord) :
    (s.marked r).nodeId = r.nodeId := by
  rw [marked]
  split <;> rfl

theorem Marked.synced {s t : Cluster} (h : Marked s t) {r : ChunkReplicaRecord}
    (hr : r ∈ t.replicas) (hstatus : r.status = .synced) :
    ∃ node ∈ t.nodes, node.id = r.nodeId ∧ node.isHealthy = true := by
  obtain ⟨node, hn, hid⟩ := List.mem_map.mp (t.replicas_node_fkey r hr)
  refine ⟨node, hn, hid, ?_⟩
  rw [h.replicas] at hr
  obtain ⟨r₀, -, rfl⟩ := List.mem_map.mp hr
  rw [s.marked_nodeId] at hid
  rw [h.nodes] at hn
  by_contra hunhealthy
  have hmem := (Cluster.mem_unhealthyNodeIds hn).mpr (Bool.not_eq_true _ ▸ hunhealthy)
  rw [Cluster.marked_of_mem (hid ▸ hmem)] at hstatus
  cases hstatus

/-- The healthy nodes that hold no other than a synced row for the chunk. -/
def Cluster.usableNodes (s : Cluster) (chunkId : Uuid) : List StorageNodeRecord :=
  s.nodes.filter fun node => node.isHealthy ∧
    ∀ r ∈ s.replicas, r.chunkId = chunkId → r.nodeId = node.id → r.status = .synced

/-- A usable node is vacant, or its row stays synced. -/
theorem Marked.usableNodes_le {s t : Cluster} (h : Marked s t) (chunkId : Uuid) :
    (s.usableNodes chunkId).length ≤
      t.syncedCount chunkId + (t.vacantNodes chunkId).length := by
  have hids : ((s.usableNodes chunkId).map StorageNodeRecord.id).Nodup :=
    s.nodes_pkey.sublist (List.filter_sublist.map _)
  have hsplit : ∀ id ∈ (s.usableNodes chunkId).map StorageNodeRecord.id,
      id ∈ ((t.rowsOf chunkId).filter fun r => r.status = .synced).map ChunkReplicaRecord.nodeId ++
        (t.vacantNodes chunkId).map StorageNodeRecord.id := fun id hid => by
    obtain ⟨node, hn, rfl⟩ := List.mem_map.mp hid
    simp only [Cluster.usableNodes, List.mem_filter, decide_eq_true_iff] at hn
    obtain ⟨hn, hhealthy, hrows⟩ := hn
    by_cases hrow : ∃ r ∈ s.replicas, r.chunkId = chunkId ∧ r.nodeId = node.id
    · obtain ⟨r, hr, hchunk, hnode⟩ := hrow
      -- the marking pass spares the rows of a healthy node
      have hkept : s.marked r = r := Cluster.marked_of_notMem fun hmem => by
        rw [hnode, Cluster.mem_unhealthyNodeIds hn, hhealthy] at hmem
        cases hmem
      have hmem : r ∈ t.replicas := h.replicas ▸ List.mem_map.mpr ⟨r, hr, hkept⟩
      have hsynced : r.status = .synced := hrows r hr hchunk hnode
      refine List.mem_append_left _ (List.mem_map.mpr ⟨r, List.mem_filter.mpr ?_, hnode⟩)
      exact ⟨Cluster.mem_rowsOf.mpr ⟨hmem, hchunk⟩, decide_eq_true hsynced⟩
    · have hfree : ∀ r ∈ t.replicas, r.chunkId = chunkId → r.nodeId ≠ node.id := by
        intro r hr hchunk hnode
        rw [h.replicas] at hr
        obtain ⟨r₀, hr₀, rfl⟩ := List.mem_map.mp hr
        rw [s.marked_chunkId] at hchunk
        rw [s.marked_nodeId] at hnode
        exact hrow ⟨r₀, hr₀, hchunk, hnode⟩
      have hvacant : node ∈ t.vacantNodes chunkId :=
        Cluster.mem_vacantNodes.mpr ⟨h.nodes ▸ hn, hhealthy, hfree⟩
      exact List.mem_append_right _ (List.mem_map_of_mem hvacant)
  have hle := (hids.subperm hsplit).length_le
  rwa [List.length_append, List.length_map, List.length_map, List.length_map,
    ← List.countP_eq_length_filter] at hle

theorem wp_healOnce (options : ReplicationServiceOptions) (s : Cluster) :
    (SelfHealingService.healOnce options).wp undisturbed (fun r u => r = .ok () ∧
      ∃ t chunkIds, Marked s t ∧ Reconciled t u chunkIds ∧
        ∀ row ∈ t.replicas, u.syncedCount row.chunkId = t.syncedCount row.chunkId +
          min (options.replicationFactor - t.syncedCount row.chunkId)
            (t.vacantNodes row.chunkId).length) s := by
  rw [SelfHealingService.healOnce, Prog.wp_bind]
  refine Prog.wp_mono ?_ (wp_markReplicasOnUnhealthyNodesLost s)
  rintro r t ⟨rfl, hnodes, hreplicas⟩
  show (SelfHealingService.reconcileUnderReplicatedChunks options).wp undisturbed _ t
  rw [SelfHealingService.reconcileUnderReplicatedChunks, Prog.wp_bind]
  refine wp_query.mpr fun w _ => ?_
  have hlisted : ∀ chunk ∈ t.listUnderReplicated w.uuidRank options.replicationFactor,
      chunk.syncedCount = t.syncedCount chunk.chunkId := fun chunk hc => by
    obtain ⟨row, -, rfl, -⟩ := Cluster.mem_listUnderReplicated.mp hc
    rfl
  refine Prog.wp_mono ?_ (wp_reconcileEach options (t := t)
    (t.listUnderReplicated_nodup w.uuidRank _) hlisted)
  rintro r u ⟨hr, hreconciled, hcounts⟩
  refine ⟨hr, t, _, ⟨hnodes, hreplicas⟩, hreconciled, fun row hrow => ?_⟩
  -- a chunk that is not listed has its replicas already, and gets no more
  by_cases hlt : t.syncedCount row.chunkId < options.replicationFactor
  · exact hcounts (t.group row.chunkId) (Cluster.mem_listUnderReplicated.mpr ⟨row, hrow, rfl, hlt⟩)
  · rw [hreconciled.syncedCount, Nat.sub_eq_zero_of_le (not_lt.mp hlt), Nat.zero_min, Nat.add_zero]
    intro hmem
    obtain ⟨chunk, hc, hid⟩ := List.mem_map.mp hmem
    obtain ⟨row', -, rfl, hlt'⟩ := Cluster.mem_listUnderReplicated.mp hc
    exact hlt (hid ▸ hlt')

theorem healOnce_restores (options : ReplicationServiceOptions) (s : Cluster)
    {ws : Nat → Circumstances} (hws : ∀ n, (ws n).outcome = .succeeded) {chunkId : Uuid}
    (hchunk : ∃ r ∈ s.replicas, r.chunkId = chunkId) :
    min options.replicationFactor (s.usableNodes chunkId).length ≤
        ((SelfHealingService.healOnce options).run Statement.exec ws s).2.syncedCount chunkId ∧
      ∀ r ∈ ((SelfHealingService.healOnce options).run Statement.exec ws s).2.replicas,
        r.status = .synced →
          ∃ node ∈ ((SelfHealingService.healOnce options).run Statement.exec ws s).2.nodes,
            node.id = r.nodeId ∧ node.isHealthy = true := by
  obtain ⟨-, t, chunkIds, hmarked, hreconciled, hcounts⟩ :=
    Prog.wp_run (w := undisturbed) (fun _ => rfl) hws (wp_healOnce options s)
  obtain ⟨r, hr, rfl⟩ := hchunk
  have hcount := hcounts (s.marked r) (hmarked.replicas ▸ List.mem_map_of_mem hr)
  rw [s.marked_chunkId] at hcount
  have husable := hmarked.usableNodes_le r.chunkId
  refine ⟨le_trans (by omega) hcount.ge, fun row hrow hstatus => ?_⟩
  obtain ⟨new, hreplicas, hnew⟩ := hreconciled.rows
  have hnode : ∃ node ∈ t.nodes, node.id = row.nodeId ∧ node.isHealthy = true := by
    rcases List.mem_append.mp (hreplicas ▸ hrow) with hold | hrow
    · exact hmarked.synced hold hstatus
    · exact (hnew row hrow).2.2
  obtain ⟨node, hn, hid, hhealthy⟩ := hnode
  obtain ⟨node', hn', heq⟩ := Cluster.exists_node_of_emptied hreconciled.nodes hn
  exact ⟨node', hn', (congrArg StorageNodeRecord.id heq).trans hid,
    (congrArg StorageNodeRecord.isHealthy heq).trans hhealthy⟩

/-! ### After any history -/

/-- After any history, a sweep that nothing disturbs brings each chunk to the replication factor,
or to every healthy node that holds no replica of it that was lost. -/
theorem sweep_restores_usable_nodes (options : ReplicationServiceOptions) (s₀ : Cluster)
    (history : List (Operation × (Nat → Circumstances))) (ws : Nat → Circumstances)
    (hws : ∀ n, (ws n).outcome = .succeeded) (chunkId : Uuid)
    (hchunk : ∃ r ∈ (finalState (operate options) s₀ history).replicas, r.chunkId = chunkId) :
    let s := finalState (operate options) s₀ history
    let s' := (operate options s (.healingSweep, ws)).2
    min options.replicationFactor (s.usableNodes chunkId).length ≤ s'.syncedCount chunkId ∧
      ∀ r ∈ s'.replicas, r.chunkId = chunkId → r.status = .synced →
        ∃ node ∈ s'.nodes, node.id = r.nodeId ∧ node.isHealthy = true := by
  intro s s'
  obtain ⟨hcount, hsynced⟩ := healOnce_restores options s hws hchunk
  exact ⟨hcount, fun r hr _ => hsynced r hr⟩

/-! Two nodes, one of which misses its heartbeats and comes back after a sweep. -/

def outage : List (Operation × (Nat → Circumstances)) :=
  [(.replicateChunk ⟨7, "chunks/a", 5⟩, fun _ => .calm 1), (.heartbeat "node-1", fun _ => .calm 20),
    (.stalenessSweep 10, fun _ => .calm 20), (.healingSweep, fun _ => .calm 21),
    (.heartbeat "node-2", fun _ => .calm 22)]

theorem returned_node_is_not_used_again :
    ¬∀ (history : List (Operation × (Nat → Circumstances))) (chunkId : Uuid),
      let s := finalState (operate .sample) (.installed 2) history
      let s' := (operate .sample s (.healingSweep, fun _ => .calm 30)).2
      (∃ r ∈ s.replicas, r.chunkId = chunkId) →
        min 2 (s.nodes.filter (·.isHealthy)).length ≤ s'.syncedCount chunkId := by
  intro h
  exact absurd (h outage 7 (by decide)) (by decide)

theorem sweep_restores_usable_nodes_outage :
    let s := finalState (operate .sample) (.installed 2) outage
    let s' := (operate .sample s (.healingSweep, fun _ => .calm 30)).2
    min 2 (s.usableNodes 7).length ≤ s'.syncedCount 7 ∧
      ∀ r ∈ s'.replicas, r.chunkId = 7 → r.status = .synced →
        ∃ node ∈ s'.nodes, node.id = r.nodeId ∧ node.isHealthy = true :=
  sweep_restores_usable_nodes .sample (.installed 2) outage (fun _ => .calm 30) (fun _ => rfl) 7
    (by decide)

end IntelliStore.Replication
