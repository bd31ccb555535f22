import IntelliStore.Replication.HealingFrame

/-! A second sweep after one that nothing disturbs finds nothing to do. -/

namespace IntelliStore.Replication
open Library Postgres

/-- Every statement succeeds. -/
def Statement.succeeds (_ : Statement) (w : Circumstances) : Prop := w.outcome = .succeeded

theorem succeeds_decides : Decides Statement.succeeds fun _ => true := by
  intro c w hw
  refine iff_of_true hw ?_
  cases c <;> rfl

/-- A chunk that lacks replicas has no node left for another one. -/
def Settled (options : ReplicationServiceOptions) (s : Cluster) : Prop :=
  ∀ r ∈ s.replicas, s.syncedCount r.chunkId < options.replicationFactor →
    s.vacantNodes r.chunkId = []

section
variable {options : ReplicationServiceOptions} {allowed : Statement → Circumstances → Prop}
  {chunk : UnderReplicatedChunk} {chunks : List UnderReplicatedChunk} {x y : Cluster × Trace}

/-! ### The first sweep -/

/-- After its turn a chunk has the replicas that it lacked, or each vacant node has one. -/
theorem Served.settled {w : Circumstances} {u : Cluster} {placed : List StorageNodeRecord}
    {new : List ChunkReplicaRecord} (h : Served options Statement.succeeds chunk w u placed new x y)
    (hnodes : y.1.nodes.map StorageNodeRecord.emptied = x.1.nodes.map StorageNodeRecord.emptied)
    (hcount : chunk.syncedCount = x.1.syncedCount chunk.chunkId)
    (hlt : y.1.syncedCount chunk.chunkId < options.replicationFactor) :
    y.1.vacantNodes chunk.chunkId = [] := by
  have hplaced : placed = triedNodes options u w.uuidRank chunk := by
    rw [h.decided _ succeeds_decides, List.filter_true]
  have hshort : (u.candidates w.uuidRank chunk.chunkId).length <
      options.replicationFactor - chunk.syncedCount := by
    have hlength := h.syncedCount
    rw [hplaced, triedNodes, List.length_take, ← hcount] at hlength
    omega
  have hall : placed = u.candidates w.uuidRank chunk.chunkId := by
    rw [hplaced, triedNodes, List.take_of_length_le hshort.le]
  refine List.eq_nil_iff_forall_not_mem.mpr fun node hn => ?_
  -- a node that is vacant still was vacant at the turn, and has got a row
  have hrows : (u.rowsOf chunk.chunkId).map ChunkReplicaRecord.nodeId ⊆
      (y.1.rowsOf chunk.chunkId).map ChunkReplicaRecord.nodeId := by
    rw [h.before, h.after, List.map_append]
    exact List.subset_append_left _ _
  obtain ⟨node', hn', heq⟩ :=
    Cluster.vacant_of_emptied (hnodes.trans h.nodes.symm) hrows hn
  have hplacedAt : node' ∈ placed := by
    rw [hall]
    exact (u.candidates_perm w.uuidRank chunk.chunkId).mem_iff.mpr hn'
  obtain ⟨r, hr, hid⟩ := h.exists_row hplacedAt
  have hmem : r ∈ y.1.rowsOf chunk.chunkId := by
    rw [h.after]
    exact List.mem_append_right _ hr
  apply (Cluster.mem_vacantNodes_iff.mp hn).2.2
  exact List.mem_map.mpr ⟨r, hmem, hid.trans (StorageNodeRecord.id_of_emptied heq)⟩

theorem Healed.settled {t : Cluster} {rank : Uuid → Nat} {trace : Trace}
    (h : Healed options Statement.succeeds (t.listUnderReplicated rank options.replicationFactor)
      (t, trace) y) : Settled options y.1 := by
  intro r hr hlt
  have hrow : r ∈ y.1.rowsOf r.chunkId := Cluster.mem_rowsOf.mpr ⟨hr, rfl⟩
  by_cases hlisted : r.chunkId ∈ (t.listUnderReplicated rank options.replicationFactor).map
      UnderReplicatedChunk.chunkId
  · obtain ⟨chunk, hchunk, hid⟩ := List.mem_map.mp hlisted
    obtain ⟨row, -, rfl, -⟩ := Cluster.mem_listUnderReplicated.mp hchunk
    obtain ⟨w, u, placed, new, hserved⟩ := h.served (t.listUnderReplicated_nodup _ _) hchunk
    rw [← hid] at hlt ⊢
    exact hserved.settled h.reconciled.nodes rfl hlt
  -- a chunk that is not listed has its replicas
  · rw [h.reconciled.rowsOf hlisted] at hrow
    rw [h.reconciled.syncedCount hlisted] at hlt
    have hgroup : t.group r.chunkId ∈ t.listUnderReplicated rank options.replicationFactor :=
      Cluster.mem_listUnderReplicated.mpr ⟨r, (Cluster.mem_rowsOf.mp hrow).1, rfl, hlt⟩
    exact absurd (List.mem_map_of_mem hgroup) hlisted

/-! ### The second sweep -/

theorem Healed.idle (h : Healed options allowed chunks x y)
    (hvacant : ∀ chunk ∈ chunks, x.1.vacantNodes chunk.chunkId = []) : y.1 = x.1 := by
  induction h with
  | nil x => rfl
  | @cons chunk chunks x y z turn rest ih =>
    obtain ⟨hchunk, hvacant⟩ := List.forall_mem_cons.mp hvacant
    obtain ⟨w, placed, new, -, -, hidle⟩ := turn
    have hnone : triedNodes options x.1 w.uuidRank chunk = [] := by
      have hperm := x.1.candidates_perm w.uuidRank chunk.chunkId
      rw [hchunk] at hperm
      rw [triedNodes, hperm.eq_nil, List.take_nil]
    have hsame : y.1 = x.1 := hidle hnone
    rw [ih (hsame.symm ▸ hvacant), hsame]

theorem Cluster.unhealthy_of_emptied {t u : Cluster}
    (h : u.nodes.map StorageNodeRecord.emptied = t.nodes.map StorageNodeRecord.emptied) {id : Uuid}
    (hid : id ∈ u.unhealthyNodeIds) : id ∈ t.unhealthyNodeIds := by
  obtain ⟨node, hmem, rfl⟩ := List.mem_map.mp hid
  have hn : node ∈ u.nodes := Cluster.mem_listAll.mp (List.mem_filter.mp hmem).1
  obtain ⟨node', hn', heq⟩ := Cluster.exists_node_of_emptied h.symm hn
  rw [Cluster.mem_unhealthyNodeIds hn, ← StorageNodeRecord.isHealthy_of_emptied heq] at hid
  rw [← StorageNodeRecord.id_of_emptied heq]
  exact (Cluster.mem_unhealthyNodeIds hn').mpr hid

/-- The rows on unhealthy nodes are lost already. -/
theorem Touched.marked {s t s' : Cluster} {trace : Trace} (h : Touched options s t s' trace)
    {r : ChunkReplicaRecord} (hr : r ∈ s'.replicas) : s'.marked r = r := by
  by_cases hnode : r.nodeId ∈ s'.unhealthyNodeIds
  · have hlost := h.lost r hr (Cluster.unhealthy_of_emptied h.nodes hnode)
    rw [Cluster.marked_of_mem hnode, ← hlost]
  · exact Cluster.marked_of_notMem hnode

theorem Settled.vacantNodes_eq_nil {s : Cluster} (h : Settled options s) {rank : Uuid → Nat} :
    ∀ chunk ∈ s.listUnderReplicated rank options.replicationFactor,
      s.vacantNodes chunk.chunkId = [] := by
  intro chunk hchunk
  obtain ⟨r, hr, rfl, hlt⟩ := Cluster.mem_listUnderReplicated.mp hchunk
  exact h r hr hlt

theorem Settled.of_eq {s t : Cluster} (h : Settled options s) (hnodes : t.nodes = s.nodes)
    (hreplicas : t.replicas = s.replicas) : Settled options t := by
  have hvacant : ∀ chunkId, t.vacantNodes chunkId = s.vacantNodes chunkId := fun chunkId => by
    rw [Cluster.vacantNodes, Cluster.vacantNodes, hnodes, hreplicas]
  have hcount : ∀ chunkId, t.syncedCount chunkId = s.syncedCount chunkId := fun chunkId => by
    rw [Cluster.syncedCount, Cluster.syncedCount, Cluster.rowsOf, Cluster.rowsOf, hreplicas]
  intro r hr hlt
  rw [hvacant]
  rw [hcount] at hlt
  exact h r (hreplicas ▸ hr) hlt

end

/-- A sweep in which everything succeeds. -/
theorem healOnce_healed (options : ReplicationServiceOptions) (s : Cluster)
    {ws : Nat → Circumstances} (hws : ∀ n, (ws n).outcome = .succeeded) :
    ∃ t rank trace trace', Marked s t ∧ Healed options Statement.succeeds
      (t.listUnderReplicated rank options.replicationFactor) (t, trace)
      ((operate options s (.healingSweep, ws)).2, trace') := by
  have hmeets : (SelfHealingService.healOnce options).Meets (fun c w _ => c.succeeds w)
      Statement.exec ws s := Prog.meets_of_circumstances hws _ s
  obtain ⟨-, t, w, trace, hmarked, -, hhealed⟩ :=
    Prog.sat_alone_run (sat_healOnce options (fun _ _ _ h => h) s) hmeets
  exact ⟨t, w.uuidRank, trace, _, hmarked, hhealed⟩

theorem healing_idempotent (options : ReplicationServiceOptions) (s : Cluster)
    (ws ws' : Nat → Circumstances) (hws : ∀ n, (ws n).outcome = .succeeded)
    (hws' : ∀ n, (ws' n).outcome = .succeeded) :
    let once := (operate options s (.healingSweep, ws)).2
    let twice := (operate options once (.healingSweep, ws')).2
    twice.replicas = once.replicas ∧ twice.nodes = once.nodes := by
  intro once twice
  obtain ⟨t, rank, trace, trace', hmarked, hhealed⟩ := healOnce_healed options s hws
  obtain ⟨u, rank', log, log', hmarked', hhealed'⟩ := healOnce_healed options once hws'
  have hreplicas : u.replicas = once.replicas := by
    rw [hmarked'.replicas, List.map_congr_left fun r hr => (hhealed.touched hmarked).marked hr,
      List.map_id']
  have hsettled : Settled options u := hhealed.settled.of_eq hmarked'.nodes hreplicas
  have hidle : twice = u := hhealed'.idle hsettled.vacantNodes_eq_nil
  rw [hidle]
  exact ⟨hreplicas, hmarked'.nodes⟩

theorem healing_idempotent_nodeDown :
    let once := (operate .sample (finalState (operate .sample) (.installed 3) nodeDown)
      (.healingSweep, fun _ => .calm 30)).2
    let twice := (operate .sample once (.healingSweep, fun _ => .calm 40)).2
    twice.replicas = once.replicas ∧ twice.nodes = once.nodes :=
  healing_idempotent .sample (finalState (operate .sample) (.installed 3) nodeDown)
    (fun _ => .calm 30) (fun _ => .calm 40) (fun _ => rfl) fun _ => rfl

end IntelliStore.Replication
