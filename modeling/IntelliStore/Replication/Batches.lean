import IntelliStore.Replication.Delivery

/-! The chunks of one chunk-uploaded event, when some of their keys cannot be copied. -/

namespace IntelliStore.Replication
open Library Postgres

namespace Cluster

/-- The synced rows of the chunk that are among the replicas recorded. -/
def recordedRows (s : Cluster) (recorded : List (Uuid × Uuid)) (chunkId : Uuid) :
    List ChunkReplicaRecord :=
  s.replicas.filter fun r => r.chunkId = chunkId ∧ r.status = .synced ∧
    recorded.contains (chunkId, r.nodeId)

theorem recordedRows_ids_nodup (s : Cluster) (recorded : List (Uuid × Uuid)) (chunkId : Uuid) :
    ((s.recordedRows recorded chunkId).map ChunkReplicaRecord.nodeId).Nodup := by
  have hkeys : ((s.recordedRows recorded chunkId).map fun r => (r.chunkId, r.nodeId)).Nodup :=
    s.replicas_chunk_node_key.sublist (List.filter_sublist.map _)
  have hpairs : (s.recordedRows recorded chunkId).map (fun r => (r.chunkId, r.nodeId)) =
      ((s.recordedRows recorded chunkId).map ChunkReplicaRecord.nodeId).map (chunkId, ·) := by
    rw [List.map_map]
    refine List.map_congr_left fun r hr => Prod.ext ?_ rfl
    have hr := List.of_mem_filter hr
    rw [decide_eq_true_iff] at hr
    exact hr.1
  rw [hpairs] at hkeys
  exact hkeys.of_map _

end Cluster

/-- What is left after the chunks of `past`, each of which was placed. -/
structure Progress (options : ReplicationServiceOptions) (healthyCount : Nat)
    (past : List ChunkUploadedEvent) (x : Cluster × List (Uuid × Uuid)) : Prop where
  healthy : (x.1.nodes.filter (·.isHealthy)).length = healthyCount
  rows : ∀ p ∈ x.2, ∃ r ∈ x.1.replicas, r.chunkId = p.1 ∧ r.nodeId = p.2 ∧ r.status = .synced
  known : ∀ p ∈ x.2, p.1 ∈ past.map ChunkUploadedEvent.chunkId
  placed : ∀ chunk ∈ past, ∃ nodeIds : List Uuid, nodeIds.Nodup ∧
    nodeIds.length = min options.replicationFactor healthyCount ∧
    (∀ id ∈ nodeIds, (chunk.chunkId, id) ∈ x.2) ∧
    ((past.map ChunkUploadedEvent.chunkId).Nodup →
      ∀ id, (chunk.chunkId, id) ∈ x.2 → id ∈ nodeIds)

section
variable {options : ReplicationServiceOptions} {healthyCount : Nat}
  {past : List ChunkUploadedEvent} {chunk : ChunkUploadedEvent}
  {x y : Cluster × List (Uuid × Uuid)}

namespace Progress

/-- A synced row is one of the triples that `Cluster.rows` keeps of it. -/
theorem synced_iff {s : Cluster} {chunkId nodeId : Uuid} :
    (∃ r ∈ s.replicas, r.chunkId = chunkId ∧ r.nodeId = nodeId ∧ r.status = .synced) ↔
      ∃ sizeBytes, (chunkId, nodeId, ReplicaStatus.synced, sizeBytes) ∈ s.rows := by
  simp only [Cluster.rows, List.mem_map, Prod.mk.injEq]
  constructor
  · rintro ⟨r, hr, hchunk, hnode, hstatus⟩
    exact ⟨r.sizeBytes, r, hr, hchunk, hnode, hstatus, rfl⟩
  · rintro ⟨sizeBytes, r, hr, hchunk, hnode, hstatus, -⟩
    exact ⟨r, hr, hchunk, hnode, hstatus⟩

theorem kept_rows {nodeIds : List Uuid} (h : Progress options healthyCount past x)
    (hxy : Delivered chunk.chunkId chunk.sizeBytes nodeIds x y) :
    ∀ p ∈ y.2, ∃ r ∈ y.1.replicas, r.chunkId = p.1 ∧ r.nodeId = p.2 ∧ r.status = .synced := by
  intro p hp
  rw [synced_iff]
  rw [hxy.recorded, List.mem_append, List.mem_map] at hp
  by_cases hkey : p.1 = chunk.chunkId ∧ p.2 ∈ nodeIds
  · exact ⟨chunk.sizeBytes, (hxy.rows _).mpr (.inl ⟨hkey.1, hkey.2, rfl⟩)⟩
  · rcases hp with hp | ⟨id, hid, rfl⟩
    · obtain ⟨sizeBytes, hrow⟩ := synced_iff.mp (h.rows p hp)
      exact ⟨sizeBytes, (hxy.rows _).mpr (.inr ⟨hrow, hkey⟩)⟩
    · exact absurd ⟨rfl, hid⟩ hkey

/-- A chunk without targets leaves things as they are. -/
theorem idle (h : Progress options healthyCount past x)
    (hxy : Delivered chunk.chunkId chunk.sizeBytes [] x y) :
    Progress options healthyCount past y := by
  have hrecorded : y.2 = x.2 := by rw [hxy.recorded, List.map_nil, List.append_nil]
  refine ⟨hxy.healthy.trans h.healthy, h.kept_rows hxy, ?_, ?_⟩ <;> rw [hrecorded]
  · exact h.known
  · exact h.placed

theorem concat {nodeIds : List Uuid} (h : Progress options healthyCount past x)
    (hxy : Delivered chunk.chunkId chunk.sizeBytes nodeIds x y) (hnodup : nodeIds.Nodup)
    (hlength : nodeIds.length = min options.replicationFactor healthyCount) :
    Progress options healthyCount (past ++ [chunk]) y where
  healthy := hxy.healthy.trans h.healthy
  rows := h.kept_rows hxy
  known := by
    intro p hp
    rw [hxy.recorded, List.mem_append, List.mem_map] at hp
    rcases hp with hp | ⟨id, -, rfl⟩
    · exact mem_map_concat (h.known p hp)
    · exact List.mem_map_of_mem List.mem_concat_self
  placed := by
    intro chunk' hchunk'
    simp only [hxy.recorded, List.mem_append, List.mem_map, Prod.mk.injEq]
    rcases List.mem_append.mp hchunk' with hold | hnew
    · obtain ⟨nodeIds', hnodup', hlength', hrecorded, honly⟩ := h.placed chunk' hold
      refine ⟨nodeIds', hnodup', hlength', fun id hid => .inl (hrecorded id hid),
        fun hids id hid => ?_⟩
      rw [List.map_append] at hids
      have hids := List.nodup_append.mp hids
      rcases hid with hid | ⟨-, -, heq, -⟩
      · exact honly hids.1 id hid
      · exact absurd heq.symm
          (hids.2.2 _ (List.mem_map_of_mem hold) _ (List.mem_singleton_self _))
    · rw [List.mem_singleton] at hnew
      subst hnew
      refine ⟨nodeIds, hnodup, hlength, fun id hid => .inr ⟨id, hid, rfl, rfl⟩,
        fun hids id hid => ?_⟩
      rw [List.map_append] at hids
      have hids := List.nodup_append.mp hids
      rcases hid with hid | ⟨_, hid, -, rfl⟩
      · exact absurd rfl (hids.2.2 _ (h.known _ hid) _ (List.mem_singleton_self _))
      · exact hid

/-- The rows of a chunk are on the nodes recorded for it. -/
theorem mem_recordedRows (h : Progress options healthyCount past x) {chunkId id : Uuid} :
    id ∈ (x.1.recordedRows x.2 chunkId).map ChunkReplicaRecord.nodeId ↔ (chunkId, id) ∈ x.2 := by
  simp only [Cluster.recordedRows, List.mem_map, List.mem_filter, decide_eq_true_iff,
    List.contains_iff_mem]
  constructor
  · rintro ⟨r, ⟨-, -, -, hrecorded⟩, rfl⟩
    exact hrecorded
  · intro hrecorded
    obtain ⟨r, hr, hchunk, rfl, hstatus⟩ := h.rows _ hrecorded
    exact ⟨r, ⟨hr, hchunk, hstatus, hrecorded⟩, rfl⟩

theorem recordedRows_length (h : Progress options healthyCount past x) (hchunk : chunk ∈ past) :
    min options.replicationFactor healthyCount ≤ (x.1.recordedRows x.2 chunk.chunkId).length ∧
      ((past.map ChunkUploadedEvent.chunkId).Nodup →
        (x.1.recordedRows x.2 chunk.chunkId).length =
          min options.replicationFactor healthyCount) := by
  obtain ⟨nodeIds, hnodup, hlength, hrecorded, honly⟩ := h.placed chunk hchunk
  have hle : nodeIds.length ≤ (x.1.recordedRows x.2 chunk.chunkId).length := by
    have hsub := hnodup.subperm (fun id hid => h.mem_recordedRows.mpr (hrecorded id hid))
    exact hsub.length_le.trans_eq (List.length_map _)
  refine ⟨hlength.symm.trans_le hle, fun hids => le_antisymm ?_ (hlength.symm.trans_le hle)⟩
  have hsub := (x.1.recordedRows_ids_nodup x.2 chunk.chunkId).subperm
    (fun id hid => honly hids id (h.mem_recordedRows.mp hid))
  rw [← hlength, ← List.length_map ChunkReplicaRecord.nodeId]
  exact hsub.length_le

theorem recordedRows_eq_nil (h : Progress options healthyCount past x) (chunkId : Uuid)
    (hchunk : chunkId ∉ past.map ChunkUploadedEvent.chunkId) :
    x.1.recordedRows x.2 chunkId = [] := by
  rw [← List.map_eq_nil_iff (f := ChunkReplicaRecord.nodeId), List.eq_nil_iff_forall_not_mem]
  exact fun id hid => hchunk (h.known _ (h.mem_recordedRows.mp hid))

end Progress

/-- The chunks before the first that throws. -/
def handled (options : ReplicationServiceOptions) (copyable : String → Bool)
    (chunks : List ChunkUploadedEvent) : List ChunkUploadedEvent :=
  if options.replicationFactor = 0 then [] else chunks.takeWhile fun chunk => copyable chunk.storageKey

theorem sat_onChunkUploaded {copyable : String → Bool} (hhealthy : 0 < healthyCount)
    {chunks : List ChunkUploadedEvent} (h : Progress options healthyCount past x) :
    (ReplicationService.onChunkUploaded options chunks).sat (attempting copyable)
      (fun _ y => Progress options healthyCount (past ++ handled options copyable chunks) y) x := by
  induction chunks generalizing past x with
  | nil =>
    have hnil : handled options copyable [] = [] := by
      unfold handled
      split <;> rfl
    rw [hnil, List.append_nil]
    exact h
  | cons chunk chunks ih =>
    rw [ReplicationService.onChunkUploaded, replicateChunk_eq, Prog.sat_bind]
    apply sat_statement
    intro w
    have hquery : (Statement.listHealthy).attempt copyable w x =
        (.ok (x.1.listHealthy w.uuidRank), x) := by
      simp [Statement.attempt, Statement.uncopyable, Statement.effect, Statement.recorded]
    rw [hquery]
    show (replicateOnto options chunk.chunkId chunk.storageKey chunk.sizeBytes
      (x.1.listHealthy w.uuidRank)).sat _ _ x
    by_cases hkey : copyable chunk.storageKey = true
    · refine Prog.sat_mono ?_ (sat_replicateOnto_copyable options hkey w.uuidRank)
      rintro r y ⟨hr, hy⟩
      have hlength := targetsOf_length options x.1 w.uuidRank
      rw [h.healthy] at hlength
      by_cases hzero : options.replicationFactor = 0
      · have hnil : targetsOf options x.1 w.uuidRank = [] := by
          rw [← List.length_eq_zero_iff, hlength, hzero, Nat.zero_min]
        rw [hnil] at hr hy
        have hhandled : handled options copyable (chunk :: chunks) = [] := if_pos hzero
        cases r with
        | error e =>
          rw [hhandled, List.append_nil]
          exact h.idle hy
        | ok rows => exact absurd rfl (hr.mpr ⟨rows, rfl⟩)
      · have hne : targetsOf options x.1 w.uuidRank ≠ [] := by
          rw [← List.length_pos_iff, hlength]
          omega
        obtain ⟨rows, rfl⟩ := hr.mp hne
        have hnext := h.concat hy (targetsOf_ids_nodup options x.1 w.uuidRank)
          (by rw [List.length_map, hlength])
        have hhandled : past ++ handled options copyable (chunk :: chunks) =
            past ++ [chunk] ++ handled options copyable chunks := by
          rw [handled, handled, if_neg hzero, if_neg hzero, List.takeWhile_cons, if_pos hkey,
            List.append_assoc]
          rfl
        rw [hhandled]
        exact ih hnext
    · rw [Bool.not_eq_true] at hkey
      refine Prog.sat_mono ?_ (sat_replicateOnto_uncopyable options hkey _)
      rintro _ y ⟨⟨e, rfl⟩, rfl⟩
      have hhandled : handled options copyable (chunk :: chunks) = [] := by
        rw [handled, List.takeWhile_cons, hkey]
        split <;> rfl
      rw [hhandled, List.append_nil]
      exact h

end

/-- Every chunk of an event whose key can be copied gets its replicas exactly if it stands before
all the chunks whose keys cannot, or names a chunk that does. -/
theorem batch_replicated_iff (options : ReplicationServiceOptions) (copyable : String → Bool)
    (chunks : List ChunkUploadedEvent) (s : Cluster) (ws : Nat → Circumstances)
    (hhealthy : ∃ node ∈ s.nodes, node.isHealthy = true) :
    let after := ((ReplicationService.onChunkUploaded options chunks).run
      (Statement.attempt copyable) ws (s, [])).2
    let due := min options.replicationFactor (s.nodes.filter (·.isHealthy)).length
    (∀ chunk ∈ chunks, copyable chunk.storageKey = true →
      due ≤ (after.1.recordedRows after.2 chunk.chunkId).length ∧
        ((chunks.map ChunkUploadedEvent.chunkId).Nodup →
          (after.1.recordedRows after.2 chunk.chunkId).length = due)) ↔
      options.replicationFactor = 0 ∨ ∀ chunk ∈ chunks, copyable chunk.storageKey = true →
        chunk.chunkId ∈ (chunks.takeWhile fun chunk => copyable chunk.storageKey).map
          ChunkUploadedEvent.chunkId := by
  intro after due
  obtain ⟨node, hn, hnode⟩ := hhealthy
  have hpos : 0 < (s.nodes.filter (·.isHealthy)).length :=
    List.length_pos_of_mem (List.mem_filter.mpr ⟨hn, hnode⟩)
  have hstart : Progress options (s.nodes.filter (·.isHealthy)).length [] (s, []) :=
    ⟨rfl, by simp, by simp, by simp⟩
  have hafter : Progress options (s.nodes.filter (·.isHealthy)).length
      (handled options copyable chunks) after :=
    Prog.sat_run (attempting_lawful copyable) ws (sat_onChunkUploaded hpos hstart)
      (Prog.meets_of_forall (fun _ _ _ => trivial) _ _ _)
  by_cases hzero : options.replicationFactor = 0
  · refine iff_of_true (fun chunk _ _ => ?_) (.inl hzero)
    have hhandled : handled options copyable chunks = [] := if_pos hzero
    have hdue : due = 0 := by rw [show due = min _ _ from rfl, hzero, Nat.zero_min]
    rw [hhandled] at hafter
    have hnil := hafter.recordedRows_eq_nil chunk.chunkId (by simp)
    rw [hnil, hdue]
    exact ⟨le_rfl, fun _ => rfl⟩
  · rw [or_iff_right hzero]
    have hhandled : handled options copyable chunks =
        chunks.takeWhile fun chunk => copyable chunk.storageKey := if_neg hzero
    rw [hhandled] at hafter
    refine forall₃_congr fun chunk _ _ => ⟨fun hrows => ?_, fun hmem => ?_⟩
    · by_contra hnot
      rw [hafter.recordedRows_eq_nil _ hnot, List.length_nil] at hrows
      have hdue : 0 < due := Nat.lt_min.mpr ⟨Nat.pos_of_ne_zero hzero, hpos⟩
      exact absurd hrows.1 (by omega)
    · obtain ⟨chunk', hchunk', hid⟩ := List.mem_map.mp hmem
      have hrows := hafter.recordedRows_length hchunk'
      rw [hid] at hrows
      refine ⟨hrows.1, fun hnodup => hrows.2 ?_⟩
      exact hnodup.sublist ((List.takeWhile_sublist _).map _)

/-! An event whose first chunk cannot be copied. -/

def badFirst : List ChunkUploadedEvent := [⟨7, "chunks/bad", 5⟩, ⟨8, "chunks/a", 5⟩]

theorem batch_sinks_together :
    let after := ((ReplicationService.onChunkUploaded .sample badFirst).run
      (Statement.attempt (· ≠ "chunks/bad")) (fun _ => .calm 1) (.installed 3, [])).2
    ¬∀ chunk ∈ badFirst, chunk.storageKey ≠ "chunks/bad" →
      min 2 ((Cluster.installed 3).nodes.filter (·.isHealthy)).length ≤
        (after.1.recordedRows after.2 chunk.chunkId).length := by decide

theorem batch_replicated_iff_badLast :
    let after := ((ReplicationService.onChunkUploaded .sample badFirst.reverse).run
      (Statement.attempt (· ≠ "chunks/bad")) (fun _ => .calm 1) (.installed 3, [])).2
    (after.1.recordedRows after.2 8).length = 2 := by
  have hiff := batch_replicated_iff .sample (· ≠ "chunks/bad") badFirst.reverse (.installed 3)
    (fun _ => .calm 1) (by decide)
  exact (hiff.mpr (.inr (by decide)) ⟨8, "chunks/a", 5⟩ (by decide) (by decide)).2 (by decide)

end IntelliStore.Replication
