import IntelliStore.Library.Levelling
import IntelliStore.Library.Runs
import IntelliStore.Replication.Redelivery

/-! How evenly `replicateChunk` fills the nodes, and on how many of them a chunk lies. -/

namespace IntelliStore.Replication
open Library Postgres

namespace Cluster

/-- The nodes that have a synced replica of the chunk. -/
def holders (s : Cluster) (chunkId : Uuid) : Finset Uuid :=
  (((s.rowsOf chunkId).filter fun r => r.status = .synced).map
    ChunkReplicaRecord.nodeId).toFinset

/-- The difference between the largest and the smallest `used_bytes`. -/
def imbalance (s : Cluster) : Nat := gap (s.nodes.map StorageNodeRecord.usedBytes)

def AllHealthy (s : Cluster) : Prop := ∀ node ∈ s.nodes, node.isHealthy = true

instance (s : Cluster) : Decidable s.AllHealthy :=
  inferInstanceAs (Decidable (∀ node ∈ s.nodes, node.isHealthy = true))

theorem mem_holders {s : Cluster} {chunkId nodeId : Uuid} : nodeId ∈ s.holders chunkId ↔
    ∃ sizeBytes, (chunkId, nodeId, ReplicaStatus.synced, sizeBytes) ∈ s.rows := by
  simp only [holders, List.mem_toFinset, List.mem_map, List.mem_filter, mem_rowsOf,
    decide_eq_true_iff, rows, Prod.mk.injEq]
  constructor
  · rintro ⟨r, ⟨⟨hr, hchunk⟩, hstatus⟩, hnode⟩
    exact ⟨r.sizeBytes, r, hr, hchunk, hnode, hstatus, rfl⟩
  · rintro ⟨sizeBytes, r, hr, hchunk, hnode, hstatus, -⟩
    exact ⟨r, ⟨⟨hr, hchunk⟩, hstatus⟩, hnode⟩

end Cluster

/-! ### One call -/

/-- A call of `replicateChunk` to its end. -/
def runReplicateChunk (options : ReplicationServiceOptions) (s : Cluster)
    (call : ChunkUploadedEvent × (Nat → Circumstances)) :
    Except Failure (List ChunkReplicaRecord) × Cluster :=
  (ReplicationService.replicateChunk options call.1.chunkId call.1.storageKey
    call.1.sizeBytes).run Statement.exec call.2 s

/-- The ids of the nodes that a call places its chunk on. -/
def targetIds (options : ReplicationServiceOptions) (s : Cluster)
    (call : ChunkUploadedEvent × (Nat → Circumstances)) : List Uuid :=
  (targetsOf options s (call.2 0).uuidRank).map StorageNodeRecord.id

theorem targetIds_card (options : ReplicationServiceOptions) {s : Cluster}
    (hhealthy : s.AllHealthy) (call : ChunkUploadedEvent × (Nat → Circumstances)) :
    (targetIds options s call).toFinset.card = min options.replicationFactor s.nodes.length := by
  have hall : s.nodes.filter (·.isHealthy) = s.nodes := List.filter_eq_self.mpr hhealthy
  rw [targetIds, List.toFinset_card_of_nodup (targetsOf_ids_nodup options s _), List.length_map,
    targetsOf_length, hall]

namespace Delivered
variable {chunkId : Uuid} {sizeBytes : Nat} {nodeIds : List Uuid}
  {x y : Cluster × List (Uuid × Uuid)}

theorem mem_holders (h : Delivered chunkId sizeBytes nodeIds x y) {c nodeId : Uuid} :
    nodeId ∈ y.1.holders c ↔ (c = chunkId ∧ nodeId ∈ nodeIds) ∨ nodeId ∈ x.1.holders c := by
  simp only [Cluster.mem_holders, h.rows, Prod.mk.injEq, true_and]
  constructor
  · rintro ⟨size, ⟨hc, hn, -⟩ | ⟨hrow, -⟩⟩
    · exact .inl ⟨hc, hn⟩
    · exact .inr ⟨size, hrow⟩
  · by_cases hplaced : c = chunkId ∧ nodeId ∈ nodeIds
    · exact fun _ => ⟨sizeBytes, .inl ⟨hplaced.1, hplaced.2, rfl⟩⟩
    · rintro (hnew | ⟨size, hrow⟩)
      · exact absurd hnew hplaced
      · exact ⟨size, .inr ⟨hrow, hplaced⟩⟩

theorem allHealthy (h : Delivered chunkId sizeBytes nodeIds x y) (hx : x.1.AllHealthy) :
    y.1.AllHealthy := by
  intro node hn
  rw [h.nodes] at hn
  obtain ⟨old, hold, rfl⟩ := List.mem_map.mp hn
  split_ifs
  · exact hx old hold
  · exact hx old hold

theorem nodes_length (h : Delivered chunkId sizeBytes nodeIds x y) :
    y.1.nodes.length = x.1.nodes.length := by
  rw [h.nodes, List.length_map]

end Delivered

section
variable (options : ReplicationServiceOptions) {s : Cluster}
  {call : ChunkUploadedEvent × (Nat → Circumstances)}

theorem runReplicateChunk_delivers (hcalm : ∀ n, (call.2 n).outcome = .succeeded) (s : Cluster) :
    ∃ y, y.1 = (runReplicateChunk options s call).2 ∧
      Delivered call.1.chunkId call.1.sizeBytes (targetIds options s call) (s, []) y :=
  replicateChunk_delivers options call.1.chunkId call.1.storageKey call.1.sizeBytes hcalm s

/-- A node that is chosen is filled no more than one that is not. -/
theorem usedBytes_le_of_chosen (hhealthy : s.AllHealthy) {a b : StorageNodeRecord}
    (ha : a ∈ s.nodes) (hb : b ∈ s.nodes) (hchosen : a.id ∈ targetIds options s call)
    (hleft : b.id ∉ targetIds options s call) : a.usedBytes ≤ b.usedBytes := by
  obtain ⟨a', ha', hid⟩ := List.mem_map.mp hchosen
  have hsame : a' = a := s.node_unique (mem_of_targetsOf options ha') ha hid
  subst hsame
  have hlisted : b ∈ s.nodes.filter (·.isHealthy) := List.mem_filter.mpr ⟨hb, hhealthy b hb⟩
  exact orderBy_take_le ha' hlisted fun hmem => hleft (List.mem_map_of_mem hmem)

theorem imbalance_runReplicateChunk (hhealthy : s.AllHealthy)
    (hcalm : ∀ n, (call.2 n).outcome = .succeeded) :
    (runReplicateChunk options s call).2.imbalance ≤ max s.imbalance call.1.sizeBytes := by
  obtain ⟨y, hy, hdelivered⟩ := runReplicateChunk_delivers options hcalm s
  have hused : y.1.nodes.map StorageNodeRecord.usedBytes = s.nodes.map fun node =>
      if node.id ∈ targetIds options s call then node.usedBytes + call.1.sizeBytes
      else node.usedBytes := by
    rw [hdelivered.nodes, List.map_map]
    refine List.map_congr_left fun node _ => ?_
    by_cases hmem : node.id ∈ targetIds options s call <;> simp [hmem]
  rw [← hy, Cluster.imbalance, hused]
  exact gap_raise fun a ha b hb => usedBytes_le_of_chosen options hhealthy ha hb

/-- Every node that holds the chunk of the call is one of those it is placed on. -/
def Cluster.KeepsHolders (s : Cluster) (call : ChunkUploadedEvent × (Nat → Circumstances)) : Prop :=
  ∀ nodeId ∈ s.holders call.1.chunkId, nodeId ∈ targetIds options s call

theorem keepsHolders_of_new (hnew : s.holders call.1.chunkId = ∅) :
    s.KeepsHolders options call := by
  intro nodeId hn
  rw [hnew] at hn
  exact absurd hn (Finset.notMem_empty nodeId)

theorem holders_runReplicateChunk (hcalm : ∀ n, (call.2 n).outcome = .succeeded) (s : Cluster) :
    (runReplicateChunk options s call).2.holders call.1.chunkId =
      (targetIds options s call).toFinset ∪ s.holders call.1.chunkId := by
  obtain ⟨y, hy, hdelivered⟩ := runReplicateChunk_delivers options hcalm s
  ext nodeId
  rw [← hy, hdelivered.mem_holders, Finset.mem_union, List.mem_toFinset]
  simp only [true_and]

theorem holders_runReplicateChunk_of_ne (hcalm : ∀ n, (call.2 n).outcome = .succeeded)
    (s : Cluster) {chunkId : Uuid} (hne : chunkId ≠ call.1.chunkId) :
    (runReplicateChunk options s call).2.holders chunkId = s.holders chunkId := by
  obtain ⟨y, hy, hdelivered⟩ := runReplicateChunk_delivers options hcalm s
  ext nodeId
  rw [← hy, hdelivered.mem_holders]
  simp only [hne, false_and, false_or]

theorem holders_eq_targets_iff (hcalm : ∀ n, (call.2 n).outcome = .succeeded) (s : Cluster) :
    (runReplicateChunk options s call).2.holders call.1.chunkId =
      (targetIds options s call).toFinset ↔ s.KeepsHolders options call := by
  rw [holders_runReplicateChunk options hcalm, Finset.union_eq_left, Cluster.KeepsHolders]
  exact forall₂_congr fun nodeId _ => List.mem_toFinset

/-- The chunk of a call lies on as many nodes as the call places it on exactly if it lies on
these nodes alone. -/
theorem holders_card_iff (hhealthy : s.AllHealthy) (hcalm : ∀ n, (call.2 n).outcome = .succeeded) :
    ((runReplicateChunk options s call).2.holders call.1.chunkId).card =
      min options.replicationFactor s.nodes.length ↔ s.KeepsHolders options call := by
  rw [← holders_eq_targets_iff options hcalm, ← targetIds_card options hhealthy call]
  refine ⟨fun hcard => ?_, congrArg Finset.card⟩
  have hsub : (targetIds options s call).toFinset ⊆
      (runReplicateChunk options s call).2.holders call.1.chunkId := by
    rw [holders_runReplicateChunk options hcalm]
    exact Finset.subset_union_left
  exact (Finset.eq_of_subset_of_card_le hsub hcard.le).symm

end

/-! ### Runs -/

def largestChunk (calls : List (ChunkUploadedEvent × (Nat → Circumstances))) : Nat :=
  (calls.map fun call => call.1.sizeBytes).foldr max 0

/-- The chunk of each of the calls lies on as many nodes as it should. -/
def Cluster.Spread (s : Cluster) (replicas : Nat)
    (calls : List (ChunkUploadedEvent × (Nat → Circumstances))) : Prop :=
  ∀ call ∈ calls, (s.holders call.1.chunkId).card = replicas

section
variable (options : ReplicationServiceOptions) {s₀ : Cluster}
  {calls : List (ChunkUploadedEvent × (Nat → Circumstances))}

/-- The nodes stay what they are but for their `used_bytes`, which stay balanced. -/
structure Levelled (s₀ : Cluster) (past : List (ChunkUploadedEvent × (Nat → Circumstances)))
    (s : Cluster) : Prop where
  healthy : s.AllHealthy
  length : s.nodes.length = s₀.nodes.length
  balanced : s.imbalance ≤ max s₀.imbalance (largestChunk past)

theorem Levelled.step {past : List (ChunkUploadedEvent × (Nat → Circumstances))} {s : Cluster}
    {call : ChunkUploadedEvent × (Nat → Circumstances)} (h : Levelled s₀ past s)
    (hcalm : ∀ n, (call.2 n).outcome = .succeeded) :
    Levelled s₀ (past ++ [call]) (runReplicateChunk options s call).2 := by
  obtain ⟨y, hy, hdelivered⟩ := runReplicateChunk_delivers options hcalm s
  refine ⟨hy ▸ hdelivered.allHealthy h.healthy, ?_, ?_⟩
  · rw [← hy, hdelivered.nodes_length]
    exact h.length
  · calc (runReplicateChunk options s call).2.imbalance
        ≤ max s.imbalance call.1.sizeBytes := imbalance_runReplicateChunk options h.healthy hcalm
      _ ≤ max (max s₀.imbalance (largestChunk past)) call.1.sizeBytes :=
        max_le_max_right _ h.balanced
      _ = max s₀.imbalance (largestChunk (past ++ [call])) := by
        rw [largestChunk, largestChunk, List.map_append, List.map_singleton, foldr_max_concat,
          max_assoc]

theorem levelled_run (hhealthy : s₀.AllHealthy)
    (hcalm : ∀ call ∈ calls, ∀ n, (call.2 n).outcome = .succeeded) :
    Levelled s₀ calls (finalState (runReplicateChunk options) s₀ calls) :=
  finalState_history (Levelled s₀) (fun _ _ _ hcall h => h.step options hcall)
    (guarded_of_forall hcalm) ⟨hhealthy, rfl, le_max_left _ _⟩

/-- A call keeps the chunks spread exactly if all who hold its chunk are chosen again. -/
theorem spread_step_iff {past : List (ChunkUploadedEvent × (Nat → Circumstances))} {s : Cluster}
    {call : ChunkUploadedEvent × (Nat → Circumstances)} (h : Levelled s₀ past s)
    (hcalm : ∀ n, (call.2 n).outcome = .succeeded)
    (hspread : s.Spread (min options.replicationFactor s₀.nodes.length) past) :
    (runReplicateChunk options s call).2.Spread (min options.replicationFactor s₀.nodes.length)
      (past ++ [call]) ↔ s.KeepsHolders options call := by
  rw [← h.length] at hspread ⊢
  constructor
  · intro hnext
    exact (holders_card_iff options h.healthy hcalm).mp
      (hnext call (List.mem_append_right _ (List.mem_singleton_self _)))
  · intro hkeeps other hother
    by_cases hchunk : other.1.chunkId = call.1.chunkId
    · rw [hchunk]
      exact (holders_card_iff options h.healthy hcalm).mpr hkeeps
    · rw [holders_runReplicateChunk_of_ne options hcalm s hchunk]
      rcases List.mem_append.mp hother with hpast | hlast
      · exact hspread other hpast
      · rw [List.mem_singleton.mp hlast] at hchunk
        exact absurd rfl hchunk

/-- After every call of every run without failures the nodes are balanced; and the chunks are
spread after every call exactly if no call is for a chunk that lies on a node it does not choose. -/
theorem placement_spread_iff (hhealthy : s₀.AllHealthy)
    (hcalm : ∀ call ∈ calls, ∀ n, (call.2 n).outcome = .succeeded) :
    (∀ pre, pre <+: calls → (finalState (runReplicateChunk options) s₀ pre).imbalance ≤
      max s₀.imbalance (largestChunk pre)) ∧
    ((∀ pre, pre <+: calls →
        (finalState (runReplicateChunk options) s₀ pre).imbalance ≤
          max s₀.imbalance (largestChunk pre) ∧
        (finalState (runReplicateChunk options) s₀ pre).Spread
          (min options.replicationFactor s₀.nodes.length) pre) ↔
      Guarded (runReplicateChunk options) (fun s call => s.KeepsHolders options call) s₀ calls) := by
  have hlevelled : ∀ pre, pre <+: calls →
      Levelled s₀ pre (finalState (runReplicateChunk options) s₀ pre) := fun pre hpre =>
    levelled_run options hhealthy fun call hcall => hcalm call (hpre.subset hcall)
  refine ⟨fun pre hpre => (hlevelled pre hpre).balanced, ?_⟩
  have hguarded : Guarded (runReplicateChunk options) (fun s call => s.KeepsHolders options call)
      s₀ calls ↔ ∀ pre, pre <+: calls →
        Levelled s₀ pre (finalState (runReplicateChunk options) s₀ pre) ∧
          (finalState (runReplicateChunk options) s₀ pre).Spread
            (min options.replicationFactor s₀.nodes.length) pre := by
    apply guarded_iff_forall_history (fun past s => Levelled s₀ past s ∧
      s.Spread (min options.replicationFactor s₀.nodes.length) past) ?_ (guarded_of_forall hcalm)
    · exact ⟨⟨hhealthy, rfl, le_max_left _ _⟩, fun call hcall => by cases hcall⟩
    · intro past s call hcall h
      rw [and_iff_right (h.1.step options hcall)]
      exact spread_step_iff options h.1 hcall h.2
  rw [hguarded]
  refine forall₂_congr fun pre hpre => and_congr_left fun _ => ?_
  exact iff_of_true (hlevelled pre hpre).balanced (hlevelled pre hpre)

end

/-! One chunk replicated twice, and two chunks once each. -/

theorem chunk_on_third_node :
    ¬∀ (s₀ : Cluster) (calls : List (ChunkUploadedEvent × (Nat → Circumstances))),
      s₀.AllHealthy → (∀ call ∈ calls, ∀ n, (call.2 n).outcome = .succeeded) →
        (finalState (runReplicateChunk .sample) s₀ calls).imbalance ≤
            max s₀.imbalance (largestChunk calls) ∧
          (finalState (runReplicateChunk .sample) s₀ calls).Spread
            (min ReplicationServiceOptions.sample.replicationFactor s₀.nodes.length) calls := by
  intro h
  obtain ⟨-, hspread⟩ := h (.installed 3)
    [(⟨7, "chunks/a", 5⟩, fun _ => .calm 1), (⟨7, "chunks/a", 5⟩, fun _ => .calm 2)] (by decide)
    (by simp [Circumstances.calm])
  exact absurd (hspread _ List.mem_cons_self) (by decide)

theorem placement_spread_iff_sample :
    let calls : List (ChunkUploadedEvent × (Nat → Circumstances)) :=
      [(⟨7, "chunks/a", 5⟩, fun _ => .calm 1), (⟨8, "chunks/b", 3⟩, fun _ => .calm 2)]
    ∀ pre, pre <+: calls →
      (finalState (runReplicateChunk .sample) (.installed 3) pre).imbalance ≤
          max (Cluster.installed 3).imbalance (largestChunk pre) ∧
        (finalState (runReplicateChunk .sample) (.installed 3) pre).Spread
          (min ReplicationServiceOptions.sample.replicationFactor
            (Cluster.installed 3).nodes.length) pre := by
  intro calls
  have hguarded : Guarded (runReplicateChunk .sample) (fun s call => s.KeepsHolders .sample call)
      (.installed 3) calls :=
    ⟨keepsHolders_of_new .sample (by decide), keepsHolders_of_new .sample (by decide), trivial⟩
  exact (placement_spread_iff .sample (by decide)
    (by simp [calls, Circumstances.calm])).2.mpr hguarded

end IntelliStore.Replication
