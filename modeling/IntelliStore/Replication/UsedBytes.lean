import IntelliStore.Library.Runs
import IntelliStore.Replication.Backing
import IntelliStore.Storage.Backend
import Mathlib.Algebra.BigOperators.Group.Finset.Basic

/-! The `used_bytes` of a node and the objects in its bucket, after any history. -/

namespace IntelliStore.Replication
open Library Postgres
open Storage (Objects)

/-! ### The bytes in the buckets -/

/-- The bytes that a copy of the object takes. -/
def objectSize (primary : Objects) (key : String) : Nat :=
  ((primary.lookup key).getD []).length

def ChunkReplicaRecord.event (r : ChunkReplicaRecord) : ChunkUploadedEvent :=
  ⟨r.chunkId, r.storageKey, r.sizeBytes⟩

namespace Cluster
variable {primary : Objects} {s t : Cluster}

def bucketBytes (primary : Objects) (s : Cluster) (bucket : String) : Nat :=
  ∑ object ∈ s.objects.filter fun object => object.1 = bucket, objectSize primary object.2

/-- The `used_bytes` of every node is what its bucket holds. -/
def Truthful (primary : Objects) (s : Cluster) : Prop :=
  ∀ node ∈ s.nodes, node.usedBytes = s.bucketBytes primary node.bucket

instance (primary : Objects) (s : Cluster) : Decidable (s.Truthful primary) :=
  inferInstanceAs (Decidable (∀ node ∈ s.nodes, _))

def fills (s : Cluster) : List (String × Nat) :=
  s.nodes.map fun node => (node.bucket, node.usedBytes)

theorem Truthful.keep (h : s.Truthful primary) (hfills : t.fills = s.fills)
    (hobjects : t.objects = s.objects) : t.Truthful primary := by
  intro node hn
  have hmem : (node.bucket, node.usedBytes) ∈ s.fills := hfills ▸ List.mem_map_of_mem hn
  obtain ⟨node', hn', heq⟩ := List.mem_map.mp hmem
  rw [Prod.mk.injEq] at heq
  have hbytes := h node' hn'
  rw [heq.1, heq.2] at hbytes
  rw [hbytes, bucketBytes, bucketBytes, hobjects]

theorem bucketBytes_copyToNode {key bucket : String} (hnew : (bucket, key) ∉ s.objects)
    (b : String) : (s.copyToNode key bucket).bucketBytes primary b =
      s.bucketBytes primary b + if bucket = b then objectSize primary key else 0 := by
  rw [bucketBytes, copyToNode, Finset.filter_insert]
  split_ifs with hb
  · rw [Finset.sum_insert (fun hmem => hnew (Finset.mem_filter.mp hmem).1), add_comm, bucketBytes]
  · rfl

/-- A copy of a new object, with the increment that follows it. -/
theorem Truthful.place (h : s.Truthful primary) {nodeId : Uuid} {key bucket : String}
    (hnode : (nodeId, bucket) ∈ s.buckets) (hnew : (bucket, key) ∉ s.objects) :
    ((s.copyToNode key bucket).incrementUsedBytes nodeId (objectSize primary key)).Truthful
      primary := by
  obtain ⟨target, htarget, heq⟩ := List.mem_map.mp hnode
  rw [Prod.mk.injEq] at heq
  obtain ⟨rfl, rfl⟩ := heq
  intro node hn
  obtain ⟨old, hold, rfl⟩ := List.mem_map.mp hn
  have hbytes : ∀ b, ((s.copyToNode key target.bucket).incrementUsedBytes target.id
      (objectSize primary key)).bucketBytes primary b = s.bucketBytes primary b +
        if target.bucket = b then objectSize primary key else 0 := bucketBytes_copyToNode hnew
  rw [hbytes]
  split_ifs with hid hbucket hbucket
  · rw [← h old hold]
  · rw [node_unique hold htarget hid] at hbucket
    exact absurd rfl hbucket
  -- no other node has this bucket
  · rw [List.inj_on_of_nodup_map s.nodes_bucket_key hold htarget hbucket.symm] at hid
    exact absurd rfl hid
  · rw [← h old hold, add_zero]

/-- Every row is as the event of its chunk has it. -/
def Announces (past : List ChunkUploadedEvent) (s : Cluster) : Prop :=
  ∀ r ∈ s.replicas, r.event ∈ past

theorem Announces.keep {past : List ChunkUploadedEvent} (h : s.Announces past)
    (hevents : t.replicas.map ChunkReplicaRecord.event =
      s.replicas.map ChunkReplicaRecord.event) : t.Announces past := by
  intro r hr
  have hmem : r.event ∈ s.replicas.map ChunkReplicaRecord.event :=
    hevents ▸ List.mem_map_of_mem hr
  obtain ⟨r₀, hr₀, heq⟩ := List.mem_map.mp hmem
  exact heq ▸ h r₀ hr₀

/-- An upsert with the values of the event of the chunk. -/
theorem Announces.upsert {past : List ChunkUploadedEvent} (h : s.Announces past)
    (hpast : (past.map ChunkUploadedEvent.chunkId).Nodup) {chunk : ChunkUploadedEvent}
    (hchunk : chunk ∈ past) {now : Nat} {nodeId : Uuid} {status : ReplicaStatus}
    {row : ChunkReplicaRecord}
    (hupsert : s.upsert now chunk.chunkId nodeId chunk.storageKey chunk.sizeBytes status =
      some (row, t)) : t.Announces past := by
  obtain ⟨-, -, ⟨old, hold, hid, -, -, hreplicas⟩ | ⟨-, -, rfl, hreplicas⟩⟩ := upsert_inv hupsert
  · intro r hr
    rw [hreplicas] at hr
    obtain ⟨r₀, hr₀, rfl⟩ := List.mem_map.mp hr
    split
    · rename_i heq
      rw [replica_unique hr₀ hold heq]
      have hsame : old.event = chunk := List.inj_on_of_nodup_map hpast (h old hold) hchunk hid
      have hevent : ChunkReplicaRecord.event { old with
          status := status, sizeBytes := chunk.sizeBytes, lastVerifiedAt := some now } = chunk := by
        rw [← hsame]
        rfl
      rw [hevent]
      exact hchunk
    · exact h r₀ hr₀
  · intro r hr
    rw [hreplicas, List.mem_append, List.mem_singleton] at hr
    rcases hr with hr | rfl
    · exact h r hr
    · exact hchunk

/-- `MAX` over the rows of a chunk gives back its event. -/
theorem Announces.group_mem {past : List ChunkUploadedEvent} (h : s.Announces past)
    (hpast : (past.map ChunkUploadedEvent.chunkId).Nodup) {r : ChunkReplicaRecord}
    (hr : r ∈ s.replicas) :
    ⟨r.chunkId, (s.group r.chunkId).storageKey, (s.group r.chunkId).sizeBytes⟩ ∈ past := by
  have hrows : ∀ q ∈ s.rowsOf r.chunkId, q.event = r.event := by
    intro q hq
    obtain ⟨hq, hchunk⟩ := mem_rowsOf.mp hq
    exact List.inj_on_of_nodup_map hpast (h q hq) (h r hr) hchunk
  have hmem : r ∈ s.rowsOf r.chunkId := mem_rowsOf.mpr ⟨hr, rfl⟩
  have hkey : (s.group r.chunkId).storageKey = r.storageKey := by
    apply foldr_max_eq (List.ne_nil_of_mem (List.mem_map_of_mem hmem))
    · intro k hk
      obtain ⟨q, hq, rfl⟩ := List.mem_map.mp hk
      exact congrArg ChunkUploadedEvent.storageKey (hrows q hq)
    · rw [String.le_iff_toList_le]
      exact not_lt.mp (List.not_lt_nil _)
  have hsize : (s.group r.chunkId).sizeBytes = r.sizeBytes := by
    apply foldr_max_eq (List.ne_nil_of_mem (List.mem_map_of_mem hmem))
    · intro n hn
      obtain ⟨q, hq, rfl⟩ := List.mem_map.mp hn
      exact congrArg ChunkUploadedEvent.sizeBytes (hrows q hq)
    · exact Nat.zero_le _
  rw [hkey, hsize]
  exact h r hr

end Cluster

/-! ### Statements -/

/-- The object that the statement copies to. -/
def Statement.destination : Statement → Option (String × String)
  | .copyToNode _ key destBucket => some (destBucket, key)
  | _ => none

/-- Nothing but a copy fails. -/
def Statement.OnlyCopyFails (c : Statement) (w : Circumstances) (_ : Cluster) : Prop :=
  c.destination = none → w.outcome = .succeeded

/-- A copy that succeeds is of an object its bucket does not hold; one that is reported to fail
has stored nothing new. -/
def Statement.CopiesOnce (c : Statement) (w : Circumstances) (s : Cluster) : Prop :=
  ∀ object ∈ c.destination, (w.outcome = .succeeded → object ∉ s.objects) ∧
    (w.outcome = .unacknowledged → object ∈ s.objects)

instance (c : Statement) (w : Circumstances) (s : Cluster) : Decidable (c.OnlyCopyFails w s) :=
  inferInstanceAs (Decidable (_ → _))

instance (c : Statement) (w : Circumstances) (s : Cluster) : Decidable (c.CopiesOnce w s) :=
  inferInstanceAs (Decidable (∀ object ∈ c.destination, _))

/-- The state between two operations. -/
structure Consistent (primary : Objects) (past : List ChunkUploadedEvent) (s : Cluster) : Prop where
  truthful : s.Truthful primary
  announces : s.Announces past

def counting : Contract Statement Statement.Reply Failure Circumstances Cluster where
  exec := Statement.exec
  allowed c w s := c.OnlyCopyFails w s ∧ c.CopiesOnce w s
  rely := Eq
  guar _ _ := True

theorem counting_lawful : counting.Lawful := ⟨fun _ => rfl, fun _ _ _ h h' => h.trans h'⟩

/-- The statement changes neither a bucket, nor what is known of its fill, nor a chunk's row. -/
def Statement.uncounted : Statement → Bool
  | .copyToNode .. | .incrementUsedBytes .. | .upsert .. => false
  | _ => true

section
variable {primary : Objects} {past : List ChunkUploadedEvent} {x y : Cluster}

theorem Consistent.uncounted (h : Consistent primary past x) {c : Statement}
    (hc : c.uncounted = true) (w : Circumstances) : Consistent primary past (c.exec w x).2 := by
  rcases c.exec_cases w x with he | he <;> rw [he]
  · exact h
  · have hfill : ∀ (p : StorageNodeRecord → Prop) [DecidablePred p]
        (g : StorageNodeRecord → StorageNodeRecord),
        (∀ node, ((g node).bucket, (g node).usedBytes) = (node.bucket, node.usedBytes)) →
          (x.nodes.map fun node => if p node then g node else node).map
            (fun node => (node.bucket, node.usedBytes)) = x.fills :=
      fun p _ g hg => map_update hg p x.nodes
    cases c with
    | setHealth id isHealthy heartbeatAt =>
      exact ⟨h.truthful.keep (hfill _ _ fun _ => rfl) rfl, h.announces⟩
    | markStale id => exact ⟨h.truthful.keep (hfill _ _ fun _ => rfl) rfl, h.announces⟩
    | markLost replicaId =>
      refine ⟨h.truthful.keep rfl rfl, h.announces.keep ?_⟩
      exact map_update (f := ChunkReplicaRecord.event)
        (g := fun r => { r with status := .lost }) (fun _ => rfl) _ _
    | copyToNode sourceBucket key destBucket => cases hc
    | incrementUsedBytes id deltaBytes => cases hc
    | upsert chunkId nodeId storageKey sizeBytes status => cases hc
    | _ => exact h

theorem sat_uncounted {α : Type} {p : Service α} (hp : p.OnlyIssues fun c => c.uncounted = true)
    (h : Consistent primary past x) :
    p.sat counting (fun _ y => Consistent primary past y) x :=
  Prog.sat_of_issues (Consistent primary past) (fun s t (heq : s = t) hy => heq ▸ hy)
    (fun _ w _ hc _ hy => ⟨trivial, hy.uncounted hc w⟩) hp h

/-- The rule for a query. -/
theorem sat_query {α : Type} {c : Statement} {f : c.Reply → Service α}
    {Q : Except Failure α → Cluster → Prop} (hc : c.destination = none)
    (hread : ∀ w, (c.effect w x).2 = x)
    (h : ∀ w, Prog.sequel counting Q f (c.effect w x).1 x) :
    (Prog.perform c >>= f).sat counting Q x := by
  rw [Prog.sat_bind]
  rintro t rfl w ⟨hw, -⟩
  have hexec : counting.exec c w x = c.effect w x := c.exec_of_succeeded (hw hc) x
  rw [hexec, hread]
  exact ⟨trivial, h w⟩

/-! ### Placing a chunk -/

variable (options : ReplicationServiceOptions) {chunk : ChunkUploadedEvent}

/-- A copy fails and stores nothing new, or stores a new object. -/
theorem copyToNode_cases {sourceBucket key bucket : String} {w : Circumstances}
    (h : (Statement.copyToNode sourceBucket key bucket).CopiesOnce w x) :
    (Statement.copyToNode sourceBucket key bucket).exec w x = (.error .library, x) ∨
      ((bucket, key) ∉ x.objects ∧
        (Statement.copyToNode sourceBucket key bucket).exec w x =
          (.ok (), x.copyToNode key bucket)) := by
  obtain ⟨hnew, hheld⟩ := h (bucket, key) rfl
  unfold Statement.exec
  cases hw : w.outcome with
  | failed => exact .inl rfl
  | succeeded => exact .inr ⟨hnew hw, rfl⟩
  | unacknowledged =>
    left
    simp only [Statement.remote, Statement.effect, Cluster.copyToNode]
    congr
    exact Finset.insert_eq_of_mem (hheld hw)

theorem sat_replicateToNode_counting (h : Consistent primary past x)
    (hsize : objectSize primary chunk.storageKey = chunk.sizeBytes) {node : StorageNodeRecord}
    (hnode : (node.id, node.bucket) ∈ x.buckets) :
    (ReplicationService.replicateToNode options chunk.storageKey chunk.sizeBytes node).sat counting
      (fun _ y => Consistent primary past y ∧ y.buckets = x.buckets) x := by
  rw [ReplicationService.replicateToNode, Prog.sat_bind]
  rintro t rfl w ⟨-, honce⟩
  refine ⟨trivial, ?_⟩
  rcases copyToNode_cases honce with hcopy | ⟨hnew, hcopy⟩
  · have hexec : counting.exec (.copyToNode options.primaryBucket chunk.storageKey node.bucket)
        w x = _ := hcopy
    rw [hexec]
    exact ⟨h, rfl⟩
  · have hexec : counting.exec (.copyToNode options.primaryBucket chunk.storageKey node.bucket)
        w x = _ := hcopy
    rw [hexec]
    rintro t rfl w' ⟨hw', -⟩
    have hincrement : counting.exec (.incrementUsedBytes node.id chunk.sizeBytes) w'
        (x.copyToNode chunk.storageKey node.bucket) = _ :=
      Statement.exec_of_succeeded _ (hw' rfl) _
    rw [hincrement]
    have htruthful := h.truthful.place hnode hnew
    rw [hsize] at htruthful
    exact ⟨trivial, ⟨htruthful, h.announces⟩, Cluster.incrementUsedBytes_buckets _ _ _⟩

theorem sat_placeOn_counting (hpast : (past.map ChunkUploadedEvent.chunkId).Nodup)
    (hchunk : chunk ∈ past) (h : Consistent primary past x)
    (hsize : objectSize primary chunk.storageKey = chunk.sizeBytes) {node : StorageNodeRecord}
    (hnode : (node.id, node.bucket) ∈ x.buckets) :
    (placeOn options chunk.chunkId chunk.storageKey chunk.sizeBytes node).sat counting
      (fun _ y => Consistent primary past y ∧ y.buckets = x.buckets) x := by
  rw [placeOn, Prog.sat_bind]
  refine Prog.sat_mono ?_ (sat_replicateToNode_counting options h hsize hnode)
  rintro (e | done) y ⟨hy, hbuckets⟩
  · exact ⟨hy, hbuckets⟩
  · rintro t rfl w ⟨hw, -⟩
    have hexec : counting.exec (.upsert chunk.chunkId node.id chunk.storageKey chunk.sizeBytes
        .synced) w y = _ := Statement.exec_of_succeeded _ (hw rfl) _
    rw [hexec, Statement.effect]
    refine ⟨trivial, ?_⟩
    split
    · rename_i row t hupsert
      obtain ⟨hnodes, hobjects, -⟩ := Cluster.upsert_inv hupsert
      have hfills : t.fills = y.fills := by rw [Cluster.fills, hnodes, Cluster.fills]
      refine ⟨⟨hy.truthful.keep hfills hobjects, hy.announces.upsert hpast hchunk hupsert⟩, ?_⟩
      rw [← hbuckets, Cluster.buckets, hnodes, Cluster.buckets]
    · exact ⟨hy, hbuckets⟩

theorem sat_copyToTargets_counting (hpast : (past.map ChunkUploadedEvent.chunkId).Nodup)
    (hchunk : chunk ∈ past) (h : Consistent primary past x)
    (hsize : objectSize primary chunk.storageKey = chunk.sizeBytes)
    {targets : List StorageNodeRecord}
    (htargets : ∀ node ∈ targets, (node.id, node.bucket) ∈ x.buckets) :
    (ReplicationService.copyToTargets options chunk.chunkId chunk.storageKey chunk.sizeBytes
      targets).sat counting (fun _ y => Consistent primary past y) x := by
  let Inv (targets : List StorageNodeRecord) (y : Cluster) : Prop :=
    Consistent primary past y ∧ ∀ node ∈ targets, (node.id, node.bucket) ∈ y.buckets
  have hstart : Inv targets x := ⟨h, htargets⟩
  have hloop := sat_copyToTargets options chunk.chunkId chunk.storageKey chunk.sizeBytes
    (w := counting) Inv (fun node targets y hy => ?_) hstart
  · exact Prog.sat_mono (fun _ _ hy => hy.1) hloop
  · obtain ⟨hy, hknown⟩ := hy
    refine Prog.sat_mono ?_ (sat_placeOn_counting options hpast hchunk hy hsize
      (hknown node List.mem_cons_self))
    rintro _ z ⟨hz, hbuckets⟩
    refine ⟨hz, fun n hn => ?_⟩
    rw [hbuckets]
    exact hknown n (List.mem_cons_of_mem _ hn)

theorem listHealthy_buckets {rank : Uuid → Nat} {node : StorageNodeRecord}
    (h : node ∈ x.listHealthy rank) : (node.id, node.bucket) ∈ x.buckets :=
  List.mem_map_of_mem (List.mem_filter.mp ((x.listHealthy_perm rank).mem_iff.mp h)).1

theorem sat_replicateChunk_counting (hpast : (past.map ChunkUploadedEvent.chunkId).Nodup)
    (hchunk : chunk ∈ past) (h : Consistent primary past x)
    (hsize : objectSize primary chunk.storageKey = chunk.sizeBytes) :
    (ReplicationService.replicateChunk options chunk.chunkId chunk.storageKey
      chunk.sizeBytes).sat counting (fun _ y => Consistent primary past y) x := by
  apply sat_query rfl (fun _ => rfl)
  intro w
  show (replicateOnto options _ _ _ (x.listHealthy w.uuidRank)).sat counting _ x
  rw [replicateOnto]
  split_ifs
  · exact h
  · apply sat_copyToTargets_counting options hpast hchunk h hsize
    exact fun node hn => listHealthy_buckets (List.mem_of_mem_take hn)

theorem sat_healChunk_counting (hpast : (past.map ChunkUploadedEvent.chunkId).Nodup)
    (hchunk : chunk ∈ past) (h : Consistent primary past x)
    (hsize : objectSize primary chunk.storageKey = chunk.sizeBytes) (neededCount : Nat)
    (excludeNodeIds : List Uuid) :
    (ReplicationService.healChunk options chunk.chunkId chunk.storageKey chunk.sizeBytes
      neededCount excludeNodeIds).sat counting (fun _ y => Consistent primary past y) x := by
  unfold ReplicationService.healChunk
  split_ifs
  · exact h
  · apply sat_query rfl (fun _ => rfl)
    intro w
    rw [Statement.effect, Prog.sequel]
    dsimp only
    split_ifs
    · exact h
    · apply sat_copyToTargets_counting options hpast hchunk h hsize
      exact fun node hn => listHealthy_buckets
        (List.mem_of_mem_filter (List.mem_of_mem_take hn))

/-- The chunks on the list are chunks of the events. -/
theorem sat_reconcile_counting (hpast : (past.map ChunkUploadedEvent.chunkId).Nodup)
    (hsizes : ∀ chunk ∈ past, objectSize primary chunk.storageKey = chunk.sizeBytes)
    (h : Consistent primary past x) :
    (SelfHealingService.reconcileUnderReplicatedChunks options).sat counting
      (fun _ y => Consistent primary past y) x := by
  apply sat_query rfl (fun _ => rfl)
  intro w
  let Inv (chunks : List UnderReplicatedChunk) (y : Cluster) : Prop :=
    Consistent primary past y ∧ ∀ chunk ∈ chunks,
      (⟨chunk.chunkId, chunk.storageKey, chunk.sizeBytes⟩ : ChunkUploadedEvent) ∈ past
  have hstart : Inv (x.listUnderReplicated w.uuidRank options.replicationFactor) x := by
    refine ⟨h, fun chunk hc => ?_⟩
    obtain ⟨r, hr, rfl, -⟩ := Cluster.mem_listUnderReplicated.mp hc
    exact h.announces.group_mem hpast hr
  refine sat_reconcileEach options Inv _ (fun _ _ hy => hy.1) (fun chunk chunks y hy => ?_) hstart
  obtain ⟨hy, hlisted⟩ := hy
  have hchunk := hlisted chunk List.mem_cons_self
  have hrest := fun c hc => hlisted c (List.mem_cons_of_mem _ hc)
  apply sat_query rfl (fun _ => rfl)
  intro w'
  refine Prog.sat_mono (fun _ _ hz => ⟨hz, hrest⟩) ?_
  exact sat_healChunk_counting options hpast hchunk hy (hsizes _ hchunk) _ _

end

/-! ### Runs -/

/-- The chunk that the operation replicates. -/
def Operation.announced : Operation → List ChunkUploadedEvent
  | .replicateChunk chunk => [chunk]
  | _ => []

theorem Consistent.mono {primary : Objects} {past past' : List ChunkUploadedEvent} {s : Cluster}
    (h : Consistent primary past s) (hsub : past ⊆ past') : Consistent primary past' s :=
  ⟨h.truthful, fun r hr => hsub (h.announces r hr)⟩

theorem sat_operation_counting (options : ReplicationServiceOptions) {primary : Objects}
    {past : List ChunkUploadedEvent} {x : Cluster} (op : Operation)
    (hpast : ((past ++ op.announced).map ChunkUploadedEvent.chunkId).Nodup)
    (hsizes : ∀ chunk ∈ past ++ op.announced,
      objectSize primary chunk.storageKey = chunk.sizeBytes)
    (h : Consistent primary past x) :
    (op.service options).sat counting
      (fun _ y => Consistent primary (past ++ op.announced) y) x := by
  have h := h.mono (List.subset_append_left past op.announced)
  cases op with
  | replicateChunk chunk =>
    have hchunk : chunk ∈ past ++ (Operation.replicateChunk chunk).announced :=
      List.mem_append_right _ List.mem_cons_self
    show (ReplicationService.onChunkUploaded options [chunk]).sat counting _ x
    rw [ReplicationService.onChunkUploaded, Prog.sat_bind]
    refine Prog.sat_mono ?_ (sat_replicateChunk_counting options hpast hchunk h
      (hsizes chunk hchunk))
    rintro (e | rows) y hy
    · exact hy
    · exact hy
  | heartbeat name =>
    exact sat_uncounted (onlyIssues_postHeartbeat (K := fun c => c.uncounted = true)
      (fun _ => rfl) rfl (fun _ _ _ => rfl) name) h
  | stalenessSweep staleMs =>
    exact sat_uncounted (onlyIssues_tick (K := fun c => c.uncounted = true) rfl rfl
      (fun _ => rfl) staleMs) h
  | healingSweep =>
    show (SelfHealingService.healOnce options).sat counting _ x
    rw [SelfHealingService.healOnce, Prog.sat_bind]
    refine Prog.sat_mono ?_ (sat_uncounted (onlyIssues_markReplicasOnUnhealthyNodesLost rfl
      (fun _ => rfl) fun _ => rfl) h)
    rintro (e | done) y hy
    · exact hy
    · exact sat_reconcile_counting options hpast hsizes hy

/-- From empty buckets, while nothing but copies fails: if no copy stores an object a second
time, and none that fails stores one, the `used_bytes` of every node is the total size of the
objects in its bucket after any history. -/
theorem used_bytes_truthful (options : ReplicationServiceOptions) (primary : Objects)
    (s₀ : Cluster) (hreplicas : s₀.replicas = []) (hobjects : s₀.objects = ∅)
    (hused : ∀ node ∈ s₀.nodes, node.usedBytes = 0)
    (history : List (Operation × (Nat → Circumstances)))
    (huploaded : ∀ chunk ∈ history.flatMap fun op => op.1.announced,
      ∃ data, primary.lookup chunk.storageKey = some data ∧ data.length = chunk.sizeBytes)
    (honce : ((history.flatMap fun op => op.1.announced).map ChunkUploadedEvent.chunkId).Nodup)
    (hfailures : Guarded (operate options) (fun s op =>
      (op.1.service options).Meets Statement.OnlyCopyFails Statement.exec op.2 s) s₀ history)
    (hcopies : Guarded (operate options) (fun s op =>
      (op.1.service options).Meets Statement.CopiesOnce Statement.exec op.2 s) s₀ history) :
    (finalState (operate options) s₀ history).Truthful primary := by
  have hsizes : ∀ chunk ∈ history.flatMap fun op => op.1.announced,
      objectSize primary chunk.storageKey = chunk.sizeBytes := by
    intro chunk hc
    obtain ⟨data, hdata, hlength⟩ := huploaded chunk hc
    rw [objectSize, hdata, ← hlength]
    rfl
  have hstart : Consistent primary [] s₀ := by
    refine ⟨fun node hn => ?_, fun r hr => ?_⟩
    · rw [hused node hn, Cluster.bucketBytes, hobjects]
      rfl
    · rw [hreplicas] at hr
      cases hr
  -- the events of a prefix are among those of the history
  let P (past : List (Operation × (Nat → Circumstances))) (s : Cluster) : Prop :=
    past <+: history → Consistent primary (past.flatMap fun op => op.1.announced) s
  have hallowed : Guarded (operate options) (fun s op => (op.1.service options).Meets
      counting.allowed Statement.exec op.2 s) s₀ history :=
    hfailures.and hcopies fun s op hf hc => hf.and hc
  have hrun := finalState_history P (fun past s op hop hP hbegins => ?_) hallowed fun _ => hstart
  · exact (hrun (List.prefix_refl _)).truthful
  · obtain ⟨rest, hrest⟩ := hbegins
    have hevents : history.flatMap (fun op => op.1.announced) =
        past.flatMap (fun op => op.1.announced) ++ op.1.announced ++
          rest.flatMap fun op => op.1.announced := by
      rw [← hrest, List.flatMap_append, List.flatMap_append, List.flatMap_singleton]
    rw [hevents] at honce hsizes
    rw [List.map_append] at honce
    have hsat := sat_operation_counting options op.1 (List.nodup_append.mp honce).1
      (fun chunk hc => hsizes chunk (List.mem_append_left _ hc))
      (hP ⟨[op] ++ rest, by rw [← hrest, List.append_assoc]⟩)
    rw [List.flatMap_append, List.flatMap_singleton]
    exact Prog.sat_run counting_lawful op.2 hsat hop

/-! Chunks of five bytes. -/

def fiveBytes : Objects :=
  (Finmap.singleton "chunks/b" [1, 2, 3, 4, 6]).insert "chunks/a" [1, 2, 3, 4, 5]

/-- Two chunks with the same content. -/
def equalChunks : List (Operation × (Nat → Circumstances)) :=
  [(.replicateChunk ⟨7, "chunks/a", 5⟩, fun _ => .calm 1),
    (.replicateChunk ⟨8, "chunks/a", 5⟩, fun _ => .calm 2)]

theorem equal_chunks_counted_twice :
    ¬∀ history : List (Operation × (Nat → Circumstances)),
      (∀ chunk ∈ history.flatMap fun op => op.1.announced, ∃ data,
        fiveBytes.lookup chunk.storageKey = some data ∧ data.length = chunk.sizeBytes) →
      ((history.flatMap fun op => op.1.announced).map ChunkUploadedEvent.chunkId).Nodup →
      Guarded (operate .sample) (fun s op =>
        (op.1.service .sample).Meets Statement.OnlyCopyFails Statement.exec op.2 s)
        (.installed 2) history →
      (finalState (operate .sample) (.installed 2) history).Truthful fiveBytes := by
  intro h
  have htruthful := h equalChunks (by decide) (by decide) (by decide)
  exact absurd htruthful (by decide)

/-- The copies to one node fail until the sweep, a chunk of another content between them. -/
def healedChunk : List (Operation × (Nat → Circumstances)) :=
  [(.replicateChunk ⟨7, "chunks/a", 5⟩,
      fun n => if n = 1 then ⟨.failed, 1, fun _ => 0, fun _ => 0⟩ else .calm 1),
    (.replicateChunk ⟨8, "chunks/b", 5⟩, fun _ => .calm 2), (.healingSweep, fun _ => .calm 3)]

theorem used_bytes_truthful_healed :
    (finalState (operate .sample) (.installed 2) healedChunk).Truthful fiveBytes :=
  used_bytes_truthful .sample fiveBytes (.installed 2) rfl rfl (by decide) healedChunk (by decide)
    (by decide) (by decide) (by decide)

end IntelliStore.Replication
