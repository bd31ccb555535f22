import IntelliStore.Library.Traces
import IntelliStore.Replication.Convergence
import IntelliStore.Replication.ServiceRules

/-! What a sweep of `SelfHealingService` does while copies, increments and upserts may fail: the
marking pass, and one turn for each chunk that is listed. -/

namespace IntelliStore.Replication
open Library Postgres

/-- The statements with which a node is given a replica. -/
def Statement.faulty : Statement → Bool
  | .copyToNode .. | .incrementUsedBytes .. | .upsert .. => true
  | _ => false

abbrev Trace := List (Issued Statement Circumstances Cluster)

/-- The object was copied, and the service knows. -/
def Copied (trace : Trace) (sourceBucket key destBucket : String) : Prop :=
  ∃ w s, ⟨.copyToNode sourceBucket key destBucket, w, s⟩ ∈ trace ∧
    (Statement.exec (.copyToNode sourceBucket key destBucket) w s).1 = .ok ()

theorem Copied.mono {trace trace' : Trace} {sourceBucket key destBucket : String}
    (h : Copied trace sourceBucket key destBucket) (htrace : trace <+: trace') :
    Copied trace' sourceBucket key destBucket := by
  obtain ⟨w, s, hmem, hok⟩ := h
  exact ⟨w, s, htrace.subset hmem, hok⟩

/-- The nodes are read for the chunk, right after the nodes that have a row of it. -/
def NodesRead (trace : Trace) (chunkId : Uuid) (w : Circumstances) (s : Cluster) : Prop :=
  ∃ w', [⟨.listNodeIdsForChunk chunkId, w', s⟩, ⟨.listHealthy, w, s⟩] <:+: trace

theorem NodesRead.mono {trace trace' : Trace} {chunkId : Uuid} {w : Circumstances} {s : Cluster}
    (h : NodesRead trace chunkId w s) (htrace : trace <+: trace') :
    NodesRead trace' chunkId w s := by
  obtain ⟨w', hread⟩ := h
  exact ⟨w', hread.trans htrace.isInfix⟩

/-- Whether a statement succeeds when the buckets that `accepts` does not hold for take no copies. -/
def Statement.accepted (accepts : String → Bool) : Statement → Bool
  | .copyToNode _ _ destBucket => accepts destBucket
  | _ => true

def Decides (allowed : Statement → Circumstances → Prop) (accepts : String → Bool) : Prop :=
  ∀ c w, allowed c w → (w.outcome = .succeeded ↔ c.accepted accepts = true)

abbrev healing (allowed : Statement → Circumstances → Prop) :
    Contract Statement Statement.Reply Failure Circumstances (Cluster × Trace) :=
  Prog.alone Statement.exec fun c w _ => allowed c w

/-! ### Replicas for some of the targets -/

theorem Placed.nil {t u : Cluster} {chunkId : Uuid}
    (hnodes : u.nodes.map StorageNodeRecord.emptied = t.nodes.map StorageNodeRecord.emptied)
    (hreplicas : u.replicas = t.replicas) : Placed t u chunkId [] [] :=
  ⟨hnodes, by rw [hreplicas, List.append_nil], rfl⟩

theorem Placed.append {t u v : Cluster} {chunkId : Uuid} {targets targets' : List StorageNodeRecord}
    {new new' : List ChunkReplicaRecord} (h : Placed t u chunkId targets new)
    (h' : Placed u v chunkId targets' new') :
    Placed t v chunkId (targets ++ targets') (new ++ new') where
  nodes := h'.nodes.trans h.nodes
  replicas := by rw [h'.replicas, h.replicas, List.append_assoc]
  rows := by rw [List.map_append, List.map_append, h.rows, h'.rows]

/-- The targets in `placed` have got the rows `new`, each after a copy that succeeded. -/
structure Filled (options : ReplicationServiceOptions) (allowed : Statement → Circumstances → Prop)
    (chunkId : Uuid) (targets placed : List StorageNodeRecord) (new : List ChunkReplicaRecord)
    (x y : Cluster × Trace) : Prop where
  rows : Placed x.1 y.1 chunkId placed new
  chosen : placed.Sublist targets
  trace : x.2 <+: y.2
  copied : ∀ r ∈ new, ∃ node ∈ placed, node.id = r.nodeId ∧
    Copied y.2 options.primaryBucket r.storageKey node.bucket
  decided : ∀ accepts, Decides allowed accepts →
    placed = targets.filter fun node => accepts node.bucket

section
variable {options : ReplicationServiceOptions} {allowed : Statement → Circumstances → Prop}
  {chunkId : Uuid} {storageKey : String} {sizeBytes : Nat} {node : StorageNodeRecord}
  {targets targets' placed placed' : List StorageNodeRecord} {new new' : List ChunkReplicaRecord}
  {x y z : Cluster × Trace}

namespace Filled

theorem refl (x : Cluster × Trace) : Filled options allowed chunkId [] [] [] x x where
  rows := .nil rfl rfl
  chosen := List.Sublist.refl _
  trace := List.prefix_rfl
  copied := by simp
  decided := by simp

/-- The target is skipped. -/
theorem skip (hnodes : y.1.nodes.map StorageNodeRecord.emptied =
      x.1.nodes.map StorageNodeRecord.emptied)
    (hreplicas : y.1.replicas = x.1.replicas) (htrace : x.2 <+: y.2)
    (hdecided : ∀ accepts, Decides allowed accepts → accepts node.bucket = false) :
    Filled options allowed chunkId [node] [] [] x y where
  rows := .nil hnodes hreplicas
  chosen := List.nil_sublist _
  trace := htrace
  copied := by simp
  decided accepts h := by rw [List.filter_singleton, hdecided accepts h]; rfl

theorem append (h : Filled options allowed chunkId targets placed new x y)
    (h' : Filled options allowed chunkId targets' placed' new' y z) :
    Filled options allowed chunkId (targets ++ targets') (placed ++ placed') (new ++ new') x z where
  rows := h.rows.append h'.rows
  chosen := h.chosen.append h'.chosen
  trace := h.trace.trans h'.trace
  copied := by
    refine List.forall_mem_append.mpr ⟨fun r hr => ?_, fun r hr => ?_⟩
    · obtain ⟨node, hn, hid, hcopied⟩ := h.copied r hr
      exact ⟨node, List.mem_append_left _ hn, hid, hcopied.mono h'.trace⟩
    · obtain ⟨node, hn, hid, hcopied⟩ := h'.copied r hr
      exact ⟨node, List.mem_append_right _ hn, hid, hcopied⟩
  decided accepts hd := by rw [List.filter_append, ← h.decided accepts hd, ← h'.decided accepts hd]

/-- What was issued before may be forgotten. -/
theorem forget {trace : Trace}
    (h : Filled options allowed chunkId targets placed new (x.1, trace) y) (htrace : x.2 <+: trace) :
    Filled options allowed chunkId targets placed new x y :=
  { h with trace := htrace.trans h.trace }

theorem ids (h : Filled options allowed chunkId targets placed new x y) :
    y.1.nodes.map StorageNodeRecord.id = x.1.nodes.map StorageNodeRecord.id :=
  ids_of_emptied h.rows.nodes

/-- A node outside the targets has no other rows than before. -/
theorem other (h : Filled options allowed chunkId targets placed new x y)
    (hnode : node.id ∉ targets.map StorageNodeRecord.id)
    (hnew : ∀ r ∈ x.1.replicas, r.chunkId = chunkId → r.nodeId ≠ node.id) :
    ∀ r ∈ y.1.replicas, r.chunkId = chunkId → r.nodeId ≠ node.id := by
  intro r hr hchunk heq
  rw [h.rows.replicas] at hr
  rcases List.mem_append.mp hr with hr | hr
  · exact hnew r hr hchunk heq
  · obtain ⟨-, -, n, hn, hid⟩ := h.rows.row hr
    exact hnode (List.mem_map.mpr ⟨n, h.chosen.subset hn, hid.trans heq⟩)

end Filled

/-! ### The statements for one target -/

theorem Statement.exec_copyToNode (sourceBucket key destBucket : String) (w : Circumstances)
    (s : Cluster) :
    ((Statement.copyToNode sourceBucket key destBucket).exec w s).2.nodes = s.nodes ∧
      ((Statement.copyToNode sourceBucket key destBucket).exec w s).2.replicas = s.replicas := by
  rcases (Statement.copyToNode sourceBucket key destBucket).exec_cases w s with he | he
  · rw [he]
    exact ⟨rfl, rfl⟩
  · rw [he]
    exact ⟨rfl, rfl⟩

theorem Statement.exec_incrementUsedBytes (id : Uuid) (deltaBytes : Nat) (w : Circumstances)
    (s : Cluster) :
    ((Statement.incrementUsedBytes id deltaBytes).exec w s).2.nodes.map StorageNodeRecord.emptied =
        s.nodes.map StorageNodeRecord.emptied ∧
      ((Statement.incrementUsedBytes id deltaBytes).exec w s).2.replicas = s.replicas := by
  rcases (Statement.incrementUsedBytes id deltaBytes).exec_cases w s with he | he
  · rw [he]
    exact ⟨rfl, rfl⟩
  · rw [he]
    exact ⟨s.incrementUsedBytes_emptied id deltaBytes, rfl⟩

/-- A statement that can only succeed where it has its effect. -/
theorem Statement.not_succeeded {c : Statement} {w : Circumstances} {s : Cluster} {a : c.Reply}
    {e : Failure} (heffect : (c.effect w s).1 = .ok a) (h : (c.exec w s).1 = .error e) :
    w.outcome ≠ .succeeded := by
  intro hw
  rw [c.exec_of_succeeded hw, heffect] at h
  cases h

/-- A remote statement that answers has succeeded. -/
theorem Statement.succeeded_of_ok {c : Statement} {w : Circumstances} {s : Cluster} {a : c.Reply}
    (hremote : c.remote = true) (h : (c.exec w s).1 = .ok a) : w.outcome = .succeeded := by
  rw [exec, hremote] at h
  cases hw : w.outcome <;> rw [hw] at h
  · cases h
  · cases h

theorem Statement.exec_state {c : Statement} {w : Circumstances} (hw : w.outcome ≠ .failed)
    (s : Cluster) : (c.exec w s).2 = (c.effect w s).2 := by
  unfold exec
  split
  · rfl
  · rfl
  · exact absurd ‹_› hw
  · rfl

theorem Statement.exec_failed {c : Statement} {w : Circumstances} (hremote : c.remote = true)
    (hw : w.outcome = .failed) (s : Cluster) : c.exec w s = (.error .library, s) := by
  rw [exec, hremote, hw]

/-- The upsert of the first row of the chunk on the node. -/
theorem Statement.exec_upsert_new {s : Cluster} {chunkId nodeId : Uuid} (storageKey : String)
    (sizeBytes : Nat) (w : Circumstances) (hnode : nodeId ∈ s.nodes.map StorageNodeRecord.id)
    (hnew : ∀ r ∈ s.replicas, r.chunkId = chunkId → r.nodeId ≠ nodeId) :
    ∃ row t, row.chunkId = chunkId ∧ row.nodeId = nodeId ∧ row.status = .synced ∧
      row.storageKey = storageKey ∧ t.nodes = s.nodes ∧ t.replicas = s.replicas ++ [row] ∧
      (Statement.upsert chunkId nodeId storageKey sizeBytes .synced).effect w s = (.ok row, t) := by
  obtain ⟨row, t, hupsert, hrow, hreplicas, hnodes, -⟩ :=
    Cluster.upsert_new w.now storageKey sizeBytes .synced hnew hnode
  refine ⟨row, t, by rw [hrow], by rw [hrow], by rw [hrow], by rw [hrow], hnodes, hreplicas, ?_⟩
  simp only [Statement.effect, hupsert]

theorem Filled.single {row : ChunkReplicaRecord} (hchunk : row.chunkId = chunkId)
    (hid : row.nodeId = node.id) (hstatus : row.status = .synced)
    (hnodes : y.1.nodes.map StorageNodeRecord.emptied = x.1.nodes.map StorageNodeRecord.emptied)
    (hreplicas : y.1.replicas = x.1.replicas ++ [row]) (htrace : x.2 <+: y.2)
    (hcopied : Copied y.2 options.primaryBucket row.storageKey node.bucket)
    (hdecided : ∀ accepts, Decides allowed accepts → accepts node.bucket = true) :
    Filled options allowed chunkId [node] [node] [row] x y where
  rows := ⟨hnodes, hreplicas, by rw [List.map_singleton, List.map_singleton, hchunk, hid, hstatus]⟩
  chosen := List.Sublist.refl _
  trace := htrace
  copied := List.forall_mem_singleton.mpr ⟨node, List.mem_singleton_self _, hid.symm, hcopied⟩
  decided accepts h := by rw [List.filter_singleton, hdecided accepts h]; rfl

/-- `replicateToNode` has returned or thrown. -/
structure Replicated (options : ReplicationServiceOptions)
    (allowed : Statement → Circumstances → Prop) (storageKey : String) (node : StorageNodeRecord)
    (r : Except Failure Unit) (x y : Cluster × Trace) : Prop where
  nodes : y.1.nodes.map StorageNodeRecord.emptied = x.1.nodes.map StorageNodeRecord.emptied
  replicas : y.1.replicas = x.1.replicas
  trace : x.2 <+: y.2
  copied : r = .ok () → Copied y.2 options.primaryBucket storageKey node.bucket
  decided : ∀ accepts, Decides allowed accepts → (r = .ok () ↔ accepts node.bucket = true)

theorem sat_replicateToNode (options : ReplicationServiceOptions)
    (allowed : Statement → Circumstances → Prop) (storageKey : String) (sizeBytes : Nat)
    (node : StorageNodeRecord) (x : Cluster × Trace) :
    (ReplicationService.replicateToNode options storageKey sizeBytes node).sat (healing allowed)
      (fun r y => Replicated options allowed storageKey node r x y) x := by
  rw [ReplicationService.replicateToNode]
  apply Prog.sat_alone
  intro w₁ hw₁
  obtain ⟨hnodes₁, hreplicas₁⟩ := Statement.exec_copyToNode options.primaryBucket storageKey
    node.bucket w₁ x.1
  cases hcopy : (Statement.exec (.copyToNode options.primaryBucket storageKey node.bucket)
      w₁ x.1).1 with
  | error e =>
    have hfailed := Statement.not_succeeded rfl hcopy
    have hthrown : (Except.error e : Except Failure Unit) ≠ .ok () := by
      intro h
      cases h
    show Replicated options allowed storageKey node (.error e) x _
    exact {
      nodes := by rw [hnodes₁]
      replicas := hreplicas₁
      trace := List.prefix_append _ _
      copied := fun h => absurd h hthrown
      decided := by
        intro accepts hd
        exact iff_of_false hthrown fun h => hfailed ((hd _ w₁ hw₁).mpr h) }
  | ok done =>
    have hsucceeded := Statement.succeeded_of_ok rfl hcopy
    have hcopied : Copied (x.2 ++ [⟨_, w₁, x.1⟩]) options.primaryBucket storageKey node.bucket :=
      ⟨w₁, x.1, List.mem_append_right _ (List.mem_singleton_self _), hcopy⟩
    generalize (Statement.exec (.copyToNode options.primaryBucket storageKey node.bucket)
      w₁ x.1).2 = s₁ at *
    apply Prog.sat_alone_last
    intro w₂ hw₂
    obtain ⟨hnodes₂, hreplicas₂⟩ := Statement.exec_incrementUsedBytes node.id sizeBytes w₂ s₁
    have hdone : w₂.outcome = .succeeded →
        (Statement.exec (.incrementUsedBytes node.id sizeBytes) w₂ s₁).1 = .ok () := by
      intro hw
      rw [Statement.exec_of_succeeded _ hw]
      rfl
    exact {
      nodes := by rw [hnodes₂, hnodes₁]
      replicas := hreplicas₂.trans hreplicas₁
      trace := by
        rw [List.append_assoc]
        exact List.prefix_append _ _
      copied := fun _ => hcopied.mono (List.prefix_append _ _)
      decided := by
        intro accepts hd
        have haccepted : w₂.outcome = .succeeded := (hd _ w₂ hw₂).mpr rfl
        exact iff_of_true (hdone haccepted) ((hd _ w₁ hw₁).mp hsucceeded) }

/-- One target gets a row after a copy that succeeded, or none. -/
theorem sat_placeOn (hnode : node.id ∈ x.1.nodes.map StorageNodeRecord.id)
    (hnew : ∀ r ∈ x.1.replicas, r.chunkId = chunkId → r.nodeId ≠ node.id) :
    (placeOn options chunkId storageKey sizeBytes node).sat (healing allowed)
      (fun _ y => ∃ placed new, Filled options allowed chunkId [node] placed new x y) x := by
  rw [placeOn, Prog.sat_bind]
  have hreplicated := sat_replicateToNode options allowed storageKey sizeBytes node x
  apply Prog.sat_mono _ hreplicated
  intro r y hy
  cases r with
  | error e =>
    have hrefused : ∀ accepts, Decides allowed accepts → accepts node.bucket = false := by
      intro accepts hd
      refine Bool.not_eq_true _ ▸ fun h => ?_
      cases (hy.decided accepts hd).mpr h
    exact ⟨[], [], .skip hy.nodes hy.replicas hy.trace hrefused⟩
  | ok done =>
    apply Prog.sat_alone_last
    intro w hw
    have htrace : ∀ i, x.2 <+: y.2 ++ [i] := fun _ => hy.trace.trans (List.prefix_append _ _)
    have haccepted : ∀ accepts, Decides allowed accepts → accepts node.bucket = true :=
      fun accepts hd => (hy.decided accepts hd).mp rfl
    rw [← ids_of_emptied hy.nodes] at hnode
    rw [← hy.replicas] at hnew
    obtain ⟨row, t, hchunk, hid, hstatus, hkey, hnodes, hreplicas, heffect⟩ :=
      Statement.exec_upsert_new storageKey sizeBytes w hnode hnew
    by_cases hfailed : w.outcome = .failed
    · rw [Statement.exec_failed rfl hfailed]
      refine ⟨[], [], .skip hy.nodes hy.replicas (htrace _) fun accepts hd => ?_⟩
      rw [(hd _ w hw).mpr rfl] at hfailed
      cases hfailed
    · rw [Statement.exec_state hfailed, heffect]
      have hcopied : ∀ i, Copied (y.2 ++ [i]) options.primaryBucket row.storageKey node.bucket := by
        intro i
        rw [hkey]
        exact (hy.copied rfl).mono (List.prefix_append _ _)
      refine ⟨[node], [row], .single hchunk hid hstatus ?_ ?_ (htrace _) (hcopied _) haccepted⟩
      · rw [hnodes, hy.nodes]
      · rw [hreplicas, hy.replicas]

/-! ### The turn of a chunk -/

variable (options allowed chunkId targets x) in
/-- The loop over the targets has come to `rest`. -/
def Filling (rest : List StorageNodeRecord) (y : Cluster × Trace) : Prop :=
  ∃ tried placed new, targets = tried ++ rest ∧
    Filled options allowed chunkId tried placed new x y

theorem Filling.step {rest : List StorageNodeRecord}
    (hids : (targets.map StorageNodeRecord.id).Nodup)
    (hnodes : ∀ node ∈ targets, node.id ∈ x.1.nodes.map StorageNodeRecord.id)
    (hnew : ∀ node ∈ targets, ∀ r ∈ x.1.replicas, r.chunkId = chunkId → r.nodeId ≠ node.id)
    (h : Filling options allowed chunkId targets x (node :: rest) y) :
    (placeOn options chunkId storageKey sizeBytes node).sat (healing allowed)
      (fun _ z => Filling options allowed chunkId targets x rest z) y := by
  obtain ⟨tried, placed, new, rfl, hfilled⟩ := h
  have hmem : node ∈ tried ++ node :: rest := List.mem_append_right _ List.mem_cons_self
  have hother : node.id ∉ tried.map StorageNodeRecord.id := by
    rw [List.map_append, List.map_cons] at hids
    exact fun h => (List.nodup_append.mp hids).2.2 _ h _ List.mem_cons_self rfl
  have hknown : node.id ∈ y.1.nodes.map StorageNodeRecord.id := by
    rw [hfilled.ids]
    exact hnodes node hmem
  have hplaced : (placeOn options chunkId storageKey sizeBytes node).sat (healing allowed)
      (fun _ z => ∃ placed' new', Filled options allowed chunkId [node] placed' new' y z) y :=
    sat_placeOn hknown (hfilled.other hother (hnew node hmem))
  apply Prog.sat_mono _ hplaced
  intro r z hz
  obtain ⟨placed', new', hz⟩ := hz
  exact ⟨tried ++ [node], placed ++ placed', new ++ new', List.append_cons .., hfilled.append hz⟩

theorem sat_copyToTargets_filled (hids : (targets.map StorageNodeRecord.id).Nodup)
    (hnodes : ∀ node ∈ targets, node.id ∈ x.1.nodes.map StorageNodeRecord.id)
    (hnew : ∀ node ∈ targets, ∀ r ∈ x.1.replicas, r.chunkId = chunkId → r.nodeId ≠ node.id) :
    (ReplicationService.copyToTargets options chunkId storageKey sizeBytes targets).sat
      (healing allowed)
      (fun _ y => ∃ placed new, Filled options allowed chunkId targets placed new x y) x := by
  have hstart : Filling options allowed chunkId targets x targets x := ⟨[], [], [], rfl, .refl x⟩
  have hloop := sat_copyToTargets (w := healing allowed) options chunkId storageKey sizeBytes
    (Filling options allowed chunkId targets x) (fun _ _ _ hy => hy.step hids hnodes hnew) hstart
  apply Prog.sat_mono _ hloop
  intro r y hy
  obtain ⟨tried, placed, new, htargets, hfilled⟩ := hy
  rw [List.append_nil] at htargets
  exact ⟨placed, new, htargets ▸ hfilled⟩

/-- The nodes that a sweep tries for a chunk. -/
def triedNodes (options : ReplicationServiceOptions) (s : Cluster) (rank : Uuid → Nat)
    (chunk : UnderReplicatedChunk) : List StorageNodeRecord :=
  (s.candidates rank chunk.chunkId).take (options.replicationFactor - chunk.syncedCount)

theorem mem_triedNodes {s : Cluster} {rank : Uuid → Nat} {chunk : UnderReplicatedChunk}
    (h : node ∈ triedNodes options s rank chunk) : node ∈ s.vacantNodes chunk.chunkId :=
  (s.candidates_perm rank chunk.chunkId).mem_iff.mp (List.mem_of_mem_take h)

theorem triedNodes_ids_nodup (options : ReplicationServiceOptions) (s : Cluster)
    (rank : Uuid → Nat) (chunk : UnderReplicatedChunk) :
    ((triedNodes options s rank chunk).map StorageNodeRecord.id).Nodup :=
  (s.candidates_ids_nodup rank _).sublist ((List.take_sublist _ _).map _)

/-- One chunk of the reconciliation pass. -/
def Turn (options : ReplicationServiceOptions) (allowed : Statement → Circumstances → Prop)
    (chunk : UnderReplicatedChunk) (x y : Cluster × Trace) : Prop :=
  ∃ w placed new, NodesRead y.2 chunk.chunkId w x.1 ∧
    Filled options allowed chunk.chunkId (triedNodes options x.1 w.uuidRank chunk) placed new x y ∧
    (triedNodes options x.1 w.uuidRank chunk = [] → y.1 = x.1)

/-- The rule for a statement that no fault befalls. -/
theorem sat_reliable {α : Type} {c : Statement} {f : c.Reply → Service α}
    {Q : Except Failure α → Cluster × Trace → Prop}
    (hreliable : ∀ w, allowed c w → w.outcome = .succeeded)
    (h : ∀ w, Prog.sequel (healing allowed) Q f (c.effect w x.1).1
      ((c.effect w x.1).2, x.2 ++ [⟨c, w, x.1⟩])) :
    (Prog.perform c >>= f).sat (healing allowed) Q x := by
  apply Prog.sat_alone
  intro w hw
  rw [c.exec_of_succeeded (hreliable w hw)]
  exact h w

theorem sat_healChunk {chunk : UnderReplicatedChunk} {excludeNodeIds : List Uuid}
    (hreliable : ∀ w, allowed .listHealthy w → w.outcome = .succeeded)
    (hneeded : chunk.syncedCount < options.replicationFactor)
    (hexclude : ∀ id, id ∈ excludeNodeIds ↔
      ∃ r ∈ x.1.replicas, r.chunkId = chunk.chunkId ∧ r.nodeId = id)
    {w' : Circumstances} (hbefore : [⟨.listNodeIdsForChunk chunk.chunkId, w', x.1⟩] <:+ x.2) :
    (ReplicationService.healChunk options chunk.chunkId chunk.storageKey chunk.sizeBytes
      (options.replicationFactor - chunk.syncedCount) excludeNodeIds).sat (healing allowed)
      (fun _ y => Turn options allowed chunk x y) x := by
  rw [ReplicationService.healChunk, if_neg (Nat.sub_ne_zero_of_lt hneeded)]
  apply sat_reliable hreliable
  intro w
  have htargets : ((x.1.listHealthy w.uuidRank).filter fun node =>
      !excludeNodeIds.contains node.id).take (options.replicationFactor - chunk.syncedCount) =
        triedNodes options x.1 w.uuidRank chunk := by
    rw [x.1.candidates_eq chunk.chunkId w.uuidRank hexclude]
    rfl
  have hread : NodesRead (x.2 ++ [⟨.listHealthy, w, x.1⟩]) chunk.chunkId w x.1 := by
    obtain ⟨front, hfront⟩ := hbefore
    refine ⟨w', front, [], ?_⟩
    rw [← hfront, List.append_nil, List.append_assoc]
    rfl
  show Prog.sat _ _ (if (List.take _ _).length = 0 then _ else _) (x.1, _)
  rw [htargets]
  split_ifs with hempty
  · have hnil := List.length_eq_zero_iff.mp hempty
    have hfilled : Filled options allowed chunk.chunkId (triedNodes options x.1 w.uuidRank chunk)
        [] [] x (x.1, x.2 ++ [⟨.listHealthy, w, x.1⟩]) := by
      rw [hnil]
      exact (Filled.refl _).forget (List.prefix_append _ _)
    exact ⟨w, [], [], hread, hfilled, fun _ => rfl⟩
  · have hknown : ∀ node ∈ triedNodes options x.1 w.uuidRank chunk,
        node.id ∈ x.1.nodes.map StorageNodeRecord.id := fun node hn =>
      List.mem_map_of_mem (Cluster.mem_vacantNodes.mp (mem_triedNodes hn)).1
    have hnew : ∀ node ∈ triedNodes options x.1 w.uuidRank chunk, ∀ r ∈ x.1.replicas,
        r.chunkId = chunk.chunkId → r.nodeId ≠ node.id := fun node hn =>
      (Cluster.mem_vacantNodes.mp (mem_triedNodes hn)).2.2
    have hids := triedNodes_ids_nodup options x.1 w.uuidRank chunk
    refine Prog.sat_mono ?_ (sat_copyToTargets_filled hids hknown hnew)
    intro r y hy
    obtain ⟨placed, new, hfilled⟩ := hy
    refine ⟨w, placed, new, hread.mono hfilled.trace, hfilled.forget (List.prefix_append _ _),
      fun h => ?_⟩
    exact absurd (List.length_eq_zero_iff.mpr h) hempty

theorem Turn.forget {chunk : UnderReplicatedChunk} {trace : Trace}
    (h : Turn options allowed chunk (x.1, trace) y) (htrace : x.2 <+: trace) :
    Turn options allowed chunk x y := by
  obtain ⟨w, placed, new, hread, hfilled, hidle⟩ := h
  exact ⟨w, placed, new, hread, hfilled.forget htrace, hidle⟩

end

/-! ### The sweep -/

section
variable (options : ReplicationServiceOptions) (allowed : Statement → Circumstances → Prop)

/-- The chunks have had their turns, one after the other. -/
inductive Healed : List UnderReplicatedChunk → Cluster × Trace → Cluster × Trace → Prop
  | nil (x : Cluster × Trace) : Healed [] x x
  | cons {chunk : UnderReplicatedChunk} {chunks : List UnderReplicatedChunk}
      {x y z : Cluster × Trace} (turn : Turn options allowed chunk x y) (rest : Healed chunks y z) :
      Healed (chunk :: chunks) x z

variable {allowed}

theorem sat_reconcileEach_healed
    (hreliable : ∀ c w, c.faulty = false → allowed c w → w.outcome = .succeeded)
    {chunks : List UnderReplicatedChunk}
    (hneeded : ∀ chunk ∈ chunks, chunk.syncedCount < options.replicationFactor)
    (x : Cluster × Trace) :
    (SelfHealingService.reconcileEach options chunks).sat (healing allowed)
      (fun r y => r = .ok () ∧ Healed options allowed chunks x y) x := by
  induction chunks generalizing x with
  | nil => exact ⟨rfl, .nil x⟩
  | cons chunk chunks ih =>
    obtain ⟨hchunk, hneeded⟩ := List.forall_mem_cons.mp hneeded
    rw [SelfHealingService.reconcileEach]
    apply sat_reliable fun w => hreliable _ w rfl
    intro w
    have hexclude : ∀ id, id ∈ x.1.listNodeIdsForChunk w.rowRank chunk.chunkId ↔
        ∃ r ∈ x.1.replicas, r.chunkId = chunk.chunkId ∧ r.nodeId = id :=
      fun id => Cluster.mem_listNodeIdsForChunk
    have hturn := sat_healChunk (x := (x.1, x.2 ++ [⟨.listNodeIdsForChunk chunk.chunkId, w, x.1⟩]))
      (fun w => hreliable _ w rfl) hchunk hexclude (List.suffix_append _ _)
    -- what `healChunk` throws is caught, so the next chunk follows either way
    refine (Prog.sat_bind _ _).mpr ((Prog.sat_tryCatch _ _).mpr ((Prog.sat_bind _ _).mpr
      (Prog.sat_mono (fun r y hy => ?_) hturn)))
    have hrest := ih hneeded y
    have hnext : (SelfHealingService.reconcileEach options chunks).sat (healing allowed)
        (fun r z => r = .ok () ∧ Healed options allowed (chunk :: chunks) x z) y := by
      refine Prog.sat_mono (fun r z hz => ?_) hrest
      exact ⟨hz.1, .cons (hy.forget (List.prefix_append _ _)) hz.2⟩
    cases r with
    | error e => exact hnext
    | ok replicas => exact hnext

theorem sat_marking
    (hreliable : ∀ c w, c.faulty = false → allowed c w → w.outcome = .succeeded) (s : Cluster) :
    SelfHealingService.markReplicasOnUnhealthyNodesLost.sat (healing allowed)
      (fun r y => r = .ok () ∧ Marked s y.1) (s, []) := by
  have hissues : SelfHealingService.markReplicasOnUnhealthyNodesLost.OnlyIssues
      fun c => c.faulty = false :=
    onlyIssues_markReplicasOnUnhealthyNodesLost rfl (fun _ => rfl) fun _ => rfl
  refine Prog.sat_mono ?_ (Prog.sat_alone_of_wp (w := undisturbed) rfl (fun _ => rfl)
    (fun c w _ => hreliable c w) hissues (wp_markReplicasOnUnhealthyNodesLost s))
  rintro r y ⟨hr, hnodes, hreplicas⟩
  exact ⟨hr, hnodes, hreplicas⟩

theorem sat_healOnce
    (hreliable : ∀ c w, c.faulty = false → allowed c w → w.outcome = .succeeded) (s : Cluster) :
    (SelfHealingService.healOnce options).sat (healing allowed) (fun r y => r = .ok () ∧
      ∃ t w trace, Marked s t ∧
        ⟨.listUnderReplicated options.replicationFactor, w, t⟩ ∈ trace ∧ Healed options allowed
          (t.listUnderReplicated w.uuidRank options.replicationFactor) (t, trace) y) (s, []) := by
  rw [SelfHealingService.healOnce, Prog.sat_bind]
  refine Prog.sat_mono ?_ (sat_marking hreliable s)
  rintro r ⟨t, trace⟩ ⟨rfl, hmarked⟩
  show (SelfHealingService.reconcileUnderReplicatedChunks options).sat _ _ _
  rw [SelfHealingService.reconcileUnderReplicatedChunks]
  apply sat_reliable fun w => hreliable _ w rfl
  intro w
  have hneeded : ∀ chunk ∈ t.listUnderReplicated w.uuidRank options.replicationFactor,
      chunk.syncedCount < options.replicationFactor := fun chunk hc => by
    obtain ⟨row, -, rfl, hlt⟩ := Cluster.mem_listUnderReplicated.mp hc
    exact hlt
  refine Prog.sat_mono ?_ (sat_reconcileEach_healed options hreliable hneeded _)
  rintro r y ⟨hr, hhealed⟩
  exact ⟨hr, t, w, _, hmarked, List.mem_append_right _ (List.mem_singleton_self _), hhealed⟩

end
end IntelliStore.Replication
