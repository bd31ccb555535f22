import IntelliStore.Replication.Calls
import IntelliStore.Replication.ServiceRules

/-! A replica that is recorded as synced is stored, however the calls interleave. -/

namespace IntelliStore.Replication
open Library Postgres

namespace Cluster
variable {s t u : Cluster}

def buckets (s : Cluster) : List (Uuid × String) :=
  s.nodes.map fun node => (node.id, node.bucket)

/-- The bucket of the node holds an object under the key. -/
def Stores (s : Cluster) (nodeId : Uuid) (key : String) : Prop :=
  ∃ bucket, (nodeId, bucket) ∈ s.buckets ∧ (bucket, key) ∈ s.objects

def Backed (s : Cluster) : Prop := ∀ r ∈ s.replicas, s.Stores r.nodeId r.storageKey

/-- The nodes keep their buckets, and the buckets their objects. -/
structure Extends (s t : Cluster) : Prop where
  buckets : t.buckets = s.buckets
  objects : s.objects ⊆ t.objects

theorem Extends.refl (s : Cluster) : s.Extends s := ⟨rfl, Finset.Subset.refl _⟩

theorem Extends.trans (h : s.Extends t) (h' : t.Extends u) : s.Extends u :=
  ⟨h'.buckets.trans h.buckets, h.objects.trans h'.objects⟩

theorem Stores.extend {nodeId : Uuid} {key : String} (h : s.Stores nodeId key)
    (hst : s.Extends t) : t.Stores nodeId key := by
  obtain ⟨bucket, hbucket, hobject⟩ := h
  exact ⟨bucket, hst.buckets ▸ hbucket, hst.objects hobject⟩

theorem stores_of_mem {node : StorageNodeRecord} {key : String}
    (hn : (node.id, node.bucket) ∈ s.buckets) (hkey : (node.bucket, key) ∈ s.objects) :
    s.Stores node.id key := ⟨node.bucket, hn, hkey⟩

theorem updateNode_buckets {id : Uuid} {g : StorageNodeRecord → StorageNodeRecord}
    {hid : ∀ node, (g node).id = node.id} {hname : ∀ node, (g node).name = node.name}
    {hbucket : ∀ node, (g node).bucket = node.bucket} :
    (s.updateNode id g hid hname hbucket).buckets = s.buckets :=
  map_update (f := fun node : StorageNodeRecord => (node.id, node.bucket))
    (fun node => by rw [hid, hbucket]) _ _

theorem incrementUsedBytes_buckets (s : Cluster) (id : Uuid) (deltaBytes : Nat) :
    (s.incrementUsedBytes id deltaBytes).buckets = s.buckets := updateNode_buckets

theorem setHealth_buckets (s : Cluster) (id : Uuid) (isHealthy : Bool) (heartbeatAt : Nat) :
    (s.setHealth id isHealthy heartbeatAt).buckets = s.buckets := updateNode_buckets

theorem markStale_buckets (s : Cluster) (id : Uuid) :
    (s.markStale id).buckets = s.buckets := updateNode_buckets

end Cluster

namespace Statement
variable (c : Statement) (w : Circumstances) {s : Cluster}

theorem effect_extends (s : Cluster) : s.Extends (c.effect w s).2 := by
  cases c with
  | incrementUsedBytes id deltaBytes =>
    exact ⟨s.incrementUsedBytes_buckets id deltaBytes, Finset.Subset.refl _⟩
  | setHealth id isHealthy heartbeatAt =>
    exact ⟨s.setHealth_buckets id isHealthy heartbeatAt, Finset.Subset.refl _⟩
  | markStale id => exact ⟨s.markStale_buckets id, Finset.Subset.refl _⟩
  | markLost replicaId => exact ⟨rfl, Finset.Subset.refl _⟩
  | upsert chunkId nodeId storageKey sizeBytes status =>
    simp only [effect]
    split
    · rename_i hupsert
      obtain ⟨hnodes, hobjects, -⟩ := Cluster.upsert_inv hupsert
      exact ⟨by rw [Cluster.buckets, hnodes, Cluster.buckets], hobjects.ge⟩
    · exact .refl s
  | copyToNode sourceBucket key destBucket => exact ⟨rfl, Finset.subset_insert _ _⟩
  | _ => exact .refl s

/-- Only an upsert adds a row, and none changes the node or the key of one. -/
theorem effect_backed (h : s.Backed) (hstored : ∀ chunkId nodeId storageKey sizeBytes status,
      c = .upsert chunkId nodeId storageKey sizeBytes status → s.Stores nodeId storageKey) :
    (c.effect w s).2.Backed := by
  have hkept : ∀ r ∈ s.replicas, (c.effect w s).2.Stores r.nodeId r.storageKey :=
    fun r hr => (h r hr).extend (c.effect_extends w s)
  cases c with
  | markLost replicaId =>
    intro r hr
    obtain ⟨r₀, hr₀, rfl⟩ := List.mem_map.mp hr
    split
    · exact hkept r₀ hr₀
    · exact hkept r₀ hr₀
  | upsert chunkId nodeId storageKey sizeBytes status =>
    have hnew := (hstored _ _ _ _ _ rfl).extend
      (effect_extends (.upsert chunkId nodeId storageKey sizeBytes status) w s)
    simp only [effect] at hkept hnew ⊢
    split
    · rename_i row t hupsert
      rw [hupsert] at hkept hnew
      obtain ⟨-, -, ⟨old, -, -, -, -, hreplicas⟩ | ⟨-, -, hrow, hreplicas⟩⟩ :=
        Cluster.upsert_inv hupsert
      -- the conflicting row keeps its storage key, which is stored already
      · intro r hr
        rw [hreplicas] at hr
        obtain ⟨r₀, hr₀, rfl⟩ := List.mem_map.mp hr
        split
        · exact hkept r₀ hr₀
        · exact hkept r₀ hr₀
      · intro r hr
        rw [hreplicas, List.mem_append, List.mem_singleton] at hr
        rcases hr with hr | rfl
        · exact hkept r hr
        · rw [hrow]
          exact hnew
    · exact h
  | _ => exact hkept

end Statement

/-! ### The calls -/

/-- Each call among others that keep the buckets and their objects. -/
def backing : Contract Statement Statement.Reply Failure Circumstances (Shared × Notes) where
  exec := Statement.perform
  allowed _ _ _ := True
  rely x y := x.1.cluster.Extends y.1.cluster
  guar x y := x.1.cluster.Extends y.1.cluster ∧ (x.1.cluster.Backed → y.1.cluster.Backed)

theorem backing_lawful : backing.Lawful :=
  ⟨fun x => .refl x.1.cluster, fun _ _ _ h h' => h.trans h'⟩

theorem Statement.perform_backing (c : Statement) (w : Circumstances) (x : Shared × Notes)
    (hstored : ∀ chunkId nodeId storageKey sizeBytes status,
      c = .upsert chunkId nodeId storageKey sizeBytes status →
        x.1.cluster.Stores nodeId storageKey) : backing.guar x (c.perform w x).2 := by
  show x.1.cluster.Extends (c.exec w x.1.cluster).2 ∧
    (x.1.cluster.Backed → (c.exec w x.1.cluster).2.Backed)
  rcases c.exec_cases w x.1.cluster with he | he <;> rw [he]
  · exact ⟨.refl _, id⟩
  · exact ⟨c.effect_extends w _, fun h => c.effect_backed w h hstored⟩

/-- The statement records a replica. -/
def Statement.records : Statement → Bool
  | .upsert .. => true
  | _ => false

theorem Statement.perform_unrecorded {c : Statement} (hc : c.records = false) (w : Circumstances)
    (x : Shared × Notes) : backing.guar x (c.perform w x).2 := by
  apply c.perform_backing
  rintro chunkId nodeId storageKey sizeBytes status rfl
  cases hc

theorem sat_of_unrecorded {α : Type} {p : Service α}
    (hp : p.OnlyIssues fun c => c.records = false) (x : Shared × Notes) :
    p.sat backing (fun _ _ => True) x := by
  apply Prog.sat_of_issues (fun _ => True) (fun _ _ _ _ => trivial) _ hp trivial
  exact fun c w y hc _ _ => ⟨c.perform_unrecorded hc w y, trivial⟩

/-- The targets are nodes with their buckets. -/
def Known (targets : List StorageNodeRecord) (x : Shared × Notes) : Prop :=
  ∀ node ∈ targets, (node.id, node.bucket) ∈ x.1.cluster.buckets

theorem Known.extend {targets : List StorageNodeRecord} {x y : Shared × Notes}
    (h : Known targets x) (hxy : x.1.cluster.Extends y.1.cluster) : Known targets y :=
  fun node hn => hxy.buckets ▸ h node hn

section
variable (options : ReplicationServiceOptions) (chunkId : Uuid) (storageKey : String)
  (sizeBytes : Nat)

/-- The upsert comes after a copy that has succeeded. -/
theorem sat_placeOn_backing {node : StorageNodeRecord} {x : Shared × Notes}
    (hx : (node.id, node.bucket) ∈ x.1.cluster.buckets) :
    (placeOn options chunkId storageKey sizeBytes node).sat backing (fun _ _ => True) x := by
  have hcopied : (ReplicationService.replicateToNode options storageKey sizeBytes node).sat backing
      (fun r t => r = .ok () → t.1.cluster.Stores node.id storageKey) x := by
    apply Prog.sat_command
    intro t ht w _
    refine ⟨Statement.perform_unrecorded rfl w t, fun _ _ he => (by cases he), fun _ hres => ?_⟩
    have hexec := Statement.exec_ok hres
    have hstores : (backing.exec (.copyToNode options.primaryBucket storageKey node.bucket)
        w t).2.1.cluster.Stores node.id storageKey := by
      show (Statement.exec _ w t.1.cluster).2.Stores node.id storageKey
      rw [hexec]
      exact Cluster.stores_of_mem (ht.buckets ▸ hx) (Finset.mem_insert_self _ _)
    intro u hu w' _
    have hguar := Statement.perform_unrecorded (c := .incrementUsedBytes node.id sizeBytes)
      rfl w' u
    exact ⟨hguar, fun _ => (hstores.extend hu).extend hguar.1⟩
  rw [placeOn, Prog.sat_bind]
  refine Prog.sat_mono ?_ hcopied
  rintro (e | done) t ht
  · trivial
  · intro u hu w _
    refine ⟨Statement.perform_backing _ w u ?_, trivial⟩
    rintro _ _ _ _ _ ⟨⟩
    exact (ht rfl).extend hu

theorem sat_copyToTargets_backing {targets : List StorageNodeRecord} {x : Shared × Notes}
    (hx : Known targets x) :
    (ReplicationService.copyToTargets options chunkId storageKey sizeBytes targets).sat backing
      (fun _ _ => True) x := by
  have hloop := sat_copyToTargets options chunkId storageKey sizeBytes (w := backing) Known
    (fun node targets y hy => ?_) hx
  · exact Prog.sat_mono (fun _ _ _ => trivial) hloop
  · have hnode := sat_placeOn_backing options chunkId storageKey sizeBytes
      (hy node List.mem_cons_self)
    have hrest : Known targets y := fun n hn => hy n (List.mem_cons_of_mem _ hn)
    have hframed := Prog.sat_frame (Known targets) (fun y z (hr : backing.rely y z) h => h.extend hr)
      (fun y z (hg : backing.guar y z) h => h.extend hg.1) hnode hrest
    exact Prog.sat_mono (fun _ _ h => h.2) hframed

/-- `listHealthy` names nodes with their buckets. -/
theorem known_listHealthy {w : Circumstances} {x : Shared × Notes} {nodes : List StorageNodeRecord}
    (h : (backing.exec .listHealthy w x).1 = .ok nodes) :
    Known nodes (backing.exec .listHealthy w x).2 := by
  intro node hn
  have hexec := Statement.exec_ok h
  have hnodes : (Statement.exec .listHealthy w x.1.cluster).1 = .ok nodes := h
  rw [hexec] at hnodes
  cases hnodes
  show (node.id, node.bucket) ∈ (Statement.exec .listHealthy w x.1.cluster).2.buckets
  rw [hexec]
  have hmem := (x.1.cluster.listHealthy_perm w.uuidRank).mem_iff.mp hn
  exact List.mem_map_of_mem (List.mem_filter.mp hmem).1

theorem sat_replicateChunk_backing (x : Shared × Notes) :
    (ReplicationService.replicateChunk options chunkId storageKey sizeBytes).sat backing
      (fun _ _ => True) x := by
  apply Prog.sat_command
  intro t _ w _
  refine ⟨Statement.perform_unrecorded rfl w t, fun _ _ => trivial, fun nodes hres => ?_⟩
  split_ifs
  · trivial
  · apply sat_copyToTargets_backing
    exact fun node hn => known_listHealthy hres node (List.mem_of_mem_take hn)

theorem sat_healChunk_backing (neededCount : Nat) (excludeNodeIds : List Uuid)
    (x : Shared × Notes) :
    (ReplicationService.healChunk options chunkId storageKey sizeBytes neededCount
      excludeNodeIds).sat backing (fun _ _ => True) x := by
  unfold ReplicationService.healChunk
  split_ifs
  · trivial
  · apply Prog.sat_command
    intro t _ w _
    refine ⟨Statement.perform_unrecorded rfl w t, fun _ _ => trivial, fun nodes hres => ?_⟩
    dsimp only
    split_ifs
    · trivial
    · apply sat_copyToTargets_backing
      exact fun node hn => known_listHealthy hres node
        (List.mem_of_mem_filter (List.mem_of_mem_take hn))

end

theorem sat_healOnce_backing (options : ReplicationServiceOptions) (x : Shared × Notes) :
    (SelfHealingService.healOnce options).sat backing (fun _ _ => True) x := by
  have hmark := sat_of_unrecorded (onlyIssues_markReplicasOnUnhealthyNodesLost rfl
    (fun _ => rfl) fun _ => rfl) x
  rw [SelfHealingService.healOnce, Prog.sat_bind]
  refine Prog.sat_mono ?_ hmark
  rintro (e | done) t -
  · trivial
  · apply Prog.sat_command
    intro u _ w _
    refine ⟨Statement.perform_unrecorded rfl w u, fun _ _ => trivial, fun chunks _ => ?_⟩
    apply sat_reconcileEach options (fun _ _ => True) (fun _ => True) (fun _ _ _ => trivial) _
      trivial
    intro chunk chunks y _
    apply Prog.sat_command
    intro v _ w' _
    refine ⟨Statement.perform_unrecorded rfl w' v, fun _ _ => trivial, fun existingNodeIds _ => ?_⟩
    exact sat_healChunk_backing options _ _ _ _ _ _

theorem sat_service_backing (options : ReplicationServiceOptions) (call : Call)
    (x : Shared × Notes) : (call.service options).sat backing (fun _ _ => True) x := by
  have hends : ∀ {α : Type} {p : Service α} (f : α → Service Unit),
      (∀ a, f a = pure ()) → p.sat backing (fun _ _ => True) x →
        (p >>= f).sat backing (fun _ _ => True) x := by
    intro α p f hf hp
    rw [Prog.sat_bind]
    refine Prog.sat_mono ?_ hp
    rintro (e | a) t -
    · trivial
    · show (f a).sat _ _ t
      rw [hf]
      trivial
  cases call with
  | operation op =>
    cases op with
    | replicateChunk chunk =>
      exact hends _ (fun _ => rfl) (sat_replicateChunk_backing options _ _ _ x)
    | heartbeat name =>
      exact sat_of_unrecorded (onlyIssues_postHeartbeat (K := fun c => c.records = false)
        (fun _ => rfl) rfl (fun _ _ _ => rfl) name) x
    | stalenessSweep staleMs =>
      exact sat_of_unrecorded (onlyIssues_tick (K := fun c => c.records = false) rfl rfl
        (fun _ => rfl) staleMs) x
    | healingSweep => exact sat_healOnce_backing options x
  | healChunk chunk neededCount excludeNodeIds =>
    exact hends _ (fun _ => rfl) (sat_healChunk_backing options _ _ _ _ _ x)
  | setHealth id isHealthy heartbeatAt =>
    exact sat_of_unrecorded (Prog.onlyIssues_perform rfl) x

/-! ### Runs -/

theorem backing_sound (options : ReplicationServiceOptions) {cluster : Cluster}
    (hempty : cluster.replicas = []) {calls : Calls}
    (h : Reach (Calls.step options) (fun _ _ => True) (.init cluster) calls) :
    calls.Sound backing (fun s => s.cluster.Backed) fun _ _ => True := by
  apply h.invariant (fun calls => calls.Sound backing (fun s => s.cluster.Backed) fun _ _ => True)
  · refine Pool.Sound.init fun r (hr : r ∈ cluster.replicas) => ?_
    rw [hempty] at hr
    cases hr
  · intro calls a calls' hsound _ hstep
    cases a with
    | spawn call =>
      exact hsound.spawn (Call.start options) backing_lawful (fun _ _ _ => trivial)
        hsound.shared (fun _ => Cluster.Extends.refl calls.shared.cluster)
        (sat_service_backing options call _) (fun _ _ _ => trivial) hstep
    | proceed i w =>
      exact hsound.proceed (Call.start options) backing_lawful (fun _ _ _ => trivial)
        (fun _ _ _ _ hg hs => hg.2 hs)
        (fun _ _ _ _ _ hg _ _ => hg.1) (fun _ _ _ _ => trivial)
        (fun _ _ _ _ _ _ _ _ _ _ => trivial) hstep

/-- Whatever fails and however the calls interleave, the bucket of the node of a synced replica
holds the object that the replica names. -/
theorem synced_replicas_stored (options : ReplicationServiceOptions) (cluster : Cluster)
    (hempty : cluster.replicas = []) (calls : Calls)
    (h : Reach (Calls.step options) (fun _ _ => True) (.init cluster) calls) :
    ∀ r ∈ calls.shared.cluster.replicas, r.status = .synced →
      ∃ node ∈ calls.shared.cluster.nodes, node.id = r.nodeId ∧
        (node.bucket, r.storageKey) ∈ calls.shared.cluster.objects := by
  intro r hr _
  obtain ⟨bucket, hbucket, hobject⟩ := (backing_sound options hempty h).shared r hr
  obtain ⟨node, hn, heq⟩ := List.mem_map.mp hbucket
  rw [Prod.mk.injEq] at heq
  obtain ⟨hid, rfl⟩ := heq
  exact ⟨node, hn, hid, hobject⟩

/-- A chunk handled twice at a time, under two keys, with a copy that fails. -/
def twoKeys : List Calls.Action :=
  [.spawn (.operation (.replicateChunk ⟨7, "chunks/a", 5⟩)),
    .spawn (.operation (.replicateChunk ⟨7, "chunks/b", 6⟩))] ++
  [0, 0, 1, 1, 0, 0, 1, 1, 0].map (fun i => .proceed i (.calm 1)) ++
  [.proceed 1 ⟨.failed, 2, fun _ => 0, fun _ => 0⟩]

theorem synced_replicas_stored_twoKeys :
    ∃ calls : Calls, calls.shared.cluster.replicas.map (fun r => (r.storageKey, r.sizeBytes)) =
        [("chunks/a", 6)] ∧
      ∀ r ∈ calls.shared.cluster.replicas, r.status = .synced →
        ∃ node ∈ calls.shared.cluster.nodes, node.id = r.nodeId ∧
          (node.bucket, r.storageKey) ∈ calls.shared.cluster.objects := by
  have hrun : ∃ calls ∈ twoKeys.foldlM
      (fun s a => if True then Calls.step .sample s a else none) (Calls.init (.installed 2)),
      calls.shared.cluster.replicas.map (fun r => (r.storageKey, r.sizeBytes)) =
        [("chunks/a", 6)] := by decide
  obtain ⟨calls, hs, hrows⟩ := hrun
  exact ⟨calls, hrows, synced_replicas_stored .sample (.installed 2) rfl calls
    (reach_of_schedule hs)⟩

end IntelliStore.Replication
