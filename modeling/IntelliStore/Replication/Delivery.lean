import IntelliStore.Replication.ServiceRules

/-! What the delivery of a chunk-uploaded event leaves in the tables, when the copies of some
keys fail and everything else succeeds. -/

namespace IntelliStore.Replication
open Library Postgres

namespace Cluster

/-- The replica rows as chunk, node, status and size. -/
def rows (s : Cluster) : List (Uuid × Uuid × ReplicaStatus × Nat) :=
  s.replicas.map fun r => (r.chunkId, r.nodeId, r.status, r.sizeBytes)

def used (s : Cluster) : List (Uuid × Nat) := s.nodes.map fun node => (node.id, node.usedBytes)

theorem row_unique {s : Cluster} {row row' : Uuid × Uuid × ReplicaStatus × Nat} (h : row ∈ s.rows)
    (h' : row' ∈ s.rows) (hchunk : row.1 = row'.1) (hnode : row.2.1 = row'.2.1) : row = row' := by
  obtain ⟨r, hr, rfl⟩ := List.mem_map.mp h
  obtain ⟨q, hq, rfl⟩ := List.mem_map.mp h'
  rw [replica_key_unique hr hq hchunk hnode]

/-- After an upsert, the chunk has on the node the row of the upsert and no other. -/
theorem upsert_rows {s t : Cluster} {now : Nat} {chunkId nodeId : Uuid} {storageKey : String}
    {sizeBytes : Nat} {status : ReplicaStatus} {row : ChunkReplicaRecord}
    (h : s.upsert now chunkId nodeId storageKey sizeBytes status = some (row, t))
    (x : Uuid × Uuid × ReplicaStatus × Nat) : x ∈ t.rows ↔
      x = (chunkId, nodeId, status, sizeBytes) ∨
        x ∈ s.rows ∧ ¬(x.1 = chunkId ∧ x.2.1 = nodeId) := by
  obtain ⟨-, -, ⟨old, hold, hchunk, hnode, -, hreplicas⟩ | ⟨hnew, -, hrow, hreplicas⟩⟩ :=
    upsert_inv h
  · rw [rows, hreplicas, List.map_map, List.mem_map]
    constructor
    · rintro ⟨r, hr, rfl⟩
      by_cases hid : r.id = old.id
      · have heq : r = old := replica_unique hr hold hid
        subst heq
        left
        simp [hchunk, hnode]
      · right
        simp only [Function.comp_apply, hid, if_false]
        refine ⟨List.mem_map.mpr ⟨r, hr, rfl⟩, fun hkey => hid ?_⟩
        rw [replica_key_unique hr hold (hkey.1.trans hchunk.symm) (hkey.2.trans hnode.symm)]
    · rintro (rfl | ⟨hx, hkey⟩)
      · exact ⟨old, hold, by simp [hchunk, hnode]⟩
      · obtain ⟨r, hr, rfl⟩ := List.mem_map.mp hx
        have hid : r.id ≠ old.id := fun hid => hkey (by
          rw [replica_unique hr hold hid]
          exact ⟨hchunk, hnode⟩)
        exact ⟨r, hr, by simp [hid]⟩
  · rw [rows, hreplicas, List.map_append, List.mem_append, List.map_singleton, List.mem_singleton,
      hrow, or_comm]
    refine or_congr_right ((and_iff_left_of_imp fun hx hkey => ?_).symm)
    obtain ⟨r, hr, rfl⟩ := List.mem_map.mp hx
    exact hnew r hr hkey.1 hkey.2

end Cluster

/-! ### Statements -/

/-- The copy of a key that cannot be copied. -/
def Statement.uncopyable (copyable : String → Bool) : Statement → Bool
  | .copyToNode _ key _ => !copyable key
  | _ => false

def Statement.recorded : (c : Statement) → Except Failure c.Reply → List (Uuid × Uuid)
  | .upsert chunkId nodeId _ _ _, .ok _ => [(chunkId, nodeId)]
  | _, _ => []

/-- One statement; the replicas recorded so far are kept beside the cluster. -/
def Statement.attempt (copyable : String → Bool) (c : Statement) (w : Circumstances)
    (x : Cluster × List (Uuid × Uuid)) :
    Except Failure c.Reply × (Cluster × List (Uuid × Uuid)) :=
  if c.uncopyable copyable then (.error .library, x)
  else
    let res := c.effect w x.1
    (res.1, res.2, x.2 ++ c.recorded res.1)

/-- The copies of the keys that are not copyable fail, and no other statement does. -/
theorem Statement.attempt_eq (c : Statement) {copyable : String → Bool} {w : Circumstances}
    (hw : w.outcome = if c.uncopyable copyable then .failed else .succeeded)
    (x : Cluster × List (Uuid × Uuid)) : c.attempt copyable w x =
      ((c.exec w x.1).1, (c.exec w x.1).2, x.2 ++ c.recorded (c.exec w x.1).1) := by
  rw [attempt]
  split_ifs at hw ⊢ with hc
  · cases c with
    | copyToNode sourceBucket key destBucket => simp [exec, hw, remote, recorded]
    | _ => cases hc
  · rw [c.exec_of_succeeded hw]

def attempting (copyable : String → Bool) : Contract Statement Statement.Reply Failure
    Circumstances (Cluster × List (Uuid × Uuid)) where
  exec := Statement.attempt copyable
  allowed _ _ _ := True
  rely := Eq
  guar _ _ := True

theorem attempting_lawful (copyable : String → Bool) : (attempting copyable).Lawful :=
  ⟨fun _ => rfl, fun _ _ _ h h' => h.trans h'⟩

section
variable {copyable : String → Bool} {x y z : Cluster × List (Uuid × Uuid)}

/-- The rule for a statement of a service that runs alone. -/
theorem sat_statement {α : Type} {c : Statement} {f : c.Reply → Service α}
    {Q : Except Failure α → Cluster × List (Uuid × Uuid) → Prop}
    (h : ∀ w, Prog.sequel (attempting copyable) Q f (c.attempt copyable w x).1
      (c.attempt copyable w x).2) : (Prog.perform c >>= f).sat (attempting copyable) Q x := by
  rw [Prog.sat_bind]
  rintro t rfl w -
  exact ⟨trivial, h w⟩

/-- `y` is `x` after the chunk was placed on the nodes. -/
structure Delivered (chunkId : Uuid) (sizeBytes : Nat) (nodeIds : List Uuid)
    (x y : Cluster × List (Uuid × Uuid)) : Prop where
  nodes : y.1.nodes = x.1.nodes.map fun node => if nodeIds.contains node.id then
    { node with usedBytes := node.usedBytes + sizeBytes } else node
  rows : ∀ row, row ∈ y.1.rows ↔
    (row.1 = chunkId ∧ row.2.1 ∈ nodeIds ∧ row.2.2 = (.synced, sizeBytes)) ∨
      row ∈ x.1.rows ∧ ¬(row.1 = chunkId ∧ row.2.1 ∈ nodeIds)
  recorded : y.2 = x.2 ++ nodeIds.map fun nodeId => (chunkId, nodeId)

variable {chunkId : Uuid} {sizeBytes : Nat}

namespace Delivered

theorem refl (chunkId : Uuid) (sizeBytes : Nat) (x : Cluster × List (Uuid × Uuid)) :
    Delivered chunkId sizeBytes [] x x where
  nodes := (List.map_id _).symm
  rows := by simp
  recorded := (List.append_nil _).symm

theorem concat {nodeId : Uuid} {nodeIds : List Uuid} (h : Delivered chunkId sizeBytes nodeIds x y)
    (h' : Delivered chunkId sizeBytes [nodeId] y z) (hnew : nodeId ∉ nodeIds) :
    Delivered chunkId sizeBytes (nodeIds ++ [nodeId]) x z where
  nodes := by
    rw [h'.nodes, h.nodes, List.map_map]
    refine List.map_congr_left fun node _ => ?_
    by_cases hid : node.id = nodeId
    · simp [hid, hnew]
    · by_cases hmem : node.id ∈ nodeIds <;> simp [hid, hmem]
  rows := by
    intro row
    rw [h'.rows, h.rows, List.mem_append]
    by_cases hid : row.2.1 = nodeId
    · simp [hid, hnew]
    · simp [hid]
  recorded := by
    rw [h'.recorded, h.recorded, List.append_assoc, List.map_append]

theorem ids (h : Delivered chunkId sizeBytes nodeIds x y) :
    y.1.nodes.map StorageNodeRecord.id = x.1.nodes.map StorageNodeRecord.id := by
  rw [h.nodes, List.map_map]
  refine List.map_congr_left fun node _ => ?_
  simp only [Function.comp_apply]
  split <;> rfl

theorem healthy (h : Delivered chunkId sizeBytes nodeIds x y) :
    (y.1.nodes.filter (·.isHealthy)).length = (x.1.nodes.filter (·.isHealthy)).length := by
  rw [h.nodes, List.filter_map, List.length_map]
  congr 2
  funext node
  simp only [Function.comp_apply]
  split <;> rfl

end Delivered

/-! ### Placing a chunk -/

section
variable (options : ReplicationServiceOptions) {storageKey : String}

theorem sat_placeOn_copyable (hkey : copyable storageKey = true) {node : StorageNodeRecord}
    (hnode : node.id ∈ x.1.nodes.map StorageNodeRecord.id) :
    (placeOn options chunkId storageKey sizeBytes node).sat (attempting copyable) (fun r y =>
      ∃ row, r = .ok row ∧ Delivered chunkId sizeBytes [node.id] x y) x := by
  rw [placeOn, Prog.sat_bind]
  apply sat_statement
  intro w₁
  have hcopy : (Statement.copyToNode options.primaryBucket storageKey node.bucket).attempt
      copyable w₁ x = (.ok (), x.1.copyToNode storageKey node.bucket, x.2) := by
    simp [Statement.attempt, Statement.uncopyable, hkey, Statement.effect, Statement.recorded]
  rw [hcopy]
  rintro _ rfl w₂ -
  refine ⟨trivial, ?_⟩
  let s₂ := (x.1.copyToNode storageKey node.bucket).incrementUsedBytes node.id sizeBytes
  have hincrement : (attempting copyable).exec (.incrementUsedBytes node.id sizeBytes) w₂
      (x.1.copyToNode storageKey node.bucket, x.2) = (.ok (), s₂, x.2) := by
    simp [attempting, Statement.attempt, Statement.uncopyable, Statement.effect,
      Statement.recorded, s₂]
  rw [hincrement]
  rintro _ rfl w₃ -
  refine ⟨trivial, ?_⟩
  have hids : s₂.nodes.map StorageNodeRecord.id = x.1.nodes.map StorageNodeRecord.id :=
    Cluster.updateNode_ids
  cases hupsert : s₂.upsert w₃.now chunkId node.id storageKey sizeBytes .synced with
  | none =>
    rw [Cluster.upsert_eq_none] at hupsert
    exact absurd (hids ▸ hnode) hupsert.2
  | some res =>
    obtain ⟨row, t⟩ := res
    have hexec : (attempting copyable).exec (.upsert chunkId node.id storageKey sizeBytes .synced)
        w₃ (s₂, x.2) = (.ok row, t, x.2 ++ [(chunkId, node.id)]) := by
      simp [attempting, Statement.attempt, Statement.uncopyable, Statement.effect,
        Statement.recorded, hupsert]
    rw [hexec]
    refine ⟨row, rfl, ?_, fun r => ?_, rfl⟩
    · rw [(Cluster.upsert_inv hupsert).1]
      refine List.map_congr_left fun n _ => ?_
      by_cases hid : n.id = node.id <;> simp [hid]
    · rw [Cluster.upsert_rows hupsert, List.mem_singleton]
      refine or_congr_left ⟨?_, ?_⟩
      · rintro rfl
        exact ⟨rfl, rfl, rfl⟩
      · rintro ⟨hchunk, hid, hrest⟩
        exact Prod.ext hchunk (Prod.ext hid hrest)

/-- All the targets are placed, and the call returns their rows. -/
theorem sat_copyToTargets_copyable (hkey : copyable storageKey = true)
    {targets : List StorageNodeRecord} (hids : (targets.map StorageNodeRecord.id).Nodup)
    (hnodes : ∀ node ∈ targets, node.id ∈ x.1.nodes.map StorageNodeRecord.id) :
    (ReplicationService.copyToTargets options chunkId storageKey sizeBytes targets).sat
      (attempting copyable) (fun r y => (targets ≠ [] ↔ ∃ rows, r = .ok rows) ∧
        Delivered chunkId sizeBytes (targets.map StorageNodeRecord.id) x y) x := by
  let Inv (rest : List StorageNodeRecord) (results : List ChunkReplicaRecord)
      (y : Cluster × List (Uuid × Uuid)) : Prop :=
    ∃ placed, targets = placed ++ rest ∧ results.length = placed.length ∧
      Delivered chunkId sizeBytes (placed.map StorageNodeRecord.id) x y
  have hstart : Inv targets [] x := ⟨[], rfl, rfl, .refl chunkId sizeBytes x⟩
  have hloop := sat_copyToTargets_tallied options chunkId storageKey sizeBytes targets
    (w := attempting copyable) Inv (fun node rest results y hy => ?_) hstart
  · refine Prog.sat_mono ?_ hloop
    rintro r y ⟨results, ⟨placed, htargets, hlength, hplaced⟩, hr⟩
    rw [List.append_nil] at htargets
    subst htargets
    refine ⟨⟨fun hne => ⟨results, (hr results).mpr ⟨rfl, ?_⟩⟩, ?_⟩, hplaced⟩
    · rintro rfl
      exact hne (List.length_eq_zero_iff.mp hlength.symm)
    · rintro ⟨rows, hrows⟩ rfl
      obtain ⟨rfl, hne⟩ := (hr rows).mp hrows
      exact hne (List.length_eq_zero_iff.mp hlength)
  · obtain ⟨placed, htargets, hlength, hplaced⟩ := hy
    have hknown : node.id ∈ y.1.nodes.map StorageNodeRecord.id := by
      rw [hplaced.ids]
      exact hnodes node (htargets ▸ List.mem_append_right _ List.mem_cons_self)
    have hnew : node.id ∉ placed.map StorageNodeRecord.id := by
      rw [htargets, List.map_append, List.map_cons] at hids
      exact fun hmem => (List.nodup_append.mp hids).2.2 _ hmem _ List.mem_cons_self rfl
    refine Prog.sat_mono ?_ (sat_placeOn_copyable options hkey hknown)
    rintro _ z ⟨row, rfl, hz⟩
    refine ⟨placed ++ [node], by rw [htargets, List.append_assoc]; rfl, ?_, ?_⟩
    · rw [List.length_append, List.length_append, hlength]
      rfl
    · rw [List.map_append]
      exact hplaced.concat hz hnew

/-- No target is, and the call throws. -/
theorem sat_copyToTargets_uncopyable (hkey : copyable storageKey = false)
    (targets : List StorageNodeRecord) :
    (ReplicationService.copyToTargets options chunkId storageKey sizeBytes targets).sat
      (attempting copyable) (fun r y => (∃ e, r = .error e) ∧ y = x) x := by
  let Inv (_ : List StorageNodeRecord) (results : List ChunkReplicaRecord)
      (y : Cluster × List (Uuid × Uuid)) : Prop := results = [] ∧ y = x
  have hstart : Inv targets [] x := ⟨rfl, rfl⟩
  have hloop := sat_copyToTargets_tallied options chunkId storageKey sizeBytes targets
    (w := attempting copyable) Inv (fun node rest results y hy => ?_) hstart
  · refine Prog.sat_mono ?_ hloop
    rintro (e | rows) y ⟨results, ⟨rfl, rfl⟩, hr⟩
    · exact ⟨⟨e, rfl⟩, rfl⟩
    · obtain ⟨rfl, hne⟩ := (hr rows).mp rfl
      exact absurd rfl hne
  · rw [placeOn, Prog.sat_bind]
    apply sat_statement
    intro w
    have hcopy : (Statement.copyToNode options.primaryBucket storageKey node.bucket).attempt
        copyable w y = (.error .library, y) := by
      simp [Statement.attempt, Statement.uncopyable, hkey]
    rw [hcopy]
    exact hy

theorem listHealthy_ids_nodup (s : Cluster) (rank : Uuid → Nat) :
    ((s.listHealthy rank).map StorageNodeRecord.id).Nodup :=
  (((s.listHealthy_perm rank).map StorageNodeRecord.id).nodup_iff).mpr
    (s.nodes_pkey.sublist (List.filter_sublist.map _))

theorem mem_of_listHealthy {s : Cluster} {rank : Uuid → Nat} {node : StorageNodeRecord}
    (h : node ∈ s.listHealthy rank) : node ∈ s.nodes :=
  (List.mem_filter.mp ((s.listHealthy_perm rank).mem_iff.mp h)).1

/-- The nodes that a delivery of a chunk chooses. -/
def targetsOf (s : Cluster) (rank : Uuid → Nat) : List StorageNodeRecord :=
  (s.listHealthy rank).take options.replicationFactor

theorem targetsOf_ids_nodup (s : Cluster) (rank : Uuid → Nat) :
    ((targetsOf options s rank).map StorageNodeRecord.id).Nodup :=
  (listHealthy_ids_nodup s rank).sublist ((List.take_sublist _ _).map _)

theorem mem_of_targetsOf {s : Cluster} {rank : Uuid → Nat} {node : StorageNodeRecord}
    (h : node ∈ targetsOf options s rank) : node ∈ s.nodes :=
  mem_of_listHealthy (List.mem_of_mem_take h)

theorem targetsOf_length (s : Cluster) (rank : Uuid → Nat) : (targetsOf options s rank).length =
    min options.replicationFactor (s.nodes.filter (·.isHealthy)).length := by
  rw [targetsOf, List.length_take, (s.listHealthy_perm rank).length_eq]

theorem sat_replicateOnto_copyable (hkey : copyable storageKey = true) (rank : Uuid → Nat) :
    (replicateOnto options chunkId storageKey sizeBytes (x.1.listHealthy rank)).sat
      (attempting copyable) (fun r y => (targetsOf options x.1 rank ≠ [] ↔ ∃ rows, r = .ok rows) ∧
        Delivered chunkId sizeBytes ((targetsOf options x.1 rank).map StorageNodeRecord.id) x y)
      x := by
  rw [replicateOnto]
  split_ifs with hempty
  · have htargets : targetsOf options x.1 rank = [] := by
      rw [targetsOf, List.length_eq_zero_iff.mp hempty, List.take_nil]
    rw [htargets]
    refine ⟨iff_of_false (fun h => h rfl) ?_, .refl chunkId sizeBytes x⟩
    rintro ⟨rows, hrows⟩
    cases hrows
  · refine sat_copyToTargets_copyable options hkey (targetsOf_ids_nodup options x.1 rank) ?_
    exact fun node hn => List.mem_map_of_mem (mem_of_targetsOf options hn)

theorem sat_replicateOnto_uncopyable (hkey : copyable storageKey = false)
    (healthyNodes : List StorageNodeRecord) :
    (replicateOnto options chunkId storageKey sizeBytes healthyNodes).sat (attempting copyable)
      (fun r y => (∃ e, r = .error e) ∧ y = x) x := by
  rw [replicateOnto]
  split_ifs
  · exact ⟨⟨_, rfl⟩, rfl⟩
  · exact sat_copyToTargets_uncopyable options hkey _

end
end
end IntelliStore.Replication
