import IntelliStore.Replication.Delivery

/-! A chunk that is delivered a second time. -/

namespace IntelliStore.Replication
open Library Postgres

section
variable (options : ReplicationServiceOptions) (chunkId : Uuid) (storageKey : String)
  (sizeBytes : Nat) {s t u : Cluster}

/-- Where all statements succeed, a run is one of the copyable keys. -/
theorem run_attempt {ws : Nat → Circumstances} (hws : ∀ n, (ws n).outcome = .succeeded)
    {α : Type} (p : Service α) (x : Cluster × List (Uuid × Uuid)) :
    (p.run Statement.exec ws x.1).2 =
      (p.run (Statement.attempt fun _ => true) ws x).2.1 := by
  have hexec : ∀ (c : Statement) (w : Circumstances) (x : Cluster × List (Uuid × Uuid)),
      w.outcome = .succeeded → c.exec w x.1 =
        ((c.attempt (fun _ => true) w x).1, (c.attempt (fun _ => true) w x).2.1) := by
    intro c w x hw
    have hcopied : c.uncopyable (fun _ => true) = false := by cases c <;> rfl
    rw [c.attempt_eq (by rw [hcopied, hw]; rfl)]
  rw [Prog.run_proj Prod.fst hexec hws]

/-- One delivery that nothing disturbs. -/
theorem replicateChunk_delivers {ws : Nat → Circumstances}
    (hws : ∀ n, (ws n).outcome = .succeeded) (s : Cluster) :
    ∃ y, y.1 = ((ReplicationService.replicateChunk options chunkId storageKey sizeBytes).run
        Statement.exec ws s).2 ∧
      Delivered chunkId sizeBytes
        ((targetsOf options s (ws 0).uuidRank).map StorageNodeRecord.id) (s, []) y := by
  let copyable : String → Bool := fun _ => true
  have hkey : copyable storageKey = true := rfl
  have hsat : (replicateOnto options chunkId storageKey sizeBytes
      (s.listHealthy (ws 0).uuidRank)).sat (attempting copyable) _ (s, []) :=
    sat_replicateOnto_copyable options (x := (s, [])) hkey (ws 0).uuidRank
  have hrun := Prog.sat_run (attempting_lawful copyable) (fun n => ws (n + 1)) hsat
    (Prog.meets_of_forall (fun _ _ _ => trivial) _ _ _)
  refine ⟨_, ?_, hrun.2⟩
  rw [run_attempt hws _ (s, [])]
  rfl

variable {chunkId sizeBytes}

namespace Delivered
variable {nodeIds : List Uuid} {x y : Cluster × List (Uuid × Uuid)}

theorem used_kept (h : Delivered chunkId sizeBytes nodeIds x y)
    (hids : ∀ id ∈ nodeIds, id ∈ x.1.nodes.map StorageNodeRecord.id) :
    y.1.used = x.1.used ↔ nodeIds = [] ∨ sizeBytes = 0 := by
  rw [Cluster.used, h.nodes, List.map_map, Cluster.used, List.map_inj_left]
  constructor
  · intro hkept
    cases nodeIds with
    | nil => exact .inl rfl
    | cons id rest =>
      right
      obtain ⟨node, hn, rfl⟩ := List.mem_map.mp (hids id List.mem_cons_self)
      have hnode := hkept node hn
      simp only [Function.comp_apply, List.contains_cons, beq_self_eq_true, Bool.true_or, if_true,
        Prod.mk.injEq, true_and] at hnode
      omega
  · rintro (rfl | rfl) node -
    · rfl
    · simp only [Function.comp_apply]
      split <;> rfl

theorem rows_kept (h : Delivered chunkId sizeBytes nodeIds x y) :
    (∀ row, row ∈ y.1.rows ↔ row ∈ x.1.rows) ↔
      ∀ id ∈ nodeIds, (chunkId, id, ReplicaStatus.synced, sizeBytes) ∈ x.1.rows := by
  constructor
  · intro hkept id hid
    exact (hkept _).mp ((h.rows _).mpr (.inl ⟨rfl, hid, rfl⟩))
  · intro hrows row
    rw [h.rows]
    constructor
    · rintro (⟨hchunk, hid, hrest⟩ | ⟨hrow, -⟩)
      · have heq : row = (chunkId, row.2.1, ReplicaStatus.synced, sizeBytes) :=
          Prod.ext hchunk (Prod.ext rfl hrest)
        exact heq ▸ hrows _ hid
      · exact hrow
    · intro hrow
      by_cases hkey : row.1 = chunkId ∧ row.2.1 ∈ nodeIds
      -- the key determines the row
      · have heq := Cluster.row_unique hrow (hrows _ hkey.2) hkey.1 rfl
        exact .inl ⟨hkey.1, hkey.2, congrArg (fun row => row.2.2) heq⟩
      · exact .inr ⟨hrow, hkey⟩

/-- An empty chunk takes no space. -/
theorem nodes_kept (h : Delivered chunkId 0 nodeIds x y) : y.1.nodes = x.1.nodes := by
  rw [h.nodes]
  conv_rhs => rw [← List.map_id x.1.nodes]
  refine List.map_congr_left fun node _ => ?_
  split <;> rfl

end Delivered

theorem targetsOf_eq_nil (rank : Uuid → Nat) : targetsOf options s rank = [] ↔
    options.replicationFactor = 0 ∨ ∀ node ∈ s.nodes, node.isHealthy = false := by
  rw [← List.length_eq_zero_iff, targetsOf_length, Nat.min_eq_zero_iff, List.length_eq_zero_iff,
    List.filter_eq_nil_iff]
  simp only [Bool.not_eq_true]

/-- A second delivery changes neither the rows nor the fill of the nodes exactly if it has no
target, or the chunk is empty and every target has a synced replica of it by then. -/
theorem redelivery_idempotent_iff (options : ReplicationServiceOptions) (s : Cluster)
    (chunkId : Uuid) (storageKey : String) (sizeBytes : Nat) (ws₁ ws₂ : Nat → Circumstances)
    (hws₁ : ∀ n, (ws₁ n).outcome = .succeeded) (hws₂ : ∀ n, (ws₂ n).outcome = .succeeded) :
    let delivery := ReplicationService.replicateChunk options chunkId storageKey sizeBytes
    let s₁ := (delivery.run Statement.exec ws₁ s).2
    let s₂ := (delivery.run Statement.exec ws₂ s₁).2
    ((∀ row, row ∈ s₂.rows ↔ row ∈ s₁.rows) ∧ s₂.used = s₁.used) ↔
      options.replicationFactor = 0 ∨ (∀ node ∈ s.nodes, node.isHealthy = false) ∨
        (sizeBytes = 0 ∧ ∀ node ∈ targetsOf options s (ws₂ 0).uuidRank,
          node ∈ targetsOf options s (ws₁ 0).uuidRank ∨
            (chunkId, node.id, ReplicaStatus.synced, 0) ∈ s.rows) := by
  intro delivery s₁ s₂
  obtain ⟨y₁, hy₁, hfirst⟩ := replicateChunk_delivers options chunkId storageKey sizeBytes hws₁ s
  obtain ⟨y₂, hy₂, hsecond⟩ := replicateChunk_delivers options chunkId storageKey sizeBytes hws₂ s₁
  have hs₁ : y₁.1 = s₁ := hy₁
  have hs₂ : y₂.1 = s₂ := hy₂
  have hknown : ∀ id ∈ (targetsOf options s₁ (ws₂ 0).uuidRank).map StorageNodeRecord.id,
      id ∈ s₁.nodes.map StorageNodeRecord.id := by
    intro id hid
    obtain ⟨node, hn, rfl⟩ := List.mem_map.mp hid
    exact List.mem_map_of_mem (mem_of_targetsOf options hn)
  have hlength : (targetsOf options s₁ (ws₂ 0).uuidRank).length =
      (targetsOf options s (ws₂ 0).uuidRank).length := by
    rw [targetsOf_length, targetsOf_length, ← hs₁, hfirst.healthy]
  have hnil : targetsOf options s₁ (ws₂ 0).uuidRank = [] ↔
      options.replicationFactor = 0 ∨ ∀ node ∈ s.nodes, node.isHealthy = false := by
    rw [← targetsOf_eq_nil options (ws₂ 0).uuidRank, ← List.length_eq_zero_iff, hlength,
      List.length_eq_zero_iff]
  rw [← hs₂, hsecond.used_kept hknown, hsecond.rows_kept, List.map_eq_nil_iff, hnil, ← or_assoc]
  by_cases hnone : options.replicationFactor = 0 ∨ ∀ node ∈ s.nodes, node.isHealthy = false
  · refine iff_of_true ⟨?_, .inl hnone⟩ (.inl hnone)
    rw [hnil.mpr hnone]
    exact fun id hid => (by cases hid)
  · rw [or_iff_right hnone, or_iff_right hnone, and_comm]
    refine and_congr_right fun hempty => ?_
    subst hempty
    have hnodes : s₁.nodes = s.nodes := hs₁ ▸ hfirst.nodes_kept
    have htargets : targetsOf options s₁ (ws₂ 0).uuidRank =
        targetsOf options s (ws₂ 0).uuidRank := by
      rw [targetsOf, targetsOf, Cluster.listHealthy, Cluster.listHealthy, hnodes]
    rw [htargets, List.forall_mem_map]
    refine forall₂_congr fun node hn => ?_
    have hrow : (chunkId, node.id, ReplicaStatus.synced, 0) ∈ s₁.rows ↔ _ :=
      hs₁ ▸ hfirst.rows (chunkId, node.id, ReplicaStatus.synced, 0)
    have hmem : node.id ∈ (targetsOf options s (ws₁ 0).uuidRank).map StorageNodeRecord.id ↔
        node ∈ targetsOf options s (ws₁ 0).uuidRank := by
      refine ⟨fun h => ?_, List.mem_map_of_mem⟩
      obtain ⟨node', hn', hid⟩ := List.mem_map.mp h
      rwa [← Cluster.node_unique (mem_of_targetsOf options hn') (mem_of_targetsOf options hn) hid]
    rw [hrow]
    simp only [hmem, true_and, and_true]
    by_cases hfirstTarget : node ∈ targetsOf options s (ws₁ 0).uuidRank <;> simp [hfirstTarget]

/-- The migration's three nodes, and a chunk of five bytes. -/
theorem redelivered_chunk_counted_twice :
    ¬∀ (s : Cluster) (ws₁ ws₂ : Nat → Circumstances), (∀ n, (ws₁ n).outcome = .succeeded) →
      (∀ n, (ws₂ n).outcome = .succeeded) →
        let delivery := ReplicationService.replicateChunk .sample 7 "chunks/a" 5
        let s₁ := (delivery.run Statement.exec ws₁ s).2
        let s₂ := (delivery.run Statement.exec ws₂ s₁).2
        (∀ row, row ∈ s₂.rows ↔ row ∈ s₁.rows) ∧ s₂.used = s₁.used := by
  intro h
  obtain ⟨-, hused⟩ := h (.installed 3) (fun _ => .calm 1) (fun _ => .calm 2) (fun _ => rfl)
    fun _ => rfl
  exact absurd hused (by decide)

theorem redelivery_idempotent_iff_emptyChunk :
    let delivery := ReplicationService.replicateChunk .sample 7 "chunks/e" 0
    let s₁ := (delivery.run Statement.exec (fun _ => .calm 1) (.installed 3)).2
    let s₂ := (delivery.run Statement.exec (fun _ => .calm 2) s₁).2
    (∀ row, row ∈ s₂.rows ↔ row ∈ s₁.rows) ∧ s₂.used = s₁.used :=
  (redelivery_idempotent_iff .sample (.installed 3) 7 "chunks/e" 0 (fun _ => .calm 1)
    (fun _ => .calm 2) (fun _ => rfl) fun _ => rfl).mpr (.inr (.inr ⟨rfl, fun _ hn => .inl hn⟩))

end
end IntelliStore.Replication
