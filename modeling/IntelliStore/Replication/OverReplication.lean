import IntelliStore.Replication.Calls
import IntelliStore.Replication.ServiceRules

/-! How many synced replicas a chunk can have while handler calls and sweeps overlap. -/

namespace IntelliStore.Replication
open Library Postgres

/-! ### The synced replicas of a chunk -/

namespace Cluster
variable {s t : Cluster}

theorem syncedCount_eq (s : Cluster) (chunkId : Uuid) : s.syncedCount chunkId =
    s.replicas.countP fun r => r.status = .synced ∧ r.chunkId = chunkId := by
  rw [syncedCount, rowsOf, List.countP_filter]
  congr 1
  funext r
  rw [Bool.decide_and]

theorem upsert_syncedCount {now : Nat} {chunkId nodeId : Uuid} {storageKey : String}
    {sizeBytes : Nat} {status : ReplicaStatus} {row : ChunkReplicaRecord}
    (h : s.upsert now chunkId nodeId storageKey sizeBytes status = some (row, t)) :
    t.syncedCount chunkId ≤ s.syncedCount chunkId + 1 ∧
      ∀ other, other ≠ chunkId → t.syncedCount other = s.syncedCount other := by
  obtain ⟨-, -, ⟨old, hold, hchunk, -, -, hreplicas⟩ | ⟨-, -, hrow, hreplicas⟩⟩ := upsert_inv h
  · refine ⟨?_, fun other hother => ?_⟩
    · rw [syncedCount_eq, syncedCount_eq, hreplicas]
      exact countP_update_le s.replicas_pkey old.id _ _
    · rw [syncedCount_eq, syncedCount_eq, hreplicas, List.countP_map]
      refine List.countP_congr fun r hr => ?_
      -- the updated row is the conflicting one, a row of `chunkId`
      by_cases hid : r.id = old.id
      · have hrow : r = old := replica_unique hr hold hid
        simp [hrow, hchunk, Ne.symm hother]
      · simp [hid]
  · refine ⟨?_, fun other hother => ?_⟩
    · rw [syncedCount_append hreplicas]
      exact Nat.add_le_add_left (List.countP_le_length.trans (Nat.le_of_eq rfl)) _
    · rw [syncedCount_append hreplicas, hrow]
      simp [Ne.symm hother]

theorem markLost_syncedCount (s : Cluster) (replicaId : Nat) (chunkId : Uuid) :
    (s.markLost replicaId).syncedCount chunkId ≤ s.syncedCount chunkId := by
  rw [syncedCount_eq, syncedCount_eq]
  show (s.replicas.map _).countP _ ≤ _
  rw [List.countP_map]
  refine List.countP_mono_left fun r _ hr => ?_
  simp only [Function.comp_apply, decide_eq_true_iff] at hr ⊢
  split_ifs at hr
  · cases hr.1
  · exact hr

end Cluster

/-- Rows stay of the chunks they are of, and only an upsert adds a synced one. -/
theorem Statement.effect_counts (c : Statement) (w : Circumstances) (s : Cluster) :
    (∀ chunkId, (c.effect w s).2.syncedCount chunkId ≤ s.syncedCount chunkId ∨
      (c.effect w s).2.syncedCount chunkId ≤ s.syncedCount chunkId + 1 ∧
        ∃ nodeId storageKey sizeBytes status,
          c = .upsert chunkId nodeId storageKey sizeBytes status) ∧
      ∀ r ∈ (c.effect w s).2.replicas, (∃ q ∈ s.replicas, q.chunkId = r.chunkId) ∨
        ∃ nodeId storageKey sizeBytes status,
          c = .upsert r.chunkId nodeId storageKey sizeBytes status := by
  cases c with
  | markLost replicaId =>
    refine ⟨fun chunkId => .inl (s.markLost_syncedCount replicaId chunkId), fun r hr => .inl ?_⟩
    obtain ⟨q, hq, rfl⟩ := List.mem_map.mp hr
    refine ⟨q, hq, ?_⟩
    split <;> rfl
  | upsert chunkId nodeId storageKey sizeBytes status =>
    simp only [effect]
    split
    · rename_i row t hupsert
      obtain ⟨hcount, hothers⟩ := Cluster.upsert_syncedCount hupsert
      refine ⟨fun other => ?_, fun r hr => ?_⟩
      · by_cases hother : other = chunkId
        · subst hother
          exact .inr ⟨hcount, _, _, _, _, rfl⟩
        · exact .inl (hothers other hother).le
      · obtain ⟨-, -, ⟨old, -, -, -, -, hreplicas⟩ | ⟨-, -, hrow, hreplicas⟩⟩ :=
          Cluster.upsert_inv hupsert
        · rw [hreplicas] at hr
          obtain ⟨q, hq, rfl⟩ := List.mem_map.mp hr
          refine .inl ⟨q, hq, ?_⟩
          split <;> rfl
        · rw [hreplicas, List.mem_append, List.mem_singleton] at hr
          rcases hr with hr | rfl
          · exact .inl ⟨r, hr, rfl⟩
          · exact .inr (by rw [hrow]; exact ⟨_, _, _, _, rfl⟩)
    · exact ⟨fun _ => .inl le_rfl, fun r hr => .inl ⟨r, hr, rfl⟩⟩
  | _ => exact ⟨fun _ => .inl le_rfl, fun r hr => .inl ⟨r, hr, rfl⟩⟩

/-! ### One call among others -/

/-- Every row is of a chunk whose event has been handed to the handler. -/
def Shared.Announced (s : Shared) : Prop := ∀ r ∈ s.cluster.replicas, r.chunkId ∈ s.handled

/-- The others add no synced replica of the chunks that the call works on. -/
structure Spared (x y : Shared × Notes) : Prop where
  notes : y.2 = x.2
  counts : ∀ chunkId ∈ x.2.working,
    y.1.cluster.syncedCount chunkId ≤ x.1.cluster.syncedCount chunkId
  handled : x.1.handled ⊆ y.1.handled
  announced : x.1.Announced → y.1.Announced

/-- The call adds synced replicas only of the chunks it works on, and only up to the factor. -/
structure Bounded (options : ReplicationServiceOptions) (x y : Shared × Notes) : Prop where
  counts : ∀ chunkId, y.1.cluster.syncedCount chunkId ≤ x.1.cluster.syncedCount chunkId ∨
    chunkId ∈ x.2.working ∧ y.1.cluster.syncedCount chunkId ≤ options.replicationFactor
  handled : y.1.handled = x.1.handled
  announced : x.1.Announced → y.1.Announced

def placing (options : ReplicationServiceOptions) :
    Contract Statement Statement.Reply Failure Circumstances (Shared × Notes) where
  exec := Statement.perform
  allowed _ _ _ := True
  rely := Spared
  guar := Bounded options

theorem placing_lawful (options : ReplicationServiceOptions) : (placing options).Lawful where
  refl := fun _ => ⟨rfl, fun _ _ => le_rfl, fun _ h => h, id⟩
  trans := fun _ _ _ h h' => ⟨h'.notes.trans h.notes,
    fun chunkId hc => (h'.counts chunkId (h.notes ▸ hc)).trans (h.counts chunkId hc),
    fun _ hc => h'.handled (h.handled hc), fun ha => h'.announced (h.announced ha)⟩

/-- The replicas that the call may still add, chunk by chunk. -/
structure Budget (options : ReplicationServiceOptions) (due : List (Uuid × Nat))
    (x : Shared × Notes) : Prop where
  announced : x.1.Announced
  working : due.map Prod.fst <:+ x.2.working
  nodup : (due.map Prod.fst).Nodup
  bounded : ∀ d ∈ due, d.1 ∈ x.1.handled ∧
    x.1.cluster.syncedCount d.1 + d.2 ≤ options.replicationFactor

section
variable {options : ReplicationServiceOptions} {due : List (Uuid × Nat)} {x y : Shared × Notes}
  {chunkId : Uuid} {m n : Nat}

namespace Budget

theorem mem_working (h : Budget options due x) {d : Uuid × Nat} (hd : d ∈ due) :
    d.1 ∈ x.2.working := h.working.subset (List.mem_map_of_mem hd)

theorem spared (h : Budget options due x) (hxy : Spared x y) : Budget options due y where
  announced := hxy.announced h.announced
  working := hxy.notes ▸ h.working
  nodup := h.nodup
  bounded := fun d hd => by
    obtain ⟨hmem, hle⟩ := h.bounded d hd
    have hcount := hxy.counts d.1 (h.mem_working hd)
    exact ⟨hxy.handled hmem, by omega⟩

theorem tail (h : Budget options ((chunkId, n) :: due) x) : Budget options due x where
  announced := h.announced
  working := (List.suffix_cons _ _).trans h.working
  nodup := (List.nodup_cons.mp h.nodup).2
  bounded := fun d hd => h.bounded d (List.mem_cons_of_mem _ hd)

theorem reduce (h : Budget options ((chunkId, n) :: due) x) (hm : m ≤ n) :
    Budget options ((chunkId, m) :: due) x where
  announced := h.announced
  working := h.working
  nodup := h.nodup
  bounded := List.forall_mem_cons.mpr ⟨by
    obtain ⟨hmem, hle⟩ := h.bounded _ List.mem_cons_self
    exact ⟨hmem, (Nat.add_le_add_left hm _).trans hle⟩, h.tail.bounded⟩

end Budget

/-- The statement adds no row and leaves the list of chunks to work on. -/
def Statement.quiet : Statement → Bool
  | .upsert .. | .listUnderReplicated _ | .listNodeIdsForChunk _ => false
  | _ => true

theorem Statement.note_working {c : Statement} (hc : c.quiet = true)
    (reply : Except Failure c.Reply) (notes : Notes) :
    (c.note reply notes).working = notes.working := by
  cases c with
  | listAll => cases reply <;> rfl
  | upsert => cases hc
  | listUnderReplicated => cases hc
  | listNodeIdsForChunk => cases hc
  | _ => rfl

/-- A statement that is no upsert adds no replica of any chunk. -/
theorem Statement.perform_counts {c : Statement} (hc : ∀ chunkId nodeId storageKey sizeBytes status,
      c ≠ .upsert chunkId nodeId storageKey sizeBytes status) (w : Circumstances)
    (x : Shared × Notes) :
    (∀ chunkId, (c.perform w x).2.1.cluster.syncedCount chunkId ≤
        x.1.cluster.syncedCount chunkId) ∧
      (x.1.Announced → (c.perform w x).2.1.Announced) := by
  have hcluster : (c.perform w x).2.1.cluster = (c.exec w x.1.cluster).2 := rfl
  have hhandled : (c.perform w x).2.1.handled = x.1.handled := rfl
  obtain ⟨hcounts, hrows⟩ := c.effect_counts w x.1.cluster
  refine ⟨fun chunkId => ?_, fun ha r hr => ?_⟩
  · rw [hcluster]
    rcases c.exec_cases w x.1.cluster with he | he <;> rw [he]
    rcases hcounts chunkId with h | ⟨-, nodeId, storageKey, sizeBytes, status, h⟩
    · exact h
    · exact absurd h (hc _ _ _ _ _)
  · rw [hhandled]
    rw [hcluster] at hr
    rcases c.exec_cases w x.1.cluster with he | he <;> rw [he] at hr
    · exact ha r hr
    · rcases hrows r hr with ⟨q, hq, heq⟩ | ⟨nodeId, storageKey, sizeBytes, status, h⟩
      · exact heq ▸ ha q hq
      · exact absurd h (hc _ _ _ _ _)

theorem Statement.perform_bounded {c : Statement}
    (hc : ∀ chunkId nodeId storageKey sizeBytes status,
      c ≠ .upsert chunkId nodeId storageKey sizeBytes status) (w : Circumstances)
    (x : Shared × Notes) : Bounded options x (c.perform w x).2 := by
  obtain ⟨hcounts, hannounced⟩ := perform_counts hc w x
  exact ⟨fun chunkId => .inl (hcounts chunkId), rfl, hannounced⟩

theorem Statement.ne_upsert {c : Statement} (hc : c.quiet = true) :
    ∀ chunkId nodeId storageKey sizeBytes status,
      c ≠ .upsert chunkId nodeId storageKey sizeBytes status := by
  rintro chunkId nodeId storageKey sizeBytes status rfl
  cases hc

theorem Budget.quiet (h : Budget options due x) {c : Statement} (hc : c.quiet = true)
    (w : Circumstances) : Budget options due (c.perform w x).2 where
  announced := (Statement.perform_counts (Statement.ne_upsert hc) w x).2 h.announced
  working := (Statement.note_working hc _ _).symm ▸ h.working
  nodup := h.nodup
  bounded := fun d hd => by
    obtain ⟨hmem, hle⟩ := h.bounded d hd
    have hcount := (Statement.perform_counts (Statement.ne_upsert hc) w x).1 d.1
    exact ⟨hmem, by omega⟩

/-- An upsert uses one of the replicas that are due. -/
theorem Budget.upsert {nodeId : Uuid} {storageKey : String} {sizeBytes : Nat}
    {status : ReplicaStatus} (h : Budget options ((chunkId, n + 1) :: due) x) (w : Circumstances) :
    Bounded options x
        (Statement.perform (.upsert chunkId nodeId storageKey sizeBytes status) w x).2 ∧
      Budget options ((chunkId, n) :: due)
        (Statement.perform (.upsert chunkId nodeId storageKey sizeBytes status) w x).2 := by
  let c : Statement := .upsert chunkId nodeId storageKey sizeBytes status
  have hmem : chunkId ∈ x.1.handled := (h.bounded _ List.mem_cons_self).1
  have hle : x.1.cluster.syncedCount chunkId + (n + 1) ≤ options.replicationFactor :=
    (h.bounded _ List.mem_cons_self).2
  have hcounts : ∀ other, (c.exec w x.1.cluster).2.syncedCount other ≤
      x.1.cluster.syncedCount other ∨ other = chunkId ∧
        (c.exec w x.1.cluster).2.syncedCount other ≤ x.1.cluster.syncedCount other + 1 := by
    intro other
    rcases c.exec_cases w x.1.cluster with he | he <;> rw [he]
    · exact .inl le_rfl
    · rcases (c.effect_counts w x.1.cluster).1 other with hsame | ⟨hone, _, _, _, _, heq⟩
      · exact .inl hsame
      · have hchunk : chunkId = other := (Statement.upsert.inj heq).1
        exact .inr ⟨hchunk.symm, hone⟩
  have hannounced : (c.perform w x).2.1.Announced := by
    intro r hr
    have hr' : r ∈ (c.exec w x.1.cluster).2.replicas := hr
    rcases c.exec_cases w x.1.cluster with he | he <;> rw [he] at hr'
    · exact h.announced r hr'
    · rcases (c.effect_counts w x.1.cluster).2 r hr' with ⟨q, hq, heq⟩ | ⟨_, _, _, _, heq⟩
      · exact heq ▸ h.announced q hq
      · have hchunk : chunkId = r.chunkId := (Statement.upsert.inj heq).1
        exact hchunk ▸ hmem
  refine ⟨⟨fun other => ?_, rfl, fun _ => hannounced⟩, hannounced, h.working, h.nodup,
    List.forall_mem_cons.mpr ⟨⟨hmem, ?_⟩, fun d hd => ?_⟩⟩
  · show (c.exec w x.1.cluster).2.syncedCount other ≤ _ ∨ _ ∧
      (c.exec w x.1.cluster).2.syncedCount other ≤ _
    rcases hcounts other with hsame | ⟨rfl, hone⟩
    · exact .inl hsame
    · exact .inr ⟨h.mem_working List.mem_cons_self, by omega⟩
  · show (c.exec w x.1.cluster).2.syncedCount chunkId + n ≤ _
    rcases hcounts chunkId with hsame | ⟨-, hone⟩ <;> omega
  · show _ ∧ (c.exec w x.1.cluster).2.syncedCount d.1 + d.2 ≤ _
    obtain ⟨hmem, hle⟩ := h.tail.bounded d hd
    have hother : d.1 ≠ chunkId := by
      rintro rfl
      have hagain : d.1 ∈ due.map Prod.fst := List.mem_map_of_mem hd
      exact (List.nodup_cons.mp h.nodup).1 hagain
    rcases hcounts d.1 with hsame | ⟨heq, -⟩
    · exact ⟨hmem, by omega⟩
    · exact absurd heq hother

theorem sat_quiet {α : Type} {p : Service α} (hp : p.OnlyIssues fun c => c.quiet = true)
    (h : Budget options due x) :
    p.sat (placing options) (fun _ t => Budget options due t) x :=
  Prog.sat_of_issues (Budget options due) (fun _ _ hr hb => hb.spared hr)
    (fun _ w y hc _ hb => ⟨Statement.perform_bounded (Statement.ne_upsert hc) w y,
      hb.quiet hc w⟩) hp h

variable {storageKey : String} {sizeBytes : Nat}

theorem sat_placeOn_placing {node : StorageNodeRecord}
    (h : Budget options ((chunkId, n + 1) :: due) x) :
    (placeOn options chunkId storageKey sizeBytes node).sat (placing options)
      (fun _ t => Budget options ((chunkId, n) :: due) t) x := by
  have hquiet : (ReplicationService.replicateToNode options storageKey sizeBytes node).OnlyIssues
      fun c => c.quiet = true :=
    Prog.onlyIssues_bind (Prog.onlyIssues_perform rfl) fun _ => Prog.onlyIssues_perform rfl
  rw [placeOn, Prog.sat_bind]
  refine Prog.sat_mono ?_ (sat_quiet hquiet h)
  rintro (e | done) t ht
  · exact ht.reduce (Nat.le_succ n)
  · intro u hu w _
    exact (ht.spared hu).upsert w

theorem sat_copyToTargets_placing {targets : List StorageNodeRecord}
    (h : Budget options ((chunkId, n) :: due) x) (htargets : targets.length ≤ n) :
    (ReplicationService.copyToTargets options chunkId storageKey sizeBytes targets).sat
      (placing options) (fun _ t => Budget options due t) x := by
  have hloop := sat_copyToTargets options chunkId storageKey sizeBytes (w := placing options)
    (fun targets y => Budget options ((chunkId, targets.length) :: due) y)
    (fun node targets y hy => sat_placeOn_placing hy) (h.reduce htargets)
  exact Prog.sat_mono (fun _ _ ht => ht.tail) hloop

theorem sat_replicateChunk_placing
    (h : Budget options [(chunkId, options.replicationFactor)] x) :
    (ReplicationService.replicateChunk options chunkId storageKey sizeBytes).sat (placing options)
      (fun _ _ => True) x := by
  apply Prog.sat_command
  intro t ht w _
  have hbudget := (h.spared ht).quiet (c := .listHealthy) rfl w
  refine ⟨Statement.perform_bounded (Statement.ne_upsert rfl) w t, fun _ _ => trivial,
    fun nodes _ => ?_⟩
  split_ifs
  · trivial
  · exact Prog.sat_mono (fun _ _ _ => trivial)
      (sat_copyToTargets_placing hbudget (List.length_take_le _ _))

theorem sat_healChunk_placing {excludeNodeIds : List Uuid}
    (h : Budget options ((chunkId, n) :: due) x) :
    (ReplicationService.healChunk options chunkId storageKey sizeBytes n excludeNodeIds).sat
      (placing options) (fun _ t => Budget options due t) x := by
  unfold ReplicationService.healChunk
  split_ifs
  · exact h.tail
  · apply Prog.sat_command
    intro t ht w _
    have hbudget := (h.spared ht).quiet (c := .listHealthy) rfl w
    refine ⟨Statement.perform_bounded (Statement.ne_upsert rfl) w t, fun _ _ => hbudget.tail,
      fun nodes _ => ?_⟩
    dsimp only
    split_ifs
    · exact hbudget.tail
    · exact sat_copyToTargets_placing hbudget (List.length_take_le _ _)

/-- A sweep goes on to the next chunk of its list. -/
theorem suffix_dropWhile {α : Type} [DecidableEq α] {a : α} {rest l : List α}
    (h : a :: rest <:+ l) : a :: rest <:+ l.dropWhile (· ≠ a) := by
  obtain ⟨before, rfl⟩ := h
  rw [List.dropWhile_append]
  split_ifs
  · rw [List.dropWhile_cons_of_neg (by simp)]
  · exact List.suffix_append _ _

theorem Budget.next (h : Budget options ((chunkId, n) :: due) x) (w : Circumstances) :
    Budget options ((chunkId, n) :: due)
      (Statement.perform (.listNodeIdsForChunk chunkId) w x).2 := by
  obtain ⟨hcounts, hannounced⟩ := Statement.perform_counts (c := .listNodeIdsForChunk chunkId)
    (fun _ _ _ _ _ he => by cases he) w x
  refine ⟨hannounced h.announced, ?_, h.nodup, fun d hd => ?_⟩
  · have hworking := h.working
    exact suffix_dropWhile hworking
  · obtain ⟨hmem, hle⟩ := h.bounded d hd
    have hcount := hcounts d.1
    exact ⟨hmem, by omega⟩

/-- What the sweep sets out to do. -/
def dueReplicas (options : ReplicationServiceOptions) (chunks : List UnderReplicatedChunk) :
    List (Uuid × Nat) :=
  chunks.map fun chunk => (chunk.chunkId, options.replicationFactor - chunk.syncedCount)

theorem Budget.listed {w : Circumstances} {chunks : List UnderReplicatedChunk}
    (h : x.1.Announced) (hres : (Statement.perform (.listUnderReplicated
      options.replicationFactor) w x).1 = .ok chunks) :
    Budget options (dueReplicas options chunks)
      (Statement.perform (.listUnderReplicated options.replicationFactor) w x).2 := by
  have hexec := Statement.exec_ok hres
  have hreply : (Statement.exec (.listUnderReplicated options.replicationFactor) w
      x.1.cluster).1 = .ok chunks := hres
  have hcluster : (Statement.exec (.listUnderReplicated options.replicationFactor) w
      x.1.cluster).2 = x.1.cluster := by rw [hexec]; rfl
  rw [hexec] at hreply
  have hchunks : x.1.cluster.listUnderReplicated w.uuidRank options.replicationFactor = chunks :=
    Except.ok.inj hreply
  have hids : (dueReplicas options chunks).map Prod.fst = chunks.map UnderReplicatedChunk.chunkId :=
    List.map_map
  refine ⟨?_, ?_, ?_, fun d hd => ?_⟩
  · show ∀ r ∈ (Statement.exec _ w x.1.cluster).2.replicas, _
    rw [hcluster]
    exact h
  · show _ <:+ (Statement.note (.listUnderReplicated options.replicationFactor)
      (Statement.exec _ w x.1.cluster).1 x.2).working
    rw [hids, hexec, ← hchunks]
    exact List.suffix_rfl
  · rw [hids, ← hchunks]
    exact x.1.cluster.listUnderReplicated_nodup w.uuidRank _
  · obtain ⟨chunk, hc, rfl⟩ := List.mem_map.mp hd
    rw [← hchunks] at hc
    obtain ⟨r, hr, rfl, hlt⟩ := Cluster.mem_listUnderReplicated.mp hc
    refine ⟨h r hr, ?_⟩
    show (Statement.exec _ w x.1.cluster).2.syncedCount r.chunkId +
      (options.replicationFactor - x.1.cluster.syncedCount r.chunkId) ≤ _
    rw [hcluster]
    omega

theorem sat_healOnce_placing (h : x.1.Announced) :
    (SelfHealingService.healOnce options).sat (placing options) (fun _ _ => True) x := by
  have hmark : SelfHealingService.markReplicasOnUnhealthyNodesLost.sat (placing options)
      (fun _ t => t.1.Announced) x := by
    refine Prog.sat_of_issues (fun t : Shared × Notes => t.1.Announced)
      (fun y z (hr : Spared y z) ha => hr.announced ha)
      (fun c w y hc _ ha => ?_) (onlyIssues_markReplicasOnUnhealthyNodesLost
        (K := fun c => c.quiet = true) rfl (fun _ => rfl) fun _ => rfl) h
    have hbounded : Bounded options y (c.perform w y).2 :=
      Statement.perform_bounded (Statement.ne_upsert hc) w y
    exact ⟨hbounded, hbounded.announced ha⟩
  rw [SelfHealingService.healOnce, Prog.sat_bind]
  refine Prog.sat_mono ?_ hmark
  rintro (e | done) t ht
  · trivial
  · apply Prog.sat_command
    intro u hu w _
    refine ⟨Statement.perform_bounded (fun _ _ _ _ _ he => by cases he) w u, fun _ _ => trivial,
      fun chunks hres => ?_⟩
    apply sat_reconcileEach options (fun chunks y => Budget options (dueReplicas options chunks) y)
      (fun _ => True) (fun _ _ _ => trivial) _ (Budget.listed (hu.announced ht) hres)
    intro chunk chunks y hy
    apply Prog.sat_command
    intro v hv w' _
    have hnext := (hy.spared hv).next w'
    exact ⟨Statement.perform_bounded (fun _ _ _ _ _ he => by cases he) w' v,
      fun _ _ => hnext.tail, fun existingNodeIds _ => sat_healChunk_placing hnext⟩

end

/-! ### Runs -/

/-- Each chunk is handed to the handler once, and healed by sweeps only. -/
def Calls.HandledOnce (calls : Calls) : Calls.Action → Prop
  | .spawn (.operation (.replicateChunk chunk)) =>
    calls.shared.handled.contains chunk.chunkId = false
  | .spawn (.healChunk ..) => False
  | _ => True

/-- A sweep that reads its list finds no chunk on it that another call in progress is working
on or still has to. -/
def Calls.Undivided (calls : Calls) : Calls.Action → Prop
  | .proceed i w =>
    match calls.threads[i]? with
    | some (_, .call (.listUnderReplicated desiredCount) _) => w.outcome = .succeeded →
      ∀ chunk ∈ calls.shared.cluster.listUnderReplicated w.uuidRank desiredCount,
        ∀ y ∈ calls.threads.eraseIdx i, y.2.running = true →
          y.1.working.contains chunk.chunkId = false
    | _ => True
  | _ => True

instance (calls : Calls) (a : Calls.Action) : Decidable (calls.HandledOnce a) := by
  unfold Calls.HandledOnce
  split <;> infer_instance

/-- The call is about to read the list for the given count. -/
def Calls.listing (calls : Calls) (i : Nat) : Option Nat :=
  match calls.threads[i]? with
  | some (_, .call (.listUnderReplicated desiredCount) _) => some desiredCount
  | _ => none

instance (calls : Calls) (a : Calls.Action) : Decidable (calls.Undivided a) :=
  match a with
  | .spawn _ => .isTrue trivial
  | .proceed i w => decidable_of_iff (∀ desiredCount ∈ calls.listing i, w.outcome = .succeeded →
      ∀ chunk ∈ calls.shared.cluster.listUnderReplicated w.uuidRank desiredCount,
        ∀ y ∈ calls.threads.eraseIdx i, y.2.running = true →
          y.1.working.contains chunk.chunkId = false) (by
    unfold Calls.listing Calls.Undivided
    dsimp only
    split <;> simp)

def Notes.Disjoint (l m : Notes) : Prop := ∀ chunkId ∈ l.working, chunkId ∉ m.working

/-- The chunks noted after a statement were noted before, or are those of the list it read. -/
theorem Statement.perform_working (c : Statement) (w : Circumstances) (x : Shared × Notes)
    {chunkId : Uuid} (h : chunkId ∈ (c.perform w x).2.2.working) : chunkId ∈ x.2.working ∨
      ∃ desiredCount, c = .listUnderReplicated desiredCount ∧ w.outcome = .succeeded ∧
        ∃ chunk ∈ x.1.cluster.listUnderReplicated w.uuidRank desiredCount,
          chunk.chunkId = chunkId := by
  by_cases hquiet : c.quiet = true
  · have hsame : (c.perform w x).2.2.working = x.2.working := note_working hquiet _ _
    exact .inl (hsame ▸ h)
  cases c with
  | listUnderReplicated desiredCount =>
    cases hw : w.outcome with
    | succeeded =>
      simp only [perform, exec, remote, hw, effect, note] at h
      obtain ⟨chunk, hc, rfl⟩ := List.mem_map.mp h
      exact .inr ⟨desiredCount, rfl, rfl, chunk, hc, rfl⟩
    | failed =>
      simp only [perform, exec, remote, hw, note] at h
      exact .inl h
    | unacknowledged =>
      simp only [perform, exec, remote, hw, note] at h
      exact .inl h
  | listNodeIdsForChunk other => exact .inl ((List.dropWhile_sublist _).subset h)
  | upsert => exact .inl h
  | _ => exact absurd rfl hquiet

/-- No chunk has more synced replicas than it should, and all that calls work on was handed over. -/
structure Calls.WithinFactor (options : ReplicationServiceOptions) (calls : Calls) : Prop where
  sound : calls.Sound (placing options) (fun s => s.Announced ∧
    ∀ chunkId, s.cluster.syncedCount chunkId ≤ options.replicationFactor) Notes.Disjoint
  noted : ∀ y ∈ calls.threads, ∀ chunkId ∈ y.1.working, chunkId ∈ calls.shared.handled

section
variable {options : ReplicationServiceOptions} {calls calls' : Calls}

theorem Calls.fresh_event {call : Call} (hg : calls.HandledOnce (.spawn call)) :
    ∀ chunkId ∈ call.event, chunkId ∉ calls.shared.handled := by
  intro chunkId hc
  cases call with
  | operation op =>
    cases op with
    | replicateChunk chunk =>
      cases List.mem_singleton.mp hc
      have hnew : calls.shared.handled.contains chunk.chunkId = false := hg
      rw [← List.contains_iff_mem, hnew]
      exact Bool.false_ne_true
    | _ => cases hc
  | _ => cases hc

theorem sat_service_placing {call : Call} (ha : calls.shared.Announced)
    (hg : calls.HandledOnce (.spawn call)) :
    (call.service options).sat (placing options) (fun _ _ => True)
      ((call.start options calls.shared).1, (call.start options calls.shared).2.1) := by
  have hannounced : (call.start options calls.shared).1.Announced :=
    fun r hr => List.mem_append_left _ (ha r hr)
  have hquiet : ∀ p : Service Unit, p.OnlyIssues (fun c => c.quiet = true) →
      p.sat (placing options) (fun _ _ => True)
        ((call.start options calls.shared).1, (call.start options calls.shared).2.1) := by
    intro p hp
    have hnone : Budget options [] ((call.start options calls.shared).1,
        (call.start options calls.shared).2.1) :=
      ⟨hannounced, List.nil_suffix, List.nodup_nil, by simp⟩
    exact Prog.sat_mono (fun _ _ _ => trivial) (sat_quiet hp hnone)
  cases call with
  | operation op =>
    cases op with
    | replicateChunk chunk =>
      have hbudget : Budget options [(chunk.chunkId, options.replicationFactor)]
          ((Call.start options (.operation (.replicateChunk chunk)) calls.shared).1,
            (Call.start options (.operation (.replicateChunk chunk)) calls.shared).2.1) := by
        refine ⟨hannounced, List.suffix_rfl, List.nodup_singleton _,
          List.forall_mem_singleton.mpr ⟨List.mem_concat_self, ?_⟩⟩
        -- the chunk is new, so it has no row yet
        have hnone : calls.shared.cluster.syncedCount chunk.chunkId = 0 := by
          rw [Cluster.syncedCount_eq, List.countP_eq_zero]
          intro r hr hrow
          rw [decide_eq_true_iff] at hrow
          exact calls.fresh_event hg _ (List.mem_singleton_self _) (hrow.2 ▸ ha r hr)
        show calls.shared.cluster.syncedCount chunk.chunkId + _ ≤ _
        rw [hnone, Nat.zero_add]
      show (ReplicationService.onChunkUploaded options [chunk]).sat _ _ _
      rw [ReplicationService.onChunkUploaded, Prog.sat_bind]
      refine Prog.sat_mono ?_ (sat_replicateChunk_placing hbudget)
      rintro (e | replicas) t - <;> trivial
    | heartbeat name =>
      exact hquiet _ (onlyIssues_postHeartbeat (K := fun c => c.quiet = true) (fun _ => rfl) rfl
        (fun _ _ _ => rfl) name)
    | stalenessSweep staleMs =>
      exact hquiet _ (onlyIssues_tick (K := fun c => c.quiet = true) rfl rfl (fun _ => rfl)
        staleMs)
    | healingSweep => exact sat_healOnce_placing hannounced
  | healChunk => exact hg.elim
  | setHealth id isHealthy heartbeatAt => exact hquiet _ (Prog.onlyIssues_perform rfl)

theorem Calls.WithinFactor.step {a : Calls.Action} (h : calls.WithinFactor options)
    (hg : calls.HandledOnce a ∧ calls.Undivided a) (hstep : calls.step options a = some calls') :
    calls'.WithinFactor options := by
  have hsymm : ∀ l m : Notes, l.Disjoint m → m.Disjoint l :=
    fun l m hlm chunkId hm hl => hlm chunkId hl hm
  obtain ⟨⟨hannounced, hcounts⟩, hthreads, hapart⟩ := h.sound
  cases a with
  | spawn call =>
    have hnext : (call.start options calls.shared).1.Announced :=
      fun r hr => List.mem_append_left _ (hannounced r hr)
    refine ⟨h.sound.spawn (Call.start options) (placing_lawful options) hsymm
      ⟨hnext, hcounts⟩ (fun m => ⟨rfl, fun _ _ => le_rfl, List.subset_append_left _ _,
        fun _ => hnext⟩) (sat_service_placing hannounced hg.1) (fun y hy _ chunkId hc hm => ?_)
      hstep, ?_⟩
    · exact calls.fresh_event hg.1 chunkId hc (h.noted y hy chunkId hm)
    · cases hstep
      refine List.forall_mem_append.mpr ⟨fun y hy chunkId hc => ?_, List.forall_mem_singleton.mpr
        fun chunkId hc => List.mem_append_right _ hc⟩
      exact List.mem_append_left _ (h.noted y hy chunkId hc)
  | proceed i w =>
    have hsound := h.sound.proceed (Call.start options) (placing_lawful options) hsymm
      (fun s t l l' (hb : Bounded options (s, l) (t, l')) hs => ⟨hb.announced hs.1, fun chunkId =>
        (hb.counts chunkId).elim (fun hle => hle.trans (hs.2 chunkId)) And.right⟩)
      (fun s t l l' m (hb : Bounded options (s, l) (t, l')) hs hlm => ⟨rfl, fun chunkId hm =>
        (hb.counts chunkId).elim id fun hmine => absurd hm (hlm chunkId hmine.1),
        fun _ hc => hb.handled.symm ▸ hc, hb.announced⟩)
      (fun _ _ _ _ => trivial) (fun l c next hi _ j y hj hy hrun chunkId hc hm => ?_) hstep
    · refine ⟨hsound, ?_⟩
      obtain ⟨l, c, next, hi, rfl⟩ := Pool.proceed_inv hstep
      intro y hy chunkId hc
      rcases List.mem_or_eq_of_mem_set hy with hy | rfl
      · exact h.noted y hy chunkId hc
      · rcases c.perform_working w (calls.shared, l) hc with hold | ⟨n, -, -, chunk, hlist, rfl⟩
        · exact h.noted _ (List.mem_of_getElem? hi) chunkId hold
        · obtain ⟨r, hr, rfl, -⟩ := Cluster.mem_listUnderReplicated.mp hlist
          exact hannounced r hr
    · rcases c.perform_working w (calls.shared, l) hc with hold | ⟨n, rfl, hw, chunk, hlist, rfl⟩
      · have hrunning : (Prog.call c next).running = true := rfl
        exact hapart i j _ y (Ne.symm hj) hi hy hrunning hrun chunkId hold hm
      · have hcondition := hg.2
        simp only [Undivided, hi] at hcondition
        have hother : y ∈ calls.threads.eraseIdx i :=
          List.mem_eraseIdx_iff_getElem?.mpr ⟨j, hj, hy⟩
        have hfree := hcondition hw chunk hlist y hother hrun
        rw [← List.contains_iff_mem, hfree] at hm
        cases hm

end

/-- While no sweep lists a chunk that another call is at work on, no chunk gets more synced
replicas than the replication factor. -/
theorem syncedCount_le_replicationFactor (options : ReplicationServiceOptions) (cluster : Cluster)
    (hempty : cluster.replicas = []) (calls : Calls)
    (h : Reach (Calls.step options) (fun calls a => calls.HandledOnce a ∧ calls.Undivided a)
      (.init cluster) calls) (chunkId : Uuid) :
    calls.shared.cluster.syncedCount chunkId ≤ options.replicationFactor := by
  have hinit : (Calls.init cluster).WithinFactor options := by
    refine ⟨Pool.Sound.init ⟨fun r (hr : r ∈ cluster.replicas) => ?_, fun chunkId => ?_⟩,
      fun y hy => by cases hy⟩
    · rw [hempty] at hr
      cases hr
    · show cluster.syncedCount chunkId ≤ _
      rw [Cluster.syncedCount_eq, hempty]
      exact Nat.zero_le _
  have hreach := h.invariant (Calls.WithinFactor options) hinit fun _ _ _ hk hg hs => hk.step hg hs
  exact hreach.sound.shared.2 chunkId

/-! A sweep that lists a chunk while its handler has one of two replicas to go, and one that
starts when the handler is done. -/

def handlerSteps (n : Nat) : List Calls.Action := List.replicate n (.proceed 0 (.calm 1))

def sweepSteps (n : Nat) : List Calls.Action := List.replicate n (.proceed 1 (.calm 2))

def sweepBetween : List Calls.Action :=
  .spawn (.operation (.replicateChunk ⟨7, "chunks/a", 5⟩)) :: handlerSteps 6 ++
    .spawn (.operation .healingSweep) :: sweepSteps 7 ++ handlerSteps 1

def sweepAfter : List Calls.Action :=
  .spawn (.operation (.replicateChunk ⟨7, "chunks/a", 5⟩)) :: handlerSteps 7 ++
    [.spawn (.setHealth 2 false 1), .proceed 1 (.calm 1), .spawn (.operation .healingSweep)] ++
      List.replicate 9 (.proceed 2 (.calm 2))

theorem chunk_over_replicated :
    ∃ calls : Calls, Reach (Calls.step .sample) (fun calls a => calls.HandledOnce a)
        (.init (.installed 3)) calls ∧
      ¬calls.shared.cluster.syncedCount 7 ≤ ReplicationServiceOptions.sample.replicationFactor := by
  have hrun : ∃ calls ∈ sweepBetween.foldlM
      (fun s a => if s.HandledOnce a then Calls.step .sample s a else none)
      (Calls.init (.installed 3)), calls.shared.cluster.syncedCount 7 = 3 := by decide
  obtain ⟨calls, hs, hcount⟩ := hrun
  refine ⟨calls, reach_of_schedule hs, ?_⟩
  rw [hcount]
  decide

theorem syncedCount_le_replicationFactor_sweepAfter :
    ∃ calls : Calls, calls.shared.cluster.replicas.map (fun r => (r.nodeId, r.status)) =
        [(1, .synced), (2, .lost), (3, .synced)] ∧
      calls.shared.cluster.syncedCount 7 ≤ ReplicationServiceOptions.sample.replicationFactor := by
  have hrun : ∃ calls ∈ sweepAfter.foldlM
      (fun s a => if s.HandledOnce a ∧ s.Undivided a then Calls.step .sample s a else none)
      (Calls.init (.installed 3)), calls.shared.cluster.replicas.map
        (fun r => (r.nodeId, r.status)) = [(1, .synced), (2, .lost), (3, .synced)] := by decide
  obtain ⟨calls, hs, hrows⟩ := hrun
  exact ⟨calls, hrows, syncedCount_le_replicationFactor .sample (.installed 3) rfl calls
    (reach_of_schedule hs) 7⟩

end IntelliStore.Replication
