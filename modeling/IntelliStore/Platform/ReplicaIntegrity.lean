import IntelliStore.Platform.ReplicaContents

/-! A replica is a copy of what was uploaded: whatever fails and however the work interleaves, the
files can be put together again from the buckets of the nodes. -/

namespace IntelliStore.Platform
open Postgres Library Metadata Storage
open Replication hiding Failure
open Deployment

section
variable (sha256 : Bytes → String) (X : Set Bytes) (options : ReplicationServiceOptions)

/-- Each call among others that take nothing back. -/
def keeping : Contract Statement Statement.Reply Replication.Failure Circumstances
    (Deployment × Unit) where
  exec := perform options
  allowed _ _ _ := True
  rely x y := x.1.Grows sha256 X options y.1
  guar x y := x.1.Grows sha256 X options y.1

theorem keeping_lawful : (keeping sha256 X options).Lawful :=
  ⟨fun x => .refl x.1, fun _ _ _ h h' => h.trans h'⟩

end

variable {sha256 : Bytes → String} {X : Set Bytes} {options : ReplicationServiceOptions}

/-! ### The calls -/

theorem perform_unrecorded {c : Statement} (hc : c.records = false) (w : Circumstances)
    (x : Deployment × Unit) : (keeping sha256 X options).guar x (perform options c w x).2 := by
  apply perform_grows w
  rintro chunkId nodeId storageKey sizeBytes status rfl
  cases hc

theorem sat_unrecorded {α : Type} {p : Service α} (hp : p.OnlyIssues fun c => c.records = false)
    (x : Deployment × Unit) : p.sat (keeping sha256 X options) (fun _ _ => True) x := by
  apply Prog.sat_of_issues (fun _ => True) (fun _ _ _ _ => trivial) _ hp trivial
  exact fun c w y hc _ _ => ⟨perform_unrecorded hc w y, trivial⟩

/-- The targets are nodes with their buckets. -/
def Targets (targets : List StorageNodeRecord) (x : Deployment × Unit) : Prop :=
  ∀ node ∈ targets, (node.id, node.bucket) ∈ x.1.cluster.buckets

theorem Targets.grow {targets : List StorageNodeRecord} {x y : Deployment × Unit}
    (h : Targets targets x) (hxy : x.1.Grows sha256 X options y.1) : Targets targets y :=
  fun node hn => hxy.buckets ▸ h node hn

/-- `listHealthy` names nodes with their buckets. -/
theorem targets_listHealthy {w : Circumstances} {x : Deployment × Unit}
    {nodes : List StorageNodeRecord} (h : (perform options .listHealthy w x).1 = .ok nodes) :
    Targets nodes (perform options .listHealthy w x).2 := by
  intro node hn
  have hexec : (Statement.exec .listHealthy w x.1.cluster).1 = .ok nodes := h
  have hcluster : (perform options .listHealthy w x).2.1.cluster = x.1.cluster := by
    show (Statement.exec .listHealthy w x.1.cluster).2 = x.1.cluster
    rw [Statement.exec_ok hexec]
    rfl
  rw [Statement.exec_ok hexec] at hexec
  cases hexec
  rw [hcluster]
  have hmem := (x.1.cluster.listHealthy_perm w.uuidRank).mem_iff.mp hn
  exact List.mem_map_of_mem (List.mem_filter.mp hmem).1

section
variable {chunk : ChunkUploadedEvent}

/-- The upsert comes after a copy that has succeeded. -/
theorem sat_placeOn_keeping {node : StorageNodeRecord} {x : Deployment × Unit}
    (hchunk : chunk ∈ x.1.announced) (hx : (node.id, node.bucket) ∈ x.1.cluster.buckets) :
    (placeOn options chunk.chunkId chunk.storageKey chunk.sizeBytes node).sat
      (keeping sha256 X options) (fun _ _ => True) x := by
  have hcopied : (ReplicationService.replicateToNode options chunk.storageKey chunk.sizeBytes
      node).sat (keeping sha256 X options) (fun r t => chunk ∈ t.1.announced ∧
        (r = .ok () → t.1.Holds options node.id chunk.storageKey)) x := by
    apply Prog.sat_command
    intro t ht w _
    have hcopy : (keeping sha256 X options).guar t (perform options
        (.copyToNode options.primaryBucket chunk.storageKey node.bucket) w t).2 :=
      perform_unrecorded rfl w t
    have hannounced := hcopy.announced (ht.announced hchunk)
    refine ⟨hcopy, fun _ _ => ⟨hannounced, fun he => by cases he⟩, fun _ hres => ?_⟩
    have hbucket := hcopy.buckets ▸ ht.buckets ▸ hx
    have hheld : (perform options (.copyToNode options.primaryBucket chunk.storageKey node.bucket)
        w t).2.1.Holds options node.id chunk.storageKey :=
      ⟨node.bucket, hbucket, mem_of_copied hres⟩
    intro u hu w' _
    have hincrement : (keeping sha256 X options).guar u (perform options
        (.incrementUsedBytes node.id chunk.sizeBytes) w' u).2 := perform_unrecorded rfl w' u
    have hlater := hu.trans hincrement
    exact ⟨hincrement, hlater.announced hannounced, fun _ => hlater.holds _ _ hheld⟩
  rw [placeOn, Prog.sat_bind]
  refine Prog.sat_mono ?_ hcopied
  rintro (e | done) t ⟨hannounced, hheld⟩
  · trivial
  · intro u hu w _
    refine ⟨perform_grows w ?_, trivial⟩
    rintro _ _ _ _ _ ⟨⟩
    exact ⟨hu.announced hannounced, hu.holds _ _ (hheld rfl)⟩

theorem sat_copyToTargets_keeping {targets : List StorageNodeRecord} {x : Deployment × Unit}
    (hchunk : chunk ∈ x.1.announced) (hx : Targets targets x) :
    (ReplicationService.copyToTargets options chunk.chunkId chunk.storageKey chunk.sizeBytes
      targets).sat (keeping sha256 X options) (fun _ _ => True) x := by
  let Inv (targets : List StorageNodeRecord) (y : Deployment × Unit) : Prop :=
    chunk ∈ y.1.announced ∧ Targets targets y
  have hgrow : ∀ targets (y z : Deployment × Unit), y.1.Grows sha256 X options z.1 →
      Inv targets y → Inv targets z :=
    fun targets y z h hy => ⟨h.announced hy.1, hy.2.grow h⟩
  have hstart : Inv targets x := ⟨hchunk, hx⟩
  have hloop := sat_copyToTargets options chunk.chunkId chunk.storageKey chunk.sizeBytes
    (w := keeping sha256 X options) Inv (fun node targets y hy => ?_) hstart
  · exact Prog.sat_mono (fun _ _ _ => trivial) hloop
  · have hnode : (placeOn options chunk.chunkId chunk.storageKey chunk.sizeBytes node).sat
        (keeping sha256 X options) (fun _ _ => True) y :=
      sat_placeOn_keeping hy.1 (hy.2 node List.mem_cons_self)
    have hrest : Inv targets y := ⟨hy.1, fun n hn => hy.2 n (List.mem_cons_of_mem _ hn)⟩
    have hframed := Prog.sat_frame (Inv targets) (hgrow targets) (hgrow targets) hnode hrest
    exact Prog.sat_mono (fun _ _ h => h.2) hframed

theorem sat_replicateChunk_keeping {x : Deployment × Unit} (hchunk : chunk ∈ x.1.announced) :
    (ReplicationService.replicateChunk options chunk.chunkId chunk.storageKey chunk.sizeBytes).sat
      (keeping sha256 X options) (fun _ _ => True) x := by
  apply Prog.sat_command
  intro t ht w _
  have hlist : (keeping sha256 X options).guar t (perform options .listHealthy w t).2 :=
    perform_unrecorded rfl w t
  refine ⟨hlist, fun _ _ => trivial, fun nodes hres => ?_⟩
  split_ifs
  · trivial
  · apply sat_copyToTargets_keeping (hlist.announced (ht.announced hchunk))
    exact fun node hn => targets_listHealthy hres node (List.mem_of_mem_take hn)

theorem sat_healChunk_keeping (neededCount : Nat) (excludeNodeIds : List Uuid)
    {x : Deployment × Unit} (hchunk : chunk ∈ x.1.announced) :
    (ReplicationService.healChunk options chunk.chunkId chunk.storageKey chunk.sizeBytes
      neededCount excludeNodeIds).sat (keeping sha256 X options) (fun _ _ => True) x := by
  unfold ReplicationService.healChunk
  split_ifs
  · trivial
  · apply Prog.sat_command
    intro t ht w _
    have hlist : (keeping sha256 X options).guar t (perform options .listHealthy w t).2 :=
      perform_unrecorded rfl w t
    refine ⟨hlist, fun _ _ => trivial, fun nodes hres => ?_⟩
    dsimp only
    split_ifs
    · trivial
    · apply sat_copyToTargets_keeping (hlist.announced (ht.announced hchunk))
      exact fun node hn => targets_listHealthy hres node
        (List.mem_of_mem_filter (List.mem_of_mem_take hn))

end

theorem sat_onChunkUploaded_keeping {chunks : List ChunkUploadedEvent} {x : Deployment × Unit}
    (hchunks : chunks ⊆ x.1.announced) :
    (ReplicationService.onChunkUploaded options chunks).sat (keeping sha256 X options)
      (fun _ _ => True) x := by
  induction chunks generalizing x with
  | nil => trivial
  | cons chunk chunks ih =>
    obtain ⟨hchunk, hrest⟩ := List.cons_subset.mp hchunks
    have hgrow : ∀ y z : Deployment × Unit, y.1.Grows sha256 X options z.1 →
        chunks ⊆ y.1.announced → chunks ⊆ z.1.announced :=
      fun y z h hy => List.Subset.trans hy h.announced
    have hreplicate : (ReplicationService.replicateChunk options chunk.chunkId chunk.storageKey
        chunk.sizeBytes).sat (keeping sha256 X options) (fun _ _ => True) x :=
      sat_replicateChunk_keeping hchunk
    have hfirst := Prog.sat_frame (fun y => chunks ⊆ y.1.announced) hgrow hgrow hreplicate hrest
    rw [ReplicationService.onChunkUploaded, Prog.sat_bind]
    refine Prog.sat_mono ?_ hfirst
    rintro (e | rows) t ⟨-, ht⟩
    · trivial
    · exact ih ht

/-- A chunk that is listed as under-replicated is listed as it was announced. -/
theorem announced_of_listUnderReplicated {s : Deployment} (h : s.Faithful sha256 X options)
    {rank : Uuid → Nat} {desiredCount : Nat} {chunk : UnderReplicatedChunk}
    (hchunk : chunk ∈ s.cluster.listUnderReplicated rank desiredCount) :
    ⟨chunk.chunkId, chunk.storageKey, chunk.sizeBytes⟩ ∈ s.announced := by
  obtain ⟨r, hr, rfl, -⟩ := Cluster.mem_listUnderReplicated.mp hchunk
  let rows := s.world.metadata.chunks.map ChunkRecord.announcement
  have hids : (rows.map ChunkUploadedEvent.chunkId).Nodup := by
    rw [List.map_map]
    exact s.world.metadata.chunks_pkey
  have hannounces : s.cluster.Announces rows := by
    intro r hr
    obtain ⟨row, hrow, hevent, -⟩ := h.row (h.recorded r hr).1
    rw [← hevent]
    exact List.mem_map_of_mem hrow
  have hsame := List.inj_on_of_nodup_map hids (hannounces.group_mem hids hr) (hannounces r hr) rfl
  show (⟨r.chunkId, (s.cluster.group r.chunkId).storageKey,
    (s.cluster.group r.chunkId).sizeBytes⟩ : ChunkUploadedEvent) ∈ _
  rw [hsame]
  exact (h.recorded r hr).1

theorem sat_healOnce_keeping {x : Deployment × Unit} (h : x.1.Faithful sha256 X options) :
    (SelfHealingService.healOnce options).sat (keeping sha256 X options) (fun _ _ => True) x := by
  have hfaithful : ∀ y z : Deployment × Unit, y.1.Grows sha256 X options z.1 →
      y.1.Faithful sha256 X options → z.1.Faithful sha256 X options := fun y z hyz => hyz.faithful
  have hmark := Prog.sat_frame _ hfaithful hfaithful (sat_unrecorded
    (onlyIssues_markReplicasOnUnhealthyNodesLost rfl (fun _ => rfl) fun _ => rfl) x) h
  rw [SelfHealingService.healOnce, Prog.sat_bind]
  refine Prog.sat_mono ?_ hmark
  rintro (e | done) t ⟨-, ht⟩
  · trivial
  · apply Prog.sat_command
    intro u hu w _
    have hlist : (keeping sha256 X options).guar u
        (perform options (.listUnderReplicated options.replicationFactor) w u).2 :=
      perform_unrecorded rfl w u
    refine ⟨hlist, fun _ _ => trivial, fun chunks hres => ?_⟩
    let Inv (chunks : List UnderReplicatedChunk) (y : Deployment × Unit) : Prop :=
      ∀ chunk ∈ chunks, ⟨chunk.chunkId, chunk.storageKey, chunk.sizeBytes⟩ ∈ y.1.announced
    have hgrow : ∀ chunks (y z : Deployment × Unit), y.1.Grows sha256 X options z.1 →
        Inv chunks y → Inv chunks z :=
      fun chunks y z hyz hy chunk hchunk => hyz.announced (hy chunk hchunk)
    have hlisted : Inv chunks
        (perform options (.listUnderReplicated options.replicationFactor) w u).2 := by
      intro chunk hchunk
      apply hlist.announced
      have hexec : ((Statement.listUnderReplicated options.replicationFactor).exec w
          u.1.cluster).1 = .ok chunks := hres
      rw [Statement.exec_ok hexec] at hexec
      cases hexec
      exact announced_of_listUnderReplicated (hu.faithful ht) hchunk
    apply sat_reconcileEach options Inv (fun _ => True) (fun _ _ _ => trivial) _ hlisted
    intro chunk chunks y hy
    have hrest : Inv chunks y := fun c hc => hy c (List.mem_cons_of_mem _ hc)
    have hheal : (healListed options chunk).sat (keeping sha256 X options) (fun _ _ => True) y := by
      apply Prog.sat_command
      intro v hv w' _
      have hnodes : (keeping sha256 X options).guar v
          (perform options (.listNodeIdsForChunk chunk.chunkId) w' v).2 :=
        perform_unrecorded rfl w' v
      have hchunk := hnodes.announced (hv.announced (hy chunk List.mem_cons_self))
      exact ⟨hnodes, fun _ _ => trivial, fun ids _ => sat_healChunk_keeping _ ids hchunk⟩
    exact Prog.sat_mono (fun _ _ hz => hz.2)
      (Prog.sat_frame (Inv chunks) (hgrow chunks) (hgrow chunks) hheal hrest)

theorem sat_start_keeping (fold : Char → Char) {progress : Progress} {activity : Activity}
    (hallowed : progress.Allowed sha256 X (.spawn activity)) {s : Deployment}
    (hs : s.Faithful sha256 X options) (hgrows : progress.shared.Grows sha256 X options s) :
    (activity.start sha256 fold options progress.shared).2.2.sat (keeping sha256 X options)
      (fun _ _ => True) (s, ()) := by
  cases activity with
  | request op => trivial
  | deliver event =>
    apply sat_onChunkUploaded_keeping
    intro chunk hchunk
    exact hgrows.announced (List.mem_flatMap.mpr ⟨event, hallowed, hchunk⟩)
  | operation op =>
    cases op with
    | replicateChunk chunk => exact hallowed.elim
    | heartbeat name =>
      exact sat_unrecorded (onlyIssues_postHeartbeat (K := fun c => c.records = false)
        (fun _ => rfl) rfl (fun _ _ _ => rfl) name) _
    | stalenessSweep staleMs =>
      exact sat_unrecorded (onlyIssues_tick (K := fun c => c.records = false) rfl rfl
        (fun _ => rfl) staleMs) _
    | healingSweep => exact sat_healOnce_keeping hs

/-! ### Runs -/

theorem start_grows (fold : Char → Char) {progress : Progress} {activity : Activity}
    (hallowed : progress.Allowed sha256 X (.spawn activity))
    (h : progress.shared.Faithful sha256 X options) : progress.shared.Grows sha256 X options
      (activity.start sha256 fold options progress.shared).1 := by
  cases activity with
  | request op =>
    apply request_grows fold _ h
    rintro u rfl
    exact hallowed
  | deliver event => exact .refl _
  | operation op => exact .refl _

theorem keeping_sound (fold : Char → Char) {cluster : Cluster} (hempty : cluster.replicas = [])
    (hapart : ∀ node ∈ cluster.nodes, node.bucket ≠ options.primaryBucket) {progress : Progress}
    (h : Reach (Progress.step sha256 fold options) (Progress.Allowed sha256 X) (.init cluster)
      progress) : progress.Sound (keeping sha256 X options)
        (fun s => s.Faithful sha256 X options) fun _ _ => True := by
  apply h.invariant (fun progress => progress.Sound (keeping sha256 X options)
    (fun s => s.Faithful sha256 X options) fun _ _ => True)
  · apply Pool.Sound.init
    constructor
    case addressed =>
      intro name key data hdata
      have hnone : ((Deployment.init cluster).bucket options name).lookup key = none := by
        rw [bucket]
        split_ifs
        · exact Finmap.lookup_empty key
        · exact Finmap.lookup_empty key
      rw [hnone] at hdata
      cases hdata
    case published =>
      intro event hevent
      cases hevent
    case recorded =>
      intro r hr
      change r ∈ cluster.replicas at hr
      rw [hempty] at hr
      cases hr
    case apart =>
      intro p hp
      obtain ⟨node, hnode, rfl⟩ := List.mem_map.mp hp
      exact hapart node hnode
  · intro progress a progress' hsound hallowed hstep
    cases a with
    | spawn activity =>
      have hgrows := start_grows fold hallowed hsound.shared
      exact hsound.spawn (Activity.start sha256 fold options) (keeping_lawful sha256 X options)
        (fun _ _ _ => trivial) (hgrows.faithful hsound.shared) (fun _ => hgrows)
        (sat_start_keeping fold hallowed (hgrows.faithful hsound.shared) hgrows)
        (fun _ _ _ => trivial) hstep
    | proceed i w =>
      exact hsound.proceed (Activity.start sha256 fold options) (keeping_lawful sha256 X options)
        (fun _ _ _ => trivial) (fun _ _ _ _ hg hs => hg.faithful hs)
        (fun _ _ _ _ _ hg _ _ => hg) (fun _ _ _ _ => trivial)
        (fun _ _ _ _ _ _ _ _ _ _ => trivial) hstep

/-- The replica of a chunk on a node, and the object that it names there. -/
def ReplicaOf (options : ReplicationServiceOptions) (s : Deployment) (chunkId : Uuid)
    (r : ChunkReplicaRecord) (data : Bytes) : Prop :=
  r ∈ s.cluster.replicas ∧ r.chunkId = chunkId ∧ ∃ node ∈ s.cluster.nodes, node.id = r.nodeId ∧
    (s.bucket options node.bucket).lookup r.storageKey = some data

section
variable {s : Deployment}

/-- The bytes behind a replica, and the chunk of metadata-service that they make up. -/
theorem Deployment.Faithful.replica (h : s.Faithful sha256 X options) {r : ChunkReplicaRecord}
    (hr : r ∈ s.cluster.replicas) : ∃ row ∈ s.world.metadata.chunks, row.announcement = r.event ∧
      ∃ data ∈ X, ReplicaOf options s row.id r data ∧ sha256 data = row.checksum ∧
        (Set.InjOn sha256 X → data.length = row.sizeBytes) := by
  obtain ⟨hannounced, name, hname, hheld⟩ := h.recorded r hr
  obtain ⟨row, hrow, hevent, original, horiginal, hsum, hkey, hsize⟩ := h.row hannounced
  obtain ⟨node, hnode, hpair⟩ := List.mem_map.mp hname
  rw [Prod.mk.injEq] at hpair
  obtain ⟨hid, rfl⟩ := hpair
  obtain ⟨data, hdata⟩ := Finmap.mem_iff.mp hheld
  obtain ⟨haddress, hX⟩ := h.addressed _ _ _ hdata
  have hsame : row.storageKey = r.storageKey := congrArg ChunkUploadedEvent.storageKey hevent
  have hdigest : sha256 data = sha256 original :=
    chunkKey_inj.mp (haddress.symm.trans (hsame.symm.trans hkey))
  have hchunk : r.chunkId = row.id := congrArg ChunkUploadedEvent.chunkId hevent.symm
  refine ⟨row, hrow, hevent, data, hX, ⟨hr, hchunk, node, hnode, hid, hdata⟩,
    hdigest.trans hsum.symm, fun hinj => ?_⟩
  rw [hsize, hinj hX horiginal hdigest]

/-- Whichever replica of a chunk is read, its bytes are those of the piece. -/
theorem Deployment.Faithful.replicaOf_piece (h : s.Faithful sha256 X options)
    (hinj : Set.InjOn sha256 X)
    {row : ChunkRecord} (hrow : row ∈ s.world.metadata.chunks) {piece : Bytes} (hpiece : piece ∈ X)
    (hkey : row.storageKey = chunkKey (sha256 piece)) {r : ChunkReplicaRecord} {data : Bytes}
    (hreplica : ReplicaOf options s row.id r data) : data = piece := by
  obtain ⟨hr, hid, node, hnode, -, hdata⟩ := hreplica
  obtain ⟨haddress, hX⟩ := h.addressed _ _ _ hdata
  obtain ⟨row', hrow', hevent, -⟩ := h.row (h.recorded r hr).1
  have hsame : row' = row := by
    apply Database.chunk_of_announcement hrow' hrow
    rw [hevent]
    exact hid
  have hnamed : row'.storageKey = r.storageKey := congrArg ChunkUploadedEvent.storageKey hevent
  rw [hsame, hkey] at hnamed
  exact hinj hX hpiece (chunkKey_inj.mp (haddress.symm.trans hnamed.symm))

end

/-- Every row of replication-service is about a chunk that metadata-service holds, with its key and
its size, and the bucket of the node holds bytes with the checksum of the chunk. -/
theorem replicas_hold_chunks (fold : Char → Char) (options : ReplicationServiceOptions)
    (cluster : Cluster) (hempty : cluster.replicas = [])
    (hapart : ∀ node ∈ cluster.nodes, node.bucket ≠ options.primaryBucket) (X : Set Bytes)
    (progress : Progress) (h : Reach (Progress.step sha256 fold options)
      (Progress.Allowed sha256 X) (.init cluster) progress) :
    ∀ r ∈ progress.shared.cluster.replicas, ∃ row ∈ progress.shared.world.metadata.chunks,
      row.id = r.chunkId ∧ row.storageKey = r.storageKey ∧ row.sizeBytes = r.sizeBytes ∧
      ∃ node ∈ progress.shared.cluster.nodes, node.id = r.nodeId ∧ ∃ data ∈ X,
        (progress.shared.bucket options node.bucket).lookup r.storageKey = some data ∧
        sha256 data = row.checksum ∧ (Set.InjOn sha256 X → data.length = r.sizeBytes) := by
  intro r hr
  have hfaithful := (keeping_sound fold hempty hapart h).shared
  obtain ⟨row, hrow, hevent, data, hX, ⟨-, -, node, hnode, hid, hdata⟩, hsum, hsize⟩ :=
    hfaithful.replica hr
  have hbytes : row.sizeBytes = r.sizeBytes := congrArg ChunkUploadedEvent.sizeBytes hevent
  exact ⟨row, hrow, congrArg ChunkUploadedEvent.chunkId hevent,
    congrArg ChunkUploadedEvent.storageKey hevent, hbytes, node, hnode, hid, data, hX, hdata, hsum,
    fun hinj => (hsize hinj).trans hbytes⟩

/-- The content of a version can be put together from the nodes alone: whichever replica of each of
its chunks is read, the bytes have the checksum of the version. -/
theorem replicas_rebuild_version (fold : Char → Char) (options : ReplicationServiceOptions)
    (cluster : Cluster) (hempty : cluster.replicas = [])
    (hapart : ∀ node ∈ cluster.nodes, node.bucket ≠ options.primaryBucket) (X : Set Bytes)
    (hinj : Set.InjOn sha256 X) (progress : Progress)
    (h : Reach (Progress.step sha256 fold options) (Progress.Allowed sha256 X) (.init cluster)
      progress) (event : ChunkUploadedBatchEvent)
    (hevent : event ∈ progress.shared.world.chunkUploads) (parts : List Bytes)
    (hparts : List.Forall₂ (fun chunk data => ∃ r, ReplicaOf options progress.shared chunk.chunkId r
      data) event.chunks parts) :
    ∃ v ∈ progress.shared.world.metadata.versions, v.id = event.versionId ∧
      sha256 parts.flatten = v.checksum := by
  have hfaithful := (keeping_sound fold hempty hapart h).shared
  obtain ⟨pieces, hpublished, hX⟩ := hfaithful.published event hevent
  obtain ⟨v, hv, hid, hsum⟩ := hpublished.version
  have hsame : parts = pieces.map ChunkPiece.data := by
    apply eq_map_of_forall₂ hpublished.chunks hparts
    rintro chunk p hp ⟨row, hrow, rfl, -, hkey, -⟩ data ⟨r, hreplica⟩
    exact hfaithful.replicaOf_piece hinj hrow (hX p hp) hkey hreplica
  refine ⟨v, hv, hid, ?_⟩
  rw [hsum, hsame]
  rfl

/-! A file of two chunks on two nodes; one copy of the first chunk fails. -/

instance [DecidablePred (· ∈ X)] (progress : Progress) (a : Progress.Action) :
    Decidable (progress.Allowed sha256 X a) :=
  match a with
  | .spawn (.request (.upload u)) =>
    inferInstanceAs (Decidable (∀ p ∈ u.pieces sha256, p.data ∈ X))
  | .spawn (.request (.download _)) | .spawn (.request (.metadata _)) => .isTrue trivial
  | .spawn (.deliver event) =>
    inferInstanceAs (Decidable (event ∈ progress.shared.world.chunkUploads))
  | .spawn (.operation (.replicateChunk _)) => .isFalse id
  | .spawn (.operation (.heartbeat _)) | .spawn (.operation (.stalenessSweep _))
  | .spawn (.operation .healingSweep) => .isTrue trivial
  | .proceed _ _ => .isTrue trivial

def twoPieces : Upload where
  ownerId := 1
  target := .newFile "a.txt"
  mimeType := "text/plain"
  buffer := [1, 2]
  chunkSizeBytes := singleByte
  generated := sampleGenerated 1
  outcomes := .replied

def singleBytes : Set Bytes := {x | x = [1] ∨ x = [2]}

instance : DecidablePred (· ∈ singleBytes) := fun x =>
  inferInstanceAs (Decidable (x = [1] ∨ x = [2]))

theorem singleBytes_injOn : Set.InjOn sampleSha256 singleBytes := by
  rintro x (rfl | rfl) y (rfl | rfl) h
  · rfl
  · exact absurd h (by decide)
  · exact absurd h (by decide)
  · rfl

def twoPiecesEvent : ChunkUploadedBatchEvent :=
  (twoPieces.run sampleSha256 .empty).2.chunkUploads.headD ⟨"", 0, "", 0, 0, []⟩

def twoPiecesReplicated : List Progress.Action :=
  [.spawn (.request (.upload twoPieces)), .spawn (.deliver twoPiecesEvent)] ++
  List.replicate 4 (.proceed 1 (.calm 1)) ++ [.proceed 1 ⟨.failed, 1, fun _ => 0, fun _ => 0⟩] ++
  List.replicate 7 (.proceed 1 (.calm 2))

theorem installed_apart : ∀ node ∈ (Cluster.installed 2).nodes,
    node.bucket ≠ ReplicationServiceOptions.sample.primaryBucket := by decide

theorem replicas_hold_chunks_twoPieces : ∃ progress : Progress,
    progress.shared.cluster.replicas.length = 3 ∧
    ∀ r ∈ progress.shared.cluster.replicas, ∃ row ∈ progress.shared.world.metadata.chunks,
      row.id = r.chunkId ∧ row.storageKey = r.storageKey ∧ row.sizeBytes = r.sizeBytes ∧
      ∃ node ∈ progress.shared.cluster.nodes, node.id = r.nodeId ∧ ∃ data ∈ singleBytes,
        (progress.shared.bucket .sample node.bucket).lookup r.storageKey = some data ∧
        sampleSha256 data = row.checksum ∧
        (Set.InjOn sampleSha256 singleBytes → data.length = r.sizeBytes) := by
  have hrun : ∃ progress ∈ twoPiecesReplicated.foldlM (fun (progress : Progress) a =>
      if progress.Allowed sampleSha256 singleBytes a then
        Progress.step sampleSha256 id .sample progress a else none) (.init (.installed 2)),
      progress.shared.cluster.replicas.length = 3 := by decide
  obtain ⟨progress, hs, hrows⟩ := hrun
  exact ⟨progress, hrows, replicas_hold_chunks id .sample (.installed 2) rfl installed_apart
    singleBytes progress (reach_of_schedule hs)⟩

theorem replicas_rebuild_version_twoPieces : ∃ progress : Progress,
    ∃ v ∈ progress.shared.world.metadata.versions, v.id = twoPiecesEvent.versionId ∧
      sampleSha256 [[1], [2]].flatten = v.checksum := by
  have hrun : ∃ progress ∈ twoPiecesReplicated.foldlM (fun (progress : Progress) a =>
      if progress.Allowed sampleSha256 singleBytes a then
        Progress.step sampleSha256 id .sample progress a else none) (.init (.installed 2)),
      twoPiecesEvent ∈ progress.shared.world.chunkUploads ∧
      ∀ part ∈ [(0x12, [1]), (0x13, [2])], ∃ r ∈ progress.shared.cluster.replicas,
        r.chunkId = part.1 ∧ ∃ node ∈ progress.shared.cluster.nodes, node.id = r.nodeId ∧
          (progress.shared.bucket .sample node.bucket).lookup r.storageKey = some part.2 := by decide
  obtain ⟨progress, hs, hevent, hparts⟩ := hrun
  have hreplica : ∀ part ∈ [(0x12, [1]), (0x13, [2])],
      ∃ r, ReplicaOf .sample progress.shared part.1 r part.2 := by
    intro part hpart
    obtain ⟨r, hr, hid, hnode⟩ := hparts part hpart
    exact ⟨r, hr, hid, hnode⟩
  obtain ⟨hfirst, hsecond, -⟩ := List.forall_mem_cons.mp hreplica |>.imp_right
    List.forall_mem_cons.mp
  exact ⟨progress, replicas_rebuild_version id .sample (.installed 2) rfl installed_apart
    singleBytes singleBytes_injOn progress (reach_of_schedule hs) twoPiecesEvent hevent [[1], [2]]
    (.cons hfirst (.cons hsecond .nil))⟩

end IntelliStore.Platform
