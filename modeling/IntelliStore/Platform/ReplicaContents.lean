import IntelliStore.Platform.Deployment
import IntelliStore.Platform.Publications
import IntelliStore.Replication.Backing
import IntelliStore.Replication.UsedBytes

/-! What the buckets of the nodes hold, however the uploads, the deliveries of their events and the
work of replication-service interleave. -/

namespace IntelliStore.Replication
open Library Postgres

/-- A row after a statement is an old one, up to its status, or the one that is upserted; the row
that an upsert finds keeps its storage key. -/
theorem Statement.exec_rows {c : Statement} {w : Circumstances} {s : Cluster}
    {r : ChunkReplicaRecord} (h : r ∈ (c.exec w s).2.replicas) :
    (∃ r₀ ∈ s.replicas, r.event = r₀.event ∧ r.nodeId = r₀.nodeId) ∨
      ∃ storageKey status, c = .upsert r.chunkId r.nodeId storageKey r.sizeBytes status ∧
        ((∃ r₀ ∈ s.replicas, r₀.chunkId = r.chunkId ∧ r₀.nodeId = r.nodeId ∧
          r₀.storageKey = r.storageKey) ∨ r.storageKey = storageKey) := by
  rcases c.exec_cases w s with he | he <;> rw [he] at h
  · exact .inl ⟨r, h, rfl, rfl⟩
  cases c with
  | markLost replicaId =>
    obtain ⟨r₀, hr₀, rfl⟩ := List.mem_map.mp h
    left
    split_ifs
    · exact ⟨r₀, hr₀, rfl, rfl⟩
    · exact ⟨r₀, hr₀, rfl, rfl⟩
  | upsert chunkId nodeId storageKey sizeBytes status =>
    simp only [effect] at h
    split at h
    · rename_i row t hupsert
      obtain ⟨-, -, ⟨old, hold, rfl, rfl, -, hreplicas⟩ | ⟨-, -, rfl, hreplicas⟩⟩ :=
        Cluster.upsert_inv hupsert
      · rw [hreplicas] at h
        obtain ⟨r₀, hr₀, rfl⟩ := List.mem_map.mp h
        split_ifs with hid
        · rw [Cluster.replica_unique hr₀ hold hid]
          exact .inr ⟨storageKey, status, rfl, .inl ⟨old, hold, rfl, rfl, rfl⟩⟩
        · exact .inl ⟨r₀, hr₀, rfl, rfl⟩
      · rw [hreplicas, List.mem_append, List.mem_singleton] at h
        rcases h with h | rfl
        · exact .inl ⟨r, h, rfl, rfl⟩
        · exact .inr ⟨storageKey, status, rfl, .inr rfl⟩
    · exact .inl ⟨r, h, rfl, rfl⟩
  | _ => exact .inl ⟨r, h, rfl, rfl⟩

end IntelliStore.Replication

namespace IntelliStore.Platform
open Postgres Library Metadata Storage
open Replication hiding Failure
variable {sha256 : Bytes → String} {X : Set Bytes} {options : ReplicationServiceOptions}

namespace Deployment

/-! ### What the statements and the requests keep -/

/-- The chunks that the published events name. -/
def announced (s : Deployment) : List ChunkUploadedEvent :=
  s.world.chunkUploads.flatMap ChunkUploadedBatchEvent.chunks

/-- The bucket of the node holds an object under the key. -/
def Holds (options : ReplicationServiceOptions) (s : Deployment) (nodeId : Uuid) (key : String) :
    Prop := ∃ name, (nodeId, name) ∈ s.cluster.buckets ∧ key ∈ s.bucket options name

/-- Every object lies under its digest, every event is about a committed version, and every replica
is one of an announced chunk, with an object behind it. -/
structure Faithful (sha256 : Bytes → String) (X : Set Bytes) (options : ReplicationServiceOptions)
    (s : Deployment) : Prop where
  addressed : ∀ name key data, (s.bucket options name).lookup key = some data →
    key = chunkKey (sha256 data) ∧ data ∈ X
  published : ∀ event ∈ s.world.chunkUploads, ∃ pieces, Published sha256 s.world.metadata event
    pieces ∧ ∀ p ∈ pieces, p.data ∈ X
  recorded : ∀ r ∈ s.cluster.replicas, r.event ∈ s.announced ∧
    s.Holds options r.nodeId r.storageKey
  apart : ∀ p ∈ s.cluster.buckets, p.2 ≠ options.primaryBucket

/-- What nobody takes back. -/
structure Grows (sha256 : Bytes → String) (X : Set Bytes) (options : ReplicationServiceOptions)
    (s t : Deployment) : Prop where
  buckets : t.cluster.buckets = s.cluster.buckets
  announced : s.announced ⊆ t.announced
  holds : ∀ nodeId key, s.Holds options nodeId key → t.Holds options nodeId key
  faithful : s.Faithful sha256 X options → t.Faithful sha256 X options

theorem Grows.refl (s : Deployment) : s.Grows sha256 X options s :=
  ⟨rfl, List.Subset.refl _, fun _ _ h => h, id⟩

theorem Grows.trans {s t u : Deployment} (h : s.Grows sha256 X options t)
    (h' : t.Grows sha256 X options u) : s.Grows sha256 X options u where
  buckets := h'.buckets.trans h.buckets
  announced := List.Subset.trans h.announced h'.announced
  holds nodeId key hkey := h'.holds nodeId key (h.holds nodeId key hkey)
  faithful hs := h'.faithful (h.faithful hs)

section
variable {s : Deployment}

/-- The row behind an announced chunk. -/
theorem Faithful.row (h : s.Faithful sha256 X options) {chunk : ChunkUploadedEvent}
    (hchunk : chunk ∈ s.announced) : ∃ row ∈ s.world.metadata.chunks, row.announcement = chunk ∧
      ∃ data ∈ X, row.checksum = sha256 data ∧ row.storageKey = chunkKey (sha256 data) ∧
        row.sizeBytes = data.length := by
  obtain ⟨event, hevent, hchunk⟩ := List.mem_flatMap.mp hchunk
  obtain ⟨pieces, hpublished, hX⟩ := h.published event hevent
  obtain ⟨p, hp, row, hrow, hannounced, hdescribed⟩ :=
    exists_of_mem_right hpublished.chunks.flip hchunk
  exact ⟨row, hrow, hannounced, p.data, hX p hp, hdescribed⟩

/-- A chunk is announced with one key and one size. -/
theorem Faithful.announced_unique (h : s.Faithful sha256 X options)
    {chunk chunk' : ChunkUploadedEvent} (hchunk : chunk ∈ s.announced)
    (hchunk' : chunk' ∈ s.announced) (hid : chunk.chunkId = chunk'.chunkId) : chunk = chunk' := by
  obtain ⟨row, hrow, rfl, -⟩ := h.row hchunk
  obtain ⟨row', hrow', rfl, -⟩ := h.row hchunk'
  rw [Database.chunk_of_announcement hrow hrow' hid]

end

/-- The statement may record the replica: its chunk is announced, and its object is there. -/
def Records (options : ReplicationServiceOptions) (s : Deployment) (c : Statement) : Prop :=
  ∀ chunkId nodeId storageKey sizeBytes status,
    c = .upsert chunkId nodeId storageKey sizeBytes status →
      ⟨chunkId, storageKey, sizeBytes⟩ ∈ s.announced ∧ s.Holds options nodeId storageKey

section
variable {c : Statement} {x : Deployment × Unit}

theorem perform_buckets (options : ReplicationServiceOptions) (c : Statement) (w : Circumstances)
    (x : Deployment × Unit) :
    (perform options c w x).2.1.cluster.buckets = x.1.cluster.buckets := by
  rw [(perform_cluster options c w x).2]
  rcases c.exec_cases (x.1.meets options w c) x.1.cluster with he | he <;> rw [he]
  exact (c.effect_extends _ _).buckets

theorem perform_world (options : ReplicationServiceOptions) (c : Statement) (w : Circumstances)
    (x : Deployment × Unit) :
    (perform options c w x).2.1.world.metadata = x.1.world.metadata ∧
      (perform options c w x).2.1.world.chunkUploads = x.1.world.chunkUploads := by
  show (x.1.copyObject options w c).world.metadata = _ ∧
    (x.1.copyObject options w c).world.chunkUploads = _
  rcases copyObject_cases options x.1 w c with hcopy | ⟨_, key, dest, data, -, -, hcopy⟩
  · rw [hcopy]
    exact ⟨rfl, rfl⟩
  · rw [hcopy]
    exact putObject_frame.2

theorem perform_announced (options : ReplicationServiceOptions) (c : Statement) (w : Circumstances)
    (x : Deployment × Unit) : (perform options c w x).2.1.announced = x.1.announced := by
  rw [announced, (perform_world options c w x).2, announced]

theorem Holds.perform {nodeId : Uuid} {key : String} (h : x.1.Holds options nodeId key)
    (c : Statement) (w : Circumstances) :
    (perform options c w x).2.1.Holds options nodeId key := by
  obtain ⟨name, hname, hkey⟩ := h
  refine ⟨name, perform_buckets options c w x ▸ hname, ?_⟩
  rw [perform_bucket]
  rcases copyObject_cases options x.1 w c with hcopy | ⟨_, _, dest, data, -, -, hcopy⟩
  · rw [hcopy]
    exact hkey
  · rw [hcopy]
    exact mem_putObject hkey

/-- What is copied lies under the digest that it lay under before. -/
theorem Faithful.addressed_perform (h : x.1.Faithful sha256 X options) {w : Circumstances}
    {name key : String} {data : Bytes}
    (hdata : ((perform options c w x).2.1.bucket options name).lookup key = some data) :
    key = chunkKey (sha256 data) ∧ data ∈ X := by
  rw [perform_bucket] at hdata
  rcases copyObject_cases options x.1 w c with hcopy | ⟨source, k, dest, d, -, hsource, hcopy⟩
  · exact h.addressed name key data (hcopy ▸ hdata)
  · rw [hcopy] at hdata
    rcases putObject_lookup hdata with hdata | ⟨rfl, rfl⟩
    · exact h.addressed name key data hdata
    · exact h.addressed source key data hsource

/-- The row that an upsert finds is about the chunk it records, and so has its key. -/
theorem Faithful.recorded_perform (h : x.1.Faithful sha256 X options) {w : Circumstances}
    (hrecords : x.1.Records options c) {r : ChunkReplicaRecord}
    (hr : r ∈ (perform options c w x).2.1.cluster.replicas) :
    r.event ∈ x.1.announced ∧ x.1.Holds options r.nodeId r.storageKey := by
  rcases Statement.exec_rows hr with ⟨r₀, hr₀, hevent, hnode⟩ | ⟨key, status, hupsert, hkey⟩
  · have hsame : r.storageKey = r₀.storageKey := congrArg ChunkUploadedEvent.storageKey hevent
    rw [hevent, hsame, hnode]
    exact h.recorded r₀ hr₀
  · obtain ⟨hchunk, hheld⟩ := hrecords _ _ _ _ _ hupsert
    have hsame : r.storageKey = key := by
      rcases hkey with ⟨r₀, hr₀, hid, -, hold⟩ | hkey
      · have hevent := h.announced_unique (h.recorded r₀ hr₀).1 hchunk hid
        exact hold.symm.trans (congrArg ChunkUploadedEvent.storageKey hevent)
      · exact hkey
    rw [← hsame] at hchunk hheld
    exact ⟨hchunk, hheld⟩

theorem perform_grows (w : Circumstances) (hrecords : x.1.Records options c) :
    x.1.Grows sha256 X options (perform options c w x).2.1 := by
  obtain ⟨hmetadata, huploads⟩ := perform_world options c w x
  have hannounced := perform_announced options c w x
  have hbuckets := perform_buckets options c w x
  refine ⟨hbuckets, ?_, fun _ _ hheld => hheld.perform c w, fun h => ⟨?_, ?_, ?_, ?_⟩⟩
  · rw [hannounced]
    exact List.Subset.refl _
  · exact fun _ _ _ hdata => h.addressed_perform hdata
  · rw [hmetadata, huploads]
    exact h.published
  · intro r hr
    obtain ⟨hchunk, hheld⟩ := h.recorded_perform hrecords hr
    exact ⟨hannounced ▸ hchunk, hheld.perform c w⟩
  · rw [hbuckets]
    exact h.apart

end

/-- A request takes nothing from the buckets of the nodes. -/
theorem request_grows (fold : Char → Char) {s : Deployment} {op : Op}
    (hX : ∀ u, op = .upload u → ∀ p ∈ u.pieces sha256, p.data ∈ X)
    (h : s.Faithful sha256 X options) :
    s.Grows sha256 X options { s with world := (Platform.step sha256 fold s.world op).2 } := by
  obtain ⟨hversions, hchunks⟩ := versions_chunks_of_step sha256 fold s.world op
  have huploads := chunkUploads_of_step sha256 fold s.world op
  have hannounced : s.announced ⊆
      ({ s with world := (Platform.step sha256 fold s.world op).2 } : Deployment).announced := by
    intro chunk hchunk
    obtain ⟨event, hevent, hchunk⟩ := List.mem_flatMap.mp hchunk
    exact List.mem_flatMap.mpr ⟨event, huploads hevent, hchunk⟩
  have hholds : ∀ nodeId key, s.Holds options nodeId key →
      ({ s with world := (Platform.step sha256 fold s.world op).2 } : Deployment).Holds options
        nodeId key := by
    intro nodeId key hkey
    obtain ⟨name, hname, hkey⟩ := hkey
    have hapart : name ≠ options.primaryBucket := h.apart _ hname
    rw [bucket_of_ne hapart] at hkey
    refine ⟨name, hname, ?_⟩
    rw [bucket_of_ne hapart]
    exact hkey
  refine ⟨rfl, hannounced, hholds, fun _ => ⟨?_, ?_, ?_, h.apart⟩⟩
  · intro name key data hdata
    by_cases hname : name = options.primaryBucket
    · rw [hname, bucket_primary] at hdata
      rcases objects_of_step fold op hdata with hold | ⟨u, rfl, p, hp, rfl, hkey⟩
      · exact h.addressed name key data (by rw [hname, bucket_primary]; exact hold)
      · exact ⟨hkey, hX u rfl p hp⟩
    · rw [bucket_of_ne hname] at hdata
      exact h.addressed name key data (by rw [bucket_of_ne hname]; exact hdata)
  · intro event hevent
    rcases published_of_step fold op hevent with hold | ⟨u, rfl, hpublished⟩
    · obtain ⟨pieces, hpublished, hpieces⟩ := h.published event hold
      exact ⟨pieces, hpublished.mono hversions hchunks, hpieces⟩
    · exact ⟨u.pieces sha256, hpublished, hX u rfl⟩
  · intro r hr
    obtain ⟨hchunk, hheld⟩ := h.recorded r hr
    exact ⟨hannounced hchunk, hholds _ _ hheld⟩

end Deployment
end IntelliStore.Platform
