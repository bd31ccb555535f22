import IntelliStore.Library.RelyGuarantee
import IntelliStore.Platform.Effects
import IntelliStore.Replication.Services

/-! The whole deployment: the requests of the users, the upload events they lead to, and the
replication-service, which copies bytes from the primary bucket to the buckets of the nodes one
statement at a time. -/

namespace IntelliStore.Platform
open Postgres Library Metadata Storage
open Replication hiding Failure

/-- `nodeBuckets` are the buckets beside the primary one, which storage-service writes. -/
structure Deployment where
  world : World
  cluster : Cluster
  nodeBuckets : String → Objects

namespace Deployment

def init (cluster : Cluster) : Deployment := ⟨.empty, cluster, fun _ => ∅⟩

section
variable (options : ReplicationServiceOptions) (s : Deployment)

def bucket (name : String) : Objects :=
  if name = options.primaryBucket then s.world.backend.objects else s.nodeBuckets name

def putObject (name key : String) (data : Bytes) : Deployment :=
  if name = options.primaryBucket then
    { s with world := { s.world with backend := { s.world.backend with
        objects := s.world.backend.objects.insert key data } } }
  else
    { s with nodeBuckets :=
        Function.update s.nodeBuckets name ((s.nodeBuckets name).insert key data) }

/-- A copy of an object that its bucket does not hold fails. -/
def meets (w : Circumstances) : Statement → Circumstances
  | .copyToNode sourceBucket key _ =>
    if key ∈ s.bucket options sourceBucket then w else { w with outcome := .failed }
  | _ => w

/-- What the statement leaves in the buckets. -/
def copyObject (w : Circumstances) : Statement → Deployment
  | .copyToNode sourceBucket key destBucket =>
    match (s.bucket options sourceBucket).lookup key with
    | some data => if w.outcome = .failed then s else s.putObject options destBucket key data
    | none => s
  | _ => s

/-- A statement on the tables of replication-service and on the buckets. -/
def perform (c : Statement) (w : Circumstances) (x : Deployment × Unit) :
    Except Replication.Failure c.Reply × (Deployment × Unit) :=
  let res := c.exec (x.1.meets options w c) x.1.cluster
  (res.1, { x.1.copyObject options w c with cluster := res.2 }, ())

end

/-- What happens to the deployment. -/
inductive Activity where
  | request (op : Op)
  | deliver (event : ChunkUploadedBatchEvent)
  | operation (op : Operation)

/-- A request is handled at once; the replication-service works on beside the others. -/
def Activity.start (sha256 : Bytes → String) (fold : Char → Char)
    (options : ReplicationServiceOptions) (activity : Activity) (s : Deployment) :
    Deployment × (Unit × Service Unit) :=
  match activity with
  | .request op => ({ s with world := (Platform.step sha256 fold s.world op).2 }, (), pure ())
  | .deliver event => (s, (), ReplicationService.onChunkUploaded options event.chunks)
  | .operation op => (s, (), op.service options)

end Deployment

/-- The activities in progress over the deployment. -/
abbrev Progress := Pool Statement Statement.Reply Replication.Failure Unit Unit Deployment

namespace Progress
open Deployment

abbrev Action := Pool.Action Activity Circumstances

def init (cluster : Cluster) : Progress := ⟨.init cluster, []⟩

def step (sha256 : Bytes → String) (fold : Char → Char) (options : ReplicationServiceOptions) :
    Progress → Action → Option Progress :=
  Pool.step (Deployment.perform options) (Activity.start sha256 fold options)

/-- The uploads are split into pieces of `X`. An event that was published may be delivered at any
time, any number of times or not at all, and chunks are replicated for such events alone. -/
def Allowed (sha256 : Bytes → String) (X : Set Bytes) (s : Progress) : Action → Prop
  | .spawn (.request (.upload u)) => ∀ p ∈ u.pieces sha256, p.data ∈ X
  | .spawn (.deliver event) => event ∈ s.shared.world.chunkUploads
  | .spawn (.operation (.replicateChunk _)) => False
  | _ => True

end Progress

/-! ### The buckets -/

namespace Deployment
variable {options : ReplicationServiceOptions} {s : Deployment} {name key : String} {data : Bytes}

theorem bucket_primary : s.bucket options options.primaryBucket = s.world.backend.objects :=
  if_pos rfl

theorem bucket_of_ne (h : name ≠ options.primaryBucket) :
    s.bucket options name = s.nodeBuckets name := if_neg h

theorem putObject_bucket (other : String) :
    (s.putObject options name key data).bucket options other =
    if other = name then (s.bucket options name).insert key data else s.bucket options other := by
  by_cases hname : name = options.primaryBucket
  · rw [putObject, if_pos hname, hname]
    by_cases hother : other = options.primaryBucket
    · rw [if_pos hother, hother, bucket_primary, bucket_primary]
    · rw [if_neg hother, bucket_of_ne hother, bucket_of_ne hother]
  · rw [putObject, if_neg hname, bucket_of_ne hname]
    by_cases hother : other = options.primaryBucket
    · have hne : other ≠ name := fun h => hname (h ▸ hother)
      rw [if_neg hne, hother, bucket_primary, bucket_primary]
    · rw [bucket_of_ne hother, bucket_of_ne hother]
      by_cases hsame : other = name
      · rw [if_pos hsame, hsame]
        exact Function.update_self ..
      · rw [if_neg hsame]
        exact Function.update_of_ne hsame ..

/-- A copied object is one that some bucket holds under the same key. -/
theorem putObject_lookup {other k : String} {x : Bytes}
    (h : ((s.putObject options name key data).bucket options other).lookup k = some x) :
    (s.bucket options other).lookup k = some x ∨ (k = key ∧ x = data) := by
  rw [putObject_bucket] at h
  split_ifs at h with hname
  · by_cases hkey : k = key
    · rw [hkey, Finmap.lookup_insert, Option.some_inj] at h
      exact .inr ⟨hkey, h.symm⟩
    · rw [Finmap.lookup_insert_of_ne _ hkey] at h
      exact .inl (hname ▸ h)
  · exact .inl h

theorem mem_putObject {other k : String} (h : k ∈ s.bucket options other) :
    k ∈ (s.putObject options name key data).bucket options other := by
  rw [putObject_bucket]
  split_ifs with hname
  · exact Finmap.mem_insert.mpr (.inr (hname ▸ h))
  · exact h

theorem putObject_frame : (s.putObject options name key data).cluster = s.cluster ∧
    (s.putObject options name key data).world.metadata = s.world.metadata ∧
    (s.putObject options name key data).world.chunkUploads = s.world.chunkUploads := by
  rw [putObject]
  split_ifs
  · exact ⟨rfl, rfl, rfl⟩
  · exact ⟨rfl, rfl, rfl⟩

/-- Either the buckets stay as they are, or an object that one of them holds is put into another. -/
theorem copyObject_cases (options : ReplicationServiceOptions) (s : Deployment) (w : Circumstances)
    (c : Statement) : s.copyObject options w c = s ∨ ∃ sourceBucket key destBucket data,
      c = .copyToNode sourceBucket key destBucket ∧
      (s.bucket options sourceBucket).lookup key = some data ∧
      s.copyObject options w c = s.putObject options destBucket key data := by
  cases c with
  | copyToNode sourceBucket key destBucket =>
    cases hdata : (s.bucket options sourceBucket).lookup key with
    | none => exact .inl (by rw [copyObject, hdata])
    | some data =>
      have hcopy : s.copyObject options w (.copyToNode sourceBucket key destBucket) =
          if w.outcome = .failed then s else s.putObject options destBucket key data := by
        rw [copyObject, hdata]
      rw [hcopy]
      split_ifs
      · exact .inl rfl
      · exact .inr ⟨sourceBucket, key, destBucket, data, rfl, hdata, rfl⟩
  | _ => exact .inl rfl

/-- On the tables a statement does what it does without the buckets. -/
theorem perform_cluster (options : ReplicationServiceOptions) (c : Statement) (w : Circumstances)
    (x : Deployment × Unit) :
    (perform options c w x).1 = (c.exec (x.1.meets options w c) x.1.cluster).1 ∧
      (perform options c w x).2.1.cluster = (c.exec (x.1.meets options w c) x.1.cluster).2 :=
  ⟨rfl, rfl⟩

theorem perform_bucket (options : ReplicationServiceOptions) (c : Statement) (w : Circumstances)
    (x : Deployment × Unit) (name : String) : (perform options c w x).2.1.bucket options name =
      (x.1.copyObject options w c).bucket options name := rfl

/-- A copy that succeeds leaves its object in the bucket of the node. -/
theorem mem_of_copied {w : Circumstances} {x : Deployment × Unit} {sourceBucket destBucket : String}
    (h : (perform options (.copyToNode sourceBucket key destBucket) w x).1 = .ok ()) :
    key ∈ (perform options (.copyToNode sourceBucket key destBucket) w x).2.1.bucket options
      destBucket := by
  have hexec : ((Statement.copyToNode sourceBucket key destBucket).exec
      (x.1.meets options w (.copyToNode sourceBucket key destBucket)) x.1.cluster).1 = .ok () := h
  rw [perform_bucket, copyObject]
  by_cases hkey : key ∈ x.1.bucket options sourceBucket
  · obtain ⟨data, hdata⟩ := Finmap.mem_iff.mp hkey
    rw [meets, if_pos hkey, Statement.exec] at hexec
    have houtcome : w.outcome ≠ .failed := by
      intro hfailed
      rw [hfailed] at hexec
      cases hexec
    simp only [hdata, if_neg houtcome]
    rw [putObject_bucket, if_pos rfl]
    exact Finmap.mem_insert.mpr (.inl rfl)
  · rw [meets, if_neg hkey] at hexec
    cases hexec

end Deployment
end IntelliStore.Platform
