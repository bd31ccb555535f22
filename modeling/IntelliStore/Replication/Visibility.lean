import IntelliStore.Replication.ClusterSpec
import IntelliStore.Replication.HandlerStages
import IntelliStore.Replication.System

/-! Which chunks of registered versions the self-healing can see. -/

namespace IntelliStore.Replication
open Library Postgres Metadata

/-! ### Tracked chunks -/

namespace Cluster

/-- The chunk has a replica row. -/
def Tracked (s : Cluster) (chunkId : Uuid) : Prop :=
  chunkId ∈ s.replicas.map ChunkReplicaRecord.chunkId

theorem markLost_chunkIds (s : Cluster) (replicaId : Nat) :
    (s.markLost replicaId).replicas.map ChunkReplicaRecord.chunkId =
      s.replicas.map ChunkReplicaRecord.chunkId :=
  map_update (f := ChunkReplicaRecord.chunkId) (g := fun r => { r with status := .lost })
    (fun _ => rfl) _ _

theorem upsert_tracked {s t : Cluster} {now : Nat} {chunkId nodeId : Uuid} {storageKey : String}
    {sizeBytes : Nat} {status : ReplicaStatus} {row : ChunkReplicaRecord}
    (h : s.upsert now chunkId nodeId storageKey sizeBytes status = some (row, t)) :
    t.Tracked chunkId ∧ ∀ id, s.Tracked id → t.Tracked id := by
  obtain ⟨-, -, ⟨old, hold, hchunk, -, -, hreplicas⟩ | ⟨-, -, hrow, hreplicas⟩⟩ := upsert_inv h
  · have hids : t.replicas.map ChunkReplicaRecord.chunkId =
        s.replicas.map ChunkReplicaRecord.chunkId := by
      rw [hreplicas]
      exact map_update (f := ChunkReplicaRecord.chunkId) (g := fun r => { r with
        status := status, sizeBytes := sizeBytes, lastVerifiedAt := some now }) (fun _ => rfl) _ _
    rw [Tracked, hids]
    exact ⟨hchunk ▸ List.mem_map_of_mem hold, fun id hid => by rwa [Tracked, hids]⟩
  · rw [Tracked, hreplicas]
    refine ⟨?_, fun id hid => by rw [Tracked, hreplicas]; exact mem_map_concat hid⟩
    exact List.mem_map.mpr ⟨row, List.mem_concat_self, by rw [hrow]⟩

end Cluster

/-- No statement untracks a chunk. -/
theorem Statement.exec_tracked (c : Statement) (w : Circumstances) {s : Cluster} {chunkId : Uuid}
    (h : s.Tracked chunkId) : (c.exec w s).2.Tracked chunkId := by
  have heffect : (c.effect w s).2.Tracked chunkId := by
    cases c with
    | markLost replicaId =>
      rw [Cluster.Tracked, ← s.markLost_chunkIds replicaId] at h
      exact h
    | upsert chunkId' nodeId storageKey sizeBytes status =>
      simp only [effect]
      split
      · rename_i hupsert
        exact (Cluster.upsert_tracked hupsert).2 chunkId h
      · exact h
    | _ => exact h
  unfold exec
  split
  · exact heffect
  · exact heffect
  · exact h
  · exact heffect

/-- The services among others; all that is relied on is that chunks stay tracked. -/
def interleaved : Semantics Statement Statement.Reply Failure Circumstances Cluster where
  exec := Statement.exec
  allowed _ := True
  rely s t := ∀ chunkId, s.Tracked chunkId → t.Tracked chunkId

/-! ### What a call of `replicateChunk` leaves, if it does not throw -/

section
variable (options : ReplicationServiceOptions) {chunkId : Uuid} {storageKey : String}
  {sizeBytes : Nat} {s : Cluster}

/-- Whatever is tracked when a service starts, or under a condition `P`, stays so. -/
theorem wp_tracked {α : Type} (p : Service α) (P : Prop) (h : P → s.Tracked chunkId) :
    p.wp interleaved (fun _ t => P → t.Tracked chunkId) s :=
  Prog.wp_invariant (w := interleaved) (fun t => P → Cluster.Tracked t chunkId)
    (fun c w _ _ ht hp => c.exec_tracked w (ht hp)) (fun _ _ hrely ht hp => hrely _ (ht hp)) p h

theorem wp_trivial {α : Type} (p : Service α) : p.wp interleaved (fun _ _ => True) s :=
  Prog.wp_invariant (fun _ => True) (fun _ _ _ _ _ => trivial) (fun _ _ _ _ => trivial) p trivial

theorem Statement.exec_upsert_ok {nodeId : Uuid} {w : Circumstances} {row : ChunkReplicaRecord}
    (h : (Statement.exec (.upsert chunkId nodeId storageKey sizeBytes .synced) w s).1 = .ok row) :
    (Statement.exec (.upsert chunkId nodeId storageKey sizeBytes .synced) w s).2.Tracked
      chunkId := by
  cases hw : w.outcome with
  | succeeded =>
    rw [exec_of_succeeded _ hw] at h ⊢
    cases hupsert : s.upsert w.now chunkId nodeId storageKey sizeBytes .synced with
    | none => simp only [effect, hupsert, reduceCtorEq] at h
    | some result =>
      simp only [effect, hupsert]
      exact (Cluster.upsert_tracked hupsert).1
  | _ => simp only [exec, remote, hw, reduceCtorEq] at h

theorem wp_copyToEach_tracked (targets : List StorageNodeRecord)
    (results : List ChunkReplicaRecord) (h : results.length ≠ 0 → s.Tracked chunkId) :
    (ReplicationService.copyToEach options chunkId storageKey sizeBytes targets results).wp
      interleaved (fun r t => ∀ rows, r = .ok rows → rows.length ≠ 0 → t.Tracked chunkId) s := by
  induction targets generalizing results s with
  | nil => rintro rows ⟨⟩; exact h
  | cons node targets ih =>
    rw [ReplicationService.copyToEach, Prog.wp_bind, Prog.wp_tryCatch]
    have hbody : (do
        ReplicationService.replicateToNode options storageKey sizeBytes node
        let replica ← ReplicaRepository.upsert chunkId node.id storageKey sizeBytes .synced
        pure (results ++ [replica]) : Service (List ChunkReplicaRecord)).wp interleaved
          (fun r t => ∀ rows, r = .ok rows → t.Tracked chunkId) s := by
      rw [Prog.wp_bind]
      refine Prog.wp_mono ?_ (wp_trivial _)
      rintro (e | -) t -
      · rintro rows ⟨⟩
      -- only an upsert that succeeds ends in a value
      · refine (Prog.wp_bind _ _).mpr (Prog.wp_perform.mpr fun u _ w _ => ?_)
        show Prog.follow _ _ _
          (Statement.exec (.upsert chunkId node.id storageKey sizeBytes .synced) w u).1
          (Statement.exec (.upsert chunkId node.id storageKey sizeBytes .synced) w u).2
        cases hexec : (Statement.exec
          (.upsert chunkId node.id storageKey sizeBytes .synced) w u).1 with
        | error e => rintro rows ⟨⟩
        | ok row => exact fun _ _ => Statement.exec_upsert_ok hexec
    refine Prog.wp_mono ?_ (Prog.wp_and hbody (wp_tracked _ (results.length ≠ 0) h))
    rintro (e | rows) t ⟨hok, hkept⟩
    · exact ih results hkept
    · exact ih rows fun _ => hok rows rfl

theorem wp_copyToTargets_tracked (targets : List StorageNodeRecord) :
    (ReplicationService.copyToTargets options chunkId storageKey sizeBytes targets).wp
      interleaved (fun r t => ∀ rows, r = .ok rows → t.Tracked chunkId) s := by
  rw [ReplicationService.copyToTargets, Prog.wp_bind]
  refine Prog.wp_mono ?_ (wp_copyToEach_tracked options targets [] fun h => absurd rfl h)
  rintro (e | rows) t h
  · rintro rows ⟨⟩
  · rw [Prog.follow]
    split_ifs with hrows
    · rintro rows ⟨⟩
    · exact fun _ _ => h rows rfl hrows

theorem wp_replicateChunk_tracked :
    (ReplicationService.replicateChunk options chunkId storageKey sizeBytes).wp interleaved
      (fun r t => ∀ rows, r = .ok rows → t.Tracked chunkId) s := by
  rw [ReplicationService.replicateChunk, Prog.wp_bind]
  refine Prog.wp_mono ?_ (wp_trivial _)
  rintro (e | healthyNodes) t -
  · rintro rows ⟨⟩
  · rw [Prog.follow]
    split_ifs
    · rintro rows ⟨⟩
    · exact wp_copyToTargets_tracked options _

end

theorem wp_onChunkUploaded_tracked (options : ReplicationServiceOptions)
    (chunks : List ChunkUploadedEvent) (s : Cluster) :
    (ReplicationService.onChunkUploaded options chunks).wp interleaved
      (fun r t => r = .ok () → ∀ chunk ∈ chunks, t.Tracked chunk.chunkId) s := by
  induction chunks generalizing s with
  | nil => exact fun _ chunk hc => by cases hc
  | cons chunk chunks ih =>
    rw [ReplicationService.onChunkUploaded, Prog.wp_bind]
    refine Prog.wp_mono ?_ (wp_replicateChunk_tracked options)
    rintro (e | rows) t h
    · rintro ⟨⟩
    · refine Prog.wp_mono ?_ (Prog.wp_and (ih t) (wp_tracked _ True fun _ => h rows rfl))
      exact fun r u hu hr => List.forall_mem_cons.mpr ⟨hu.2 trivial, hu.1 hr⟩

/-! ### Runs in which every event is handled -/

def Announces (event : ChunkUploadedBatchEvent) (chunkId : Uuid) : Prop :=
  ∃ e ∈ event.chunks, e.chunkId = chunkId

/-- The events in flight, the one being handled first. -/
def System.pending (s : System) : List ChunkUploadedBatchEvent :=
  s.handler.toList.map Prod.fst ++ s.queue

/-- A chunk of a registered version is complete, or on the work list of the self-healing. -/
def System.Visible (options : ReplicationServiceOptions) (s : System) : Prop :=
  ∀ chunk ∈ s.registered, options.replicationFactor ≤ s.cluster.syncedCount chunk.id ∨
    ∀ rank, ∃ listed ∈ s.cluster.listUnderReplicated rank options.replicationFactor,
      listed.chunkId = chunk.id

/-- The publication of an upload is not swallowed, and no statement of the handler takes the last
chance of a chunk. -/
def Handled (options : ReplicationServiceOptions) (s : System) : Action → Prop
  | .upload _ _ _ _ published => published = true
  | .handle w => ∀ event stage, s.handler = some (event, Stage.program options stage) →
    ¬stage.Fails options w s.cluster
  | _ => True

/-- A handler that has not thrown, and whose end leaves the chunks of its event tracked. -/
def Handling (options : ReplicationServiceOptions) (cluster : Cluster)
    (h : ChunkUploadedBatchEvent × Service Unit) : Prop :=
  (∃ stage : Stage, h.2 = stage.program options) ∧ h.2.wp interleaved
    (fun r t => r = .ok () → ∀ chunk ∈ h.1.chunks, t.Tracked chunk.chunkId) cluster

structure Accounted (options : ReplicationServiceOptions) (s : System) : Prop where
  handler : ∀ h ∈ s.handler, Handling options s.cluster h
  chunks : ∀ chunk ∈ s.registered,
    s.cluster.Tracked chunk.id ∨ ∃ event ∈ s.pending, Announces event chunk.id

theorem step_tracked {α : Type} {p p' : Service α} {w : Circumstances} {s t : Cluster}
    (h : p.step Statement.exec w s = some (p', t)) {chunkId : Uuid} (hs : s.Tracked chunkId) :
    t.Tracked chunkId := by
  cases p with
  | done r => cases h
  | call c next =>
    cases h
    exact c.exec_tracked w hs

section
variable {options : ReplicationServiceOptions}

theorem Handling.step {event : ChunkUploadedBatchEvent} {stage : Stage} {p : Service Unit}
    {w : Circumstances} {s t : Cluster} (hh : Handling options s (event, stage.program options))
    (hstep : (stage.program options).step Statement.exec w s = some (p, t))
    (hp : ¬stage.Fails options w s) : Handling options t (event, p) := by
  refine ⟨?_, Prog.wp_step (w := interleaved) (fun _ _ ht => ht) trivial hh.2 hstep⟩
  rcases Stage.resumes_step stage hstep with ⟨hfails, -⟩ | ⟨-, hnext⟩
  · exact absurd hfails hp
  · exact hnext

theorem Handling.stable {h : ChunkUploadedBatchEvent × Service Unit} {s t : Cluster}
    (hh : Handling options s h) (hst : ∀ chunkId, s.Tracked chunkId → t.Tracked chunkId) :
    Handling options t h :=
  ⟨hh.1, Prog.wp_stable (w := interleaved) (fun _ _ _ hs ht id h => ht id (hs id h))
    (fun _ _ _ hrely hq hr chunk hc => hrely _ (hq hr chunk hc)) hh.2 hst⟩

theorem Handling.start (cluster : Cluster) (event : ChunkUploadedBatchEvent) :
    Handling options cluster (event, ReplicationService.onChunkUploaded options event.chunks) :=
  ⟨⟨.reading event.chunks, rfl⟩, wp_onChunkUploaded_tracked options event.chunks cluster⟩

/-- A handler that is done has not thrown, and its chunks are tracked. -/
theorem Handling.done {event : ChunkUploadedBatchEvent} {r : Except Failure Unit} {s : Cluster}
    (hh : Handling options s (event, .done r)) :
    ∀ chunk ∈ event.chunks, s.Tracked chunk.chunkId := by
  obtain ⟨⟨stage, hstage⟩, hwp⟩ := hh
  cases r with
  | error e =>
    have hthrew : (Prog.done (.error e) : Service Unit).threw = false := by
      rw [show (Prog.done (.error e) : Service Unit) = _ from hstage, Stage.program_threw]
    cases hthrew
  | ok _ => exact hwp rfl

/-- The chunks stay accounted for while what is tracked or pending stays so. -/
theorem Accounted.mono {s t : System} (h : Accounted options s)
    (hregistered : t.registered = s.registered)
    (hcluster : ∀ chunkId, s.cluster.Tracked chunkId → t.cluster.Tracked chunkId)
    (hhandler : ∀ h ∈ t.handler, Handling options t.cluster h)
    (hpending : ∀ event ∈ s.pending, event ∈ t.pending ∨
      ∀ chunk ∈ event.chunks, t.cluster.Tracked chunk.chunkId) : Accounted options t := by
  refine ⟨hhandler, fun chunk hc => ?_⟩
  rw [hregistered] at hc
  rcases h.chunks chunk hc with ht | ⟨event, he, e, hmem, hid⟩
  · exact .inl (hcluster _ ht)
  · rcases hpending event he with hp | ht
    · exact .inr ⟨event, hp, e, hmem, hid⟩
    · exact .inl (hid ▸ ht e hmem)

/-- The event of an upload, once published, accounts for its chunks. -/
theorem Accounted.upload {cluster : Cluster} {registered : List ChunkRecord}
    {queue : List ChunkUploadedBatchEvent}
    {handler : Option (ChunkUploadedBatchEvent × Service Unit)} {others : List (Service Unit)}
    (h : Accounted options ⟨cluster, registered, queue, handler, others⟩) (fileId : String)
    (ownerId : Uuid) (fileName : String) (result : VersionDetail) :
    Accounted options ⟨cluster, registered ++ result.chunks,
      queue ++ [Storage.UploadService.chunkUploadedEvent fileId ownerId fileName result], handler,
      others⟩ := by
  let event := Storage.UploadService.chunkUploadedEvent fileId ownerId fileName result
  have hpending : System.pending ⟨cluster, registered ++ result.chunks, queue ++ [event], handler,
      others⟩ = System.pending ⟨cluster, registered, queue, handler, others⟩ ++ [event] :=
    (List.append_assoc _ _ _).symm
  have hannounced : ∀ chunk ∈ result.chunks, Announces event chunk.id := fun chunk hc =>
    ⟨⟨chunk.id, chunk.storageKey, chunk.sizeBytes⟩, List.mem_map.mpr ⟨chunk, hc, rfl⟩, rfl⟩
  refine ⟨h.handler, List.forall_mem_append.mpr ⟨fun chunk hc => ?_, fun chunk hc => ?_⟩⟩
  · refine (h.chunks chunk hc).imp_right fun ⟨event, he, hann⟩ => ⟨event, ?_, hann⟩
    rw [hpending]
    exact List.mem_append_left _ he
  · refine .inr ⟨event, ?_, hannounced chunk hc⟩
    rw [hpending]
    exact List.mem_concat_self

/-- A statement of the handler that does not fail it. -/
theorem Accounted.handle {cluster cluster' : Cluster} {registered : List ChunkRecord}
    {queue : List ChunkUploadedBatchEvent} {event : ChunkUploadedBatchEvent} {p p' : Service Unit}
    {others : List (Service Unit)} {w : Circumstances}
    (h : Accounted options ⟨cluster, registered, queue, some (event, p), others⟩)
    (hstep : p.step Statement.exec w cluster = some (p', cluster'))
    (hg : ∀ stage : Stage, p = stage.program options → ¬stage.Fails options w cluster) :
    Accounted options ⟨cluster', registered, queue, some (event, p'), others⟩ := by
  refine h.mono rfl (fun _ ht => step_tracked hstep ht) ?_ fun e he => .inl he
  rintro _ ⟨⟩
  obtain ⟨⟨stage, hstage⟩, hwp⟩ := h.handler _ rfl
  obtain rfl : p = stage.program options := hstage
  exact Handling.step ⟨⟨stage, rfl⟩, hwp⟩ hstep (hg stage rfl)

/-- The event leaves the machine. It was handled to its end, so its chunks are tracked. -/
theorem Accounted.settle {cluster : Cluster} {registered : List ChunkRecord}
    {queue : List ChunkUploadedBatchEvent} {event : ChunkUploadedBatchEvent}
    {r : Except Failure Unit} {others : List (Service Unit)}
    (h : Accounted options ⟨cluster, registered, queue, some (event, .done r), others⟩) :
    Accounted options ⟨cluster, registered, queue, none, others⟩ := by
  refine h.mono rfl (fun _ ht => ht) (fun _ hn => by cases hn) fun e he => ?_
  rcases List.mem_cons.mp he with rfl | he
  · exact .inr (h.handler _ rfl).done
  · exact .inl he

theorem Accounted.step {s t : System} {a : Action} (h : Accounted options s)
    (hg : Handled options s a) (hs : s.step options a = some t) : Accounted options t := by
  obtain ⟨cluster, registered, queue, handler, others⟩ := s
  cases a with
  | upload fileId ownerId fileName result published =>
    cases hg
    cases hs
    exact h.upload fileId ownerId fileName result
  | deliver =>
    cases handler with
    | some h => cases hs
    | none =>
      cases queue with
      | nil => cases hs
      | cons event queue =>
        cases hs
        refine h.mono rfl (fun _ ht => ht) ?_ fun e he => .inl he
        rintro _ ⟨⟩
        exact Handling.start cluster event
  | handle w =>
    cases handler with
    | none => cases hs
    | some current =>
      obtain ⟨event, p⟩ := current
      simp only [System.step] at hs
      split at hs
      · rename_i p' cluster' hstep
        cases hs
        exact h.handle hstep fun stage hp => hg event stage (by rw [hp])
      · cases hs
  | settle =>
    cases handler with
    | none => cases hs
    | some current =>
      obtain ⟨event, p⟩ := current
      cases p with
      | call c next => cases hs
      | done r =>
        cases hs
        exact h.settle
  | begin op =>
    cases op <;> cases hs <;> exact ⟨h.handler, h.chunks⟩
  | proceed i w =>
    simp only [System.step] at hs
    split at hs
    · split at hs
      · rename_i p' cluster' hstep
        cases hs
        have hkept : ∀ chunkId, cluster.Tracked chunkId → cluster'.Tracked chunkId :=
          fun _ ht => step_tracked hstep ht
        exact h.mono rfl hkept (fun current hc => (h.handler current hc).stable hkept)
          fun e he => .inl he
      · cases hs
    · cases hs

theorem Accounted.visible {s : System} (h : Accounted options s) (hq : s.Quiescent) :
    s.Visible options := by
  intro chunk hc
  rcases h.chunks chunk hc with ht | ⟨event, he, -⟩
  · refine or_iff_not_imp_left.mpr fun hlt rank => ?_
    obtain ⟨r, hr, hid⟩ := List.mem_map.mp ht
    exact ⟨s.cluster.group r.chunkId, Cluster.mem_listUnderReplicated.mpr
      ⟨r, hr, rfl, hid ▸ not_le.mp hlt⟩, hid⟩
  · rw [System.pending, hq.1, hq.2] at he
    cases he

end

/-- Nothing is invisible in a run whose publications arrive and whose handlers find a node for every
chunk. -/
theorem under_replication_visible (options : ReplicationServiceOptions) (cluster : Cluster)
    (s : System) (h : Reach (System.step options) (Handled options) (.init cluster) s)
    (hq : s.Quiescent) : s.Visible options := by
  have hinit : Accounted options (.init cluster) := ⟨by simp [System.init], by simp [System.init]⟩
  exact (h.invariant (Accounted options) hinit fun _ _ _ ht hg hs => ht.step hg hs).visible hq

/-! Uploads of one chunk to a cluster of two nodes, published or not. -/

def oneChunk : VersionDetail where
  version := ⟨1, 2, 1, 5, "text/plain", "a", 0⟩
  chunks := [⟨7, 1, 0, 5, "a", "chunks/a"⟩]

theorem unpublished_chunk_invisible :
    ∃ s, Reach (System.step .sample) (fun _ _ => True) (.init (.installed 2)) s ∧
      s.Quiescent ∧ ¬s.Visible .sample := by
  have hrun : ∃ s ∈ [Action.upload "f" 1 "a.txt" oneChunk false].foldlM
      (fun s a => if True then System.step .sample s a else none) (System.init (.installed 2)),
      (s.queue = [] ∧ s.handler.isNone) ∧ ∃ chunk ∈ s.registered,
        ¬(2 ≤ s.cluster.syncedCount chunk.id) ∧ ¬∃ listed ∈ s.cluster.listUnderReplicated
          (fun _ => 0) 2, listed.chunkId = chunk.id := by decide
  obtain ⟨s, hs, ⟨hqueue, hhandler⟩, chunk, hc, hcount, hlisted⟩ := hrun
  refine ⟨s, reach_of_schedule hs, ⟨hqueue, Option.isNone_iff_eq_none.mp hhandler⟩, fun hv => ?_⟩
  rcases hv chunk hc with h | h
  · exact hcount h
  · exact hlisted (h fun _ => 0)

def handledUpload : List Action :=
  [.upload "f" 1 "a.txt" oneChunk true, .deliver] ++ List.replicate 7 (.handle (.calm 0)) ++
    [.settle]

/-- The publication arrives, and the handler has not thrown after the step. -/
def Unthrown (s : System) : Action → Prop
  | .upload _ _ _ _ published => published = true
  | .handle w =>
    s.handler.all (fun h => (h.2.step Statement.exec w s.cluster).all fun q => !q.1.threw) = true
  | _ => True

instance (s : System) : (a : Action) → Decidable (Unthrown s a)
  | .upload _ _ _ _ published => inferInstanceAs (Decidable (published = true))
  | .handle _ => inferInstanceAs (Decidable (s.handler.all _ = true))
  | .deliver | .settle | .begin _ | .proceed _ _ => inferInstanceAs (Decidable True)

theorem handled_of_unthrown {options : ReplicationServiceOptions} {s t : System} {a : Action}
    (h : Unthrown s a) (hs : s.step options a = some t) : Handled options s a := by
  cases a with
  | upload fileId ownerId fileName result published => exact h
  | handle w =>
    intro event stage hhandler hfails
    simp only [System.step, hhandler] at hs
    split at hs
    · rename_i p cluster hstep
      have hthrew : p.threw = true := (Stage.threw_iff hstep).mpr hfails
      simp [Unthrown, hhandler, hstep, hthrew] at h
    · cases hs
  | _ => trivial

theorem under_replication_visible_handled :
    ∃ s : System, s.registered = oneChunk.chunks ∧ s.Visible .sample := by
  have hrun : ∃ s ∈ handledUpload.foldlM
      (fun s a => if Unthrown s a then System.step .sample s a else none)
      (System.init (.installed 2)),
      s.registered = oneChunk.chunks ∧ s.queue = [] ∧ s.handler.isNone := by decide
  obtain ⟨s, hs, hregistered, hqueue, hhandler⟩ := hrun
  have hreach : Reach (System.step .sample) (Handled .sample) (.init (.installed 2)) s :=
    (reach_of_schedule hs).mono fun _ _ _ => handled_of_unthrown
  exact ⟨s, hregistered, under_replication_visible .sample (.installed 2) s hreach
    ⟨hqueue, Option.isNone_iff_eq_none.mp hhandler⟩⟩

end IntelliStore.Replication
