import IntelliStore.Metadata.SystemStats
import IntelliStore.Platform.RoundTrip
import IntelliStore.Storage.Bookkeeping

/-! What the uploads report as saved, what the bucket holds and what metadata-service computes
from its chunk rows, over whole runs. -/

namespace IntelliStore.Platform
open Postgres Library Metadata Storage
variable {sha256 : Bytes → String}

/-- Settled; and the lookup of the file of a new version is answered. -/
structure Op.Completed (op : Op) : Prop where
  settled : op.Settled
  lookup : ∀ u fileId, op = .upload u → u.target = .newVersion fileId →
    u.outcomes.fileDetail = .replied

def savedBytes : Reply → Nat
  | .uploaded (.ok result) => result.dedup.bytesSaved
  | _ => 0

/-- The savings reported by the uploads that succeeded. -/
def reportedSavings (sha256 : Bytes → String) (fold : Char → Char) (ops : List Op) : Nat :=
  ((answers (step sha256 fold) .empty ops).map fun p => savedBytes p.2).sum

def storedBytes (w : World) : Nat := w.backend.objects.total List.length

/-! ### One upload -/

namespace Upload

theorem served_newVersion_ok {u : Upload} {d d' : Database} {fileId : String}
    {result : VersionDetail} (ht : u.target = .newVersion fileId)
    (h : u.served sha256 d = (.ok result, d')) :
    ∃ file, FileService.getOwnedFile d' u.ownerId fileId = .ok file := by
  simp only [served, ht, FileRouter.postVersion, validateBody] at h
  split_ifs at h
  · rcases FileService.addVersion_cases u.generated u.ownerId fileId (u.payload sha256) d with
      ⟨e, he⟩ | ⟨f, v, rows, d₁, hf, hv, he⟩ <;> rw [he] at h <;> cases h
    exact Database.getOwnedFile_createVersion hf hv
  · cases h

/-- A registration that is settled is answered, or not handled at all. -/
theorem register_completed (sha256 : Bytes → String) {u : Upload} (hu : Op.Completed (.upload u))
    (d : Database) :
    (∃ result d', (u.service sha256).register u.ownerId u.target (u.payload sha256) d =
        (.ok result, d') ∧ u.served sha256 d = (.ok result, d') ∧
        u.Commits sha256 d d' result.version) ∨
      ∃ e d', (u.service sha256).register u.ownerId u.target (u.payload sha256) d =
        (.error e, d') ∧ u.AddsNoVersion d d' := by
  have hsettled : u.outcomes.registration.ambiguous = false := hu.settled
  rw [register_eq]
  rcases HttpMetadataClient.request_cases u.outcomes.registration (u.served sha256) d with
    ⟨-, hreq⟩ | ⟨-, e, hreq⟩ | ⟨hout, -⟩
  · rcases u.served_cases sha256 d with ⟨result, d', hs, hcommits⟩ | ⟨e, d', hs, hadds⟩ <;>
      rw [hreq, hs]
    · exact .inl ⟨result, d', rfl, rfl, hcommits⟩
    · exact .inr ⟨_, d', rfl, hadds⟩
  · exact .inr ⟨e, d, hreq, .refl u _⟩
  · rw [hsettled] at hout
    cases hout

/-- It fails and leaves the bucket as it was, or succeeds; then what it did not write is what
it reports as saved. -/
theorem run_completed (sha256 : Bytes → String) {u : Upload} (hu : Op.Completed (.upload u))
    (w : World) :
    (∃ e, (u.run sha256 w).1 = .error e ∧
      u.AddsNoVersion w.metadata (u.run sha256 w).2.metadata ∧
      (u.run sha256 w).2.backend.objects = w.backend.objects) ∨
    (∃ r v, (u.run sha256 w).1 = .ok r ∧
      u.Commits sha256 w.metadata (u.run sha256 w).2.metadata v ∧
      (u.run sha256 w).2.backend.objects =
        w.backend.objects.putAll (entries (u.pieces sha256)) ∧
      r.dedup.bytesSaved + storedBytes (u.run sha256 w).2 =
        storedBytes w + ((u.payload sha256).chunks.map ChunkInput.sizeBytes).sum) := by
  by_cases hbuffer : u.buffer = []
  · have hstore := UploadService.storeChunks_empty (u.service sha256) u.mimeType w.backend
    rw [← hbuffer] at hstore
    rw [run, UploadService.upload_of_error hstore]
    exact .inl ⟨_, rfl, .refl u _, rfl⟩
  obtain ⟨stored, b, hstored, hpayload, haccount⟩ :=
    UploadService.storeChunks_account (u.service sha256) (minioStorageBackend_exact fun _ => rfl)
      (fun _ _ _ => rfl) hbuffer u.mimeType w.backend
  have hback := UploadService.rollback (u.service sha256) rfl (fun _ => rfl) haccount.objects
  have hpay : stored.payload = u.payload sha256 := hpayload
  have hsaved := haccount.saved
  rw [← UploadService.payload_sizes (u.service sha256) u.mimeType u.buffer] at hsaved
  have hreg := u.register_completed sha256 hu w.metadata
  rw [← hpay] at hreg
  rw [run]
  rcases UploadService.upload_cases (s := w) u.ownerId u.target hstored with
    ⟨e, m, hreq, hup⟩ | ⟨result, m, fileId, ownerId, fileName, hreq, hup⟩ |
    ⟨result, m, fileId, e, ht, hreq, hdetail, hup⟩ <;> rw [hup] <;>
    rcases hreg with ⟨result', d', hok, hs, hcommits⟩ | ⟨e', d', herror, hadds⟩
  · rw [hreq] at hok
    cases hok
  · rw [hreq] at herror
    cases herror
    exact .inl ⟨e, rfl, hadds, by rw [haccount.keys]; exact hback⟩
  · rw [hreq] at hok
    cases hok
    exact .inr ⟨_, result.version, rfl, hcommits, haccount.objects, hsaved⟩
  · rw [hreq] at herror
    cases herror
  · rw [hreq] at hok
    cases hok
    -- the file of the version is found, so its lookup has no error
    obtain ⟨file, hfile⟩ := served_newVersion_ok ht hs
    have hfound : (u.service sha256).metadataClient.getFileDetail u.ownerId fileId m =
        .ok ⟨file, m.listVersions file.id⟩ := by
      simp only [service, containerUploadService, httpMetadataClient,
        hu.lookup u fileId rfl ht, HttpMetadataClient.request, FileService.getFile, hfile]
      rfl
    rw [hfound] at hdetail
    cases hdetail
  · rw [hreq] at herror
    cases herror

end Upload

/-! ### The accounts -/

/-- The chunk rows are the objects, and what they amount to beyond the objects was reported. -/
structure Accounted (sha256 : Bytes → String) (fold : Char → Char) (past : List Op)
    (w : World) : Prop where
  stored : Stored sha256 past w
  rows : ∀ c ∈ w.metadata.chunks, ∃ x,
    w.backend.objects.lookup c.storageKey = some x ∧ x.length = c.sizeBytes
  objects : ∀ k x, w.backend.objects.lookup k = some x →
    ∃ c ∈ w.metadata.chunks, c.storageKey = k ∧ c.sizeBytes = x.length
  savings : (w.metadata.chunks.map ChunkRecord.sizeBytes).sum =
    storedBytes w + reportedSavings sha256 fold past

theorem reportedSavings_concat (sha256 : Bytes → String) (fold : Char → Char) (past : List Op) (op : Op) :
    reportedSavings sha256 fold (past ++ [op]) = reportedSavings sha256 fold past +
      savedBytes (step sha256 fold (finalState (step sha256 fold) .empty past) op).1 := by
  rw [reportedSavings, answers_concat, List.map_append, List.sum_append, List.map_singleton,
    List.sum_singleton]
  rfl

namespace Accounted
variable {fold : Char → Char} {past : List Op} {w : World}

theorem empty : Accounted sha256 fold [] .empty where
  stored := .empty
  rows := fun c hc => by cases hc
  objects := fun k x hx => by
    rw [show World.empty.backend.objects = ∅ from rfl, Finmap.lookup_empty] at hx
    cases hx
  savings := rfl

/-- A step that reports no savings and keeps the objects and the chunk rows. -/
theorem same {w' : World} {op : Op} (h : Accounted sha256 fold past w)
    (hstored : Stored sha256 (past ++ [op]) w')
    (hchunks : w'.metadata.chunks = w.metadata.chunks)
    (hobjects : w'.backend.objects = w.backend.objects)
    (hreported : reportedSavings sha256 fold (past ++ [op]) = reportedSavings sha256 fold past) :
    Accounted sha256 fold (past ++ [op]) w' where
  stored := hstored
  rows := by rw [hchunks, hobjects]; exact h.rows
  objects := by rw [hchunks, hobjects]; exact h.objects
  savings := by rw [hchunks, storedBytes, hobjects, hreported]; exact h.savings

theorem mem_stored_pairs {u : Upload} {i : Nat} {versionId : Uuid} {k : String} {n : Nat} :
    (∃ c ∈ Database.chunkRows u.generated versionId i (u.payload sha256).chunks,
        c.storageKey = k ∧ c.sizeBytes = n) ↔
      ∃ p ∈ u.pieces sha256, p.key = k ∧ p.sizeBytes = n := by
  have hpairs : (Database.chunkRows u.generated versionId i (u.payload sha256).chunks).map
      (fun c => (c.storageKey, c.sizeBytes)) =
        (u.pieces sha256).map fun p => (p.key, p.sizeBytes) :=
    (Database.chunkRows_map u.generated versionId i (u.payload sha256).chunks
      fun c => (c.storageKey, c.sizeBytes)).trans List.map_map
  have hmem := congrArg (fun l => (k, n) ∈ l) hpairs
  simpa only [List.mem_map, Prod.mk.injEq, eq_iff_iff] using hmem

/-- The upload of a version: its rows are those of its pieces, each of which is in the bucket
with the bytes its digest stands for. -/
theorem commit {u : Upload} {w' : World} {v : FileVersionRecord}
    (h : Accounted sha256 fold past w) (hstored : Stored sha256 (past ++ [.upload u]) w')
    (hinj : Set.InjOn sha256 (hashed sha256 (past ++ [.upload u])))
    (hcommits : u.Commits sha256 w.metadata w'.metadata v)
    (hobjects : w'.backend.objects = w.backend.objects.putAll (entries (u.pieces sha256)))
    {saved : Nat} (hreported : reportedSavings sha256 fold (past ++ [.upload u]) =
      reportedSavings sha256 fold past + saved)
    (hsaved : saved + storedBytes w' =
      storedBytes w + ((u.payload sha256).chunks.map ChunkInput.sizeBytes).sum) :
    Accounted sha256 fold (past ++ [.upload u]) w' where
  stored := hstored
  rows := by
    rw [hcommits.chunks]
    refine List.forall_mem_append.mpr ⟨fun c hc => ?_, fun c hc => ?_⟩
    · obtain ⟨x, hx, hlen⟩ := h.rows c hc
      refine ⟨x, ?_, hlen⟩
      rw [hobjects, ObjectStore.lookup_putAll_of_mem (Finmap.mem_of_lookup_eq_some hx), hx]
    · obtain ⟨p, hp, hkey, hsize⟩ := mem_stored_pairs.mp ⟨c, hc, rfl, rfl⟩
      have hmem : p.key ∈ w'.backend.objects := by
        rw [hobjects, ObjectStore.mem_putAll, map_fst_entries]
        exact .inr (List.mem_map_of_mem hp)
      obtain ⟨x, hx⟩ := Finmap.mem_iff.mp hmem
      obtain ⟨haddress, hxmem⟩ := hstored.addressed p.key x hx
      have hdigest : sha256 p.data = sha256 x :=
        (mem_splitIntoChunks hp).2.1.symm.trans (chunkKey_inj.mp haddress)
      have hdata : p.data ∈ hashed sha256 (past ++ [.upload u]) :=
        ⟨u, List.mem_concat_self, .inr ⟨p, hp, rfl⟩⟩
      refine ⟨x, hkey ▸ hx, ?_⟩
      rw [← hinj hdata hxmem hdigest, ← (mem_splitIntoChunks hp).1, hsize]
  objects := by
    intro k x hx
    rw [hobjects] at hx
    rw [hcommits.chunks]
    rcases ObjectStore.lookup_putAll_eq_some hx with hx | hx
    · obtain ⟨c, hc, hk, hsize⟩ := h.objects k x hx
      exact ⟨c, List.mem_append_left _ hc, hk, hsize⟩
    · obtain ⟨p, hp, hpx⟩ := List.mem_map.mp hx
      cases hpx
      obtain ⟨c, hc, hk, hsize⟩ := mem_stored_pairs.mpr ⟨p, hp, rfl, (mem_splitIntoChunks hp).1⟩
      exact ⟨c, List.mem_append_right _ hc, hk, hsize⟩
  savings := by
    have hold := h.savings
    rw [hcommits.chunks, List.map_append, List.sum_append, Database.chunkRows_map_sizeBytes,
      hreported]
    omega

theorem step {op : Op} (h : Accounted sha256 fold past w)
    (hrun : w = finalState (Platform.step sha256 fold) .empty past) (hop : op.Completed)
    (hinj : Set.InjOn sha256 (hashed sha256 (past ++ [op]))) :
    Accounted sha256 fold (past ++ [op]) (Platform.step sha256 fold w op).2 := by
  have hstored := h.stored.step fold hop.settled
  have hreported := reportedSavings_concat sha256 fold past op
  rw [← hrun] at hreported
  cases op with
  | upload u =>
    rcases u.run_completed sha256 hop w with
      ⟨e, hreply, hadds, hobjects⟩ | ⟨r, v, hreply, hcommits, hobjects, hsaved⟩ <;>
      simp only [Platform.step, hreply, savedBytes] at hreported
    · exact h.same hstored hadds.chunks hobjects hreported
    · exact h.commit hstored hinj hcommits hobjects hreported hsaved
  | download q =>
    obtain ⟨hbackend, hmetadata⟩ := DownloadService.download_frame
      (containerDownloadService sha256 q.generated q.outcomes) q.ownerId q.fileId q.versionNumber
      q.now w
    exact h.same hstored (congrArg Database.chunks hmetadata) (congrArg Bucket.objects hbackend)
      hreported
  | metadata r =>
    obtain ⟨-, -, hchunks⟩ := FileRouter.handle_of_no_registration fold w.metadata hop.settled
    exact h.same hstored hchunks rfl hreported

theorem run (sha256 : Bytes → String) (fold : Char → Char) {ops : List Op}
    (hops : ∀ op ∈ ops, op.Completed) (hinj : Set.InjOn sha256 (hashed sha256 ops)) :
    Accounted sha256 fold ops (finalState (Platform.step sha256 fold) .empty ops) := by
  have hstep : ∀ past w op, op.Completed →
      (Set.InjOn sha256 (hashed sha256 past) → Accounted sha256 fold past w ∧
        w = finalState (Platform.step sha256 fold) .empty past) →
      Set.InjOn sha256 (hashed sha256 (past ++ [op])) →
        Accounted sha256 fold (past ++ [op]) (Platform.step sha256 fold w op).2 ∧
          (Platform.step sha256 fold w op).2 =
            finalState (Platform.step sha256 fold) .empty (past ++ [op]) := by
    intro past w op hop h hinj
    -- the digests of a part of the run do not collide either
    obtain ⟨hacc, hrun⟩ := h (hinj.mono fun _ => hashed_mono)
    refine ⟨hacc.step hrun hop hinj, ?_⟩
    rw [hrun, finalState_concat]
  have h := finalState_history (fun past w => Set.InjOn sha256 (hashed sha256 past) →
    Accounted sha256 fold past w ∧ w = finalState (Platform.step sha256 fold) .empty past)
    hstep (guarded_of_forall hops) fun _ => ⟨empty, rfl⟩
  exact (h hinj).1

end Accounted

/-- After any such run, the objects amount to the sum behind `physicalChunkBytes`, and the one
behind `dedupedBytes` is what the uploads reported as saved; the stats are those sums as long as
they are exact in Numbers. -/
theorem dedup_accounts_agree (fold : Char → Char) (ops : List Op)
    (hops : ∀ op ∈ ops, op.Completed) (hinj : Set.InjOn sha256 (hashed sha256 ops)) :
    let w := finalState (step sha256 fold) .empty ops
    storedBytes w = w.metadata.exactStats.physicalChunkBytes ∧
      w.metadata.exactStats.dedupedBytes = (reportedSavings sha256 fold ops : Int) ∧
      (w.metadata.exactStats.logicalChunkBytes ≤ maxSafeInteger →
        storedBytes w = w.metadata.getSystemStats.physicalChunkBytes ∧
        w.metadata.getSystemStats.dedupedBytes = (reportedSavings sha256 fold ops : Int)) := by
  intro w
  have h := Accounted.run sha256 fold hops hinj
  have hphysical : storedBytes w = w.metadata.exactStats.physicalChunkBytes := by
    apply ObjectStore.total_eq_sum_dedup
    intro k n
    rw [List.mem_map]
    constructor
    · rintro ⟨c, hc, heq⟩
      cases heq
      exact h.rows c hc
    · rintro ⟨x, hx, rfl⟩
      obtain ⟨c, hc, hk, hsize⟩ := h.objects k x hx
      exact ⟨c, hc, by rw [hk, hsize]⟩
  have hsavings : w.metadata.exactStats.logicalChunkBytes =
      storedBytes w + reportedSavings sha256 fold ops := h.savings
  have hdeduped : w.metadata.exactStats.dedupedBytes = (reportedSavings sha256 fold ops : Int) := by
    show (w.metadata.exactStats.logicalChunkBytes : Int) -
      (w.metadata.exactStats.physicalChunkBytes : Int) = _
    rw [← hphysical, hsavings]
    push_cast
    omega
  refine ⟨hphysical, hdeduped, fun hsafe => ⟨?_, ?_⟩⟩
  · rw [Database.physicalChunkBytes_of_safe hsafe, hphysical]
  · rw [Database.dedupedBytes_of_safe hsafe, hdeduped]

theorem dedup_accounts_agree_sample :
    let w := finalState (step sampleSha256 id) .empty sampleOps
    storedBytes w = w.metadata.getSystemStats.physicalChunkBytes ∧
      w.metadata.getSystemStats.dedupedBytes =
        (reportedSavings sampleSha256 id sampleOps : Int) :=
  (dedup_accounts_agree id sampleOps
    (by
      intro op hop
      simp only [sampleOps, List.mem_cons, List.not_mem_nil, or_false] at hop
      rcases hop with rfl | rfl | rfl <;>
        exact ⟨rfl, fun u fileId hu _ => by cases hu; rfl⟩)
    fun x hx y hy => by
      have hinjective : ∀ x ∈ [[1], [2], [1, 2]], ∀ y ∈ [[1], [2], [1, 2]],
          sampleSha256 x = sampleSha256 y → x = y := by decide
      exact hinjective x (mem_hashed_sampleOps hx) y (mem_hashed_sampleOps hy)).2.2 (by decide)

end IntelliStore.Platform
