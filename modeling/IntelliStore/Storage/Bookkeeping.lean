import IntelliStore.Storage.UploadSpec

/-! What `storeChunks` reports of the deduplication, over any backend that stores what it is
given and whose `exists` answers for presence. -/

namespace IntelliStore.Storage
open Library Metadata

/-- `objects` is what the backend holds: `exists` tells whether a key is among it and changes
nothing, and a `put` that succeeds stores its data. -/
structure StorageBackend.Exact {σ : Type} (backend : StorageBackend σ) (objects : σ → Objects) :
    Prop where
  exists_ : ∀ key b, ((backend.exists_ key b).1 = true ↔ key ∈ objects b) ∧
    objects (backend.exists_ key b).2 = objects b
  put : ∀ key data b b', backend.put key data b = (.ok (), b') →
    objects b' = (objects b).insert key data

theorem minioStorageBackend_exact {faults : Faults} (hstat : ∀ n, faults.stat n = false) :
    (minioStorageBackend faults).Exact Bucket.objects where
  exists_ := fun key b => by
    by_cases hk : key ∈ b.objects <;>
      simp [minioStorageBackend, MinioStorageBackend.exists_, MinioStorageBackend.statObject,
        hk, hstat]
  put := fun key data b b' h => by
    simp only [minioStorageBackend, MinioStorageBackend.put] at h
    cases houtcome : faults.put b.puts with
    | done =>
      rw [houtcome] at h
      cases h
      rfl
    | failed left =>
      rw [houtcome] at h
      cases h

/-- The account of an upload of `buffer` in `pieces` that takes the objects from `old` to
`new`. -/
structure ExactDedup (buffer : Bytes) (pieces : List ChunkPiece) (old new : Objects)
    (newlyWrittenKeys : List String) (dedup : DedupInfo) : Prop where
  keys : ∀ k, k ∈ new ↔ k ∈ old ∨ ∃ p ∈ pieces, p.key = k
  unchanged : ∀ k ∈ old, new.lookup k = old.lookup k
  added : ∀ p ∈ pieces, p.key ∉ old → new.lookup p.key = some p.data
  nodup : newlyWrittenKeys.Nodup
  written : ∀ k, k ∈ newlyWrittenKeys ↔ (∃ p ∈ pieces, p.key = k) ∧ k ∉ old
  total : dedup.totalChunks = pieces.length
  stored : dedup.storedChunks = newlyWrittenKeys.length
  counts : dedup.storedChunks + dedup.dedupedChunks = dedup.totalChunks
  saved : (dedup.bytesSaved : Int) =
    (buffer.length : Int) - (ObjectStore.addedTotal List.length old new : Int)

namespace UploadService

section
variable {σ : Type} {backend : StorageBackend σ} {objects : σ → Objects} {p : ChunkPiece}

theorem storePieces_present (hexact : backend.Exact objects) {b : σ} (hk : p.key ∈ objects b)
    (pieces : List ChunkPiece) (loop : StoreLoop) :
    ∃ b₁, objects b₁ = objects b ∧ storePieces backend (p :: pieces) loop b =
      storePieces backend pieces
        ⟨loop.newlyWrittenKeys, loop.dedupedChunks + 1, loop.bytesSaved + p.sizeBytes⟩ b₁ := by
  obtain ⟨hfound, hsame⟩ := hexact.exists_ p.key b
  refine ⟨(backend.exists_ p.key b).2, hsame, ?_⟩
  rw [storePieces]
  cases hexists : backend.exists_ p.key b with
  | mk found b₁ =>
    rw [hexists] at hfound
    have htrue : found = true := hfound.mpr hk
    simp only [htrue]

theorem storePieces_absent (hexact : backend.Exact objects)
    (hput : ∀ key data b, (backend.put key data b).1 = .ok ()) {b : σ} (hk : p.key ∉ objects b)
    (pieces : List ChunkPiece) (loop : StoreLoop) :
    ∃ b₁, objects b₁ = (objects b).insert p.key p.data ∧
      storePieces backend (p :: pieces) loop b =
        storePieces backend pieces
          ⟨loop.newlyWrittenKeys ++ [p.key], loop.dedupedChunks, loop.bytesSaved⟩ b₁ := by
  obtain ⟨hfound, hsame⟩ := hexact.exists_ p.key b
  rw [storePieces]
  cases hexists : backend.exists_ p.key b with
  | mk found b₁ =>
    rw [hexists] at hfound hsame
    have hfalse : found = false := Bool.eq_false_iff.mpr fun htrue => hk (hfound.mp htrue)
    cases hwrite : backend.put p.key p.data b₁ with
    | mk result b₂ =>
      have hok : result = .ok () := by
        have := hput p.key p.data b₁
        rwa [hwrite] at this
      subst hok
      have hinsert := hexact.put p.key p.data b₁ b₂ hwrite
      rw [hsame] at hinsert
      refine ⟨b₂, hinsert, ?_⟩
      simp only [hfalse, hwrite]

/-- What the loop makes of its variables and of the content on its way over `pieces`. -/
structure Tallied (pieces : List ChunkPiece) (loop loop' : StoreLoop) (old new : Objects) :
    Prop where
  objects : new = old.putAll (entries pieces)
  keys : loop'.newlyWrittenKeys = loop.newlyWrittenKeys ++ old.newKeys (entries pieces)
  counts : loop'.newlyWrittenKeys.length + loop'.dedupedChunks =
    loop.newlyWrittenKeys.length + loop.dedupedChunks + pieces.length
  saved : loop'.bytesSaved + new.total List.length =
    loop.bytesSaved + old.total List.length + (pieces.flatMap ChunkPiece.data).length

/-- The loop, from any variables and any content: every piece is either put, or counted. -/
theorem storePieces_tallied (hexact : backend.Exact objects)
    (hput : ∀ key data b, (backend.put key data b).1 = .ok ()) {pieces : List ChunkPiece}
    (hsize : ∀ p ∈ pieces, p.sizeBytes = p.data.length) (loop : StoreLoop) (b : σ) :
    ∃ loop' b', storePieces backend pieces loop b = (.ok loop', b') ∧
      Tallied pieces loop loop' (objects b) (objects b') := by
  induction pieces generalizing loop b with
  | nil => exact ⟨loop, b, rfl, rfl, (List.append_nil _).symm, rfl, rfl⟩
  | cons p pieces ih =>
    have hrest : ∀ p ∈ pieces, p.sizeBytes = p.data.length := fun q hq =>
      hsize q (List.mem_cons_of_mem _ hq)
    have hlen : p.sizeBytes = p.data.length := hsize p List.mem_cons_self
    by_cases hk : p.key ∈ objects b
    · obtain ⟨b₁, hsame, hstep⟩ := storePieces_present hexact hk pieces loop
      obtain ⟨loop', b', hrun, hobj, hkeys, hcount, hsaved⟩ := ih hrest _ b₁
      rw [hsame] at hobj hkeys hsaved
      refine ⟨loop', b', hstep.trans hrun, ?_⟩
      constructor
      case objects => rw [entries_cons, ObjectStore.putAll_cons, ObjectStore.putNew_of_mem hk, hobj]
      case keys => rw [entries_cons, ObjectStore.newKeys_cons_of_mem hk, hkeys]
      case counts =>
        rw [List.length_cons]
        simp only at hcount
        omega
      case saved =>
        rw [List.flatMap_cons, List.length_append]
        simp only at hsaved
        omega
    · obtain ⟨b₁, hinsert, hstep⟩ := storePieces_absent hexact hput hk pieces loop
      obtain ⟨loop', b', hrun, hobj, hkeys, hcount, hsaved⟩ := ih hrest _ b₁
      rw [hinsert] at hobj hkeys hsaved
      refine ⟨loop', b', hstep.trans hrun, ?_⟩
      constructor
      case objects =>
        rw [entries_cons, ObjectStore.putAll_cons, ObjectStore.putNew_of_notMem hk, hobj]
      case keys =>
        rw [entries_cons, ObjectStore.newKeys_cons_of_notMem hk, hkeys, List.append_assoc]
        rfl
      case counts =>
        rw [List.length_cons]
        simp only [List.length_append, List.length_singleton] at hcount
        omega
      case saved =>
        rw [List.flatMap_cons, List.length_append]
        rw [ObjectStore.total_insert hk] at hsaved
        simp only at hsaved
        omega

end

/-- Where the digests of the pieces do not collide, an added object holds the data of every
piece with its key. -/
theorem lookup_putAll_entries {pieces : List ChunkPiece} {sha256 : Bytes → String} {o : Objects}
    (hinj : Set.InjOn sha256 {x | x ∈ pieces.map ChunkPiece.data})
    (hsum : ∀ p ∈ pieces, p.checksum = sha256 p.data) {p : ChunkPiece} (hp : p ∈ pieces)
    (hk : p.key ∉ o) : (o.putAll (entries pieces)).lookup p.key = some p.data := by
  have hmem : p.key ∈ o.putAll (entries pieces) := by
    rw [ObjectStore.mem_putAll, map_fst_entries]
    exact .inr (List.mem_map_of_mem hp)
  obtain ⟨x, hx⟩ := Finmap.mem_iff.mp hmem
  rcases ObjectStore.lookup_putAll_eq_some hx with hold | hnew
  · exact absurd (Finmap.mem_of_lookup_eq_some hold) hk
  · obtain ⟨q, hq, heq⟩ := List.mem_map.mp hnew
    rw [Prod.mk.injEq] at heq
    obtain ⟨hkey, hdata⟩ := heq
    have hdigest : sha256 q.data = sha256 p.data := by
      rw [← hsum q hq, ← hsum p hp]
      exact chunkKey_inj.mp hkey
    have hsame : q.data = p.data := hinj (List.mem_map_of_mem hq) (List.mem_map_of_mem hp) hdigest
    rw [hx, ← hdata, hsame]

section
variable {σ μ : Type} (svc : UploadService σ μ) {objects : σ → Objects} {buffer : Bytes}

/-- The account of an upload, in terms of its writes. -/
structure Account (buffer : Bytes) (old new : Objects) (stored : StoredChunks) : Prop where
  objects : new = old.putAll (entries (splitIntoChunks svc.sha256 buffer svc.chunkSizeBytes))
  keys : stored.newlyWrittenKeys =
    old.newKeys (entries (splitIntoChunks svc.sha256 buffer svc.chunkSizeBytes))
  total : stored.dedup.totalChunks =
    (splitIntoChunks svc.sha256 buffer svc.chunkSizeBytes).length
  written : stored.dedup.storedChunks = stored.newlyWrittenKeys.length
  counts : stored.dedup.storedChunks + stored.dedup.dedupedChunks = stored.dedup.totalChunks
  saved : stored.dedup.bytesSaved + new.total List.length = old.total List.length + buffer.length

theorem storeChunks_account (hexact : svc.storageBackend.Exact objects)
    (hput : ∀ key data b, (svc.storageBackend.put key data b).1 = .ok ())
    (hbuffer : buffer ≠ []) (mimeType : String) (b : σ) :
    ∃ stored b', svc.storeChunks buffer mimeType b = (.ok stored, b') ∧
      stored.payload = svc.payload mimeType buffer ∧
      svc.Account buffer (objects b) (objects b') stored := by
  obtain ⟨loop, b', hrun, htally⟩ := storePieces_tallied hexact hput
    (fun p hp => (mem_splitIntoChunks hp).1) ⟨[], 0, 0⟩ b
  refine ⟨_, b', svc.storeChunks_of_ok hbuffer mimeType hrun, rfl, ?_⟩
  constructor
  case objects => exact htally.objects
  case keys => exact htally.keys
  case total => rfl
  case written => rfl
  case counts => simpa using htally.counts
  case saved =>
    have hsaved := htally.saved
    rwa [splitIntoChunks_data, Nat.zero_add] at hsaved

/-- The account that `storeChunks` gives of an upload is exact, whatever the backend holds. -/
theorem storeChunks_dedup_exact (hexact : svc.storageBackend.Exact objects)
    (hput : ∀ key data b, (svc.storageBackend.put key data b).1 = .ok ()) (hbuffer : buffer ≠ [])
    (hinj : Set.InjOn svc.sha256 {x | x ∈ (splitIntoChunks svc.sha256 buffer
      svc.chunkSizeBytes).map ChunkPiece.data}) (mimeType : String) (b : σ) :
    ∃ stored b', svc.storeChunks buffer mimeType b = (.ok stored, b') ∧
      ExactDedup buffer (splitIntoChunks svc.sha256 buffer svc.chunkSizeBytes) (objects b)
        (objects b') stored.newlyWrittenKeys stored.dedup := by
  obtain ⟨stored, b', hstored, -, haccount⟩ :=
    svc.storeChunks_account hexact hput hbuffer mimeType b
  have hkeep : ∀ k ∈ objects b, (objects b').lookup k = (objects b).lookup k := by
    intro k hk
    rw [haccount.objects, ObjectStore.lookup_putAll_of_mem hk]
  refine ⟨stored, b', hstored, ?_⟩
  constructor
  case keys =>
    intro k
    rw [haccount.objects, ObjectStore.mem_putAll, map_fst_entries, List.mem_map]
  case unchanged => exact hkeep
  case added =>
    intro p hp hk
    rw [haccount.objects]
    exact lookup_putAll_entries hinj (fun q hq => (mem_splitIntoChunks hq).2.1) hp hk
  case nodup =>
    rw [haccount.keys]
    apply ObjectStore.newKeys_nodup
  case written =>
    intro k
    rw [haccount.keys, ObjectStore.mem_newKeys, map_fst_entries, List.mem_map]
  case total => exact haccount.total
  case stored => exact haccount.written
  case counts => exact haccount.counts
  case saved =>
    have hadded := ObjectStore.total_of_extends hkeep List.length
    have hsaved := haccount.saved
    omega

end

/-- The first and the last piece are equal. -/
theorem storeChunks_dedup_exact_sample :
    let svc := containerUploadService sampleSha256 singleByte .none (sampleGenerated 1) .replied
    ∃ stored b', svc.storeChunks [1, 2, 1] "text/plain" (.ofObjects ∅) = (.ok stored, b') ∧
      ExactDedup [1, 2, 1] (splitIntoChunks sampleSha256 [1, 2, 1] singleByte) ∅ b'.objects
        stored.newlyWrittenKeys stored.dedup :=
  storeChunks_dedup_exact
    (containerUploadService sampleSha256 singleByte .none (sampleGenerated 1) .replied)
    (minioStorageBackend_exact fun _ => rfl) (fun _ _ _ => rfl) (by decide)
    (by
      have hinjective : ∀ x ∈ [[1], [2], [1]], ∀ y ∈ [[1], [2], [1]],
          sampleSha256 x = sampleSha256 y → x = y := by decide
      exact fun x hx y hy => hinjective x hx y hy)
    "text/plain" (.ofObjects ∅)

end UploadService
end IntelliStore.Storage
