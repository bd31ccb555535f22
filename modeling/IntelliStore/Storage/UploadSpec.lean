import IntelliStore.Storage.UploadService

/-! What `storeChunks` and its cleanup do to a bucket whose `statObject` answers are exact. -/

namespace IntelliStore.Storage
open Library Metadata Postgres

def entries (pieces : List ChunkPiece) : List (String × Bytes) :=
  pieces.map fun p => (p.key, p.data)

@[simp] theorem entries_nil : entries [] = [] := rfl

@[simp] theorem entries_cons (p : ChunkPiece) (pieces : List ChunkPiece) :
    entries (p :: pieces) = (p.key, p.data) :: entries pieces := rfl

theorem map_fst_entries (pieces : List ChunkPiece) :
    (entries pieces).map Prod.fst = pieces.map ChunkPiece.key := by
  rw [entries, List.map_map]
  rfl

namespace UploadService
open MinioStorageBackend (leaving)

section
variable {faults : Faults} {b : Bucket} {p : ChunkPiece} {pieces : List ChunkPiece}
  {loop : StoreLoop}

/-! ### One iteration of the loop -/

theorem storePieces_found (h : p.key ∈ b.objects ∧ faults.stat b.stats = false) :
    storePieces (minioStorageBackend faults) (p :: pieces) loop b =
      storePieces (minioStorageBackend faults) pieces
        ⟨loop.newlyWrittenKeys, loop.dedupedChunks + 1, loop.bytesSaved + p.sizeBytes⟩
        ⟨b.objects, b.stats + 1, b.puts⟩ := by
  simp only [storePieces, minioStorageBackend, MinioStorageBackend.exists_,
    MinioStorageBackend.statObject, h, and_self, if_true]

theorem storePieces_written (h : ¬(p.key ∈ b.objects ∧ faults.stat b.stats = false))
    (hput : faults.put b.puts = .done) :
    storePieces (minioStorageBackend faults) (p :: pieces) loop b =
      storePieces (minioStorageBackend faults) pieces
        ⟨loop.newlyWrittenKeys ++ [p.key], loop.dedupedChunks, loop.bytesSaved⟩
        ⟨b.objects.insert p.key p.data, b.stats + 1, b.puts + 1⟩ := by
  simp only [storePieces, minioStorageBackend, MinioStorageBackend.exists_,
    MinioStorageBackend.statObject, MinioStorageBackend.put, h, hput, if_false]

theorem storePieces_failed (h : ¬(p.key ∈ b.objects ∧ faults.stat b.stats = false))
    {left : Option Bytes} (hput : faults.put b.puts = .failed left) :
    storePieces (minioStorageBackend faults) (p :: pieces) loop b =
      (.error .library, ⟨leaving b.objects p.key left, b.stats + 1, b.puts + 1⟩) := by
  simp only [storePieces, minioStorageBackend, MinioStorageBackend.exists_,
    MinioStorageBackend.statObject, MinioStorageBackend.put, h, hput, if_false]

/-! ### The loop, when `statObject` is exact -/

/-- No put fails: every absent key is written. -/
theorem storePieces_ok (hstat : ∀ n, faults.stat n = false) (pieces : List ChunkPiece)
    (loop : StoreLoop) (b : Bucket)
    (hput : ∀ i < (b.objects.newKeys (entries pieces)).length, faults.put (b.puts + i) = .done) :
    ∃ loop' b', storePieces (minioStorageBackend faults) pieces loop b = (.ok loop', b') ∧
      loop'.newlyWrittenKeys = loop.newlyWrittenKeys ++ b.objects.newKeys (entries pieces) ∧
      b'.objects = b.objects.putAll (entries pieces) := by
  induction pieces generalizing loop b with
  | nil => exact ⟨loop, b, rfl, (List.append_nil _).symm, rfl⟩
  | cons p pieces ih =>
    simp only [entries_cons] at hput ⊢
    by_cases hk : p.key ∈ b.objects
    · rw [ObjectStore.newKeys_cons_of_mem hk] at hput ⊢
      rw [ObjectStore.putAll_cons, ObjectStore.putNew_of_mem hk, storePieces_found ⟨hk, hstat _⟩]
      exact ih _ ⟨b.objects, b.stats + 1, b.puts⟩ hput
    · rw [ObjectStore.newKeys_cons_of_notMem hk] at hput ⊢
      rw [ObjectStore.putAll_cons, ObjectStore.putNew_of_notMem hk,
        storePieces_written (fun h => hk h.1) (hput 0 (Nat.succ_pos _))]
      obtain ⟨loop', b', hrun, hkeys, hobj⟩ := ih
        ⟨loop.newlyWrittenKeys ++ [p.key], loop.dedupedChunks, loop.bytesSaved⟩
        ⟨b.objects.insert p.key p.data, b.stats + 1, b.puts + 1⟩ fun i hi => by
          rw [Nat.add_assoc, Nat.add_comm 1]
          exact hput (i + 1) (Nat.succ_lt_succ hi)
      exact ⟨loop', b', hrun, by rw [hkeys, List.append_assoc]; rfl, hobj⟩

/-- The put of the `k`-th absent key is the first to fail: what was written before stays, and so
does what that put leaves under a key that was not there. -/
theorem storePieces_error (hstat : ∀ n, faults.stat n = false) (pieces : List ChunkPiece)
    (loop : StoreLoop) (b : Bucket) {k : Nat} {left : Option Bytes}
    (hk : k < (b.objects.newKeys (entries pieces)).length)
    (hput : faults.put (b.puts + k) = .failed left)
    (hbefore : ∀ i < k, faults.put (b.puts + i) = .done) :
    ∃ b' written key, storePieces (minioStorageBackend faults) pieces loop b =
        (.error .library, b') ∧ (b.objects.newKeys (entries written)).length = k ∧
      key ∉ b.objects.putAll (entries written) ∧
      b'.objects = leaving (b.objects.putAll (entries written)) key left := by
  induction pieces generalizing loop b k with
  | nil => cases hk
  | cons p pieces ih =>
    simp only [entries_cons] at hk
    by_cases hp : p.key ∈ b.objects
    · rw [ObjectStore.newKeys_cons_of_mem hp] at hk
      rw [storePieces_found ⟨hp, hstat _⟩]
      obtain ⟨b', written, key, hrun, hlen, hkey, hobj⟩ := ih
        ⟨loop.newlyWrittenKeys, loop.dedupedChunks + 1, loop.bytesSaved + p.sizeBytes⟩
        ⟨b.objects, b.stats + 1, b.puts⟩ hk hput hbefore
      have hsame : b.objects.putAll (entries (p :: written)) =
          b.objects.putAll (entries written) := by
        rw [entries_cons, ObjectStore.putAll_cons, ObjectStore.putNew_of_mem hp]
      refine ⟨b', p :: written, key, hrun, ?_, by rwa [hsame], by rwa [hsame]⟩
      rw [entries_cons, ObjectStore.newKeys_cons_of_mem hp, hlen]
    · rw [ObjectStore.newKeys_cons_of_notMem hp, List.length_cons] at hk
      cases k with
      | zero =>
        rw [storePieces_failed (fun h => hp h.1) hput]
        exact ⟨_, [], p.key, rfl, rfl, hp, rfl⟩
      | succ k =>
        rw [storePieces_written (fun h => hp h.1) (hbefore 0 (Nat.succ_pos k))]
        -- this put is behind, so the numbers of the others shift by one
        have hshift : ∀ i, b.puts + 1 + i = b.puts + (i + 1) := fun i => by omega
        obtain ⟨b', written, key, hrun, hlen, hkey, hobj⟩ := ih
          ⟨loop.newlyWrittenKeys ++ [p.key], loop.dedupedChunks, loop.bytesSaved⟩
          ⟨b.objects.insert p.key p.data, b.stats + 1, b.puts + 1⟩ (Nat.lt_of_succ_lt_succ hk)
          (by rw [hshift]; exact hput) fun i hi => by
            rw [hshift]; exact hbefore (i + 1) (Nat.succ_lt_succ hi)
        have hwritten : b.objects.putAll (entries (p :: written)) =
            ObjectStore.putAll (b.objects.insert p.key p.data) (entries written) := by
          rw [entries_cons, ObjectStore.putAll_cons, ObjectStore.putNew_of_notMem hp]
        refine ⟨b', p :: written, key, hrun, ?_, by rwa [hwritten], by rwa [hwritten]⟩
        rw [entries_cons, ObjectStore.newKeys_cons_of_notMem hp, List.length_cons, hlen]

theorem delete_objects (key : String) (b : Bucket) :
    ((minioStorageBackend faults).delete key b).2.objects =
      if (faults.remove key).removes then b.objects.erase key else b.objects := by
  simp only [minioStorageBackend, MinioStorageBackend.delete]
  cases faults.remove key with
  | done => rfl
  | failed removed => exact apply_ite Bucket.objects _ _ _

/-- The objects that go are those whose removal is carried out. -/
theorem deleteAll_objects (keys : List String) (b : Bucket) :
    (deleteAll (minioStorageBackend faults) keys b).objects =
      b.objects.eraseAll (keys.filter fun key => (faults.remove key).removes) := by
  induction keys generalizing b with
  | nil => rfl
  | cons key keys ih =>
    rw [deleteAll, List.foldl_cons, ← deleteAll, ih, delete_objects, List.filter_cons]
    split_ifs
    · rw [ObjectStore.eraseAll_cons]
    · rfl

end

/-! ### One upload, up to its registration -/

section
variable {μ : Type} (svc : UploadService Bucket μ) {faults : Faults} {buffer : Bytes}

/-- What the upload writes, in the order of its pieces. -/
def writes (buffer : Bytes) : List (String × Bytes) :=
  entries (splitIntoChunks svc.sha256 buffer svc.chunkSizeBytes)

theorem storeChunks_empty (mimeType : String) (b : Bucket) :
    svc.storeChunks [] mimeType b =
      (.error (.app (.badRequest "Cannot upload an empty file")), b) := rfl

theorem storeChunks_of_ok {σ : Type} (svc : UploadService σ μ) (hbuffer : buffer ≠ [])
    (mimeType : String) {b b' : σ}
    {loop : StoreLoop} (hrun : storePieces svc.storageBackend
      (splitIntoChunks svc.sha256 buffer svc.chunkSizeBytes) ⟨[], 0, 0⟩ b = (.ok loop, b')) :
    svc.storeChunks buffer mimeType b =
      (.ok ⟨loop.newlyWrittenKeys, svc.payload mimeType buffer,
        ⟨(splitIntoChunks svc.sha256 buffer svc.chunkSizeBytes).length,
          loop.newlyWrittenKeys.length, loop.dedupedChunks, loop.bytesSaved⟩⟩, b') := by
  have hlen : buffer.length ≠ 0 := fun h => hbuffer (List.length_eq_zero_iff.mp h)
  simp only [storeChunks, hlen, if_false, hrun]

theorem storeChunks_ok (hsvc : svc.storageBackend = minioStorageBackend faults)
    (hstat : ∀ n, faults.stat n = false) (hbuffer : buffer ≠ []) (mimeType : String) (b : Bucket)
    (hput : ∀ i < (b.objects.newKeys (svc.writes buffer)).length, faults.put (b.puts + i) = .done) :
    ∃ stored b', svc.storeChunks buffer mimeType b = (.ok stored, b') ∧
      stored.newlyWrittenKeys = b.objects.newKeys (svc.writes buffer) ∧
      stored.payload = svc.payload mimeType buffer ∧
      b'.objects = b.objects.putAll (svc.writes buffer) := by
  obtain ⟨loop, b', hrun, hkeys, hobj⟩ := storePieces_ok hstat _ ⟨[], 0, 0⟩ b hput
  rw [← hsvc] at hrun
  exact ⟨_, b', svc.storeChunks_of_ok hbuffer mimeType hrun, hkeys, rfl, hobj⟩

theorem storeChunks_error (hsvc : svc.storageBackend = minioStorageBackend faults)
    (hstat : ∀ n, faults.stat n = false) (mimeType : String) (b : Bucket) {k : Nat}
    {left : Option Bytes} (hk : k < (b.objects.newKeys (svc.writes buffer)).length)
    (hput : faults.put (b.puts + k) = .failed left)
    (hbefore : ∀ i < k, faults.put (b.puts + i) = .done) :
    ∃ b' written key, svc.storeChunks buffer mimeType b = (.error .library, b') ∧
      (b.objects.newKeys (entries written)).length = k ∧
      key ∉ b.objects.putAll (entries written) ∧
      b'.objects = leaving (b.objects.putAll (entries written)) key left := by
  obtain ⟨b', written, key, hrun, hlen, hkey, hobj⟩ :=
    storePieces_error hstat _ ⟨[], 0, 0⟩ b hk hput hbefore
  have hbuffer : buffer.length ≠ 0 := fun h => by
    rw [List.length_eq_zero_iff.mp h] at hk
    exact absurd hk (Nat.not_lt_zero k)
  refine ⟨b', written, key, ?_, hlen, hkey, hobj⟩
  simp only [storeChunks, hbuffer, if_false, hsvc, hrun]

/-- The chunks of the payload amount to the buffer. -/
theorem payload_sizes (mimeType : String) (buffer : Bytes) :
    ((svc.payload mimeType buffer).chunks.map ChunkInput.sizeBytes).sum = buffer.length := by
  have hsizes : (svc.payload mimeType buffer).chunks.map ChunkInput.sizeBytes =
      (splitIntoChunks svc.sha256 buffer svc.chunkSizeBytes).map fun p => p.data.length := by
    rw [payload, List.map_map]
    exact List.map_congr_left fun p hp => (mem_splitIntoChunks hp).1
  rw [hsizes, ← List.length_flatMap, splitIntoChunks_data]

/-- A rejected registration is rolled back to what the bucket held before the upload. -/
theorem rollback (hsvc : svc.storageBackend = minioStorageBackend faults)
    (hremove : ∀ key, faults.remove key = .done) {o : Objects} {xs : List (String × Bytes)}
    {b : Bucket} (hb : b.objects = o.putAll xs) :
    (deleteAll svc.storageBackend (o.newKeys xs) b).objects = o := by
  have hall : (o.newKeys xs).filter (fun key => (faults.remove key).removes) = o.newKeys xs :=
    List.filter_eq_self.mpr fun key _ => by rw [hremove]; rfl
  rw [hsvc, deleteAll_objects, hall, hb, ObjectStore.eraseAll_newKeys]

end

/-! ### The whole upload -/

section
variable {σ μ : Type} {svc : UploadService σ μ} {token : BearerToken} {target : Target}
  {mimeType : String} {buffer : Bytes} {s : ServiceState σ μ}

theorem upload_of_error {e : Failure} {b : σ}
    (h : svc.storeChunks buffer mimeType s.backend = (.error e, b)) :
    svc.upload token target mimeType buffer s = (.error e, { s with backend := b }) := by
  cases target with
  | newFile fileName => simp only [upload, uploadNewFile, h, Except.map]
  | newVersion fileId => simp only [upload, uploadNewVersion, h]

/-- Once its chunks are stored, an upload is refused and cleaned up, succeeds, or fails to
read back the file of the version it registered. -/
theorem upload_cases (token : BearerToken) (target : Target) {stored : StoredChunks} {b : σ}
    (h : svc.storeChunks buffer mimeType s.backend = (.ok stored, b)) :
    (∃ e m, svc.register token target stored.payload s.metadata = (.error e, m) ∧
      svc.upload token target mimeType buffer s = (.error e, { s with
        metadata := m, backend := deleteAll svc.storageBackend stored.newlyWrittenKeys b })) ∨
    (∃ result m fileId ownerId fileName,
      svc.register token target stored.payload s.metadata = (.ok result, m) ∧
      svc.upload token target mimeType buffer s = (.ok ⟨result, stored.dedup⟩,
        publishChunkUploaded fileId ownerId fileName result
          { s with metadata := m, backend := b })) ∨
    (∃ result m fileId e, target = .newVersion fileId ∧
      svc.register token target stored.payload s.metadata = (.ok result, m) ∧
      svc.metadataClient.getFileDetail token fileId m = .error e ∧
      svc.upload token target mimeType buffer s =
        (.error e, { s with metadata := m, backend := b })) := by
  cases target with
  | newFile fileName =>
    cases hr : svc.metadataClient.registerFile token ⟨stored.payload, fileName⟩ s.metadata with
    | mk result m =>
      cases result with
      | error e =>
        refine .inl ⟨e, m, by simp only [register, hr, Except.map], ?_⟩
        simp only [upload, uploadNewFile, registerWithCleanup, h, hr, Except.map]
      | ok result =>
        refine .inr (.inl ⟨result.toVersionDetail, m, uuidOut result.file.id, result.file.ownerId,
          result.file.fileName, by simp only [register, hr, Except.map], ?_⟩)
        simp only [upload, uploadNewFile, registerWithCleanup, h, hr, Except.map]
  | newVersion fileId =>
    cases hr : svc.metadataClient.addVersion token fileId stored.payload s.metadata with
    | mk result m =>
      cases result with
      | error e =>
        refine .inl ⟨e, m, hr, ?_⟩
        simp only [upload, uploadNewVersion, registerWithCleanup, h, hr]
      | ok result =>
        cases hd : svc.metadataClient.getFileDetail token fileId m with
        | error e =>
          refine .inr (.inr ⟨result, m, fileId, e, rfl, hr, hd, ?_⟩)
          simp only [upload, uploadNewVersion, registerWithCleanup, h, hr, hd]
        | ok detail =>
          refine .inr (.inl ⟨result, m, fileId, detail.file.ownerId, detail.file.fileName, hr, ?_⟩)
          simp only [upload, uploadNewVersion, registerWithCleanup, h, hr, hd]

end

end UploadService
end IntelliStore.Storage
