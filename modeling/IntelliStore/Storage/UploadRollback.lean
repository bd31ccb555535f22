import IntelliStore.Storage.UploadSpec

/-! What a failed upload leaves behind in a MinIO bucket: the objects it wrote before a
put failed, and, when `statObject` failed, the lack of objects that it did not write. -/

namespace IntelliStore.Storage
open Library Metadata

namespace UploadService

/-- If the upload throws, the bucket holds what it held before and no event was published. -/
def NoTrace {μ α : Type} (res : Except Failure α × ServiceState Bucket μ)
    (s : ServiceState Bucket μ) : Prop :=
  ∀ e, res.1 = .error e →
    res.2.backend.objects = s.backend.objects ∧ res.2.chunkUploads = s.chunkUploads

section
variable {μ : Type} {svc : UploadService Bucket μ} {faults : Faults} {token : BearerToken}
  {target : Target} {mimeType : String} {buffer : Bytes} {s : ServiceState Bucket μ}

theorem noTrace_of_puts_ok (hsvc : svc.storageBackend = minioStorageBackend faults)
    (hstat : ∀ n, faults.stat n = false) (hremove : ∀ key, faults.remove key = .done)
    (hdetail : ∀ result m fileId, target = .newVersion fileId →
      svc.register token target (svc.payload mimeType buffer) s.metadata = (.ok result, m) →
      ∃ detail, svc.metadataClient.getFileDetail token fileId m = .ok detail)
    (hput : ∀ i < (s.backend.objects.newKeys (svc.writes buffer)).length,
      faults.put (s.backend.puts + i) = .done) :
    NoTrace (svc.upload token target mimeType buffer s) s := by
  by_cases hbuffer : buffer = []
  · subst hbuffer
    rw [upload_of_error (storeChunks_empty svc mimeType s.backend)]
    exact fun _ _ => ⟨rfl, rfl⟩
  obtain ⟨stored, b, hstored, hkeys, hpayload, hobj⟩ :=
    storeChunks_ok svc hsvc hstat hbuffer mimeType s.backend hput
  rcases upload_cases (s := s) token target hstored with
    ⟨e, m, -, hup⟩ | ⟨result, m, fileId, ownerId, fileName, -, hup⟩ |
    ⟨result, m, fileId, e, htarget, hreg, hget, -⟩
  · rw [hup, hkeys]
    exact fun _ _ => ⟨rollback svc hsvc hremove hobj, rfl⟩
  · rw [hup]
    exact fun _ h => nomatch h
  · rw [hpayload] at hreg
    obtain ⟨detail, hdet⟩ := hdetail result m fileId htarget hreg
    rw [hget] at hdet
    cases hdet

/-- The put of the `k`-th absent key is the first to fail. -/
theorem noTrace_of_put_fails (hsvc : svc.storageBackend = minioStorageBackend faults)
    (hstat : ∀ n, faults.stat n = false) {k : Nat} {left : Option Bytes}
    (hk : k < (s.backend.objects.newKeys (svc.writes buffer)).length)
    (hput : faults.put (s.backend.puts + k) = .failed left)
    (hbefore : ∀ i < k, faults.put (s.backend.puts + i) = .done) :
    NoTrace (svc.upload token target mimeType buffer s) s ↔ k = 0 ∧ left = none := by
  obtain ⟨b, written, key, hstored, hlen, hkey, hobj⟩ :=
    storeChunks_error svc hsvc hstat mimeType s.backend hk hput hbefore
  rw [upload_of_error hstored]
  constructor
  · intro h
    have hsame : b.objects = s.backend.objects := (h _ rfl).1
    cases left with
    | none =>
      -- the puts before the failing one added a key, which nothing erases
      refine ⟨by_contra fun hne => ?_, rfl⟩
      have hnew : s.backend.objects.newKeys (entries written) ≠ [] := fun hnil =>
        hne (by rw [← hlen, hnil, List.length_nil])
      exact ObjectStore.putAll_ne_self hnew (hobj.symm.trans hsame)
    | some data =>
      -- a part or all of the data stays under a key that was not there
      have hmem : key ∈ b.objects := by
        rw [hobj]
        exact Finmap.mem_insert.mpr (.inl rfl)
      rw [hsame] at hmem
      exact absurd (ObjectStore.mem_putAll.mpr (.inl hmem)) hkey
  · rintro ⟨rfl, rfl⟩
    refine fun _ _ => ⟨?_, rfl⟩
    have hnil := List.length_eq_zero_iff.mp hlen
    have hback := ObjectStore.eraseAll_newKeys s.backend.objects (entries written)
    rw [hnil, ObjectStore.eraseAll_nil] at hback
    exact hobj.trans hback

/-- A failed upload leaves no trace exactly when its first put fails and leaves nothing, or none of
the puts of the absent keys fails. -/
theorem failed_upload_leaves_no_trace_iff
    (hsvc : svc.storageBackend = minioStorageBackend faults)
    (hstat : ∀ n, faults.stat n = false) (hremove : ∀ key, faults.remove key = .done)
    (hdetail : ∀ result m fileId, target = .newVersion fileId →
      svc.register token target (svc.payload mimeType buffer) s.metadata = (.ok result, m) →
      ∃ detail, svc.metadataClient.getFileDetail token fileId m = .ok detail) :
    NoTrace (svc.upload token target mimeType buffer s) s ↔
      faults.put s.backend.puts = .failed none ∨
        ∀ i < (s.backend.objects.absentKeys (svc.writes buffer)).card,
          faults.put (s.backend.puts + i) = .done := by
  rw [← ObjectStore.newKeys_length]
  by_cases hput : ∀ i < (s.backend.objects.newKeys (svc.writes buffer)).length,
      faults.put (s.backend.puts + i) = .done
  · exact iff_of_true (noTrace_of_puts_ok hsvc hstat hremove hdetail hput) (.inr hput)
  · have hfail : ∃ k, k < (s.backend.objects.newKeys (svc.writes buffer)).length ∧
        faults.put (s.backend.puts + k) ≠ .done := by simpa using hput
    obtain ⟨hk, hfirst⟩ := Nat.find_spec hfail
    have hbefore : ∀ i < Nat.find hfail, faults.put (s.backend.puts + i) = .done := fun i hi =>
      by_contra fun hnot => Nat.find_min hfail hi ⟨hi.trans hk, hnot⟩
    cases houtcome : faults.put (s.backend.puts + Nat.find hfail) with
    | done => exact absurd houtcome hfirst
    | failed left =>
      rw [noTrace_of_put_fails hsvc hstat hk houtcome hbefore, or_iff_left hput]
      constructor
      · rintro ⟨hzero, rfl⟩
        rwa [hzero] at houtcome
      · intro hnone
        have hzero : Nat.find hfail = 0 :=
          (Nat.find_eq_zero hfail).mpr
            ⟨(Nat.zero_le _).trans_lt hk, by rw [Nat.add_zero, hnone]; decide⟩
        rw [hzero, Nat.add_zero, hnone] at houtcome
        exact ⟨hzero, (PutOutcome.failed.inj houtcome).symm⟩

end

/-! An upload of two chunks whose second put fails. -/

def sampleState (objects : Objects) : ServiceState Bucket Database :=
  ⟨.ofObjects objects, .empty, [], []⟩

def secondPutFails : Faults :=
  ⟨fun _ => false, fun n => if n = 1 then .failed none else .done, fun _ => .done⟩

theorem failed_put_leaves_first_chunk :
    ¬NoTrace ((containerUploadService sampleSha256 singleByte secondPutFails (sampleGenerated 1)
        .replied).upload 1 (.newFile "a.txt") "text/plain" [1, 2] (sampleState ∅))
      (sampleState ∅) := by
  intro h
  have hkey : chunkKey (sampleSha256 [1]) ∈
      ((containerUploadService sampleSha256 singleByte secondPutFails (sampleGenerated 1)
        .replied).upload 1 (.newFile "a.txt") "text/plain" [1, 2]
          (sampleState ∅)).2.backend.objects := by decide
  rw [(h .library rfl).1] at hkey
  exact Finmap.notMem_empty hkey

theorem failed_upload_leaves_no_trace_iff_refused :
    NoTrace ((containerUploadService sampleSha256 singleByte .none (sampleGenerated 1)
        ⟨.unreachable, .replied, .replied⟩).upload 1 (.newVersion "f") "text/plain" [1, 2]
        (sampleState ∅)) (sampleState ∅) ↔
      Faults.none.put 0 = .failed none ∨ ∀ i < 2, Faults.none.put (0 + i) = .done :=
  failed_upload_leaves_no_trace_iff (s := sampleState ∅) rfl (fun _ => rfl) (fun _ => rfl)
    fun _ _ _ _ h => nomatch h

/-! ### When `statObject` fails -/

theorem removes_eq_false {outcome : RemoveOutcome} :
    outcome.removes = false ↔ outcome = .failed false := by
  cases outcome <;> simp [RemoveOutcome.removes]

theorem exists_getElem?_cons {α : Type*} {a : α} {l : List α} {P : Nat → α → Prop} :
    (∃ i x, (a :: l)[i]? = some x ∧ P i x) ↔ P 0 a ∨ ∃ i x, l[i]? = some x ∧ P (i + 1) x := by
  constructor
  · rintro ⟨i, x, hx, hP⟩
    cases i with
    | zero =>
      rw [List.getElem?_cons_zero, Option.some.injEq] at hx
      exact .inl (hx ▸ hP)
    | succ i => exact .inr ⟨i, x, by rwa [List.getElem?_cons_succ] at hx, hP⟩
  · rintro (hP | ⟨i, x, hx, hP⟩)
    · exact ⟨0, a, List.getElem?_cons_zero, hP⟩
    · exact ⟨i + 1, x, by rwa [List.getElem?_cons_succ], hP⟩

section
variable {μ : Type} {svc : UploadService Bucket μ} {faults : Faults} {token : BearerToken}
  {target : Target} {mimeType : String} {buffer : Bytes} {s : ServiceState Bucket μ}

/-- The loop takes an object that is there for one it wrote, when its `statObject` failed. -/
theorem storePieces_retaken (hput : ∀ n, faults.put n = .done) (pieces : List ChunkPiece)
    (loop : StoreLoop) (b : Bucket) :
    ∃ loop' b' new, storePieces (minioStorageBackend faults) pieces loop b = (.ok loop', b') ∧
      loop'.newlyWrittenKeys = loop.newlyWrittenKeys ++ new ∧
      ∀ key ∈ b.objects, key ∈ b'.objects ∧ (key ∈ new ↔
        ∃ i p, pieces[i]? = some p ∧ p.key = key ∧ faults.stat (b.stats + i) = true) := by
  induction pieces generalizing loop b with
  | nil => exact ⟨loop, b, [], rfl, (List.append_nil _).symm, fun key h => ⟨h, by simp⟩⟩
  | cons p pieces ih =>
    by_cases hfound : p.key ∈ b.objects ∧ faults.stat b.stats = false
    · obtain ⟨loop', b', new, hrun, hkeys, hold⟩ := ih
        ⟨loop.newlyWrittenKeys, loop.dedupedChunks + 1, loop.bytesSaved + p.sizeBytes⟩
        ⟨b.objects, b.stats + 1, b.puts⟩
      refine ⟨loop', b', new, by rw [storePieces_found hfound, hrun], hkeys, fun key h => ?_⟩
      refine ⟨(hold key h).1, (hold key h).2.trans ?_⟩
      rw [exists_getElem?_cons]
      simp only [Nat.add_zero, hfound.2, Bool.false_eq_true, and_false, false_or, Nat.add_assoc,
        Nat.add_comm 1]
    · obtain ⟨loop', b', new, hrun, hkeys, hold⟩ := ih
        ⟨loop.newlyWrittenKeys ++ [p.key], loop.dedupedChunks, loop.bytesSaved⟩
        ⟨b.objects.insert p.key p.data, b.stats + 1, b.puts + 1⟩
      refine ⟨loop', b', p.key :: new, by rw [storePieces_written hfound (hput _), hrun],
        by rw [hkeys, List.append_assoc]; rfl, fun key h => ?_⟩
      obtain ⟨hmem, hnew⟩ := hold key (Finmap.mem_insert.mpr (.inr h))
      refine ⟨hmem, ?_⟩
      rw [List.mem_cons, hnew, exists_getElem?_cons]
      simp only [Nat.add_zero, Nat.add_assoc, Nat.add_comm 1]
      refine or_congr_left ⟨fun he => ⟨he.symm, ?_⟩, fun he => he.1.symm⟩
      simpa [← he, h] using hfound

/-- A rejected upload leaves in the bucket what was there exactly when no `statObject` of a
chunk that is there fails, or the removal of that chunk takes no effect. -/
theorem rejected_upload_keeps_objects_iff
    (hsvc : svc.storageBackend = minioStorageBackend faults) (hput : ∀ n, faults.put n = .done)
    (hbuffer : buffer ≠ [])
    (hreject : ∃ e,
      (svc.register token target (svc.payload mimeType buffer) s.metadata).1 = .error e) :
    (∀ key ∈ s.backend.objects,
        key ∈ (svc.upload token target mimeType buffer s).2.backend.objects) ↔
      ∀ i p, (splitIntoChunks svc.sha256 buffer svc.chunkSizeBytes)[i]? = some p →
        p.key ∈ s.backend.objects →
        faults.stat (s.backend.stats + i) = false ∨ faults.remove p.key = .failed false := by
  obtain ⟨loop, b, new, hrun, hkeys, hold⟩ := storePieces_retaken hput
    (splitIntoChunks svc.sha256 buffer svc.chunkSizeBytes) ⟨[], 0, 0⟩ s.backend
  have hlen : buffer.length ≠ 0 := fun h => hbuffer (List.length_eq_zero_iff.mp h)
  have hstored : ∃ dedup, svc.storeChunks buffer mimeType s.backend =
      (.ok ⟨loop.newlyWrittenKeys, svc.payload mimeType buffer, dedup⟩, b) := by
    simp only [storeChunks, hlen, if_false, hsvc, hrun]
    exact ⟨_, rfl⟩
  obtain ⟨dedup, hstored⟩ := hstored
  obtain ⟨e, hreject⟩ := hreject
  rcases upload_cases (s := s) token target hstored with
    ⟨e, m, -, hup⟩ | ⟨result, m, fileId, ownerId, fileName, hreg, -⟩ |
    ⟨result, m, fileId, e, -, hreg, -⟩
  · rw [hup]
    simp only [hsvc, deleteAll_objects, ObjectStore.mem_eraseAll, List.mem_filter, hkeys,
      List.nil_append]
    constructor
    · intro h i p hp hmem
      -- a chunk taken for absent is among the new keys, and its removal is carried out
      by_contra hno
      rw [not_or, Bool.not_eq_false, ← removes_eq_false, Bool.not_eq_false] at hno
      exact (h p.key hmem).2 ⟨(hold p.key hmem).2.mpr ⟨i, p, hp, rfl, hno.1⟩, hno.2⟩
    · intro h key hmem
      refine ⟨(hold key hmem).1, fun hdel => ?_⟩
      obtain ⟨i, p, hp, rfl, hstat⟩ := (hold key hmem).2.mp hdel.1
      rcases h i p hp hmem with hs | hr
      · rw [hstat] at hs
        cases hs
      · rw [hr] at hdel
        exact absurd hdel.2 (by decide)
  · rw [hreg] at hreject
    cases hreject
  · rw [hreg] at hreject
    cases hreject

end

/-! An upload of a chunk that is stored already, whose `statObject` times out. -/

def storedChunk : Objects := Finmap.singleton (chunkKey (sampleSha256 [1])) [1]

def firstStatFails : Faults := ⟨fun n => n == 0, fun _ => .done, fun _ => .done⟩

theorem failed_stat_loses_stored_chunk :
    ¬∀ key ∈ storedChunk, key ∈ ((containerUploadService sampleSha256 singleByte firstStatFails
      (sampleGenerated 1) ⟨.unreachable, .replied, .replied⟩).upload 1 (.newFile "a.txt")
        "text/plain" [1] (sampleState storedChunk)).2.backend.objects := by
  intro h
  exact absurd (h (chunkKey (sampleSha256 [1])) (by decide)) (by decide)

theorem rejected_upload_keeps_objects_iff_unreachable :
    (∀ key ∈ storedChunk, key ∈ ((containerUploadService sampleSha256 singleByte firstStatFails
        (sampleGenerated 1) ⟨.unreachable, .replied, .replied⟩).upload 1 (.newFile "a.txt")
          "text/plain" [1] (sampleState storedChunk)).2.backend.objects) ↔
      ∀ i p, (splitIntoChunks sampleSha256 [1] singleByte)[i]? = some p → p.key ∈ storedChunk →
        firstStatFails.stat (0 + i) = false ∨ firstStatFails.remove p.key = .failed false :=
  rejected_upload_keeps_objects_iff (s := sampleState storedChunk) rfl (fun _ => rfl) (by decide)
    ⟨_, rfl⟩

end UploadService
end IntelliStore.Storage
