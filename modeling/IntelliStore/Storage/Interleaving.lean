import IntelliStore.Library.Runs
import IntelliStore.Storage.UploadSpec

/-! Concurrent uploads, one remote call at a time. The chunks of an upload are safe as long as
no cleanup of another one deletes an object it has found or put. -/

namespace IntelliStore.Storage.Interleaving
open Library

/-- What an upload does next. Its deletes are issued together and land in any order. -/
inductive Phase where
  | checking (rest : List ChunkPiece)
  | putting (piece : ChunkPiece) (rest : List ChunkPiece)
  | cleaning (pending : List String)
  | finished
  deriving DecidableEq

structure UploadProcess where
  stored : List ChunkPiece
  newlyWrittenKeys : List String
  phase : Phase
  deriving DecidableEq

/-- `committed` holds the chunk list of every committed version. -/
structure State where
  objects : Objects
  committed : List (List String)
  uploads : List UploadProcess

def State.init : State := ⟨∅, [], []⟩

inductive Action where
  | start (buffer : Bytes) (chunkSizeBytes : ℕ+)
  | check (i : Nat)
  | put (i : Nat)
  | commit (i : Nat)
  | reject (i : Nat)
  | delete (i : Nat) (key : String)

def step (sha256 : Bytes → String) (s : State) : Action → Option State
  | .start buffer c =>
    if buffer.length = 0 then none
    else some { s with
      uploads := s.uploads ++ [⟨[], [], .checking (splitIntoChunks sha256 buffer c)⟩] }
  | .check i =>
    match s.uploads[i]? with
    | some ⟨stored, keys, .checking (piece :: rest)⟩ =>
      if piece.key ∈ s.objects then
        some { s with uploads := s.uploads.set i ⟨stored ++ [piece], keys, .checking rest⟩ }
      else some { s with uploads := s.uploads.set i ⟨stored, keys, .putting piece rest⟩ }
    | _ => none
  | .put i =>
    match s.uploads[i]? with
    | some ⟨stored, keys, .putting piece rest⟩ => some { s with
        objects := s.objects.insert piece.key piece.data
        uploads := s.uploads.set i ⟨stored ++ [piece], keys ++ [piece.key], .checking rest⟩ }
    | _ => none
  -- metadata-service answers once the loop is done
  | .commit i =>
    match s.uploads[i]? with
    | some ⟨stored, keys, .checking []⟩ => some { s with
        committed := s.committed ++ [stored.map ChunkPiece.key]
        uploads := s.uploads.set i ⟨stored, keys, .finished⟩ }
    | _ => none
  | .reject i =>
    match s.uploads[i]? with
    | some ⟨stored, keys, .checking []⟩ =>
      some { s with uploads := s.uploads.set i ⟨stored, keys, .cleaning keys⟩ }
    | _ => none
  | .delete i key =>
    match s.uploads[i]? with
    | some ⟨stored, keys, .cleaning pending⟩ =>
      if key ∈ pending then some { s with
        objects := s.objects.erase key
        uploads := s.uploads.set i ⟨stored, keys, .cleaning (pending.erase key)⟩ }
      else none
    | _ => none

/-- Every storage key in the chunk list of a committed version is present. -/
def NoChunkLost (s : State) : Prop := ∀ keys ∈ s.committed, ∀ key ∈ keys, key ∈ s.objects

instance (s : State) : Decidable (NoChunkLost s) :=
  inferInstanceAs (Decidable (∀ keys ∈ s.committed, ∀ key ∈ keys, key ∈ s.objects))

/-- The keys an upload in progress has found present or put. -/
def UploadProcess.relied (p : UploadProcess) : List String :=
  match p.phase with
  | .checking _ | .putting _ _ => p.stored.map ChunkPiece.key
  | .cleaning _ | .finished => []

/-- No cleanup deletes a key that a committed version lists or another upload relies on. -/
def Unshared (s : State) : Action → Prop
  | .delete i key => (∀ keys ∈ s.committed, key ∉ keys) ∧
      ∀ j < s.uploads.length, j ≠ i → ∀ p ∈ s.uploads[j]?, key ∉ p.relied
  | _ => True

instance (s : State) (a : Action) : Decidable (Unshared s a) :=
  match a with
  | .delete i key => inferInstanceAs (Decidable ((∀ keys ∈ s.committed, key ∉ keys) ∧
      ∀ j < s.uploads.length, j ≠ i → ∀ p ∈ s.uploads[j]?, key ∉ p.relied))
  | .start _ _ | .check _ | .put _ | .commit _ | .reject _ => inferInstanceAs (Decidable True)

variable {sha256 : Bytes → String}

/-! ### What one action can do -/

theorem step_check {s s' : State} {i : Nat} (h : step sha256 s (.check i) = some s') :
    ∃ stored keys piece rest, s.uploads[i]? = some ⟨stored, keys, .checking (piece :: rest)⟩ ∧
      ((piece.key ∈ s.objects ∧
          s' = { s with uploads := s.uploads.set i ⟨stored ++ [piece], keys, .checking rest⟩ }) ∨
        (piece.key ∉ s.objects ∧
          s' = { s with uploads := s.uploads.set i ⟨stored, keys, .putting piece rest⟩ })) := by
  simp only [step] at h
  split at h
  · rename_i stored keys piece rest hp
    refine ⟨stored, keys, piece, rest, hp, ?_⟩
    split_ifs at h with hk
    · exact .inl ⟨hk, (Option.some.inj h).symm⟩
    · exact .inr ⟨hk, (Option.some.inj h).symm⟩
  · cases h

theorem step_put {s s' : State} {i : Nat} (h : step sha256 s (.put i) = some s') :
    ∃ stored keys piece rest, s.uploads[i]? = some ⟨stored, keys, .putting piece rest⟩ ∧
      s' = { s with
        objects := s.objects.insert piece.key piece.data
        uploads := s.uploads.set i
          ⟨stored ++ [piece], keys ++ [piece.key], .checking rest⟩ } := by
  simp only [step] at h
  split at h
  · rename_i stored keys piece rest hp
    exact ⟨stored, keys, piece, rest, hp, (Option.some.inj h).symm⟩
  · cases h

theorem step_commit {s s' : State} {i : Nat} (h : step sha256 s (.commit i) = some s') :
    ∃ stored keys, s.uploads[i]? = some ⟨stored, keys, .checking []⟩ ∧
      s' = { s with
        committed := s.committed ++ [stored.map ChunkPiece.key]
        uploads := s.uploads.set i ⟨stored, keys, .finished⟩ } := by
  simp only [step] at h
  split at h
  · rename_i stored keys hp
    exact ⟨stored, keys, hp, (Option.some.inj h).symm⟩
  · cases h

theorem step_reject {s s' : State} {i : Nat} (h : step sha256 s (.reject i) = some s') :
    ∃ stored keys, s.uploads[i]? = some ⟨stored, keys, .checking []⟩ ∧
      s' = { s with uploads := s.uploads.set i ⟨stored, keys, .cleaning keys⟩ } := by
  simp only [step] at h
  split at h
  · rename_i stored keys hp
    exact ⟨stored, keys, hp, (Option.some.inj h).symm⟩
  · cases h

theorem step_delete {s s' : State} {i : Nat} {key : String}
    (h : step sha256 s (.delete i key) = some s') :
    ∃ stored keys pending, s.uploads[i]? = some ⟨stored, keys, .cleaning pending⟩ ∧
      key ∈ pending ∧ s' = { s with
        objects := s.objects.erase key
        uploads := s.uploads.set i ⟨stored, keys, .cleaning (pending.erase key)⟩ } := by
  simp only [step] at h
  split at h
  · rename_i stored keys pending hp
    split_ifs at h with hk
    exact ⟨stored, keys, pending, hp, hk, (Option.some.inj h).symm⟩
  · cases h

/-! ### The invariant -/

structure Safe (s : State) : Prop where
  committed : NoChunkLost s
  relied : ∀ (j : Nat) (p : UploadProcess), s.uploads[j]? = some p →
    ∀ key ∈ p.relied, key ∈ s.objects

theorem mem_relied_concat {stored rest : List ChunkPiece} {keys : List String} {piece : ChunkPiece}
    {key : String} :
    key ∈ UploadProcess.relied ⟨stored ++ [piece], keys, .checking rest⟩ ↔
      key ∈ stored.map ChunkPiece.key ∨ key = piece.key := by
  rw [UploadProcess.relied, List.map_append, List.mem_append, List.map_singleton,
    List.mem_singleton]

/-- One upload moves to `p`; what the others rely on is there still. -/
theorem Safe.set {s : State} {objects : Objects} {committed : List (List String)} {i : Nat}
    {p : UploadProcess} (hcommitted : ∀ keys ∈ committed, ∀ key ∈ keys, key ∈ objects)
    (hp : ∀ key ∈ p.relied, key ∈ objects)
    (hothers : ∀ j q, j ≠ i → s.uploads[j]? = some q → ∀ key ∈ q.relied, key ∈ objects) :
    Safe ⟨objects, committed, s.uploads.set i p⟩ := by
  refine ⟨hcommitted, fun j q hq => ?_⟩
  rw [List.getElem?_set] at hq
  split_ifs at hq with hi hlt
  · cases hq
    exact hp
  · exact hothers j q (Ne.symm hi) hq

theorem Safe.step {s s' : State} {a : Action} (h : Safe s) (hg : Unshared s a)
    (hs : step sha256 s a = some s') : Safe s' := by
  cases a with
  | start buffer c =>
    simp only [Interleaving.step] at hs
    split_ifs at hs
    cases hs
    refine ⟨h.committed, fun j p hp => ?_⟩
    rw [List.getElem?_append] at hp
    split_ifs at hp with hj
    · exact h.relied j p hp
    · rw [List.getElem?_singleton] at hp
      split_ifs at hp
      cases hp
      exact fun key hkey => by cases hkey
  | check i =>
    obtain ⟨stored, keys, piece, rest, hp, ⟨hk, rfl⟩ | ⟨-, rfl⟩⟩ := step_check hs
    · refine .set h.committed (fun key hkey => ?_) fun j q _ => h.relied j q
      rcases mem_relied_concat.mp hkey with hold | rfl
      · exact h.relied i _ hp key hold
      · exact hk
    · exact .set h.committed (fun key hkey => h.relied i _ hp key hkey) fun j q _ => h.relied j q
  | put i =>
    obtain ⟨stored, keys, piece, rest, hp, rfl⟩ := step_put hs
    have hgrow : ∀ key ∈ s.objects, key ∈ s.objects.insert piece.key piece.data :=
      fun key hkey => Finmap.mem_insert.mpr (.inr hkey)
    refine .set (fun keys hkeys key hkey => hgrow _ (h.committed keys hkeys key hkey))
      (fun key hkey => ?_) fun j q _ hq key hkey => hgrow _ (h.relied j q hq key hkey)
    rcases mem_relied_concat.mp hkey with hold | rfl
    · exact hgrow _ (h.relied i _ hp key hold)
    · exact Finmap.mem_insert.mpr (.inl rfl)
  | commit i =>
    obtain ⟨stored, keys, hp, rfl⟩ := step_commit hs
    have hcommitted : ∀ key ∈ stored.map ChunkPiece.key, key ∈ s.objects := h.relied i _ hp
    exact .set (List.forall_mem_append.mpr ⟨h.committed, List.forall_mem_singleton.mpr hcommitted⟩)
      (fun key hkey => by cases hkey) fun j q _ => h.relied j q
  | reject i =>
    obtain ⟨stored, keys, hp, rfl⟩ := step_reject hs
    exact .set h.committed (fun key hkey => by cases hkey) fun j q _ => h.relied j q
  -- the one action that removes an object; its guard keeps the key out of every list
  | delete i key =>
    obtain ⟨stored, keys, pending, hp, -, rfl⟩ := step_delete hs
    have hkeep : ∀ k ∈ s.objects, k ≠ key → k ∈ s.objects.erase key :=
      fun k hk hne => Finmap.mem_erase.mpr ⟨hne, hk⟩
    refine .set (fun keys hkeys k hk => ?_) (fun k hk => by cases hk) fun j q hj hq k hk => ?_
    · exact hkeep k (h.committed keys hkeys k hk) fun he => hg.1 keys hkeys (he ▸ hk)
    · have hlt : j < s.uploads.length := (List.getElem?_eq_some_iff.mp hq).1
      exact hkeep k (h.relied j q hq k hk) fun he => hg.2 j hlt hj q hq (he ▸ hk)

theorem Safe.init : Safe .init where
  committed := fun keys hkeys => by cases hkeys
  relied := fun j p hp => by cases hp

/-- No committed version loses a chunk in a run without deletes of shared keys. -/
theorem no_chunk_lost {s : State} (h : Reach (step sha256) Unshared .init s) : NoChunkLost s := by
  have hsafe : Safe s := h.invariant Safe Safe.init fun _ _ _ ht hg hs => ht.step hg hs
  exact hsafe.committed

/-! ### One upload alone -/

theorem set_self {s : State} {i : Nat} {p : UploadProcess} (hp : s.uploads[i]? = some p) :
    s.uploads.set i p = s.uploads := by
  obtain ⟨hlt, rfl⟩ := List.getElem?_eq_some_iff.mp hp
  exact List.set_getElem_self hlt

theorem getElem?_set_self {s : State} {i : Nat} {p q : UploadProcess}
    (hp : s.uploads[i]? = some p) : (s.uploads.set i q)[i]? = some q := by
  rw [List.getElem?_set, if_pos rfl, if_pos (List.getElem?_eq_some_iff.mp hp).1]

/-- Undisturbed, its checks and puts do what the loop of `storeChunks` does. -/
theorem reach_storePieces (sha256 : Bytes → String) (i : Nat) (pieces stored : List ChunkPiece)
    (loop : StoreLoop) (b : Bucket) {s : State} (hb : b.objects = s.objects)
    (hp : s.uploads[i]? = some ⟨stored, loop.newlyWrittenKeys, .checking pieces⟩) :
    ∃ loop' b', UploadService.storePieces (minioStorageBackend .none) pieces loop b =
        (.ok loop', b') ∧
      Reach (step sha256) (fun _ a => a = .check i ∨ a = .put i) s { s with
        objects := b'.objects
        uploads := s.uploads.set i
          ⟨stored ++ pieces, loop'.newlyWrittenKeys, .checking []⟩ } := by
  induction pieces generalizing stored loop b s with
  | nil =>
    refine ⟨loop, b, rfl, ?_⟩
    rw [List.append_nil, set_self hp, hb]
    exact .refl
  | cons piece pieces ih =>
    by_cases hk : piece.key ∈ s.objects
    · obtain ⟨loop', b', hrun, hreach⟩ := ih (stored ++ [piece])
        ⟨loop.newlyWrittenKeys, loop.dedupedChunks + 1, loop.bytesSaved + piece.sizeBytes⟩
        ⟨b.objects, b.stats + 1, b.puts⟩
        (s := ⟨s.objects, s.committed, s.uploads.set i
          ⟨stored ++ [piece], loop.newlyWrittenKeys, .checking pieces⟩⟩)
        hb (getElem?_set_self hp)
      rw [List.set_set, List.append_assoc] at hreach
      refine ⟨loop', b', ?_, (Reach.tail (.check i) .refl (.inl rfl) ?_).trans hreach⟩
      · rw [UploadService.storePieces_found ⟨hb ▸ hk, rfl⟩, hrun]
      · simp only [step, hp, hk, if_true]
    · have hcheck : step sha256 s (.check i) = some ⟨s.objects, s.committed, s.uploads.set i
          ⟨stored, loop.newlyWrittenKeys, .putting piece pieces⟩⟩ := by
        simp only [step, hp, hk, if_false]
      have hput : step sha256 ⟨s.objects, s.committed, s.uploads.set i
            ⟨stored, loop.newlyWrittenKeys, .putting piece pieces⟩⟩ (.put i) =
          some ⟨s.objects.insert piece.key piece.data, s.committed, s.uploads.set i
            ⟨stored ++ [piece], loop.newlyWrittenKeys ++ [piece.key], .checking pieces⟩⟩ := by
        simp only [step, getElem?_set_self hp, List.set_set]
      obtain ⟨loop', b', hrun, hreach⟩ := ih (stored ++ [piece])
        ⟨loop.newlyWrittenKeys ++ [piece.key], loop.dedupedChunks, loop.bytesSaved⟩
        ⟨b.objects.insert piece.key piece.data, b.stats + 1, b.puts + 1⟩
        (s := ⟨s.objects.insert piece.key piece.data, s.committed, s.uploads.set i
          ⟨stored ++ [piece], loop.newlyWrittenKeys ++ [piece.key], .checking pieces⟩⟩)
        (by rw [hb]) (getElem?_set_self hp)
      rw [List.set_set, List.append_assoc] at hreach
      refine ⟨loop', b', ?_, Reach.trans ?_ hreach⟩
      · rw [UploadService.storePieces_written (fun h => hk (hb ▸ h.1)) rfl, hrun]
      · exact (Reach.tail (.check i) .refl (.inl rfl) hcheck).tail (.put i) (.inr rfl) hput

/-- Undisturbed, its deletes do what the cleanup of `registerWithCleanup` does. -/
theorem reach_deleteAll (sha256 : Bytes → String) (i : Nat) (stored : List ChunkPiece)
    (keys pending : List String) (b : Bucket) {s : State} (hb : b.objects = s.objects)
    (hp : s.uploads[i]? = some ⟨stored, keys, .cleaning pending⟩) :
    Reach (step sha256) (fun _ a => ∃ key, a = .delete i key) s { s with
      objects := (UploadService.deleteAll (minioStorageBackend .none) pending b).objects
      uploads := s.uploads.set i ⟨stored, keys, .cleaning []⟩ } := by
  induction pending generalizing b s with
  | nil =>
    rw [set_self hp, UploadService.deleteAll, List.foldl_nil, hb]
    exact .refl
  | cons key pending ih =>
    have hreach := ih ⟨b.objects.erase key, b.stats, b.puts⟩
      (s := { s with
        objects := s.objects.erase key
        uploads := s.uploads.set i ⟨stored, keys, .cleaning pending⟩ })
      (by rw [hb]) (getElem?_set_self hp)
    rw [List.set_set] at hreach
    refine (Reach.tail (.delete i key) .refl ⟨key, rfl⟩ ?_).trans hreach
    simp only [step, hp, List.mem_cons_self, if_true, List.erase_cons_head]

/-! Two uploads of one byte. In the first schedule the second relies on the object of the
first, which is rejected after that; in the other one the first is cleaned up before. -/

def sharedKey : String := chunkKey (sampleSha256 [1])

def racingSchedule : List Action :=
  [.start [1] singleByte, .start [1] singleByte, .check 0, .put 0, .check 1, .reject 0, .commit 1,
    .delete 0 sharedKey]

def separateSchedule : List Action :=
  [.start [1] singleByte, .check 0, .put 0, .reject 0, .delete 0 sharedKey, .start [1] singleByte,
    .check 1, .put 1, .commit 1]

theorem chunk_lost_by_cleanup :
    ∃ s, Reach (step sampleSha256) (fun _ _ => True) .init s ∧ ¬NoChunkLost s := by
  have hrun : ∃ s ∈ racingSchedule.foldlM (fun s a => if True then step sampleSha256 s a else none)
      State.init, ¬NoChunkLost s := by decide
  obtain ⟨s, hs, hlost⟩ := hrun
  exact ⟨s, reach_of_schedule hs, hlost⟩

theorem no_chunk_lost_separate :
    ∃ s, Reach (step sampleSha256) Unshared .init s ∧ s.committed = [[sharedKey]] ∧
      NoChunkLost s := by
  have hrun : ∃ s ∈ separateSchedule.foldlM
      (fun s a => if Unshared s a then step sampleSha256 s a else none) State.init,
      s.committed = [[sharedKey]] := by decide
  obtain ⟨s, hs, hcommitted⟩ := hrun
  exact ⟨s, reach_of_schedule hs, hcommitted, no_chunk_lost (reach_of_schedule hs)⟩

end IntelliStore.Storage.Interleaving
