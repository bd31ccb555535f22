import IntelliStore.Platform.Effects

/-! Registrations whose reply is lost. The upload takes them for refused, and its cleanup
deletes the chunks of the version that was committed. -/

namespace IntelliStore.Platform
open Postgres Library Metadata Storage
variable {sha256 : Bytes → String}

/-- Every storage key a committed version lists is in the bucket. -/
def KeysStored (w : World) : Prop :=
  ∀ v ∈ w.metadata.versions, ∀ c ∈ w.metadata.listChunks v.id, c.storageKey ∈ w.backend.objects

theorem keysStored_iff {w : World} :
    KeysStored w ↔
      ∀ key ∈ w.metadata.chunks.map ChunkRecord.storageKey, key ∈ w.backend.objects := by
  constructor
  · intro h key hkey
    obtain ⟨c, hc, rfl⟩ := List.mem_map.mp hkey
    obtain ⟨v, hv, hid⟩ := List.mem_map.mp (w.metadata.chunks_version_fkey c hc)
    exact h v hv c (Database.mem_listChunks.mpr ⟨hc, hid.symm⟩)
  · intro h v _ c hc
    exact h _ (List.mem_map_of_mem (Database.mem_listChunks.mp hc).1)

namespace Upload

theorem payload_keys (u : Upload) :
    (u.payload sha256).chunks.map ChunkInput.storageKey =
      (entries (u.pieces sha256)).map Prod.fst := by
  rw [map_fst_entries]
  exact List.map_map

/-- If the reply to a registration that is accepted will be lost, the chunks are stored already. -/
def Harmless (sha256 : Bytes → String) (w : World) (u : Upload) : Prop :=
  u.outcomes.registration.ambiguous = true → u.Accepted sha256 w.metadata →
    ∀ p ∈ u.pieces sha256, p.key ∈ w.backend.objects

theorem pieces_of_empty {u : Upload} (h : u.buffer = []) : u.pieces sha256 = [] := by
  rw [pieces, h]
  rfl

/-- An upload keeps the stored keys exactly if it is harmless. -/
theorem keysStored_run_iff (w : World) (u : Upload) (hw : KeysStored w) :
    KeysStored (u.run sha256 w).2 ↔ u.Harmless sha256 w := by
  rw [keysStored_iff] at hw ⊢
  rcases u.run_cases sha256 w with ⟨hadds, hobj, hno⟩ | ⟨-, hacc, v, hcommits, hobj⟩
  · rw [hadds.chunks, hobj]
    refine iff_of_true hw fun hout hacc p hp => ?_
    have hempty : u.buffer = [] := by
      by_contra hne
      exact hno hne hout hacc
    rw [pieces_of_empty hempty] at hp
    cases hp
  · have hkeys : (u.run sha256 w).2.metadata.chunks.map ChunkRecord.storageKey =
        w.metadata.chunks.map ChunkRecord.storageKey ++
          (entries (u.pieces sha256)).map Prod.fst := by
      rw [hcommits.chunks, List.map_append, Database.chunkRows_map_storageKey, payload_keys]
    rw [hkeys, List.forall_mem_append]
    rcases hobj with ⟨hout, hobj⟩ | ⟨hout, hobj⟩ <;> rw [hobj]
    · refine iff_of_true ⟨fun key hkey => ?_, fun key hkey => ?_⟩ fun h => ?_
      · exact ObjectStore.mem_putAll.mpr (.inl (hw key hkey))
      · exact ObjectStore.mem_putAll.mpr (.inr hkey)
      · rw [hout] at h
        cases h
    · rw [map_fst_entries]
      constructor
      · intro h _ _ p hp
        exact h.2 _ (List.mem_map_of_mem hp)
      · intro h
        exact ⟨hw, List.forall_mem_map.mpr (h hout hacc)⟩

end Upload

/-- A run of uploads keeps every listed key stored, in every state it passes, exactly if each
of its uploads is harmless. -/
theorem lost_replies_keep_keys_iff (uploads : List Upload) :
    Guarded (fun w u => u.run sha256 w) (fun w u => u.Harmless sha256 w) .empty uploads ↔
      ∀ pre, pre <+: uploads →
        KeysStored (finalState (fun w u => u.run sha256 w) .empty pre) :=
  guarded_iff_forall_prefix KeysStored (fun w u _ hw => u.keysStored_run_iff w hw)
    (guarded_of_forall fun _ _ => trivial) fun _ hv => by cases hv

/-! One upload, whose reply is lost. -/

def lostReply : Upload where
  ownerId := 1
  target := .newFile "a.txt"
  mimeType := "text/plain"
  buffer := [1]
  chunkSizeBytes := singleByte
  generated := sampleGenerated 1
  outcomes := ⟨.replyLost, .replied, .replied⟩

theorem lost_reply_deletes_chunk :
    ¬KeysStored (finalState (fun w u => Upload.run sampleSha256 u w) .empty [lostReply]) := by
  rw [keysStored_iff]
  intro h
  exact absurd (h (chunkKey (sampleSha256 [1])) (by decide)) (by decide)

end IntelliStore.Platform
