import IntelliStore.Metadata.Bodies
import IntelliStore.Metadata.Totals

/-! `physicalChunkBytes` as a sum over storage keys. The query takes distinct pairs of a key and a
size, so each key is counted once as long as it has one size and the sum is exact in Numbers. -/

namespace IntelliStore.Metadata
open Library Postgres

namespace Database
variable {d d' : Database}

def storageKeys (d : Database) : List String := (d.chunks.map ChunkRecord.storageKey).dedup

/-- One term for each stored key: the size of a chunk with that key. -/
def CountsKeysOnce (d : Database) : Prop :=
  ∃ size : String → Nat, (∀ key ∈ d.storageKeys, ∃ c ∈ d.chunks, c.storageKey = key ∧
    c.sizeBytes = size key) ∧
    d.getSystemStats.physicalChunkBytes = (d.storageKeys.map size).sum

/-- A key has one size. -/
def KeysDetermineSizes (d : Database) : Prop := ∀ c ∈ d.chunks, ∀ c' ∈ d.chunks,
  c.storageKey = c'.storageKey → c.sizeBytes = c'.sizeBytes

def PositiveSizes (d : Database) : Prop := ∀ c ∈ d.chunks, 0 < c.sizeBytes

theorem mem_storageKeys {key : String} :
    key ∈ d.storageKeys ↔ ∃ c ∈ d.chunks, c.storageKey = key := by
  rw [storageKeys, List.mem_dedup, List.mem_map]

theorem mem_distinctChunks {p : String × Nat} :
    p ∈ d.distinctChunks ↔ ∃ c ∈ d.chunks, (c.storageKey, c.sizeBytes) = p := by
  rw [distinctChunks, List.mem_dedup, List.mem_map]

/-- The pairs of a choice of sizes are among the distinct pairs. -/
theorem pairs_subset {size : String → Nat}
    (hsize : ∀ key ∈ d.storageKeys, ∃ c ∈ d.chunks, c.storageKey = key ∧ c.sizeBytes = size key) :
    ∀ p ∈ d.storageKeys.map (fun key => (key, size key)), p ∈ d.distinctChunks := by
  intro p hp
  obtain ⟨key, hkey, rfl⟩ := List.mem_map.mp hp
  obtain ⟨c, hc, hck, hcs⟩ := hsize key hkey
  exact mem_distinctChunks.mpr ⟨c, hc, by rw [hck, hcs]⟩

theorem pairs_nodup (d : Database) (size : String → Nat) :
    (d.storageKeys.map fun key => (key, size key)).Nodup :=
  (List.nodup_dedup _).map fun _ _ h => congrArg Prod.fst h

theorem pairs_sum (d : Database) (size : String → Nat) :
    ((d.storageKeys.map fun key => (key, size key)).map Prod.snd).sum =
      (d.storageKeys.map size).sum := by
  rw [List.map_map]
  rfl

theorem countsKeysOnce_of_sizes (hsafe : d.exactStats.physicalChunkBytes ≤ maxSafeInteger)
    (h : d.KeysDetermineSizes) : d.CountsKeysOnce := by
  have hchoice : ∀ key, ∃ size, key ∈ d.storageKeys →
      ∃ c ∈ d.chunks, c.storageKey = key ∧ c.sizeBytes = size := by
    intro key
    by_cases hkey : key ∈ d.storageKeys
    · obtain ⟨c, hc, hck⟩ := mem_storageKeys.mp hkey
      exact ⟨c.sizeBytes, fun _ => ⟨c, hc, hck, rfl⟩⟩
    · exact ⟨0, fun h => absurd h hkey⟩
  choose size hsize using hchoice
  refine ⟨size, hsize, ?_⟩
  have hperm : d.distinctChunks.Perm (d.storageKeys.map fun key => (key, size key)) := by
    apply (List.perm_ext_iff_of_nodup (List.nodup_dedup _) (d.pairs_nodup size)).mpr
    intro p
    refine ⟨fun hp => ?_, pairs_subset hsize p⟩
    obtain ⟨c, hc, rfl⟩ := mem_distinctChunks.mp hp
    have hkey : c.storageKey ∈ d.storageKeys := mem_storageKeys.mpr ⟨c, hc, rfl⟩
    obtain ⟨c', hc', hck, hcs⟩ := hsize c.storageKey hkey
    exact List.mem_map.mpr ⟨c.storageKey, hkey, by rw [← hcs, h c' hc' c hc hck]⟩
  rw [← pairs_sum]
  exact (toNumber_of_safe hsafe).trans (hperm.map Prod.snd).sum_nat

/-- Sizes are positive, so a second size of a key is a term too many. -/
theorem countsKeysOnce_iff (hpos : d.PositiveSizes)
    (hsafe : d.exactStats.physicalChunkBytes ≤ maxSafeInteger) :
    d.CountsKeysOnce ↔ d.KeysDetermineSizes := by
  refine ⟨fun ⟨size, hsize, hsum⟩ => ?_, countsKeysOnce_of_sizes hsafe⟩
  have hsum : d.exactStats.physicalChunkBytes = (d.storageKeys.map size).sum :=
    (toNumber_of_safe hsafe).symm.trans hsum
  have hall : ∀ c ∈ d.chunks, c.sizeBytes = size c.storageKey := by
    intro c hc
    by_contra hne
    have hmem : (c.storageKey, c.sizeBytes) ∈ d.distinctChunks := mem_distinctChunks.mpr ⟨c, hc, rfl⟩
    have hnot : (c.storageKey, c.sizeBytes) ∉ d.storageKeys.map fun key => (key, size key) := by
      intro h
      obtain ⟨key, -, heq⟩ := List.mem_map.mp h
      obtain ⟨rfl, hsize'⟩ := Prod.mk.injEq _ _ _ _ ▸ heq
      exact hne hsize'.symm
    have hlt := Finset.sum_lt_sum_of_subset (f := Prod.snd)
      (fun p hp => List.mem_toFinset.mpr (pairs_subset hsize p (List.mem_toFinset.mp hp)))
      (List.mem_toFinset.mpr hmem) (fun h => hnot (List.mem_toFinset.mp h)) (hpos c hc)
      fun _ _ _ => Nat.zero_le _
    have hdistinct : d.distinctChunks.Nodup := List.nodup_dedup _
    rw [List.sum_toFinset _ (d.pairs_nodup size), List.sum_toFinset _ hdistinct, pairs_sum,
      ← hsum] at hlt
    exact lt_irrefl _ hlt
  intro c hc c' hc' hkey
  rw [hall c hc, hall c' hc', hkey]

theorem dedupedBytes_nonneg (d : Database) : 0 ≤ d.getSystemStats.dedupedBytes :=
  subNumbers_nonneg (toNumber_mono d.physical_le_logical)

end Database

/-! ### Runs -/

/-- What the key of a chunk is stored with. -/
def ChunkInput.pair (c : ChunkInput) : String × Nat := (c.storageKey, c.sizeBytes)

/-- Every size registered for a key, as it is sent, is the one that the tables and the input have
for it, and the distinct pairs have a sum that is exact. -/
def RegistersKnownSizes (d : Database) (r : JsRequest) : Prop :=
  ∀ input, r.sent.call.registration = some input →
    (∀ c ∈ input.chunks,
      (∀ row ∈ d.chunks, row.storageKey = c.storageKey → row.sizeBytes = c.sizeBytes) ∧
      ∀ c' ∈ input.chunks, c'.storageKey = c.storageKey → c'.sizeBytes = c.sizeBytes) ∧
    (((d.chunks.map fun c => (c.storageKey, c.sizeBytes)) ++
      input.chunks.map ChunkInput.pair).dedup.map Prod.snd).sum ≤ maxSafeInteger

namespace Commits
variable {d d' : Database} {input : CreateVersionInput} {v : FileVersionRecord}
  {rows : List ChunkRecord}

theorem mem_chunks (h : Commits d d' input v rows) {c : ChunkRecord} (hc : c ∈ d'.chunks) :
    c ∈ d.chunks ∨ c.input ∈ input.chunks := by
  rw [h.chunks] at hc
  refine (List.mem_append.mp hc).imp_right fun hrow => ?_
  rw [← h.inputs]
  exact List.mem_map_of_mem hrow

theorem physicalChunkBytes (h : Commits d d' input v rows) : d'.exactStats.physicalChunkBytes =
    (((d.chunks.map fun c => (c.storageKey, c.sizeBytes)) ++
      input.chunks.map ChunkInput.pair).dedup.map Prod.snd).sum := by
  show (d'.distinctChunks.map Prod.snd).sum = _
  rw [Database.distinctChunks, h.chunks, List.map_append, ← h.inputs, List.map_map]
  rfl

end Commits

theorem positiveSizes_run (fold : Char → Char) (history : List JsRequest) :
    (finalState (FileRouter.receive fold) .empty history).PositiveSizes := by
  refine finalState_invariant Database.PositiveSizes (fun d r _ h => ?_)
    (guarded_of_forall fun _ _ => trivial) fun c hc => by cases hc
  rw [FileRouter.receive_eq]
  rcases FileRouter.handle_commits fold d r.sent with
    ⟨-, hchunks⟩ | ⟨input, v, rows, -, hschema, hcommit⟩
  · rw [Database.PositiveSizes, hchunks]
    exact h
  · intro c hc
    rcases hcommit.mem_chunks hc with hold | hinput
    · exact h c hold
    · have hall := (Bool.and_eq_true_iff.mp hschema).2
      have hchunk := List.all_eq_true.mp hall c.input hinput
      simp only [chunkSchema, Bool.and_eq_true, decide_eq_true_eq] at hchunk
      exact hchunk.1.1

/-- Each key has one size, and the sizes have a sum that is exact. -/
def Database.Countable (d : Database) : Prop :=
  d.KeysDetermineSizes ∧ d.exactStats.physicalChunkBytes ≤ maxSafeInteger

theorem countable_step (fold : Char → Char) {d : Database} {r : JsRequest}
    (hsizes : RegistersKnownSizes d r) (h : d.Countable) :
    (FileRouter.receive fold d r).2.Countable := by
  rw [FileRouter.receive_eq]
  rcases FileRouter.handle_commits fold d r.sent with
    ⟨-, hchunks⟩ | ⟨input, v, rows, hreg, -, hcommit⟩
  · have hstats : (FileRouter.handle fold d r.sent).2.exactStats.physicalChunkBytes =
        d.exactStats.physicalChunkBytes := by
      simp only [Database.exactStats, Database.distinctChunks, hchunks]
    rw [Database.Countable, Database.KeysDetermineSizes, hchunks, hstats]
    exact h
  · obtain ⟨hknown, hsafe⟩ := hsizes input hreg
    refine ⟨?_, hcommit.physicalChunkBytes.trans_le hsafe⟩
    intro c hc c' hc' hkey
    rcases hcommit.mem_chunks hc with hold | hnew <;> rcases hcommit.mem_chunks hc' with hold' | hnew'
    · exact h.1 c hold c' hold' hkey
    · exact (hknown _ hnew').1 c hold hkey
    · exact ((hknown _ hnew).1 c' hold' hkey.symm).symm
    · exact (hknown _ hnew').2 _ hnew hkey

/-- As long as their sum is exact, the physical bytes count a key once exactly where it has one
size, which runs keep that register each key with the size it already has. -/
theorem physical_bytes_count_keys (fold : Char → Char) (history : List JsRequest) :
    let d := finalState (FileRouter.receive fold) .empty history
    0 ≤ d.getSystemStats.dedupedBytes ∧
      (d.exactStats.physicalChunkBytes ≤ maxSafeInteger →
        (d.CountsKeysOnce ↔ d.KeysDetermineSizes)) ∧
      (Guarded (FileRouter.receive fold) RegistersKnownSizes .empty history → d.CountsKeysOnce) := by
  intro d
  have hpos : d.PositiveSizes := positiveSizes_run fold history
  refine ⟨d.dedupedBytes_nonneg, Database.countsKeysOnce_iff hpos, fun hguard => ?_⟩
  have hcountable : d.Countable := finalState_invariant Database.Countable
    (fun d r hsizes h => countable_step fold hsizes h) hguard
    ⟨fun c hc => (by cases hc), Nat.zero_le _⟩
  exact Database.countsKeysOnce_of_sizes hcountable.2 hcountable.1

/-! A key is registered twice, for another file: with the size it has, or with another one. -/

def registerKey (n sizeBytes : Nat) : JsRequest :=
  ⟨1, sampleGenerated n, .registerFile
    { fileName := Json.units "report.pdf", mimeType := Json.units "application/pdf",
      checksum := Json.units "c",
      chunks := [⟨0, sizeBytes, Json.units "c", Json.units "chunks/c"⟩] }⟩

theorem key_counted_twice : ¬∀ (fold : Char → Char) (history : List JsRequest),
    (finalState (FileRouter.receive fold) .empty history).CountsKeysOnce := by
  intro h
  have hsizes := (Database.countsKeysOnce_iff (positiveSizes_run id _) (by decide)).mp
    (h id [registerKey 1 4, registerKey 2 5])
  revert hsizes
  unfold Database.KeysDetermineSizes
  decide

theorem physical_bytes_count_keys_sample :
    (finalState (FileRouter.receive id) .empty [registerKey 1 4, registerKey 2 4]).CountsKeysOnce := by
  refine (physical_bytes_count_keys id [registerKey 1 4, registerKey 2 4]).2.2 ⟨?_, ?_, trivial⟩
  · intro input h
    cases h
    decide
  · intro input h
    cases h
    decide

end IntelliStore.Metadata
