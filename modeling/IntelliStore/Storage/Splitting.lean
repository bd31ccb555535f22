import IntelliStore.Storage.UploadService
import Mathlib.Algebra.Order.Floor.Div
import Mathlib.Logic.Function.Iterate

/-! The pieces of `splitIntoChunks` in closed form, and its loop for any integer that the
configuration passes to it as the chunk size. -/

namespace IntelliStore.Storage
open Postgres Metadata

/-- The piece that the loop cuts off at an offset. -/
def pieceAt (sha256 : Bytes → String) (buffer : Bytes) (chunkSizeBytes index offset : Nat) :
    ChunkPiece :=
  let data := subarray buffer offset (offset + chunkSizeBytes)
  ⟨index, data, data.length, sha256 data⟩

variable {sha256 : Bytes → String} {buffer : Bytes} {c : ℕ+}

theorem lt_ceilDiv {n i : Nat} : i < n ⌈/⌉ (c : Nat) ↔ c * i < n :=
  lt_iff_lt_of_le_iff_le (ceilDiv_le_iff_le_mul c.pos)

theorem ceilDiv_of_pos {n : Nat} (hn : 0 < n) :
    n ⌈/⌉ (c : Nat) = (n - c) ⌈/⌉ (c : Nat) + 1 := by
  have hle : ∀ m, n ⌈/⌉ (c : Nat) ≤ m ↔ (n - c) ⌈/⌉ (c : Nat) + 1 ≤ m := by
    intro m
    cases m with
    | zero =>
      rw [ceilDiv_le_iff_le_mul c.pos, Nat.mul_zero]
      omega
    | succ m =>
      rw [ceilDiv_le_iff_le_mul c.pos, Nat.succ_le_succ_iff, ceilDiv_le_iff_le_mul c.pos,
        Nat.mul_succ]
      omega
  exact le_antisymm ((hle _).mpr le_rfl) ((hle _).mp le_rfl)

theorem splitLoop_eq (fuel index offset : Nat) (h : buffer.length ≤ offset + fuel) :
    splitLoop sha256 buffer c fuel index offset =
      (List.range ((buffer.length - offset) ⌈/⌉ (c : Nat))).map
        fun i => pieceAt sha256 buffer c (index + i) (offset + c * i) := by
  induction fuel generalizing index offset with
  | zero =>
    have hend : buffer.length - offset = 0 := by omega
    rw [splitLoop, hend, zero_ceilDiv]
    rfl
  | succ fuel ih =>
    rw [splitLoop]
    by_cases ho : offset < buffer.length
    · have hc : 0 < (c : Nat) := c.pos
      have hpos : 0 < buffer.length - offset := by omega
      have hstep : ∀ i, pieceAt sha256 buffer c (index + 1 + i) (offset + c + c * i) =
          pieceAt sha256 buffer c (index + (i + 1)) (offset + c * (i + 1)) := by
        intro i
        rw [Nat.mul_succ, Nat.add_assoc index, Nat.add_comm 1, Nat.add_assoc offset,
          Nat.add_comm (c : Nat)]
      rw [if_pos ho, ih _ _ (by omega), ceilDiv_of_pos hpos, Nat.sub_sub,
        List.range_succ_eq_map, List.map_cons, List.map_map]
      simp only [hstep]
      rfl
    · have hend : buffer.length - offset = 0 := by omega
      rw [if_neg ho, hend, zero_ceilDiv]
      rfl

theorem splitIntoChunks_eq (sha256 : Bytes → String) (buffer : Bytes) (c : ℕ+) :
    splitIntoChunks sha256 buffer c = (List.range (buffer.length ⌈/⌉ (c : Nat))).map
      fun i => pieceAt sha256 buffer c i (c * i) := by
  rw [splitIntoChunks, splitLoop_eq _ _ _ (by omega), Nat.sub_zero]
  simp only [Nat.zero_add]

theorem length_splitIntoChunks :
    (splitIntoChunks sha256 buffer c).length = buffer.length ⌈/⌉ (c : Nat) := by
  rw [splitIntoChunks_eq, List.length_map, List.length_range]

theorem splitIntoChunks_index : (splitIntoChunks sha256 buffer c).map ChunkPiece.index =
    List.range (buffer.length ⌈/⌉ (c : Nat)) := by
  rw [splitIntoChunks_eq, List.map_map]
  exact List.map_id _

theorem sizeBytes_pieceAt (index offset : Nat) :
    (pieceAt sha256 buffer c index offset).sizeBytes = min (offset + c) buffer.length - offset := by
  change (subarray buffer offset (offset + c)).length = _
  rw [subarray, List.length_drop, List.length_take]

/-- A piece before the last one ends inside the buffer. -/
theorem sizeBytes_of_mem_dropLast {p : ChunkPiece}
    (hp : p ∈ (splitIntoChunks sha256 buffer c).dropLast) : p.sizeBytes = c := by
  rw [splitIntoChunks_eq] at hp
  cases hk : buffer.length ⌈/⌉ (c : Nat) with
  | zero => simp [hk] at hp
  | succ k =>
    rw [hk, List.range_succ, List.map_append, List.map_singleton, List.dropLast_concat] at hp
    obtain ⟨i, hi, rfl⟩ := List.mem_map.mp hp
    have hnext : i + 1 < buffer.length ⌈/⌉ (c : Nat) := by
      rw [hk]
      exact Nat.succ_lt_succ (List.mem_range.mp hi)
    have hend : c * (i + 1) < buffer.length := lt_ceilDiv.mp hnext
    rw [Nat.mul_succ] at hend
    rw [sizeBytes_pieceAt]
    omega

theorem sizeBytes_of_mem_getLast {p : ChunkPiece}
    (hp : p ∈ (splitIntoChunks sha256 buffer c).getLast?) :
    1 ≤ p.sizeBytes ∧ p.sizeBytes ≤ c := by
  rw [splitIntoChunks_eq] at hp
  cases hk : buffer.length ⌈/⌉ (c : Nat) with
  | zero => simp [hk] at hp
  | succ k =>
    rw [hk, List.range_succ, List.map_append, List.map_singleton, List.getLast?_concat,
      Option.mem_some_iff] at hp
    have hstart : c * k < buffer.length := lt_ceilDiv.mp (hk ▸ Nat.lt_succ_self k)
    have hc : 0 < (c : Nat) := c.pos
    rw [← hp, sizeBytes_pieceAt]
    omega

/-- The buffer cut into full pieces and a last one, in order and with nothing lost. -/
structure Partitions (sha256 : Bytes → String) (buffer : Bytes) (c : ℕ+)
    (pieces : List ChunkPiece) : Prop where
  data : pieces.flatMap ChunkPiece.data = buffer
  length : pieces.length = buffer.length ⌈/⌉ (c : Nat)
  index : pieces.map ChunkPiece.index = List.range pieces.length
  full : ∀ p ∈ pieces.dropLast, p.sizeBytes = c
  last : ∀ p ∈ pieces.getLast?, 1 ≤ p.sizeBytes ∧ p.sizeBytes ≤ c
  recorded : ∀ p ∈ pieces, p.sizeBytes = p.data.length ∧ p.checksum = sha256 p.data

theorem partitions_splitIntoChunks (sha256 : Bytes → String) (buffer : Bytes) (c : ℕ+) :
    Partitions sha256 buffer c (splitIntoChunks sha256 buffer c) where
  data := splitIntoChunks_data sha256 buffer c
  length := length_splitIntoChunks
  index := by rw [splitIntoChunks_index, length_splitIntoChunks]
  full _ hp := sizeBytes_of_mem_dropLast hp
  last _ hp := sizeBytes_of_mem_getLast hp
  recorded _ hp := ⟨(mem_splitIntoChunks hp).1, (mem_splitIntoChunks hp).2.1⟩

theorem chunkRows_index_key (g : Generated) (versionId : Uuid) :
    ((Database.chunkRows g versionId 0 ((splitIntoChunks sha256 buffer c).map
      ChunkPiece.payload)).map fun r => (r.fileVersionId, r.chunkIndex)).Nodup := by
  have hindex : ((Database.chunkRows g versionId 0 ((splitIntoChunks sha256 buffer c).map
      ChunkPiece.payload)).map ChunkRecord.chunkIndex).Nodup := by
    rw [Database.chunkRows_map_chunkIndex, List.map_map]
    have hpieces : (splitIntoChunks sha256 buffer c).map (ChunkInput.chunkIndex ∘
        ChunkPiece.payload) = List.range (buffer.length ⌈/⌉ (c : Nat)) := splitIntoChunks_index
    rw [hpieces]
    exact List.nodup_range
  apply List.Nodup.of_map Prod.snd
  rwa [List.map_map]

/-- The chunks of every upload pass the size check of `chunkSchema`, and their rows keep the
unique key of the chunks table. -/
theorem splitIntoChunks_partition (sha256 : Bytes → String) (buffer : Bytes) (c : ℕ+) :
    Partitions sha256 buffer c (splitIntoChunks sha256 buffer c) ∧
      (∀ chunk ∈ (splitIntoChunks sha256 buffer c).map ChunkPiece.payload,
        0 < chunk.sizeBytes) ∧
      ∀ (g : Generated) (versionId : Uuid),
        ((Database.chunkRows g versionId 0 ((splitIntoChunks sha256 buffer c).map
          ChunkPiece.payload)).map fun r => (r.fileVersionId, r.chunkIndex)).Nodup := by
  have hsizes : ∀ chunk ∈ (splitIntoChunks sha256 buffer c).map ChunkPiece.payload,
      0 < chunk.sizeBytes := by
    intro chunk hchunk
    obtain ⟨p, hp, rfl⟩ := List.mem_map.mp hchunk
    have hpiece := mem_splitIntoChunks hp
    change 0 < p.sizeBytes
    rw [hpiece.1]
    exact hpiece.2.2
  exact ⟨partitions_splitIntoChunks sha256 buffer c, hsizes, chunkRows_index_key⟩

/-! ### The loop on an unchecked size -/

/-- `DEFAULT_CHUNK_SIZE_BYTES` -/
def defaultChunkSizeBytes : ℤ := 4 * 1024 * 1024

/-- `config.chunkSizeBytes`, where it is an integer. `number` is `Number` on a string, `none`
when that is no integer; no value is refused. -/
def configChunkSizeBytes (number : String → Option ℤ) (CHUNK_SIZE_BYTES : Option String) :
    Option ℤ :=
  match CHUNK_SIZE_BYTES with
  | none => some defaultChunkSizeBytes
  | some raw => number raw

/-- An index of `Buffer.subarray`: a negative one counts from the end, and all are clamped. -/
def relativeIndex (length : Nat) (i : ℤ) : Nat :=
  if i < 0 then (length + i).toNat else min i.toNat length

/-- The variables of the loop in `splitIntoChunks`. -/
structure SplitState where
  offset : ℤ
  index : Nat
  pieces : List ChunkPiece

def SplitState.init : SplitState := ⟨0, 0, []⟩

/-- One iteration; a loop whose condition fails stays where it is. -/
def splitStep (sha256 : Bytes → String) (buffer : Bytes) (chunkSizeBytes : ℤ) (s : SplitState) :
    SplitState :=
  if s.offset < buffer.length then
    let data := subarray buffer (relativeIndex buffer.length s.offset)
      (relativeIndex buffer.length (s.offset + chunkSizeBytes))
    ⟨s.offset + chunkSizeBytes, s.index + 1,
      s.pieces ++ [⟨s.index, data, data.length, sha256 data⟩]⟩
  else s

/-- The state after `n` iterations. -/
def splitAfter (sha256 : Bytes → String) (buffer : Bytes) (chunkSizeBytes : ℤ) (n : Nat) :
    SplitState := (splitStep sha256 buffer chunkSizeBytes)^[n] SplitState.init

theorem splitStep_offset (size : ℤ) (s : SplitState) :
    (splitStep sha256 buffer size s).offset =
      if s.offset < buffer.length then s.offset + size else s.offset := by
  unfold splitStep
  split_ifs <;> rfl

theorem splitAfter_succ (size : ℤ) (n : Nat) : splitAfter sha256 buffer size (n + 1) =
    splitStep sha256 buffer size (splitAfter sha256 buffer size n) :=
  Function.iterate_succ_apply' _ _ _

/-- A positive size moves the offset by at least one byte. -/
theorem splitAfter_offset_ge {size : ℤ} (hsize : 0 < size) (n : Nat) :
    (n : ℤ) ≤ (splitAfter sha256 buffer size n).offset ∨
      (buffer.length : ℤ) ≤ (splitAfter sha256 buffer size n).offset := by
  induction n with
  | zero => exact Or.inl le_rfl
  | succ n ih =>
    rw [splitAfter_succ, splitStep_offset]
    split_ifs with ho
    · have hn := ih.resolve_right (not_le_of_gt ho)
      left
      push_cast
      omega
    · exact Or.inr (not_lt.mp ho)

/-- Any other size never brings the offset above its start. -/
theorem splitAfter_offset_le (sha256 : Bytes → String) (buffer : Bytes) {size : ℤ}
    (hsize : size ≤ 0) (n : Nat) : (splitAfter sha256 buffer size n).offset ≤ 0 := by
  induction n with
  | zero => exact le_rfl
  | succ n ih =>
    rw [splitAfter_succ, splitStep_offset]
    split_ifs
    · omega
    · exact ih

theorem splitting_ends_iff (sha256 : Bytes → String) (buffer : Bytes) (chunkSizeBytes : ℤ) :
    (∃ n, (buffer.length : ℤ) ≤ (splitAfter sha256 buffer chunkSizeBytes n).offset) ↔
      0 < chunkSizeBytes ∨ buffer = [] := by
  constructor
  · intro hends
    obtain ⟨n, hn⟩ := hends
    by_cases hsize : 0 < chunkSizeBytes
    · exact Or.inl hsize
    · have hle := splitAfter_offset_le sha256 buffer (not_lt.mp hsize) n
      right
      apply List.eq_nil_of_length_eq_zero
      omega
  · intro h
    refine ⟨buffer.length, ?_⟩
    rcases h with hsize | hempty
    · exact (splitAfter_offset_ge hsize buffer.length).elim id id
    · rw [hempty]
      exact le_rfl

/-- An empty `CHUNK_SIZE_BYTES` is the size 0, on which the loop stays at its start. -/
theorem splitting_never_ends : ¬∀ (number : String → Option ℤ) (env : Option String) (size : ℤ)
    (buffer : Bytes), number "" = some 0 → configChunkSizeBytes number env = some size →
      ∃ n, (buffer.length : ℤ) ≤ (splitAfter sampleSha256 buffer size n).offset := by
  intro hclaim
  obtain ⟨n, hn⟩ := hclaim (fun raw => if raw = "" then some 0 else none) (some "") 0 [1] rfl rfl
  have hle := splitAfter_offset_le sampleSha256 [1] (le_refl 0) n
  have hlength : (([1] : Bytes).length : ℤ) = 1 := rfl
  omega

theorem relativeIndex_natCast (length i : Nat) : relativeIndex length (i : ℤ) = min i length := by
  rw [relativeIndex, if_neg (by omega), Int.toNat_natCast]

/-- On a positive size the loop of the source is `splitLoop`. -/
theorem splitStep_iterate (fuel index offset : Nat) (pieces : List ChunkPiece) :
    ((splitStep sha256 buffer (c : Nat))^[fuel] ⟨offset, index, pieces⟩).pieces =
      pieces ++ splitLoop sha256 buffer c fuel index offset := by
  induction fuel generalizing index offset pieces with
  | zero => exact (List.append_nil _).symm
  | succ fuel ih =>
    rw [Function.iterate_succ_apply, splitLoop]
    by_cases ho : offset < buffer.length
    · have hdata : subarray buffer (relativeIndex buffer.length (offset : ℤ))
          (relativeIndex buffer.length ((offset : ℤ) + (c : Nat))) =
          subarray buffer offset (offset + c) := by
        have hclamp : buffer.take (min (offset + c) buffer.length) = buffer.take (offset + c) :=
          List.take_eq_take_min.symm
        rw [← Nat.cast_add, relativeIndex_natCast, relativeIndex_natCast, min_eq_left ho.le,
          subarray, subarray, hclamp]
      have hstep : splitStep sha256 buffer (c : Nat) ⟨offset, index, pieces⟩ =
          ⟨(offset + c : Nat), index + 1, pieces ++ [pieceAt sha256 buffer c index offset]⟩ := by
        rw [splitStep, if_pos (Int.ofNat_lt.mpr ho), hdata, Nat.cast_add]
        rfl
      rw [hstep, ih, if_pos ho, List.append_assoc]
      rfl
    · have hstep : splitStep sha256 buffer (c : Nat) ⟨offset, index, pieces⟩ =
          ⟨offset, index, pieces⟩ := if_neg (mt Int.ofNat_lt.mp ho)
      rw [hstep, ih, if_neg ho]
      cases fuel with
      | zero => rfl
      | succ fuel => rw [splitLoop, if_neg ho]

theorem splitAfter_pieces : (splitAfter sha256 buffer (c : Nat) buffer.length).pieces =
    splitIntoChunks sha256 buffer c :=
  splitStep_iterate buffer.length 0 0 []

end IntelliStore.Storage
