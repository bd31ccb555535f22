import Mathlib.Data.List.Basic
import Mathlib.Data.PNat.Basic

/-! `splitIntoChunks` and the storage key of a piece. The digest is a parameter. -/

namespace IntelliStore.Storage

abbrev Bytes := List UInt8

structure ChunkPiece where
  index : Nat
  data : Bytes
  sizeBytes : Nat
  checksum : String
  deriving DecidableEq

/-- `buffer.subarray(start, stop)`. -/
def subarray (buffer : Bytes) (start stop : Nat) : Bytes := (buffer.take stop).drop start

/-- The loop of `splitIntoChunks` from an offset on; `fuel` bounds its iterations. -/
def splitLoop (sha256 : Bytes → String) (buffer : Bytes) (chunkSizeBytes : Nat) :
    (fuel index offset : Nat) → List ChunkPiece
  | 0, _, _ => []
  | fuel + 1, index, offset =>
    if offset < buffer.length then
      let data := subarray buffer offset (offset + chunkSizeBytes)
      ⟨index, data, data.length, sha256 data⟩ ::
        splitLoop sha256 buffer chunkSizeBytes fuel (index + 1) (offset + chunkSizeBytes)
    else []

/-- A positive chunk size moves the offset, so as many iterations as bytes suffice. -/
def splitIntoChunks (sha256 : Bytes → String) (buffer : Bytes) (chunkSizeBytes : ℕ+) :
    List ChunkPiece := splitLoop sha256 buffer chunkSizeBytes buffer.length 0 0

/-- `chunks/${checksum}`. -/
def chunkKey (checksum : String) : String := "chunks/" ++ checksum

def ChunkPiece.key (p : ChunkPiece) : String := chunkKey p.checksum

theorem chunkKey_inj {a b : String} : chunkKey a = chunkKey b ↔ a = b := by
  refine ⟨fun h => String.toList_inj.mp ?_, congrArg _⟩
  have := congrArg String.toList h
  simpa only [chunkKey, String.toList_append, List.append_cancel_left_eq] using this

variable {sha256 : Bytes → String} {buffer : Bytes} {c : ℕ+}

theorem subarray_append_drop (buffer : Bytes) (offset n : Nat) :
    subarray buffer offset (offset + n) ++ buffer.drop (offset + n) = buffer.drop offset := by
  rw [subarray, List.drop_take, Nat.add_sub_cancel_left, ← List.drop_drop, List.take_append_drop]

theorem splitLoop_data (fuel index offset : Nat) (h : buffer.length ≤ offset + fuel) :
    (splitLoop sha256 buffer c fuel index offset).flatMap ChunkPiece.data = buffer.drop offset := by
  induction fuel generalizing index offset with
  | zero => rw [splitLoop, List.flatMap_nil, List.drop_eq_nil_of_le (by omega)]
  | succ fuel ih =>
    rw [splitLoop]
    split_ifs with ho
    · have hc : 0 < (c : Nat) := c.pos
      rw [List.flatMap_cons, ih _ _ (by omega), subarray_append_drop]
    · rw [List.flatMap_nil, List.drop_eq_nil_of_le (by omega)]

theorem splitIntoChunks_data (sha256 : Bytes → String) (buffer : Bytes) (c : ℕ+) :
    (splitIntoChunks sha256 buffer c).flatMap ChunkPiece.data = buffer := by
  rw [splitIntoChunks, splitLoop_data _ _ _ (by omega), List.drop_zero]

theorem splitLoop_index (chunkSizeBytes fuel index offset : Nat) :
    (splitLoop sha256 buffer chunkSizeBytes fuel index offset).map ChunkPiece.index =
      List.range' index (splitLoop sha256 buffer chunkSizeBytes fuel index offset).length := by
  induction fuel generalizing index offset with
  | zero => rfl
  | succ fuel ih =>
    rw [splitLoop]
    split_ifs
    · rw [List.map_cons, ih, List.length_cons, List.range'_succ]
    · rfl

/-- Every piece records the length and the digest of its own, non-empty data. -/
theorem mem_splitLoop {fuel index offset : Nat} {p : ChunkPiece}
    (h : p ∈ splitLoop sha256 buffer c fuel index offset) :
    p.sizeBytes = p.data.length ∧ p.checksum = sha256 p.data ∧ 0 < p.data.length := by
  induction fuel generalizing index offset with
  | zero => cases h
  | succ fuel ih =>
    rw [splitLoop] at h
    split_ifs at h with ho
    · rcases List.mem_cons.mp h with rfl | h
      · have hc : 0 < (c : Nat) := c.pos
        refine ⟨rfl, rfl, ?_⟩
        rw [subarray, List.length_drop, List.length_take]
        omega
      · exact ih h
    · cases h

theorem mem_splitIntoChunks {p : ChunkPiece} (h : p ∈ splitIntoChunks sha256 buffer c) :
    p.sizeBytes = p.data.length ∧ p.checksum = sha256 p.data ∧ 0 < p.data.length :=
  mem_splitLoop h

/-- The chunk size of the sample runs. -/
def singleByte : ℕ+ := ⟨1, Nat.one_pos⟩

/-- The digests of the byte strings in the sample runs. -/
def sampleSha256 : Bytes → String
  | [1] => "4bf5122f344554c53bde2ebb8cd2b7e3d1600ad631c385a5d7cce23c7785459a"
  | [2] => "dbc1b4c900ffe48d575b5da5c638040125f65db0fe3e24494b76ea986457d986"
  | [1, 2] => "a12871fee210fb8619291eaea194581cbd2531e4b23759d225f6806923f63222"
  | [2, 1] => "25dfd29c09617dcc9852281c030e5b3037a338a4712a42a21c907f259c6412a0"
  | _ => ""

end IntelliStore.Storage
