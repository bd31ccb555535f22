import IntelliStore.Library.Tables
import Mathlib.Algebra.Order.Group.Nat

/-! Levels of which the lowest are raised together: they do not drift apart. -/

namespace Library

/-! ### Levels that differ by at most a bound -/

section
variable {ι α : Type*} [AddCommMonoid α] [PartialOrder α] [IsOrderedAddMonoid α]

def Within (D : α) (l : List α) : Prop := ∀ a ∈ l, ∀ b ∈ l, a ≤ b + D

/-- The levels of the elements in `T` are raised, and none of the others is below one of these. -/
theorem Within.raise {l : List ι} {f : ι → α} {T : ι → Prop} [DecidablePred T] {D s : α}
    (h : Within D (l.map f)) (hs : 0 ≤ s) (hle : s ≤ D)
    (hlow : ∀ i ∈ l, ∀ j ∈ l, T i → ¬T j → f i ≤ f j) :
    Within D (l.map fun i => if T i then f i + s else f i) := by
  have hold : ∀ i ∈ l, ∀ j ∈ l, f i ≤ f j + D := fun i hi j hj =>
    h (f i) (List.mem_map_of_mem hi) (f j) (List.mem_map_of_mem hj)
  rintro a ha b hb
  obtain ⟨i, hi, rfl⟩ := List.mem_map.mp ha
  obtain ⟨j, hj, rfl⟩ := List.mem_map.mp hb
  by_cases hTi : T i <;> by_cases hTj : T j <;> simp only [hTi, hTj, if_true, if_false]
  · calc f i + s ≤ f j + D + s := by gcongr; exact hold i hi j hj
      _ = f j + s + D := add_right_comm _ _ _
  -- a level that overtakes another one was not above it
  · exact add_le_add (hlow i hi j hj hTi hTj) hle
  · calc f i ≤ f j + D := hold i hi j hj
      _ ≤ f j + s + D := by gcongr; exact le_add_of_nonneg_right hs
  · exact hold i hi j hj

end

/-! ### The largest difference -/

/-- The difference between the largest and the smallest of the numbers. -/
def gap (l : List ℕ) : ℕ := (l.flatMap fun a => l.map fun b => a - b).foldr max 0

theorem gap_le_iff {l : List ℕ} {D : ℕ} : gap l ≤ D ↔ Within D l := by
  rw [gap, foldr_max_le_iff, and_iff_right (Nat.zero_le D), List.forall_mem_flatMap]
  refine forall₂_congr fun a _ => ?_
  rw [List.forall_mem_map]
  exact forall₂_congr fun b _ => Nat.sub_le_iff_le_add'

theorem gap_raise {ι : Type*} {l : List ι} {f : ι → ℕ} {T : ι → Prop} [DecidablePred T] {s : ℕ}
    (hlow : ∀ i ∈ l, ∀ j ∈ l, T i → ¬T j → f i ≤ f j) :
    gap (l.map fun i => if T i then f i + s else f i) ≤ max (gap (l.map f)) s := by
  have hold : Within (max (gap (l.map f)) s) (l.map f) := gap_le_iff.mp (le_max_left _ _)
  exact gap_le_iff.mpr (hold.raise (Nat.zero_le s) (le_max_right _ _) hlow)

/-! ### The first rows of an order -/

section
variable {ι κ : Type*} [LinearOrder κ]

theorem orderBy_pairwise (key : ι → κ) (rank : ι → ℕ) (l : List ι) :
    (orderBy key rank l).Pairwise fun a b => key a ≤ key b := by
  let r : ι → ι → Prop := fun a b => key a < key b ∨ (key a = key b ∧ rank a ≤ rank b)
  have : Std.Total r := ⟨fun a b => by
    rcases lt_trichotomy (key a) (key b) with h | h | h
    · exact .inl (.inl h)
    · exact (le_total (rank a) (rank b)).imp (fun hr => .inr ⟨h, hr⟩) fun hr => .inr ⟨h.symm, hr⟩
    · exact .inr (.inl h)⟩
  have : IsTrans ι r := ⟨fun a b c hab hbc => by
    rcases hab with hab | ⟨hab, hr⟩ <;> rcases hbc with hbc | ⟨hbc, hr'⟩
    · exact .inl (hab.trans hbc)
    · exact .inl (hbc ▸ hab)
    · exact .inl (hab ▸ hbc)
    · exact .inr ⟨hab.trans hbc, hr.trans hr'⟩⟩
  exact (List.pairwise_insertionSort r l).imp fun h => h.elim le_of_lt fun h => h.1.le

/-- A row within the `LIMIT` comes before the rows beyond it. -/
theorem orderBy_take_le {key : ι → κ} {rank : ι → ℕ} {l : List ι} {n : ℕ} {a b : ι}
    (ha : a ∈ (orderBy key rank l).take n) (hb : b ∈ l)
    (hbeyond : b ∉ (orderBy key rank l).take n) : key a ≤ key b := by
  have hsorted := orderBy_pairwise key rank l
  rw [← List.take_append_drop n (orderBy key rank l)] at hsorted
  have hdrop : b ∈ (orderBy key rank l).drop n := by
    have hmem : b ∈ orderBy key rank l := mem_orderBy.mpr hb
    rw [← List.take_append_drop n (orderBy key rank l), List.mem_append] at hmem
    exact hmem.resolve_left hbeyond
  exact (List.pairwise_append.mp hsorted).2.2 a ha b hdrop

end
end Library
