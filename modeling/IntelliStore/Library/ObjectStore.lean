import Mathlib.Algebra.GroupWithZero.Nat
import Mathlib.Data.Finmap
import Mathlib.Data.Finset.Card

/-! Object stores written put-if-absent. What a list of such writes adds is exactly its
absent keys, and erasing these restores the store. -/

namespace Library
variable {κ β : Type*} [DecidableEq κ]

abbrev ObjectStore (κ β : Type*) := Finmap fun _ : κ => β

namespace ObjectStore

def putNew (o : ObjectStore κ β) (k : κ) (x : β) : ObjectStore κ β :=
  if k ∈ o then o else o.insert k x

def putAll (o : ObjectStore κ β) (xs : List (κ × β)) : ObjectStore κ β :=
  xs.foldl (fun o p => o.putNew p.1 p.2) o

/-- The keys the writes add, in the order in which they add them. -/
def newKeys : ObjectStore κ β → List (κ × β) → List κ
  | _, [] => []
  | o, (k, x) :: xs => if k ∈ o then newKeys o xs else k :: newKeys (o.insert k x) xs

def eraseAll (o : ObjectStore κ β) (ks : List κ) : ObjectStore κ β :=
  ks.foldl (fun o k => o.erase k) o

@[simp] theorem putAll_nil (o : ObjectStore κ β) : o.putAll [] = o := rfl

@[simp] theorem putAll_cons (o : ObjectStore κ β) (k : κ) (x : β) (xs : List (κ × β)) :
    o.putAll ((k, x) :: xs) = (o.putNew k x).putAll xs := rfl

@[simp] theorem newKeys_nil (o : ObjectStore κ β) : o.newKeys [] = [] := rfl

@[simp] theorem eraseAll_nil (o : ObjectStore κ β) : o.eraseAll [] = o := rfl

@[simp] theorem eraseAll_cons (o : ObjectStore κ β) (k : κ) (ks : List κ) :
    o.eraseAll (k :: ks) = (ObjectStore.eraseAll (o.erase k) ks) := rfl

theorem putNew_of_mem {o : ObjectStore κ β} {k : κ} (h : k ∈ o) (x : β) : o.putNew k x = o :=
  if_pos h

theorem putNew_of_notMem {o : ObjectStore κ β} {k : κ} (h : k ∉ o) (x : β) :
    o.putNew k x = o.insert k x := if_neg h

theorem newKeys_cons_of_mem {o : ObjectStore κ β} {k : κ} (h : k ∈ o) (x : β) (xs : List (κ × β)) :
    o.newKeys ((k, x) :: xs) = o.newKeys xs := if_pos h

theorem newKeys_cons_of_notMem {o : ObjectStore κ β} {k : κ} (h : k ∉ o) (x : β)
    (xs : List (κ × β)) : o.newKeys ((k, x) :: xs) = k :: newKeys (o.insert k x) xs := if_neg h

/-! ### What the writes leave -/

theorem mem_putNew {o : ObjectStore κ β} {k j : κ} {x : β} : j ∈ o.putNew k x ↔ j = k ∨ j ∈ o := by
  by_cases h : k ∈ o
  · rw [putNew_of_mem h]
    exact ⟨.inr, fun hj => hj.elim (fun e => e ▸ h) id⟩
  · rw [putNew_of_notMem h, Finmap.mem_insert]

theorem mem_putAll {o : ObjectStore κ β} {xs : List (κ × β)} {j : κ} :
    j ∈ o.putAll xs ↔ j ∈ o ∨ j ∈ xs.map Prod.fst := by
  induction xs generalizing o with
  | nil => simp only [putAll_nil, List.map_nil, List.not_mem_nil, or_false]
  | cons p xs ih =>
    obtain ⟨k, x⟩ := p
    rw [putAll_cons, ih, mem_putNew, List.map_cons, List.mem_cons]
    tauto

theorem lookup_putAll_of_mem {o : ObjectStore κ β} {xs : List (κ × β)} {j : κ} (h : j ∈ o) :
    (o.putAll xs).lookup j = o.lookup j := by
  induction xs generalizing o with
  | nil => rfl
  | cons p xs ih =>
    obtain ⟨k, x⟩ := p
    rw [putAll_cons, ih (mem_putNew.mpr (.inr h))]
    by_cases hk : k ∈ o
    · rw [putNew_of_mem hk]
    · have hne : j ≠ k := fun he => hk (he ▸ h)
      rw [putNew_of_notMem hk, Finmap.lookup_insert_of_ne _ hne]

theorem lookup_putAll_eq_some {o : ObjectStore κ β} {xs : List (κ × β)} {j : κ} {y : β}
    (h : (o.putAll xs).lookup j = some y) : o.lookup j = some y ∨ (j, y) ∈ xs := by
  induction xs generalizing o with
  | nil => exact .inl h
  | cons p xs ih =>
    obtain ⟨k, x⟩ := p
    rw [putAll_cons] at h
    rcases ih h with h | h
    · by_cases hk : k ∈ o
      · rw [putNew_of_mem hk] at h
        exact .inl h
      · rw [putNew_of_notMem hk] at h
        by_cases he : j = k
        · subst he
          rw [Finmap.lookup_insert, Option.some.injEq] at h
          exact .inr (h ▸ List.mem_cons_self)
        · rw [Finmap.lookup_insert_of_ne _ he] at h
          exact .inl h
    · exact .inr (List.mem_cons_of_mem _ h)

/-! ### The keys they add -/

theorem mem_newKeys {o : ObjectStore κ β} {xs : List (κ × β)} {j : κ} :
    j ∈ o.newKeys xs ↔ j ∈ xs.map Prod.fst ∧ j ∉ o := by
  induction xs generalizing o with
  | nil => simp only [newKeys_nil, List.map_nil, List.not_mem_nil, false_and]
  | cons p xs ih =>
    obtain ⟨k, x⟩ := p
    by_cases hk : k ∈ o
    · rw [newKeys_cons_of_mem hk, ih, List.map_cons, List.mem_cons]
      exact ⟨fun h => ⟨.inr h.1, h.2⟩, fun h => ⟨h.1.resolve_left fun e => h.2 (e ▸ hk), h.2⟩⟩
    · rw [newKeys_cons_of_notMem hk, List.mem_cons, ih, Finmap.mem_insert, List.map_cons,
        List.mem_cons]
      by_cases he : j = k
      · simp only [he, hk, true_or, not_false_eq_true, and_true]
      · simp only [he, false_or]

theorem newKeys_nodup (o : ObjectStore κ β) (xs : List (κ × β)) : (o.newKeys xs).Nodup := by
  induction xs generalizing o with
  | nil => exact List.nodup_nil
  | cons p xs ih =>
    obtain ⟨k, x⟩ := p
    by_cases hk : k ∈ o
    · rw [newKeys_cons_of_mem hk]
      exact ih o
    · rw [newKeys_cons_of_notMem hk, List.nodup_cons, mem_newKeys]
      exact ⟨fun h => h.2 (Finmap.mem_insert.mpr (.inl rfl)), ih _⟩

/-- The distinct keys of the writes that the store lacks. -/
def absentKeys (o : ObjectStore κ β) (xs : List (κ × β)) : Finset κ :=
  (xs.map Prod.fst).toFinset.filter (· ∉ o)

theorem newKeys_length (o : ObjectStore κ β) (xs : List (κ × β)) :
    (o.newKeys xs).length = (o.absentKeys xs).card := by
  rw [← List.toFinset_card_of_nodup (newKeys_nodup o xs)]
  congr 1
  ext j
  rw [List.mem_toFinset, mem_newKeys, absentKeys, Finset.mem_filter, List.mem_toFinset]

/-! ### Undoing the writes -/

theorem lookup_eraseAll (o : ObjectStore κ β) (ks : List κ) (j : κ) :
    (o.eraseAll ks).lookup j = if j ∈ ks then none else o.lookup j := by
  induction ks generalizing o with
  | nil => rw [eraseAll_nil, if_neg List.not_mem_nil]
  | cons k ks ih =>
    rw [eraseAll_cons, ih]
    by_cases he : j = k
    · rw [he, Finmap.lookup_erase, ite_self, if_pos List.mem_cons_self]
    · simp only [Finmap.lookup_erase_ne he, List.mem_cons, he, false_or]

theorem mem_eraseAll {o : ObjectStore κ β} {ks : List κ} {j : κ} :
    j ∈ o.eraseAll ks ↔ j ∈ o ∧ j ∉ ks := by
  rw [← Finmap.lookup_isSome, lookup_eraseAll, ← Finmap.lookup_isSome]
  split_ifs with h <;> simp [h]

/-- Erasing the keys the writes added restores the store. -/
theorem eraseAll_newKeys (o : ObjectStore κ β) (xs : List (κ × β)) :
    (o.putAll xs).eraseAll (o.newKeys xs) = o := by
  refine Finmap.ext_lookup fun j => ?_
  rw [lookup_eraseAll]
  split_ifs with h
  · exact (Finmap.lookup_eq_none.mpr (mem_newKeys.mp h).2).symm
  · by_cases hj : j ∈ o
    · exact lookup_putAll_of_mem hj
    · rw [Finmap.lookup_eq_none.mpr hj, Finmap.lookup_eq_none, mem_putAll]
      exact fun hm => hm.elim hj fun hx => h (mem_newKeys.mpr ⟨hx, hj⟩)

/-- Writes that add a key change the store. -/
theorem putAll_ne_self {o : ObjectStore κ β} {xs : List (κ × β)} (h : o.newKeys xs ≠ []) :
    o.putAll xs ≠ o := by
  obtain ⟨k, hk⟩ := List.exists_mem_of_ne_nil _ h
  obtain ⟨hx, ho⟩ := mem_newKeys.mp hk
  exact fun he => ho (he ▸ mem_putAll.mpr (.inr hx))

/-! ### What the store amounts to -/

def total (size : β → Nat) (o : ObjectStore κ β) : Nat := (o.entries.map fun e => size e.2).sum

theorem total_insert {o : ObjectStore κ β} {k : κ} (h : k ∉ o) (size : β → Nat) (x : β) :
    total size (o.insert k x) = size x + o.total size := by
  rw [total, Finmap.entries_insert_of_notMem h, Multiset.map_cons, Multiset.sum_cons, total]

/-- The total over the objects of `o'` whose keys `o` lacks. -/
def addedTotal (size : β → Nat) (o o' : ObjectStore κ β) : Nat :=
  ((o'.entries.filter fun e => e.1 ∉ o).map fun e => size e.2).sum

theorem total_of_extends {o o' : ObjectStore κ β} (h : ∀ k ∈ o, o'.lookup k = o.lookup k)
    (size : β → Nat) : o'.total size = o.total size + addedTotal size o o' := by
  have hold : o'.entries.filter (fun e => e.1 ∈ o) = o.entries := by
    apply (Multiset.Nodup.ext (o'.nodup_entries.filter _) o.nodup_entries).mpr
    rintro ⟨k, x⟩
    rw [Multiset.mem_filter, ← Finmap.lookup_eq_some_iff, ← Finmap.lookup_eq_some_iff]
    constructor
    · rintro ⟨hx, hk⟩
      rwa [← h k hk]
    · intro hx
      have hk : k ∈ o := Finmap.mem_of_lookup_eq_some hx
      exact ⟨(h k hk).trans hx, hk⟩
  calc o'.total size
      = ((o'.entries.filter (fun e => e.1 ∈ o) +
          o'.entries.filter (fun e => e.1 ∉ o)).map fun e => size e.2).sum := by
        rw [Multiset.filter_add_not, total]
    _ = o.total size + addedTotal size o o' := by
        rw [hold, Multiset.map_add, Multiset.sum_add, total, addedTotal]

/-- The total of a store may be read off any table of its keys with their sizes. -/
theorem total_eq_sum_dedup [DecidableEq (κ × Nat)] {o : ObjectStore κ β} (size : β → Nat)
    {rows : List (κ × Nat)}
    (h : ∀ k n, (k, n) ∈ rows ↔ ∃ x, o.lookup k = some x ∧ size x = n) :
    o.total size = (rows.dedup.map Prod.snd).sum := by
  have hnodup : (o.entries.map fun e => (e.1, size e.2)).Nodup := by
    apply Multiset.Nodup.of_map Prod.fst
    rw [Multiset.map_map]
    exact o.nodupKeys.nodup_keys
  have hpairs : (o.entries.map fun e => (e.1, size e.2)) = (rows.dedup : Multiset (κ × Nat)) := by
    apply (Multiset.Nodup.ext hnodup (Multiset.coe_nodup.mpr (List.nodup_dedup _))).mpr
    rintro ⟨k, n⟩
    rw [Multiset.mem_coe, List.mem_dedup, h, Multiset.mem_map]
    constructor
    · rintro ⟨⟨j, x⟩, hmem, heq⟩
      rw [Prod.mk.injEq] at heq
      obtain ⟨rfl, rfl⟩ := heq
      exact ⟨x, Finmap.lookup_eq_some_iff.mpr hmem, rfl⟩
    · rintro ⟨x, hx, rfl⟩
      exact ⟨⟨k, x⟩, Finmap.lookup_eq_some_iff.mp hx, rfl⟩
  calc o.total size = ((o.entries.map fun e => (e.1, size e.2)).map Prod.snd).sum := by
        rw [Multiset.map_map]
        rfl
    _ = (rows.dedup.map Prod.snd).sum := by
        rw [hpairs, Multiset.map_coe, Multiset.sum_coe]

end ObjectStore
end Library
