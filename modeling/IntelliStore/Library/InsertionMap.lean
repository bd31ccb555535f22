import IntelliStore.Library.Tables
import Mathlib.Algebra.GroupWithZero.Nat
import Mathlib.Data.List.Induction

/-! Maps that list their entries in the order in which the keys were first set, as the `Map` of
JavaScript does. -/

namespace Library

structure InsertionMap (κ α : Type*) where
  entries : List (κ × α)
  keys_nodup : (entries.map Prod.fst).Nodup

namespace InsertionMap
variable {κ α β : Type*}

theorem entries_nodup (m : InsertionMap κ α) : m.entries.Nodup := List.Nodup.of_map _ m.keys_nodup

theorem entry_unique {m : InsertionMap κ α} {k : κ} {a b : α} (h : (k, a) ∈ m.entries)
    (h' : (k, b) ∈ m.entries) : a = b :=
  congrArg Prod.snd (List.inj_on_of_nodup_map m.keys_nodup h h' rfl)

def values (m : InsertionMap κ α) : List α := m.entries.map Prod.snd

def empty : InsertionMap κ α := ⟨[], List.nodup_nil⟩

variable [DecidableEq κ]

def get (m : InsertionMap κ α) (k : κ) : Option α := (m.entries.find? (·.1 == k)).map Prod.snd

/-- A key that is there keeps its place. -/
def set (m : InsertionMap κ α) (k : κ) (a : α) : InsertionMap κ α :=
  if h : k ∈ m.entries.map Prod.fst then
    { entries := m.entries.map fun e => if e.1 = k then (e.1, a) else e
      keys_nodup := by
        rw [map_update (f := Prod.fst) (g := fun e => (e.1, a)) fun _ => rfl]
        exact m.keys_nodup }
  else ⟨m.entries ++ [(k, a)], nodup_map_concat m.keys_nodup h⟩

variable {m : InsertionMap κ α} {k k' : κ} {a b : α}

theorem get_eq_some : m.get k = some a ↔ (k, a) ∈ m.entries := by
  unfold get
  constructor
  · intro h
    obtain ⟨e, he, rfl⟩ := Option.map_eq_some_iff.mp h
    have hkey : e.1 = k := by simpa using List.find?_some he
    rw [← hkey]
    exact List.mem_of_find?_eq_some he
  · intro h
    cases hfind : m.entries.find? (·.1 == k) with
    | none =>
      have hne := List.find?_eq_none.mp hfind (k, a) h
      exact absurd (beq_self_eq_true k) hne
    | some e =>
      obtain ⟨k', b⟩ := e
      have hkey : k' = k := by simpa using List.find?_some hfind
      have hmem := List.mem_of_find?_eq_some hfind
      rw [Option.map_some, Option.some.injEq]
      exact entry_unique (hkey ▸ hmem) h

theorem get_eq_none : m.get k = none ↔ k ∉ m.entries.map Prod.fst := by
  rw [Option.eq_none_iff_forall_ne_some]
  constructor
  · intro h hmem
    obtain ⟨⟨k', a⟩, he, rfl⟩ := List.mem_map.mp hmem
    exact h a (get_eq_some.mpr he)
  · intro h a ha
    exact h (List.mem_map_of_mem (f := Prod.fst) (get_eq_some.mp ha))

theorem entries_set_of_new (h : k ∉ m.entries.map Prod.fst) :
    (m.set k a).entries = m.entries ++ [(k, a)] := by rw [set, dif_neg h]

theorem entries_set_of_mem (h : k ∈ m.entries.map Prod.fst) :
    (m.set k a).entries = m.entries.map fun e => if e.1 = k then (e.1, a) else e := by
  rw [set, dif_pos h]

theorem keys_set (m : InsertionMap κ α) (k : κ) (a : α) :
    (m.set k a).entries.map Prod.fst ⊆ k :: m.entries.map Prod.fst := by
  unfold set
  split_ifs with h
  · rw [map_update (f := Prod.fst) (g := fun e => (e.1, a)) fun _ => rfl]
    exact List.subset_cons_self _ _
  · rw [List.map_append, List.map_singleton]
    intro x hx
    rw [List.mem_append, List.mem_singleton] at hx
    exact List.mem_cons.mpr hx.symm

/-- Keys among those of a list stay so when the new one is added to it. -/
theorem keys_set_concat {ks : List κ} (h : ∀ k' ∈ m.entries.map Prod.fst, k' ∈ ks) :
    ∀ k' ∈ (m.set k a).entries.map Prod.fst, k' ∈ ks ++ [k] := by
  intro k' hk
  rw [List.mem_append, List.mem_singleton]
  rcases List.mem_cons.mp (keys_set m k a hk) with rfl | hk
  · exact .inr rfl
  · exact .inl (h k' hk)

theorem mem_entries_set {k' : κ} : (k', b) ∈ (m.set k a).entries ↔
    (k' = k ∧ b = a) ∨ (k' ≠ k ∧ (k', b) ∈ m.entries) := by
  unfold set
  split_ifs with h
  · rw [List.mem_map]
    constructor
    · rintro ⟨e, he, heq⟩
      split_ifs at heq with hk
      · cases heq
        exact .inl ⟨hk, rfl⟩
      · exact .inr ⟨by rw [heq] at hk; exact hk, heq ▸ he⟩
    · rintro (⟨rfl, rfl⟩ | ⟨hne, hmem⟩)
      · obtain ⟨e, he, rfl⟩ := List.mem_map.mp h
        exact ⟨e, he, if_pos rfl⟩
      · exact ⟨(k', b), hmem, if_neg hne⟩
  · rw [List.mem_append, List.mem_singleton, Prod.mk.injEq]
    constructor
    · rintro (hmem | heq)
      · refine .inr ⟨fun hk => h ?_, hmem⟩
        rw [← hk]
        exact List.mem_map_of_mem (f := Prod.fst) hmem
      · exact .inl heq
    · rintro (heq | ⟨-, hmem⟩)
      · exact .inr heq
      · exact .inl hmem

theorem get_set (m : InsertionMap κ α) (k k' : κ) (a : α) :
    (m.set k a).get k' = if k' = k then some a else m.get k' := by
  apply Option.ext
  intro b
  rw [get_eq_some, mem_entries_set]
  split_ifs with h
  · simp [h, eq_comm]
  · simp [h, get_eq_some]

/-- The entry that is set, and the entries of the other keys. -/
theorem entries_set_perm (m : InsertionMap κ α) (k : κ) (a : α) :
    (m.set k a).entries.Perm ((k, a) :: m.entries.filter (·.1 ≠ k)) := by
  have hnodup : ((k, a) :: m.entries.filter (·.1 ≠ k)).Nodup := by
    refine List.nodup_cons.mpr ⟨fun hmem => ?_, m.entries_nodup.filter _⟩
    exact of_decide_eq_true (List.mem_filter.mp hmem).2 rfl
  apply (List.perm_ext_iff_of_nodup (m.set k a).entries_nodup hnodup).mpr
  rintro ⟨k', b⟩
  rw [mem_entries_set, List.mem_cons, List.mem_filter, Prod.mk.injEq, decide_eq_true_eq,
    and_comm (a := k' ≠ k)]

theorem entries_perm (h : m.get k = some b) :
    m.entries.Perm ((k, b) :: m.entries.filter (·.1 ≠ k)) := by
  have hnodup : ((k, b) :: m.entries.filter (·.1 ≠ k)).Nodup := by
    refine List.nodup_cons.mpr ⟨fun hmem => ?_, m.entries_nodup.filter _⟩
    exact of_decide_eq_true (List.mem_filter.mp hmem).2 rfl
  apply (List.perm_ext_iff_of_nodup m.entries_nodup hnodup).mpr
  rintro ⟨k', c⟩
  rw [List.mem_cons, List.mem_filter, Prod.mk.injEq, decide_eq_true_eq]
  by_cases hk : k' = k
  · subst hk
    constructor
    · intro hmem
      exact .inl ⟨rfl, entry_unique hmem (get_eq_some.mp h)⟩
    · rintro (⟨-, rfl⟩ | ⟨-, hne⟩)
      · exact get_eq_some.mp h
      · exact absurd rfl hne
  · simp [hk]

/-- What a new value adds to a sum over the values. -/
theorem sum_set (m : InsertionMap κ α) (k : κ) (a : α) (f : α → Nat) :
    ((m.set k a).values.map f).sum + ((m.get k).map f).getD 0 = (m.values.map f).sum + f a := by
  have hset := (((m.entries_set_perm k a).map Prod.snd).map f).sum_nat
  rw [List.map_cons, List.map_cons, List.sum_cons] at hset
  dsimp only at hset
  cases hk : m.get k with
  | none =>
    have hkeep : m.entries.filter (·.1 ≠ k) = m.entries := by
      refine List.filter_eq_self.mpr fun e he => decide_eq_true fun heq => get_eq_none.mp hk ?_
      exact heq ▸ List.mem_map_of_mem he
    rw [hkeep] at hset
    rw [values, values, hset, Option.map_none, Option.getD_none, Nat.add_zero, Nat.add_comm]
  | some b =>
    have hsum := (((entries_perm hk).map Prod.snd).map f).sum_nat
    rw [List.map_cons, List.map_cons, List.sum_cons] at hsum
    dsimp only at hsum
    rw [values, values, hset, hsum, Option.map_some, Option.getD_some]
    omega

/-- The entries of a map that is filled from a list, when no key has two values in it. -/
theorem mem_entries_foldl_set {key : β → κ} {value : β → α} {l : List β}
    (h : ∀ x ∈ l, ∀ y ∈ l, key x = key y → value x = value y) {e : κ × α} :
    e ∈ (l.foldl (fun m x => m.set (key x) (value x)) empty).entries ↔
      e ∈ l.map fun x => (key x, value x) := by
  obtain ⟨k, a⟩ := e
  induction l using List.reverseRecOn with
  | nil => rfl
  | append_singleton l x ih =>
    have hl : ∀ y ∈ l, ∀ z ∈ l, key y = key z → value y = value z := fun y hy z hz =>
      h y (List.mem_append_left _ hy) z (List.mem_append_left _ hz)
    rw [List.foldl_append, List.foldl_cons, List.foldl_nil, mem_entries_set, ih hl, List.map_append,
      List.map_singleton, List.mem_append, List.mem_singleton, Prod.mk.injEq]
    constructor
    · rintro (heq | ⟨-, hmem⟩)
      · exact .inr heq
      · exact .inl hmem
    · rintro (hmem | heq)
      · by_cases hk : k = key x
        · obtain ⟨y, hy, heq⟩ := List.mem_map.mp hmem
          cases heq
          exact .inl ⟨hk, h y (List.mem_append_left _ hy) x List.mem_concat_self hk⟩
        · exact .inr ⟨hk, hmem⟩
      · exact .inl heq

end InsertionMap
end Library
