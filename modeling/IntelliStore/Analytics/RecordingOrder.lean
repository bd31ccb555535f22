import IntelliStore.Analytics.AccessStats

/-! The row of a file against the accesses recorded for it, in the order of their recording. -/

namespace IntelliStore.Analytics
open Library Postgres

namespace AccessStats

/-- `recordAccess` for one access after the other. -/
def recordAll (s : AccessStats) (fileId : String) (accesses : List Nat) : Option AccessStats :=
  accesses.foldlM (fun s accessedAt => s.recordAccess fileId accessedAt) s

/-- What one recording makes of the row of its file. -/
def upsert (id : Uuid) (row : Option FileAccessStats) (accessedAt : Nat) :
    Option (Option FileAccessStats) :=
  match row with
  | some r => if isInt4 (r.accessCount + 1) then
      some (some { r with accessCount := r.accessCount + 1, lastAccessedAt := some accessedAt })
    else none
  | none => some (some ⟨id, 1, some accessedAt, some accessedAt⟩)

variable {s : AccessStats} {fileId : String} {id : Uuid}

theorem recordAccess_row (hid : uuidIn fileId = some id) (accessedAt : Nat) :
    (s.recordAccess fileId accessedAt).map (·.findByFileId id) =
      upsert id (s.findByFileId id) accessedAt := by
  unfold recordAccess
  rw [hid]
  dsimp only
  split
  · rename_i r hr
    rw [hr, upsert]
    split_ifs
    · rw [Option.map_some, findByFileId, find_update (g := fun r => { r with
        accessCount := r.accessCount + 1, lastAccessedAt := some accessedAt }) fun _ => rfl]
      rw [findByFileId] at hr
      rw [hr]
      simp
    · rfl
  · rename_i hnone
    have hrow : upsert id (s.findByFileId id) accessedAt =
        some (some ⟨id, 1, some accessedAt, some accessedAt⟩) := by rw [hnone, upsert]
    rw [hrow, Option.map_some, findByFileId, List.find?_append]
    rw [findByFileId] at hnone
    rw [hnone]
    simp

theorem recordAll_row (hid : uuidIn fileId = some id) (accesses : List Nat) :
    (s.recordAll fileId accesses).map (·.findByFileId id) =
      accesses.foldlM (upsert id) (s.findByFileId id) := by
  induction accesses generalizing s with
  | nil => rfl
  | cons t accesses ih =>
    rw [recordAll, List.foldlM_cons, List.foldlM_cons, ← recordAccess_row hid]
    cases s.recordAccess fileId t with
    | none => rfl
    | some s' => exact ih

/-- The count, the access recorded first and the one recorded last. -/
def recorded (id : Uuid) (accesses : List Nat) : Option FileAccessStats :=
  accesses.head?.map fun _ => ⟨id, accesses.length, accesses.head?, accesses.getLast?⟩

theorem foldlM_upsert (id : Uuid) (accesses : List Nat) : accesses.foldlM (upsert id) none =
    if isInt4 accesses.length then some (recorded id accesses) else none := by
  induction accesses using List.reverseRecOn with
  | nil => rfl
  | append_singleton accesses t ih =>
    rw [List.foldlM_append, ih, List.length_append, List.length_singleton]
    cases accesses with
    | nil => rfl
    | cons first accesses =>
      have hlast : (first :: (accesses ++ [t])).getLast? = some t := by
        rw [← List.cons_append, List.getLast?_concat]
      have hnext : upsert id (recorded id (first :: accesses)) t =
          if isInt4 ((first :: accesses).length + 1) then
            some (recorded id (first :: accesses ++ [t])) else none := by
        simp [recorded, upsert, hlast]
      by_cases hint : isInt4 (first :: accesses).length = true
      · rw [if_pos hint, ← hnext, Option.bind_eq_bind, Option.bind_some, List.foldlM_cons]
        cases upsert id (recorded id (first :: accesses)) t <;> rfl
      · have hmore : ¬isInt4 ((first :: accesses).length + 1) = true := fun h =>
          hint (decide_eq_true (Nat.lt_of_succ_lt (of_decide_eq_true h)))
        rw [if_neg hint, if_neg hmore]
        rfl

/-- The row that the accesses have in common, whatever their order. -/
def aggregate (id : Uuid) (accesses : List Nat) : Option FileAccessStats :=
  accesses.min?.map fun _ => ⟨id, accesses.length, accesses.min?, accesses.max?⟩

/-- Recorded in this order, the accesses leave `row` for their file. -/
def Leaves (s : AccessStats) (fileId : String) (id : Uuid) (order : List Nat)
    (row : Option FileAccessStats) : Prop :=
  ∃ t, s.recordAll fileId order = some t ∧ t.findByFileId id = row

theorem recorded_eq_aggregate {accesses : List Nat} : recorded id accesses = aggregate id accesses ↔
    accesses.head? = accesses.min? ∧ accesses.getLast? = accesses.max? := by
  cases accesses with
  | nil => simp [recorded, aggregate]
  | cons first accesses =>
    obtain ⟨least, hleast⟩ := Option.isSome_iff_exists.mp
      (List.isSome_min?_of_ne_nil (List.cons_ne_nil first accesses))
    rw [recorded, aggregate, hleast]
    simp

theorem min?_perm {order accesses : List Nat} (h : order.Perm accesses) :
    order.min? = accesses.min? := by
  apply Option.ext
  intro t
  simp only [List.min?_eq_some_iff, h.mem_iff]

theorem max?_perm {order accesses : List Nat} (h : order.Perm accesses) :
    order.max? = accesses.max? := by
  apply Option.ext
  intro t
  simp only [List.max?_eq_some_iff, h.mem_iff]

theorem aggregate_perm {order accesses : List Nat} (h : order.Perm accesses) :
    aggregate id order = aggregate id accesses := by
  rw [aggregate, aggregate, min?_perm h, max?_perm h, h.length_eq]

/-- An order suits the row if the earliest access comes first, and the latest last. -/
theorem leaves_aggregate_iff (hid : uuidIn fileId = some id) (hnew : s.findByFileId id = none)
    (order : List Nat) : s.Leaves fileId id order (aggregate id order) ↔
      isInt4 order.length = true ∧ order.head? = order.min? ∧ order.getLast? = order.max? := by
  have hrow : (s.recordAll fileId order).map (·.findByFileId id) =
      if isInt4 order.length then some (recorded id order) else none := by
    rw [recordAll_row hid, hnew, foldlM_upsert]
  have hends : recorded id order = aggregate id order ↔
    order.head? = order.min? ∧ order.getLast? = order.max? := recorded_eq_aggregate
  rw [← hends]
  unfold Leaves
  by_cases hint : isInt4 order.length = true
  · rw [if_pos hint, Option.map_eq_some_iff] at hrow
    obtain ⟨t, ht, hfind⟩ := hrow
    simp [ht, hfind, hint]
  · rw [if_neg hint, Option.map_eq_none_iff] at hrow
    simp [hrow, hint]

/-- Every order suits the row only where there is one time. -/
theorem forall_perm_ends_iff (accesses : List Nat) :
    (∀ order : List Nat, order.Perm accesses →
      order.head? = accesses.min? ∧ order.getLast? = accesses.max?) ↔
        ∀ t ∈ accesses, ∀ t' ∈ accesses, t = t' := by
  constructor
  · intro h
    have hleast : ∀ t ∈ accesses, ∀ t' ∈ accesses, t ≤ t' := by
      intro t ht t' ht'
      have hperm : (t :: accesses.erase t).Perm accesses := (List.perm_cons_erase ht).symm
      have hmin : accesses.min? = some t := (h _ hperm).1.symm
      exact (List.min?_eq_some_iff.mp hmin).2 t' ht'
    exact fun t ht t' ht' => le_antisymm (hleast t ht t' ht') (hleast t' ht' t ht)
  · intro h order hperm
    rw [← min?_perm hperm, ← max?_perm hperm]
    have hall : ∀ t ∈ order, ∀ t' ∈ order, t = t' := fun t ht t' ht' =>
      h t (hperm.mem_iff.mp ht) t' (hperm.mem_iff.mp ht')
    cases order with
    | nil => exact ⟨rfl, rfl⟩
    | cons first order =>
      have hmin : (first :: order).min? = some first := List.min?_eq_some_iff.mpr
        ⟨List.mem_cons_self, fun t ht => (hall first List.mem_cons_self t ht).le⟩
      have hmax : (first :: order).max? = some first := List.max?_eq_some_iff.mpr
        ⟨List.mem_cons_self, fun t ht => (hall t ht first List.mem_cons_self).le⟩
      refine ⟨hmin.symm, ?_⟩
      rw [hmax, List.getLast?_eq_some_getLast (List.cons_ne_nil first order), Option.some_inj]
      exact hall _ (List.getLast_mem _) _ List.mem_cons_self

/-- An order of recording leaves the aggregate if and only if it starts with the earliest access and
ends with the latest, and all orders do if and only if there is only one time. -/
theorem recording_order_iff (s : AccessStats) (fileId : String) (id : Uuid)
    (hid : uuidIn fileId = some id) (hnew : s.findByFileId id = none) (accesses : List Nat) :
    (∀ order : List Nat, order.Perm accesses → (s.Leaves fileId id order (aggregate id accesses) ↔
      isInt4 accesses.length = true ∧ order.head? = accesses.min? ∧
        order.getLast? = accesses.max?)) ∧
    ((∀ order : List Nat, order.Perm accesses → s.Leaves fileId id order (aggregate id accesses)) ↔
      isInt4 accesses.length = true ∧ ∀ t ∈ accesses, ∀ t' ∈ accesses, t = t') := by
  have horder : ∀ order : List Nat, order.Perm accesses →
      (s.Leaves fileId id order (aggregate id accesses) ↔ isInt4 accesses.length = true ∧
        order.head? = accesses.min? ∧ order.getLast? = accesses.max?) := by
    intro order hperm
    rw [← aggregate_perm hperm, leaves_aggregate_iff hid hnew, hperm.length_eq, min?_perm hperm,
      max?_perm hperm]
  refine ⟨horder, ?_⟩
  rw [← forall_perm_ends_iff]
  constructor
  · intro h
    refine ⟨((horder accesses (.refl _)).mp (h accesses (.refl _))).1, fun order hperm => ?_⟩
    exact ((horder order hperm).mp (h order hperm)).2
  · exact fun h order hperm => (horder order hperm).mpr ⟨h.1, h.2 order hperm⟩

/-! Two downloads, recorded the other way round and in order. -/

theorem late_access_recorded_last : ¬∀ (s : AccessStats) (fileId : String) (id : Uuid),
    uuidIn fileId = some id → s.findByFileId id = none → ∀ accesses order : List Nat,
      order.Perm accesses → s.Leaves fileId id order (aggregate id accesses) := by
  intro h
  have hid : uuidIn "00000000-0000-0000-0000-00000000000a" = some 10 := by decide
  have hswap : [5, 3].Perm [3, 5] := .swap 3 5 []
  have hleaves := h .empty _ 10 hid rfl [3, 5] [5, 3] hswap
  rw [← aggregate_perm hswap, leaves_aggregate_iff hid rfl] at hleaves
  exact absurd hleaves.2.1 (by decide)

theorem recording_order_iff_sample :
    AccessStats.empty.Leaves "00000000-0000-0000-0000-00000000000a" 10 [3, 4, 3, 5]
      (aggregate 10 [3, 3, 4, 5]) := by
  have hperm : [3, 4, 3, 5].Perm [3, 3, 4, 5] := by decide
  exact ((recording_order_iff .empty _ 10 (by decide) rfl [3, 3, 4, 5]).1 _ hperm).mpr (by decide)

end AccessStats
end IntelliStore.Analytics
