import Mathlib.Algebra.GroupWithZero.Nat
import Mathlib.Data.List.Nodup
import Mathlib.Data.List.Perm.Basic
import Mathlib.Data.List.Sort
import Mathlib.Order.MinMax

/-! Tables as lists of rows: keys under insertion and update, `ORDER BY`, `DISTINCT ON` and
`LIMIT`. -/

namespace Library
variable {α β : Type*}

/-! ### Keys -/

theorem nodup_map_concat {f : α → β} {l : List α} {a : α} (hl : (l.map f).Nodup)
    (ha : f a ∉ l.map f) : ((l ++ [a]).map f).Nodup := by
  rw [List.map_append, List.map_singleton]
  exact List.nodup_append.mpr ⟨hl, List.nodup_singleton _, fun x hx y hy hxy =>
    ha (List.mem_singleton.mp hy ▸ hxy ▸ hx)⟩

theorem mem_map_concat {f : α → β} {l : List α} {a : α} {b : β} (hb : b ∈ l.map f) :
    b ∈ (l ++ [a]).map f := by
  rw [List.map_append]
  exact List.mem_append_left _ hb

/-- An update of some rows that leaves their keys alone. -/
theorem map_update {f : α → β} {g : α → α} (hg : ∀ r, f (g r) = f r) (p : α → Prop)
    [DecidablePred p] (l : List α) :
    (l.map fun r => if p r then g r else r).map f = l.map f := by
  rw [List.map_map]
  refine List.map_congr_left fun r _ => ?_
  by_cases h : p r <;> simp [h, hg]

/-- One update more of rows that are updated by their keys, one after the other. -/
theorem map_update_cons [DecidableEq β] {f : α → β} {g : α → α} (hg : ∀ r, f (g r) = f r)
    (hidem : ∀ r, g (g r) = g r) (k : β) (ks : List β) (l : List α) :
    (l.map fun r => if f r = k then g r else r).map (fun r => if f r ∈ ks then g r else r) =
      l.map fun r => if f r ∈ k :: ks then g r else r := by
  rw [List.map_map]
  refine List.map_congr_left fun r _ => ?_
  by_cases hk : f r = k <;> by_cases hks : f r ∈ ks <;>
    simp only [Function.comp_apply, List.mem_cons, hk, hks, hg, hidem, true_or, false_or, ite_true,
      ite_false, ite_self]

/-- The update of the row of one key changes what is counted by at most that row. -/
theorem countP_update_le [DecidableEq β] {f : α → β} {l : List α} (hl : (l.map f).Nodup) (k : β)
    (g : α → α) (p : α → Bool) :
    (l.map fun r => if f r = k then g r else r).countP p ≤ l.countP p + 1 := by
  have hone : l.countP (fun r => f r = k) ≤ 1 := by
    have hcount := List.nodup_iff_count_le_one.mp hl k
    rw [List.count, List.countP_map] at hcount
    exact hcount
  have hsum : (l.map fun r => if f r = k then g r else r).countP p ≤
      l.countP p + l.countP fun r => f r = k := by
    clear hl hone
    induction l with
    | nil => exact Nat.zero_le _
    | cons r l ih =>
      simp only [List.map_cons, List.countP_cons, decide_eq_true_eq]
      by_cases h : f r = k
      · simp only [h, if_true]
        split_ifs <;> omega
      · simp only [h, if_false]
        omega
  omega

/-- One element of a list, and the others. -/
theorem perm_others {l : List α} {i : Nat} {a : α} (h : l[i]? = some a) :
    l.Perm (a :: l.eraseIdx i) := by
  obtain ⟨hlt, rfl⟩ := List.getElem?_eq_some_iff.mp h
  exact (List.getElem_cons_eraseIdx_perm hlt).symm

theorem set_perm_others {l : List α} {i : Nat} {a : α} (h : l[i]? = some a) (b : α) :
    (l.set i b).Perm (b :: l.eraseIdx i) :=
  List.set_perm_cons_eraseIdx (List.getElem?_eq_some_iff.mp h).1 b

theorem forall_mem_others {l : List α} {i : Nat} {a : α} (h : l[i]? = some a) {p : α → Prop} :
    (∀ x ∈ l, p x) ↔ p a ∧ ∀ o ∈ l.eraseIdx i, p o := by
  simp only [(perm_others h).mem_iff, List.forall_mem_cons]

theorem forall_mem_set {l : List α} {i : Nat} {a : α} (h : l[i]? = some a) {b : α} {p : α → Prop} :
    (∀ x ∈ l.set i b, p x) ↔ p b ∧ ∀ o ∈ l.eraseIdx i, p o := by
  simp only [(set_perm_others h b).mem_iff, List.forall_mem_cons]

/-- What holds between any two elements holds of one and the others. -/
theorem pairwise_others {l : List α} {i : Nat} {a : α} (h : l[i]? = some a) {r : α → α → Prop}
    (hsymm : ∀ {x y}, r x y → r y x) :
    l.Pairwise r ↔ (∀ o ∈ l.eraseIdx i, r a o) ∧ (l.eraseIdx i).Pairwise r := by
  rw [(perm_others h).pairwise_iff hsymm, List.pairwise_cons]

theorem pairwise_set {l : List α} {i : Nat} {a : α} (h : l[i]? = some a) {r : α → α → Prop}
    (hsymm : ∀ {x y}, r x y → r y x) (b : α) :
    (l.set i b).Pairwise r ↔ (∀ o ∈ l.eraseIdx i, r b o) ∧ (l.eraseIdx i).Pairwise r := by
  rw [(set_perm_others h b).pairwise_iff hsymm, List.pairwise_cons]

/-- The rows that reference a key without a row of its own. -/
theorem filter_flatMap_eq_nil {γ : Type*} [DecidableEq γ] {key : β → γ} {rows : β → List α}
    {owner : α → γ} {l : List β} {k : γ} (h : ∀ b ∈ l, ∀ a ∈ rows b, owner a = key b)
    (hk : k ∉ l.map key) : (l.flatMap rows).filter (owner · == k) = [] := by
  refine List.filter_eq_nil_iff.mpr fun a ha hak => hk ?_
  obtain ⟨b, hb, ha⟩ := List.mem_flatMap.mp ha
  rw [← beq_iff_eq.mp hak, h b hb a ha]
  exact List.mem_map_of_mem hb

/-- The rows that reference the key of `b` are those of `b`. -/
theorem filter_flatMap_key {γ : Type*} [DecidableEq γ] {key : β → γ} {rows : β → List α}
    {owner : α → γ} {l : List β} (hkeys : (l.map key).Nodup)
    (h : ∀ b ∈ l, ∀ a ∈ rows b, owner a = key b) {b : β} (hb : b ∈ l) :
    (l.flatMap rows).filter (owner · == key b) = rows b := by
  induction l with
  | nil => cases hb
  | cons c l ih =>
    rw [List.map_cons, List.nodup_cons] at hkeys
    obtain ⟨hc, hl⟩ := List.forall_mem_cons.mp h
    rw [List.flatMap_cons, List.filter_append]
    rcases List.mem_cons.mp hb with rfl | hb
    · rw [List.filter_eq_self.mpr fun a ha => beq_iff_eq.mpr (hc a ha),
        filter_flatMap_eq_nil hl hkeys.1, List.append_nil]
    · have hne : (rows c).filter (owner · == key b) = [] := by
        refine List.filter_eq_nil_iff.mpr fun a ha hab => hkeys.1 ?_
        rw [← hc a ha, beq_iff_eq.mp hab]
        exact List.mem_map_of_mem hb
      rw [hne, ih hkeys.2 hl hb, List.nil_append]

/-! ### Aggregates -/

theorem foldr_max_le_iff [LinearOrder α] {l : List α} {a b : α} :
    l.foldr max b ≤ a ↔ b ≤ a ∧ ∀ x ∈ l, x ≤ a := by
  induction l with
  | nil => exact ⟨fun h => ⟨h, fun x hx => absurd hx List.not_mem_nil⟩, fun h => h.1⟩
  | cons x l ih => rw [List.foldr_cons, max_le_iff, ih, List.forall_mem_cons, and_left_comm]

/-- The maximum of a group whose values are all equal. -/
theorem foldr_max_eq [LinearOrder α] {l : List α} {a b : α} (hne : l ≠ [])
    (h : ∀ x ∈ l, x = a) (hb : b ≤ a) : l.foldr max b = a := by
  cases l with
  | nil => exact absurd rfl hne
  | cons x l =>
    have hrest : l.foldr max b ≤ a :=
      foldr_max_le_iff.mpr ⟨hb, fun y hy => (h y (List.mem_cons_of_mem _ hy)).le⟩
    rw [List.foldr_cons, h x List.mem_cons_self]
    exact max_eq_left hrest

theorem foldr_max_concat [LinearOrder α] (l : List α) (a b : α) :
    (l ++ [a]).foldr max b = max (l.foldr max b) a := by
  induction l with
  | nil => exact max_comm a b
  | cons x l ih => rw [List.cons_append, List.foldr_cons, List.foldr_cons, ih, max_assoc]

/-- A sum over the rows for which there is a value. -/
theorem sum_filterMap (g : α → Option Nat) (l : List α) :
    (l.filterMap g).sum = (l.map fun a => (g a).getD 0).sum := by
  induction l with
  | nil => rfl
  | cons a l ih =>
    rw [List.filterMap_cons, List.map_cons, List.sum_cons, ← ih]
    cases g a with
    | none => exact (Nat.zero_add _).symm
    | some n => rfl

/-! ### `ORDER BY` -/

section
variable {κ : Type*} [LT κ] [DecidableLT κ] [DecidableEq κ]

/-- By `key`, and by `rank` where the keys are equal. -/
def orderBy (key : α → κ) (rank : α → Nat) (l : List α) : List α :=
  l.insertionSort fun a b => key a < key b ∨ (key a = key b ∧ rank a ≤ rank b)

theorem orderBy_perm (key : α → κ) (rank : α → Nat) (l : List α) : (orderBy key rank l).Perm l :=
  List.perm_insertionSort _ l

@[simp] theorem mem_orderBy {key : α → κ} {rank : α → Nat} {l : List α} {a : α} :
    a ∈ orderBy key rank l ↔ a ∈ l := (orderBy_perm key rank l).mem_iff

end

/-- Without `ORDER BY`, the order of a result is not determined. -/
def anyOrder (rank : α → Nat) (l : List α) : List α :=
  l.insertionSort fun a b => rank a ≤ rank b

theorem anyOrder_perm (rank : α → Nat) (l : List α) : (anyOrder rank l).Perm l :=
  List.perm_insertionSort _ l

@[simp] theorem mem_anyOrder {rank : α → Nat} {l : List α} {a : α} :
    a ∈ anyOrder rank l ↔ a ∈ l := (anyOrder_perm rank l).mem_iff

theorem orderedInsert_of_forall {r : α → α → Prop} [DecidableRel r] {a : α} {l : List α}
    (h : ∀ b ∈ l, r a b) : l.orderedInsert r a = a :: l := by
  cases l with
  | nil => rfl
  | cons b l => exact List.orderedInsert_cons_of_le r l (h b List.mem_cons_self)

theorem filter_orderedInsert {r : α → α → Prop} [DecidableRel r] [IsTrans α r] (p : α → Bool) (a : α)
    {l : List α} (h : l.Pairwise r) : (l.orderedInsert r a).filter p =
      if p a then (l.filter p).orderedInsert r a else l.filter p := by
  induction l with
  | nil =>
    rw [List.orderedInsert_nil, List.filter_singleton]
    cases p a <;> rfl
  | cons b l ih =>
    obtain ⟨hb, hl⟩ := List.pairwise_cons.mp h
    have hfirst : r a b → ∀ c ∈ (b :: l).filter p, r a c := by
      intro hab c hc
      rcases List.mem_cons.mp (List.mem_filter.mp hc).1 with rfl | hc
      · exact hab
      · exact trans_of r hab (hb c hc)
    rw [List.orderedInsert_cons]
    split_ifs with hab hpa hpa
    · rw [List.filter_cons_of_pos hpa, orderedInsert_of_forall (hfirst hab)]
    · rw [List.filter_cons_of_neg hpa]
    · rw [List.filter_cons, ih hl, if_pos hpa, List.filter_cons]
      split_ifs with hpb
      · rw [List.orderedInsert_of_not_le r _ hab]
      · rfl
    · rw [List.filter_cons, ih hl, if_neg hpa, List.filter_cons]

/-- A selection from an ordered result. -/
theorem filter_insertionSort {r : α → α → Prop} [DecidableRel r] [IsTrans α r] [Std.Total r]
    (p : α → Bool) (l : List α) :
    (l.insertionSort r).filter p = (l.filter p).insertionSort r := by
  induction l with
  | nil => rfl
  | cons a l ih =>
    rw [List.insertionSort_cons, filter_orderedInsert p a (List.pairwise_insertionSort r l), ih,
      List.filter_cons]
    split_ifs <;> rfl

/-! ### `DISTINCT ON` -/

section
variable {κ : Type*} [DecidableEq κ]

/-- The first row of each value of `key`. -/
def distinctOn (key : α → κ) (l : List α) : List α := l.eraseDupsBy fun a b => key a == key b

theorem distinctOn_cons (key : α → κ) (a : α) (l : List α) :
    distinctOn key (a :: l) = a :: distinctOn key (l.filter fun b => key b ≠ key a) := by
  rw [distinctOn, List.eraseDupsBy_cons, distinctOn]
  congr 2
  refine List.filter_congr fun b _ => ?_
  simp

/-- Induction along the rows that are kept. -/
theorem distinctOn_induction (key : α → κ) {motive : List α → Prop} (nil : motive [])
    (cons : ∀ a l, motive (l.filter fun b => key b ≠ key a) → motive (a :: l)) (l : List α) :
    motive l := by
  have hbound : ∀ n, ∀ l : List α, l.length ≤ n → motive l := by
    intro n
    induction n with
    | zero =>
      intro l hl
      rw [List.length_eq_zero_iff.mp (Nat.le_zero.mp hl)]
      exact nil
    | succ n ih =>
      intro l hl
      cases l with
      | nil => exact nil
      | cons a l =>
        exact cons a l (ih _ ((List.length_filter_le _ l).trans (Nat.le_of_succ_le_succ hl)))
  exact hbound l.length l le_rfl

theorem distinctOn_sublist (key : α → κ) (l : List α) : (distinctOn key l).Sublist l := by
  induction l using distinctOn_induction key with
  | nil => exact List.Sublist.slnil
  | cons a l ih =>
    rw [distinctOn_cons]
    exact (ih.trans List.filter_sublist).cons_cons a

theorem distinctOn_keys (key : α → κ) (l : List α) : ((distinctOn key l).map key).Nodup := by
  induction l using distinctOn_induction key with
  | nil => exact List.nodup_nil
  | cons a l ih =>
    rw [distinctOn_cons, List.map_cons]
    refine List.nodup_cons.mpr ⟨fun hmem => ?_, ih⟩
    obtain ⟨b, hb, hkey⟩ := List.mem_map.mp hmem
    have hkept := (List.mem_filter.mp ((distinctOn_sublist key _).subset hb)).2
    exact of_decide_eq_true hkept hkey

/-- Of the rows with one key, the first in the order is kept. -/
theorem mem_distinctOn {key : α → κ} {r : α → α → Prop} [Std.Refl r] {l : List α}
    (hl : l.Pairwise r) (hanti : ∀ a ∈ l, ∀ b ∈ l, key a = key b → r a b → r b a → a = b) {a : α} :
    a ∈ distinctOn key l ↔ a ∈ l ∧ ∀ b ∈ l, key b = key a → r a b := by
  induction l using distinctOn_induction key with
  | nil => exact iff_of_false List.not_mem_nil fun h => List.not_mem_nil h.1
  | cons first l ih =>
    obtain ⟨hfirst, hrest⟩ := List.pairwise_cons.mp hl
    have hsub : (l.filter fun b => key b ≠ key first).Sublist l := List.filter_sublist
    have hih := ih (hrest.sublist hsub) fun b hb c hc =>
      hanti b (List.mem_cons_of_mem _ (hsub.subset hb)) c (List.mem_cons_of_mem _ (hsub.subset hc))
    rw [distinctOn_cons, List.mem_cons, hih]
    by_cases hkey : key a = key first
    · -- of this key only the first row is left
      have hnot : a ∉ l.filter fun b => key b ≠ key first := fun hmem =>
        of_decide_eq_true (List.mem_filter.mp hmem).2 hkey
      rw [or_iff_left fun h => hnot h.1]
      constructor
      · rintro rfl
        refine ⟨List.mem_cons_self, List.forall_mem_cons.mpr ⟨fun _ => refl a, fun b hb _ => ?_⟩⟩
        exact hfirst b hb
      · rintro ⟨hmem, hall⟩
        rcases List.mem_cons.mp hmem with rfl | hmem
        · rfl
        · exact hanti a (List.mem_cons_of_mem _ hmem) first List.mem_cons_self hkey
            (hall first List.mem_cons_self hkey.symm) (hfirst a hmem)
    · have hne : a ≠ first := fun h => hkey (congrArg key h)
      have hkept : ∀ b, key b = key a →
          (b ∈ l.filter (fun b => key b ≠ key first) ↔ b ∈ first :: l) := by
        intro b hb
        have hkey' : key b ≠ key first := hb ▸ hkey
        have hne' : b ≠ first := fun h => hkey' (congrArg key h)
        simp only [List.mem_filter, List.mem_cons, hne', false_or, hkey', ne_eq,
          not_false_eq_true, decide_true, and_true]
      rw [or_iff_right hne, hkept a rfl]
      exact and_congr_right fun _ => forall_congr' fun b =>
        ⟨fun h hb hba => h ((hkept b hba).mpr hb) hba, fun h hb hba => h ((hkept b hba).mp hb) hba⟩

end

/-! ### `LIMIT` -/

/-- Fewer rows that `p` refuses than there are places leave a place for one that it takes. -/
theorem exists_mem_take {l : List α} {p : α → Bool} {n : Nat} (hsome : ∃ a ∈ l, p a = true)
    (hfew : l.countP (fun a => !p a) < n) : ∃ a ∈ l.take n, p a = true := by
  by_contra hnone
  have hrefuses : ∀ a ∈ l.take n, p a = false := fun a ha =>
    Bool.not_eq_true _ ▸ fun hpa => hnone ⟨a, ha, hpa⟩
  have hrefused : (l.take n).countP (fun a => !p a) = (l.take n).length :=
    List.countP_eq_length.mpr fun a ha => by rw [hrefuses a ha]; rfl
  have hle : (l.take n).countP (fun a => !p a) ≤ l.countP fun a => !p a :=
    (List.take_sublist n l).countP_le
  have hshort : l.length < n := by
    rw [hrefused, List.length_take] at hle
    omega
  obtain ⟨a, ha, hpa⟩ := hsome
  rw [List.take_of_length_le hshort.le] at hrefuses
  rw [hrefuses a ha] at hpa
  cases hpa

end Library
