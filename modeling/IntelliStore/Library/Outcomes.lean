import Mathlib.Data.List.Forall2

/-! Two computations that may fail, compared: both fail with the same error, or both
succeed with related values. Lists of computations that may fail. -/

namespace Library
universe u
variable {ε : Type*} {α β γ δ : Type u}

def Alike (R : α → β → Prop) : Except ε α → Except ε β → Prop
  | .ok a, .ok b => R a b
  | .error e, .error f => e = f
  | _, _ => False

@[simp] theorem alike_ok {R : α → β → Prop} {a : α} {b : β} :
    Alike R (.ok a : Except ε α) (.ok b) ↔ R a b := Iff.rfl

@[simp] theorem alike_error {R : α → β → Prop} {e f : ε} :
    Alike R (.error e : Except ε α) (.error f : Except ε β) ↔ e = f := Iff.rfl

theorem Alike.bind {R : α → β → Prop} {T : γ → δ → Prop} {x : Except ε α} {y : Except ε β}
    {f : α → Except ε γ} {g : β → Except ε δ} (h : Alike R x y)
    (hfg : ∀ a b, R a b → Alike T (f a) (g b)) : Alike T (x >>= f) (y >>= g) := by
  cases x with
  | error e =>
    cases y with
    | error e' => exact h
    | ok b => exact h.elim
  | ok a =>
    cases y with
    | error e' => exact h.elim
    | ok b => exact hfg a b h

/-- The shape of the two outcomes, for a case analysis on both at once. -/
theorem Alike.cases {R : α → β → Prop} {x : Except ε α} {y : Except ε β} (h : Alike R x y) :
    (∃ e, x = .error e ∧ y = .error e) ∨ ∃ a b, x = .ok a ∧ y = .ok b ∧ R a b := by
  cases x with
  | error e =>
    cases y with
    | error e' => exact .inl ⟨e, rfl, congrArg _ (Eq.symm h)⟩
    | ok b => exact h.elim
  | ok a =>
    cases y with
    | error e' => exact h.elim
    | ok b => exact .inr ⟨a, b, rfl, rfl, h⟩

theorem exists_of_mem_right {R : α → β → Prop} {l : List α} {u : List β}
    (h : List.Forall₂ R l u) {b : β} (hb : b ∈ u) : ∃ a ∈ l, R a b := by
  induction h with
  | nil => cases hb
  | cons hr _ ih =>
    rcases List.mem_cons.mp hb with rfl | hb
    · exact ⟨_, List.mem_cons_self, hr⟩
    · obtain ⟨a, ha, hr⟩ := ih hb
      exact ⟨a, List.mem_cons_of_mem _ ha, hr⟩

/-- What is related to a list through another one is its image, if it is so elementwise. -/
theorem eq_map_of_forall₂ {R : α → β → Prop} {T : α → γ → Prop} {f : β → γ} {l : List α}
    {u : List β} {ys : List γ} (h : List.Forall₂ R l u) (h' : List.Forall₂ T l ys)
    (hf : ∀ a, ∀ b ∈ u, R a b → ∀ c, T a c → c = f b) : ys = u.map f := by
  induction h generalizing ys with
  | nil => exact List.forall₂_nil_left_iff.mp h'
  | cons hr _ ih =>
    obtain ⟨c, cs, hc, hcs, rfl⟩ := List.forall₂_cons_left_iff.mp h'
    have hhead := hf _ _ List.mem_cons_self hr c hc
    have htail := ih hcs fun a b hb => hf a b (List.mem_cons_of_mem _ hb)
    rw [List.map_cons, ← hhead, ← htail]

/-- A list of computations that may fail succeeds when each of them does. -/
theorem mapM_eq_ok {f : α → Except ε β} {l : List α} {ys : List β} :
    l.mapM f = .ok ys ↔ List.Forall₂ (fun a b => f a = .ok b) l ys := by
  induction l generalizing ys with
  | nil =>
    rw [List.mapM_nil, List.forall₂_nil_left_iff]
    exact ⟨fun h => (Except.ok.inj h).symm, fun h => h ▸ rfl⟩
  | cons a l ih =>
    rw [List.mapM_cons, List.forall₂_cons_left_iff]
    cases ha : f a with
    | error e =>
      constructor
      · intro h
        cases h
      · rintro ⟨b, u, hb, -⟩
        cases hb
    | ok b =>
      cases hl : l.mapM f with
      | error e =>
        constructor
        · intro h
          cases h
        · rintro ⟨b, u, -, hu, -⟩
          rw [ih.mpr hu] at hl
          cases hl
      | ok bs =>
        constructor
        · intro h
          cases h
          exact ⟨b, bs, rfl, ih.mp hl, rfl⟩
        · rintro ⟨b', u, hb, hu, rfl⟩
          rw [ih.mpr hu] at hl
          cases hb
          cases hl
          rfl

end Library
