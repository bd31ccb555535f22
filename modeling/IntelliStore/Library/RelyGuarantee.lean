import IntelliStore.Library.Programs
import Mathlib.Data.List.Basic

/-! Rely–guarantee reasoning: what a program relies on from the others between its commands,
what its own commands guarantee to them, and pools of such programs over one state. -/

namespace Library

/-- When a command may take effect, what the others may do before it, and what it does to the
state they share. -/
structure Contract (C : Type) (R : C → Type) (ε E S : Type) where
  exec : (c : C) → E → S → Except ε (R c) × S
  allowed : C → E → S → Prop
  rely : S → S → Prop
  guar : S → S → Prop

structure Contract.Lawful {C : Type} {R : C → Type} {ε E S : Type} (w : Contract C R ε E S) :
    Prop where
  refl : ∀ s, w.rely s s
  trans : ∀ s t u, w.rely s t → w.rely t u → w.rely s u

namespace Prog
variable {C : Type} {R : C → Type} {ε α β E S : Type}

/-- Every command keeps the guarantee and every result meets `Q`. -/
def sat (w : Contract C R ε E S) (Q : Except ε α → S → Prop) : Prog C R ε α → S → Prop
  | .done r, s => Q r s
  | .call c next, s => ∀ t, w.rely s t → ∀ e, w.allowed c e t →
      w.guar t (w.exec c e t).2 ∧ (next (w.exec c e t).1).sat w Q (w.exec c e t).2

/-- `Q` after the program that follows a result, if the result is a value. -/
def sequel (w : Contract C R ε E S) (Q : Except ε β → S → Prop) (f : α → Prog C R ε β) :
    Except ε α → S → Prop
  | .ok a, s => (f a).sat w Q s
  | .error e, s => Q (.error e) s

/-- `Q` after the handler that follows a result, if the result is an error. -/
def rescue (w : Contract C R ε E S) (Q : Except ε α → S → Prop) (f : ε → Prog C R ε α) :
    Except ε α → S → Prop
  | .ok a, s => Q (.ok a) s
  | .error e, s => (f e).sat w Q s

/-- The program issues no command outside `K`. -/
def OnlyIssues (K : C → Prop) : Prog C R ε α → Prop
  | .done _ => True
  | .call c next => K c ∧ ∀ r, (next r).OnlyIssues K

/-- Every command of the run is allowed where it takes effect. -/
def Meets (allowed : C → E → S → Prop) (exec : (c : C) → E → S → Except ε (R c) × S) :
    Prog C R ε α → (Nat → E) → S → Prop
  | .done _, _, _ => True
  | .call c next, es, s => allowed c (es 0) s ∧
      (next (exec c (es 0) s).1).Meets allowed exec (fun n => es (n + 1)) (exec c (es 0) s).2

theorem Meets.and {allowed allowed' : C → E → S → Prop}
    {exec : (c : C) → E → S → Except ε (R c) × S} {p : Prog C R ε α} {es : Nat → E} {s : S}
    (h : p.Meets allowed exec es s) (h' : p.Meets allowed' exec es s) :
    p.Meets (fun c e s => allowed c e s ∧ allowed' c e s) exec es s := by
  induction p generalizing es s with
  | done r => trivial
  | call c next ih => exact ⟨⟨h.1, h'.1⟩, ih _ h.2 h'.2⟩

/-- A run is finite, so what its commands must meet can be checked. -/
instance Meets.decidable {allowed : C → E → S → Prop} [∀ c e s, Decidable (allowed c e s)]
    (exec : (c : C) → E → S → Except ε (R c) × S) :
    (p : Prog C R ε α) → (es : Nat → E) → (s : S) → Decidable (p.Meets allowed exec es s)
  | .done _, _, _ => .isTrue trivial
  | .call c next, es, s =>
    have : Decidable ((next (exec c (es 0) s).1).Meets allowed exec (fun n => es (n + 1))
      (exec c (es 0) s).2) := Meets.decidable exec _ _ _
    inferInstanceAs (Decidable (_ ∧ _))

/-- The program has a command to go. -/
def running : Prog C R ε α → Bool
  | .done _ => false
  | .call _ _ => true

theorem meets_of_forall {allowed : C → E → S → Prop}
    {exec : (c : C) → E → S → Except ε (R c) × S} (h : ∀ c e s, allowed c e s)
    (p : Prog C R ε α) (es : Nat → E) (s : S) : p.Meets allowed exec es s := by
  induction p generalizing es s with
  | done r => trivial
  | call c next ih => exact ⟨h c _ _, ih _ _ _⟩

/-! ### Rules -/

section
variable {w : Contract C R ε E S} {Q Q' : Except ε α → S → Prop} {s t : S}

theorem sat_bind (p : Prog C R ε α) (f : α → Prog C R ε β) {Q : Except ε β → S → Prop} :
    (p >>= f).sat w Q s ↔ p.sat w (sequel w Q f) s := by
  induction p generalizing s with
  | done r => cases r <;> rfl
  | call c next ih =>
    exact forall_congr' fun t => imp_congr_right fun _ => forall_congr' fun e =>
      imp_congr_right fun _ => and_congr_right fun _ => ih _

theorem sat_tryCatch (p : Prog C R ε α) (f : ε → Prog C R ε α) :
    (tryCatch p f).sat w Q s ↔ p.sat w (rescue w Q f) s := by
  induction p generalizing s with
  | done r => cases r <;> rfl
  | call c next ih =>
    exact forall_congr' fun t => imp_congr_right fun _ => forall_congr' fun e =>
      imp_congr_right fun _ => and_congr_right fun _ => ih _

/-- A command whose reply the program goes on with. -/
theorem sat_command {c : C} {f : R c → Prog C R ε β} {Q : Except ε β → S → Prop}
    (h : ∀ t, w.rely s t → ∀ e, w.allowed c e t → w.guar t (w.exec c e t).2 ∧
      (∀ err, (w.exec c e t).1 = .error err → Q (.error err) (w.exec c e t).2) ∧
      ∀ a, (w.exec c e t).1 = .ok a → (f a).sat w Q (w.exec c e t).2) :
    (perform c >>= f).sat w Q s := by
  intro t ht e he
  obtain ⟨hguar, herror, hok⟩ := h t ht e he
  refine ⟨hguar, ?_⟩
  show ((.done (w.exec c e t).1 : Prog C R ε (R c)) >>= f).sat w Q (w.exec c e t).2
  cases hres : (w.exec c e t).1 with
  | error err => exact herror err hres
  | ok a => exact hok a hres

theorem sat_mono {p : Prog C R ε α} (h : ∀ r t, Q r t → Q' r t) (hp : p.sat w Q s) :
    p.sat w Q' s := by
  induction p generalizing s with
  | done r => exact h r s hp
  | call c next ih =>
    intro t ht e he
    obtain ⟨hguar, hnext⟩ := hp t ht e he
    exact ⟨hguar, ih _ hnext⟩

/-- Between two commands the others keep what the program has established. -/
theorem sat_stable (hw : w.Lawful) (hQ : ∀ r s t, w.rely s t → Q r s → Q r t) {p : Prog C R ε α}
    (hp : p.sat w Q s) (hst : w.rely s t) : p.sat w Q t := by
  cases p with
  | done r => exact hQ r s t hst hp
  | call c next => exact fun u hu e he => hp u (hw.trans s t u hst hu) e he

/-- A program whose commands, and the others, all keep `P`. -/
theorem sat_of_issues {K : C → Prop} (P : S → Prop) (hrely : ∀ s t, w.rely s t → P s → P t)
    (hexec : ∀ c e s, K c → w.allowed c e s → P s →
      w.guar s (w.exec c e s).2 ∧ P (w.exec c e s).2)
    {p : Prog C R ε α} (hp : p.OnlyIssues K) (hs : P s) : p.sat w (fun _ t => P t) s := by
  induction p generalizing s with
  | done r => exact hs
  | call c next ih =>
    intro t ht e he
    obtain ⟨hguar, hnext⟩ := hexec c e t hp.1 he (hrely s t ht hs)
    exact ⟨hguar, ih _ (hp.2 _) hnext⟩

/-- What the guarantee and the others keep holds after the program, too. -/
theorem sat_frame (P : S → Prop) (hrely : ∀ s t, w.rely s t → P s → P t)
    (hguar : ∀ s t, w.guar s t → P s → P t) {p : Prog C R ε α} (hp : p.sat w Q s) (hs : P s) :
    p.sat w (fun r t => Q r t ∧ P t) s := by
  induction p generalizing s with
  | done r => exact ⟨hp, hs⟩
  | call c next ih =>
    intro t ht e he
    obtain ⟨hg, hnext⟩ := hp t ht e he
    exact ⟨hg, ih _ hnext (hguar _ _ hg (hrely s t ht hs))⟩

/-- The program alone. -/
theorem sat_run (hw : w.Lawful) (es : Nat → E) {p : Prog C R ε α} (hp : p.sat w Q s)
    (hes : p.Meets w.allowed w.exec es s) : Q (p.run w.exec es s).1 (p.run w.exec es s).2 := by
  induction p generalizing s es with
  | done r => exact hp
  | call c next ih =>
    obtain ⟨-, hnext⟩ := hp s (hw.refl s) (es 0) hes.1
    exact ih _ _ hnext hes.2

end

section
variable {K : C → Prop}

theorem onlyIssues_perform {c : C} (h : K c) : (perform c : Prog C R ε (R c)).OnlyIssues K :=
  ⟨h, fun _ => trivial⟩

/-- What the commands keep in any circumstances, a run of the program keeps. -/
theorem run_of_issues (P : S → Prop) {exec : (c : C) → E → S → Except ε (R c) × S}
    (hexec : ∀ c e s, K c → P s → P (exec c e s).2) {p : Prog C R ε α} (hp : p.OnlyIssues K)
    (es : Nat → E) {s : S} (hs : P s) : P (p.run exec es s).2 := by
  induction p generalizing es s with
  | done r => exact hs
  | call c next ih => exact ih _ (hp.2 _) _ (hexec c (es 0) s hp.1 hs)

theorem onlyIssues_bind {p : Prog C R ε α} {f : α → Prog C R ε β} (hp : p.OnlyIssues K)
    (hf : ∀ a, (f a).OnlyIssues K) : (p >>= f).OnlyIssues K := by
  induction p with
  | done r =>
    cases r with
    | error e => trivial
    | ok a => exact hf a
  | call c next ih => exact ⟨hp.1, fun r => ih r (hp.2 r)⟩

end
end Prog

/-! ### Pools of programs -/

/-- Programs over one shared state, each with a label of its own. -/
structure Pool (C : Type) (R : C → Type) (ε α L S : Type) where
  shared : S
  threads : List (L × Prog C R ε α)

namespace Pool
variable {C : Type} {R : C → Type} {ε α E L S A : Type}

inductive Action (A E : Type) where
  | spawn (a : A)
  | proceed (i : Nat) (e : E)
  deriving DecidableEq

def step (exec : (c : C) → E → S × L → Except ε (R c) × (S × L))
    (start : A → S → S × (L × Prog C R ε α)) (pool : Pool C R ε α L S) :
    Action A E → Option (Pool C R ε α L S)
  | .spawn a => some ⟨(start a pool.shared).1, pool.threads ++ [(start a pool.shared).2]⟩
  | .proceed i e =>
    match pool.threads[i]? with
    | some (l, p) =>
      match p.step exec e (pool.shared, l) with
      | some (p, s, l) => some ⟨s, pool.threads.set i (l, p)⟩
      | none => none
    | none => none

/-- The labels of two running programs are related by `compat`. -/
def Apart (compat : L → L → Prop) (threads : List (L × Prog C R ε α)) : Prop :=
  ∀ (i j : Nat) (x y : L × Prog C R ε α), i ≠ j → threads[i]? = some x →
    threads[j]? = some y → x.2.running = true →
    y.2.running = true → compat x.1 y.1

/-- The shared state is as the guarantees keep it, and every program keeps its contract. -/
structure Sound (w : Contract C R ε E (S × L)) (I : S → Prop) (compat : L → L → Prop)
    (pool : Pool C R ε α L S) : Prop where
  shared : I pool.shared
  threads : ∀ x ∈ pool.threads, x.2.sat w (fun _ _ => True) (pool.shared, x.1)
  apart : Apart compat pool.threads

variable {w : Contract C R ε E (S × L)} {I : S → Prop} {compat : L → L → Prop}
  {start : A → S → S × (L × Prog C R ε α)} {pool pool' : Pool C R ε α L S}

theorem Sound.init {s : S} (hs : I s) :
    (⟨s, []⟩ : Pool C R ε α L S).Sound w I compat :=
  ⟨hs, fun x hx => (by cases hx), fun i j x y _ hx => (by cases hx)⟩

theorem proceed_inv {exec : (c : C) → E → S × L → Except ε (R c) × (S × L)} {i : Nat} {e : E}
    (h : pool.step exec start (.proceed i e) = some pool') :
    ∃ l c next, pool.threads[i]? = some (l, .call c next) ∧
      pool' = ⟨(exec c e (pool.shared, l)).2.1, pool.threads.set i
        ((exec c e (pool.shared, l)).2.2, next (exec c e (pool.shared, l)).1)⟩ := by
  cases hi : pool.threads[i]? with
  | none =>
    simp only [step, hi] at h
    cases h
  | some x =>
    obtain ⟨l, p⟩ := x
    cases p with
    | done r =>
      simp only [step, hi, Prog.step] at h
      cases h
    | call c next =>
      simp only [step, hi, Prog.step] at h
      cases h
      exact ⟨l, c, next, rfl, rfl⟩

/-- The next command of a program keeps its guarantee. -/
theorem Sound.guar (hw : w.Lawful) (h : pool.Sound w I compat) {i : Nat} {l : L} {c : C}
    {next : Except ε (R c) → Prog C R ε α} (hi : pool.threads[i]? = some (l, .call c next)) {e : E}
    (he : w.allowed c e (pool.shared, l)) :
    w.guar (pool.shared, l) (w.exec c e (pool.shared, l)).2 ∧
      (next (w.exec c e (pool.shared, l)).1).sat w (fun _ _ => True)
        (w.exec c e (pool.shared, l)).2 :=
  h.threads _ (List.mem_of_getElem? hi) _ (hw.refl _) e he

theorem Sound.proceed (start : A → S → S × (L × Prog C R ε α)) (hw : w.Lawful)
    (hsymm : ∀ l m, compat l m → compat m l)
    (hkeep : ∀ s t l l', w.guar (s, l) (t, l') → I s → I t)
    (hothers : ∀ s t l l' m, w.guar (s, l) (t, l') → I s → compat l m → w.rely (s, m) (t, m))
    {i : Nat} {e : E} (h : pool.Sound w I compat)
    (hallowed : ∀ l c next, pool.threads[i]? = some (l, .call c next) →
      w.allowed c e (pool.shared, l))
    (hlabel : ∀ l c next, pool.threads[i]? = some (l, .call c next) →
      (next (w.exec c e (pool.shared, l)).1).running = true →
      ∀ j y, j ≠ i → pool.threads[j]? = some y → y.2.running = true →
        compat (w.exec c e (pool.shared, l)).2.2 y.1)
    (hstep : pool.step w.exec start (.proceed i e) = some pool') : pool'.Sound w I compat := by
  obtain ⟨l, c, next, hi, rfl⟩ := proceed_inv hstep
  obtain ⟨hguar, hnext⟩ := h.guar hw hi (hallowed l c next hi)
  have hlt : i < pool.threads.length := (List.getElem?_eq_some_iff.mp hi).1
  have hset : ∀ j x, (pool.threads.set i ((w.exec c e (pool.shared, l)).2.2,
      next (w.exec c e (pool.shared, l)).1))[j]? = some x →
        (j = i ∧ x = ((w.exec c e (pool.shared, l)).2.2, next (w.exec c e (pool.shared, l)).1)) ∨
          (j ≠ i ∧ pool.threads[j]? = some x) := by
    intro j x hx
    by_cases hj : j = i
    · subst hj
      rw [List.getElem?_set_self hlt, Option.some.injEq] at hx
      exact .inl ⟨rfl, hx.symm⟩
    · rw [List.getElem?_set_ne (Ne.symm hj)] at hx
      exact .inr ⟨hj, hx⟩
  refine ⟨hkeep _ _ _ _ hguar h.shared, fun x hx => ?_, fun j k x y hjk hx hy hrx hry => ?_⟩
  · obtain ⟨j, hj⟩ := List.getElem?_of_mem hx
    rcases hset j x hj with ⟨-, rfl⟩ | ⟨hji, hj⟩
    · exact hnext
    · obtain ⟨m, q⟩ := x
      have hsat := h.threads _ (List.mem_of_getElem? hj)
      cases q with
      | done r => trivial
      | call c' next' =>
        have hcompat : compat l m := h.apart i j _ _ (Ne.symm hji) hi hj rfl rfl
        exact Prog.sat_stable hw (fun _ _ _ _ _ => trivial) hsat
          (hothers _ _ _ _ m hguar h.shared hcompat)
  · rcases hset j x hx with ⟨rfl, rfl⟩ | ⟨hji, hxj⟩ <;>
      rcases hset k y hy with ⟨rfl, rfl⟩ | ⟨hki, hyk⟩
    · exact absurd rfl hjk
    · exact hlabel l c next hi hrx k y hki hyk hry
    · exact hsymm _ _ (hlabel l c next hi hry j x hji hxj hrx)
    · exact h.apart j k x y hjk hxj hyk hrx hry

theorem Sound.spawn (start : A → S → S × (L × Prog C R ε α)) (hw : w.Lawful)
    (hsymm : ∀ l m, compat l m → compat m l) {a : A}
    (h : pool.Sound w I compat) (hkeep : I (start a pool.shared).1)
    (hothers : ∀ m, w.rely (pool.shared, m) ((start a pool.shared).1, m))
    (hsat : (start a pool.shared).2.2.sat w (fun _ _ => True)
      ((start a pool.shared).1, (start a pool.shared).2.1))
    (hlabel : ∀ y ∈ pool.threads, y.2.running = true → compat (start a pool.shared).2.1 y.1)
    (hstep : pool.step w.exec start (.spawn a) = some pool') : pool'.Sound w I compat := by
  cases hstep
  have hget : ∀ j x, (pool.threads ++ [(start a pool.shared).2])[j]? = some x →
      (j = pool.threads.length ∧ x = (start a pool.shared).2) ∨ pool.threads[j]? = some x := by
    intro j x hx
    rw [List.getElem?_append] at hx
    split_ifs at hx with hj
    · exact .inr hx
    · rw [List.getElem?_singleton] at hx
      split_ifs at hx with hj'
      cases hx
      exact .inl ⟨by omega, rfl⟩
  refine ⟨hkeep, List.forall_mem_append.mpr ⟨fun x hx => ?_, List.forall_mem_singleton.mpr hsat⟩,
    fun j k x y hjk hx hy hrx hry => ?_⟩
  · exact Prog.sat_stable hw (fun _ _ _ _ _ => trivial) (h.threads x hx) (hothers x.1)
  · rcases hget j x hx with ⟨rfl, rfl⟩ | hxj <;> rcases hget k y hy with ⟨rfl, rfl⟩ | hyk
    · exact absurd rfl hjk
    · exact hlabel y (List.mem_of_getElem? hyk) hry
    · exact hsymm _ _ (hlabel x (List.mem_of_getElem? hxj) hrx)
    · exact h.apart j k x y hjk hxj hyk hrx hry

end Pool
end Library
