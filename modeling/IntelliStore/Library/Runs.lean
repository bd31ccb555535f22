import Mathlib.Data.List.Nodup
import Mathlib.Data.Set.Basic
import Mathlib.Logic.Relation

/-! Runs of machines. A machine that answers every event is a function
`S → E → O × S`; a machine whose actions may be disabled is `S → A → Option S`. -/

namespace Library
variable {S E O A I : Type*}

/-! ### Machines that answer every event -/

def finalState (step : S → E → O × S) (s : S) (es : List E) : S :=
  es.foldl (fun s e => (step s e).2) s

def answers (step : S → E → O × S) : S → List E → List (E × O)
  | _, [] => []
  | s, e :: es => (e, (step s e).1) :: answers step (step s e).2 es

/-- Every event of the run meets `G` in the state it is handled in. -/
def Guarded (step : S → E → O × S) (G : S → E → Prop) : S → List E → Prop
  | _, [] => True
  | s, e :: es => G s e ∧ Guarded step G (step s e).2 es

instance Guarded.decidable {step : S → E → O × S} {G : S → E → Prop}
    [∀ s e, Decidable (G s e)] : (s : S) → (es : List E) → Decidable (Guarded step G s es)
  | _, [] => .isTrue trivial
  | s, e :: es =>
    have : Decidable (Guarded step G (step s e).2 es) := Guarded.decidable _ _
    inferInstanceAs (Decidable (_ ∧ _))

@[simp] theorem finalState_nil (step : S → E → O × S) (s : S) : finalState step s [] = s := rfl

@[simp] theorem finalState_cons (step : S → E → O × S) (s : S) (e : E) (es : List E) :
    finalState step s (e :: es) = finalState step (step s e).2 es := rfl

theorem finalState_concat (step : S → E → O × S) (s : S) (es : List E) (e : E) :
    finalState step s (es ++ [e]) = (step (finalState step s es) e).2 := by
  rw [finalState, List.foldl_append]
  rfl

theorem answers_concat (step : S → E → O × S) (s : S) (es : List E) (e : E) :
    answers step s (es ++ [e]) = answers step s es ++ [(e, (step (finalState step s es) e).1)] := by
  induction es generalizing s with
  | nil => rfl
  | cons e' es ih => simp only [List.cons_append, answers, ih, finalState_cons]

theorem Guarded.and {step : S → E → O × S} {G G' H : S → E → Prop} {s : S} {es : List E}
    (hg : Guarded step G s es) (hg' : Guarded step G' s es)
    (h : ∀ s e, G s e → G' s e → H s e) : Guarded step H s es := by
  induction es generalizing s with
  | nil => trivial
  | cons e es ih => exact ⟨h s e hg.1 hg'.1, ih hg.2 hg'.2⟩

/-- A guard on the events alone. -/
theorem guarded_of_forall {step : S → E → O × S} {G : E → Prop} {s : S} {es : List E}
    (h : ∀ e ∈ es, G e) : Guarded step (fun _ e => G e) s es := by
  induction es generalizing s with
  | nil => trivial
  | cons e es ih => exact ⟨h e List.mem_cons_self, ih fun e' he => h e' (List.mem_cons_of_mem _ he)⟩

theorem guarded_iff_forall {step : S → E → O × S} {G : E → Prop} {s : S} {es : List E} :
    Guarded step (fun _ e => G e) s es ↔ ∀ e ∈ es, G e := by
  refine ⟨fun h => ?_, guarded_of_forall⟩
  induction es generalizing s with
  | nil => exact fun e he => absurd he List.not_mem_nil
  | cons e es ih => exact List.forall_mem_cons.mpr ⟨h.1, ih h.2⟩

/-- Where a step of the runs meant by `H` keeps `P` exactly if it meets the guard, the guarded runs
are those with `P` in every state; `P` may speak of the events handled so far. -/
theorem guarded_iff_forall_history {step : S → E → O × S} {G H : S → E → Prop}
    (P : List E → S → Prop)
    (hstep : ∀ past s e, H s e → P past s → (P (past ++ [e]) (step s e).2 ↔ G s e)) {s : S}
    {es : List E} (hrun : Guarded step H s es) (hs : P [] s) :
    Guarded step G s es ↔ ∀ pre, pre <+: es → P pre (finalState step s pre) := by
  have key : ∀ (past es : List E) (s : S), Guarded step H s es → P past s →
      (Guarded step G s es ↔ ∀ pre, pre <+: es → P (past ++ pre) (finalState step s pre)) := by
    intro past es
    induction es generalizing past with
    | nil =>
      intro s _ hs
      refine iff_of_true trivial fun pre hpre => ?_
      rw [List.prefix_nil.mp hpre, List.append_nil]
      exact hs
    | cons e es ih =>
      intro s hrun hs
      constructor
      · intro hg pre hpre
        cases pre with
        | nil =>
          rw [List.append_nil]
          exact hs
        | cons e' pre =>
          obtain ⟨rfl, htail⟩ := List.cons_prefix_cons.mp hpre
          have hnext := (hstep past s e' hrun.1 hs).mpr hg.1
          have h := (ih (past ++ [e']) _ hrun.2 hnext).mp hg.2 pre htail
          rwa [List.append_assoc, List.singleton_append] at h
      · intro h
        have hnext : P (past ++ [e]) (step s e).2 :=
          h [e] (List.cons_prefix_cons.mpr ⟨rfl, List.nil_prefix⟩)
        refine ⟨(hstep past s e hrun.1 hs).mp hnext, ?_⟩
        apply (ih (past ++ [e]) _ hrun.2 hnext).mpr
        intro pre hpre
        rw [List.append_assoc, List.singleton_append]
        exact h (e :: pre) (List.cons_prefix_cons.mpr ⟨rfl, hpre⟩)
  exact key [] es s hrun hs

theorem guarded_iff_forall_prefix {step : S → E → O × S} {G H : S → E → Prop} (P : S → Prop)
    (hstep : ∀ s e, H s e → P s → (P (step s e).2 ↔ G s e)) {s : S} {es : List E}
    (hrun : Guarded step H s es) (hs : P s) :
    Guarded step G s es ↔ ∀ pre, pre <+: es → P (finalState step s pre) :=
  guarded_iff_forall_history (fun _ => P) (fun _ => hstep) hrun hs

/-- An invariant that speaks of the events handled so far. -/
theorem finalState_history {step : S → E → O × S} {G : S → E → Prop} (P : List E → S → Prop)
    (hstep : ∀ past s e, G s e → P past s → P (past ++ [e]) (step s e).2) {s : S} {es : List E}
    (hg : Guarded step G s es) (hs : P [] s) : P es (finalState step s es) := by
  -- the induction is on the events still to come, for every past
  have key : ∀ (past es : List E) (s : S), Guarded step G s es → P past s →
      P (past ++ es) (finalState step s es) := by
    intro past es
    induction es generalizing past with
    | nil => intro s _ hs; simpa only [List.append_nil, finalState_nil] using hs
    | cons e es ih =>
      intro s hg hs
      have h := ih (past ++ [e]) _ hg.2 (hstep past s e hg.1 hs)
      rwa [List.append_assoc, List.singleton_append] at h
  exact key [] es s hg hs

theorem finalState_invariant {step : S → E → O × S} {G : S → E → Prop} (P : S → Prop)
    (hstep : ∀ s e, G s e → P s → P (step s e).2) {s : S} {es : List E}
    (hg : Guarded step G s es) (hs : P s) : P (finalState step s es) :=
  finalState_history (fun _ => P) (fun _ => hstep) hg hs

/-- An invariant that speaks of the events handled so far and of their answers. -/
theorem answers_history {step : S → E → O × S} {G : S → E → Prop} (P : List (E × O) → S → Prop)
    (hstep : ∀ past s e, G s e → P past s → P (past ++ [(e, (step s e).1)]) (step s e).2) {s : S}
    {es : List E} (hg : Guarded step G s es) (hs : P [] s) :
    P (answers step s es) (finalState step s es) := by
  have key : ∀ (past : List (E × O)) (es : List E) (s : S), Guarded step G s es → P past s →
      P (past ++ answers step s es) (finalState step s es) := by
    intro past es
    induction es generalizing past with
    | nil => intro s _ hs; simpa only [answers, List.append_nil, finalState_nil] using hs
    | cons e es ih =>
      intro s hg hs
      have h := ih (past ++ [(e, (step s e).1)]) _ hg.2 (hstep past s e hg.1 hs)
      rwa [List.append_assoc, List.singleton_append] at h
  exact key [] es s hg hs

/-- What every step answers while an invariant holds. -/
theorem forall_answers {step : S → E → O × S} {G : S → E → Prop} (P : S → Prop) (Q : E × O → Prop)
    (hstep : ∀ s e, P s → G s e → Q (e, (step s e).1) ∧ P (step s e).2) {s : S} {es : List E}
    (hg : Guarded step G s es) (hs : P s) : ∀ p ∈ answers step s es, Q p := by
  induction es generalizing s with
  | nil => exact fun p hp => (by cases hp)
  | cons e es ih =>
    obtain ⟨hanswer, hnext⟩ := hstep s e hs hg.1
    exact List.forall_mem_cons.mpr ⟨hanswer, ih hg.2 hnext⟩

/-- Two machines whose steps answer alike and keep a relation between their states answer every run
alike. -/
theorem answers_eq_of_step {T : Type*} {step : S → E → O × S} {step' : T → E → O × T} {G : E → Prop}
    (R : S → T → Prop)
    (hstep : ∀ s t e, G e → R s t → (step s e).1 = (step' t e).1 ∧ R (step s e).2 (step' t e).2)
    {s : S} {t : T} {es : List E} (hes : ∀ e ∈ es, G e) (h : R s t) :
    answers step s es = answers step' t es ∧ R (finalState step s es) (finalState step' t es) := by
  induction es generalizing s t with
  | nil => exact ⟨rfl, h⟩
  | cons e es ih =>
    obtain ⟨he, hes⟩ := List.forall_mem_cons.mp hes
    obtain ⟨hanswer, hnext⟩ := hstep s t e he h
    obtain ⟨hanswers, hfinal⟩ := ih hes hnext
    refine ⟨?_, hfinal⟩
    rw [answers, answers, hanswer, hanswers]

/-- A machine whose steps are the steps of another on translated events. -/
theorem run_map_of_step {E' : Type*} {step : S → E → O × S} {step' : S → E' → O × S} {G : E → Prop}
    (f : E → E') (hstep : ∀ s e, G e → step s e = step' s (f e)) {es : List E}
    (hes : ∀ e ∈ es, G e) (s : S) :
    (answers step s es).map Prod.snd = (answers step' s (es.map f)).map Prod.snd ∧
      finalState step s es = finalState step' s (es.map f) := by
  induction es generalizing s with
  | nil => exact ⟨rfl, rfl⟩
  | cons e es ih =>
    obtain ⟨he, hes⟩ := List.forall_mem_cons.mp hes
    obtain ⟨hanswers, hfinal⟩ := ih hes (step' s (f e)).2
    rw [List.map_cons, finalState_cons, finalState_cons, answers, answers, List.map_cons,
      List.map_cons, hstep s e he]
    exact ⟨congrArg _ hanswers, hfinal⟩

/-- A run over events whose supplies of names never repeat meets no name it holds already. -/
theorem guarded_fresh {step : S → E → O × S} (used : S → Set I) (new : E → List I)
    (hstep : ∀ s e, used (step s e).2 ⊆ used s ∪ {i | i ∈ new e}) {s : S} {es : List E}
    (hs : ∀ i ∈ es.flatMap new, i ∉ used s) (hnodup : (es.flatMap new).Nodup) :
    Guarded step (fun s e => (new e).Nodup ∧ ∀ i ∈ new e, i ∉ used s) s es := by
  induction es generalizing s with
  | nil => trivial
  | cons e es ih =>
    rw [List.flatMap_cons] at hs hnodup
    have hd := List.nodup_append.mp hnodup
    refine ⟨⟨hd.1, fun i hi => hs i (List.mem_append_left _ hi)⟩, ih (fun i hi hu => ?_) hd.2.1⟩
    rcases hstep s e hu with h | h
    · exact hs i (List.mem_append_right _ hi) h
    · exact hd.2.2 i h i hi rfl

/-! ### Machines with disabled actions -/

/-- The states reached by actions that meet `G` in the state they are taken in. -/
inductive Reach (step : S → A → Option S) (G : S → A → Prop) (s : S) : S → Prop
  | refl : Reach step G s s
  | tail {t u : S} (a : A) : Reach step G s t → G t a → step t a = some u → Reach step G s u

theorem Reach.invariant {step : S → A → Option S} {G : S → A → Prop} {s t : S} (P : S → Prop)
    (hs : P s) (hstep : ∀ t a u, P t → G t a → step t a = some u → P u)
    (h : Reach step G s t) : P t := by
  induction h with
  | refl => exact hs
  | tail a _ hg ha ih => exact hstep _ a _ ih hg ha

/-- A guard that the steps taken under another one meet. -/
theorem Reach.mono {step : S → A → Option S} {G G' : S → A → Prop} {s t : S}
    (hG : ∀ t a u, G t a → step t a = some u → G' t a) (h : Reach step G s t) :
    Reach step G' s t := by
  induction h with
  | refl => exact .refl
  | tail a _ hg ha ih => exact .tail a ih (hG _ a _ hg ha) ha

theorem Reach.trans {step : S → A → Option S} {G : S → A → Prop} {s t u : S}
    (h : Reach step G s t) (h' : Reach step G t u) : Reach step G s u := by
  induction h' with
  | refl => exact h
  | tail a _ hg ha ih => exact .tail a ih hg ha

/-- A schedule that runs to the end, guards checked on the way, reaches its last state. -/
theorem reach_of_schedule {step : S → A → Option S} {G : S → A → Prop}
    [∀ s a, Decidable (G s a)] {s t : S} {as : List A}
    (h : as.foldlM (fun s a => if G s a then step s a else none) s = some t) :
    Reach step G s t := by
  induction as generalizing s with
  | nil => cases h; exact .refl
  | cons a as ih =>
    simp only [List.foldlM_cons, Option.bind_eq_bind, Option.bind_eq_some_iff] at h
    obtain ⟨u, hu, h⟩ := h
    split_ifs at hu with hg
    exact (Reach.tail a .refl hg hu).trans (ih h)

/-- Every action of the schedule meets `G` in the state it is taken in. -/
def Along (step : S → A → Option S) (G : S → A → Prop) : S → List A → Prop
  | _, [] => True
  | s, a :: as => G s a ∧ ∀ t, step s a = some t → Along step G t as

section
variable {step : S → A → Option S} {G G' : S → A → Prop} {s t : S} {as bs : List A}

theorem along_append : Along step G s (as ++ bs) ↔
    Along step G s as ∧ ∀ t, as.foldlM step s = some t → Along step G t bs := by
  induction as generalizing s with
  | nil =>
    refine ⟨fun h => ⟨trivial, fun t ht => ?_⟩, fun h => h.2 s rfl⟩
    cases ht
    exact h
  | cons a as ih =>
    simp only [List.cons_append, Along, ih, List.foldlM_cons, Option.bind_eq_bind,
      Option.bind_eq_some_iff]
    constructor
    · rintro ⟨ha, h⟩
      exact ⟨⟨ha, fun u hu => (h u hu).1⟩, fun t ⟨u, hu, ht⟩ => (h u hu).2 t ht⟩
    · rintro ⟨⟨ha, has⟩, hbs⟩
      exact ⟨ha, fun u hu => ⟨has u hu, fun t ht => hbs t ⟨u, hu, ht⟩⟩⟩

theorem along_of_forall (h : ∀ a ∈ as, ∀ s, G s a) : Along step G s as := by
  induction as generalizing s with
  | nil => trivial
  | cons a as ih =>
    obtain ⟨ha, has⟩ := List.forall_mem_cons.mp h
    exact ⟨ha s, fun t _ => ih has⟩

theorem Along.and (h : Along step G s as) (h' : Along step G' s as) :
    Along step (fun s a => G s a ∧ G' s a) s as := by
  induction as generalizing s with
  | nil => trivial
  | cons a as ih => exact ⟨⟨h.1, h'.1⟩, fun t ht => ih (h.2 t ht) (h'.2 t ht)⟩

theorem Along.reach (h : Along step G s as) (hrun : as.foldlM step s = some t) :
    Reach step G s t := by
  induction as generalizing s with
  | nil =>
    cases hrun
    exact .refl
  | cons a as ih =>
    obtain ⟨u, hu, hrun⟩ := Option.bind_eq_some_iff.mp hrun
    exact (Reach.tail a .refl h.1 hu).trans (ih (h.2 u hu) hrun)

end

end Library
