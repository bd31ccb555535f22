import IntelliStore.Library.AtLeastOnce
import Mathlib.Algebra.BigOperators.Group.Finset.Piecewise
import Mathlib.Data.Fintype.Basic
import Mathlib.Tactic.Ring

/-! An exchange that copies every message to the queues bound to it. The handlers of all queues
work on one store, and so do requests from outside. -/

namespace Library
open Subscription

/-- The bindings of the queues `ι`. A handler runs with the values `W` it generates itself; a
request is one of `R`. -/
structure Exchange (ι M W R S : Type) where
  bound : ι → M → Bool
  effect : ι → W → M → S → Option S
  request : R → S → S

/-- Each queue records its own history; what its messages do to the store is kept beside it. -/
structure FanOut (ι M S : Type) where
  store : S
  queues : ι → Subscription M Unit
  published : List M

namespace FanOut
variable {ι M W R S : Type}

def init (ι M : Type) (store : S) : FanOut ι M S := ⟨store, fun _ => .init (), []⟩

inductive Consumer (W : Type) where
  | deliver
  | handle (w : W) (a : Attempt)
  | settle
  | disconnect
  | finish (n : Nat) (w : W) (a : Attempt)

inductive Action (ι M W R : Type) where
  | publish (m : M) (reached : Bool)
  | consume (i : ι) (c : Consumer W)
  | request (r : R)

/-- In the history of a queue, a statement either fails or has its effect. -/
def happens : M → Unit → Option Unit := fun _ s => some s

def enqueue (q : Subscription M Unit) (m : M) : Subscription M Unit :=
  { q with
    queue := q.queue ++ [(q.published.length, m)]
    published := q.published ++ [(q.published.length, m)] }

/-- The statement of a handler, with what the store makes of it. -/
def attempted (effect : Option S) (a : Attempt) (store : S) : Attempt × S :=
  match a, effect with
  | .succeeds, some t => (.succeeds, t)
  | .unanswered, some t => (.unanswered, t)
  | _, _ => (.fails, store)

/-- What a consumer does next: the action of its queue, and the store after it. -/
def Consumer.act (x : Exchange ι M W R S) (i : ι) (q : Subscription M Unit) (store : S) :
    Consumer W → Option (Subscription.Action M × S)
  | .deliver => some (.deliver, store)
  | .settle => some (.settle, store)
  | .disconnect => some (.disconnect, store)
  | .handle w a =>
    match q.current with
    | some (p, _) =>
      let res := attempted (x.effect i w p.2 store) a store
      some (.handle res.1, res.2)
    | none => none
  | .finish n w a =>
    match q.orphans[n]? with
    | some p =>
      let res := attempted (x.effect i w p.2 store) a store
      some (.finish n res.1, res.2)
    | none => none

variable [DecidableEq ι]

def step (x : Exchange ι M W R S) (b : FanOut ι M S) : Action ι M W R → Option (FanOut ι M S)
  | .publish m true => some { b with
      queues := fun i => if x.bound i m then enqueue (b.queues i) m else b.queues i
      published := b.published ++ [m] }
  | .publish _ false => some b
  | .consume i c => do
    let (a, store) ← c.act x i (b.queues i) b.store
    let q ← (b.queues i).step happens a
    some { b with store := store, queues := Function.update b.queues i q }
  | .request r => some { b with store := x.request r b.store }

variable {x : Exchange ι M W R S} {b b' : FanOut ι M S}

theorem attempted_cases (effect : Option S) (a : Attempt) (store : S) :
    attempted effect a store = (.fails, store) ∨
      ∃ t, effect = some t ∧ a ≠ .fails ∧ attempted effect a store = (a, t) := by
  cases effect with
  | none => cases a <;> exact .inl rfl
  | some t =>
    cases a with
    | fails => exact .inl rfl
    | succeeds => exact .inr ⟨t, rfl, by decide, rfl⟩
    | unanswered => exact .inr ⟨t, rfl, by decide, rfl⟩

theorem attempt_happens (q : Subscription M Unit) (p : Nat × M) (a : Attempt) :
    ((q.attempt happens p a).2.recorded = if a = .fails then q.recorded else q.recorded ++ [p]) ∧
      (q.attempt happens p a).2.published = q.published := by
  cases a <;> exact ⟨rfl, rfl⟩

section
variable {i : ι} {c : Consumer W} {q q' : Subscription M Unit} {a : Subscription.Action M}
  {store store' : S}

/-- A queue records what has its effect on the store, and nothing else. -/
structure Consumed (x : Exchange ι M W R S) (i : ι) (q q' : Subscription M Unit)
    (store store' : S) : Prop where
  published : q'.published = q.published
  recorded : q'.recorded = q.recorded ∧ store' = store ∨
    ∃ w p, q'.recorded = q.recorded ++ [p] ∧ x.effect i w p.2 store = some store'

omit [DecidableEq ι] in
theorem Consumed.attempted {w : W} {p : Nat × M} {attempt : Attempt} {res : Attempt × S}
    (hres : FanOut.attempted (x.effect i w p.2 store) attempt store = res)
    (hrecorded : q'.recorded = (q.attempt happens p res.1).2.recorded)
    (hpublished : q'.published = q.published) : Consumed x i q q' store res.2 := by
  refine ⟨hpublished, ?_⟩
  rw [hrecorded, (attempt_happens q p res.1).1]
  rcases attempted_cases (x.effect i w p.2 store) attempt store with h | ⟨t, ht, hne, h⟩
  · rw [← hres, h]
    exact .inl ⟨rfl, rfl⟩
  · rw [← hres, h, if_neg hne]
    exact .inr ⟨w, p, rfl, ht⟩

omit [DecidableEq ι] in
theorem Consumer.consumed (hact : c.act x i q store = some (a, store'))
    (hq : q.step happens a = some q') : Consumed x i q q' store store' := by
  cases c with
  | deliver | settle | disconnect =>
    cases hact
    unfold Subscription.step at hq
    dsimp only at hq
    split at hq <;> cases hq <;> exact ⟨rfl, .inl ⟨rfl, rfl⟩⟩
  | handle w attempt =>
    unfold Consumer.act at hact
    dsimp only at hact
    split at hact
    · rename_i p state hcurrent
      cases hact
      unfold Subscription.step at hq
      dsimp only at hq
      rw [hcurrent] at hq
      cases state with
      | running =>
        cases hq
        exact .attempted rfl rfl (attempt_happens q p _).2
      | resolved => cases hq
      | rejected => cases hq
    · cases hact
  | finish n w attempt =>
    unfold Consumer.act at hact
    dsimp only at hact
    split at hact
    · rename_i p hn
      cases hact
      unfold Subscription.step at hq
      dsimp only at hq
      rw [hn] at hq
      cases hq
      exact .attempted rfl rfl (attempt_happens q p _).2
    · cases hact

end

/-- The three ways in which a step is taken. -/
inductive Stepped (x : Exchange ι M W R S) (b b' : FanOut ι M S) : Prop where
  | published (m : M) (hstore : b'.store = b.store) (hpublished : b'.published = b.published ++ [m])
    (hqueues : ∀ i, b'.queues i = if x.bound i m then enqueue (b.queues i) m else b.queues i)
  | consumed (i : ι) (a : Subscription.Action M) (hpublished : b'.published = b.published)
    (hother : ∀ j, j ≠ i → b'.queues j = b.queues j)
    (hstep : (b.queues i).step happens a = some (b'.queues i))
    (h : Consumed x i (b.queues i) (b'.queues i) b.store b'.store)
  | requested (hpublished : b'.published = b.published) (hqueues : b'.queues = b.queues)
    (hstore : b'.store = b.store ∨ ∃ r, b'.store = x.request r b.store)

theorem step_cases {act : Action ι M W R} (h : step x b act = some b') : Stepped x b b' := by
  cases act with
  | publish m reached =>
    cases reached <;> cases h
    · exact .requested rfl rfl (.inl rfl)
    · exact .published m rfl rfl fun _ => rfl
  | request r =>
    cases h
    exact .requested rfl rfl (.inr ⟨r, rfl⟩)
  | consume i c =>
    simp only [step, Option.bind_eq_bind, Option.bind_eq_some_iff] at h
    obtain ⟨⟨a, store⟩, hact, q, hq, h⟩ := h
    cases h
    have hself : Function.update b.queues i q i = q := Function.update_self i q b.queues
    refine .consumed i a rfl (fun j hj => Function.update_of_ne hj q b.queues) ?_ ?_
    · exact hq.trans (congrArg some hself.symm)
    · show Consumed x i (b.queues i) (Function.update b.queues i q i) b.store store
      rw [hself]
      exact c.consumed hact hq

/-! ### What the messages add up to -/

section
variable [Fintype ι]

theorem sum_succ {f g : ι → Nat} {i : ι} {n : Nat} (hi : g i = f i + n)
    (hother : ∀ j, j ≠ i → g j = f j) : ∑ j, g j = ∑ j, f j + n := by
  rw [← Finset.add_sum_erase _ g (Finset.mem_univ i), ← Finset.add_sum_erase _ f (Finset.mem_univ i),
    hi, Finset.sum_congr rfl fun j hj => hother j (Finset.ne_of_mem_erase hj)]
  ring

/-- The number that the store holds of what the recorded messages put into it. -/
def recordings (b : FanOut ι M S) (f : ι → M → Bool) : Nat :=
  ∑ i, ((b.queues i).recordedOf (f i)).length

/-- Every message that `f` selects adds one to `μ`, and no other message and no request counts. -/
structure Counts (x : Exchange ι M W R S) (μ : S → Nat) (f : ι → M → Bool) : Prop where
  effect : ∀ i w m s t, x.effect i w m s = some t → μ t = μ s + if f i m then 1 else 0
  request : ∀ r s, μ (x.request r s) = μ s

theorem recordings_of_reach {μ : S → Nat} {f : ι → M → Bool} (hμ : Counts x μ f) {store : S}
    (h : Reach (step x) (fun _ _ => True) (.init ι M store) b) :
    μ b.store = μ store + b.recordings f := by
  refine h.invariant (fun b => μ b.store = μ store + b.recordings f) ?_ ?_
  · simp [recordings, recordedOf, FanOut.init, Subscription.init]
  rintro b act b' hb - hstep
  rcases step_cases hstep with ⟨m, hstore, -, hqueues⟩ | ⟨i, a, -, hother, -, hc⟩ |
    ⟨-, hqueues, hstore⟩
  · have hsame : b'.recordings f = b.recordings f := by
      apply Finset.sum_congr rfl
      intro i _
      rw [hqueues]
      split_ifs <;> rfl
    rw [hstore, hsame, hb]
  · have hsum : ∀ n, ((b'.queues i).recordedOf (f i)).length =
        ((b.queues i).recordedOf (f i)).length + n → b'.recordings f = b.recordings f + n :=
      fun n hn => sum_succ hn fun j hj => by rw [hother j hj]
    rcases hc.recorded with ⟨hrecorded, hstore⟩ | ⟨w, p, hrecorded, heffect⟩
    · rw [hstore, hsum 0 (by rw [recordedOf, hrecorded, recordedOf, Nat.add_zero]), hb,
        Nat.add_zero]
    · have hone : ((b'.queues i).recordedOf (f i)).length =
          ((b.queues i).recordedOf (f i)).length + if f i p.2 then 1 else 0 := by
        rw [recordedOf, hrecorded, List.filter_append, List.length_append, recordedOf,
          List.filter_singleton]
        split_ifs <;> simp_all
      rw [hμ.effect i w p.2 _ _ heffect, hb, hsum _ hone, Nat.add_assoc]
  · have hsame : b'.recordings f = b.recordings f := by rw [recordings, hqueues, recordings]
    rw [hsame, ← hb]
    rcases hstore with hstore | ⟨r, hstore⟩
    · rw [hstore]
    · rw [hstore, hμ.request]

end

/-! ### Every queue -/

variable [DecidableEq M]

theorem conserved_enqueue {q : Subscription M Unit} (h : Conserved happens () q) (m : M) :
    Conserved happens () (enqueue q m) := h.publish m

/-- Every queue has its own copy of the messages bound to it, in the order they were published. -/
structure Copies (x : Exchange ι M W R S) (b : FanOut ι M S) : Prop where
  conserved : ∀ i, Conserved happens () (b.queues i)
  copies : ∀ i, (b.queues i).published.map Prod.snd = b.published.filter (x.bound i)

omit [DecidableEq ι] in
theorem Copies.init (x : Exchange ι M W R S) (store : S) : Copies x (.init ι M store) where
  conserved _ := Conserved.init happens ()
  copies _ := rfl

theorem Copies.preserved {act : Action ι M W R} (h : Copies x b) (hstep : step x b act = some b') :
    Copies x b' := by
  rcases step_cases hstep with ⟨m, -, hpublished, hqueues⟩ | ⟨i, a, hpublished, hother, ha, hc⟩ |
    ⟨hpublished, hqueues, -⟩
  · refine ⟨fun i => ?_, fun i => ?_⟩
    · rw [hqueues]
      split_ifs with hbound
      · exact conserved_enqueue (h.conserved i) m
      · exact h.conserved i
    · rw [hqueues, hpublished, List.filter_append, ← h.copies i]
      split_ifs with hbound
      · rw [enqueue, List.map_append, List.filter_singleton, hbound]
        rfl
      · rw [Bool.not_eq_true] at hbound
        rw [List.filter_singleton, hbound]
        exact (List.append_nil _).symm
  · refine ⟨fun j => ?_, fun j => ?_⟩
    · by_cases hj : j = i
      · subst hj
        exact (h.conserved j).step ha
      · rw [hother j hj]
        exact h.conserved j
    · rw [hpublished, ← h.copies j]
      by_cases hj : j = i
      · subst hj
        rw [hc.published]
      · rw [hother j hj]
  · exact ⟨fun i => hqueues ▸ h.conserved i, fun i => by rw [hqueues, hpublished, h.copies i]⟩

theorem Copies.of_reach {store : S} (h : Reach (step x) (fun _ _ => True) (.init ι M store) b) :
    Copies x b :=
  h.invariant (Copies x) (.init x store) fun _ _ _ hc _ hstep => hc.preserved hstep

section
variable {store : S}

/-- What a queue records and what it loses balance what it was sent and what it repeats. -/
theorem queue_balance (h : Reach (step x) (fun _ _ => True) (.init ι M store) b) (i : ι)
    (f : M → Bool) : ((b.queues i).recordedOf f).length + ((b.queues i).lost f).length =
      ((b.published.filter (x.bound i)).filter f).length + (b.queues i).repeats f := by
  have hcopies := Copies.of_reach h
  have hpublished : ((b.queues i).publishedOf f).length =
      ((b.published.filter (x.bound i)).filter f).length := by
    rw [← hcopies.copies i, List.filter_map, List.length_map]
    rfl
  rw [(hcopies.conserved i).balance f, hpublished]

/-- A queue that holds nothing and has neither dropped a message nor delivered one again. -/
def Undisturbed (q : Subscription M Unit) : Prop :=
  q.Quiescent ∧ q.dropped = [] ∧ q.requeued = []

/-- Whatever the other queues go through, an undisturbed queue has recorded every message once. -/
theorem recorded_of_undisturbed (h : Reach (step x) (fun _ _ => True) (.init ι M store) b) {i : ι}
    (hi : Undisturbed (b.queues i)) (f : M → Bool) :
    ((b.queues i).recordedOf f).length = ((b.published.filter (x.bound i)).filter f).length := by
  have hconserved := (Copies.of_reach h).conserved i
  have hlost : (b.queues i).lost f = [] := by
    rw [List.eq_nil_iff_forall_not_mem]
    intro p hp
    have hmem := hconserved.lost_dropped hi.1 hp
    rw [hi.2.1] at hmem
    cases hmem
  have hbalance := queue_balance h i f
  rwa [hlost, hconserved.repeats_eq_zero hi.2.2] at hbalance

end

end FanOut
end Library
