import IntelliStore.Library.Runs
import Mathlib.Data.List.Dedup
import Mathlib.Data.List.Perm.Basic
import Mathlib.Data.List.Range

/-! A durable queue whose consumer takes one message at a time. A message is acknowledged when
its handler resolves, discarded when it rejects, and delivered again when the connection is
lost before. -/

namespace Library

/-- What the statement of a handler meets; one that is not answered has taken effect. -/
inductive Attempt where
  | succeeds
  | fails
  | unanswered
  deriving DecidableEq

inductive Handler where
  | running
  | resolved
  | rejected
  deriving DecidableEq

/-- Messages carry the number of their publication. `orphans` are handlers that still run when
their delivery is lost; the fields after them are the history. -/
structure Subscription (M S : Type) where
  store : S
  queue : List (Nat × M)
  current : Option ((Nat × M) × Handler)
  orphans : List (Nat × M)
  published : List (Nat × M)
  recorded : List (Nat × M)
  acked : List (Nat × M)
  dropped : List (Nat × M)
  requeued : List (Nat × M)

namespace Subscription
variable {M S : Type}

def init (store : S) : Subscription M S := ⟨store, [], none, [], [], [], [], [], []⟩

/-- No message is in flight. -/
def Quiescent (s : Subscription M S) : Prop := s.queue = [] ∧ s.current.isNone

inductive Action (M : Type) where
  | publish (m : M) (reached : Bool)
  | deliver
  | handle (a : Attempt)
  | settle
  | disconnect
  | finish (i : Nat) (a : Attempt)

/-- The statement of a handler; `effect` is `none` where the store refuses it. -/
def attempt (effect : M → S → Option S) (s : Subscription M S) (p : Nat × M) (a : Attempt) :
    Handler × Subscription M S :=
  match a, effect p.2 s.store with
  | .succeeds, some t => (.resolved, { s with store := t, recorded := s.recorded ++ [p] })
  | .unanswered, some t => (.rejected, { s with store := t, recorded := s.recorded ++ [p] })
  | _, _ => (.rejected, s)

def step (effect : M → S → Option S) (s : Subscription M S) :
    Action M → Option (Subscription M S)
  | .publish m true =>
    let p := (s.published.length, m)
    some { s with queue := s.queue ++ [p], published := s.published ++ [p] }
  -- the publisher swallows its error
  | .publish _ false => some s
  | .deliver =>
    match s.current, s.queue with
    | none, p :: queue => some { s with queue := queue, current := some (p, .running) }
    | _, _ => none
  | .handle a =>
    match s.current with
    | some (p, .running) =>
      let res := s.attempt effect p a
      some { res.2 with current := some (p, res.1) }
    | _ => none
  | .settle =>
    match s.current with
    | some (p, .resolved) => some { s with current := none, acked := s.acked ++ [p] }
    | some (p, .rejected) => some { s with current := none, dropped := s.dropped ++ [p] }
    | _ => none
  | .disconnect =>
    match s.current with
    | some (p, .running) => some { s with
        queue := p :: s.queue, current := none, orphans := s.orphans ++ [p]
        requeued := s.requeued ++ [p] }
    | some (p, _) => some { s with
        queue := p :: s.queue, current := none, requeued := s.requeued ++ [p] }
    | none => none
  -- nobody is told how an orphan ends
  | .finish i a =>
    match s.orphans[i]? with
    | some p => some { (s.attempt effect p a).2 with orphans := s.orphans.eraseIdx i }
    | none => none

/-- The statement has had its effect, or nothing has changed and the handler rejects. -/
theorem attempt_cases (effect : M → S → Option S) (s : Subscription M S) (p : Nat × M)
    (a : Attempt) :
    (∃ t, effect p.2 s.store = some t ∧
      (s.attempt effect p a).2 = { s with store := t, recorded := s.recorded ++ [p] }) ∨
      s.attempt effect p a = (.rejected, s) := by
  unfold attempt
  cases heffect : effect p.2 s.store with
  | none =>
    cases a <;> exact .inr rfl
  | some t =>
    cases a with
    | fails => exact .inr rfl
    | succeeds => exact .inl ⟨t, rfl, rfl⟩
    | unanswered => exact .inl ⟨t, rfl, rfl⟩

theorem attempt_ne_running (effect : M → S → Option S) (s : Subscription M S) (p : Nat × M)
    (a : Attempt) : (s.attempt effect p a).1 ≠ .running := by
  unfold attempt
  split <;> intro h <;> cases h

/-! ### What is conserved -/

variable [DecidableEq M]

/-- The delivery whose handler has its statement to go. -/
def running (s : Subscription M S) : List (Nat × M) :=
  match s.current with
  | some (p, .running) => [p]
  | _ => []

omit [DecidableEq M] in
theorem running_eq_nil {s : Subscription M S} {p : Nat × M} {state : Handler}
    (hcurrent : s.current = some (p, state)) (hstate : state ≠ .running) : s.running = [] := by
  rw [running, hcurrent]
  cases state with
  | running => exact absurd rfl hstate
  | resolved => rfl
  | rejected => rfl

structure Conserved (effect : M → S → Option S) (store : S) (s : Subscription M S) : Prop where
  numbered : s.published.map Prod.fst = List.range s.published.length
  queue : s.queue ⊆ s.published
  current : ∀ p h, s.current = some (p, h) → p ∈ s.published
  orphans : s.orphans ⊆ s.published
  recorded : s.recorded ⊆ s.published
  resolved : ∀ p, s.current = some (p, .resolved) → p ∈ s.recorded
  acked : s.acked ⊆ s.recorded
  placed : ∀ p ∈ s.published,
    p ∈ s.queue ∨ (∃ h, s.current = some (p, h)) ∨ p ∈ s.acked ∨ p ∈ s.dropped
  deliveries : ∀ p, s.recorded.count p + s.orphans.count p + s.running.count p +
    s.queue.count p ≤ s.requeued.count p + 1
  effects : s.recorded.foldlM (fun t p => effect p.2 t) store = some s.store

namespace Conserved
variable {effect : M → S → Option S} {store : S} {s : Subscription M S}

theorem init (effect : M → S → Option S) (store : S) :
    Conserved effect store (.init store : Subscription M S) where
  numbered := rfl
  queue := List.nil_subset _
  current := fun _ _ h => by cases h
  orphans := List.nil_subset _
  recorded := List.nil_subset _
  resolved := fun _ h => by cases h
  acked := List.nil_subset _
  placed := fun _ h => by cases h
  deliveries := fun _ => Nat.zero_le _
  effects := rfl

theorem nodup (h : Conserved effect store s) : s.published.Nodup :=
  List.Nodup.of_map Prod.fst (h.numbered ▸ List.nodup_range)

theorem publish (h : Conserved effect store s) (m : M) :
    Conserved effect store { s with
      queue := s.queue ++ [(s.published.length, m)]
      published := s.published ++ [(s.published.length, m)] } := by
  have hnew : (s.published.length, m) ∉ s.published := by
    intro hmem
    have hnumber := List.mem_map_of_mem (f := Prod.fst) hmem
    rw [h.numbered, List.mem_range] at hnumber
    exact lt_irrefl _ hnumber
  refine ⟨?_, ?_, fun p state hp => List.mem_append_left _ (h.current p state hp),
    List.subset_append_of_subset_left _ h.orphans, List.subset_append_of_subset_left _ h.recorded,
    h.resolved, h.acked, ?_, ?_, h.effects⟩
  · rw [List.map_append, h.numbered, List.length_append, List.map_singleton,
      List.length_singleton, List.range_succ]
  · exact List.append_subset.mpr ⟨List.subset_append_of_subset_left _ h.queue,
      List.subset_append_right _ _⟩
  · intro p hp
    rcases List.mem_append.mp hp with hold | hlast
    · rcases h.placed p hold with hqueue | hrest
      · exact .inl (List.mem_append_left _ hqueue)
      · exact .inr hrest
    · exact .inl (List.mem_append_right _ hlast)
  · intro p
    have hold := h.deliveries p
    show _ + _ + s.running.count p + (s.queue ++ [(s.published.length, m)]).count p ≤ _
    rw [List.count_append]
    by_cases hp : (s.published.length, m) = p
    -- nothing is known of a message before it is published
    · subst hp
      have hrecorded := List.count_eq_zero.mpr fun hmem => hnew (h.recorded hmem)
      have horphans := List.count_eq_zero.mpr fun hmem => hnew (h.orphans hmem)
      have hqueue := List.count_eq_zero.mpr fun hmem => hnew (h.queue hmem)
      have hrunning : s.running.count (s.published.length, m) = 0 := by
        rw [List.count_eq_zero]
        intro hmem
        unfold running at hmem
        split at hmem
        · rename_i p hcurrent
          rw [List.mem_singleton] at hmem
          exact hnew (hmem ▸ h.current p _ hcurrent)
        · cases hmem
      rw [hrecorded, horphans, hqueue, hrunning, List.count_singleton_self]
      omega
    · rw [List.count_singleton, if_neg (by simpa using hp)]
      omega

theorem deliver (h : Conserved effect store s) {p : Nat × M} {queue : List (Nat × M)}
    (hcurrent : s.current = none) (hqueue : s.queue = p :: queue) :
    Conserved effect store { s with queue := queue, current := some (p, .running) } := by
  have hp : p ∈ s.published := h.queue (hqueue ▸ List.mem_cons_self)
  refine ⟨h.numbered, fun q hq => h.queue (hqueue ▸ List.mem_cons_of_mem _ hq), ?_, h.orphans,
    h.recorded, fun q hq => (by cases hq), h.acked, ?_, ?_, h.effects⟩
  · intro q state hq
    cases hq
    exact hp
  · intro q hq
    rcases h.placed q hq with hq | ⟨state, hq⟩ | hq
    · rw [hqueue, List.mem_cons] at hq
      rcases hq with rfl | hq
      · exact .inr (.inl ⟨.running, rfl⟩)
      · exact .inl hq
    · rw [hcurrent] at hq
      cases hq
    · exact .inr (.inr hq)
  · intro q
    have hold := h.deliveries q
    simp only [running, hcurrent, hqueue, List.count_nil, List.count_cons] at hold
    simp only [running, List.count_cons, List.count_nil]
    omega

/-- The handler of the delivery has run its statement. -/
theorem handle (h : Conserved effect store s) {p : Nat × M}
    (hcurrent : s.current = some (p, .running)) (a : Attempt) :
    Conserved effect store { (s.attempt effect p a).2 with
      current := some (p, (s.attempt effect p a).1) } := by
  have hp := h.current p .running hcurrent
  have hplaced : ∀ (state : Handler) (q : Nat × M), q ∈ s.published → q ∈ s.queue ∨
      (∃ state', some (p, state) = some (q, state')) ∨ q ∈ s.acked ∨ q ∈ s.dropped := by
    intro state q hq
    rcases h.placed q hq with hq | ⟨state', hq⟩ | hq
    · exact .inl hq
    · rw [hcurrent] at hq
      cases hq
      exact .inr (.inl ⟨state, rfl⟩)
    · exact .inr (.inr hq)
  have hcount : ∀ q, s.recorded.count q + s.orphans.count q + [p].count q + s.queue.count q ≤
      s.requeued.count q + 1 := by
    intro q
    have hold := h.deliveries q
    rwa [running, hcurrent] at hold
  have hidle := attempt_ne_running effect s p a
  rcases attempt_cases effect s p a with ⟨t, heffect, hafter⟩ | hafter
  · rw [hafter]
    refine ⟨h.numbered, h.queue, ?_, h.orphans,
      List.append_subset.mpr ⟨h.recorded, List.cons_subset.mpr ⟨hp, List.nil_subset _⟩⟩, ?_,
      List.subset_append_of_subset_left _ h.acked, hplaced _, ?_, ?_⟩
    · intro q state hq
      cases hq
      exact hp
    · intro q hq
      have heq : p = q := (Prod.mk.inj (Option.some.inj hq)).1
      exact List.mem_append_right _ (heq ▸ List.mem_singleton_self _)
    · intro q
      have hq := hcount q
      rw [running_eq_nil rfl hidle, List.count_append, List.count_nil]
      show _ + s.orphans.count q + 0 + s.queue.count q ≤ s.requeued.count q + 1
      omega
    · show (s.recorded ++ [p]).foldlM _ store = some t
      rw [List.foldlM_append, h.effects]
      simpa using heffect
  · rw [hafter] at hidle ⊢
    refine ⟨h.numbered, h.queue, ?_, h.orphans, h.recorded, fun q hq => (by cases hq), h.acked,
      hplaced _, ?_, h.effects⟩
    · intro q state hq
      cases hq
      exact hp
    · intro q
      have hq := hcount q
      rw [running_eq_nil rfl hidle, List.count_nil]
      show s.recorded.count q + s.orphans.count q + 0 + s.queue.count q ≤ s.requeued.count q + 1
      omega

theorem settle (h : Conserved effect store s) {s' : Subscription M S}
    (hstep : s.step effect .settle = some s') : Conserved effect store s' := by
  have hcount : ∀ q, s.recorded.count q + s.orphans.count q + 0 + s.queue.count q ≤
      s.requeued.count q + 1 := by
    intro q
    have hold := h.deliveries q
    omega
  have hplaced : ∀ (p : Nat × M) (state : Handler), s.current = some (p, state) →
      ∀ q ∈ s.published, q ∈ s.queue ∨ q = p ∨ q ∈ s.acked ∨ q ∈ s.dropped := by
    intro p state hcurrent q hq
    rcases h.placed q hq with hq | ⟨state', hq⟩ | hq
    · exact .inl hq
    · rw [hcurrent] at hq
      cases hq
      exact .inr (.inl rfl)
    · exact .inr (.inr hq)
  unfold step at hstep
  dsimp only at hstep
  split at hstep
  · rename_i p hcurrent
    cases hstep
    refine ⟨h.numbered, h.queue, fun q state hq => (by cases hq), h.orphans, h.recorded,
      fun q hq => (by cases hq), ?_, ?_, hcount, h.effects⟩
    · exact List.append_subset.mpr
        ⟨h.acked, List.cons_subset.mpr ⟨h.resolved p hcurrent, List.nil_subset _⟩⟩
    · intro q hq
      rcases hplaced p _ hcurrent q hq with hq | rfl | hq | hq
      · exact .inl hq
      · exact .inr (.inr (.inl (List.mem_append_right _ (List.mem_singleton_self _))))
      · exact .inr (.inr (.inl (List.mem_append_left _ hq)))
      · exact .inr (.inr (.inr hq))
  · rename_i p hcurrent
    cases hstep
    refine ⟨h.numbered, h.queue, fun q state hq => (by cases hq), h.orphans, h.recorded,
      fun q hq => (by cases hq), h.acked, ?_, hcount, h.effects⟩
    intro q hq
    rcases hplaced p _ hcurrent q hq with hq | rfl | hq | hq
    · exact .inl hq
    · exact .inr (.inr (.inr (List.mem_append_right _ (List.mem_singleton_self _))))
    · exact .inr (.inr (.inl hq))
    · exact .inr (.inr (.inr (List.mem_append_left _ hq)))
  · cases hstep

/-- The message is delivered again; a handler that is still running goes on. -/
theorem disconnect (h : Conserved effect store s) {p : Nat × M} {state : Handler}
    (hcurrent : s.current = some (p, state)) (orphans : List (Nat × M))
    (horphans : orphans = s.orphans ++ s.running) :
    Conserved effect store { s with
      queue := p :: s.queue, current := none, orphans := orphans
      requeued := s.requeued ++ [p] } := by
  have hp := h.current p state hcurrent
  have hrunning : s.running ⊆ s.published := by
    unfold running
    split
    · rename_i q hq
      exact List.cons_subset.mpr ⟨h.current q _ hq, List.nil_subset _⟩
    · exact List.nil_subset _
  refine ⟨h.numbered, List.cons_subset.mpr ⟨hp, h.queue⟩, fun q _ hq => (by cases hq),
    horphans ▸ List.append_subset.mpr ⟨h.orphans, hrunning⟩, h.recorded,
    fun q hq => (by cases hq), h.acked, ?_, ?_, h.effects⟩
  · intro q hq
    rcases h.placed q hq with hq | ⟨state', hq⟩ | hq
    · exact .inl (List.mem_cons_of_mem _ hq)
    · rw [hcurrent] at hq
      cases hq
      exact .inl List.mem_cons_self
    · exact .inr (.inr hq)
  · intro q
    have hold := h.deliveries q
    show s.recorded.count q + orphans.count q + 0 + (p :: s.queue).count q ≤
      (s.requeued ++ [p]).count q + 1
    rw [horphans, List.count_append, List.count_append, List.count_cons, List.count_singleton]
    omega

theorem finish (h : Conserved effect store s) {i : Nat} {p : Nat × M}
    (hi : s.orphans[i]? = some p) (a : Attempt) :
    Conserved effect store { (s.attempt effect p a).2 with orphans := s.orphans.eraseIdx i } := by
  have hp : p ∈ s.published := h.orphans (List.mem_of_getElem? hi)
  have hsub : s.orphans.eraseIdx i ⊆ s.published :=
    fun q hq => h.orphans (List.mem_of_mem_eraseIdx hq)
  have hcount : ∀ q, s.recorded.count q + [p].count q + (s.orphans.eraseIdx i).count q +
      s.running.count q + s.queue.count q ≤ s.requeued.count q + 1 := by
    intro q
    have hold := h.deliveries q
    obtain ⟨hlt, heq⟩ := List.getElem?_eq_some_iff.mp hi
    have hperm := (List.getElem_cons_eraseIdx_perm hlt).count_eq q
    rw [heq, List.count_cons] at hperm
    rw [List.count_singleton]
    omega
  rcases attempt_cases effect s p a with ⟨t, heffect, hafter⟩ | hafter <;> rw [hafter]
  · refine ⟨h.numbered, h.queue, h.current, hsub,
      List.append_subset.mpr ⟨h.recorded, List.cons_subset.mpr ⟨hp, List.nil_subset _⟩⟩,
      fun q hq => List.mem_append_left _ (h.resolved q hq),
      List.subset_append_of_subset_left _ h.acked, h.placed, ?_, ?_⟩
    · intro q
      have hq := hcount q
      show (s.recorded ++ [p]).count q + (s.orphans.eraseIdx i).count q + s.running.count q +
        s.queue.count q ≤ s.requeued.count q + 1
      rw [List.count_append]
      exact hq
    · show (s.recorded ++ [p]).foldlM _ store = some t
      rw [List.foldlM_append, h.effects]
      simpa using heffect
  · refine ⟨h.numbered, h.queue, h.current, hsub, h.recorded, h.resolved, h.acked, h.placed, ?_,
      h.effects⟩
    intro q
    have hq := hcount q
    show s.recorded.count q + (s.orphans.eraseIdx i).count q + s.running.count q +
      s.queue.count q ≤ s.requeued.count q + 1
    omega

theorem step {s' : Subscription M S} (h : Conserved effect store s) {a : Action M}
    (hstep : s.step effect a = some s') : Conserved effect store s' := by
  cases a with
  | publish m reached =>
    cases reached with
    | true =>
      cases hstep
      exact h.publish m
    | false =>
      cases hstep
      exact h
  | deliver =>
    unfold Subscription.step at hstep
    dsimp only at hstep
    split at hstep
    · rename_i p queue hcurrent hqueue
      cases hstep
      exact h.deliver hcurrent hqueue
    · cases hstep
  | handle a =>
    unfold Subscription.step at hstep
    dsimp only at hstep
    split at hstep
    · rename_i p hcurrent
      cases hstep
      exact h.handle hcurrent a
    · cases hstep
  | settle => exact h.settle hstep
  | disconnect =>
    unfold Subscription.step at hstep
    dsimp only at hstep
    split at hstep
    · rename_i p hcurrent
      cases hstep
      exact h.disconnect hcurrent _ (by rw [running, hcurrent])
    · rename_i p state hstate hcurrent
      cases hstep
      refine h.disconnect hcurrent _ ?_
      rw [running_eq_nil hcurrent hstate, List.append_nil]
    · cases hstep
  | finish i a =>
    unfold Subscription.step at hstep
    dsimp only at hstep
    split at hstep
    · rename_i p hi
      cases hstep
      exact h.finish hi a
    · cases hstep

theorem of_reach {s : Subscription M S} (effect : M → S → Option S) (store : S)
    (h : Reach (Subscription.step effect) (fun _ _ => True) (.init store) s) :
    Conserved effect store s :=
  h.invariant (Conserved effect store) (.init effect store) fun _ _ _ hc _ hstep => hc.step hstep

end Conserved

/-! ### Accounts -/

section
variable (s : Subscription M S) (f : M → Bool)

def publishedOf : List (Nat × M) := s.published.filter fun p => f p.2

def recordedOf : List (Nat × M) := s.recorded.filter fun p => f p.2

/-- The messages that have never been recorded. -/
def lost : List (Nat × M) := (s.publishedOf f).filter fun p => !s.recorded.contains p

/-- The recordings beyond the first of each message. -/
def repeats : Nat := (s.recordedOf f).length - (s.recordedOf f).dedup.length

end

namespace Conserved
variable {effect : M → S → Option S} {store : S} {s : Subscription M S}

/-- Recordings and losses balance publications and repetitions. -/
theorem balance (h : Conserved effect store s) (f : M → Bool) :
    (s.recordedOf f).length + (s.lost f).length = (s.publishedOf f).length + s.repeats f := by
  have hperm : (s.recordedOf f).dedup.Perm
      ((s.publishedOf f).filter fun p => s.recorded.contains p) := by
    have hnodup : ((s.publishedOf f).filter fun p => s.recorded.contains p).Nodup :=
      (h.nodup.filter _).filter _
    rw [List.perm_ext_iff_of_nodup (List.nodup_dedup _) hnodup]
    intro p
    simp only [recordedOf, publishedOf, List.mem_dedup, List.mem_filter, List.contains_iff_mem]
    constructor
    · rintro ⟨hrecorded, hf⟩
      exact ⟨⟨h.recorded hrecorded, hf⟩, hrecorded⟩
    · rintro ⟨⟨-, hf⟩, hrecorded⟩
      exact ⟨hrecorded, hf⟩
  have hsplit := List.length_eq_length_filter_add (l := s.publishedOf f)
    fun p => s.recorded.contains p
  have hle : (s.recordedOf f).dedup.length ≤ (s.recordedOf f).length :=
    (List.dedup_sublist _).length_le
  rw [hperm.length_eq] at hle
  rw [repeats, lost, hperm.length_eq, hsplit]
  omega

/-- A message that is neither in flight nor recorded was dropped. -/
theorem lost_dropped (h : Conserved effect store s) (hquiet : s.Quiescent) {f : M → Bool}
    {p : Nat × M} (hp : p ∈ s.lost f) : p ∈ s.dropped := by
  obtain ⟨hp, hunrecorded⟩ := List.mem_filter.mp hp
  have hunrecorded : p ∉ s.recorded := by simpa using hunrecorded
  rcases h.placed p (List.mem_of_mem_filter hp) with hqueue | ⟨state, hcurrent⟩ | hacked | hdropped
  · rw [hquiet.1] at hqueue
    cases hqueue
  · have hnone := hquiet.2
    rw [hcurrent] at hnone
    cases hnone
  · exact absurd (h.acked hacked) hunrecorded
  · exact hdropped

/-- A message that is recorded twice was delivered twice. -/
theorem repeated_requeued (h : Conserved effect store s) {p : Nat × M}
    (hp : 1 < s.recorded.count p) : p ∈ s.requeued := by
  have hdeliveries := h.deliveries p
  exact List.count_pos_iff.mp (by omega)

theorem repeats_eq_zero (h : Conserved effect store s) (hrequeued : s.requeued = [])
    (f : M → Bool) : s.repeats f = 0 := by
  have hnodup : s.recorded.Nodup := by
    rw [List.nodup_iff_count_le_one]
    intro p
    by_contra hp
    have hmem := h.repeated_requeued (not_le.mp hp)
    rw [hrequeued] at hmem
    cases hmem
  rw [repeats, recordedOf, (hnodup.filter _).dedup, Nat.sub_self]

end Conserved
end Subscription
end Library
