import IntelliStore.Library.Runs

/-! Unwinding: what an observer is answered does not depend on the events of others,
when the others' events leave the observer's part of the state as it was and the
observer's own events are answered from that part alone. -/

namespace Library
variable {S E O : Type*}

theorem answers_purge {step : S → E → O × S} {G : S → E → Prop} (R : S → S → Prop)
    (own : E → Bool)
    (hidden : ∀ s t e, R s t → G s e → own e = false → R (step s e).2 t)
    (visible : ∀ s t e, R s t → G s e → own e = true →
      (step s e).1 = (step t e).1 ∧ R (step s e).2 (step t e).2)
    {s t : S} {es : List E} (hg : Guarded step G s es) (hr : R s t) :
    (answers step s es).filter (fun p => own p.1) = answers step t (es.filter own) := by
  induction es generalizing s t with
  | nil => rfl
  | cons e es ih =>
    cases he : own e with
    | false =>
      rw [answers, List.filter_cons_of_neg (by simp [he]), List.filter_cons_of_neg (by simp [he])]
      exact ih hg.2 (hidden s t e hr hg.1 he)
    | true =>
      obtain ⟨hans, hnext⟩ := visible s t e hr hg.1 he
      rw [answers, List.filter_cons_of_pos (by simpa using he), List.filter_cons_of_pos he, answers,
        ih hg.2 hnext, hans]

end Library
