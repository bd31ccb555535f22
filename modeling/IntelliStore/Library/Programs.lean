import Mathlib.Logic.Basic

/-! Programs that issue commands to a shared state and go on with the replies, run alone or
between the commands of other programs. -/

namespace Library

/-- A program over the commands `C`, whose replies have the types `R`. -/
inductive Prog (C : Type) (R : C → Type) (ε α : Type) where
  | done (result : Except ε α)
  | call (c : C) (next : Except ε (R c) → Prog C R ε α)

/-- What a command does in circumstances that the program does not choose, in which
circumstances the programs run, and what the others may do between two commands. -/
structure Semantics (C : Type) (R : C → Type) (ε E S : Type) where
  exec : (c : C) → E → S → Except ε (R c) × S
  allowed : E → Prop
  rely : S → S → Prop

namespace Prog
variable {C : Type} {R : C → Type} {ε α β E S : Type}

def perform (c : C) : Prog C R ε (R c) := .call c .done

def bind : Prog C R ε α → (α → Prog C R ε β) → Prog C R ε β
  | .done (.ok a), f => f a
  | .done (.error e), _ => .done (.error e)
  | .call c next, f => .call c fun r => (next r).bind f

def handle : Prog C R ε α → (ε → Prog C R ε α) → Prog C R ε α
  | .done (.ok a), _ => .done (.ok a)
  | .done (.error e), f => f e
  | .call c next, f => .call c fun r => (next r).handle f

instance : Monad (Prog C R ε) where
  pure a := .done (.ok a)
  bind := bind

instance : MonadExceptOf ε (Prog C R ε) where
  throw e := .done (.error e)
  tryCatch := handle

/-! ### Runs -/

/-- The program alone; `es n` are the circumstances of its `n`-th command. -/
def run (exec : (c : C) → E → S → Except ε (R c) × S) :
    Prog C R ε α → (Nat → E) → S → Except ε α × S
  | .done r, _, s => (r, s)
  | .call c next, es, s =>
    run exec (next (exec c (es 0) s).1) (fun n => es (n + 1)) (exec c (es 0) s).2

/-- One command of the program. -/
def step (exec : (c : C) → E → S → Except ε (R c) × S) (e : E) :
    Prog C R ε α → S → Option (Prog C R ε α × S)
  | .done _, _ => none
  | .call c next, s => some (next (exec c e s).1, (exec c e s).2)

/-- The program has thrown. -/
def threw : Prog C R ε α → Bool
  | .done (.error _) => true
  | _ => false

/-- A run over a part of the state, where the commands read and change that part alone. -/
theorem run_proj {T : Type} {exec : (c : C) → E → S → Except ε (R c) × S}
    {exec' : (c : C) → E → T → Except ε (R c) × T} (π : S → T) {G : E → Prop}
    (h : ∀ c e s, G e → exec' c e (π s) = ((exec c e s).1, π (exec c e s).2)) {es : Nat → E}
    (hes : ∀ n, G (es n)) (p : Prog C R ε α) (s : S) :
    p.run exec' es (π s) = ((p.run exec es s).1, π (p.run exec es s).2) := by
  induction p generalizing s es with
  | done r => rfl
  | call c next ih =>
    rw [run, run, h c (es 0) s (hes 0)]
    exact ih _ (fun n => hes (n + 1)) _

/-! ### Weakest preconditions -/

/-- Every result of the program meets `Q`, whatever the circumstances and the others do. -/
def wp (w : Semantics C R ε E S) (Q : Except ε α → S → Prop) : Prog C R ε α → S → Prop
  | .done r, s => Q r s
  | .call c next, s =>
    ∀ t, w.rely s t → ∀ e, w.allowed e → (next (w.exec c e t).1).wp w Q (w.exec c e t).2

/-- `Q` after the program that follows a result, if the result is a value. -/
def follow (w : Semantics C R ε E S) (Q : Except ε β → S → Prop) (f : α → Prog C R ε β) :
    Except ε α → S → Prop
  | .ok a, s => (f a).wp w Q s
  | .error e, s => Q (.error e) s

/-- `Q` after the handler that follows a result, if the result is an error. -/
def recover (w : Semantics C R ε E S) (Q : Except ε α → S → Prop) (f : ε → Prog C R ε α) :
    Except ε α → S → Prop
  | .ok a, s => Q (.ok a) s
  | .error e, s => (f e).wp w Q s

section
variable {w : Semantics C R ε E S} {Q Q' : Except ε α → S → Prop} {s t : S}

theorem wp_perform {c : C} {Q : Except ε (R c) → S → Prop} :
    (perform c : Prog C R ε (R c)).wp w Q s ↔
      ∀ t, w.rely s t → ∀ e, w.allowed e → Q (w.exec c e t).1 (w.exec c e t).2 := Iff.rfl

theorem wp_bind (p : Prog C R ε α) (f : α → Prog C R ε β) {Q : Except ε β → S → Prop} :
    (p >>= f).wp w Q s ↔ p.wp w (follow w Q f) s := by
  induction p generalizing s with
  | done r => cases r <;> rfl
  | call c next ih =>
    exact forall_congr' fun t => imp_congr_right fun _ => forall_congr' fun e =>
      imp_congr_right fun _ => ih _

theorem wp_tryCatch (p : Prog C R ε α) (f : ε → Prog C R ε α) :
    (tryCatch p f).wp w Q s ↔ p.wp w (recover w Q f) s := by
  induction p generalizing s with
  | done r => cases r <;> rfl
  | call c next ih =>
    exact forall_congr' fun t => imp_congr_right fun _ => forall_congr' fun e =>
      imp_congr_right fun _ => ih _

theorem wp_mono {p : Prog C R ε α} (h : ∀ r t, Q r t → Q' r t) (hp : p.wp w Q s) :
    p.wp w Q' s := by
  induction p generalizing s with
  | done r => exact h r s hp
  | call c next ih => exact fun t ht e he => ih _ (hp t ht e he)

theorem wp_and {p : Prog C R ε α} (hp : p.wp w Q s) (hp' : p.wp w Q' s) :
    p.wp w (fun r t => Q r t ∧ Q' r t) s := by
  induction p generalizing s with
  | done r => exact ⟨hp, hp'⟩
  | call c next ih => exact fun t ht e he => ih _ (hp t ht e he) (hp' t ht e he)

/-- Between two commands the others keep what the program has established. -/
theorem wp_stable (htrans : ∀ s t u, w.rely s t → w.rely t u → w.rely s u)
    (hQ : ∀ r s t, w.rely s t → Q r s → Q r t) {p : Prog C R ε α} (hp : p.wp w Q s)
    (hst : w.rely s t) : p.wp w Q t := by
  cases p with
  | done r => exact hQ r s t hst hp
  | call c next => exact fun u hu e he => hp u (htrans s t u hst hu) e he

/-- What every command and the others keep holds after the program. -/
theorem wp_invariant (P : S → Prop) (hexec : ∀ c e s, w.allowed e → P s → P (w.exec c e s).2)
    (hrely : ∀ s t, w.rely s t → P s → P t) (p : Prog C R ε α) (hs : P s) :
    p.wp w (fun _ t => P t) s := by
  induction p generalizing s with
  | done r => exact hs
  | call c next ih => exact fun t ht e he => ih _ (hexec c e t he (hrely s t ht hs))

theorem wp_step (hrefl : ∀ s, w.rely s s) {e : E} (he : w.allowed e) {p p' : Prog C R ε α}
    (hp : p.wp w Q s) (hstep : p.step w.exec e s = some (p', t)) : p'.wp w Q t := by
  cases p with
  | done r => cases hstep
  | call c next =>
    cases hstep
    exact hp s (hrefl s) e he

theorem wp_run (hrefl : ∀ s, w.rely s s) {es : Nat → E} (hes : ∀ n, w.allowed (es n))
    {p : Prog C R ε α} (hp : p.wp w Q s) :
    Q (p.run w.exec es s).1 (p.run w.exec es s).2 := by
  induction p generalizing s es with
  | done r => exact hp
  | call c next ih => exact ih _ (fun n => hes (n + 1)) (hp s (hrefl s) (es 0) (hes 0))

end
end Prog
end Library
