import IntelliStore.Library.RelyGuarantee

/-! The commands that the run of a program issues, and rules for programs that run alone and
keep them. -/

namespace Library

/-- A command of a run, with its circumstances and the state it meets. -/
structure Issued (C E S : Type) where
  command : C
  circumstances : E
  before : S

namespace Prog
variable {C : Type} {R : C → Type} {ε α β E S : Type}

def trace (exec : (c : C) → E → S → Except ε (R c) × S) :
    Prog C R ε α → (Nat → E) → S → List (Issued C E S)
  | .done _, _, _ => []
  | .call c next, es, s =>
    ⟨c, es 0, s⟩ :: trace exec (next (exec c (es 0) s).1) (fun n => es (n + 1)) (exec c (es 0) s).2

/-- The command is kept beside the state. -/
def traced (exec : (c : C) → E → S → Except ε (R c) × S) (c : C) (e : E)
    (x : S × List (Issued C E S)) : Except ε (R c) × (S × List (Issued C E S)) :=
  ((exec c e x.1).1, (exec c e x.1).2, x.2 ++ [⟨c, e, x.1⟩])

theorem run_traced (exec : (c : C) → E → S → Except ε (R c) × S) (p : Prog C R ε α)
    (es : Nat → E) (x : S × List (Issued C E S)) : p.run (traced exec) es x =
      ((p.run exec es x.1).1, (p.run exec es x.1).2, x.2 ++ p.trace exec es x.1) := by
  induction p generalizing es x with
  | done r => rw [run, run, trace, List.append_nil]
  | call c next ih =>
    rw [run, ih, traced, run, trace, List.append_assoc]
    rfl

theorem meets_traced {exec : (c : C) → E → S → Except ε (R c) × S} {allowed : C → E → S → Prop}
    {p : Prog C R ε α} {es : Nat → E} {x : S × List (Issued C E S)} :
    p.Meets (fun c e y => allowed c e y.1) (traced exec) es x ↔ p.Meets allowed exec es x.1 := by
  induction p generalizing es x with
  | done r => rfl
  | call c next ih => exact and_congr_right fun _ => ih _

/-- The commands of a program meet what those of its first part meet. -/
theorem Meets.of_bind {exec : (c : C) → E → S → Except ε (R c) × S} {allowed : C → E → S → Prop}
    {p : Prog C R ε α} {f : α → Prog C R ε β} {es : Nat → E} {s : S}
    (h : (p >>= f).Meets allowed exec es s) : p.Meets allowed exec es s := by
  induction p generalizing es s with
  | done r => trivial
  | call c next ih => exact ⟨h.1, ih _ h.2⟩

/-- Circumstances that suit every command suit those of a run. -/
theorem meets_of_circumstances {exec : (c : C) → E → S → Except ε (R c) × S} {G : E → Prop}
    {es : Nat → E} (hes : ∀ n, G (es n)) (p : Prog C R ε α) (s : S) :
    p.Meets (fun _ e _ => G e) exec es s := by
  induction p generalizing es s with
  | done r => trivial
  | call c next ih => exact ⟨hes 0, ih _ (fun n => hes (n + 1)) _⟩

/-! ### Programs that run alone -/

/-- Nobody else changes the state, and the program may do what it likes. -/
def alone (exec : (c : C) → E → S → Except ε (R c) × S) (allowed : C → E → S → Prop) :
    Contract C R ε E (S × List (Issued C E S)) where
  exec := traced exec
  allowed c e x := allowed c e x.1
  rely := Eq
  guar _ _ := True

theorem alone_lawful (exec : (c : C) → E → S → Except ε (R c) × S)
    (allowed : C → E → S → Prop) : (alone exec allowed).Lawful :=
  ⟨fun _ => rfl, fun _ _ _ h h' => h.trans h'⟩

section
variable {exec : (c : C) → E → S → Except ε (R c) × S} {allowed : C → E → S → Prop}
  {x : S × List (Issued C E S)}

theorem sat_alone {c : C} {f : R c → Prog C R ε β}
    {Q : Except ε β → S × List (Issued C E S) → Prop}
    (h : ∀ e, allowed c e x.1 → sequel (alone exec allowed) Q f (exec c e x.1).1
      ((exec c e x.1).2, x.2 ++ [⟨c, e, x.1⟩])) :
    (perform c >>= f).sat (alone exec allowed) Q x := by
  rw [sat_bind]
  rintro _ rfl e he
  exact ⟨trivial, h e he⟩

theorem sat_alone_last {c : C} {Q : Except ε (R c) → S × List (Issued C E S) → Prop}
    (h : ∀ e, allowed c e x.1 → Q (exec c e x.1).1 ((exec c e x.1).2, x.2 ++ [⟨c, e, x.1⟩])) :
    (perform c : Prog C R ε (R c)).sat (alone exec allowed) Q x := by
  rintro _ rfl e he
  exact ⟨trivial, h e he⟩

/-- What holds of the program in all circumstances holds when it runs alone in some of them. -/
theorem sat_alone_of_wp {w : Semantics C R ε E S} {Q : Except ε α → S → Prop} {K : C → Prop}
    (hexec : w.exec = exec) (hrely : ∀ s, w.rely s s)
    (hallowed : ∀ c e s, K c → allowed c e s → w.allowed e) {p : Prog C R ε α}
    (hissues : p.OnlyIssues K) (hp : p.wp w Q x.1) :
    p.sat (alone exec allowed) (fun r y => Q r y.1) x := by
  subst hexec
  induction p generalizing x with
  | done r => exact hp
  | call c next ih =>
    rintro _ rfl e he
    have hnext := hp x.1 (hrely x.1) e (hallowed c e x.1 hissues.1 he)
    exact ⟨trivial, ih _ (hissues.2 _) hnext⟩

/-- The run of a program, and what it has issued. -/
theorem sat_alone_run {es : Nat → E} {p : Prog C R ε α} {s : S}
    {Q : Except ε α → S × List (Issued C E S) → Prop} (hp : p.sat (alone exec allowed) Q (s, []))
    (hes : p.Meets allowed exec es s) :
    Q (p.run exec es s).1 ((p.run exec es s).2, p.trace exec es s) := by
  have hmeets : p.Meets (alone exec allowed).allowed (alone exec allowed).exec es (s, []) :=
    meets_traced.mpr hes
  have hrun : p.run (alone exec allowed).exec es (s, []) =
      ((p.run exec es s).1, (p.run exec es s).2, p.trace exec es s) := run_traced exec p es (s, [])
  have hresult := sat_run (alone_lawful exec allowed) es hp hmeets
  rwa [hrun] at hresult

end
end Prog
end Library
