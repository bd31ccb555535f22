import IntelliStore.Auth.AuthService
import Mathlib.Logic.Function.Basic

/-! Registrations at the same time: the calls of `AuthService.register` take turns between
`findByEmail`, `bcrypt.hash` and `create`. -/

namespace IntelliStore.Auth
open Library Postgres
open Metadata (ServiceError DbError)

structure Registration where
  input : RegisterInput
  supply : Supply

/-- What a call does next, or how it ended. -/
inductive RegisterStage (τ : Type) where
  | findByEmail
  | hash
  | create (passwordHash : String)
  | ended (result : Except ServiceError (AuthResult τ))

structure Registrations (ι τ : Type) where
  state : State
  stage : ι → RegisterStage τ

def emailTaken : AppError := .conflict "An account with this email already exists"

namespace Registrations
variable {ι τ : Type} [DecidableEq ι]

def start (s : State) : Registrations ι τ := ⟨s, fun _ => .findByEmail⟩

def setStage (s : Registrations ι τ) (i : ι) (stage : RegisterStage τ) : Registrations ι τ :=
  { s with stage := Function.update s.stage i stage }

def proceed (svc : AuthService τ) (calls : ι → Registration) (s : Registrations ι τ) (i : ι) :
    Registrations ι τ :=
  let input := (calls i).input
  let supply := (calls i).supply
  match s.stage i with
  | .findByEmail =>
    match s.state.users.findByEmail input.email with
    | .error e => s.setStage i (.ended (.error (.db e)))
    | .ok (some _) => s.setStage i (.ended (.error (.app emailTaken)))
    | .ok none => s.setStage i .hash
  | .hash => s.setStage i (.create (svc.bcrypt.hash input.password supply.salt))
  | .create passwordHash =>
    match s.state.users.create supply.id supply.now
        ⟨input.email, passwordHash, input.displayName⟩ with
    -- no handler makes a conflict of the violated key
    | .error e => s.setStage i (.ended (.error (.db e)))
    | .ok (record, users) =>
      let signedIn := svc.signIn supply.now record { s.state with users := users }
      ({ s with state := signedIn.2 }).setStage i (.ended signedIn.1)
  | .ended _ => s

def step (svc : AuthService τ) (calls : ι → Registration) (s : Registrations ι τ) (i : ι) :
    Unit × Registrations ι τ := ((), s.proceed svc calls i)

def emails (s : Registrations ι τ) : List String := s.state.users.rows.map UserRecord.email

def Succeeded (s : Registrations ι τ) (i : ι) : Prop := ∃ result, s.stage i = .ended (.ok result)

/-- Of the calls for an email one succeeded, its row is there, and the others met a conflict. -/
structure OneAccount (calls : ι → Registration) (s : Registrations ι τ) (email : String) :
    Prop where
  winner : ∃! i, (calls i).input.email = email ∧ s.Succeeded i
  row : ∃! row, row ∈ s.state.users.rows ∧ row.email = email
  losers : ∀ i, (calls i).input.email = email → ¬s.Succeeded i →
    s.stage i = .ended (.error (.app emailTaken))

end Registrations

/-- The row that a call would insert. -/
def Registration.row {τ : Type} (svc : AuthService τ) (call : Registration) : UserRecord where
  id := call.supply.id
  email := call.input.email
  passwordHash := svc.bcrypt.hash call.input.password call.supply.salt
  displayName := call.input.displayName
  createdAt := call.supply.now
  updatedAt := call.supply.now

/-- No text of the row has a NUL. -/
def Registration.Storable {τ : Type} (svc : AuthService τ) (call : Registration) : Prop :=
  isText call.input.email = true ∧
    isText (svc.bcrypt.hash call.input.password call.supply.salt) = true ∧
    isText call.input.displayName = true

/-- Between `findByEmail` and the end of `create`. -/
def RegisterStage.InProgress {τ : Type} : RegisterStage τ → Prop
  | .hash | .create _ => True
  | _ => False

namespace Registrations
variable {ι τ : Type} [DecidableEq ι]

/-- A call that looks for its email and finds nothing is the only one that goes on with this
email, and its row can be stored. -/
def Unraced (svc : AuthService τ) (calls : ι → Registration) (s : Registrations ι τ) (i : ι) :
    Prop :=
  s.stage i = .findByEmail → isText (calls i).input.email = true ∧
    ((calls i).input.email ∉ s.emails → (calls i).Storable svc ∧
      ∀ j, (calls j).input.email = (calls i).input.email → ¬(s.stage j).InProgress)

/-! ### What a step can do -/

variable {svc : AuthService τ} {calls : ι → Registration} {s s' : Registrations ι τ} {i j : ι}

inductive Proceeds (svc : AuthService τ) (calls : ι → Registration) (s : Registrations ι τ)
    (i : ι) : Registrations ι τ → Prop
  | ended {result : Except ServiceError (AuthResult τ)} (hstage : s.stage i = .ended result) :
    Proceeds svc calls s i s
  | refused (hstage : s.stage i = .findByEmail) (htext : isText (calls i).input.email = false) :
    Proceeds svc calls s i (s.setStage i (.ended (.error (.db .invalidText))))
  | taken (hstage : s.stage i = .findByEmail) (htext : isText (calls i).input.email = true)
    (hemail : (calls i).input.email ∈ s.emails) :
    Proceeds svc calls s i (s.setStage i (.ended (.error (.app emailTaken))))
  | free (hstage : s.stage i = .findByEmail) (htext : isText (calls i).input.email = true)
    (hemail : (calls i).input.email ∉ s.emails) : Proceeds svc calls s i (s.setStage i .hash)
  | hashed (hstage : s.stage i = .hash) :
    Proceeds svc calls s i
      (s.setStage i (.create (svc.bcrypt.hash (calls i).input.password (calls i).supply.salt)))
  | failed {passwordHash : String} {e : DbError} (hstage : s.stage i = .create passwordHash)
    (hinsert : s.state.users.insert { (calls i).row svc with passwordHash := passwordHash } =
      .error e) :
    Proceeds svc calls s i (s.setStage i (.ended (.error (.db e))))
  | created {passwordHash : String} {users : Users} {signed : List SignCall}
    {result : AuthResult τ} (hstage : s.stage i = .create passwordHash)
    (hinsert : s.state.users.insert { (calls i).row svc with passwordHash := passwordHash } =
      .ok users) :
    Proceeds svc calls s i
      (({ s with state := ⟨users, signed⟩ }).setStage i (.ended (.ok result)))

@[simp] theorem setStage_self (s : Registrations ι τ) (i : ι) (stage : RegisterStage τ) :
    (s.setStage i stage).stage i = stage := Function.update_self _ _ _

@[simp] theorem setStage_state (s : Registrations ι τ) (i : ι) (stage : RegisterStage τ) :
    (s.setStage i stage).state = s.state := rfl

theorem setStage_of_ne (s : Registrations ι τ) (hne : j ≠ i) (stage : RegisterStage τ) :
    (s.setStage i stage).stage j = s.stage j := Function.update_of_ne hne _ _

theorem findByEmail_eq {d : Users} {email : String} (htext : isText email = true) :
    (email ∈ d.rows.map UserRecord.email ∧ ∃ row, d.findByEmail email = .ok (some row)) ∨
      (email ∉ d.rows.map UserRecord.email ∧ d.findByEmail email = .ok none) := by
  by_cases hemail : email ∈ d.rows.map UserRecord.email
  · obtain ⟨row, hrow, hrowEmail⟩ := List.mem_map.mp hemail
    exact Or.inl ⟨hemail, row, Users.findByEmail_eq_some.mpr ⟨hrow, hrowEmail⟩⟩
  · have hnone : d.rows.find? (·.email == email) = none := by
      rw [List.find?_eq_none]
      intro row hrow hrowEmail
      exact hemail (List.mem_map.mpr ⟨row, hrow, beq_iff_eq.mp hrowEmail⟩)
    exact Or.inr ⟨hemail, by rw [Users.findByEmail, if_pos htext, hnone]⟩

theorem proceeds (svc : AuthService τ) (calls : ι → Registration) (s : Registrations ι τ) (i : ι) :
    Proceeds svc calls s i (s.proceed svc calls i) := by
  unfold proceed
  simp only
  cases hstage : s.stage i with
  | ended result => exact .ended hstage
  | hash => exact .hashed hstage
  | findByEmail =>
    cases htext : isText (calls i).input.email with
    | false =>
      have herror : s.state.users.findByEmail (calls i).input.email = .error .invalidText := by
        rw [Users.findByEmail, if_neg (by simp [htext])]
      simp only [herror]
      exact .refused hstage htext
    | true =>
      rcases findByEmail_eq (d := s.state.users) htext with ⟨hemail, row, hfind⟩ | ⟨hemail, hfind⟩
      · simp only [hfind]
        exact .taken hstage htext hemail
      · simp only [hfind]
        exact .free hstage htext hemail
  | create passwordHash =>
    simp only [Users.create, bind, Except.bind, pure, Except.pure]
    cases hinsert : s.state.users.insert
        { (calls i).row svc with passwordHash := passwordHash } with
    | error e =>
      have h : s.state.users.insert ⟨(calls i).supply.id, (calls i).input.email, passwordHash,
          (calls i).input.displayName, (calls i).supply.now, (calls i).supply.now⟩ = .error e :=
        hinsert
      simp only [h]
      exact .failed hstage hinsert
    | ok users =>
      have h : s.state.users.insert ⟨(calls i).supply.id, (calls i).input.email, passwordHash,
          (calls i).input.displayName, (calls i).supply.now, (calls i).supply.now⟩ = .ok users :=
        hinsert
      simp only [h]
      exact .created hstage hinsert

/-- The other calls stay where they are. -/
theorem Proceeds.stage_of_ne (h : Proceeds svc calls s i s') (hne : j ≠ i) :
    s'.stage j = s.stage j := by
  cases h with
  | ended => rfl
  | _ => exact setStage_of_ne _ hne _

/-- A call that has ended stays as it is. -/
theorem Proceeds.stage_ended (h : Proceeds svc calls s i s')
    {result : Except ServiceError (AuthResult τ)} (hended : s.stage j = .ended result) :
    s'.stage j = .ended result := by
  by_cases hne : j = i
  · subst hne
    have hstay : s' = s := by
      cases h with
      | ended => rfl
      | refused hstage => exact nomatch hstage.symm.trans hended
      | taken hstage => exact nomatch hstage.symm.trans hended
      | free hstage => exact nomatch hstage.symm.trans hended
      | hashed hstage => exact nomatch hstage.symm.trans hended
      | failed hstage => exact nomatch hstage.symm.trans hended
      | created hstage => exact nomatch hstage.symm.trans hended
    rw [hstay, hended]
  · rw [h.stage_of_ne hne, hended]

/-- `create` is called with the hash of the password. -/
def Hashed (svc : AuthService τ) (calls : ι → Registration) (s : Registrations ι τ) : Prop :=
  ∀ i passwordHash, s.stage i = .create passwordHash →
    passwordHash = svc.bcrypt.hash (calls i).input.password (calls i).supply.salt

theorem hashed_setStage {stage : RegisterStage τ} (h : Hashed svc calls s)
    (hstage : ∀ passwordHash, stage = .create passwordHash →
      passwordHash = svc.bcrypt.hash (calls i).input.password (calls i).supply.salt)
    (state : State) : Hashed svc calls (({ s with state := state }).setStage i stage) := by
  intro j passwordHash hj
  by_cases hne : j = i
  · subst hne
    exact hstage passwordHash ((setStage_self _ j stage).symm.trans hj)
  · exact h j passwordHash ((setStage_of_ne _ hne stage).symm.trans hj)

theorem Proceeds.hashed_next (hp : Proceeds svc calls s i s') (h : Hashed svc calls s) :
    Hashed svc calls s' := by
  cases hp with
  | ended => exact h
  | hashed =>
    apply hashed_setStage h
    intro passwordHash heq
    cases heq
    rfl
  | _ =>
    apply hashed_setStage h
    intro passwordHash heq
    cases heq

/-! ### A call that has found nothing -/

/-- A call that is past `findByEmail` can only end with a row of its own or with an error of the
database. -/
def Passed (svc : AuthService τ) (call : Registration) : RegisterStage τ → Prop
  | .findByEmail => False
  | .hash => True
  | .create passwordHash => passwordHash = svc.bcrypt.hash call.input.password call.supply.salt
  | .ended (.ok _) => call.Storable svc
  | .ended (.error (.db _)) => True
  | .ended (.error (.app _)) => False

theorem Proceeds.passed_next (hp : Proceeds svc calls s i s')
    (h : Passed svc (calls j) (s.stage j)) : Passed svc (calls j) (s'.stage j) := by
  by_cases hne : j = i
  · subst hne
    cases hp with
    | ended => exact h
    | refused hstage => rw [hstage] at h; exact h.elim
    | taken hstage => rw [hstage] at h; exact h.elim
    | free hstage => rw [hstage] at h; exact h.elim
    | hashed =>
      rw [setStage_self]
      rfl
    | failed =>
      rw [setStage_self]
      trivial
    | created hstage hinsert =>
      rw [hstage] at h
      rw [setStage_self]
      have htext := Users.isText_of_insert hinsert
      exact ⟨htext.1, h ▸ htext.2.1, htext.2.2⟩
  · rwa [hp.stage_of_ne hne]

theorem passed_run (schedule : List ι) (h : Passed svc (calls j) (s.stage j)) :
    Passed svc (calls j) ((finalState (step svc calls) s schedule).stage j) := by
  induction schedule generalizing s with
  | nil => exact h
  | cons i schedule ih =>
    apply ih
    exact (proceeds svc calls s i).passed_next h

theorem ended_run (schedule : List ι) {result : Except ServiceError (AuthResult τ)}
    (h : s.stage j = .ended result) :
    (finalState (step svc calls) s schedule).stage j = .ended result := by
  induction schedule generalizing s with
  | nil => exact h
  | cons i schedule ih =>
    apply ih
    exact (proceeds svc calls s i).stage_ended h

section
omit [DecidableEq ι]

theorem passed_of_inProgress (h : Hashed svc calls s) (hprogress : (s.stage i).InProgress) :
    Passed svc (calls i) (s.stage i) := by
  cases hstage : s.stage i with
  | hash => trivial
  | create passwordHash => exact h i passwordHash hstage
  | findByEmail => rw [hstage] at hprogress; exact hprogress.elim
  | ended result => rw [hstage] at hprogress; exact hprogress.elim

/-- What the calls end with, if for every email one of them succeeds. -/
structure NoneFailed (calls : ι → Registration) (s : Registrations ι τ) : Prop where
  ended : ∀ i, s.Succeeded i ∨ s.stage i = .ended (.error (.app emailTaken))
  unique : ∀ i j, (calls i).input.email = (calls j).input.email → s.Succeeded i →
    s.Succeeded j → i = j

theorem noneFailed_of_oneAccount
    (h : ∀ i, OneAccount calls s (calls i).input.email) : NoneFailed calls s where
  ended i := by
    by_cases hsucceeded : s.Succeeded i
    · exact Or.inl hsucceeded
    · exact Or.inr ((h i).losers i rfl hsucceeded)
  unique i j hemail hi hj := (h j).winner.unique ⟨hemail, hi⟩ ⟨rfl, hj⟩

theorem NoneFailed.succeeded (h : NoneFailed calls s) (hpassed : Passed svc (calls i) (s.stage i)) :
    s.Succeeded i ∧ (calls i).Storable svc := by
  rcases h.ended i with hsucceeded | htaken
  · obtain ⟨result, hresult⟩ := hsucceeded
    rw [hresult] at hpassed
    exact ⟨⟨result, hresult⟩, hpassed⟩
  · rw [htaken] at hpassed
    exact hpassed.elim

theorem NoneFailed.not_db (h : NoneFailed calls s) {e : DbError} :
    s.stage i ≠ .ended (.error (.db e)) := by
  intro hfailed
  rcases h.ended i with ⟨result, hresult⟩ | htaken
  · exact nomatch hresult.symm.trans hfailed
  · exact nomatch htaken.symm.trans hfailed

end

/-- Where nothing has failed in the end, no step was a race. -/
theorem guarded_of_noneFailed (schedule : List ι) (hhashed : Hashed svc calls s)
    (h : NoneFailed calls (finalState (step svc calls) s schedule)) :
    Guarded (step svc calls) (Unraced svc calls) s schedule := by
  induction schedule generalizing s with
  | nil => trivial
  | cons i schedule ih =>
    have hp := proceeds svc calls s i
    refine ⟨?_, ih (hp.hashed_next hhashed) h⟩
    intro hstage
    have hpassed : ∀ j, Passed svc (calls j) ((s.proceed svc calls i).stage j) →
        (finalState (step svc calls) s (i :: schedule)).Succeeded j ∧ (calls j).Storable svc :=
      fun j hj => h.succeeded (passed_run schedule hj)
    have htext : isText (calls i).input.email = true := by
      by_contra hno
      have hfind : s.state.users.findByEmail (calls i).input.email = .error .invalidText :=
        if_neg hno
      have hrefused : (s.proceed svc calls i).stage i = .ended (.error (.db .invalidText)) := by
        simp only [proceed, hstage, hfind, setStage_self]
      exact h.not_db (ended_run schedule hrefused)
    refine ⟨htext, fun hemail => ?_⟩
    have hfind : s.state.users.findByEmail (calls i).input.email = .ok none :=
      ((findByEmail_eq htext).resolve_left fun htaken => hemail htaken.1).2
    have hfree : (s.proceed svc calls i).stage i = .hash := by
      simp only [proceed, hstage, hfind, setStage_self]
    have hi := hpassed i (hfree ▸ trivial)
    refine ⟨hi.2, fun j hsame hprogress => ?_⟩
    -- both are past `findByEmail`, and both would have to succeed
    have hj := hpassed j (hp.passed_next (passed_of_inProgress hhashed hprogress))
    have hij : j = i := h.unique j i hsame hj.1 hi.1
    rw [hij, hstage] at hprogress
    exact hprogress

/-! ### Without races -/

/-- The users were not known before, and their ids are new. -/
structure New (calls : ι → Registration) (d : Users) : Prop where
  ids : Function.Injective fun i => (calls i).supply.id
  fresh : ∀ i, ∀ row ∈ d.rows, row.id ≠ (calls i).supply.id ∧ row.email ≠ (calls i).input.email

structure Fair (svc : AuthService τ) (calls : ι → Registration) (d : Users)
    (s : Registrations ι τ) : Prop where
  rows : ∀ row ∈ s.state.users.rows,
    row ∈ d.rows ∨ ∃ i, s.Succeeded i ∧ row = (calls i).row svc
  succeeded : ∀ i, s.Succeeded i → (calls i).row svc ∈ s.state.users.rows
  failed : ∀ i e, s.stage i = .ended (.error e) →
    e = .app emailTaken ∧ (calls i).input.email ∈ s.emails
  storable : ∀ i, (s.stage i).InProgress → (calls i).Storable svc ∧ (calls i).input.email ∉ s.emails
  alone : ∀ i j, (s.stage i).InProgress → (s.stage j).InProgress →
    (calls j).input.email = (calls i).input.email → j = i
  hashed : Hashed svc calls s

variable {d : Users} {stage : RegisterStage τ}

theorem succeeded_setStage (hne : j ≠ i) : (s.setStage i stage).Succeeded j ↔ s.Succeeded j := by
  unfold Succeeded
  rw [setStage_of_ne s hne]

/-- A call goes on without a row of its own. -/
theorem Fair.setStage (h : Fair svc calls d s) (hopen : ¬s.Succeeded i)
    (hresult : ∀ result, stage = .ended result →
      result = .error (.app emailTaken) ∧ (calls i).input.email ∈ s.emails)
    (hprogress : stage.InProgress →
      (calls i).Storable svc ∧ (calls i).input.email ∉ s.emails ∧
        ∀ j, (calls j).input.email = (calls i).input.email → (s.stage j).InProgress → j = i)
    (hhash : ∀ passwordHash, stage = .create passwordHash →
      passwordHash = svc.bcrypt.hash (calls i).input.password (calls i).supply.salt) :
    Fair svc calls d (s.setStage i stage) := by
  have hsucceeded : ∀ j, (s.setStage i stage).Succeeded j ↔ s.Succeeded j := by
    intro j
    by_cases hne : j = i
    · subst hne
      refine iff_of_false ?_ hopen
      rintro ⟨result, hended⟩
      rw [setStage_self] at hended
      exact nomatch (hresult _ hended).1
    · exact succeeded_setStage hne
  constructor
  case rows =>
    intro row hrow
    refine (h.rows row hrow).imp_right ?_
    rintro ⟨j, hj, hrow⟩
    exact ⟨j, (hsucceeded j).mpr hj, hrow⟩
  case succeeded => exact fun j hj => h.succeeded j ((hsucceeded j).mp hj)
  case failed =>
    intro j e he
    by_cases hne : j = i
    · subst hne
      rw [setStage_self] at he
      exact ⟨Except.error.inj (hresult _ he).1, (hresult _ he).2⟩
    · rw [setStage_of_ne s hne] at he
      exact h.failed j e he
  case storable =>
    intro j hj
    by_cases hne : j = i
    · subst hne
      rw [setStage_self] at hj
      exact ⟨(hprogress hj).1, (hprogress hj).2.1⟩
    · rw [setStage_of_ne s hne] at hj
      exact h.storable j hj
  case alone =>
    intro j k hj hk hsame
    by_cases hji : j = i
    · by_cases hki : k = i
      · rw [hji, hki]
      · rw [hji, setStage_self] at hj
        rw [setStage_of_ne s hki] at hk
        rw [hji]
        exact (hprogress hj).2.2 k (hji ▸ hsame) hk
    · rw [setStage_of_ne s hji] at hj
      by_cases hki : k = i
      · rw [hki, setStage_self] at hk
        have := (hprogress hk).2.2 j (hki ▸ hsame).symm hj
        exact absurd this hji
      · rw [setStage_of_ne s hki] at hk
        exact h.alone j k hj hk hsame
  case hashed => exact hashed_setStage h.hashed hhash s.state

omit [DecidableEq ι] in
theorem Fair.id_new (h : Fair svc calls d s) (hnew : New calls d) (hopen : ¬s.Succeeded i) :
    (calls i).supply.id ∉ s.state.users.rows.map UserRecord.id := by
  intro hid
  obtain ⟨row, hrow, hrowId⟩ := List.mem_map.mp hid
  rcases h.rows row hrow with hold | ⟨j, hj, rfl⟩
  · exact (hnew.fresh i row hold).1 hrowId
  · have hji : j = i := hnew.ids hrowId
    exact hopen (hji ▸ hj)

/-- A call that found nothing and was alone adds its row. -/
theorem Fair.created (h : Fair svc calls d s) {users : Users} {signed : List SignCall}
    {result : AuthResult τ} (hprogress : (s.stage i).InProgress)
    (hrows : users.rows = s.state.users.rows ++ [(calls i).row svc]) :
    Fair svc calls d (({ s with state := ⟨users, signed⟩ }).setStage i (.ended (.ok result))) := by
  have hemails : users.rows.map UserRecord.email = s.emails ++ [(calls i).input.email] := by
    rw [hrows, List.map_append]
    rfl
  have hothers : ∀ j, j ≠ i →
      ((({ s with state := ⟨users, signed⟩ }).setStage i (.ended (.ok result))).Succeeded j ↔
        s.Succeeded j) := fun j hne => succeeded_setStage hne
  have hstage : ∀ j, j ≠ i →
      (({ s with state := ⟨users, signed⟩ }).setStage i (.ended (.ok result))).stage j =
        s.stage j := fun j hne => setStage_of_ne _ hne _
  -- a call in progress is another one, and was in progress before
  have hlater : ∀ j, ((({ s with state := ⟨users, signed⟩ }).setStage i
      (.ended (.ok result))).stage j).InProgress → j ≠ i ∧ (s.stage j).InProgress := by
    intro j hj
    have hne : j ≠ i := by
      intro heq
      rw [heq, setStage_self] at hj
      exact hj
    rw [hstage j hne] at hj
    exact ⟨hne, hj⟩
  have hnotEnded : ¬s.Succeeded i := by
    rintro ⟨result, hended⟩
    rw [hended] at hprogress
    exact hprogress
  constructor
  case rows =>
    intro row hrow
    have hrow : row ∈ s.state.users.rows ++ [(calls i).row svc] := hrows ▸ hrow
    rcases List.mem_append.mp hrow with hrow | hrow
    · refine (h.rows row hrow).imp_right ?_
      rintro ⟨j, hj, hjrow⟩
      have hne : j ≠ i := fun heq => hnotEnded (heq ▸ hj)
      exact ⟨j, (hothers j hne).mpr hj, hjrow⟩
    · exact Or.inr ⟨i, ⟨result, setStage_self _ _ _⟩, List.mem_singleton.mp hrow⟩
  case succeeded =>
    intro j hj
    change (calls j).row svc ∈ users.rows
    rw [hrows]
    by_cases hne : j = i
    · rw [hne]
      exact List.mem_append_right _ List.mem_cons_self
    · exact List.mem_append_left _ (h.succeeded j ((hothers j hne).mp hj))
  case failed =>
    intro j e he
    have hne : j ≠ i := by
      intro heq
      rw [heq, setStage_self] at he
      exact nomatch he
    have hold := h.failed j e ((hstage j hne).symm.trans he)
    refine ⟨hold.1, ?_⟩
    change (calls j).input.email ∈ users.rows.map UserRecord.email
    rw [hemails]
    exact List.mem_append_left _ hold.2
  case storable =>
    intro j hj
    obtain ⟨hne, hj⟩ := hlater j hj
    have hold := h.storable j hj
    refine ⟨hold.1, ?_⟩
    change (calls j).input.email ∉ users.rows.map UserRecord.email
    rw [hemails, List.mem_append, not_or, List.mem_singleton]
    exact ⟨hold.2, fun hsame => hne (h.alone i j hprogress hj hsame)⟩
  case alone =>
    intro j k hj hk hsame
    exact h.alone j k (hlater j hj).2 (hlater k hk).2 hsame
  case hashed => exact hashed_setStage h.hashed (fun _ heq => by cases heq) _

theorem Proceeds.fair_next (hp : Proceeds svc calls s i s') (hnew : New calls d)
    (h : Fair svc calls d s) (hunraced : Unraced svc calls s i) : Fair svc calls d s' := by
  have hopen : ∀ {stage : RegisterStage τ}, s.stage i = stage →
      (∀ result, stage ≠ .ended result) → ¬s.Succeeded i := by
    rintro stage hstage hstageOpen ⟨result, hended⟩
    exact hstageOpen _ (hstage.symm.trans hended)
  cases hp with
  | ended => exact h
  | refused hstage htext => exact nomatch (hunraced hstage).1.symm.trans htext
  | taken hstage htext hemail =>
    apply h.setStage (hopen hstage (by simp))
    · intro result heq
      cases heq
      exact ⟨rfl, hemail⟩
    · exact False.elim
    · intro passwordHash heq
      cases heq
  | free hstage htext hemail =>
    obtain ⟨hstorable, halone⟩ := (hunraced hstage).2 hemail
    apply h.setStage (hopen hstage (by simp))
    · intro result heq
      cases heq
    · exact fun _ => ⟨hstorable, hemail, fun j hsame hj => absurd hj (halone j hsame)⟩
    · intro passwordHash heq
      cases heq
  | hashed hstage =>
    have hprogress : (s.stage i).InProgress := hstage ▸ trivial
    obtain ⟨hstorable, hemail⟩ := h.storable i hprogress
    apply h.setStage (hopen hstage (by simp))
    · intro result heq
      cases heq
    · exact fun _ => ⟨hstorable, hemail, fun j hsame hj => h.alone i j hprogress hj hsame⟩
    · intro passwordHash heq
      cases heq
      rfl
  | failed hstage hinsert =>
    have hprogress : (s.stage i).InProgress := hstage ▸ trivial
    obtain ⟨hstorable, hemail⟩ := h.storable i hprogress
    have hid := h.id_new hnew (hopen hstage (by simp))
    have hhash := h.hashed i _ hstage
    subst hhash
    obtain ⟨users, hok⟩ : ∃ users, s.state.users.insert ((calls i).row svc) = .ok users :=
      Users.insert_of_new hid hemail hstorable.1 hstorable.2.1 hstorable.2.2
    exact nomatch hinsert.symm.trans hok
  | created hstage hinsert =>
    have hprogress : (s.stage i).InProgress := hstage ▸ trivial
    have hhash := h.hashed i _ hstage
    apply h.created hprogress
    rw [Users.insert_ok hinsert, hhash]
    rfl

theorem fair_run (hnew : New calls d) (schedule : List ι) (h : Fair svc calls d s)
    (hguarded : Guarded (step svc calls) (Unraced svc calls) s schedule) :
    Fair svc calls d (finalState (step svc calls) s schedule) :=
  finalState_invariant (Fair svc calls d)
    (fun s i hunraced h => (proceeds svc calls s i).fair_next hnew h hunraced) hguarded h

omit [DecidableEq ι] in
theorem fair_start {s₀ : State} : Fair svc calls s₀.users (start s₀) := by
  constructor
  case rows => exact fun row hrow => Or.inl hrow
  case succeeded =>
    rintro i ⟨result, hended⟩
    cases hended
  case failed =>
    intro i e he
    cases he
  case storable => exact fun i hi => hi.elim
  case alone => exact fun i j hi => hi.elim
  case hashed =>
    intro i passwordHash hi
    cases hi

omit [DecidableEq ι] in
/-- Once every call has ended, each email has its one account. -/
theorem Fair.oneAccount (h : Fair svc calls d s) (hnew : New calls d)
    (hended : ∀ i, ∃ result, s.stage i = .ended result) (i : ι) :
    OneAccount calls s (calls i).input.email := by
  have hlosers : ∀ j, ¬s.Succeeded j → s.stage j = .ended (.error (.app emailTaken)) ∧
      (calls j).input.email ∈ s.emails := by
    intro j hj
    obtain ⟨result, hresult⟩ := hended j
    cases result with
    | ok result => exact absurd ⟨result, hresult⟩ hj
    | error e =>
      obtain ⟨rfl, hemail⟩ := h.failed j e hresult
      exact ⟨hresult, hemail⟩
  have hunique : ∀ j k, (calls j).input.email = (calls k).input.email → s.Succeeded j →
      s.Succeeded k → j = k := by
    intro j k hsame hj hk
    have hrow := s.state.users.email_unique (h.succeeded j hj) (h.succeeded k hk) hsame
    exact hnew.ids (congrArg UserRecord.id hrow)
  -- the row of the email is that of a call
  obtain ⟨k, hk, hsame⟩ : ∃ k, s.Succeeded k ∧
      (calls k).input.email = (calls i).input.email := by
    by_cases hi : s.Succeeded i
    · exact ⟨i, hi, rfl⟩
    · obtain ⟨row, hrow, hrowEmail⟩ := List.mem_map.mp (hlosers i hi).2
      rcases h.rows row hrow with hold | ⟨k, hk, rfl⟩
      · exact absurd hrowEmail (hnew.fresh i row hold).2
      · exact ⟨k, hk, hrowEmail⟩
  constructor
  case winner =>
    exact ⟨k, ⟨hsame, hk⟩, fun j hj => hunique j k (hj.1.trans hsame.symm) hj.2 hk⟩
  case row =>
    refine ⟨_, ⟨h.succeeded k hk, hsame⟩, fun row hrow => ?_⟩
    exact s.state.users.email_unique hrow.1 (h.succeeded k hk) (hrow.2.trans hsame.symm)
  case losers => exact fun j _ hj => (hlosers j hj).1

/-- Any number of calls, in any order of their steps, on a table that does not know their users:
each email gets its one account if and only if no call finds nothing while another call for its
email is between its own `findByEmail` and `create`, and what is created has no NUL. -/
theorem oneAccount_iff (svc : AuthService τ) {calls : ι → Registration} {s₀ : State}
    (hnew : New calls s₀.users) {schedule : List ι}
    (hended : ∀ i, ∃ result,
      (finalState (step svc calls) (start s₀) schedule).stage i = .ended result) :
    (∀ i, OneAccount calls (finalState (step svc calls) (start s₀) schedule)
      (calls i).input.email) ↔
      Guarded (step svc calls) (Unraced svc calls) (start s₀) schedule := by
  constructor
  · intro h
    apply guarded_of_noneFailed schedule fair_start.hashed
    exact noneFailed_of_oneAccount h
  · intro hguarded
    exact (fair_run hnew schedule fair_start hguarded).oneAccount hnew hended

/-! ### A call without interruption -/

theorem proceed_ended {result : Except ServiceError (AuthResult τ)}
    (hstage : s.stage i = .ended result) : s.proceed svc calls i = s := by
  simp only [proceed, hstage]

/-- Three steps in a row are `AuthService.register`. -/
theorem proceed_register (svc : AuthService τ) (calls : ι → Registration)
    {s s' : Registrations ι τ} {i : ι} (hstage : s.stage i = .findByEmail)
    (hrun : s' = finalState (step svc calls) s [i, i, i]) :
    s'.stage i = .ended (svc.register (calls i).supply (calls i).input s.state).1 ∧
      s'.state = (svc.register (calls i).supply (calls i).input s.state).2 := by
  have hthree : s' = ((s.proceed svc calls i).proceed svc calls i).proceed svc calls i := hrun
  unfold AuthService.register
  cases hfind : s.state.users.findByEmail (calls i).input.email with
  | error e =>
    have hfirst : s.proceed svc calls i = s.setStage i (.ended (.error (.db e))) := by
      simp only [proceed, hstage, hfind]
    rw [hthree, hfirst, proceed_ended (setStage_self _ _ _), proceed_ended (setStage_self _ _ _)]
    exact ⟨setStage_self _ _ _, rfl⟩
  | ok found =>
    cases found with
    | some row =>
      have hfirst : s.proceed svc calls i = s.setStage i (.ended (.error (.app emailTaken))) := by
        simp only [proceed, hstage, hfind]
      rw [hthree, hfirst, proceed_ended (setStage_self _ _ _), proceed_ended (setStage_self _ _ _)]
      exact ⟨setStage_self _ _ _, rfl⟩
    | none =>
      have hfirst : s.proceed svc calls i = s.setStage i .hash := by
        simp only [proceed, hstage, hfind]
      have hsecond : (s.setStage i .hash).proceed svc calls i = (s.setStage i .hash).setStage i
          (.create (svc.bcrypt.hash (calls i).input.password (calls i).supply.salt)) := by
        simp only [proceed, setStage_self]
      rw [hthree, hfirst, hsecond]
      cases hcreate : s.state.users.create (calls i).supply.id (calls i).supply.now
          ⟨(calls i).input.email, svc.bcrypt.hash (calls i).input.password (calls i).supply.salt,
            (calls i).input.displayName⟩ with
      | error e =>
        simp only [proceed, setStage_self, setStage_state, hcreate]
        exact ⟨trivial, trivial⟩
      | ok created =>
        simp only [proceed, setStage_self, setStage_state, hcreate]
        exact ⟨trivial, trivial⟩

/-! ### Two calls at once -/

def sampleCalls (second : Bool) : Registration where
  input := ⟨"ada@example.org", "analytical", "Ada"⟩
  supply := ⟨if second then 2 else 1, 0, 0⟩

theorem sampleCalls_new : New sampleCalls State.init.users where
  ids := by
    intro a b hid
    cases a <;> cases b <;> first | rfl | exact absurd hid (by decide)
  fresh := fun _ row hrow => absurd hrow List.not_mem_nil

/-- The second call comes after the first. -/
theorem oneAccount_iff_sample :
    (∀ i, OneAccount sampleCalls (finalState (step transparentService sampleCalls)
      (start State.init) [false, false, false, true]) (sampleCalls i).input.email) ↔
      Guarded (step transparentService sampleCalls) (Unraced transparentService sampleCalls)
        (start State.init) [false, false, false, true] := by
  apply oneAccount_iff transparentService sampleCalls_new
  intro i
  cases i
  · exact ⟨_, rfl⟩
  · exact ⟨_, rfl⟩

/-- Both calls look up the email before either creates its row. -/
theorem register_race : ¬∀ schedule : List Bool,
    (∀ i, ∃ result, (finalState (step transparentService sampleCalls) (start State.init)
      schedule).stage i = .ended result) →
    ∀ i, OneAccount sampleCalls (finalState (step transparentService sampleCalls)
      (start State.init) schedule) (sampleCalls i).input.email := by
  intro h
  have hfailed : (finalState (step transparentService sampleCalls) (start State.init)
      [false, true, false, true, false, true]).stage true =
      .ended (.error (.db .uniqueViolation)) := rfl
  have hended : ∀ i, ∃ result, (finalState (step transparentService sampleCalls)
      (start State.init) [false, true, false, true, false, true]).stage i = .ended result := by
    intro i
    cases i
    · exact ⟨_, rfl⟩
    · exact ⟨_, hfailed⟩
  have hnone := noneFailed_of_oneAccount (h _ hended)
  exact hnone.not_db hfailed

end Registrations
end IntelliStore.Auth
