import IntelliStore.Auth.AuthService

/-! Which passwords a login accepts, after any run of registrations, logins and refreshes. -/

namespace IntelliStore.Auth
open Library Postgres
open Metadata (ServiceError)

/-- A registration that succeeded. -/
structure Account where
  email : String
  password : String
  salt : Nat
  user : User

variable {τ : Type}

def account (p : Op τ × Except ServiceError (Answer τ)) : Option Account :=
  match p.1.call, p.2 with
  | .register input, .ok (.session result) =>
    some ⟨input.email, input.password, p.1.supply.salt, result.user⟩
  | _, _ => none

/-- The accounts that were registered in a run. -/
def accounts (svc : AuthService τ) (ops : List (Op τ)) : List Account :=
  (answers (step svc) State.init ops).filterMap account

/-- The rows of the table are the accounts, each with a hash of its password. -/
def Kept (svc : AuthService τ) (as : List (Op τ × Except ServiceError (Answer τ))) (s : State) :
    Prop :=
  s.users.rows.map (fun r => (r.email, r.passwordHash, toPublicUser r)) =
    (as.filterMap account).map fun a => (a.email, svc.bcrypt.hash a.password a.salt, a.user)

variable {svc : AuthService τ} {s : State} {as : List (Op τ × Except ServiceError (Answer τ))}

/-- A call that is not a registration, or fails, adds no account. -/
theorem Kept.same {p : Op τ × Except ServiceError (Answer τ)} {s' : State} (h : Kept svc as s)
    (hp : account p = none) (hs : s'.users = s.users) : Kept svc (as ++ [p]) s' := by
  rw [Kept, hs, List.filterMap_append, List.filterMap_cons, hp, List.filterMap_nil, List.append_nil]
  exact h

theorem Kept.step (h : Kept svc as s) (op : Op τ) :
    Kept svc (as ++ [(op, (step svc s op).1)]) (step svc s op).2 := by
  obtain ⟨g, call⟩ := op
  cases call with
  | register input =>
    rcases register_cases svc g input s with ⟨e, heq⟩ | ⟨record, users, hcreate, heq⟩
    · simp only [Auth.step, heq]
      exact h.same rfl rfl
    · obtain ⟨rfl, hrows⟩ := Users.create_ok hcreate
      simp only [Auth.step, heq, Kept, AuthService.signIn, AuthService.issueTokenPair, hrows]
      rw [List.filterMap_append, List.map_append, List.map_append, ← h]
      rfl
  | login input =>
    rcases login_cases svc g.now input s with ⟨e, heq, -⟩ | ⟨record, -, -, heq⟩
    · simp only [Auth.step, heq]
      exact h.same rfl rfl
    · simp only [Auth.step, heq]
      exact h.same rfl rfl
  | refresh token =>
    rcases refresh_cases svc g.now token s with ⟨e, heq⟩ | ⟨claims, record, -, -, heq⟩
    · simp only [Auth.step, heq]
      exact h.same rfl rfl
    · simp only [Auth.step, heq]
      exact h.same rfl rfl

theorem kept_run (svc : AuthService τ) (ops : List (Op τ)) :
    Kept svc (answers (step svc) State.init ops) (finalState (step svc) State.init ops) :=
  answers_history (Kept svc) (fun _ _ op _ h => h.step op)
    (guarded_of_forall (G := fun _ => True) fun _ _ => trivial) rfl

/-! ### Logins after a run -/

variable {ops : List (Op τ)}

/-- No two accounts have one email. -/
theorem account_unique {a b : Account} (ha : a ∈ accounts svc ops) (hb : b ∈ accounts svc ops)
    (h : a.email = b.email) : a = b := by
  have hkept := congrArg (List.map Prod.fst) (kept_run svc ops)
  rw [List.map_map, List.map_map] at hkept
  have hnodup : ((accounts svc ops).map Account.email).Nodup := by
    have hkey := (finalState (step svc) State.init ops).users.users_email_key
    rw [show UserRecord.email = Prod.fst ∘ fun r : UserRecord =>
      (r.email, r.passwordHash, toPublicUser r) from rfl, hkept] at hkey
    exact hkey
  exact List.inj_on_of_nodup_map hnodup ha hb h

/-- Every row is that of an account. -/
theorem account_of_row {r : UserRecord}
    (hr : r ∈ (finalState (step svc) State.init ops).users.rows) : ∃ a ∈ accounts svc ops,
      r.email = a.email ∧ r.passwordHash = svc.bcrypt.hash a.password a.salt ∧
        toPublicUser r = a.user := by
  have hmem := List.mem_map_of_mem
    (f := fun r : UserRecord => (r.email, r.passwordHash, toPublicUser r)) hr
  rw [kept_run svc ops] at hmem
  obtain ⟨a, ha, heq⟩ := List.mem_map.mp hmem
  simp only [Prod.mk.injEq] at heq
  exact ⟨a, ha, heq.1.symm, heq.2.1.symm, heq.2.2.symm⟩

theorem row_of_account {a : Account} (ha : a ∈ accounts svc ops) :
    ∃ r ∈ (finalState (step svc) State.init ops).users.rows, r.email = a.email ∧
      r.passwordHash = svc.bcrypt.hash a.password a.salt ∧ toPublicUser r = a.user := by
  have hmem := List.mem_map_of_mem
    (f := fun a : Account => (a.email, svc.bcrypt.hash a.password a.salt, a.user)) ha
  rw [accounts, ← kept_run svc ops] at hmem
  obtain ⟨r, hr, heq⟩ := List.mem_map.mp hmem
  simp only [Prod.mk.injEq] at heq
  exact ⟨r, hr, heq⟩

/-- A login succeeds on the bytes that were hashed at the registration. -/
theorem login_eq_ok {now : Nat} {input : LoginInput} {result : AuthResult τ} :
    (svc.login now input (finalState (step svc) State.init ops)).1 = .ok result ↔
      ∃ a ∈ accounts svc ops, a.email = input.email ∧
        hashedBytes input.password = hashedBytes a.password ∧
        result = ⟨a.user, svc.tokens now a.user.id a.user.email⟩ := by
  rcases login_cases svc now input (finalState (step svc) State.init ops) with
    ⟨e, heq, hnone⟩ | ⟨record, hfind, hmatch, heq⟩
  · rw [heq]
    refine iff_of_false (fun h => by cases h) ?_
    rintro ⟨a, ha, hemail, hbytes, -⟩
    obtain ⟨r, hr, hremail, hrhash, -⟩ := row_of_account ha
    have hfalse := hnone r (Users.findByEmail_eq_some.mpr ⟨hr, hremail.trans hemail⟩)
    rw [hrhash, (svc.bcrypt.compare_hash _ _ _).mpr hbytes] at hfalse
    cases hfalse
  · obtain ⟨hrecord, hemail⟩ := Users.findByEmail_eq_some.mp hfind
    obtain ⟨a, ha, haemail, hahash, hauser⟩ := account_of_row hrecord
    have hresult : (svc.signIn now record (finalState (step svc) State.init ops)).1 =
        .ok ⟨a.user, svc.tokens now a.user.id a.user.email⟩ := by
      rw [← hauser]
      rfl
    rw [hahash, svc.bcrypt.compare_hash] at hmatch
    rw [heq, hresult, Except.ok.injEq]
    constructor
    · rintro rfl
      exact ⟨a, ha, haemail.symm.trans hemail, hmatch, rfl⟩
    · rintro ⟨b, hb, hbemail, -, rfl⟩
      rw [account_unique ha hb (haemail.symm.trans (hemail.trans hbemail.symm))]

/-- The login succeeds exactly with the email and the password of an account, and gives its user
and tokens for it. -/
def LoginExact (svc : AuthService τ) (ops : List (Op τ)) (now : Nat) (input : LoginInput) : Prop :=
  ∀ result, (svc.login now input (finalState (step svc) State.init ops)).1 = .ok result ↔
    ∃ a ∈ accounts svc ops, a.email = input.email ∧ a.password = input.password ∧
      result = ⟨a.user, svc.tokens now a.user.id a.user.email⟩

/-- A login is exact if and only if no other password of the account begins with the same 72
bytes. -/
theorem login_exact_iff (svc : AuthService τ) (ops : List (Op τ)) (now : Nat) (input : LoginInput) :
    LoginExact svc ops now input ↔ ∀ a ∈ accounts svc ops, a.email = input.email →
      hashedBytes input.password = hashedBytes a.password → a.password = input.password := by
  constructor
  · intro hexact a ha hemail hbytes
    have hlogin : (svc.login now input (finalState (step svc) State.init ops)).1 =
        .ok ⟨a.user, svc.tokens now a.user.id a.user.email⟩ :=
      login_eq_ok.mpr ⟨a, ha, hemail, hbytes, rfl⟩
    obtain ⟨b, hb, hbemail, hbpassword, -⟩ := (hexact _).mp hlogin
    rw [account_unique ha hb (hemail.trans hbemail.symm)]
    exact hbpassword
  · intro h result
    rw [login_eq_ok]
    constructor
    · rintro ⟨a, ha, hemail, hbytes, rfl⟩
      exact ⟨a, ha, hemail, h a ha hemail hbytes, rfl⟩
    · rintro ⟨a, ha, hemail, hpassword, rfl⟩
      exact ⟨a, ha, hemail, by rw [hpassword], rfl⟩

/-! ### Two passwords of one account -/

/-- Seventy-two letters and one more character. -/
def longPassword (c : Char) : String := String.ofList (List.replicate 72 'a' ++ [c])

def longRun : List (Op SignCall) :=
  [⟨⟨1, 0, 0⟩, .register ⟨"alice@example.com", longPassword '1', "Alice"⟩⟩]

def longAccount : Account :=
  ⟨"alice@example.com", longPassword '1', 0, ⟨1, "alice@example.com", "Alice", 0, 0⟩⟩

/-- The schema lets 128 characters through, and the last of 73 is not looked at. -/
theorem long_password_not_exact :
    registerSchema (· == "alice@example.com")
      ⟨"alice@example.com", longPassword '1', "Alice"⟩ = true ∧
    loginSchema (· == "alice@example.com") ⟨"alice@example.com", longPassword '2'⟩ = true ∧
    ¬LoginExact transparentService longRun 1 ⟨"alice@example.com", longPassword '2'⟩ := by
  have haccounts : accounts transparentService longRun = [longAccount] := rfl
  have hmem : longAccount ∈ accounts transparentService longRun := by
    rw [haccounts]
    exact List.mem_singleton_self _
  have hbytes : hashedBytes (longPassword '2') = hashedBytes (longPassword '1') := by decide
  refine ⟨by decide, by decide, fun hexact => ?_⟩
  have hlogin := (hexact ⟨longAccount.user, transparentService.tokens 1 1 "alice@example.com"⟩).mp
    (login_eq_ok.mpr ⟨longAccount, hmem, rfl, hbytes, rfl⟩)
  obtain ⟨a, ha, -, hpassword, -⟩ := hlogin
  rw [haccounts, List.mem_singleton] at ha
  rw [ha] at hpassword
  exact absurd hpassword (by decide)

end IntelliStore.Auth
