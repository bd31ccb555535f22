import IntelliStore.Auth.SharedAuth
import IntelliStore.Auth.Users
import IntelliStore.Library.Runs
import IntelliStore.Metadata.FileService

/-! `AuthService` and `TokenService` over the `users` table. The ids, the salts and the clock are
supplied with the call, and every `jwt.sign` is kept. -/

namespace IntelliStore.Auth
open Library Postgres
open Metadata (ServiceError utf16Length)

structure RegisterInput where
  email : String
  password : String
  displayName : String
  deriving DecidableEq

structure LoginInput where
  email : String
  password : String
  deriving DecidableEq

/-! ### `auth.schema.ts`, over the check of an email address -/

def registerSchema (isEmail : String → Bool) (input : RegisterInput) : Bool :=
  isEmail input.email && 8 ≤ utf16Length input.password && utf16Length input.password ≤ 128 &&
    1 ≤ utf16Length input.displayName && utf16Length input.displayName ≤ 100

def loginSchema (isEmail : String → Bool) (input : LoginInput) : Bool :=
  isEmail input.email && 1 ≤ utf16Length input.password

/-! ### Passwords -/

/-- What `bcryptjs` hashes of a password: the first 72 bytes of its UTF-8 encoding. -/
def hashedBytes (password : String) : List UInt8 :=
  (password.toList.flatMap String.utf8EncodeChar).take 72

/-- `bcryptjs`, without collisions on what it hashes. -/
structure Bcrypt where
  hash : String → Nat → String
  compare : String → String → Bool
  compare_hash : ∀ p q salt, compare p (hash q salt) = true ↔ hashedBytes p = hashedBytes q

/-- A hash that writes out what `bcryptjs` hashes. -/
def transparentBcrypt : Bcrypt where
  hash password _ := String.ofList ((hashedBytes password).map Char.ofUInt8)
  compare password hash := String.ofList ((hashedBytes password).map Char.ofUInt8) == hash
  compare_hash := by
    intro p q _
    have hinj : Function.Injective Char.ofUInt8 := by
      intro a b h
      have hval : a.toUInt32.toNat = b.toUInt32.toNat := congrArg Char.toNat h
      exact UInt8.toNat_inj.mp hval
    rw [beq_iff_eq, String.ofList_inj, List.map_inj_right hinj]

/-! ### The services -/

structure TokenPair (τ : Type) where
  accessToken : τ
  refreshToken : τ
  deriving DecidableEq

structure User where
  id : Uuid
  email : String
  displayName : String
  createdAt : Nat
  updatedAt : Nat
  deriving DecidableEq

def toPublicUser (record : UserRecord) : User :=
  ⟨record.id, record.email, record.displayName, record.createdAt, record.updatedAt⟩

structure AuthResult (τ : Type) where
  user : User
  tokens : TokenPair τ
  deriving DecidableEq

structure TokenServiceOptions where
  accessSecret : String
  refreshSecret : String
  accessExpiresIn : Nat
  refreshExpiresIn : Nat

/-- The table, and the calls of `jwt.sign` so far. -/
structure State where
  users : Users
  signed : List SignCall

def State.init : State := ⟨.empty, []⟩

/-- The values of one call: `gen_random_uuid()`, the salt of `bcrypt.hash`, and the time. -/
structure Supply where
  id : Uuid
  salt : Nat
  now : Nat

structure AuthService (τ : Type) where
  bcrypt : Bcrypt
  jwt : Jwt τ
  options : TokenServiceOptions

/-- Both secrets are equal. -/
def transparentService : AuthService SignCall :=
  ⟨transparentBcrypt, transparentJwt, ⟨"secret", "secret", 900, 604800⟩⟩

namespace TokenServiceOptions

def accessCall (o : TokenServiceOptions) (now : Nat) (id : Uuid) (email : String) : SignCall :=
  signToken ⟨uuidOut id, email, .access⟩ o.accessSecret now o.accessExpiresIn

def refreshCall (o : TokenServiceOptions) (now : Nat) (id : Uuid) (email : String) : SignCall :=
  signToken ⟨uuidOut id, email, .refresh⟩ o.refreshSecret now o.refreshExpiresIn

end TokenServiceOptions

namespace AuthService
variable {τ : Type} (svc : AuthService τ)

def tokens (now : Nat) (id : Uuid) (email : String) : TokenPair τ :=
  ⟨svc.jwt.sign (svc.options.accessCall now id email),
    svc.jwt.sign (svc.options.refreshCall now id email)⟩

def issueTokenPair (now : Nat) (id : Uuid) (email : String) (s : State) : TokenPair τ × State :=
  (svc.tokens now id email, { s with
    signed := s.signed ++
      [svc.options.accessCall now id email, svc.options.refreshCall now id email] })

/-- `TokenService.verify`. -/
def verify (s : State) (now : Nat) (token : τ) (secret : String) (expectedType : TokenType) :
    Except ServiceError TokenClaims :=
  match verifyToken (svc.jwt.verify s.signed token secret now) expectedType with
  | .error e => .error (.app (.unauthorized e.message))
  | .ok claims => .ok claims

def verifyAccessToken (s : State) (now : Nat) (token : τ) : Except ServiceError TokenClaims :=
  svc.verify s now token svc.options.accessSecret .access

def verifyRefreshToken (s : State) (now : Nat) (token : τ) : Except ServiceError TokenClaims :=
  svc.verify s now token svc.options.refreshSecret .refresh

def signIn (now : Nat) (record : UserRecord) (s : State) :
    Except ServiceError (AuthResult τ) × State :=
  let issued := svc.issueTokenPair now record.id record.email s
  (.ok ⟨toPublicUser record, issued.1⟩, issued.2)

def register (g : Supply) (input : RegisterInput) (s : State) :
    Except ServiceError (AuthResult τ) × State :=
  match s.users.findByEmail input.email with
  | .error e => (.error (.db e), s)
  | .ok (some _) => (.error (.app (.conflict "An account with this email already exists")), s)
  | .ok none =>
    match s.users.create g.id g.now ⟨input.email, svc.bcrypt.hash input.password g.salt,
        input.displayName⟩ with
    | .error e => (.error (.db e), s)
    | .ok (record, users) => svc.signIn g.now record { s with users := users }

def login (now : Nat) (input : LoginInput) (s : State) :
    Except ServiceError (AuthResult τ) × State :=
  match s.users.findByEmail input.email with
  | .error e => (.error (.db e), s)
  | .ok none => (.error (.app (.unauthorized "Invalid email or password")), s)
  | .ok (some record) =>
    if svc.bcrypt.compare input.password record.passwordHash then svc.signIn now record s
    else (.error (.app (.unauthorized "Invalid email or password")), s)

def refresh (now : Nat) (refreshToken : τ) (s : State) :
    Except ServiceError (TokenPair τ) × State :=
  match svc.verifyRefreshToken s now refreshToken with
  | .error e => (.error e, s)
  | .ok claims =>
    match s.users.findById claims.sub with
    | .error e => (.error (.db e), s)
    | .ok none => (.error (.app (.unauthorized "User no longer exists")), s)
    | .ok (some record) =>
      let issued := svc.issueTokenPair now record.id record.email s
      (.ok issued.1, issued.2)

end AuthService

/-! ### Runs -/

inductive Call (τ : Type) where
  | register (input : RegisterInput)
  | login (input : LoginInput)
  | refresh (refreshToken : τ)

structure Op (τ : Type) where
  supply : Supply
  call : Call τ

inductive Answer (τ : Type) where
  | session (result : AuthResult τ)
  | tokens (pair : TokenPair τ)

def step {τ : Type} (svc : AuthService τ) (s : State) (op : Op τ) :
    Except ServiceError (Answer τ) × State :=
  match op.call with
  | .register input =>
    let res := svc.register op.supply input s
    (res.1.map .session, res.2)
  | .login input =>
    let res := svc.login op.supply.now input s
    (res.1.map .session, res.2)
  | .refresh refreshToken =>
    let res := svc.refresh op.supply.now refreshToken s
    (res.1.map .tokens, res.2)

/-! ### What a call does -/

section
variable {τ : Type} {svc : AuthService τ} {s s' : State}

/-- A registration that succeeds adds one row and two calls of `jwt.sign`. -/
theorem register_cases (svc : AuthService τ) (g : Supply) (input : RegisterInput) (s : State) :
    (∃ e, svc.register g input s = (.error e, s)) ∨
    ∃ record users, s.users.create g.id g.now ⟨input.email,
        svc.bcrypt.hash input.password g.salt, input.displayName⟩ = .ok (record, users) ∧
      svc.register g input s = svc.signIn g.now record { s with users := users } := by
  unfold AuthService.register
  cases hfind : s.users.findByEmail input.email with
  | error e => exact .inl ⟨_, rfl⟩
  | ok found =>
    cases found with
    | some record => exact .inl ⟨_, rfl⟩
    | none =>
      dsimp only
      cases hcreate : s.users.create g.id g.now ⟨input.email,
          svc.bcrypt.hash input.password g.salt, input.displayName⟩ with
      | error e => exact .inl ⟨_, rfl⟩
      | ok res => exact .inr ⟨res.1, res.2, rfl, rfl⟩

theorem login_cases (svc : AuthService τ) (now : Nat) (input : LoginInput) (s : State) :
    (∃ e, svc.login now input s = (.error e, s) ∧ ∀ record, s.users.findByEmail input.email =
      .ok (some record) → svc.bcrypt.compare input.password record.passwordHash = false) ∨
    ∃ record, s.users.findByEmail input.email = .ok (some record) ∧
      svc.bcrypt.compare input.password record.passwordHash = true ∧
      svc.login now input s = svc.signIn now record s := by
  unfold AuthService.login
  cases hfind : s.users.findByEmail input.email with
  | error e => exact .inl ⟨_, rfl, fun record h => (by cases h)⟩
  | ok found =>
    cases found with
    | none => exact .inl ⟨_, rfl, fun record h => (by cases h)⟩
    | some record =>
      dsimp only
      split_ifs with hmatch
      · exact .inr ⟨record, rfl, hmatch, rfl⟩
      · refine .inl ⟨_, rfl, fun record' h => ?_⟩
        cases h
        exact eq_false_of_ne_true hmatch

theorem refresh_cases (svc : AuthService τ) (now : Nat) (token : τ) (s : State) :
    (∃ e, svc.refresh now token s = (.error e, s)) ∨
    ∃ claims record, svc.verifyRefreshToken s now token = .ok claims ∧
      s.users.findById claims.sub = .ok (some record) ∧
      svc.refresh now token s = (.ok (svc.tokens now record.id record.email),
        (svc.issueTokenPair now record.id record.email s).2) := by
  unfold AuthService.refresh
  cases hverify : svc.verifyRefreshToken s now token with
  | error e => exact .inl ⟨_, rfl⟩
  | ok claims =>
    dsimp only
    cases hfind : s.users.findById claims.sub with
    | error e => exact .inl ⟨_, rfl⟩
    | ok found =>
      cases found with
      | none => exact .inl ⟨_, rfl⟩
      | some record => exact .inr ⟨claims, record, rfl, hfind, rfl⟩

theorem refresh_eq_ok {now : Nat} {token : τ} {pair : TokenPair τ} :
    (svc.refresh now token s).1 = .ok pair ↔ ∃ claims record,
      svc.verifyRefreshToken s now token = .ok claims ∧
      s.users.findById claims.sub = .ok (some record) ∧
      pair = svc.tokens now record.id record.email := by
  constructor
  · intro h
    rcases refresh_cases svc now token s with ⟨e, heq⟩ | ⟨claims, record, hverify, hfind, heq⟩
    · rw [heq] at h
      cases h
    · rw [heq] at h
      exact ⟨claims, record, hverify, hfind, (Except.ok.inj h).symm⟩
  · rintro ⟨claims, record, hverify, hfind, rfl⟩
    simp only [AuthService.refresh, hverify, hfind]
    rfl

end

end IntelliStore.Auth
