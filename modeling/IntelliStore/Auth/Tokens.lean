import IntelliStore.Auth.AuthService

/-! Which tokens are accepted after a run, whatever the two secrets are. -/

namespace IntelliStore.Auth
open Library Postgres
open Metadata (ServiceError)

/-! ### The two kinds of token -/

namespace TokenServiceOptions

def secret (o : TokenServiceOptions) : TokenType → String
  | .access => o.accessSecret
  | .refresh => o.refreshSecret

def expiresIn (o : TokenServiceOptions) : TokenType → Nat
  | .access => o.accessExpiresIn
  | .refresh => o.refreshExpiresIn

def call (o : TokenServiceOptions) (kind : TokenType) (now : Nat) (id : Uuid) (email : String) :
    SignCall := signToken ⟨uuidOut id, email, kind⟩ (o.secret kind) now (o.expiresIn kind)

end TokenServiceOptions

def TokenPair.token {τ : Type} (pair : TokenPair τ) : TokenType → τ
  | .access => pair.accessToken
  | .refresh => pair.refreshToken

variable {τ : Type}

theorem AuthService.tokens_token (svc : AuthService τ) (kind : TokenType) (now : Nat) (id : Uuid)
    (email : String) : (svc.tokens now id email).token kind =
      svc.jwt.sign (svc.options.call kind now id email) := by
  cases kind <;> rfl

theorem AuthService.issueTokenPair_signed (svc : AuthService τ) (now : Nat) (id : Uuid)
    (email : String) (s : State) (c : SignCall) :
    c ∈ (svc.issueTokenPair now id email s).2.signed ↔
      c ∈ s.signed ∨ ∃ kind, c = svc.options.call kind now id email := by
  rw [issueTokenPair, List.mem_append, List.mem_pair]
  refine or_congr_right ⟨?_, ?_⟩
  · intro h
    rcases h with rfl | rfl
    · exact ⟨.access, rfl⟩
    · exact ⟨.refresh, rfl⟩
  · rintro ⟨kind, rfl⟩
    cases kind
    · exact .inl rfl
    · exact .inr rfl

/-! ### The tokens issued in a run -/

/-- A pair of tokens, and the user it was issued to. -/
structure Issue (τ : Type) where
  pair : TokenPair τ
  id : Uuid
  email : String
  issuedAt : Nat

/-- A registration or a login issues to the user it returns, and a refresh to the user that the
refresh token was issued to. -/
inductive Issued : List (Op τ × Except ServiceError (Answer τ)) → Issue τ → Prop where
  | earlier {as p i} : Issued as i → Issued (as ++ [p]) i
  | signedIn {as op result} : Issued (as ++ [(op, .ok (.session result))])
      ⟨result.tokens, result.user.id, result.user.email, op.supply.now⟩
  | refreshed {as g i pair} : Issued as i →
      Issued (as ++ [(⟨g, .refresh i.pair.refreshToken⟩, .ok (.tokens pair))])
        ⟨pair, i.id, i.email, g.now⟩

variable {svc : AuthService τ} {s s' : State} {as : List (Op τ × Except ServiceError (Answer τ))}
  {i : Issue τ}

theorem not_issued_nil : ¬Issued [] i := by
  intro h
  generalize hnil : ([] : List (Op τ × Except ServiceError (Answer τ))) = as at h
  cases h <;> exact List.append_ne_nil_of_right_ne_nil _ (List.cons_ne_nil _ _) hnil.symm

theorem issued_concat {p : Op τ × Except ServiceError (Answer τ)} (h : Issued (as ++ [p]) i) :
    Issued as i ∨
    (∃ result, p.2 = .ok (.session result) ∧
      i = ⟨result.tokens, result.user.id, result.user.email, p.1.supply.now⟩) ∨
    ∃ prev pair, p.1.call = .refresh prev.pair.refreshToken ∧ p.2 = .ok (.tokens pair) ∧
      Issued as prev ∧ i = ⟨pair, prev.id, prev.email, p.1.supply.now⟩ := by
  generalize heq : as ++ [p] = as' at h
  cases h with
  | earlier h =>
    obtain ⟨rfl, -⟩ := List.append_inj' heq rfl
    exact .inl h
  | signedIn =>
    obtain ⟨rfl, hp⟩ := List.append_inj' heq rfl
    cases hp
    exact .inr (.inl ⟨_, rfl, rfl⟩)
  | refreshed h =>
    obtain ⟨rfl, hp⟩ := List.append_inj' heq rfl
    cases hp
    exact .inr (.inr ⟨_, _, rfl, rfl, h, rfl⟩)

/-- What the calls of `jwt.sign` and the table have to do with the tokens issued. -/
structure Ledger (svc : AuthService τ) (as : List (Op τ × Except ServiceError (Answer τ)))
    (s : State) : Prop where
  named : ∀ r ∈ s.users.rows, r.email ≠ ""
  signed_issued : ∀ c ∈ s.signed, ∃ i kind, Issued as i ∧ i.pair.token kind = svc.jwt.sign c ∧
    c = svc.options.call kind i.issuedAt i.id i.email
  issued_signed : ∀ i, Issued as i → ∀ kind,
    i.pair.token kind = svc.jwt.sign (svc.options.call kind i.issuedAt i.id i.email) ∧
      svc.options.call kind i.issuedAt i.id i.email ∈ s.signed
  issued_user : ∀ i, Issued as i → ∃ r ∈ s.users.rows, r.id = i.id ∧ r.email = i.email

/-- The payload of an issued token names its user and its kind. -/
theorem Ledger.payload (h : Ledger svc as s) (hi : Issued as i) (kind : TokenType) :
    svc.jwt.payload (i.pair.token kind) = (⟨uuidOut i.id, i.email, kind⟩ : TokenClaims).payload := by
  rw [(h.issued_signed i hi kind).1, svc.jwt.payload_sign]
  rfl

theorem Ledger.email_ne (h : Ledger svc as s) (hi : Issued as i) : i.email ≠ "" := by
  obtain ⟨r, hr, -, hemail⟩ := h.issued_user i hi
  rw [← hemail]
  exact h.named r hr

theorem TokenClaims.payload_injective : Function.Injective TokenClaims.payload := by
  intro a b h
  obtain ⟨sub, email, type⟩ := a
  simp only [TokenClaims.payload, Payload.object.injEq, Option.some_inj] at h
  obtain ⟨rfl, rfl, htype⟩ := h
  rw [TokenType.text_injective htype]

/-- Two users are never issued one token. -/
theorem Ledger.same_user (h : Ledger svc as s) {j : Issue τ} (hi : Issued as i) (hj : Issued as j)
    {kind : TokenType} (hij : i.pair.token kind = j.pair.token kind) :
    i.id = j.id ∧ i.email = j.email := by
  have hpayload := congrArg svc.jwt.payload hij
  rw [h.payload hi, h.payload hj] at hpayload
  have hclaims := TokenClaims.payload_injective hpayload
  simp only [TokenClaims.mk.injEq] at hclaims
  exact ⟨uuidOut_injective hclaims.1, hclaims.2.1⟩

/-- A service accepts the unexpired tokens of the kind it expects. -/
theorem Ledger.verifyToken_iff (h : Ledger svc as s) (kind : TokenType) {token : τ} {now : Nat}
    {claims : TokenClaims} :
    verifyToken (svc.jwt.verify s.signed token (svc.options.secret kind) now) kind = .ok claims ↔
      ∃ i, Issued as i ∧ i.pair.token kind = token ∧
        now < i.issuedAt + svc.options.expiresIn kind ∧ claims = ⟨uuidOut i.id, i.email, kind⟩ := by
  rw [verifyToken_eq_ok, svc.jwt.verify_eq_some]
  constructor
  · rintro ⟨⟨⟨c, hc, hsign, -⟩, hnow, hpayload⟩, htype, -, -⟩
    obtain ⟨i, kind', hi, htoken, hcall⟩ := h.signed_issued c hc
    have hclaims : claims = ⟨uuidOut i.id, i.email, kind'⟩ := by
      apply TokenClaims.payload_injective
      rw [hpayload, ← hsign, svc.jwt.payload_sign, hcall]
      rfl
    obtain rfl : kind' = kind := by
      rw [hclaims] at htype
      exact htype
    rw [← hsign, svc.jwt.expiresAt_sign, hcall] at hnow
    exact ⟨i, hi, htoken.trans hsign, hnow, hclaims⟩
  · rintro ⟨i, hi, rfl, hnow, rfl⟩
    obtain ⟨htoken, hcall⟩ := h.issued_signed i hi kind
    refine ⟨⟨⟨_, hcall, htoken.symm, rfl⟩, ?_, (h.payload hi kind).symm⟩, rfl,
      uuidOut_ne_empty i.id, h.email_ne hi⟩
    rw [htoken, svc.jwt.expiresAt_sign]
    exact hnow

/-- A token of the other kind is not accepted under any secret. -/
theorem Ledger.verifyToken_other (h : Ledger svc as s) (hi : Issued as i) {kind kind' : TokenType}
    (hne : kind' ≠ kind) (calls : List SignCall) (secret : String) (now : Nat)
    (claims : TokenClaims) :
    verifyToken (svc.jwt.verify calls (i.pair.token kind) secret now) kind' ≠ .ok claims := by
  intro hok
  obtain ⟨hverify, htype, -, -⟩ := verifyToken_eq_ok.mp hok
  obtain ⟨-, -, hpayload⟩ := (svc.jwt.verify_eq_some _ _ _ _ _).mp hverify
  rw [h.payload hi] at hpayload
  rw [TokenClaims.payload_injective hpayload] at htype
  exact hne htype.symm

/-! ### Every call keeps the ledger -/

theorem Ledger.failed (h : Ledger svc as s) (op : Op τ) (e : ServiceError) :
    Ledger svc (as ++ [(op, .error e)]) s := by
  have hsame : ∀ i, Issued (as ++ [(op, .error e)]) i → Issued as i := by
    intro i hi
    rcases issued_concat hi with hi | ⟨_, hok, -⟩ | ⟨_, _, -, hok, -⟩
    · exact hi
    · cases hok
    · cases hok
  refine ⟨h.named, fun c hc => ?_, fun i hi => h.issued_signed i (hsame i hi),
    fun i hi => h.issued_user i (hsame i hi)⟩
  obtain ⟨i, kind, hi, hcall⟩ := h.signed_issued c hc
  exact ⟨i, kind, hi.earlier, hcall⟩

/-- A pair of tokens signed for the user of a row. -/
theorem Ledger.signed (h : Ledger svc as s) {p : Op τ × Except ServiceError (Answer τ)}
    {now : Nat} {r : UserRecord} {new : Issue τ}
    (hpair : new = ⟨svc.tokens now r.id r.email, r.id, r.email, now⟩)
    (hr : r ∈ s'.users.rows) (hrows : ∀ r ∈ s.users.rows, r ∈ s'.users.rows)
    (hnamed : ∀ r ∈ s'.users.rows, r.email ≠ "")
    (hsigned : s'.signed = (svc.issueTokenPair now r.id r.email s).2.signed)
    (hnew : Issued (as ++ [p]) new) (hold : ∀ i, Issued (as ++ [p]) i → Issued as i ∨ i = new) :
    Ledger svc (as ++ [p]) s' := by
  have hcalls : ∀ c, c ∈ s'.signed ↔
      c ∈ s.signed ∨ ∃ kind, c = svc.options.call kind now r.id r.email := by
    intro c
    rw [hsigned]
    exact svc.issueTokenPair_signed now r.id r.email s c
  constructor
  case named =>
    exact hnamed
  case signed_issued =>
    intro c hc
    rcases (hcalls c).mp hc with hc | ⟨kind, rfl⟩
    · obtain ⟨i, kind, hi, hcall⟩ := h.signed_issued c hc
      exact ⟨i, kind, hi.earlier, hcall⟩
    · refine ⟨new, kind, hnew, ?_, ?_⟩
      · rw [hpair]
        exact svc.tokens_token kind now r.id r.email
      · rw [hpair]
  case issued_signed =>
    intro i hi kind
    rcases hold i hi with hi | rfl
    · exact ⟨(h.issued_signed i hi kind).1, (hcalls _).mpr (.inl (h.issued_signed i hi kind).2)⟩
    · rw [hpair]
      exact ⟨svc.tokens_token kind now r.id r.email, (hcalls _).mpr (.inr ⟨kind, rfl⟩)⟩
  case issued_user =>
    intro i hi
    rcases hold i hi with hi | rfl
    · obtain ⟨r', hr', huser⟩ := h.issued_user i hi
      exact ⟨r', hrows r' hr', huser⟩
    · rw [hpair]
      exact ⟨r, hr, rfl, rfl⟩

/-- A registration or a login that succeeds. -/
theorem Ledger.signIn (h : Ledger svc as s) (op : Op τ) {r : UserRecord}
    (hr : r ∈ s'.users.rows) (hrows : ∀ r ∈ s.users.rows, r ∈ s'.users.rows)
    (hnamed : ∀ r ∈ s'.users.rows, r.email ≠ "") (hsame : s'.signed = s.signed) :
    Ledger svc (as ++ [(op, ((svc.signIn op.supply.now r s').1.map .session))])
      (svc.signIn op.supply.now r s').2 := by
  have hpair := Eq.refl
    (Issue.mk (svc.tokens op.supply.now r.id r.email) r.id r.email op.supply.now)
  refine h.signed hpair hr hrows hnamed ?_ .signedIn ?_
  · simp only [AuthService.signIn, AuthService.issueTokenPair, hsame]
  · intro i hi
    rcases issued_concat hi with hi | ⟨result, hok, rfl⟩ | ⟨_, _, -, hok, -⟩
    · exact .inl hi
    · cases hok
      exact .inr rfl
    · cases hok

theorem verify_eq_ok {now : Nat} {token : τ} {secret : String} {kind : TokenType}
    {claims : TokenClaims} : svc.verify s now token secret kind = .ok claims ↔
      verifyToken (svc.jwt.verify s.signed token secret now) kind = .ok claims := by
  unfold AuthService.verify
  cases verifyToken (svc.jwt.verify s.signed token secret now) kind with
  | error e => exact iff_of_false (fun h => by cases h) (fun h => by cases h)
  | ok decoded =>
    change Except.ok decoded = Except.ok claims ↔ _
    rw [Except.ok.injEq, Except.ok.injEq]

/-- A refresh token that is accepted leads to the row of the user it was issued to. -/
theorem Ledger.refresh_user (h : Ledger svc as s) {now : Nat} {token : τ} {claims : TokenClaims}
    (hclaims : svc.verifyRefreshToken s now token = .ok claims) :
    ∃ i, Issued as i ∧ i.pair.refreshToken = token ∧
      now < i.issuedAt + svc.options.refreshExpiresIn ∧
      ∃ r ∈ s.users.rows, r.id = i.id ∧ r.email = i.email ∧
        s.users.findById claims.sub = .ok (some r) := by
  obtain ⟨i, hi, htoken, hnow, rfl⟩ := (h.verifyToken_iff .refresh).mp
    (verify_eq_ok.mp hclaims)
  obtain ⟨r, hr, hid, hemail⟩ := h.issued_user i hi
  have hfind := Users.findById_uuidOut hr
  rw [hid] at hfind
  exact ⟨i, hi, htoken, hnow, r, hr, hid, hemail, hfind⟩

/-- The row of a new user joins the table. -/
theorem Ledger.register (h : Ledger svc as s) (op : Op τ) {users : Users} {record : UserRecord}
    (hrows : users.rows = s.users.rows ++ [record]) (hemail : record.email ≠ "") :
    Ledger svc
      (as ++ [(op, ((svc.signIn op.supply.now record { s with users := users }).1.map .session))])
      (svc.signIn op.supply.now record { s with users := users }).2 := by
  have hmem : ∀ r, r ∈ users.rows ↔ r ∈ s.users.rows ∨ r = record := by
    intro r
    rw [hrows, List.mem_append, List.mem_singleton]
  have hnamed : ∀ r ∈ users.rows, r.email ≠ "" := by
    intro r hr
    rcases (hmem r).mp hr with hr | rfl
    · exact h.named r hr
    · exact hemail
  have hkept : ∀ r ∈ s.users.rows, r ∈ users.rows := fun r hr => (hmem r).mpr (.inl hr)
  have hrecorded : record ∈ users.rows := (hmem record).mpr (.inr rfl)
  apply h.signIn op
  · exact hrecorded
  · exact hkept
  · exact hnamed
  · rfl

/-- A refresh token that is accepted is renewed for the user of each issue it comes from. -/
theorem Ledger.refreshed (h : Ledger svc as s) {g : Supply} {i : Issue τ} (hi : Issued as i)
    {r : UserRecord} (hr : r ∈ s.users.rows) (hid : r.id = i.id) (hemail : r.email = i.email) :
    Ledger svc (as ++ [(⟨g, .refresh i.pair.refreshToken⟩,
        .ok (.tokens (svc.tokens g.now r.id r.email)))])
      (svc.issueTokenPair g.now r.id r.email s).2 := by
  have hnew : Issued (as ++ [(⟨g, .refresh i.pair.refreshToken⟩,
      .ok (.tokens (svc.tokens g.now r.id r.email)))])
      ⟨svc.tokens g.now r.id r.email, r.id, r.email, g.now⟩ := by
    rw [hid, hemail]
    exact .refreshed hi
  refine h.signed rfl hr (fun r hr => hr) h.named rfl hnew fun j hj => ?_
  rcases issued_concat hj with hj | ⟨_, hok, -⟩ | ⟨prev, pair, hcall, hok, hprev, rfl⟩
  · exact .inl hj
  · cases hok
  · -- the token presented names the user of every issue it comes from
    have htoken : i.pair.token .refresh = prev.pair.token .refresh := Call.refresh.inj hcall
    obtain ⟨hid', hemail'⟩ := h.same_user hi hprev htoken
    cases hok
    rw [← hid', ← hemail', ← hid, ← hemail]
    exact .inr rfl

theorem Ledger.step (h : Ledger svc as s) (op : Op τ)
    (hop : ∀ input, op.call = .register input → input.email ≠ "") :
    Ledger svc (as ++ [(op, (step svc s op).1)]) (step svc s op).2 := by
  obtain ⟨g, call⟩ := op
  cases call with
  | register input =>
    rcases register_cases svc g input s with ⟨e, heq⟩ | ⟨record, users, hcreate, heq⟩
    · simp only [Auth.step, heq]
      exact h.failed _ e
    · obtain ⟨hrecord, hrows⟩ := Users.create_ok hcreate
      have hemail : record.email ≠ "" := by
        rw [hrecord]
        exact hop input rfl
      simp only [Auth.step, heq]
      exact h.register ⟨g, _⟩ hrows hemail
  | login input =>
    rcases login_cases svc g.now input s with ⟨e, heq, -⟩ | ⟨record, hfind, -, heq⟩
    · simp only [Auth.step, heq]
      exact h.failed _ e
    · simp only [Auth.step, heq]
      exact h.signIn ⟨g, _⟩ (Users.findByEmail_eq_some.mp hfind).1 (fun r hr => hr) h.named rfl
  | refresh token =>
    rcases refresh_cases svc g.now token s with ⟨e, heq⟩ | ⟨claims, record, hclaims, hfind, heq⟩
    · simp only [Auth.step, heq]
      exact h.failed _ e
    · obtain ⟨i, hi, rfl, -, r, hr, hid, hemail, hfind'⟩ := h.refresh_user hclaims
      obtain rfl : r = record := Option.some_inj.mp (Except.ok.inj (hfind'.symm.trans hfind))
      simp only [Auth.step, heq]
      exact h.refreshed hi hr hid hemail

/-! ### Which tokens are accepted -/

/-- An access token is accepted as the claims of its user, and a refresh token renews the tokens
of its user, both exactly until they expire; and neither is accepted in place of the other. -/
structure TokensExact (svc : AuthService τ) (ops : List (Op τ)) (now : Nat) : Prop where
  access : ∀ token claims,
    verifyToken (svc.jwt.verify (finalState (step svc) State.init ops).signed token
      svc.options.accessSecret now) .access = .ok claims ↔
    ∃ i, Issued (answers (step svc) State.init ops) i ∧ i.pair.accessToken = token ∧
      now < i.issuedAt + svc.options.accessExpiresIn ∧ claims = ⟨uuidOut i.id, i.email, .access⟩
  refresh : ∀ token pair,
    (svc.refresh now token (finalState (step svc) State.init ops)).1 = .ok pair ↔
    ∃ i, Issued (answers (step svc) State.init ops) i ∧ i.pair.refreshToken = token ∧
      now < i.issuedAt + svc.options.refreshExpiresIn ∧ pair = svc.tokens now i.id i.email
  not_access : ∀ i, Issued (answers (step svc) State.init ops) i → ∀ secret claims,
    verifyToken (svc.jwt.verify (finalState (step svc) State.init ops).signed i.pair.refreshToken
      secret now) .access ≠ .ok claims
  not_refresh : ∀ i, Issued (answers (step svc) State.init ops) i →
    (∀ secret claims, verifyToken (svc.jwt.verify (finalState (step svc) State.init ops).signed
      i.pair.accessToken secret now) .refresh ≠ .ok claims) ∧
    ∀ pair, (svc.refresh now i.pair.accessToken (finalState (step svc) State.init ops)).1 ≠ .ok pair

theorem ledger_run {ops : List (Op τ)}
    (hops : ∀ op ∈ ops, ∀ input, op.call = .register input → input.email ≠ "") :
    Ledger svc (answers (step svc) State.init ops) (finalState (step svc) State.init ops) := by
  refine answers_history (Ledger svc) (fun _ _ op hop h => h.step op hop)
    (guarded_of_forall hops) ⟨?_, ?_, fun i hi => absurd hi not_issued_nil,
      fun i hi => absurd hi not_issued_nil⟩
  · exact fun r hr => absurd hr List.not_mem_nil
  · exact fun c hc => absurd hc List.not_mem_nil

theorem Ledger.refresh_iff (h : Ledger svc as s) {now : Nat} {token : τ} {pair : TokenPair τ} :
    (svc.refresh now token s).1 = .ok pair ↔ ∃ i, Issued as i ∧ i.pair.refreshToken = token ∧
      now < i.issuedAt + svc.options.refreshExpiresIn ∧ pair = svc.tokens now i.id i.email := by
  rw [refresh_eq_ok]
  constructor
  · rintro ⟨claims, record, hclaims, hfind, rfl⟩
    obtain ⟨i, hi, htoken, hnow, r, -, hid, hemail, hfind'⟩ := h.refresh_user hclaims
    obtain rfl : r = record := Option.some_inj.mp (Except.ok.inj (hfind'.symm.trans hfind))
    exact ⟨i, hi, htoken, hnow, by rw [hid, hemail]⟩
  · rintro ⟨i, hi, htoken, hnow, rfl⟩
    have hclaims : svc.verifyRefreshToken s now token = .ok ⟨uuidOut i.id, i.email, .refresh⟩ :=
      verify_eq_ok.mpr ((h.verifyToken_iff .refresh).mpr ⟨i, hi, htoken, hnow, rfl⟩)
    obtain ⟨r, hr, hid, hemail⟩ := h.issued_user i hi
    have hfind := Users.findById_uuidOut hr
    rw [hid] at hfind
    exact ⟨_, r, hclaims, hfind, by rw [hid, hemail]⟩

theorem tokens_exact (svc : AuthService τ) (ops : List (Op τ)) (now : Nat)
    (hops : ∀ op ∈ ops, ∀ input, op.call = .register input → input.email ≠ "") :
    TokensExact svc ops now := by
  have h : Ledger svc _ _ := ledger_run hops
  have haccess : TokenType.access ≠ .refresh := by decide
  refine ⟨fun token claims => h.verifyToken_iff .access, fun token pair => h.refresh_iff,
    fun i hi secret claims => ?_, fun i hi => ⟨fun secret claims => ?_, fun pair hok => ?_⟩⟩
  · exact h.verifyToken_other hi haccess _ _ _ _
  · exact h.verifyToken_other hi haccess.symm _ _ _ _
  · obtain ⟨claims, _, hclaims, -⟩ := refresh_eq_ok.mp hok
    exact h.verifyToken_other hi haccess.symm _ _ _ _ (verify_eq_ok.mp hclaims)

/-- Alice signs up, and renews her tokens. -/
def renewal : List (Op SignCall) :=
  [⟨⟨1, 0, 0⟩, .register ⟨"alice@example.com", "correct horse", "Alice"⟩⟩,
   ⟨⟨2, 0, 5⟩, .refresh (transparentService.options.refreshCall 0 1 "alice@example.com")⟩]

theorem tokens_exact_renewal : TokensExact transparentService renewal 7 := by
  apply tokens_exact
  intro op hop input hcall
  rcases List.mem_pair.mp hop with rfl | rfl
  · cases hcall
    decide
  · cases hcall

end IntelliStore.Auth
