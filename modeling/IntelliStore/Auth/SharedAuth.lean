import Mathlib.Data.List.Infix

/-! The package `shared-auth`: the claims of a token, and the checks every service makes. -/

namespace IntelliStore.Auth

inductive TokenType where
  | access
  | refresh
  deriving DecidableEq

def TokenType.text : TokenType → String
  | .access => "access"
  | .refresh => "refresh"

structure TokenClaims where
  sub : String
  email : String
  type : TokenType
  deriving DecidableEq

/-- What `jwt.verify` returns: a string, or an object that may lack the claims. -/
inductive Payload where
  | text (s : String)
  | object (sub email type : Option String)
  deriving DecidableEq

def TokenClaims.payload (claims : TokenClaims) : Payload :=
  .object (some claims.sub) (some claims.email) (some claims.type.text)

structure TokenError where
  message : String
  deriving DecidableEq

/-- A call of `jwt.sign`, at `issuedAt`. -/
structure SignCall where
  payload : Payload
  secret : String
  issuedAt : Nat
  expiresIn : Nat
  deriving DecidableEq

/-- `jsonwebtoken`. A token carries its payload and its expiry, and `verify` accepts what was
signed with the secret by the calls made so far and is not expired. -/
structure Jwt (τ : Type) where
  sign : SignCall → τ
  payload : τ → Payload
  expiresAt : τ → Nat
  verify : List SignCall → τ → String → Nat → Option Payload
  payload_sign : ∀ c, payload (sign c) = c.payload
  expiresAt_sign : ∀ c, expiresAt (sign c) = c.issuedAt + c.expiresIn
  verify_eq_some : ∀ calls token secret now p, verify calls token secret now = some p ↔
    (∃ c ∈ calls, sign c = token ∧ c.secret = secret) ∧ now < expiresAt token ∧ p = payload token

def signToken (claims : TokenClaims) (secret : String) (now expiresIn : Nat) : SignCall :=
  ⟨claims.payload, secret, now, expiresIn⟩

/-- `decoded` is the result of `jwt.verify`, or `none` when it throws. -/
def verifyToken (decoded : Option Payload) (expectedType : TokenType) :
    Except TokenError TokenClaims :=
  match decoded with
  | none => .error ⟨"Invalid or expired token"⟩
  | some (.text _) => .error ⟨"Malformed token"⟩
  | some (.object sub email type) =>
    match sub, email with
    | some sub, some email =>
      if sub = "" ∨ email = "" ∨ type ≠ some expectedType.text then .error ⟨"Malformed token"⟩
      else .ok ⟨sub, email, expectedType⟩
    | _, _ => .error ⟨"Malformed token"⟩

def extractBearerToken (authorizationHeader : Option String) : Except TokenError String :=
  match authorizationHeader with
  | none => .error ⟨"Missing bearer token"⟩
  | some header =>
    if "Bearer ".toList <+: header.toList then .ok (String.ofList (header.toList.drop 7))
    else .error ⟨"Missing bearer token"⟩

/-! ### Tokens that are their own record -/

/-- A token is the call that produced it. -/
def transparentJwt : Jwt SignCall where
  sign := id
  payload := SignCall.payload
  expiresAt c := c.issuedAt + c.expiresIn
  verify calls token secret now :=
    if token ∈ calls ∧ token.secret = secret ∧ now < token.issuedAt + token.expiresIn then
      some token.payload
    else none
  payload_sign := fun _ => rfl
  expiresAt_sign := fun _ => rfl
  verify_eq_some := by
    intro calls token secret now p
    constructor
    · intro h
      split_ifs at h with hvalid
      exact ⟨⟨token, hvalid.1, rfl, hvalid.2.1⟩, hvalid.2.2, (Option.some_inj.mp h).symm⟩
    · rintro ⟨⟨c, hc, rfl, hsecret⟩, hnow, rfl⟩
      exact if_pos ⟨hc, hsecret, hnow⟩

/-! ### What is accepted -/

theorem TokenType.text_injective : Function.Injective TokenType.text := by
  intro a b h
  cases a <;> cases b <;> first | rfl | exact absurd h (by decide)

theorem extractBearerToken_bearer (token : String) :
    extractBearerToken (some ("Bearer " ++ token)) = .ok token := by
  have htext : ("Bearer " ++ token).toList = "Bearer ".toList ++ token.toList :=
    String.toList_append
  have hdrop : ("Bearer ".toList ++ token.toList).drop 7 = token.toList := rfl
  rw [extractBearerToken, htext, if_pos (List.prefix_append _ _), hdrop, String.ofList_toList]

theorem verifyToken_eq_ok {decoded : Option Payload} {expectedType : TokenType}
    {claims : TokenClaims} : verifyToken decoded expectedType = .ok claims ↔
      decoded = some claims.payload ∧ claims.type = expectedType ∧ claims.sub ≠ "" ∧
        claims.email ≠ "" := by
  constructor
  · intro h
    unfold verifyToken at h
    split at h
    · cases h
    · cases h
    · rename_i sub email type
      split at h
      · split_ifs at h with hbad
        cases h
        obtain ⟨hsub, hemail, htype⟩ : _ ∧ _ ∧ type = some expectedType.text := by
          simpa only [not_or, not_not] using hbad
        rw [htype]
        exact ⟨rfl, rfl, hsub, hemail⟩
      · cases h
  · rintro ⟨rfl, rfl, hsub, hemail⟩
    have hgood : ¬(claims.sub = "" ∨ claims.email = "" ∨
        some claims.type.text ≠ some claims.type.text) := by
      simp only [not_or, not_not]
      exact ⟨hsub, hemail, trivial⟩
    exact if_neg hgood

end IntelliStore.Auth
