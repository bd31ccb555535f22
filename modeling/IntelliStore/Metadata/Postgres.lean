import Mathlib.Data.List.Basic
import Mathlib.Data.BitVec

/-! What Postgres makes of the parameters it is sent: the text input of the UUID type,
the ranges of INT and BIGINT, and the characters a TEXT value may hold. -/

namespace IntelliStore.Postgres

abbrev Uuid := BitVec 128

def hexDigit (c : Char) : Option Nat :=
  if '0' ≤ c ∧ c ≤ '9' then some (c.toNat - 48)
  else if 'a' ≤ c ∧ c ≤ 'f' then some (c.toNat - 87)
  else if 'A' ≤ c ∧ c ≤ 'F' then some (c.toNat - 55)
  else none

/-- Reads `n` more bytes of a UUID, two hex digits each, and returns what is left of the text. -/
def uuidBytes : Nat → Nat → List Char → Option (Nat × List Char)
  | 0, acc, cs => some (acc, cs)
  | n + 1, acc, c :: d :: cs => do
    let hi ← hexDigit c
    let lo ← hexDigit d
    -- one hyphen is skipped after every second byte but the last
    let rest := if n % 2 = 0 ∧ 0 < n ∧ cs.head? = some '-' then cs.tail else cs
    uuidBytes n ((acc * 16 + hi) * 16 + lo) rest
  | _ + 1, _, _ => none

/-- `uuid_in`: 32 hex digits with optional hyphens, in braces or not. -/
def uuidIn (s : String) : Option Uuid :=
  match s.toList with
  | '\x7b' :: cs =>
    match uuidBytes 16 0 cs with
    | some (v, ['\x7d']) => some (BitVec.ofNat 128 v)
    | _ => none
  | cs =>
    match uuidBytes 16 0 cs with
    | some (v, []) => some (BitVec.ofNat 128 v)
    | _ => none

def hexChar (n : Nat) : Char := Char.ofNat (if n < 10 then 48 + n else 87 + n)

/-- `uuid_out`: lower-case digits, with hyphens after 8, 12, 16 and 20 of them. -/
def uuidOut (u : Uuid) : String :=
  String.ofList ((List.range 32).flatMap fun i =>
    (if i ∈ [8, 12, 16, 20] then ['-'] else []) ++ [hexChar (u.toNat / 16 ^ (31 - i) % 16)])

/-- TEXT holds every character but NUL. -/
def isText (s : String) : Bool := s.toList.all fun c => c.toNat != 0

def isInt4 (n : Nat) : Bool := n < 2 ^ 31

def isInt8 (n : Nat) : Bool := n < 2 ^ 63

/-! ### Reading the text of a UUID -/

theorem hexChar_spec : ∀ k < 16, hexDigit (hexChar k) = some k ∧ hexChar k ≠ '-' ∧
    hexChar k ≠ '\x7b' := by decide

/-- The digits of the last `n` bytes of a UUID. -/
def uuidText (a : Nat) : Nat → List Char
  | 0 => []
  | n + 1 => hexChar (a / 16 ^ (2 * n + 1) % 16) :: hexChar (a / 16 ^ (2 * n) % 16) ::
      ((if n ∈ [12, 10, 8, 6] then ['-'] else []) ++ uuidText a n)

theorem uuidOut_eq (u : Uuid) : uuidOut u = String.ofList (uuidText u.toNat 16) := rfl

theorem uuidText_head (a n : Nat) : (uuidText a n).head? ≠ some '-' := by
  cases n with
  | zero => simp [uuidText]
  | succ n =>
    have hdigit := hexChar_spec (a / 16 ^ (2 * n + 1) % 16) (Nat.mod_lt _ (by decide))
    simpa [uuidText] using hdigit.2.1

theorem uuidBytes_uuidText (a n : Nat) :
    uuidBytes n (a / 16 ^ (2 * n)) (uuidText a n) = some (a, []) := by
  induction n with
  | zero => simp [uuidBytes, uuidText]
  | succ n ih =>
    obtain ⟨hhi, -⟩ := hexChar_spec (a / 16 ^ (2 * n + 1) % 16) (Nat.mod_lt _ (by decide))
    obtain ⟨hlo, -⟩ := hexChar_spec (a / 16 ^ (2 * n) % 16) (Nat.mod_lt _ (by decide))
    have hacc : (a / 16 ^ (2 * (n + 1)) * 16 + a / 16 ^ (2 * n + 1) % 16) * 16 +
        a / 16 ^ (2 * n) % 16 = a / 16 ^ (2 * n) := by
      have hpow : a / 16 ^ (2 * (n + 1)) = a / 16 ^ (2 * n) / 16 / 16 := by
        have hexp : 2 * (n + 1) = 2 * n + 1 + 1 := rfl
        rw [Nat.div_div_eq_div_mul, Nat.div_div_eq_div_mul, hexp, Nat.pow_succ, Nat.pow_succ,
          Nat.mul_assoc]
      have hpow' : a / 16 ^ (2 * n + 1) = a / 16 ^ (2 * n) / 16 := by
        rw [Nat.div_div_eq_div_mul, Nat.pow_succ]
      rw [hpow, hpow']
      omega
    have hrest : (if n % 2 = 0 ∧ 0 < n ∧
        ((if n ∈ [12, 10, 8, 6] then ['-'] else []) ++ uuidText a n).head? = some '-'
        then ((if n ∈ [12, 10, 8, 6] then ['-'] else []) ++ uuidText a n).tail
        else (if n ∈ [12, 10, 8, 6] then ['-'] else []) ++ uuidText a n) = uuidText a n := by
      by_cases h : n ∈ [12, 10, 8, 6]
      · have hn : n % 2 = 0 ∧ 0 < n := by
          simp only [List.mem_cons, List.not_mem_nil, or_false] at h
          omega
        simp [h, hn]
      · have hhead := uuidText_head a n
        simp [h, hhead]
    rw [uuidText, uuidBytes]
    simp only [hhi, hlo, hrest, Option.bind_eq_bind, Option.bind_some, hacc]
    exact ih

theorem uuidIn_uuidOut (u : Uuid) : uuidIn (uuidOut u) = some u := by
  have hbytes : uuidBytes 16 0 (uuidText u.toNat 16) = some (u.toNat, []) := by
    have hlt : u.toNat < 16 ^ (2 * 16) := lt_of_lt_of_eq u.isLt (by decide)
    have h := uuidBytes_uuidText u.toNat 16
    rwa [Nat.div_eq_of_lt hlt] at h
  have hbrace : ∀ cs, uuidText u.toNat 16 ≠ '\x7b' :: cs := by
    intro cs h
    have hdigit := hexChar_spec (u.toNat / 16 ^ 31 % 16) (Nat.mod_lt _ (by decide))
    rw [uuidText] at h
    exact hdigit.2.2 (List.cons_eq_cons.mp h).1
  rw [uuidOut_eq, uuidIn, String.toList_ofList]
  split
  · rename_i cs h
    exact absurd h (hbrace cs)
  · rw [hbytes]
    simp

theorem uuidOut_ne_empty (id : Uuid) : uuidOut id ≠ "" := by
  intro h
  have hread := uuidIn_uuidOut id
  have hempty : uuidIn "" = none := by decide
  rw [h, hempty] at hread
  cases hread

theorem uuidOut_injective : Function.Injective uuidOut := by
  intro u v h
  have hread := congrArg uuidIn h
  rw [uuidIn_uuidOut, uuidIn_uuidOut] at hread
  exact Option.some_inj.mp hread

end IntelliStore.Postgres
