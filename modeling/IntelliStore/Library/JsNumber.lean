import Mathlib.Algebra.GroupWithZero.Nat
import Mathlib.Algebra.Order.BigOperators.Group.List
import Mathlib.Algebra.Order.Group.Nat
import Mathlib.Data.Nat.Log

/-! Natural numbers in binary floating point: a result is rounded to the nearest number of so many
bits, and to the even one of two that are as near. JavaScript's Numbers have 53 bits. -/

namespace Library

/-- The multiple of `u` nearest to `n`. -/
def nearest (u n : Nat) : Nat :=
  if 2 * (n % u) < u ∨ 2 * (n % u) = u ∧ n / u % 2 = 0 then n / u * u else (n / u + 1) * u

def roundTo (precision n : Nat) : Nat := nearest (2 ^ (n.log2 + 1 - precision)) n

section
variable {u p a b n : Nat}

theorem nearest_mul (hu : 0 < u) (m : Nat) : nearest u (m * u) = m * u := by
  have hcase : 2 * (m * u % u) < u := by rwa [Nat.mul_mod_left, Nat.mul_zero]
  rw [nearest, if_pos (.inl hcase), Nat.mul_div_cancel m hu]

theorem nearest_le (u n : Nat) : nearest u n ≤ (n / u + 1) * u := by
  rw [nearest]
  split_ifs
  · exact Nat.mul_le_mul_right u (Nat.le_succ _)
  · exact le_rfl

theorem le_nearest (u n : Nat) : n / u * u ≤ nearest u n := by
  rw [nearest]
  split_ifs
  · exact le_rfl
  · exact Nat.mul_le_mul_right u (Nat.le_succ _)

theorem nearest_mono (h : a ≤ b) : nearest u a ≤ nearest u b := by
  rcases (Nat.div_le_div_right h : a / u ≤ b / u).eq_or_lt with hdiv | hdiv
  · -- between the same two multiples the remainders decide
    have hmod : a % u ≤ b % u := by
      have ha := Nat.div_add_mod a u
      have hb := Nat.div_add_mod b u
      rw [hdiv] at ha
      omega
    rw [nearest, nearest, hdiv]
    split_ifs with hdown hdown'
    · exact le_rfl
    · exact Nat.mul_le_mul_right u (Nat.le_succ _)
    · omega
    · exact le_rfl
  · calc nearest u a ≤ (a / u + 1) * u := nearest_le u a
      _ ≤ b / u * u := Nat.mul_le_mul_right u hdiv
      _ ≤ nearest u b := le_nearest u b

theorem nearest_pow {k l : Nat} (h : k ≤ l) : nearest (2 ^ k) (2 ^ l) = 2 ^ l := by
  rw [← Nat.sub_add_cancel h, Nat.pow_add]
  exact nearest_mul (Nat.two_pow_pos k) _

theorem roundTo_zero (p : Nat) : roundTo p 0 = 0 := by
  have hzero := nearest_mul (Nat.two_pow_pos ((0 : Nat).log2 + 1 - p)) 0
  rwa [Nat.zero_mul] at hzero

theorem roundTo_of_lt (h : n < 2 ^ p) : roundTo p n = n := by
  by_cases hn : n = 0
  · subst hn
    exact roundTo_zero p
  have hlog : n.log2 + 1 - p = 0 := by
    have hlt := (Nat.log2_lt hn).mpr h
    omega
  have hunit := nearest_mul Nat.one_pos n
  rw [Nat.mul_one] at hunit
  rwa [roundTo, hlog, Nat.pow_zero]

theorem roundTo_pow (hp : 0 < p) (k : Nat) : roundTo p (2 ^ k) = 2 ^ k := by
  rw [roundTo, Nat.log2_two_pow]
  exact nearest_pow (by omega)

theorem roundTo_mono (hp : 0 < p) (h : a ≤ b) : roundTo p a ≤ roundTo p b := by
  by_cases ha : a = 0
  · subst ha
    rw [roundTo_zero]
    exact Nat.zero_le _
  have hb : b ≠ 0 := by omega
  have hlog : a.log2 ≤ b.log2 := (Nat.le_log2 hb).mpr ((Nat.log2_self_le ha).trans h)
  rcases hlog.eq_or_lt with heq | hlt
  · rw [roundTo, roundTo, heq]
    exact nearest_mono h
  · -- a power of two stands between them
    calc roundTo p a ≤ nearest (2 ^ (a.log2 + 1 - p)) (2 ^ (a.log2 + 1)) :=
          nearest_mono Nat.lt_log2_self.le
      _ = 2 ^ (a.log2 + 1) := nearest_pow (Nat.sub_le _ _)
      _ ≤ 2 ^ b.log2 := Nat.pow_le_pow_right Nat.two_pos hlt
      _ = nearest (2 ^ (b.log2 + 1 - p)) (2 ^ b.log2) := (nearest_pow (by omega)).symm
      _ ≤ roundTo p b := nearest_mono (Nat.log2_self_le hb)

end

/-! ### Numbers -/

/-- `Number` of an integer. Far above every range of the database it would be infinite. -/
def toNumber (n : Nat) : Nat := roundTo 53 n

/-- `Number.MAX_SAFE_INTEGER` -/
def maxSafeInteger : Nat := 2 ^ 53 - 1

section
variable {m n : Nat}

theorem toNumber_of_safe (h : n ≤ maxSafeInteger) : toNumber n = n :=
  roundTo_of_lt (by unfold maxSafeInteger at h; omega)

theorem toNumber_mono (h : m ≤ n) : toNumber m ≤ toNumber n := roundTo_mono (by decide) h

theorem toNumber_pow (k : Nat) : toNumber (2 ^ k) = 2 ^ k := roundTo_pow (by decide) k

/-- The difference of two Numbers. -/
def subNumbers (m n : Nat) : Int :=
  if n ≤ m then (toNumber (m - n) : Int) else -(toNumber (n - m) : Int)

theorem subNumbers_nonneg (h : n ≤ m) : 0 ≤ subNumbers m n := by
  rw [subNumbers, if_pos h]
  exact Int.natCast_nonneg _

theorem subNumbers_of_safe (h : n ≤ m) (hm : m ≤ maxSafeInteger) :
    subNumbers m n = (m : Int) - n := by
  rw [subNumbers, if_pos h, toNumber_of_safe ((Nat.sub_le m n).trans hm)]
  exact Int.ofNat_sub h

/-- `reduce((sum, x) => sum + x, 0)` -/
def sumNumbers (xs : List Nat) : Nat := xs.foldl (fun sum x => toNumber (sum + x)) 0

example : sumNumbers [9223372036854774784, 1023] = 2 ^ 63 := by decide

theorem sumNumbers_of_safe {xs : List Nat} (h : xs.sum ≤ maxSafeInteger) :
    sumNumbers xs = xs.sum := by
  have hfrom : ∀ (xs : List Nat) (sum : Nat), sum + xs.sum ≤ maxSafeInteger →
      xs.foldl (fun sum x => toNumber (sum + x)) sum = sum + xs.sum := by
    intro xs
    induction xs with
    | nil => exact fun _ _ => rfl
    | cons x xs ih =>
      intro sum hsafe
      rw [List.sum_cons, ← Nat.add_assoc] at hsafe
      have hfirst : sum + x ≤ maxSafeInteger := Nat.le_trans (Nat.le_add_right _ _) hsafe
      rw [List.foldl_cons, toNumber_of_safe hfirst, ih _ hsafe, List.sum_cons, Nat.add_assoc]
  rw [sumNumbers, hfrom xs 0 (by rwa [Nat.zero_add]), Nat.zero_add]

/-- A sum is rounded to no less than a power of two that a term reaches. -/
theorem pow_le_sumNumbers {xs : List Nat} {x k : Nat} (hx : x ∈ xs) (h : 2 ^ k ≤ x) :
    2 ^ k ≤ sumNumbers xs := by
  have hpow : ∀ {n : Nat}, 2 ^ k ≤ n → 2 ^ k ≤ toNumber n := by
    intro n hn
    have hround := toNumber_mono hn
    rwa [toNumber_pow] at hround
  have hkeeps : ∀ (xs : List Nat) (sum : Nat), 2 ^ k ≤ sum →
      2 ^ k ≤ xs.foldl (fun sum x => toNumber (sum + x)) sum := by
    intro xs
    induction xs with
    | nil => exact fun _ hsum => hsum
    | cons y xs ih => exact fun sum hsum => ih _ (hpow (hsum.trans (Nat.le_add_right _ _)))
  obtain ⟨before, after, rfl⟩ := List.append_of_mem hx
  rw [sumNumbers, List.foldl_append, List.foldl_cons]
  exact hkeeps after _ (hpow (h.trans (Nat.le_add_left _ _)))

end
end Library
