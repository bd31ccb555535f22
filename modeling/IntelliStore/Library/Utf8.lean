import IntelliStore.Library.Json

/-! UTF-8 encoding. What is encoded is decoded back. -/

namespace Library

def utf8Encode (chars : List Char) : List UInt8 := chars.flatMap String.utf8EncodeChar

section
variable {b : Nat} (rest : List UInt8)

theorem toNat_byte (h : b < 256) : (UInt8.ofNat b).toNat = b := by
  rw [UInt8.toNat_ofNat']
  exact Nat.mod_eq_of_lt h

theorem utf8DecodeFrom_lead (hb : b < 256) :
    utf8DecodeFrom none (UInt8.ofNat b :: rest) =
      (utf8Lead b).1 ++ utf8DecodeFrom (utf8Lead b).2 rest := by
  rw [utf8DecodeFrom, toNat_byte hb]
  rfl

/-- A byte that continues a character. -/
theorem utf8DecodeFrom_tail {code needed lower upper : Nat} (hb : b < 256)
    (hbounds : lower ≤ b ∧ b ≤ upper) :
    utf8DecodeFrom (some ⟨code, needed, lower, upper⟩) (UInt8.ofNat b :: rest) =
      if needed = 1 then Char.ofNat (code * 64 + (b - 0x80)) :: utf8DecodeFrom none rest
      else utf8DecodeFrom (some ⟨code * 64 + (b - 0x80), needed - 1, 0x80, 0xBF⟩) rest := by
  rw [utf8DecodeFrom, toNat_byte hb, utf8Step]
  simp only [hbounds, and_self, if_true]
  split <;> rfl

/-- The byte of the six lowest bits. -/
theorem utf8DecodeFrom_six {code needed : Nat} (n : Nat) (hcode : code = n / 64) :
    utf8DecodeFrom (some ⟨code, needed, 0x80, 0xBF⟩) (UInt8.ofNat (n % 0x40 + 0x80) :: rest) =
      if needed = 1 then Char.ofNat n :: utf8DecodeFrom none rest
      else utf8DecodeFrom (some ⟨n, needed - 1, 0x80, 0xBF⟩) rest := by
  have hn : code * 64 + (n % 0x40 + 0x80 - 0x80) = n := by omega
  rw [utf8DecodeFrom_tail rest (by omega) (by omega), hn]

end

section
variable {n : Nat}

theorem utf8Lead_two (hlow : 0x80 ≤ n) (hhigh : n ≤ 0x7ff) :
    utf8Lead (n / 64 % 0x20 + 0xc0) = ([], some ⟨n / 64, 1, 0x80, 0xBF⟩) := by
  have hcode : n / 64 % 0x20 + 0xc0 - 0xC0 = n / 64 := by omega
  unfold utf8Lead
  rw [if_neg (by omega), if_pos (by omega), hcode]

/-- The first byte bounds the second, so that no surrogate is read and nothing shorter. -/
theorem utf8Lead_three (hlow : 0x7ff < n) (hhigh : n ≤ 0xffff)
    (hchar : n < 0xD800 ∨ 0xE000 ≤ n) :
    ∃ lower upper, utf8Lead (n / 4096 % 0x10 + 0xe0) = ([], some ⟨n / 4096, 2, lower, upper⟩) ∧
      lower ≤ n / 64 % 0x40 + 0x80 ∧ n / 64 % 0x40 + 0x80 ≤ upper := by
  have hcode : n / 4096 % 0x10 + 0xe0 - 0xE0 = n / 4096 := by omega
  unfold utf8Lead
  rw [if_neg (by omega), if_neg (by omega)]
  split_ifs with h0 hD h1
  · have hzero : n / 4096 = 0 := by omega
    exact ⟨0xA0, 0xBF, by rw [hzero], by omega, by omega⟩
  · have hthirteen : n / 4096 = 0xD := by omega
    exact ⟨0x80, 0x9F, by rw [hthirteen], by omega, by omega⟩
  · exact ⟨0x80, 0xBF, by rw [hcode], by omega, by omega⟩
  all_goals omega

theorem utf8Lead_four (hlow : 0xffff < n) (hchar : n < 0x110000) :
    ∃ lower upper, utf8Lead (n / 262144 % 0x08 + 0xf0) =
        ([], some ⟨n / 262144, 3, lower, upper⟩) ∧
      lower ≤ n / 4096 % 0x40 + 0x80 ∧ n / 4096 % 0x40 + 0x80 ≤ upper := by
  have hcode : n / 262144 % 0x08 + 0xf0 - 0xF0 = n / 262144 := by omega
  unfold utf8Lead
  rw [if_neg (by omega), if_neg (by omega), if_neg (by omega), if_neg (by omega),
    if_neg (by omega)]
  split_ifs with h0 h1 h4
  · have hzero : n / 262144 = 0 := by omega
    exact ⟨0x90, 0xBF, by rw [hzero], by omega, by omega⟩
  · exact ⟨0x80, 0xBF, by rw [hcode], by omega, by omega⟩
  · have hfour : n / 262144 = 4 := by omega
    exact ⟨0x80, 0x8F, by rw [hfour], by omega, by omega⟩
  · omega

end

theorem Char.toNat_cases (c : Char) :
    c.toNat < 0xD800 ∨ 0xE000 ≤ c.toNat ∧ c.toNat < 0x110000 := by
  have h : c.toNat < 0xD800 ∨ 0xDFFF < c.toNat ∧ c.toNat < 0x110000 := c.valid
  omega

theorem utf8DecodeFrom_encodeChar (c : Char) (rest : List UInt8) :
    utf8DecodeFrom none (String.utf8EncodeChar c ++ rest) = c :: utf8DecodeFrom none rest := by
  have hrange := Char.toNat_cases c
  have hc : Char.ofNat c.toNat = c := Char.ofNat_toNat c
  have hval : c.val.toNat = c.toNat := rfl
  unfold String.utf8EncodeChar
  simp only [hval]
  generalize c.toNat = n at hrange hc
  split_ifs with h1 h2 h3
  · rw [List.singleton_append, utf8DecodeFrom_lead rest (by omega), utf8Lead, if_pos (by omega),
      hc]
    rfl
  · rw [List.cons_append, List.singleton_append, utf8DecodeFrom_lead _ (by omega),
      utf8Lead_two (by omega) h2, List.nil_append, utf8DecodeFrom_six rest n rfl, if_pos rfl, hc]
  · obtain ⟨lower, upper, hlead, hbounds⟩ := utf8Lead_three (n := n) (by omega) h3 (by omega)
    have hsecond : n / 4096 * 64 + (n / 64 % 0x40 + 0x80 - 0x80) = n / 64 := by omega
    rw [List.cons_append, List.cons_append, List.singleton_append,
      utf8DecodeFrom_lead _ (by omega), hlead, List.nil_append,
      utf8DecodeFrom_tail _ (by omega) hbounds, if_neg (by omega), hsecond,
      utf8DecodeFrom_six rest n rfl, if_pos rfl, hc]
  · obtain ⟨lower, upper, hlead, hbounds⟩ := utf8Lead_four (n := n) (by omega) (by omega)
    have hsecond : n / 262144 * 64 + (n / 4096 % 0x40 + 0x80 - 0x80) = n / 64 / 64 := by omega
    rw [List.cons_append, List.cons_append, List.cons_append, List.singleton_append,
      utf8DecodeFrom_lead _ (by omega), hlead, List.nil_append,
      utf8DecodeFrom_tail _ (by omega) hbounds, if_neg (by omega), hsecond,
      utf8DecodeFrom_six _ (n / 64) rfl, if_neg (by omega),
      utf8DecodeFrom_six rest n rfl, if_pos rfl, hc]

theorem utf8Decode_encode (chars : List Char) : utf8Decode (utf8Encode chars) = chars := by
  unfold utf8Decode utf8Encode
  induction chars with
  | nil => rfl
  | cons c chars ih =>
    rw [List.flatMap_cons, utf8DecodeFrom_encodeChar, ih]

end Library
