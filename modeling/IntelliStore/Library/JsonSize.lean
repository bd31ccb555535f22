import IntelliStore.Library.JsonText

/-! How many bytes a JSON text takes. -/

namespace Library

def byteLength (text : List Char) : Nat := (utf8Encode text).length

theorem byteLength_append (text text' : List Char) :
    byteLength (text ++ text') = byteLength text + byteLength text' := by
  rw [byteLength, utf8Encode, List.flatMap_append, List.length_append]
  rfl

theorem byteLength_cons (c : Char) (text : List Char) :
    byteLength (c :: text) = c.utf8Size + byteLength text := by
  rw [byteLength, utf8Encode, List.flatMap_cons, List.length_append, String.length_utf8EncodeChar]
  rfl

theorem byteLength_ascii {text : List Char} (h : ∀ c ∈ text, c.utf8Size = 1) :
    byteLength text = text.length := by
  induction text with
  | nil => rfl
  | cons c text ih =>
    obtain ⟨hc, htext⟩ := List.forall_mem_cons.mp h
    rw [byteLength_cons, hc, ih htext, List.length_cons, Nat.add_comm]

namespace Json

/-- The bytes of the text of a value. -/
def size (v : Json) : Nat := byteLength v.stringify

/-! ### Strings -/

theorem utf8Size_hexDigit {n : Nat} (h : n < 16) : (hexDigit n).utf8Size = 1 := by
  revert n
  decide

theorem byteLength_quoteUnit (unit : UInt16) : byteLength (quoteUnit unit) ≤ 6 := by
  have hescape : byteLength (unicodeEscape unit) = 6 := by
    have hunit : unit.toNat < 65536 := unit.toNat_lt
    have hascii : ∀ c ∈ unicodeEscape unit, c.utf8Size = 1 := by
      simp only [unicodeEscape, List.forall_mem_cons]
      refine ⟨rfl, rfl, ?_, ?_, ?_, ?_, fun c hc => absurd hc List.not_mem_nil⟩ <;>
        exact utf8Size_hexDigit (by omega)
    rw [byteLength_ascii hascii]
    rfl
  unfold quoteUnit
  split_ifs <;> first | decide | skip
  · exact hescape.le
  · rw [byteLength_cons]
    have hsize := (Char.ofNat unit.toNat).utf8Size_le_four
    show (Char.ofNat unit.toNat).utf8Size + 0 ≤ 6
    omega

/-- A code unit takes up to the six bytes of an escape. -/
theorem byteLength_quoteUnits (units : List UInt16) :
    byteLength (quoteUnits units) ≤ 6 * units.length := by
  fun_induction quoteUnits units with
  | case1 => exact Nat.zero_le _
  | case2 unit => exact byteLength_quoteUnit unit
  | case3 lead trail units hpair ih =>
    have hsize := (paired lead trail).utf8Size_le_four
    rw [byteLength_cons, List.length_cons, List.length_cons]
    omega
  | case4 lead trail units hpair ih =>
    have hlead := byteLength_quoteUnit lead
    rw [byteLength_append, List.length_cons]
    omega

theorem size_ofString (text : String) :
    size (.ofString text) = byteLength (quoteUnits (units text)) + 2 := by
  rw [size, ofString, stringify, quote, byteLength_cons, byteLength_append]
  show 1 + (_ + 1) = _
  omega

theorem size_ofString_le (text : String) :
    size (.ofString text) ≤ 6 * (units text).length + 2 := by
  rw [size_ofString]
  exact Nat.add_le_add_right (byteLength_quoteUnits _) 2

/-- The characters that are written as they are, with a byte each. -/
def isPlain (c : Char) : Bool := 0x20 ≤ c.toNat && c.toNat < 0x7F && c ≠ '"' && c ≠ '\\'

theorem quoteUnits_cons {unit : UInt16} (h : isLead unit = false) (units : List UInt16) :
    quoteUnits (unit :: units) = quoteUnit unit ++ quoteUnits units := by
  cases units with
  | nil => simp [quoteUnits]
  | cons trail units => simp [quoteUnits, h]

theorem plain_spec {n : Nat} (h : n < 0x7F) : isPlain (Char.ofNat n) = true →
    utf16Units (Char.ofNat n) = [UInt16.ofNat n] ∧ isLead (UInt16.ofNat n) = false ∧
      quoteUnit (UInt16.ofNat n) = [Char.ofNat n] ∧ (Char.ofNat n).utf8Size = 1 := by
  revert n
  decide

theorem quoteUnits_plain {chars : List Char} (h : ∀ c ∈ chars, isPlain c = true) :
    quoteUnits (chars.flatMap utf16Units) = chars ∧ byteLength chars = chars.length := by
  induction chars with
  | nil => exact ⟨rfl, rfl⟩
  | cons c chars ih =>
    obtain ⟨hc, hchars⟩ := List.forall_mem_cons.mp h
    obtain ⟨hquoted, hlength⟩ := ih hchars
    have hbound : c.toNat < 0x7F := by
      simp only [isPlain, Bool.and_eq_true, decide_eq_true_eq] at hc
      exact hc.1.1.2
    obtain ⟨hunits, hlead, hunit, hsize⟩ := plain_spec hbound (by rwa [Char.ofNat_toNat])
    rw [Char.ofNat_toNat] at hunits hunit hsize
    constructor
    · rw [List.flatMap_cons, hunits, List.singleton_append, quoteUnits_cons hlead, hunit, hquoted]
      rfl
    · rw [byteLength_cons, hsize, hlength, List.length_cons, Nat.add_comm]

theorem size_plain {text : String} (h : text.toList.all isPlain = true) :
    size (.ofString text) = text.length + 2 := by
  obtain ⟨hquoted, hlength⟩ := quoteUnits_plain (List.all_eq_true.mp h)
  rw [size_ofString, units, hquoted, hlength, String.length_toList]

/-! ### Numbers -/

theorem size_ofNat (n : Nat) : size (.ofNat n) = (Nat.toDigits 10 n).length := by
  have hascii : ∀ c ∈ Nat.toDigits 10 n, c.utf8Size = 1 := by
    intro c hc
    have hdigit := Nat.isDigit_of_mem_toDigits (by decide) (by decide) hc
    obtain ⟨d, hd, rfl⟩ := exists_of_isDigit hdigit
    have hsize : ∀ d < 10, (Char.ofNat (48 + d)).utf8Size = 1 := by decide
    exact hsize d hd
  rw [size, ofNat, stringify, byteLength_ascii hascii]

theorem size_ofNat_pos (n : Nat) : 0 < size (.ofNat n) := by
  rw [size_ofNat]
  exact Nat.length_toDigits_pos

theorem size_ofNat_le {n digits : Nat} (hpos : 0 < digits) (h : n < 10 ^ digits) :
    size (.ofNat n) ≤ digits := by
  rw [size_ofNat]
  exact (Nat.length_toDigits_le_iff (by decide) hpos).mpr h

/-! ### Arrays and objects -/

theorem byteLength_stringifyItems (items : List Json) :
    byteLength (stringifyItems items) = 1 + (items.map fun v => size v + 1).sum := by
  induction items with
  | nil => rfl
  | cons v items ih =>
    rw [stringifyItems, byteLength_cons, byteLength_append, ih, ← size, List.map_cons,
      List.sum_cons]
    show 1 + _ = _
    omega

theorem size_array {items : List Json} (h : items ≠ []) :
    size (.array items) = 1 + (items.map fun v => size v + 1).sum := by
  cases items with
  | nil => exact absurd rfl h
  | cons v items =>
    rw [size, stringify, byteLength_cons, byteLength_append, byteLength_stringifyItems, ← size,
      List.map_cons, List.sum_cons]
    show 1 + _ = _
    omega

theorem byteLength_quote (text : String) :
    byteLength (quote (units text)) = size (.ofString text) := by
  rw [size, ofString, stringify]

theorem byteLength_stringifyMembers (members : List (String × Json)) :
    byteLength (stringifyMembers (members.map fun m => (units m.1, m.2))) =
      1 + (members.map fun m => size (.ofString m.1) + size m.2 + 2).sum := by
  induction members with
  | nil => rfl
  | cons m members ih =>
    rw [List.map_cons, stringifyMembers, byteLength_cons, byteLength_append, byteLength_cons,
      byteLength_append, ih, byteLength_quote, ← size, List.map_cons, List.sum_cons]
    show 1 + (_ + (1 + _)) = _
    omega

theorem size_record {members : List (String × Json)} (h : members ≠ []) :
    size (.record members) = 1 + (members.map fun m => size (.ofString m.1) + size m.2 + 2).sum := by
  cases members with
  | nil => exact absurd rfl h
  | cons m members =>
    rw [size, record, List.map_cons, stringify, byteLength_cons, byteLength_append,
      byteLength_cons, byteLength_append, byteLength_stringifyMembers, byteLength_quote, ← size,
      List.map_cons, List.sum_cons]
    show 1 + (_ + (1 + _)) = _
    omega

end Json

end Library
