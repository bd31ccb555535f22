import IntelliStore.Library.Utf8
import Mathlib.Tactic.IntervalCases

/-! The texts that `JSON.stringify` writes, and that the reader returns the values they are written
from. -/

namespace Library

namespace Json

/-! ### The writer -/

def hexDigit (n : Nat) : Char := Char.ofNat (if n < 10 then 48 + n else 87 + n)

/-- `UnicodeEscape` -/
def unicodeEscape (unit : UInt16) : List Char :=
  ['\\', 'u', hexDigit (unit.toNat / 4096), hexDigit (unit.toNat / 256 % 16),
    hexDigit (unit.toNat / 16 % 16), hexDigit (unit.toNat % 16)]

def isLead (unit : UInt16) : Bool := 0xD800 ≤ unit.toNat && unit.toNat < 0xDC00

def isTrail (unit : UInt16) : Bool := 0xDC00 ≤ unit.toNat && unit.toNat < 0xE000

/-- A code unit that is no half of a pair. -/
def quoteUnit (unit : UInt16) : List Char :=
  if unit = 0x08 then ['\\', 'b']
  else if unit = 0x09 then ['\\', 't']
  else if unit = 0x0A then ['\\', 'n']
  else if unit = 0x0C then ['\\', 'f']
  else if unit = 0x0D then ['\\', 'r']
  else if unit = 0x22 then ['\\', '"']
  else if unit = 0x5C then ['\\', '\\']
  else if unit.toNat < 0x20 || isLead unit || isTrail unit then unicodeEscape unit
  else [Char.ofNat unit.toNat]

/-- The character that a pair of surrogates encodes. -/
def paired (lead trail : UInt16) : Char :=
  Char.ofNat (0x10000 + (lead.toNat - 0xD800) * 0x400 + (trail.toNat - 0xDC00))

def quoteUnits : List UInt16 → List Char
  | [] => []
  | [unit] => quoteUnit unit
  | lead :: trail :: units =>
    if isLead lead && isTrail trail then paired lead trail :: quoteUnits units
    else quoteUnit lead ++ quoteUnits (trail :: units)

/-- `QuoteJSONString` -/
def quote (units : List UInt16) : List Char := '"' :: (quoteUnits units ++ ['"'])

mutual

/-- `JSON.stringify` of a value without `undefined`. -/
def stringify : Json → List Char
  | .null => ['n', 'u', 'l', 'l']
  | .bool true => ['t', 'r', 'u', 'e']
  | .bool false => ['f', 'a', 'l', 's', 'e']
  | .number literal => literal
  | .string units => quote units
  | .array [] => ['[', ']']
  | .array (v :: items) => '[' :: (stringify v ++ stringifyItems items)
  | .object [] => ['\x7b', '\x7d']
  | .object ((key, v) :: members) =>
    '\x7b' :: (quote key ++ ':' :: (stringify v ++ stringifyMembers members))

def stringifyItems : List Json → List Char
  | [] => [']']
  | v :: items => ',' :: (stringify v ++ stringifyItems items)

def stringifyMembers : List (List UInt16 × Json) → List Char
  | [] => ['\x7d']
  | (key, v) :: members =>
    ',' :: (quote key ++ ':' :: (stringify v ++ stringifyMembers members))

end

def numberStart (c : Char) : Option NumberPart :=
  if c = '-' then some .minus
  else if c = '0' then some .zero
  else if isDigit c then some .integer
  else none

/-- The literal of a number. -/
def isNumber : List Char → Bool
  | [] => false
  | c :: literal => ((numberStart c).bind fun part => literal.foldlM numberStep part).any
      NumberPart.complete

mutual

/-- Every number is a literal. -/
def Written : Json → Prop
  | .number literal => isNumber literal = true
  | .array items => WrittenItems items
  | .object members => WrittenMembers members
  | _ => True

def WrittenItems : List Json → Prop
  | [] => True
  | v :: items => Written v ∧ WrittenItems items

def WrittenMembers : List (List UInt16 × Json) → Prop
  | [] => True
  | (_, v) :: members => Written v ∧ WrittenMembers members

end

example : stringify (.object [([0x61], .array [.null, .string [0x22, 0xD800]])]) =
    "\x7b\"a\":[null,\"\\\"\\ud800\"]\x7d".toList := by decide

/-! ### Strings are read back -/

theorem hexValue_hexDigit {n : Nat} (h : n < 16) : hexValue (hexDigit n) = some n := by
  revert n
  decide

theorem toNat_charOfNat {n : Nat} (h : n.isValidChar) : (Char.ofNat n).toNat = n := by
  rw [Char.ofNat, dif_pos h]
  rfl

theorem surrogate_false {unit : UInt16} (h : (isLead unit || isTrail unit) = false) :
    unit.toNat < 0xD800 ∨ 0xE000 ≤ unit.toNat := by
  simp only [isLead, isTrail, Bool.or_eq_false_iff, Bool.and_eq_false_iff,
    decide_eq_false_iff_not] at h
  omega

theorem utf16Units_ofNat {unit : UInt16} (h : (isLead unit || isTrail unit) = false) :
    utf16Units (Char.ofNat unit.toNat) = [unit] := by
  have hunit : unit.toNat < 0x10000 := unit.toNat_lt
  have hrange := surrogate_false h
  rw [utf16Units, toNat_charOfNat (by unfold Nat.isValidChar; omega), if_pos hunit,
    UInt16.ofNat_toNat]

theorem toNat_paired {lead trail : UInt16} (hlead : isLead lead = true)
    (htrail : isTrail trail = true) : (paired lead trail).toNat =
      0x10000 + (lead.toNat - 0xD800) * 0x400 + (trail.toNat - 0xDC00) := by
  simp only [isLead, isTrail, Bool.and_eq_true, decide_eq_true_eq] at hlead htrail
  rw [paired, toNat_charOfNat (by unfold Nat.isValidChar; omega)]

theorem utf16Units_paired {lead trail : UInt16} (hlead : isLead lead = true)
    (htrail : isTrail trail = true) : utf16Units (paired lead trail) = [lead, trail] := by
  rw [utf16Units, toNat_paired hlead htrail]
  simp only [isLead, isTrail, Bool.and_eq_true, decide_eq_true_eq] at hlead htrail
  have hfirst : 0xD800 + (0x10000 + (lead.toNat - 0xD800) * 0x400 + (trail.toNat - 0xDC00) -
      0x10000) / 0x400 = lead.toNat := by omega
  have hsecond : 0xDC00 + (0x10000 + (lead.toNat - 0xD800) * 0x400 + (trail.toNat - 0xDC00) -
      0x10000) % 0x400 = trail.toNat := by omega
  rw [if_neg (by omega), hfirst, hsecond, UInt16.ofNat_toNat, UInt16.ofNat_toNat]

theorem foldlM_cons_of {r r' : Reader} {c : Char} {text : List Char} (h : step r c = some r') :
    (c :: text).foldlM step r = text.foldlM step r' := by
  rw [List.foldlM_cons, h]
  rfl

theorem foldlM_append_of {r r' : Reader} {text text' : List Char}
    (h : text.foldlM step r = some r') : (text ++ text').foldlM step r = text'.foldlM step r' := by
  rw [List.foldlM_append, h]
  rfl

section
variable {units : List UInt16} {keyOf : Option (List (List UInt16 × Json))} {stack : List Frame}

/-- A character of a string is read as its code units. -/
theorem step_plain {c : Char} (hquote : c ≠ '"') (hslash : c ≠ '\\') (hcontrol : 0x20 ≤ c.toNat) :
    step (.string units .plain keyOf, stack) c =
      some (.string (units ++ utf16Units c) .plain keyOf, stack) := by
  have hcontrol : ¬c.toNat < 0x20 := by omega
  simp only [step, stepString, hquote, hslash, hcontrol, if_false]

theorem foldlM_escape {c : Char} {unit : UInt16} (hu : c ≠ 'u') (hc : escaped c = some unit) :
    ['\\', c].foldlM step (.string units .plain keyOf, stack) =
      some (.string (units ++ [unit]) .plain keyOf, stack) := by
  have hslash : step (.string units .plain keyOf, stack) '\\' =
      some (.string units .escape keyOf, stack) := rfl
  have hchar : step (.string units .escape keyOf, stack) c =
      some (.string (units ++ [unit]) .plain keyOf, stack) := by
    simp only [step, stepString, hu, hc, if_false, Option.map_some]
  rw [foldlM_cons_of hslash, foldlM_cons_of hchar]
  rfl

/-- One of the first three digits of an escape. -/
theorem step_digit {digits code h : Nat} (hdigits : digits ≠ 3) (hh : h < 16) :
    step (.string units (.unicode digits code) keyOf, stack) (hexDigit h) =
      some (.string units (.unicode (digits + 1) (code * 16 + h)) keyOf, stack) := by
  simp only [step, stepString, hexValue_hexDigit hh, hdigits, if_false, Option.map_some]

theorem foldlM_unicodeEscape (unit : UInt16) :
    (unicodeEscape unit).foldlM step (.string units .plain keyOf, stack) =
      some (.string (units ++ [unit]) .plain keyOf, stack) := by
  have hunit : unit.toNat < 0x10000 := unit.toNat_lt
  have hcode : (((0 * 16 + unit.toNat / 4096) * 16 + unit.toNat / 256 % 16) * 16 +
      unit.toNat / 16 % 16) * 16 + unit.toNat % 16 = unit.toNat := by omega
  have hslash : step (.string units .plain keyOf, stack) '\\' =
      some (.string units .escape keyOf, stack) := rfl
  have hu : step (.string units .escape keyOf, stack) 'u' =
      some (.string units (.unicode 0 0) keyOf, stack) := rfl
  have hlast : step (.string units (.unicode 3 (((0 * 16 + unit.toNat / 4096) * 16 +
      unit.toNat / 256 % 16) * 16 + unit.toNat / 16 % 16)) keyOf, stack)
        (hexDigit (unit.toNat % 16)) = some (.string (units ++ [unit]) .plain keyOf, stack) := by
    simp only [step, stepString, hexValue_hexDigit (Nat.mod_lt _ (by decide)), if_true,
      Option.map_some, hcode, UInt16.ofNat_toNat]
  rw [unicodeEscape, foldlM_cons_of hslash, foldlM_cons_of hu,
    foldlM_cons_of (step_digit (by decide) (by omega)),
    foldlM_cons_of (step_digit (by decide) (by omega)),
    foldlM_cons_of (step_digit (by decide) (by omega)), foldlM_cons_of hlast]
  rfl

theorem foldlM_quoteUnit (unit : UInt16) :
    (quoteUnit unit).foldlM step (.string units .plain keyOf, stack) =
      some (.string (units ++ [unit]) .plain keyOf, stack) := by
  unfold quoteUnit
  split_ifs with h8 h9 hA hC hD h22 h5C hcontrol
  · exact foldlM_escape (by decide) (h8 ▸ rfl)
  · exact foldlM_escape (by decide) (h9 ▸ rfl)
  · exact foldlM_escape (by decide) (hA ▸ rfl)
  · exact foldlM_escape (by decide) (hC ▸ rfl)
  · exact foldlM_escape (by decide) (hD ▸ rfl)
  · exact foldlM_escape (by decide) (h22 ▸ rfl)
  · exact foldlM_escape (by decide) (h5C ▸ rfl)
  · exact foldlM_unicodeEscape unit
  · rw [Bool.or_assoc, Bool.or_eq_true, not_or, Bool.not_eq_true, Bool.not_eq_true,
      decide_eq_false_iff_not] at hcontrol
    have hrange := surrogate_false hcontrol.2
    have hunit : unit.toNat < 0x10000 := unit.toNat_lt
    have hchar : (Char.ofNat unit.toNat).toNat = unit.toNat :=
      toNat_charOfNat (by unfold Nat.isValidChar; omega)
    have hne : ∀ (u : UInt16) (c : Char), c.toNat = u.toNat → unit ≠ u →
        Char.ofNat unit.toNat ≠ c := by
      intro u c hc hu heq
      apply hu
      rw [← UInt16.toNat_inj, ← hchar, heq, hc]
    rw [foldlM_cons_of (step_plain (hne 0x22 _ rfl h22) (hne 0x5C _ rfl h5C) (by omega)),
      utf16Units_ofNat hcontrol.2]
    rfl

theorem foldlM_quoteUnits (text : List UInt16) :
    (quoteUnits text).foldlM step (.string units .plain keyOf, stack) =
      some (.string (units ++ text) .plain keyOf, stack) := by
  induction text using quoteUnits.induct generalizing units with
  | case1 =>
    rw [quoteUnits, List.append_nil]
    rfl
  | case2 unit => exact foldlM_quoteUnit unit
  | case3 lead trail text hpair ih =>
    rw [Bool.and_eq_true] at hpair
    have hhigh : 0x10000 ≤ (paired lead trail).toNat := by
      rw [toNat_paired hpair.1 hpair.2]
      omega
    have hne : ∀ c : Char, c.toNat < 0x10000 → paired lead trail ≠ c := by
      intro c hc heq
      rw [heq] at hhigh
      omega
    rw [quoteUnits, if_pos (Bool.and_eq_true _ _ ▸ hpair), foldlM_cons_of (step_plain
      (hne _ (by decide)) (hne _ (by decide)) (by omega)), utf16Units_paired hpair.1 hpair.2, ih,
      List.append_assoc]
    rfl
  | case4 lead trail text hpair ih =>
    rw [quoteUnits, if_neg hpair, foldlM_append_of (foldlM_quoteUnit lead), ih, List.append_assoc]
    rfl

end

/-! ### Values are read back -/

/-- The reader has the whole value; a number ends at the next character. -/
inductive Has (v : Json) (stack : List Frame) : Reader → Prop where
  | done : Has v stack (.done v, stack)
  | number {literal : List Char} {part : NumberPart} (hv : v = .number literal)
    (hpart : part.complete = true) : Has v stack (.number literal part, stack)

/-- What may follow a value. -/
def IsDelimiter (c : Char) : Prop := c = ',' ∨ c = ']' ∨ c = '\x7d'

theorem numberStep_delimiter {part : NumberPart} (hpart : part.complete = true) {c : Char}
    (hc : IsDelimiter c) : numberStep part c = none := by
  revert hpart
  rcases hc with rfl | rfl | rfl <;> revert part <;> intro part <;> cases part <;> decide

theorem Has.step {v : Json} {stack : List Frame} {r : Reader} (h : Has v stack r) {c : Char}
    (hc : IsDelimiter c) : Json.step r c = stepDone v stack c := by
  cases h with
  | done => rfl
  | number hv hpart =>
    subst hv
    simp only [Json.step, numberStep_delimiter hpart hc, hpart, if_true]

theorem Has.finish {v : Json} {r : Reader} (h : Has v [] r) : Json.finish r = some v := by
  cases h with
  | done => rfl
  | number hv hpart =>
    subst hv
    rw [Json.finish, if_pos hpart]

/-- A text is read, from where a value is expected, as `v`. -/
def Reads (text : List Char) (v : Json) : Prop :=
  ∀ stack, ∃ r, text.foldlM step (.value, stack) = some r ∧ Has v stack r

theorem foldlM_number {part part' : NumberPart} {read literal : List Char} {stack : List Frame}
    (h : literal.foldlM numberStep part = some part') :
    literal.foldlM step (.number read part, stack) =
      some (.number (read ++ literal) part', stack) := by
  induction literal generalizing read part with
  | nil =>
    cases h
    rw [List.append_nil]
    rfl
  | cons c literal ih =>
    rw [List.foldlM_cons, Option.bind_eq_bind, Option.bind_eq_some_iff] at h
    obtain ⟨next, hnext, hrest⟩ := h
    have hstep : step (.number read part, stack) c = some (.number (read ++ [c]) next, stack) := by
      simp only [step, hnext]
    rw [foldlM_cons_of hstep, ih hrest, List.append_assoc]
    rfl

theorem exists_of_isDigit {c : Char} (h : isDigit c = true) : ∃ n < 10, c = Char.ofNat (48 + n) := by
  rw [isDigit, Bool.and_eq_true, decide_eq_true_eq, decide_eq_true_eq] at h
  have hlow : 48 ≤ c.toNat := h.1
  have hhigh : c.toNat ≤ 57 := h.2
  refine ⟨c.toNat - 48, by omega, ?_⟩
  rw [Nat.add_sub_cancel' hlow, Char.ofNat_toNat]

theorem step_numberStart {c : Char} {part : NumberPart} (h : numberStart c = some part)
    (stack : List Frame) : step (.value, stack) c = some (.number [c] part, stack) := by
  unfold numberStart at h
  split_ifs at h with hminus hzero hdigit
  · subst hminus
    cases h
    rfl
  · subst hzero
    cases h
    rfl
  · obtain ⟨n, hn, rfl⟩ := exists_of_isDigit hdigit
    cases h
    interval_cases n
    · exact absurd rfl hzero
    all_goals rfl

theorem reads_number {literal : List Char} (h : isNumber literal = true) :
    Reads literal (.number literal) := by
  intro stack
  cases literal with
  | nil => cases h
  | cons c literal =>
    rw [isNumber, Option.any_eq_true] at h
    obtain ⟨part', hfold, hcomplete⟩ := h
    rw [Option.bind_eq_some_iff] at hfold
    obtain ⟨part, hstart, hrest⟩ := hfold
    refine ⟨_, ?_, .number rfl hcomplete⟩
    rw [foldlM_cons_of (step_numberStart hstart stack)]
    exact foldlM_number hrest

theorem foldlM_quote (text : List UInt16) (keyOf : Option (List (List UInt16 × Json)))
    (stack : List Frame) : (quoteUnits text ++ ['"']).foldlM step (.string [] .plain keyOf, stack) =
      some (match keyOf with
        | none => (.done (.string text), stack)
        | some members => (.colon members text, stack)) := by
  rw [foldlM_append_of (foldlM_quoteUnits text)]
  cases keyOf <;> rfl

/-- The first character of a value is no bracket that closes, and no space. -/
theorem head_stringify {v : Json} (h : Written v) :
    ∃ c text, stringify v = c :: text ∧ c ≠ ']' ∧ isSpace c = false := by
  match v with
  | .null | .bool true | .bool false | .array [] | .object [] =>
    exact ⟨_, _, rfl, by decide, by decide⟩
  | .string units => exact ⟨_, _, rfl, by decide, by decide⟩
  | .array (w :: items) => exact ⟨'[', _, rfl, by decide, by decide⟩
  | .object ((key, w) :: members) => exact ⟨'\x7b', _, rfl, by decide, by decide⟩
  | .number [] => cases h
  | .number (c :: literal) =>
    have hstart : ∃ part, numberStart c = some part := by
      rw [Written, isNumber, Option.any_eq_true] at h
      obtain ⟨part', hfold, -⟩ := h
      obtain ⟨part, hpart, -⟩ := Option.bind_eq_some_iff.mp hfold
      exact ⟨part, hpart⟩
    obtain ⟨part, hpart⟩ := hstart
    have hvalue := step_numberStart hpart []
    refine ⟨c, literal, rfl, ?_, ?_⟩
    · rintro rfl
      cases hvalue
    · by_contra hspace
      rw [Bool.not_eq_false] at hspace
      simp only [step, stepValue, hspace, if_true, Option.some.injEq, Prod.mk.injEq] at hvalue
      cases hvalue.1

theorem step_firstItem {c : Char} (hc : c ≠ ']') (hspace : isSpace c = false)
    (stack : List Frame) : step (.firstItem, .array [] :: stack) c =
      step (.value, .array [] :: stack) c := by
  simp only [step]
  split
  · exact absurd rfl hc
  · rw [hspace]
    rfl

/-- A key, and the colon behind it. -/
theorem foldlM_key (members : List (List UInt16 × Json)) (first : Bool) (key : List UInt16)
    (text : List Char) (stack : List Frame) :
    (quote key ++ ':' :: text).foldlM step (.key members first, stack) =
      text.foldlM step (.value, .object members key :: stack) := by
  have hopen : step (.key members first, stack) '"' =
      some (.string [] .plain (some members), stack) := rfl
  have hcolon : step (.colon members key, stack) ':' =
      some (.value, .object members key :: stack) := rfl
  rw [quote, List.cons_append, foldlM_cons_of hopen, foldlM_append_of (foldlM_quote key _ stack),
    foldlM_cons_of hcolon]

mutual

theorem reads_stringify : ∀ v : Json, Written v → Reads (stringify v) v
  | .null, _ => fun stack => ⟨_, rfl, .done⟩
  | .bool true, _ => fun stack => ⟨_, rfl, .done⟩
  | .bool false, _ => fun stack => ⟨_, rfl, .done⟩
  | .number literal, h => by
    rw [Written] at h
    rw [stringify]
    exact reads_number h
  | .string units, _ => fun stack => by
    have hopen : step (.value, stack) '"' = some (.string [] .plain none, stack) := rfl
    refine ⟨_, ?_, .done⟩
    rw [stringify, quote, foldlM_cons_of hopen, foldlM_quote]
  | .array [], _ => fun stack => ⟨_, rfl, .done⟩
  | .array (v :: items), h => fun stack => by
    rw [Written, WrittenItems] at h
    have hopen : step (.value, stack) '[' = some (.firstItem, .array [] :: stack) := rfl
    obtain ⟨r, hr, hhas⟩ := reads_stringify v h.1 (.array [] :: stack)
    have hfirst : (stringify v).foldlM step (.firstItem, .array [] :: stack) = some r := by
      obtain ⟨c, text, hv, hc, hspace⟩ := head_stringify h.1
      rw [hv, List.foldlM_cons] at hr ⊢
      rw [step_firstItem hc hspace, hr]
    refine ⟨_, ?_, .done⟩
    rw [stringify, foldlM_cons_of hopen, foldlM_append_of hfirst,
      reads_items items h.2 v [] stack r hhas]
    rfl
  | .object [], _ => fun stack => ⟨_, rfl, .done⟩
  | .object ((key, v) :: members), h => fun stack => by
    rw [Written, WrittenMembers] at h
    have hopen : step (.value, stack) '\x7b' = some (.key [] true, stack) := rfl
    obtain ⟨r, hr, hhas⟩ := reads_stringify v h.1 (.object [] key :: stack)
    refine ⟨_, ?_, .done⟩
    rw [stringify, foldlM_cons_of hopen, foldlM_key, foldlM_append_of hr,
      reads_members members h.2 key v [] stack r hhas]
    rfl

theorem reads_items : ∀ items : List Json, WrittenItems items → ∀ (v : Json) (read : List Json)
    (stack : List Frame) (r : Reader), Has v (.array read :: stack) r →
      (stringifyItems items).foldlM step r =
        some (.done (.array (read ++ v :: items)), stack)
  | [], _, v, read, stack, r, hr => by
    rw [stringifyItems, foldlM_cons_of (hr.step (.inr (.inl rfl)))]
    rfl
  | w :: items, h, v, read, stack, r, hr => by
    rw [WrittenItems] at h
    have hcomma : stepDone v (.array read :: stack) ',' =
        some (.value, .array (read ++ [v]) :: stack) := rfl
    obtain ⟨r', hw, hhas⟩ := reads_stringify w h.1 (.array (read ++ [v]) :: stack)
    rw [stringifyItems, foldlM_cons_of ((hr.step (.inl rfl)).trans hcomma), foldlM_append_of hw,
      reads_items items h.2 w (read ++ [v]) stack r' hhas, List.append_assoc]
    rfl

theorem reads_members : ∀ members : List (List UInt16 × Json), WrittenMembers members →
    ∀ (key : List UInt16) (v : Json) (read : List (List UInt16 × Json)) (stack : List Frame)
      (r : Reader), Has v (.object read key :: stack) r →
        (stringifyMembers members).foldlM step r =
          some (.done (.object (read ++ (key, v) :: members)), stack)
  | [], _, key, v, read, stack, r, hr => by
    rw [stringifyMembers, foldlM_cons_of (hr.step (.inr (.inr rfl)))]
    rfl
  | (key', w) :: members, h, key, v, read, stack, r, hr => by
    rw [WrittenMembers] at h
    have hcomma : stepDone v (.object read key :: stack) ',' =
        some (.key (read ++ [(key, v)]) false, stack) := rfl
    obtain ⟨r', hw, hhas⟩ := reads_stringify w h.1 (.object (read ++ [(key, v)]) key' :: stack)
    rw [stringifyMembers, foldlM_cons_of ((hr.step (.inl rfl)).trans hcomma), foldlM_key,
      foldlM_append_of hw, reads_members members h.2 key' w (read ++ [(key, v)]) stack r' hhas,
      List.append_assoc]
    rfl

end

/-- `JSON.parse(JSON.stringify(v))` is `v`. -/
theorem parse_stringify {v : Json} (h : Written v) : parse (stringify v) = some v := by
  obtain ⟨r, hr, hhas⟩ := reads_stringify v h []
  rw [parse, hr, Option.bind_some, hhas.finish]

/-! ### Natural numbers and strings of characters -/

theorem numberStep_digitChar {d : Nat} (hd : d < 10) :
    numberStep .integer (Nat.digitChar d) = some .integer := by
  interval_cases d <;> rfl

theorem toDigits_integer {n : Nat} (hn : 0 < n) : ∃ c literal, Nat.toDigits 10 n = c :: literal ∧
    numberStart c = some .integer ∧ literal.foldlM numberStep .integer = some .integer := by
  induction n using Nat.strongRecOn with
  | ind n ih =>
    by_cases hbase : n < 10
    · refine ⟨n.digitChar, [], Nat.toDigits_of_lt_base hbase, ?_, rfl⟩
      interval_cases n <;> rfl
    · obtain ⟨c, literal, hdigits, hstart, hfold⟩ := ih (n / 10) (by omega) (by omega)
      refine ⟨c, literal ++ [(n % 10).digitChar], ?_, hstart, ?_⟩
      · rw [Nat.toDigits_of_base_le (by decide) (by omega), hdigits]
        rfl
      · rw [List.foldlM_append, hfold]
        show [(n % 10).digitChar].foldlM numberStep .integer = _
        rw [List.foldlM_cons, numberStep_digitChar (Nat.mod_lt _ (by decide))]
        rfl

/-- An integer below 2^53, which is written with all its digits. -/
def ofNat (n : Nat) : Json := .number (Nat.toDigits 10 n)

def toNat : Json → Option Nat
  | .number literal =>
    if literal.all isDigit then some (Nat.ofDigitChars 10 literal 0) else none
  | _ => none

@[simp] theorem written_ofNat (n : Nat) : Written (ofNat n) := by
  rw [ofNat, Written]
  rcases Nat.eq_zero_or_pos n with rfl | hn
  · decide
  · obtain ⟨c, literal, hdigits, hstart, hfold⟩ := toDigits_integer hn
    rw [hdigits, isNumber, hstart, Option.bind_some, hfold]
    rfl

@[simp] theorem toNat_ofNat (n : Nat) : toNat (ofNat n) = some n := by
  have hdigits : (Nat.toDigits 10 n).all isDigit = true := by
    rw [List.all_eq_true]
    intro c hc
    exact Nat.isDigit_of_mem_toDigits (by decide) (by decide) hc
  rw [ofNat, toNat, if_pos hdigits, Nat.ofDigitChars_ten_toDigits]

/-- The code units of a string of characters. -/
def units (text : String) : List UInt16 := text.toList.flatMap utf16Units

def ofString (text : String) : Json := .string (units text)

/-- A code unit on its own. -/
def scalar (unit : UInt16) : Char :=
  if isLead unit || isTrail unit then '\uFFFD' else Char.ofNat unit.toNat

def utf16Chars : List UInt16 → List Char
  | [] => []
  | [unit] => [scalar unit]
  | lead :: trail :: units =>
    if isLead lead && isTrail trail then paired lead trail :: utf16Chars units
    else scalar lead :: utf16Chars (trail :: units)

def toString : Json → Option String
  | .string units => some (String.ofList (utf16Chars units))
  | _ => none

theorem toNat_unit {n : Nat} (h : n < 0x10000) : (UInt16.ofNat n).toNat = n := by
  rw [UInt16.toNat_ofNat']
  exact Nat.mod_eq_of_lt h

theorem utf16Chars_units (c : Char) (units : List UInt16) :
    utf16Chars (utf16Units c ++ units) = c :: utf16Chars units := by
  have hrange := Char.toNat_cases c
  have hc : Char.ofNat c.toNat = c := Char.ofNat_toNat c
  unfold utf16Units
  split_ifs with hsmall
  · have hunit : (UInt16.ofNat c.toNat).toNat = c.toNat := toNat_unit hsmall
    have hlead : isLead (UInt16.ofNat c.toNat) = false := by
      rw [isLead, hunit, Bool.and_eq_false_iff, decide_eq_false_iff_not, decide_eq_false_iff_not]
      omega
    have htrail : isTrail (UInt16.ofNat c.toNat) = false := by
      rw [isTrail, hunit, Bool.and_eq_false_iff, decide_eq_false_iff_not, decide_eq_false_iff_not]
      omega
    have hscalar : scalar (UInt16.ofNat c.toNat) = c := by
      rw [scalar, hlead, htrail, hunit, hc]
      rfl
    cases units with
    | nil =>
      rw [List.append_nil]
      exact congrArg (fun c => [c]) hscalar
    | cons unit units =>
      rw [List.singleton_append, utf16Chars, hlead, hscalar]
      rfl
  · have hfirst : (UInt16.ofNat (0xD800 + (c.toNat - 0x10000) / 0x400)).toNat =
        0xD800 + (c.toNat - 0x10000) / 0x400 := toNat_unit (by omega)
    have hsecond : (UInt16.ofNat (0xDC00 + (c.toNat - 0x10000) % 0x400)).toNat =
        0xDC00 + (c.toNat - 0x10000) % 0x400 := toNat_unit (by omega)
    have hlead : isLead (UInt16.ofNat (0xD800 + (c.toNat - 0x10000) / 0x400)) = true := by
      rw [isLead, hfirst, Bool.and_eq_true, decide_eq_true_eq, decide_eq_true_eq]
      omega
    have htrail : isTrail (UInt16.ofNat (0xDC00 + (c.toNat - 0x10000) % 0x400)) = true := by
      rw [isTrail, hsecond, Bool.and_eq_true, decide_eq_true_eq, decide_eq_true_eq]
      omega
    have hpaired : paired (UInt16.ofNat (0xD800 + (c.toNat - 0x10000) / 0x400))
        (UInt16.ofNat (0xDC00 + (c.toNat - 0x10000) % 0x400)) = c := by
      have hcode : 0x10000 + (0xD800 + (c.toNat - 0x10000) / 0x400 - 0xD800) * 0x400 +
          (0xDC00 + (c.toNat - 0x10000) % 0x400 - 0xDC00) = c.toNat := by omega
      rw [paired, hfirst, hsecond, hcode, hc]
    rw [List.cons_append, List.singleton_append, utf16Chars, hlead, htrail, hpaired]
    rfl

theorem utf16Chars_flatMap (chars : List Char) : utf16Chars (chars.flatMap utf16Units) = chars := by
  induction chars with
  | nil => rfl
  | cons c chars ih => rw [List.flatMap_cons, utf16Chars_units, ih]

/-- A surrogate without its other half is replaced by one unit. -/
theorem length_utf16Chars (units : List UInt16) :
    ((utf16Chars units).flatMap utf16Units).length = units.length := by
  have hscalar : ∀ unit, (utf16Units (scalar unit)).length = 1 := by
    intro unit
    unfold scalar
    split_ifs with hsurrogate
    · rfl
    · rw [utf16Units_ofNat (Bool.eq_false_of_not_eq_true hsurrogate)]
      rfl
  fun_induction utf16Chars units with
  | case1 => rfl
  | case2 unit =>
    rw [List.flatMap_cons, List.length_append, hscalar]
    rfl
  | case3 lead trail units hpair ih =>
    obtain ⟨hlead, htrail⟩ := Bool.and_eq_true_iff.mp hpair
    rw [List.flatMap_cons, List.length_append, utf16Units_paired hlead htrail, ih]
    simp only [List.length_cons, List.length_nil]
    omega
  | case4 lead trail units hpair ih =>
    rw [List.flatMap_cons, List.length_append, hscalar, ih]
    exact Nat.add_comm _ _

@[simp] theorem toString_ofString (text : String) : toString (ofString text) = some text := by
  rw [ofString, toString, units, utf16Chars_flatMap, String.ofList_toList]

theorem units_injective : Function.Injective units := by
  intro text text' h
  have hread := congrArg toString (congrArg Json.string h)
  exact Option.some.inj ((toString_ofString text).symm.trans (hread.trans (toString_ofString text')))

/-! ### Objects and arrays -/

/-- An object literal. -/
def record (members : List (String × Json)) : Json :=
  .object (members.map fun m => (units m.1, m.2))

def field (key : String) : Json → Option Json
  | .object members => (members.find? fun m => m.1 = units key).map Prod.snd
  | _ => none

def toList : Json → Option (List Json)
  | .array items => some items
  | _ => none

theorem field_record (key : String) (members : List (String × Json)) :
    field key (record members) = (members.find? fun m => m.1 = key).map Prod.snd := by
  have hkey : ∀ m : String × Json, decide (units m.1 = units key) = decide (m.1 = key) :=
    fun m => decide_eq_decide.mpr units_injective.eq_iff
  rw [record, field, List.find?_map, Option.map_map]
  simp only [Function.comp_def, hkey]

theorem written_record (members : List (String × Json)) :
    Written (record members) ↔ ∀ m ∈ members, Written m.2 := by
  rw [record, Written]
  induction members with
  | nil => simp [WrittenMembers]
  | cons m members ih => rw [List.map_cons, WrittenMembers, ih, List.forall_mem_cons]

theorem written_array (items : List Json) : Written (.array items) ↔ ∀ v ∈ items, Written v := by
  rw [Written]
  induction items with
  | nil => simp [WrittenItems]
  | cons v items ih => rw [WrittenItems, ih, List.forall_mem_cons]

@[simp] theorem written_ofString (text : String) : Written (ofString text) := by
  simp only [ofString, Written]

end Json
end Library
