import Mathlib.Data.List.Basic

/-! JSON texts: the characters of a UTF-8 buffer, and the values that they write. The reader takes
one character at a time; what stands open around the value it reads is its stack. -/

namespace Library

/-! ### UTF-8 -/

/-- A character of which `needed` bytes are missing; the next is between `lower` and `upper`. -/
structure Utf8Pending where
  code : Nat
  needed : Nat
  lower : Nat
  upper : Nat

/-- A byte that no character is waiting for. -/
def utf8Lead (b : Nat) : List Char × Option Utf8Pending :=
  if b < 0x80 then ([Char.ofNat b], none)
  else if 0xC2 ≤ b ∧ b ≤ 0xDF then ([], some ⟨b - 0xC0, 1, 0x80, 0xBF⟩)
  else if b = 0xE0 then ([], some ⟨0, 2, 0xA0, 0xBF⟩)
  else if b = 0xED then ([], some ⟨0xD, 2, 0x80, 0x9F⟩)
  else if 0xE1 ≤ b ∧ b ≤ 0xEF then ([], some ⟨b - 0xE0, 2, 0x80, 0xBF⟩)
  else if b = 0xF0 then ([], some ⟨0, 3, 0x90, 0xBF⟩)
  else if 0xF1 ≤ b ∧ b ≤ 0xF3 then ([], some ⟨b - 0xF0, 3, 0x80, 0xBF⟩)
  else if b = 0xF4 then ([], some ⟨4, 3, 0x80, 0x8F⟩)
  else (['\uFFFD'], none)

def utf8Step (pending : Option Utf8Pending) (b : Nat) : List Char × Option Utf8Pending :=
  match pending with
  | none => utf8Lead b
  | some p =>
    if p.lower ≤ b ∧ b ≤ p.upper then
      let code := p.code * 64 + (b - 0x80)
      if p.needed = 1 then ([Char.ofNat code], none)
      else ([], some ⟨code, p.needed - 1, 0x80, 0xBF⟩)
    -- the bytes so far are replaced, and this one is read again
    else ('\uFFFD' :: (utf8Lead b).1, (utf8Lead b).2)

def utf8DecodeFrom (pending : Option Utf8Pending) : List UInt8 → List Char
  | [] => if pending.isSome then ['\uFFFD'] else []
  | b :: bytes =>
    let (chars, pending) := utf8Step pending b.toNat
    chars ++ utf8DecodeFrom pending bytes

/-- Every byte string is read; what is no UTF-8 becomes U+FFFD. -/
def utf8Decode (bytes : List UInt8) : List Char := utf8DecodeFrom none bytes

/-! ### Values -/

/-- A string is its UTF-16 code units. A number keeps its literal. -/
inductive Json where
  | null
  | bool (b : Bool)
  | number (literal : List Char)
  | string (units : List UInt16)
  | array (items : List Json)
  | object (members : List (List UInt16 × Json))

namespace Json

def utf16Units (c : Char) : List UInt16 :=
  if c.toNat < 0x10000 then [UInt16.ofNat c.toNat]
  else [UInt16.ofNat (0xD800 + (c.toNat - 0x10000) / 0x400),
    UInt16.ofNat (0xDC00 + (c.toNat - 0x10000) % 0x400)]

/-! ### The reader -/

inductive NumberPart where
  | minus
  | zero
  | integer
  | point
  | fraction
  | exponent
  | exponentSign
  | exponentDigits
  deriving DecidableEq

inductive StringPart where
  | plain
  | escape
  | unicode (digits code : Nat)

/-- What is read next. A string is a value, or a key if the members before it are given. -/
inductive Mode where
  | value
  | firstItem
  | key (members : List (List UInt16 × Json)) (first : Bool)
  | string (units : List UInt16) (part : StringPart) (keyOf : Option (List (List UInt16 × Json)))
  | colon (members : List (List UInt16 × Json)) (key : List UInt16)
  | number (literal : List Char) (part : NumberPart)
  | word (rest : List Char) (v : Json)
  | done (v : Json)

inductive Frame where
  | array (items : List Json)
  | object (members : List (List UInt16 × Json)) (key : List UInt16)

abbrev Reader := Mode × List Frame

def isSpace (c : Char) : Bool := c ∈ [' ', '\t', '\n', '\r']

def isDigit (c : Char) : Bool := '0' ≤ c && c ≤ '9'

def hexValue (c : Char) : Option Nat :=
  if '0' ≤ c ∧ c ≤ '9' then some (c.toNat - 48)
  else if 'a' ≤ c ∧ c ≤ 'f' then some (c.toNat - 87)
  else if 'A' ≤ c ∧ c ≤ 'F' then some (c.toNat - 55)
  else none

/-- The character that follows a backslash, other than `u`. -/
def escaped (c : Char) : Option UInt16 :=
  match c with
  | '"' => some 0x22
  | '\\' => some 0x5C
  | '/' => some 0x2F
  | 'b' => some 0x08
  | 'f' => some 0x0C
  | 'n' => some 0x0A
  | 'r' => some 0x0D
  | 't' => some 0x09
  | _ => none

/-- `none` where the literal ends. -/
def numberStep (part : NumberPart) (c : Char) : Option NumberPart :=
  match part with
  | .minus => if c = '0' then some .zero else if isDigit c then some .integer else none
  | .zero =>
    if c = '.' then some .point else if c = 'e' ∨ c = 'E' then some .exponent else none
  | .integer =>
    if isDigit c then some .integer else if c = '.' then some .point
    else if c = 'e' ∨ c = 'E' then some .exponent else none
  | .point => if isDigit c then some .fraction else none
  | .fraction =>
    if isDigit c then some .fraction else if c = 'e' ∨ c = 'E' then some .exponent else none
  | .exponent =>
    if isDigit c then some .exponentDigits else if c = '+' ∨ c = '-' then some .exponentSign
    else none
  | .exponentSign => if isDigit c then some .exponentDigits else none
  | .exponentDigits => if isDigit c then some .exponentDigits else none

/-- The literal may end here. -/
def NumberPart.complete (part : NumberPart) : Bool :=
  part ∈ [.zero, .integer, .fraction, .exponentDigits]

def stepValue (stack : List Frame) (c : Char) : Option Reader :=
  if isSpace c then some (.value, stack)
  else match c with
    | '"' => some (.string [] .plain none, stack)
    | '[' => some (.firstItem, .array [] :: stack)
    | '\x7b' => some (.key [] true, stack)
    | '-' => some (.number [c] .minus, stack)
    | '0' => some (.number [c] .zero, stack)
    | 't' => some (.word ['r', 'u', 'e'] (.bool true), stack)
    | 'f' => some (.word ['a', 'l', 's', 'e'] (.bool false), stack)
    | 'n' => some (.word ['u', 'l', 'l'] .null, stack)
    | _ => if isDigit c then some (.number [c] .integer, stack) else none

def stepDone (v : Json) (stack : List Frame) (c : Char) : Option Reader :=
  if isSpace c then some (.done v, stack)
  else match c, stack with
    | ',', .array items :: stack => some (.value, .array (items ++ [v]) :: stack)
    | ',', .object members key :: stack => some (.key (members ++ [(key, v)]) false, stack)
    | ']', .array items :: stack => some (.done (.array (items ++ [v])), stack)
    | '\x7d', .object members key :: stack => some (.done (.object (members ++ [(key, v)])), stack)
    | _, _ => none

def stepString (units : List UInt16) (part : StringPart)
    (keyOf : Option (List (List UInt16 × Json))) (stack : List Frame) (c : Char) : Option Reader :=
  match part with
  | .plain =>
    if c = '"' then
      match keyOf with
      | none => some (.done (.string units), stack)
      | some members => some (.colon members units, stack)
    else if c = '\\' then some (.string units .escape keyOf, stack)
    else if c.toNat < 0x20 then none
    else some (.string (units ++ utf16Units c) .plain keyOf, stack)
  | .escape =>
    if c = 'u' then some (.string units (.unicode 0 0) keyOf, stack)
    else (escaped c).map fun unit => (.string (units ++ [unit]) .plain keyOf, stack)
  | .unicode digits code =>
    (hexValue c).map fun h =>
      if digits = 3 then (.string (units ++ [UInt16.ofNat (code * 16 + h)]) .plain keyOf, stack)
      else (.string units (.unicode (digits + 1) (code * 16 + h)) keyOf, stack)

def step (reader : Reader) (c : Char) : Option Reader :=
  match reader with
  | (.value, stack) => stepValue stack c
  | (.firstItem, stack) =>
    match c, stack with
    | ']', .array _ :: stack => some (.done (.array []), stack)
    | _, _ => if isSpace c then some (.firstItem, stack) else stepValue stack c
  | (.key members first, stack) =>
    if isSpace c then some (.key members first, stack)
    else if c = '"' then some (.string [] .plain (some members), stack)
    else if c = '\x7d' ∧ first then some (.done (.object members), stack)
    else none
  | (.string units part keyOf, stack) => stepString units part keyOf stack c
  | (.colon members key, stack) =>
    if isSpace c then some (.colon members key, stack)
    else if c = ':' then some (.value, .object members key :: stack)
    else none
  | (.number literal part, stack) =>
    match numberStep part c with
    | some next => some (.number (literal ++ [c]) next, stack)
    | none => if part.complete then stepDone (.number literal) stack c else none
  | (.word rest v, stack) =>
    match rest with
    | [] => none
    | d :: rest =>
      if c = d then some (if rest = [] then (.done v, stack) else (.word rest v, stack)) else none
  | (.done v, stack) => stepDone v stack c

/-- The value of a text that ends here. -/
def finish : Reader → Option Json
  | (.done v, []) => some v
  | (.number literal part, []) => if part.complete then some (.number literal) else none
  | _ => none

/-- `JSON.parse`; `none` is its SyntaxError. -/
def parse (text : List Char) : Option Json := (text.foldlM step (.value, [])).bind finish

example : (parse "[1, -2.5e3, [true, null]]".toList).isSome = true := by decide

end Json
end Library
