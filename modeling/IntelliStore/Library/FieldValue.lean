import Mathlib.Data.List.Basic

/-! Values of HTTP header fields with parameters, as lists of code units: a token, and after each
semicolon a name with a token or a quoted string. -/

namespace Library.FieldValue

def quote : Nat := 0x22
def backslash : Nat := 0x5C
def semicolon : Nat := 0x3B
def equals : Nat := 0x3D

def units (text : String) : List Nat := text.toList.map Char.toNat

def isBlank (u : Nat) : Bool := u = 0x20 || u = 0x9

/-- A tab, a space, a visible character or a byte above ASCII. -/
def isFieldUnit (u : Nat) : Bool := u = 0x9 || (0x20 ≤ u && u ≤ 0x7E) || (0x80 ≤ u && u ≤ 0xFF)

def isAlphanumeric (u : Nat) : Bool :=
  (0x30 ≤ u && u ≤ 0x39) || (0x41 ≤ u && u ≤ 0x5A) || (0x61 ≤ u && u ≤ 0x7A)

/-- The characters of a token: letters, digits and those of `!#$%&'*+-.^_` and 0x60, `|~`. -/
def isTokenUnit (u : Nat) : Bool :=
  isAlphanumeric u ||
    u ∈ [0x21, 0x23, 0x24, 0x25, 0x26, 0x27, 0x2A, 0x2B, 0x2D, 0x2E, 0x5E, 0x5F, 0x60, 0x7C, 0x7E]

def lower (u : Nat) : Nat := if 0x41 ≤ u ∧ u ≤ 0x5A then u + 0x20 else u

/-- The text up to the closing quote, and what follows; a backslash takes the next unit as it
is. -/
def quotedString : List Nat → Option (List Nat × List Nat)
  | [] => none
  | u :: rest =>
    if u = quote then some ([], rest)
    else if u = backslash then
      match rest with
      | [] => none
      | v :: rest =>
        if isFieldUnit v then (quotedString rest).map fun q => (v :: q.1, q.2) else none
    else if isFieldUnit u then (quotedString rest).map fun q => (u :: q.1, q.2)
    else none

def parameterValue : List Nat → Option (List Nat × List Nat)
  | [] => none
  | u :: rest =>
    if u = quote then quotedString rest
    else if isTokenUnit u then
      some ((u :: rest).takeWhile isTokenUnit, (u :: rest).dropWhile isTokenUnit)
    else none

def parameters : Nat → List Nat → Option (List (List Nat × List Nat))
  | 0, _ => none
  | fuel + 1, text =>
    match text.dropWhile isBlank with
    | [] => some []
    | u :: rest =>
      if u = semicolon then
        let text := rest.dropWhile isBlank
        let name := text.takeWhile isTokenUnit
        match text.dropWhile isTokenUnit with
        | [] => none
        | v :: rest =>
          if name ≠ [] ∧ v = equals then
            match parameterValue rest with
            | none => none
            | some (value, rest) => (parameters fuel rest).map ((name, value) :: ·)
          else none
      else none

/-- The value of a parameter; each one takes up a unit at least, which bounds their number. -/
def parameter (name text : List Nat) : Option (List Nat) :=
  if text.takeWhile isTokenUnit = [] then none
  else
    (parameters (text.length + 1) (text.dropWhile isTokenUnit)).bind fun params =>
      (params.find? fun p => p.1.map lower = name.map lower).map Prod.snd

/-! ### Quoted strings -/

/-- The units that a quoted string holds as they are. -/
def Plain (u : Nat) : Prop := isFieldUnit u = true ∧ u ≠ quote ∧ u ≠ backslash

instance : DecidablePred Plain := fun _ => inferInstanceAs (Decidable (_ ∧ _))

variable {u : Nat} {value text rest : List Nat}

theorem quotedString_quote : quotedString (quote :: rest) = some ([], rest) := by
  unfold quotedString
  rw [if_pos rfl]

theorem quotedString_plain (hu : Plain u) :
    quotedString (u :: rest) = (quotedString rest).map fun q => (u :: q.1, q.2) := by
  conv_lhs => unfold quotedString
  rw [if_neg hu.2.1, if_neg hu.2.2, if_pos hu.1]

theorem quotedString_of_plain (hvalue : ∀ u ∈ value, Plain u) :
    quotedString (value ++ quote :: rest) = some (value, rest) := by
  induction value with
  | nil => exact quotedString_quote
  | cons u value ih =>
    have hcons := List.forall_mem_cons.mp hvalue
    rw [List.cons_append, quotedString_plain hcons.1, ih hcons.2]
    rfl

/-- A quoted string begins with its closing quote, an escape or a plain unit. -/
theorem quotedString_cases (h : quotedString text = some (value, rest)) :
    (text = quote :: rest ∧ value = []) ∨
    (∃ v text' value', text = backslash :: v :: text' ∧ value = v :: value' ∧
      quotedString text' = some (value', rest)) ∨
    ∃ u text' value', text = u :: text' ∧ value = u :: value' ∧ Plain u ∧
      quotedString text' = some (value', rest) := by
  have hmap : ∀ {u : Nat} {text' : List Nat},
      ((quotedString text').map fun q => (u :: q.1, q.2)) = some (value, rest) →
      ∃ value', value = u :: value' ∧ quotedString text' = some (value', rest) := by
    intro u text' hmap
    obtain ⟨q, hq, heq⟩ := Option.map_eq_some_iff.mp hmap
    cases heq
    exact ⟨q.1, rfl, hq⟩
  cases text with
  | nil => cases h
  | cons u text =>
    by_cases hquote : u = quote
    · rw [hquote, quotedString_quote] at h
      cases h
      exact Or.inl ⟨by rw [hquote], rfl⟩
    · by_cases hbackslash : u = backslash
      · unfold quotedString at h
        rw [if_neg hquote, if_pos hbackslash] at h
        cases text with
        | nil => cases h
        | cons v text =>
          simp only at h
          split_ifs at h
          obtain ⟨value', hvalue, hrest⟩ := hmap h
          exact Or.inr (Or.inl ⟨v, text, value', by rw [hbackslash], hvalue, hrest⟩)
      · unfold quotedString at h
        rw [if_neg hquote, if_neg hbackslash] at h
        split_ifs at h with hfield
        obtain ⟨value', hvalue, hrest⟩ := hmap h
        exact Or.inr (Or.inr ⟨u, text, value', rfl, hvalue, ⟨hfield, hquote, hbackslash⟩, hrest⟩)

/-- Every unit of the text stands in the input, besides the closing quote. -/
theorem length_quotedString (h : quotedString text = some (value, rest)) :
    value.length + rest.length < text.length := by
  induction value generalizing text with
  | nil =>
    rcases quotedString_cases h with ⟨rfl, -⟩ | ⟨_, _, _, _, hvalue, _⟩ | ⟨_, _, _, _, hvalue, _⟩
    · simp
    · cases hvalue
    · cases hvalue
  | cons w value ih =>
    rcases quotedString_cases h with ⟨-, hvalue⟩ | ⟨v, text', value', rfl, hvalue, hrest⟩ |
      ⟨u, text', value', rfl, hvalue, -, hrest⟩
    · cases hvalue
    · cases hvalue
      have hlt := ih hrest
      simp only [List.length_cons]
      omega
    · cases hvalue
      have hlt := ih hrest
      simp only [List.length_cons]
      omega

/-- Text that comes back unchanged was plain: an escape takes a unit more than it gives. -/
theorem plain_of_quotedString (h : quotedString (value ++ [quote]) = some (value, rest)) :
    ∀ u ∈ value, Plain u := by
  induction value with
  | nil => exact fun u hu => absurd hu List.not_mem_nil
  | cons w value ih =>
    rcases quotedString_cases h with ⟨-, hvalue⟩ | ⟨v, text', value', htext, hvalue, hrest⟩ |
      ⟨u, text', value', htext, hvalue, hplain, hrest⟩
    · cases hvalue
    · cases hvalue
      have hlt := length_quotedString hrest
      have hlength := congrArg List.length htext
      simp only [List.cons_append, List.length_cons, List.length_append, List.length_nil] at hlength
      omega
    · cases hvalue
      cases htext
      exact List.forall_mem_cons.mpr ⟨hplain, ih hrest⟩

end Library.FieldValue
