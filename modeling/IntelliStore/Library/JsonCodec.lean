import IntelliStore.Library.JsonText

/-! Types whose values are written as JSON and read back. -/

namespace Library

structure JsonCodec (α : Type) where
  write : α → Json
  read : Json → Option α
  written : ∀ a, (write a).Written
  read_write : ∀ a, read (write a) = some a

namespace JsonCodec
variable {α β : Type} (c : JsonCodec α)

def encode (a : α) : List UInt8 := utf8Encode (c.write a).stringify

theorem parse_encode (a : α) : Json.parse (utf8Decode (c.encode a)) = some (c.write a) := by
  rw [encode, utf8Decode_encode, Json.parse_stringify (c.written a)]

def nat : JsonCodec Nat where
  write := Json.ofNat
  read := Json.toNat
  written := Json.written_ofNat
  read_write := Json.toNat_ofNat

def string : JsonCodec String where
  write := Json.ofString
  read := Json.toString
  written := Json.written_ofString
  read_write := Json.toString_ofString

def bool : JsonCodec Bool where
  write := Json.bool
  read
    | .bool b => some b
    | _ => none
  written b := by simp only [Json.Written]
  read_write _ := rfl

/-- Values that are written as texts. -/
def text (toText : α → String) (ofText : String → Option α)
    (h : ∀ a, ofText (toText a) = some a) : JsonCodec α where
  write a := Json.ofString (toText a)
  read v := v.toString.bind ofText
  written a := Json.written_ofString (toText a)
  read_write a := by rw [Json.toString_ofString, Option.bind_some, h]

/-- A value or `null`. -/
def nullable (h : c.read .null = none) : JsonCodec (Option α) where
  write
    | none => .null
    | some a => c.write a
  read
    | .null => some none
    | v => (c.read v).map some
  written
    | none => by simp only [Json.Written]
    | some a => c.written a
  read_write
    | none => rfl
    | some a => by
      have hread := c.read_write a
      show (match c.write a with
        | .null => some none
        | v => (c.read v).map some) = some (some a)
      cases hwrite : c.write a with
      | null =>
        rw [hwrite, h] at hread
        cases hread
      | _ =>
        rw [hwrite] at hread
        exact congrArg (Option.map some) hread

theorem mapM_read_write (as : List α) : (as.map c.write).mapM c.read = some as := by
  induction as with
  | nil => rfl
  | cons a as ih =>
    rw [List.map_cons, List.mapM_cons, c.read_write, ih]
    rfl

def list : JsonCodec (List α) where
  write as := .array (as.map c.write)
  read v := v.toList.bind fun items => items.mapM c.read
  written as := by
    rw [Json.written_array]
    intro v hv
    obtain ⟨a, -, rfl⟩ := List.mem_map.mp hv
    exact c.written a
  read_write as := c.mapM_read_write as

/-- The member of an object. -/
def field (key : String) (v : Json) : Option α := (v.field key).bind c.read

end JsonCodec
end Library
