import IntelliStore.Metadata.Database

/-! The `users` table and `PgUserRepository`. -/

namespace IntelliStore.Auth
open Library Postgres
open Metadata (DbError)

structure UserRecord where
  id : Uuid
  email : String
  passwordHash : String
  displayName : String
  createdAt : Nat
  updatedAt : Nat
  deriving DecidableEq

structure CreateUserInput where
  email : String
  passwordHash : String
  displayName : String

@[ext] structure Users where
  rows : List UserRecord
  users_pkey : (rows.map UserRecord.id).Nodup
  users_email_key : (rows.map UserRecord.email).Nodup
  users_email_text : ∀ r ∈ rows, isText r.email = true

namespace Users

def empty : Users := ⟨[], List.nodup_nil, List.nodup_nil, by simp⟩

def findByEmail (d : Users) (email : String) : Except DbError (Option UserRecord) :=
  if isText email then .ok (d.rows.find? (·.email == email)) else .error .invalidText

def findById (d : Users) (id : String) : Except DbError (Option UserRecord) :=
  match uuidIn id with
  | none => .error .invalidUuid
  | some id => .ok (d.rows.find? (·.id == id))

def insert (d : Users) (row : UserRecord) : Except DbError Users :=
  if htext : isText row.email && isText row.passwordHash && isText row.displayName then
    if hid : (d.rows.map UserRecord.id).contains row.id then .error .uniqueViolation
    else if hemail : (d.rows.map UserRecord.email).contains row.email then .error .uniqueViolation
    else .ok {
      rows := d.rows ++ [row]
      users_pkey := nodup_map_concat d.users_pkey (mt List.contains_iff_mem.mpr hid)
      users_email_key := nodup_map_concat d.users_email_key (mt List.contains_iff_mem.mpr hemail)
      users_email_text := List.forall_mem_append.mpr ⟨d.users_email_text,
        List.forall_mem_singleton.mpr (by
          rw [Bool.and_eq_true, Bool.and_eq_true] at htext
          exact htext.1.1)⟩ }
  else .error .invalidText

def create (d : Users) (id : Uuid) (now : Nat) (input : CreateUserInput) :
    Except DbError (UserRecord × Users) := do
  let row : UserRecord := ⟨id, input.email, input.passwordHash, input.displayName, now, now⟩
  let d' ← d.insert row
  return (row, d')

variable {d d' : Users}

theorem insert_ok {row : UserRecord} (h : d.insert row = .ok d') :
    d'.rows = d.rows ++ [row] := by
  unfold insert at h
  split_ifs at h
  cases h
  rfl

theorem isText_of_insert {row : UserRecord} (h : d.insert row = .ok d') :
    isText row.email = true ∧ isText row.passwordHash = true ∧ isText row.displayName = true := by
  unfold insert at h
  split_ifs at h with htext
  rw [Bool.and_eq_true, Bool.and_eq_true] at htext
  exact ⟨htext.1.1, htext.1.2, htext.2⟩

theorem insert_of_new {row : UserRecord} (hid : row.id ∉ d.rows.map UserRecord.id)
    (hemail : row.email ∉ d.rows.map UserRecord.email) (hrow : isText row.email = true)
    (hhash : isText row.passwordHash = true) (hname : isText row.displayName = true) :
    ∃ d', d.insert row = .ok d' := by
  unfold insert
  rw [dif_pos (by rw [hrow, hhash, hname]; rfl), dif_neg (mt List.contains_iff_mem.mp hid),
    dif_neg (mt List.contains_iff_mem.mp hemail)]
  exact ⟨_, rfl⟩

theorem create_ok {id : Uuid} {now : Nat} {input : CreateUserInput} {row : UserRecord}
    (h : d.create id now input = .ok (row, d')) :
    row = ⟨id, input.email, input.passwordHash, input.displayName, now, now⟩ ∧
      d'.rows = d.rows ++ [row] := by
  unfold create at h
  dsimp only [bind, Except.bind, pure, Except.pure] at h
  cases hinsert : d.insert ⟨id, input.email, input.passwordHash, input.displayName, now, now⟩ with
  | error e =>
    rw [hinsert] at h
    cases h
  | ok d₁ =>
    rw [hinsert] at h
    cases h
    exact ⟨rfl, insert_ok hinsert⟩

theorem email_unique (d : Users) {r r' : UserRecord} (hr : r ∈ d.rows) (hr' : r' ∈ d.rows)
    (h : r.email = r'.email) : r = r' := List.inj_on_of_nodup_map d.users_email_key hr hr' h

theorem id_unique (d : Users) {r r' : UserRecord} (hr : r ∈ d.rows) (hr' : r' ∈ d.rows)
    (h : r.id = r'.id) : r = r' := List.inj_on_of_nodup_map d.users_pkey hr hr' h

/-- An account is found under its email. -/
theorem findByEmail_eq_some {email : String} {row : UserRecord} :
    d.findByEmail email = .ok (some row) ↔ row ∈ d.rows ∧ row.email = email := by
  unfold findByEmail
  constructor
  · intro h
    split_ifs at h with htext
    have hfind := Except.ok.inj h
    exact ⟨List.mem_of_find?_eq_some hfind, by simpa using List.find?_some hfind⟩
  · rintro ⟨hrow, rfl⟩
    rw [if_pos (d.users_email_text row hrow)]
    cases hfind : d.rows.find? (·.email == row.email) with
    | none => exact absurd (List.find?_eq_none.mp hfind row hrow) (by simp)
    | some row' =>
      have hemail : row'.email = row.email := by simpa using List.find?_some hfind
      rw [d.email_unique (List.mem_of_find?_eq_some hfind) hrow hemail]

theorem findById_uuidOut {row : UserRecord} (hrow : row ∈ d.rows) :
    d.findById (uuidOut row.id) = .ok (some row) := by
  simp only [findById, uuidIn_uuidOut]
  cases hfind : d.rows.find? (·.id == row.id) with
  | none => exact absurd (List.find?_eq_none.mp hfind row hrow) (by simp)
  | some row' =>
    have hid : row'.id = row.id := by simpa using List.find?_some hfind
    rw [d.id_unique (List.mem_of_find?_eq_some hfind) hrow hid]

end Users
end IntelliStore.Auth
