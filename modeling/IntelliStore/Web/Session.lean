import IntelliStore.Library.JsonText
import Mathlib.Data.List.Induction
import Mathlib.Logic.Function.Basic

/-! The session that the web client keeps in the storage of the browser. -/

namespace IntelliStore.Web
open Library

structure StoredUser where
  id : String
  email : String
  displayName : String
  deriving DecidableEq

structure StoredSession where
  accessToken : String
  refreshToken : String
  user : StoredUser
  deriving DecidableEq

namespace StoredSession

def toJson (session : StoredSession) : Json :=
  .record [("accessToken", .ofString session.accessToken),
    ("refreshToken", .ofString session.refreshToken),
    ("user", .record [("id", .ofString session.user.id), ("email", .ofString session.user.email),
      ("displayName", .ofString session.user.displayName)])]

def ofJson (v : Json) : Option StoredSession := do
  let accessToken ← (← v.field "accessToken").toString
  let refreshToken ← (← v.field "refreshToken").toString
  let user ← v.field "user"
  let id ← (← user.field "id").toString
  let email ← (← user.field "email").toString
  let displayName ← (← user.field "displayName").toString
  some ⟨accessToken, refreshToken, ⟨id, email, displayName⟩⟩

theorem written_toJson (session : StoredSession) : session.toJson.Written := by
  simp [toJson, Json.written_record]

theorem ofJson_toJson (session : StoredSession) : ofJson session.toJson = some session := by
  simp [ofJson, toJson, Json.field_record]

end StoredSession

/-- The texts of `localStorage`, by key. -/
abbrev LocalStorage := String → Option (List Char)

def storageKey : String := "intellistore.session"

/-- `none` is `null`; a value of another shape is an error here. -/
def getStoredSession (window : Option LocalStorage) : Except Json (Option StoredSession) :=
  match window with
  | none => .ok none
  | some localStorage =>
    match localStorage storageKey with
    | none | some [] => .ok none
    | some raw =>
      match Json.parse raw with
      | none | some .null => .ok none
      | some v =>
        match StoredSession.ofJson v with
        | some session => .ok (some session)
        | none => .error v

def setStoredSession (session : StoredSession) (localStorage : LocalStorage) : LocalStorage :=
  Function.update localStorage storageKey (some session.toJson.stringify)

def clearStoredSession (localStorage : LocalStorage) : LocalStorage :=
  Function.update localStorage storageKey none

/-- What is done to the storage; `other` belongs to another page of the origin. -/
inductive StorageChange where
  | setStoredSession (session : StoredSession)
  | clearStoredSession
  | other (key : String) (value : Option (List Char)) (hkey : key ≠ storageKey)

def StorageChange.apply (localStorage : LocalStorage) : StorageChange → LocalStorage
  | setStoredSession session => Web.setStoredSession session localStorage
  | clearStoredSession => Web.clearStoredSession localStorage
  | other key value _ => Function.update localStorage key value

def browser (changes : List StorageChange) : LocalStorage :=
  changes.foldl StorageChange.apply fun _ => none

/-- The session that was set last, unless it has been cleared since. -/
def StorageChange.session (session : Option StoredSession) : StorageChange → Option StoredSession
  | setStoredSession session => some session
  | clearStoredSession => none
  | other _ _ _ => session

def currentSession (changes : List StorageChange) : Option StoredSession :=
  changes.foldl StorageChange.session none

theorem getStoredSession_set (session : StoredSession) (localStorage : LocalStorage) :
    getStoredSession (some (setStoredSession session localStorage)) = .ok (some session) := by
  have hparse : Json.parse session.toJson.stringify = some session.toJson :=
    Json.parse_stringify session.written_toJson
  have hread : setStoredSession session localStorage storageKey =
      some session.toJson.stringify := Function.update_self ..
  have hopens : ∃ text, session.toJson.stringify = '\x7b' :: text := ⟨_, rfl⟩
  obtain ⟨text, htext⟩ := hopens
  rw [htext] at hparse hread
  have hobject : ∃ members, session.toJson = .object members := ⟨_, rfl⟩
  obtain ⟨members, hmembers⟩ := hobject
  have hof := session.ofJson_toJson
  rw [hmembers] at hparse hof
  simp only [getStoredSession, hread, hparse, hof]

theorem getStoredSession_apply {localStorage : LocalStorage} {session : Option StoredSession}
    (h : getStoredSession (some localStorage) = .ok session) (change : StorageChange) :
    getStoredSession (some (change.apply localStorage)) = .ok (change.session session) := by
  cases change with
  | setStoredSession session => exact getStoredSession_set session localStorage
  | clearStoredSession =>
    have hread : clearStoredSession localStorage storageKey = none := Function.update_self ..
    show getStoredSession (some (clearStoredSession localStorage)) = .ok none
    rw [getStoredSession, hread]
  | other key value hkey =>
    have hread : Function.update localStorage key value storageKey = localStorage storageKey :=
      Function.update_of_ne hkey.symm ..
    show getStoredSession (some (Function.update localStorage key value)) = .ok session
    rw [getStoredSession, hread]
    exact h

/-- A storage that reads as a session, after any changes. -/
theorem getStoredSession_foldl {localStorage : LocalStorage} {session : Option StoredSession}
    (h : getStoredSession (some localStorage) = .ok session) (changes : List StorageChange) :
    getStoredSession (some (changes.foldl StorageChange.apply localStorage)) =
      .ok (changes.foldl StorageChange.session session) := by
  induction changes generalizing localStorage session with
  | nil => exact h
  | cons change changes ih => exact ih (getStoredSession_apply h change)

theorem getStoredSession_browser (changes : List StorageChange) :
    getStoredSession (some (browser changes)) = .ok (currentSession changes) :=
  getStoredSession_foldl rfl changes

end IntelliStore.Web
