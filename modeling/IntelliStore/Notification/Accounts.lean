import IntelliStore.Library.Unwinding
import IntelliStore.Notification.Service
import Mathlib.Data.Finset.Union
import Mathlib.Tactic.Tauto

/-! The notifications of an owner over a whole run: how many are unread, and that the other owners
do not matter. -/

namespace IntelliStore.Notification
open Library Postgres
open Metadata (DbError)

abbrev History := List (Op × Except DbError Answer)

/-- The owner of an event. -/
def Call.eventOwner : Call → Option Uuid
  | .chunkUploaded event => some event.ownerId
  | .fileAccessed event => some event.ownerId
  | _ => none

/-- The notifications made for an owner, and those of them it has marked as read. -/
@[ext] structure Account where
  created : Finset Uuid
  marked : Finset Uuid

def Account.note (o : Uuid) (a : Account) (p : Op × Except DbError Answer) : Account :=
  match p.1.call, p.2 with
  | .markRead ownerId notificationId, _ =>
    if ownerId = o then
      { a with marked := a.marked ∪ a.created.filter fun id => uuidIn notificationId = some id }
    else a
  | .markAllRead ownerId, _ =>
    if ownerId = o then { a with marked := a.marked ∪ a.created } else a
  | _, .ok (.created record) =>
    if record.ownerId = o then { a with created := insert record.id a.created } else a
  | _, _ => a

def account (o : Uuid) (past : History) : Account := past.foldl (Account.note o) ⟨∅, ∅⟩

/-- The events handled for an owner. -/
def handled (o : Uuid) (past : History) : Nat :=
  past.countP fun p => p.1.call.eventOwner = some o && p.2.isOk

theorem account_concat (o : Uuid) (past : History) (p : Op × Except DbError Answer) :
    account o (past ++ [p]) = (account o past).note o p := by
  rw [account, List.foldl_append]
  rfl

theorem handled_concat (o : Uuid) (past : History) (p : Op × Except DbError Answer) :
    handled o (past ++ [p]) =
      handled o past + if p.1.call.eventOwner = some o && p.2.isOk then 1 else 0 := by
  rw [handled, List.countP_append, List.countP_singleton]
  rfl

/-! ### The statements -/

namespace Notifications
variable {d d' : Notifications}

/-- A notification that is created is the last row, and is not read. -/
theorem create_ok {id : Uuid} {now : Nat} {input : CreateNotificationInput}
    {row : NotificationRecord} (h : d.create id now input = .ok (row, d')) :
    row.id = id ∧ row.ownerId = input.ownerId ∧ row.isRead = false ∧ d'.rows = d.rows ++ [row] := by
  unfold create at h
  cases hfile : nullableUuid input.fileId with
  | error e =>
    rw [hfile] at h
    cases h
  | ok fileId =>
    rw [hfile] at h
    dsimp only at h
    unfold insert at h
    split_ifs at h
    cases h
    exact ⟨rfl, rfl, rfl, rfl⟩

theorem setRead_count (p : NotificationRecord → Bool) (o : Uuid) :
    ((d.setRead p).2.rows.countP fun r => r.ownerId = o) = d.rows.countP fun r => r.ownerId = o := by
  rw [setRead, List.countP_map]
  refine List.countP_congr fun r _ => ?_
  rw [Function.comp_apply]
  split <;> rfl

/-- An update changes no id and no owner. -/
theorem setRead_owned (p : NotificationRecord → Bool) (id o : Uuid) :
    (∃ r ∈ (d.setRead p).2.rows, r.id = id ∧ r.ownerId = o) ↔
      ∃ r ∈ d.rows, r.id = id ∧ r.ownerId = o := by
  simp only [setRead, List.mem_map, exists_exists_and_eq_and]
  refine exists_congr fun r => and_congr_right fun _ => ?_
  split <;> rfl

theorem setRead_read (p : NotificationRecord → Bool) (id o : Uuid) :
    (∃ r ∈ (d.setRead p).2.rows, r.id = id ∧ r.ownerId = o ∧ r.isRead = true) ↔
      (∃ r ∈ d.rows, r.id = id ∧ r.ownerId = o ∧ r.isRead = true) ∨
        ∃ r ∈ d.rows, r.id = id ∧ r.ownerId = o ∧ p r = true := by
  simp only [setRead, List.mem_map, exists_exists_and_eq_and, ← exists_or]
  refine exists_congr fun r => ?_
  rw [← and_or_left]
  refine and_congr_right fun _ => ?_
  split
  · rename_i hp
    simp only [NotificationRecord.asRead, hp]
    tauto
  · rename_i hp
    simp only [hp, Bool.false_eq_true, and_false, or_false]

end Notifications

/-! ### The invariant -/

/-- What the table holds of an owner is its account. -/
structure Tracks (o : Uuid) (past : History) (d : Notifications) : Prop where
  created : ∀ id, id ∈ (account o past).created ↔ ∃ r ∈ d.rows, r.id = id ∧ r.ownerId = o
  marked : ∀ id, id ∈ (account o past).marked ↔
    ∃ r ∈ d.rows, r.id = id ∧ r.ownerId = o ∧ r.isRead = true
  handled : handled o past = d.rows.countP fun r => r.ownerId = o

variable {o : Uuid} {past : History} {d d' : Notifications}

/-- Calls that neither create nor mark anything. -/
theorem Tracks.same (h : Tracks o past d) {p : Op × Except DbError Answer}
    (hnote : (account o past).note o p = account o past)
    (hp : (p.1.call.eventOwner = some o && p.2.isOk) = false) : Tracks o (past ++ [p]) d := by
  have hhandled := h.handled
  constructor
  case created =>
    rw [account_concat, hnote]
    exact h.created
  case marked =>
    rw [account_concat, hnote]
    exact h.marked
  case handled =>
    rw [handled_concat, hp]
    exact hhandled

theorem Tracks.create (h : Tracks o past d) {p : Op × Except DbError Answer}
    {row : NotificationRecord} (hevent : p.1.call.eventOwner = some row.ownerId)
    (hanswer : p.2 = .ok (.created row)) (hread : row.isRead = false)
    (hrows : d'.rows = d.rows ++ [row]) : Tracks o (past ++ [p]) d' := by
  have hmem : ∀ P : NotificationRecord → Prop,
      (∃ r ∈ d'.rows, P r) ↔ (∃ r ∈ d.rows, P r) ∨ P row := by
    intro P
    rw [hrows]
    simp only [List.mem_append, List.mem_singleton, or_and_right, exists_or, exists_eq_left]
  have hnote : (account o past).note o p = if row.ownerId = o then
      { account o past with created := insert row.id (account o past).created }
      else account o past := by
    obtain ⟨⟨id, now, rank, call⟩, answer⟩ := p
    cases hanswer
    cases call <;> first | rfl | cases hevent
  constructor
  case created =>
    intro id
    rw [account_concat, hnote, hmem, ← h.created]
    split_ifs with ho
    · rw [Finset.mem_insert, or_comm, eq_comm (a := id), and_iff_left ho]
    · rw [iff_false_intro ho, and_false, or_false]
  case marked =>
    intro id
    rw [account_concat, hnote, hmem, ← h.marked, hread]
    split_ifs <;> simp
  case handled =>
    rw [handled_concat, hevent, hanswer, h.handled, hrows, List.countP_append,
      List.countP_singleton]
    by_cases ho : row.ownerId = o <;> simp [ho, Except.isOk, Except.toBool]

/-- An update of rows of `o` and of others, with what is noted of it. -/
theorem Tracks.setRead (h : Tracks o past d) {p : Op × Except DbError Answer}
    (q : NotificationRecord → Bool)
    (hcreated : ((account o past).note o p).created = (account o past).created)
    (hmarked : ∀ id, id ∈ ((account o past).note o p).marked ↔
      id ∈ (account o past).marked ∨ ∃ r ∈ d.rows, r.id = id ∧ r.ownerId = o ∧ q r = true)
    (hp : p.1.call.eventOwner = none) : Tracks o (past ++ [p]) (d.setRead q).2 := by
  constructor
  case created =>
    intro id
    rw [account_concat, hcreated, Notifications.setRead_owned]
    exact h.created id
  case marked =>
    intro id
    rw [account_concat, hmarked, h.marked, Notifications.setRead_read]
  case handled =>
    rw [handled_concat, hp, Notifications.setRead_count]
    exact h.handled

theorem Tracks.commit_create (h : Tracks o past d) {op : Op} {id : Uuid} {now : Nat}
    {input : CreateNotificationInput} (hevent : op.call.eventOwner = some input.ownerId) :
    Tracks o (past ++ [(op, (commit .created d (d.create id now input)).1)])
      (commit .created d (d.create id now input)).2 := by
  cases hcreate : d.create id now input with
  | error e =>
    refine h.same ?_ (Bool.and_false _)
    obtain ⟨_, _, _, call⟩ := op
    cases call with
    | chunkUploaded event => rfl
    | fileAccessed event => rfl
    | _ => cases hevent
  | ok res =>
    obtain ⟨-, howner, hread, hrows⟩ := Notifications.create_ok hcreate
    exact h.create (hevent.trans (congrArg some howner.symm)) rfl hread hrows

/-- A notification is marked as read by its owner. -/
theorem Tracks.markRead (h : Tracks o past d) {op : Op} {ownerId : Uuid} {notificationId : String}
    (hcall : op.call = .markRead ownerId notificationId) :
    Tracks o (past ++ [(op, (commit .found d (d.markRead ownerId notificationId)).1)])
      (commit .found d (d.markRead ownerId notificationId)).2 := by
  obtain ⟨id, now, rank, call⟩ := op
  cases hcall
  cases hid : uuidIn notificationId with
  | none =>
    simp only [Notifications.markRead, hid, commit]
    apply h.same
    · simp [Account.note, hid]
    · rfl
  | some nid =>
    simp only [Notifications.markRead, hid, commit]
    refine h.setRead _ ?_ (fun id => ?_) rfl
    · simp only [Account.note]
      split_ifs <;> rfl
    · simp only [Account.note, hid, Option.some_inj, decide_eq_true_eq]
      split_ifs with ho
      · subst ho
        rw [Finset.mem_union, Finset.mem_filter, h.created]
        apply or_congr_right
        constructor
        · rintro ⟨⟨r, hr, hrid, hro⟩, rfl⟩
          exact ⟨r, hr, hrid, hro, hrid, hro⟩
        · rintro ⟨r, hr, hrid, hro, hnid, -⟩
          exact ⟨⟨r, hr, hrid, hro⟩, hnid.symm.trans hrid⟩
      · refine (or_iff_left ?_).symm
        rintro ⟨r, -, -, hro, -, hro'⟩
        exact ho (hro'.symm.trans hro)

theorem Tracks.markAllRead (h : Tracks o past d) {op : Op} {ownerId : Uuid} {answer : Answer}
    (hcall : op.call = .markAllRead ownerId) :
    Tracks o (past ++ [(op, .ok answer)]) (d.markAllRead ownerId).2 := by
  obtain ⟨id, now, rank, call⟩ := op
  cases hcall
  rw [Notifications.markAllRead]
  refine h.setRead _ ?_ (fun id => ?_) rfl
  · simp only [Account.note]
    split_ifs <;> rfl
  · simp only [Account.note, decide_eq_true_eq]
    split_ifs with ho
    · subst ho
      rw [Finset.mem_union, h.created, h.marked]
      constructor
      · rintro (hread | ⟨r, hr, hrid, hro⟩)
        · exact .inl hread
        · cases hread : r.isRead with
          | true => exact .inl ⟨r, hr, hrid, hro, hread⟩
          | false => exact .inr ⟨r, hr, hrid, hro, hro, hread⟩
      · rintro (hread | ⟨r, hr, hrid, hro, -⟩)
        · exact .inl hread
        · exact .inr ⟨r, hr, hrid, hro⟩
    · refine (or_iff_left ?_).symm
      rintro ⟨r, -, -, hro, hro', -⟩
      exact ho (hro'.symm.trans hro)

theorem Tracks.step (h : Tracks o past d) (listLimit : Nat) (op : Op) :
    Tracks o (past ++ [(op, (step listLimit d op).1)]) (step listLimit d op).2 := by
  obtain ⟨id, now, rank, call⟩ := op
  cases call with
  | chunkUploaded event => exact h.commit_create rfl
  | fileAccessed event => exact h.commit_create rfl
  | list ownerId => exact h.same rfl rfl
  | markRead ownerId notificationId => exact h.markRead rfl
  | markAllRead ownerId => exact h.markAllRead rfl

theorem tracks_run (listLimit : Nat) (ops : List Op) (o : Uuid) :
    Tracks o (answers (step listLimit) .empty ops) (finalState (step listLimit) .empty ops) :=
  answers_history (Tracks o) (fun _ _ op _ h => h.step listLimit op)
    (guarded_of_forall (G := fun _ => True) fun _ _ => trivial)
    ⟨fun id => by simp [account, Notifications.empty],
      fun id => by simp [account, Notifications.empty], rfl⟩

/-- The unread and the marked notifications of an owner are those of the events handled for it. -/
theorem unreadCount_add_marked (h : Tracks o past d) :
    d.unreadCount o + (account o past).marked.card = handled o past := by
  have hmarked : (account o past).marked =
      ((d.rows.filter fun r => r.ownerId = o ∧ r.isRead = true).map
        NotificationRecord.id).toFinset := by
    ext id
    simp only [h.marked, List.mem_toFinset, List.mem_map, List.mem_filter, decide_eq_true_eq]
    exact exists_congr fun r => by tauto
  have hnodup := d.notifications_pkey.sublist
    ((List.filter_sublist (p := fun r => r.ownerId = o ∧ r.isRead = true)).map
      NotificationRecord.id)
  rw [hmarked, List.toFinset_card_of_nodup hnodup, List.length_map, ← List.countP_eq_length_filter,
    h.handled, Notifications.unreadCount]
  have hsplit : ∀ l : List NotificationRecord,
      (l.countP fun r => r.ownerId = o ∧ r.isRead = false) +
        (l.countP fun r => r.ownerId = o ∧ r.isRead = true) = l.countP fun r => r.ownerId = o := by
    intro l
    induction l with
    | nil => rfl
    | cons r l ih =>
      simp only [List.countP_cons, ← ih]
      cases r.isRead <;> by_cases ho : r.ownerId = o <;> simp [ho] <;> omega
  exact hsplit d.rows

/-! ### The other owners -/

/-- `t` holds what `s` holds of the owner. -/
def OwnPart (o : Uuid) (s t : Notifications) : Prop :=
  t.rows = s.rows.filter fun r => r.ownerId = o

/-- The owner that observes a call. -/
def Op.ownedBy (o : Uuid) (op : Op) : Bool := op.call.owner = o

/-- The rows of an owner after an update. -/
theorem filter_setRead (q : NotificationRecord → Bool) :
    ((d.setRead q).2.rows.filter fun r => r.ownerId = o) =
      (d.rows.filter fun r => r.ownerId = o).map fun r => if q r then r.asRead else r := by
  rw [Notifications.setRead, List.filter_map]
  refine congrArg _ (List.filter_congr fun r _ => ?_)
  rw [Function.comp_apply]
  split <;> rfl

namespace OwnPart
variable {s t : Notifications} (h : OwnPart o s t)
include h

theorem setRead_other {q : NotificationRecord → Bool} (hq : ∀ r, q r = true → r.ownerId ≠ o) :
    OwnPart o (s.setRead q).2 t := by
  have hsame : (s.rows.filter fun r => r.ownerId = o).map (fun r => if q r then r.asRead else r) =
      (s.rows.filter fun r => r.ownerId = o).map id := by
    refine List.map_congr_left fun r hr => if_neg fun hqr => hq r hqr ?_
    exact of_decide_eq_true (List.mem_filter.mp hr).2
  rw [OwnPart, h, filter_setRead, hsame, List.map_id]

theorem setRead_own {q : NotificationRecord → Bool} (hq : ∀ r, q r = true → r.ownerId = o) :
    (s.setRead q).1 = (t.setRead q).1 ∧ OwnPart o (s.setRead q).2 (t.setRead q).2 := by
  constructor
  · have hrows : t.rows = s.rows.filter fun r => r.ownerId = o := h
    change s.rows.countP q = t.rows.countP q
    rw [hrows, List.countP_filter]
    refine List.countP_congr fun r _ => ?_
    rw [Bool.and_eq_true, decide_eq_true_eq]
    exact ⟨fun hr => ⟨hr, hq r hr⟩, fun hr => hr.1⟩
  · rw [OwnPart, filter_setRead, ← h]
    rfl

theorem create_other {id : Uuid} {now : Nat} {input : CreateNotificationInput}
    (ho : input.ownerId ≠ o) : OwnPart o (commit .created s (s.create id now input)).2 t := by
  cases hcreate : s.create id now input with
  | error e => exact h
  | ok res =>
    obtain ⟨-, howner, -, hrows⟩ := Notifications.create_ok hcreate
    rw [← howner] at ho
    simp only [OwnPart, commit, hrows, List.filter_append, h.symm]
    simp [ho]

theorem create_own {id : Uuid} {now : Nat} {input : CreateNotificationInput}
    (ho : input.ownerId = o) (hid : id ∉ s.rows.map NotificationRecord.id) :
    (commit .created s (s.create id now input)).1 = (commit .created t (t.create id now input)).1 ∧
      OwnPart o (commit .created s (s.create id now input)).2
        (commit .created t (t.create id now input)).2 := by
  have hid' : id ∉ t.rows.map NotificationRecord.id := by
    intro hmem
    rw [h] at hmem
    exact hid ((List.filter_sublist.map _).mem hmem)
  unfold Notifications.create
  cases hfile : Notifications.nullableUuid input.fileId with
  | error e => exact ⟨rfl, h⟩
  | ok fileId =>
    dsimp only
    unfold Notifications.insert
    dsimp only
    by_cases htext : (isText input.type && isText input.message) = true
    · rw [if_pos htext, if_pos htext, dif_neg (mt List.contains_iff_mem.mp hid),
        dif_neg (mt List.contains_iff_mem.mp hid')]
      refine ⟨rfl, ?_⟩
      simp only [OwnPart, commit, List.filter_append, h.symm]
      simp [ho]
    · rw [if_neg htext, if_neg htext]
      exact ⟨rfl, h⟩

end OwnPart

theorem OwnPart.step_other {s t : Notifications} (h : OwnPart o s t) (listLimit : Nat) {op : Op}
    (ho : op.ownedBy o = false) : OwnPart o (step listLimit s op).2 t := by
  obtain ⟨id, now, rank, call⟩ := op
  have hne : call.owner ≠ o := of_decide_eq_false ho
  cases call with
  | chunkUploaded event => exact h.create_other hne
  | fileAccessed event => exact h.create_other hne
  | list ownerId => exact h
  | markRead ownerId notificationId =>
    cases hid : uuidIn notificationId with
    | none =>
      simp only [step, Notifications.markRead, hid, commit]
      exact h
    | some nid =>
      simp only [step, Notifications.markRead, hid, commit]
      refine h.setRead_other fun r hr hro => hne ?_
      exact (of_decide_eq_true hr).2.symm.trans hro
  | markAllRead ownerId =>
    refine h.setRead_other fun r hr hro => hne ?_
    exact (of_decide_eq_true hr).1.symm.trans hro

theorem OwnPart.step_own {s t : Notifications} (h : OwnPart o s t) (listLimit : Nat) {op : Op}
    (ho : op.ownedBy o = true) (hfresh : ∀ id ∈ op.newIds, id ∉ s.rows.map NotificationRecord.id) :
    (step listLimit s op).1 = (step listLimit t op).1 ∧
      OwnPart o (step listLimit s op).2 (step listLimit t op).2 := by
  obtain ⟨id, now, rank, call⟩ := op
  have heq : call.owner = o := of_decide_eq_true ho
  cases call with
  | chunkUploaded event => exact h.create_own heq (hfresh id (List.mem_singleton_self id))
  | fileAccessed event => exact h.create_own heq (hfresh id (List.mem_singleton_self id))
  | list ownerId =>
    refine ⟨?_, h⟩
    have hrows : t.rows = s.rows.filter fun r => r.ownerId = o := h
    change ownerId = o at heq
    subst heq
    have hlist : s.listByOwner rank ownerId listLimit = t.listByOwner rank ownerId listLimit := by
      simp only [Notifications.listByOwner, hrows, List.filter_filter, Bool.and_self]
    have hunread : s.unreadCount ownerId = t.unreadCount ownerId := by
      rw [Notifications.unreadCount, Notifications.unreadCount, hrows, List.countP_filter]
      refine List.countP_congr fun r _ => ?_
      simp only [Bool.and_eq_true, decide_eq_true_eq]
      exact ⟨fun hr => ⟨hr, hr.1⟩, fun hr => hr.1⟩
    simp only [step, NotificationService.list, hlist, hunread]
  | markRead ownerId notificationId =>
    cases hid : uuidIn notificationId with
    | none =>
      simp only [step, Notifications.markRead, hid, commit]
      exact ⟨trivial, h⟩
    | some nid =>
      obtain ⟨hcount, hpart⟩ := h.setRead_own (q := fun r => r.id = nid ∧ r.ownerId = ownerId)
        fun r hr => (of_decide_eq_true hr).2.trans heq
      simp only [step, Notifications.markRead, hid, commit, hcount]
      exact ⟨trivial, hpart⟩
  | markAllRead ownerId =>
    obtain ⟨hcount, hpart⟩ := h.setRead_own (q := fun r => r.ownerId = ownerId ∧ r.isRead = false)
      fun r hr => (of_decide_eq_true hr).1.trans heq
    simp only [step, Notifications.markAllRead, hcount]
    exact ⟨trivial, hpart⟩

def Notifications.ids (d : Notifications) : Set Uuid := {id | id ∈ d.rows.map NotificationRecord.id}

theorem create_ids {id : Uuid} {now : Nat} {input : CreateNotificationInput} :
    (commit .created d (d.create id now input)).2.ids ⊆ d.ids ∪ {i | i ∈ [id]} := by
  intro i hi
  cases hcreate : d.create id now input with
  | error e =>
    rw [hcreate] at hi
    exact .inl hi
  | ok res =>
    obtain ⟨hid, -, -, hrows⟩ := Notifications.create_ok hcreate
    rw [hcreate] at hi
    have hi' : i ∈ res.2.rows.map NotificationRecord.id := hi
    rw [hrows, List.map_append, List.mem_append, List.map_singleton, hid] at hi'
    exact hi'

theorem setRead_ids (q : NotificationRecord → Bool) : (d.setRead q).2.ids = d.ids := by
  have hmap : (d.setRead q).2.rows.map NotificationRecord.id = d.rows.map NotificationRecord.id :=
    map_update (g := NotificationRecord.asRead) (fun _ => rfl) _ _
  rw [Notifications.ids, hmap]
  rfl

theorem step_ids (listLimit : Nat) (d : Notifications) (op : Op) :
    (step listLimit d op).2.ids ⊆ d.ids ∪ {i | i ∈ op.newIds} := by
  obtain ⟨id, now, rank, call⟩ := op
  cases call with
  | chunkUploaded event => exact create_ids
  | fileAccessed event => exact create_ids
  | list ownerId => exact Set.subset_union_left
  | markRead ownerId notificationId =>
    cases hid : uuidIn notificationId with
    | none =>
      simp only [step, Notifications.markRead, hid, commit]
      exact Set.subset_union_left
    | some nid =>
      simp only [step, Notifications.markRead, hid, commit, setRead_ids]
      exact Set.subset_union_left
  | markAllRead ownerId =>
    simp only [step, Notifications.markAllRead, setRead_ids]
    exact Set.subset_union_left

/-- The ids of a run's new notifications are new when they are used. -/
theorem guarded_newIds {ops : List Op} (listLimit : Nat) (hids : (ops.flatMap Op.newIds).Nodup) :
    Guarded (step listLimit)
      (fun s op => op.newIds.Nodup ∧ ∀ id ∈ op.newIds, id ∉ s.ids) .empty ops :=
  guarded_fresh Notifications.ids Op.newIds (fun d op => step_ids listLimit d op)
    (fun _ _ hmem => by cases hmem) hids

/-! ### Any run -/

/-- At the end of a run, what an owner has not read is what was made for it and not marked by it,
`markAllRead` would return this number, and the answers to the owner are those of the run of its
own events and calls. -/
structure AddUp (listLimit : Nat) (ops : List Op) (o : Uuid) : Prop where
  unread : (finalState (step listLimit) .empty ops).unreadCount o +
    (account o (answers (step listLimit) .empty ops)).marked.card =
      handled o (answers (step listLimit) .empty ops)
  marksAll : ∀ id now rank,
    (step listLimit (finalState (step listLimit) .empty ops) ⟨id, now, rank, .markAllRead o⟩).1 =
      .ok (.updated ((finalState (step listLimit) .empty ops).unreadCount o))
  isolated : (ops.flatMap Op.newIds).Nodup →
    (answers (step listLimit) .empty ops).filter (fun p => p.1.ownedBy o) =
      answers (step listLimit) .empty (ops.filter (Op.ownedBy o))

theorem notifications_add_up (listLimit : Nat) (ops : List Op) (o : Uuid) :
    AddUp listLimit ops o := by
  refine ⟨unreadCount_add_marked (tracks_run listLimit ops o), fun _ _ _ => rfl, fun hids => ?_⟩
  refine answers_purge (OwnPart o) (Op.ownedBy o) ?_ ?_ (guarded_newIds listLimit hids) rfl
  · intro s t op h _ ho
    exact h.step_other listLimit ho
  · intro s t op h hfresh ho
    exact h.step_own listLimit ho hfresh.2

/-! Owner 1 uploads, owner 2 downloads, and both mark the notification of owner 1 as read. -/

def sampleRun : List Op :=
  [⟨11, 1, fun _ => 0, .chunkUploaded ⟨uuidOut 7, 1, "report.pdf", 8, 1, []⟩⟩,
    ⟨12, 2, fun _ => 0, .fileAccessed ⟨uuidOut 9, 2, "notes.txt", 10, 1, 2⟩⟩,
    ⟨0, 3, fun _ => 0, .markRead 2 (uuidOut 11)⟩, ⟨0, 4, fun _ => 0, .markRead 1 (uuidOut 11)⟩]

theorem notifications_add_up_sampleRun :
    (answers (step 50) .empty sampleRun).filter (fun p => p.1.ownedBy 1) =
      answers (step 50) .empty (sampleRun.filter (Op.ownedBy 1)) :=
  (notifications_add_up 50 sampleRun 1).isolated (by decide)

end IntelliStore.Notification
