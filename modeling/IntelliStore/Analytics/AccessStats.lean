import IntelliStore.Library.AtLeastOnce
import IntelliStore.Library.Tables
import IntelliStore.Metadata.Postgres
import IntelliStore.SharedTypes

/-! The table of `PgAccessStatsRepository` and the file-accessed subscription of
ai-analytics-service. -/

namespace IntelliStore.Analytics
open Library Postgres

structure FileAccessStats where
  fileId : Uuid
  accessCount : Nat
  firstAccessedAt : Option Nat
  lastAccessedAt : Option Nat
  deriving DecidableEq

structure AccessStats where
  rows : List FileAccessStats
  rows_pkey : (rows.map FileAccessStats.fileId).Nodup

namespace AccessStats

def empty : AccessStats := ⟨[], List.nodup_nil⟩

def findByFileId (s : AccessStats) (fileId : Uuid) : Option FileAccessStats :=
  s.rows.find? fun r => r.fileId = fileId

/-- What a file without a row counts as. -/
def accessCount (s : AccessStats) (fileId : Uuid) : Nat :=
  match s.findByFileId fileId with
  | some r => r.accessCount
  | none => 0

/-- `INSERT .. ON CONFLICT (file_id) DO UPDATE SET access_count = access_count + 1, ..`; fails if
the id is no UUID or the count leaves the range of INT. -/
def recordAccess (s : AccessStats) (fileId : String) (accessedAt : Nat) : Option AccessStats :=
  match uuidIn fileId with
  | none => none
  | some id =>
    match h : s.findByFileId id with
    | some r =>
      if isInt4 (r.accessCount + 1) then
        some {
          rows := s.rows.map fun r => if r.fileId = id then
            { r with accessCount := r.accessCount + 1, lastAccessedAt := some accessedAt } else r
          rows_pkey := by
            rw [map_update (f := FileAccessStats.fileId) (g := fun r => { r with
              accessCount := r.accessCount + 1, lastAccessedAt := some accessedAt }) fun _ => rfl]
            exact s.rows_pkey }
      else none
    | none => some {
        rows := s.rows ++ [⟨id, 1, some accessedAt, some accessedAt⟩]
        rows_pkey := nodup_map_concat s.rows_pkey fun hmem => by
          obtain ⟨r, hr, hid⟩ := List.mem_map.mp hmem
          exact List.find?_eq_none.mp h r hr (decide_eq_true hid) }

theorem find_update {l : List FileAccessStats} {id : Uuid} {g : FileAccessStats → FileAccessStats}
    (hg : ∀ r, (g r).fileId = r.fileId) (j : Uuid) :
    (l.map fun r => if r.fileId = id then g r else r).find? (fun r => r.fileId = j) =
      (l.find? fun r => r.fileId = j).map fun r => if j = id then g r else r := by
  induction l with
  | nil => rfl
  | cons r l ih =>
    rw [List.map_cons, List.find?_cons, List.find?_cons]
    have hkey : (if r.fileId = id then g r else r).fileId = r.fileId := by
      split
      · exact hg r
      · rfl
    rw [hkey]
    by_cases hj : r.fileId = j
    · subst hj
      simp
    · simp only [hj, decide_false]
      exact ih

/-- An access that is recorded counts for its file and for no other. -/
theorem recordAccess_count {s t : AccessStats} {fileId : String} {accessedAt : Nat}
    (h : s.recordAccess fileId accessedAt = some t) (j : Uuid) :
    t.accessCount j = s.accessCount j + if uuidIn fileId = some j then 1 else 0 := by
  unfold recordAccess at h
  cases hid : uuidIn fileId with
  | none =>
    rw [hid] at h
    cases h
  | some id =>
    rw [hid] at h
    dsimp only at h
    split at h
    · rename_i r hr
      split_ifs at h
      cases h
      rw [accessCount, findByFileId, find_update (g := fun r => { r with
        accessCount := r.accessCount + 1, lastAccessedAt := some accessedAt }) fun _ => rfl]
      by_cases hj : id = j
      · subst hj
        rw [findByFileId] at hr
        rw [hr, accessCount, findByFileId, hr]
        simp
      · have hj' : j ≠ id := fun h => hj h.symm
        rw [accessCount, findByFileId]
        cases s.rows.find? fun r => r.fileId = j <;> simp [hj, hj']
    · rename_i hnone
      cases h
      rw [accessCount, findByFileId, List.find?_append]
      by_cases hj : id = j
      · subst hj
        rw [findByFileId] at hnone
        rw [hnone, accessCount, findByFileId, hnone]
        simp
      · rw [accessCount, findByFileId]
        cases s.rows.find? fun r => r.fileId = j <;> simp [hj]

end AccessStats

/-! ### The subscription -/

/-- The handler of the file-accessed subscription. -/
def onFileAccessed (event : FileAccessedEvent) (s : AccessStats) : Option AccessStats :=
  s.recordAccess event.fileId event.accessedAt

abbrev AccessPipeline := Subscription FileAccessedEvent AccessStats

def AccessPipeline.init : AccessPipeline := Subscription.init .empty

/-- The event is one of the file. -/
def names (fileId : Uuid) (event : FileAccessedEvent) : Bool := uuidIn event.fileId = some fileId

/-- The table counts the recordings. -/
theorem accessCount_foldlM {recorded : List (Nat × FileAccessedEvent)} {s t : AccessStats}
    (h : recorded.foldlM (fun s p => onFileAccessed p.2 s) s = some t) (fileId : Uuid) :
    t.accessCount fileId = s.accessCount fileId +
      (recorded.filter fun p => names fileId p.2).length := by
  induction recorded generalizing s with
  | nil =>
    cases h
    rfl
  | cons p recorded ih =>
    rw [List.foldlM_cons, Option.bind_eq_bind, Option.bind_eq_some_iff] at h
    obtain ⟨u, hu, h⟩ := h
    rw [ih h, AccessStats.recordAccess_count hu, List.filter_cons]
    by_cases hname : uuidIn p.2.fileId = some fileId
    · simp only [names, hname, decide_true, if_true, List.length_cons]
      omega
    · simp only [names, hname, decide_false, if_false, Bool.false_eq_true]
      omega

/-- Once no message is in flight, the count of a file and the accesses that were lost balance the
events that were published and the recordings that were repeated; an access is lost only if its
message was dropped, and recorded again only if its message was delivered again. -/
theorem access_count_balance (s : AccessPipeline)
    (h : Reach (Subscription.step onFileAccessed) (fun _ _ => True) AccessPipeline.init s)
    (hquiet : s.Quiescent) (fileId : Uuid) :
    s.store.accessCount fileId + (s.lost (names fileId)).length =
        (s.publishedOf (names fileId)).length + s.repeats (names fileId) ∧
      (∀ p ∈ s.lost (names fileId), p ∈ s.dropped) ∧
      (∀ p, 1 < s.recorded.count p → p ∈ s.requeued) ∧
      (s.dropped = [] → s.requeued = [] →
        s.store.accessCount fileId = (s.publishedOf (names fileId)).length) := by
  have hconserved := Subscription.Conserved.of_reach onFileAccessed AccessStats.empty h
  have hcount : s.store.accessCount fileId = (s.recordedOf (names fileId)).length := by
    rw [accessCount_foldlM hconserved.effects, Subscription.recordedOf]
    exact Nat.zero_add _
  have hbalance := hconserved.balance (names fileId)
  rw [← hcount] at hbalance
  refine ⟨hbalance, fun p hp => hconserved.lost_dropped hquiet hp,
    fun p hp => hconserved.repeated_requeued hp, fun hdropped hrequeued => ?_⟩
  have hlost : s.lost (names fileId) = [] := by
    rw [List.eq_nil_iff_forall_not_mem]
    intro p hp
    have hmem := hconserved.lost_dropped hquiet hp
    rw [hdropped] at hmem
    cases hmem
  rw [hlost, hconserved.repeats_eq_zero hrequeued] at hbalance
  exact hbalance

/-! Two downloads of one file. -/

def accessed (versionNumber : Nat) : FileAccessedEvent :=
  ⟨"00000000-0000-0000-0000-00000000000a", 1, "a.txt", 3, versionNumber, versionNumber⟩

/-- The connection is lost before the acknowledgement. -/
def lostAck : List (Subscription.Action FileAccessedEvent) :=
  [.publish (accessed 1) true, .deliver, .handle .succeeds, .disconnect, .deliver,
    .handle .succeeds, .settle]

theorem access_counted_twice :
    ¬∀ s : AccessPipeline,
      Reach (Subscription.step onFileAccessed) (fun _ _ => True) AccessPipeline.init s →
        s.Quiescent → ∀ fileId,
          s.store.accessCount fileId = (s.publishedOf (names fileId)).length := by
  intro h
  have hrun : ∃ s ∈ lostAck.foldlM (fun (s : AccessPipeline) a =>
      if True then s.step onFileAccessed a else none) AccessPipeline.init,
      s.queue = [] ∧ s.current.isNone ∧ s.store.accessCount 10 = 2 ∧
        (s.publishedOf (names 10)).length = 1 := by decide
  obtain ⟨s, hs, hqueue, hcurrent, hcount, hpublished⟩ := hrun
  have heq := h s (reach_of_schedule hs) ⟨hqueue, hcurrent⟩ 10
  rw [hcount, hpublished] at heq
  cases heq

/-- And the handler of the second access fails. -/
def failedHandler : List (Subscription.Action FileAccessedEvent) :=
  lostAck ++ [.publish (accessed 2) true, .deliver, .handle .fails, .settle]

theorem access_count_balance_failed :
    ∃ s : AccessPipeline, s.Quiescent ∧ s.store.accessCount 10 = 2 ∧
      (∀ p ∈ s.lost (names 10), p ∈ s.dropped) ∧
      s.store.accessCount 10 + (s.lost (names 10)).length =
        (s.publishedOf (names 10)).length + s.repeats (names 10) := by
  have hrun : ∃ s ∈ failedHandler.foldlM (fun (s : AccessPipeline) a =>
      if True then s.step onFileAccessed a else none) AccessPipeline.init,
      s.queue = [] ∧ s.current.isNone ∧ s.store.accessCount 10 = 2 := by decide
  obtain ⟨s, hs, hqueue, hcurrent, hcount⟩ := hrun
  have hbalance := access_count_balance s (reach_of_schedule hs) ⟨hqueue, hcurrent⟩ 10
  exact ⟨s, ⟨hqueue, hcurrent⟩, hcount, hbalance.2.1, hbalance.1⟩

end IntelliStore.Analytics
