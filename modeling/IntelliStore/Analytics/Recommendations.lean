import IntelliStore.Analytics.RecordingOrder
import IntelliStore.Analytics.Temperature
import IntelliStore.Library.InsertionMap
import IntelliStore.Metadata.Totals

/-! `getFileRecommendations` and the temperature breakdown of `getOverview`, over the files that
metadata-service lists and the table of the access counts. -/

noncomputable section

namespace IntelliStore.Analytics
open Library Postgres Metadata

/-- The rows of `file_id = ANY($1)`, in an order that is not determined. -/
def AccessStats.findByFileIds (s : AccessStats) (rank : FileAccessStats → Nat)
    (fileIds : List Uuid) : List FileAccessStats :=
  if fileIds = [] then []
  else anyOrder rank (s.rows.filter fun r => fileIds.any fun id => r.fileId = id)

structure FileRecommendation where
  fileId : Uuid
  fileName : String
  sizeBytes : ℕ
  accessCount : ℕ
  lastAccessedAt : Option ℕ
  temperature : TemperatureResult

/-- What is said about one file; `now` is the clock when it is scored. -/
def recommend (options : ScoringOptions) (now : ℤ) (stat : Option FileAccessStats)
    (entry : FileWithLatestVersion) : FileRecommendation :=
  let accessCount := (stat.map FileAccessStats.accessCount).getD 0
  let lastAccessedAt := stat.bind FileAccessStats.lastAccessedAt
  { fileId := entry.file.id
    fileName := entry.file.fileName
    sizeBytes := (entry.latestVersion.map FileVersionRecord.sizeBytes).getD 0
    accessCount := accessCount
    lastAccessedAt := lastAccessedAt
    temperature := scoreFileTemperature now
      ⟨entry.file.createdAt, accessCount, lastAccessedAt.map fun t : ℕ => (t : ℤ), none⟩ options }

/-- The order of the sort, which is stable. -/
def colder (a b : FileRecommendation) : Prop := a.temperature.score ≤ b.temperature.score

instance : DecidableRel colder := fun a b =>
  inferInstanceAs (Decidable (a.temperature.score ≤ b.temperature.score))

/-- Every file is scored by a clock of its own. -/
def getFileRecommendations (options : ScoringOptions) (clock : Uuid → ℤ)
    (rank : FileAccessStats → Nat) (files : List FileWithLatestVersion) (s : AccessStats) :
    List FileRecommendation :=
  let stats := s.findByFileIds rank (files.map fun entry => entry.file.id)
  let statsByFileId := stats.foldl (fun m r => m.set r.fileId r) InsertionMap.empty
  (files.map fun entry => recommend options (clock entry.file.id)
    (statsByFileId.get entry.file.id) entry).insertionSort colder

def isHot (r : FileRecommendation) : Bool := r.temperature.tier = .hot

structure FileTemperatureBreakdown where
  hot : ℕ
  cold : ℕ

def fileTemperatureBreakdown (recommendations : List FileRecommendation) :
    FileTemperatureBreakdown :=
  let hot := (recommendations.filter isHot).length
  ⟨hot, recommendations.length - hot⟩

variable {options : ScoringOptions} {clock : Uuid → ℤ} {rank : FileAccessStats → Nat}
  {files : List FileWithLatestVersion} {s : AccessStats}

/-! ### The listing by the rows themselves -/

theorem AccessStats.findByFileId_eq_some {id : Uuid} {r : FileAccessStats} :
    s.findByFileId id = some r ↔ r ∈ s.rows ∧ r.fileId = id := by
  constructor
  · intro h
    have hkey := List.find?_some h
    exact ⟨List.mem_of_find?_eq_some h, of_decide_eq_true hkey⟩
  · intro h
    cases hfind : s.findByFileId id with
    | none =>
      have hne := List.find?_eq_none.mp hfind r h.1
      exact absurd (decide_eq_true h.2) hne
    | some r' =>
      have hfound := List.find?_some hfind
      have hkey : r'.fileId = id := of_decide_eq_true hfound
      have hmem := List.mem_of_find?_eq_some hfind
      rw [List.inj_on_of_nodup_map s.rows_pkey hmem h.1 (hkey.trans h.2.symm)]

/-- Among the rows found, the row of a file is the one of the table. -/
theorem get_statsByFileId {fileIds : List Uuid} {id : Uuid} (hid : id ∈ fileIds) :
    ((s.findByFileIds rank fileIds).foldl (fun m r => m.set r.fileId r)
      InsertionMap.empty).get id = s.findByFileId id := by
  have hmem : ∀ r, r ∈ s.findByFileIds rank fileIds ↔ r ∈ s.rows ∧ r.fileId ∈ fileIds := by
    intro r
    have hne : fileIds ≠ [] := List.ne_nil_of_mem hid
    rw [AccessStats.findByFileIds, if_neg hne, mem_anyOrder, List.mem_filter, List.any_eq_true]
    simp only [decide_eq_true_eq, exists_eq_right']
  have hkeys : ∀ x ∈ s.findByFileIds rank fileIds, ∀ y ∈ s.findByFileIds rank fileIds,
      x.fileId = y.fileId → x = y := by
    intro x hx y hy hkey
    exact List.inj_on_of_nodup_map s.rows_pkey ((hmem x).mp hx).1 ((hmem y).mp hy).1 hkey
  apply Option.ext
  intro r
  rw [InsertionMap.get_eq_some, InsertionMap.mem_entries_foldl_set hkeys, List.mem_map,
    AccessStats.findByFileId_eq_some]
  constructor
  · rintro ⟨r', hr', heq⟩
    rw [Prod.mk.injEq] at heq
    rw [← heq.2]
    exact ⟨((hmem r').mp hr').1, heq.1⟩
  · intro h
    have hfound : r ∈ s.findByFileIds rank fileIds := (hmem r).mpr ⟨h.1, h.2 ▸ hid⟩
    exact ⟨r, hfound, by rw [h.2]⟩

theorem getFileRecommendations_eq : getFileRecommendations options clock rank files s =
    (files.map fun entry => recommend options (clock entry.file.id)
      (s.findByFileId entry.file.id) entry).insertionSort colder := by
  have hrows : ∀ entry ∈ files, recommend options (clock entry.file.id)
      (((s.findByFileIds rank (files.map fun entry => entry.file.id)).foldl
        (fun m r => m.set r.fileId r) InsertionMap.empty).get entry.file.id) entry =
      recommend options (clock entry.file.id) (s.findByFileId entry.file.id) entry := by
    intro entry hentry
    rw [get_statsByFileId (List.mem_map_of_mem hentry)]
  rw [getFileRecommendations]
  exact congrArg _ (List.map_congr_left hrows)

theorem getFileRecommendations_perm : (getFileRecommendations options clock rank files s).Perm
    (files.map fun entry => recommend options (clock entry.file.id)
      (s.findByFileId entry.file.id) entry) := by
  rw [getFileRecommendations_eq]
  exact List.perm_insertionSort _ _

instance : Std.Total colder :=
  ⟨fun a b => le_total a.temperature.score b.temperature.score⟩

instance : IsTrans FileRecommendation colder := ⟨fun _ _ _ hab hbc => le_trans hab hbc⟩

/-- Equally warm files keep their places. -/
theorem filter_score (score : ℤ) (listed : List FileRecommendation) :
    (listed.insertionSort colder).filter (·.temperature.score = score) =
      listed.filter (·.temperature.score = score) := by
  rw [filter_insertionSort]
  apply List.Pairwise.insertionSort_eq
  apply List.Pairwise.imp_of_mem _ (List.pairwise_of_forall fun _ _ => trivial)
  intro a b ha hb _
  have hscore : ∀ r ∈ listed.filter (·.temperature.score = score), r.temperature.score = score :=
    fun r hr => of_decide_eq_true (List.mem_filter.mp hr).2
  exact (hscore a ha).trans (hscore b hb).symm |>.le

theorem listFiles_ids_nodup (d : Database) (ownerId : Uuid) :
    ((FileService.listFiles d ownerId).map fun entry => entry.file.id).Nodup := by
  have hids : ((FileService.listFiles d ownerId).map fun entry => entry.file.id) =
      (d.listFilesByOwner ownerId).map FileRecord.id := by
    rw [FileService.listFiles, FileService.withLatestVersions, List.map_map]
    rfl
  have hperm : (d.listFilesByOwner ownerId).Perm
      (d.files.filter fun f => f.ownerId == ownerId && !f.isDeleted) := List.perm_insertionSort _ _
  rw [hids, (hperm.map FileRecord.id).nodup_iff]
  exact d.files_pkey.sublist (List.filter_sublist.map _)

/-- What a user is told about the files: each live file of the user once, by its own row and
whatever the order of the rows, the coldest first, and equally warm files as they are listed. -/
theorem recommendations_exact (options : ScoringOptions) (clock : Uuid → ℤ)
    (rank : FileAccessStats → Nat) (d : Database) (ownerId : Uuid) (s : AccessStats) :
    let result := getFileRecommendations options clock rank (FileService.listFiles d ownerId) s
    let listed := (FileService.listFiles d ownerId).map fun entry =>
      recommend options (clock entry.file.id) (s.findByFileId entry.file.id) entry
    (result.Perm listed ∧ result.Pairwise colder ∧
      ∀ score, result.filter (·.temperature.score = score) =
        listed.filter (·.temperature.score = score)) ∧
    (result.map FileRecommendation.fileId).Nodup ∧
    ∀ id, id ∈ result.map FileRecommendation.fileId ↔
      ∃ file ∈ d.files, file.id = id ∧ file.ownerId = ownerId ∧ file.isDeleted = false := by
  intro result listed
  have hresult : result = listed.insertionSort colder := getFileRecommendations_eq
  have hperm : result.Perm listed := getFileRecommendations_perm
  have hids : listed.map FileRecommendation.fileId =
      (FileService.listFiles d ownerId).map fun entry => entry.file.id := by
    rw [List.map_map]
    rfl
  have hpermIds := hperm.map FileRecommendation.fileId
  rw [hids] at hpermIds
  refine ⟨⟨hperm, ?_, ?_⟩, ?_, ?_⟩
  · rw [hresult]
    exact List.pairwise_insertionSort colder listed
  · intro score
    rw [hresult]
    exact filter_score score listed
  · rw [hpermIds.nodup_iff]
    exact listFiles_ids_nodup d ownerId
  · intro id
    rw [hpermIds.mem_iff, List.mem_map]
    constructor
    · rintro ⟨entry, hentry, rfl⟩
      obtain ⟨⟨hfile, howner, hlive⟩, -⟩ := mem_listFiles.mp hentry
      exact ⟨entry.file, hfile, rfl, howner, hlive⟩
    · rintro ⟨file, hfile, rfl, howner, hlive⟩
      exact ⟨⟨file, d.latestVersion file.id⟩, mem_listFiles.mpr ⟨⟨hfile, howner, hlive⟩, rfl⟩, rfl⟩

/-! ### More accesses -/

namespace AccessStats

def lastAccessedAt (s : AccessStats) (fileId : Uuid) : Option ℕ :=
  (s.findByFileId fileId).bind FileAccessStats.lastAccessedAt

end AccessStats

/-- No access lies behind one of the same file that was recorded before it. -/
structure Forward (s : AccessStats) (events : List FileAccessedEvent) : Prop where
  recorded : ∀ id, ∀ last ∈ s.lastAccessedAt id, ∀ e ∈ events, names id e → last ≤ e.accessedAt
  ordered : events.Pairwise fun e e' => uuidIn e.fileId = uuidIn e'.fileId →
    e.accessedAt ≤ e'.accessedAt

/-- What more accesses make of the row of a file. -/
structure Warmed (events : List FileAccessedEvent) (s t : AccessStats) (id : Uuid) : Prop where
  count : t.accessCount id = s.accessCount id + (events.filter (names id)).length
  last : ∀ last ∈ s.lastAccessedAt id, ∃ last' ∈ t.lastAccessedAt id, last ≤ last'
  untouched : events.filter (names id) = [] → t.findByFileId id = s.findByFileId id

section
variable {e : FileAccessedEvent} {t : AccessStats} {id : Uuid}

theorem findByFileId_of_not_named (h : onFileAccessed e s = some t) (hid : ¬names id e = true) :
    t.findByFileId id = s.findByFileId id := by
  have hother : uuidIn e.fileId ≠ some id := fun heq => hid (decide_eq_true heq)
  unfold onFileAccessed AccessStats.recordAccess at h
  cases huuid : uuidIn e.fileId with
  | none =>
    rw [huuid] at h
    cases h
  | some j =>
    have hne : id ≠ j := fun heq => hother (by rw [huuid, heq])
    rw [huuid] at h
    dsimp only at h
    split at h
    case h_1 r hr =>
      split_ifs at h
      cases h
      rw [AccessStats.findByFileId, AccessStats.find_update (g := fun r => { r with
        accessCount := r.accessCount + 1, lastAccessedAt := some e.accessedAt }) fun _ => rfl]
      simp only [if_neg hne, Option.map_id']
      rfl
    case h_2 hnone =>
      cases h
      have hnew : [(⟨j, 1, some e.accessedAt, some e.accessedAt⟩ : FileAccessStats)].find?
          (fun r => r.fileId = id) = none := by
        rw [List.find?_singleton, if_neg]
        exact fun hkey => hne (of_decide_eq_true hkey).symm
      rw [AccessStats.findByFileId, List.find?_append, hnew, Option.or_none]
      rfl

theorem lastAccessedAt_of_named (h : onFileAccessed e s = some t) (hid : names id e = true) :
    t.lastAccessedAt id = some e.accessedAt := by
  have huuid : uuidIn e.fileId = some id := of_decide_eq_true hid
  have hrow : (onFileAccessed e s).map (·.findByFileId id) =
      AccessStats.upsert id (s.findByFileId id) e.accessedAt :=
    AccessStats.recordAccess_row huuid e.accessedAt
  rw [h, Option.map_some] at hrow
  rw [AccessStats.lastAccessedAt]
  cases hold : s.findByFileId id with
  | none =>
    rw [hold, AccessStats.upsert, Option.some.injEq] at hrow
    rw [hrow]
    rfl
  | some r =>
    rw [hold, AccessStats.upsert] at hrow
    split_ifs at hrow
    rw [Option.some.injEq] at hrow
    rw [hrow]
    rfl

/-- The accesses still to come stay ahead of the one that is recorded. -/
theorem Forward.next {events : List FileAccessedEvent} (hforward : Forward s (e :: events))
    (h : onFileAccessed e s = some t) : Forward t events := by
  obtain ⟨hhead, htail⟩ := List.pairwise_cons.mp hforward.ordered
  refine ⟨fun id last hlast e' he' hname => ?_, htail⟩
  by_cases hid : names id e = true
  · rw [lastAccessedAt_of_named h hid] at hlast
    rw [← Option.some.inj hlast]
    apply hhead e' he'
    exact (of_decide_eq_true hid : uuidIn e.fileId = _).trans
      (of_decide_eq_true hname : uuidIn e'.fileId = _).symm
  · rw [AccessStats.lastAccessedAt, findByFileId_of_not_named h hid] at hlast
    exact hforward.recorded id last hlast e' (List.mem_cons_of_mem _ he') hname

theorem warmed_run {events : List FileAccessedEvent}
    (h : events.foldlM (fun s e => onFileAccessed e s) s = some t) (hforward : Forward s events)
    (id : Uuid) : Warmed events s t id := by
  induction events generalizing s with
  | nil =>
    cases h
    exact ⟨rfl, fun last hlast => ⟨last, hlast, le_rfl⟩, fun _ => rfl⟩
  | cons e events ih =>
    rw [List.foldlM_cons, Option.bind_eq_bind, Option.bind_eq_some_iff] at h
    obtain ⟨u, hu, h⟩ := h
    have hwarmed := ih h (hforward.next hu)
    have hcount : u.accessCount id = s.accessCount id + if uuidIn e.fileId = some id then 1 else 0 :=
      AccessStats.recordAccess_count hu id
    by_cases hid : names id e = true
    · have huuid : uuidIn e.fileId = some id := of_decide_eq_true hid
      refine ⟨?_, ?_, ?_⟩
      · rw [hwarmed.count, hcount, if_pos huuid, List.filter_cons_of_pos hid, List.length_cons]
        ring
      · intro last hlast
        obtain ⟨last', hlast', hle⟩ := hwarmed.last _ (lastAccessedAt_of_named hu hid)
        have hrecorded := hforward.recorded id last hlast e List.mem_cons_self hid
        exact ⟨last', hlast', hrecorded.trans hle⟩
      · intro hnone
        rw [List.filter_cons_of_pos hid] at hnone
        cases hnone
    · have hrow := findByFileId_of_not_named hu hid
      have huuid : uuidIn e.fileId ≠ some id := fun heq => hid (decide_eq_true heq)
      refine ⟨?_, ?_, ?_⟩
      · rw [hwarmed.count, hcount, if_neg huuid, List.filter_cons_of_neg hid, Nat.add_zero]
      · intro last hlast
        rw [AccessStats.lastAccessedAt, ← hrow] at hlast
        exact hwarmed.last last hlast
      · intro hnone
        rw [List.filter_cons_of_neg hid] at hnone
        rw [hwarmed.untouched hnone, hrow]

end

/-! ### The recommendations after more accesses -/

theorem recommend_accessCount (options : ScoringOptions) (now : ℤ) (s : AccessStats)
    (entry : FileWithLatestVersion) :
    (recommend options now (s.findByFileId entry.file.id) entry).accessCount =
      s.accessCount entry.file.id := by
  rw [AccessStats.accessCount]
  cases hrow : s.findByFileId entry.file.id with
  | none => rfl
  | some r => rfl

theorem recommend_score_mono (hlife : 0 < options.recencyHalfLifeDays)
    (hcap : 0 < options.frequencyCap) {events : List FileAccessedEvent} {t : AccessStats}
    {entry : FileWithLatestVersion} (h : Warmed events s t entry.file.id) (now : ℤ) :
    (recommend options now (s.findByFileId entry.file.id) entry).temperature.score ≤
      (recommend options now (t.findByFileId entry.file.id) entry).temperature.score := by
  have hbefore : ((s.findByFileId entry.file.id).map FileAccessStats.accessCount).getD 0 =
      s.accessCount entry.file.id := recommend_accessCount options now s entry
  have hafter : ((t.findByFileId entry.file.id).map FileAccessStats.accessCount).getD 0 =
      t.accessCount entry.file.id := recommend_accessCount options now t entry
  apply score_mono hlife hcap
  · show ((s.findByFileId entry.file.id).map FileAccessStats.accessCount).getD 0 ≤
      ((t.findByFileId entry.file.id).map FileAccessStats.accessCount).getD 0
    rw [hbefore, hafter, h.count]
    exact Nat.le_add_right _ _
  · intro last hlast
    obtain ⟨time, htime, rfl⟩ := Option.mem_map.mp hlast
    obtain ⟨time', htime', hle⟩ := h.last time htime
    exact ⟨time', Option.mem_map_of_mem _ htime', Int.ofNat_le.mpr hle⟩
  · exact le_rfl

theorem isHot_iff (r : FileRecommendation) : isHot r = true ↔ r.temperature.tier = .hot :=
  decide_eq_true_iff

theorem isHot_of_warmed (hlife : 0 < options.recencyHalfLifeDays)
    (hcap : 0 < options.frequencyCap) {events : List FileAccessedEvent} {t : AccessStats}
    {entry : FileWithLatestVersion} (h : Warmed events s t entry.file.id) (now : ℤ)
    (hhot : isHot (recommend options now (s.findByFileId entry.file.id) entry) = true) :
    isHot (recommend options now (t.findByFileId entry.file.id) entry) = true := by
  have hscore := recommend_score_mono hlife hcap h now
  rw [isHot_iff, recommend, tier_eq_hot] at hhot ⊢
  exact hhot.trans (Int.cast_le.mpr hscore)

/-- Accesses that are recorded in the order of their times make no file colder: each count grows by
the accesses of its file, no score falls, a hot file stays hot, a file without an access is judged
as before, and there are no fewer hot and no more cold files in the overview. -/
theorem accesses_keep_warm (hlife : 0 < options.recencyHalfLifeDays)
    (hcap : 0 < options.frequencyCap) (clock : Uuid → ℤ) (rank rank' : FileAccessStats → Nat)
    (d : Database) (ownerId : Uuid) {s t : AccessStats} {events : List FileAccessedEvent}
    (h : events.foldlM (fun s e => onFileAccessed e s) s = some t) (hforward : Forward s events) :
    let before := getFileRecommendations options clock rank (FileService.listFiles d ownerId) s
    let after := getFileRecommendations options clock rank' (FileService.listFiles d ownerId) t
    (∀ r ∈ before, ∃ r' ∈ after, r'.fileId = r.fileId ∧
      r'.accessCount = r.accessCount + (events.filter (names r.fileId)).length ∧
      r.temperature.score ≤ r'.temperature.score ∧
      (r.temperature.tier = .hot → r'.temperature.tier = .hot) ∧
      (events.filter (names r.fileId) = [] → r' = r)) ∧
    (fileTemperatureBreakdown before).hot ≤ (fileTemperatureBreakdown after).hot ∧
    (fileTemperatureBreakdown after).cold ≤ (fileTemperatureBreakdown before).cold := by
  intro before after
  have hpermBefore : before.Perm _ := getFileRecommendations_perm
  have hpermAfter : after.Perm _ := getFileRecommendations_perm
  have hwarmed : ∀ entry : FileWithLatestVersion, Warmed events s t entry.file.id :=
    fun entry => warmed_run h hforward entry.file.id
  have hlength : after.length = before.length := by
    rw [hpermBefore.length_eq, hpermAfter.length_eq, List.length_map, List.length_map]
  have hhot : (before.filter isHot).length ≤ (after.filter isHot).length := by
    rw [← List.countP_eq_length_filter, ← List.countP_eq_length_filter, hpermBefore.countP_eq,
      hpermAfter.countP_eq, List.countP_map, List.countP_map]
    exact List.countP_mono_left fun entry _ hentry =>
      isHot_of_warmed hlife hcap (hwarmed entry) _ hentry
  refine ⟨fun r hr => ?_, hhot, ?_⟩
  · obtain ⟨entry, hentry, rfl⟩ := List.mem_map.mp (hpermBefore.mem_iff.mp hr)
    refine ⟨_, hpermAfter.mem_iff.mpr (List.mem_map_of_mem hentry), rfl, ?_, ?_, ?_, ?_⟩
    · rw [recommend_accessCount, recommend_accessCount]
      exact (hwarmed entry).count
    · exact recommend_score_mono hlife hcap (hwarmed entry) _
    · rw [← isHot_iff, ← isHot_iff]
      exact isHot_of_warmed hlife hcap (hwarmed entry) _
    · intro hnone
      rw [(hwarmed entry).untouched hnone]
  · show after.length - (after.filter isHot).length ≤ before.length - (before.filter isHot).length
    rw [hlength]
    exact Nat.sub_le_sub_left hhot _

/-- Two downloads of the only file of user 1, with the defaults of the service. -/
theorem accesses_keep_warm_twice :
    ∃ d t, Database.empty.createFile (sampleGenerated 1) 1 "a.txt" =
        .ok (⟨0x10, 1, "a.txt", false, 1, 1⟩, d) ∧
      [accessed 1, accessed 2].foldlM (fun s e => onFileAccessed e s) .empty = some t ∧
      (fileTemperatureBreakdown (getFileRecommendations defaultOptions (fun _ => 3) (fun _ => 0)
        (FileService.listFiles d 1) t)).cold ≤
      (fileTemperatureBreakdown (getFileRecommendations defaultOptions (fun _ => 3) (fun _ => 0)
        (FileService.listFiles d 1) .empty)).cold := by
  have hlife : 0 < defaultOptions.recencyHalfLifeDays := by norm_num [defaultOptions]
  have hcap : 0 < defaultOptions.frequencyCap := by norm_num [defaultOptions]
  have hforward : Forward .empty [accessed 1, accessed 2] := by
    constructor
    · intro id last hlast
      cases hlast
    · apply List.pairwise_pair.mpr
      intro _
      decide
  refine ⟨_, _, rfl, rfl, ?_⟩
  exact (accesses_keep_warm hlife hcap _ _ _ _ _ rfl hforward).2.2

end IntelliStore.Analytics

end
