import IntelliStore.Metadata.TransactionsSpec
import Mathlib.Order.Nat

/-! The numbers, versions and chunks that are committed, however the transactions interleave. -/

namespace IntelliStore.Metadata
open Library Postgres

/-- The version numbers of each file are 1, 2, .. without a gap or a repetition. -/
def Database.Contiguous (d : Database) : Prop :=
  ∀ fileId, ∃ n, ((d.versions.filter (·.fileId == fileId)).map
    FileVersionRecord.versionNumber).Perm (List.range' 1 n)

namespace Database
variable {d : Database} {fileId : Uuid}

theorem numbers_nodup (d : Database) (fileId : Uuid) :
    ((d.versions.filter (·.fileId == fileId)).map FileVersionRecord.versionNumber).Nodup := by
  have hversions : d.versions.Nodup := List.Nodup.of_map _ d.versions_pkey
  refine List.Nodup.map_on (fun v hv w hw heq => ?_) (hversions.filter _)
  obtain ⟨hv, hvfile⟩ := List.mem_filter.mp hv
  obtain ⟨hw, hwfile⟩ := List.mem_filter.mp hw
  have hfile : v.fileId = w.fileId := (beq_iff_eq.mp hvfile).trans (beq_iff_eq.mp hwfile).symm
  exact d.version_number_unique hv hw hfile heq

theorem mem_numbers {n : Nat} :
    n ∈ (d.versions.filter (·.fileId == fileId)).map FileVersionRecord.versionNumber ↔
      ∃ v ∈ d.versions, v.fileId = fileId ∧ v.versionNumber = n := by
  simp only [List.mem_map, List.mem_filter, beq_iff_eq, and_assoc]

theorem Contiguous.exists_version (h : d.Contiguous) {n : Nat} (hpos : 1 ≤ n)
    (hlt : n < d.nextVersionNumber fileId) :
    ∃ v ∈ d.versions, v.fileId = fileId ∧ v.versionNumber = n := by
  obtain ⟨m, hm⟩ := h fileId
  have hmax : ((d.versions.filter (·.fileId == fileId)).map
      FileVersionRecord.versionNumber).foldr max 0 ≤ m := by
    apply List.max_le_of_forall_le (α := Nat)
    intro k hk
    have hrange := List.mem_range'_1.mp (hm.mem_iff.mp hk)
    omega
  refine mem_numbers.mp (hm.mem_iff.mpr (List.mem_range'_1.mpr ?_))
  rw [nextVersionNumber] at hlt
  omega

theorem Contiguous.pos (h : d.Contiguous) {v : FileVersionRecord} (hv : v ∈ d.versions) :
    1 ≤ v.versionNumber := by
  obtain ⟨m, hm⟩ := h v.fileId
  exact (List.mem_range'_1.mp (hm.mem_iff.mp (mem_numbers.mpr ⟨v, hv, rfl, rfl⟩))).1

theorem contiguous_of_exists (hpos : ∀ v ∈ d.versions, 1 ≤ v.versionNumber)
    (h : ∀ fileId n, 1 ≤ n → n < d.nextVersionNumber fileId →
      ∃ v ∈ d.versions, v.fileId = fileId ∧ v.versionNumber = n) : d.Contiguous := by
  intro fileId
  refine ⟨d.nextVersionNumber fileId - 1, ?_⟩
  apply (List.perm_ext_iff_of_nodup (d.numbers_nodup fileId) List.nodup_range').mpr
  intro n
  have hnext := d.nextVersionNumber_pos fileId
  rw [mem_numbers, List.mem_range'_1]
  constructor
  · rintro ⟨v, hv, rfl, rfl⟩
    have hlt := lt_nextVersionNumber hv
    have hle := hpos v hv
    omega
  · intro hn
    exact h fileId n hn.1 (by omega)

end Database

/-- The keys of two transactions do not meet. -/
def Stage.Apart (p q : Stage) : Prop := ∀ v rows w rows', p.pending = some (v, rows) →
  q.pending = some (w, rows') → Database.Apart v w rows rows'

theorem Stage.apart_of_none {p q : Stage} (h : p.pending = none) : p.Apart q := by
  intro v rows w rows' hp
  rw [h] at hp
  cases hp

theorem Stage.Apart.symm {p q : Stage} (h : p.Apart q) : q.Apart p := by
  intro v rows w rows' hv hw
  have hapart := h w rows' v rows hw hv
  exact ⟨hapart.ids.symm, hapart.numbers.symm,
    fun r hr r' hr' heq => hapart.chunks r' hr' r hr heq.symm⟩

/-- `rows` are the first rows of the call's version, and `rest` is still to be inserted. -/
structure Session.Writes (c : Session) (v : FileVersionRecord) (rows : List ChunkRecord)
    (rest : List ChunkInput) : Prop where
  version : v = c.newVersion v.fileId v.versionNumber
  rows : rows ++ Database.chunkRows c.request.generated v.id rows.length rest =
    Database.chunkRows c.request.generated v.id 0 c.input.chunks

theorem Session.Writes.rows_eq {c : Session} {v : FileVersionRecord} {rows : List ChunkRecord}
    (h : c.Writes v rows []) :
    rows = Database.chunkRows c.request.generated v.id 0 c.input.chunks :=
  (List.append_nil rows).symm.trans h.rows

theorem Session.Writes.next {c : Session} {v : FileVersionRecord} {rows : List ChunkRecord}
    {chunk : ChunkInput} {rest : List ChunkInput} (h : c.Writes v rows (chunk :: rest)) :
    c.Writes v (rows ++ [c.newChunk v rows chunk]) rest where
  version := h.version
  rows := by
    rw [← h.rows, List.append_assoc, List.length_append]
    rfl

/-- What a call writes does not depend on its stage. -/
theorem Session.Writes.at {c : Session} {v : FileVersionRecord} {rows : List ChunkRecord}
    {rest : List ChunkInput} (h : c.Writes v rows rest) (stage : Stage) :
    ({ c with stage := stage } : Session).Writes v rows rest := ⟨h.version, h.rows⟩

/-- The number follows those of the start, and does not leave a gap to those of `d`. -/
def Within (d₀ d : Database) (fileId : Uuid) (n : Nat) : Prop :=
  d₀.nextVersionNumber fileId ≤ n ∧ n ≤ d.nextVersionNumber fileId

/-- What is known of a call at its stage. -/
def Session.Proper (d₀ d : Database) (c : Session) : Prop :=
  match c.stage with
  | .insertingVersion fileId next => Within d₀ d fileId next
  | .insertingChunks v rows rest =>
    c.Writes v rows rest ∧ d.Insertable v rows ∧ Within d₀ d v.fileId v.versionNumber
  | .committing v rows =>
    c.Writes v rows [] ∧ d.Insertable v rows ∧ Within d₀ d v.fileId v.versionNumber
  | .ended (.ok r) => c.Writes r.version r.chunks [] ∧ r.version.Storable ∧
    (∀ row ∈ r.chunks, row.Storable) ∧
      d₀.nextVersionNumber r.version.fileId ≤ r.version.versionNumber
  | _ => True

namespace Sessions

structure Sound (d₀ : Database) (s : Sessions) : Prop where
  versions : s.committed.versions.Perm (d₀.versions ++ s.results.map VersionDetail.version)
  chunks : s.committed.chunks.Perm (d₀.chunks ++ s.results.flatMap VersionDetail.chunks)
  inputs : ∀ c ∈ s.calls, c.request.call.registration = some c.input
  numbers : ∀ fileId n, d₀.nextVersionNumber fileId ≤ n →
    n < s.committed.nextVersionNumber fileId →
      ∃ r ∈ s.results, r.version.fileId = fileId ∧ r.version.versionNumber = n
  base : ∀ fileId, d₀.nextVersionNumber fileId ≤ s.committed.nextVersionNumber fileId
  proper : ∀ c ∈ s.calls, c.Proper d₀ s.committed
  apart : s.calls.Pairwise fun c o => c.stage.Apart o.stage

end Sessions

namespace Session
variable {d₀ d d' : Database} {c : Session}

/-- A call keeps what is known of it while the database grows apart from its rows. -/
theorem Proper.keep (h : c.Proper d₀ d)
    (hnumbers : ∀ fileId, d.nextVersionNumber fileId ≤ d'.nextVersionNumber fileId)
    (hrows : ∀ v rows, c.stage.pending = some (v, rows) → d.Insertable v rows →
      d'.Insertable v rows) : c.Proper d₀ d' := by
  unfold Proper at h ⊢
  cases hstage : c.stage with
  | insertingVersion fileId next =>
    rw [hstage] at h
    exact ⟨h.1, h.2.trans (hnumbers fileId)⟩
  | insertingChunks v rows rest =>
    rw [hstage] at h hrows
    exact ⟨h.1, hrows v rows rfl h.2.1, h.2.2.1, h.2.2.2.trans (hnumbers v.fileId)⟩
  | committing v rows =>
    rw [hstage] at h hrows
    exact ⟨h.1, hrows v rows rfl h.2.1, h.2.2.1, h.2.2.2.trans (hnumbers v.fileId)⟩
  | ended result =>
    rw [hstage] at h
    cases result with
    | ok r => exact h
    | error e => trivial
  | _ => trivial

theorem Advances.result_eq_none {others : List Session} {stage : Stage}
    (h : c.Advances d others d' stage) : c.stage.result = none := by
  cases h with
  | failed hrejected =>
    unfold Rejected at hrejected
    split at hrejected
    · rename_i hstage
      rw [hstage]
      rfl
    · rename_i hstage
      rw [hstage]
      rfl
    · rename_i hstage
      rw [hstage]
      rfl
    · rename_i hstage
      rw [hstage]
      rfl
    · exact hrejected.elim
  | _ => simp_all [Stage.result]

end Session

namespace Sessions
variable {d₀ d : Database} {s : Sessions} {c : Session} {i : Nat} {stage : Stage}

theorem results_set (hi : s.calls[i]? = some c) (hc : c.stage.result = none) (d : Database)
    (stage : Stage) : (Sessions.mk d (s.calls.set i { c with stage := stage })).results.Perm
      (stage.result.toList ++ s.results) := by
  have hbefore := (perm_others hi).filterMap fun c => c.stage.result
  have hafter := (set_perm_others hi { c with stage := stage }).filterMap fun c => c.stage.result
  rw [List.filterMap_cons, hc] at hbefore
  rw [List.filterMap_cons] at hafter
  refine hafter.trans ?_
  cases stage.result with
  | none => exact hbefore.symm
  | some r => exact hbefore.symm.cons r

/-- A call goes on, and no version or chunk is committed. -/
theorem Sound.stay (h : s.Sound d₀) (hi : s.calls[i]? = some c) (hc : c.stage.result = none)
    (hstage : stage.result = none) (hversions : d.versions = s.committed.versions)
    (hchunks : d.chunks = s.committed.chunks)
    (hfiles : s.committed.files.map FileRecord.id ⊆ d.files.map FileRecord.id)
    (hproper : ({ c with stage := stage } : Session).Proper d₀ d)
    (hapart : ∀ o ∈ s.calls.eraseIdx i, c.stage.Apart o.stage → stage.Apart o.stage) :
    (Sessions.mk d (s.calls.set i { c with stage := stage })).Sound d₀ := by
  have hresults := results_set hi hc d stage
  rw [hstage] at hresults
  have hnumbers := Database.nextVersionNumber_congr hversions
  constructor
  case versions =>
    show d.versions.Perm _
    rw [hversions]
    exact h.versions.trans ((hresults.map _).symm.append_left _)
  case chunks =>
    show d.chunks.Perm _
    rw [hchunks]
    exact h.chunks.trans ((hresults.flatMap_right _).symm.append_left _)
  case inputs =>
    exact (forall_mem_set hi).mpr ((forall_mem_others hi).mp h.inputs)
  case numbers =>
    intro fileId n hle hlt
    rw [hnumbers] at hlt
    obtain ⟨r, hr, hnumber⟩ := h.numbers fileId n hle hlt
    exact ⟨r, hresults.mem_iff.mpr hr, hnumber⟩
  case base =>
    intro fileId
    rw [hnumbers]
    exact h.base fileId
  case proper =>
    refine (forall_mem_set hi).mpr ⟨hproper, fun o ho => ?_⟩
    exact (h.proper o (List.mem_of_mem_eraseIdx ho)).keep (fun fileId => (hnumbers fileId).ge)
      fun v rows _ hrows => hrows.congr hfiles hversions hchunks
  case apart =>
    obtain ⟨hone, hothers⟩ := (pairwise_others hi Stage.Apart.symm).mp h.apart
    exact (pairwise_set hi Stage.Apart.symm _).mpr ⟨fun o ho => hapart o ho (hone o ho), hothers⟩

/-- A call goes on, and nothing else changes. -/
theorem Sound.pass (h : s.Sound d₀) (hi : s.calls[i]? = some c) (hc : c.stage.result = none)
    (hstage : stage.result = none)
    (hproper : ({ c with stage := stage } : Session).Proper d₀ s.committed)
    (hapart : ∀ o ∈ s.calls.eraseIdx i, c.stage.Apart o.stage → stage.Apart o.stage) :
    (Sessions.mk s.committed (s.calls.set i { c with stage := stage })).Sound d₀ :=
  h.stay hi hc hstage rfl rfl (List.Subset.refl _) hproper hapart

/-- A number that no version has taken when the transaction commits is the next one. -/
theorem Sound.number_eq (h : s.Sound d₀) {v : FileVersionRecord}
    (hadmits : s.committed.Admits v) (hwithin : Within d₀ s.committed v.fileId v.versionNumber) :
    v.versionNumber = s.committed.nextVersionNumber v.fileId := by
  by_contra hne
  obtain ⟨r, hr, hfile, hnumber⟩ := h.numbers v.fileId v.versionNumber hwithin.1
    (lt_of_le_of_ne hwithin.2 hne)
  have hmem : r.version ∈ s.committed.versions :=
    h.versions.mem_iff.mpr (List.mem_append_right _ (List.mem_map_of_mem hr))
  apply hadmits.number_new
  exact List.mem_map.mpr ⟨r.version, hmem, Prod.ext hfile hnumber⟩

theorem Sound.commit (h : s.Sound d₀) (hi : s.calls[i]? = some c) {v : FileVersionRecord}
    {rows : List ChunkRecord} (hstage : c.stage = .committing v rows)
    (hfiles : d.files.map FileRecord.id = s.committed.files.map FileRecord.id)
    (hversions : d.versions = s.committed.versions ++ [v])
    (hchunks : d.chunks = s.committed.chunks ++ rows) :
    (Sessions.mk d (s.calls.set i { c with stage := .ended (.ok ⟨v, rows⟩) })).Sound d₀ := by
  have hproper := h.proper c (List.mem_of_getElem? hi)
  rw [Session.Proper, hstage] at hproper
  obtain ⟨hwrites, hrows, hwithin⟩ := hproper
  obtain ⟨hone, hothers⟩ := (pairwise_others hi Stage.Apart.symm).mp h.apart
  have hnumber := h.number_eq hrows.version hwithin
  have hresults := results_set hi (by rw [hstage]; rfl) d (.ended (.ok ⟨v, rows⟩))
  have hnext := Database.nextVersionNumber_concat hversions
  have hmono : ∀ fileId,
      s.committed.nextVersionNumber fileId ≤ d.nextVersionNumber fileId := by
    intro fileId
    rw [hnext]
    split_ifs
    · exact le_max_left _ _
    · exact le_rfl
  constructor
  case versions =>
    show d.versions.Perm _
    rw [hversions]
    refine ((h.versions.append_right [v]).trans ?_).trans ((hresults.map _).symm.append_left _)
    rw [List.append_assoc]
    exact List.perm_append_comm.append_left _
  case chunks =>
    show d.chunks.Perm _
    rw [hchunks]
    refine ((h.chunks.append_right rows).trans ?_).trans
      ((hresults.flatMap_right _).symm.append_left _)
    rw [List.append_assoc]
    exact List.perm_append_comm.append_left _
  case inputs =>
    exact (forall_mem_set hi).mpr ((forall_mem_others hi).mp h.inputs)
  case numbers =>
    intro fileId n hle hlt
    rcases lt_or_ge n (s.committed.nextVersionNumber fileId) with hold | hnew
    · obtain ⟨r, hr, hr'⟩ := h.numbers fileId n hle hold
      exact ⟨r, hresults.mem_iff.mpr (List.mem_cons_of_mem _ hr), hr'⟩
    · have hlt : n < d.nextVersionNumber fileId := hlt
      rw [hnext] at hlt
      split_ifs at hlt with hfile
      · rw [hfile] at hnumber
        refine ⟨⟨v, rows⟩, hresults.mem_iff.mpr List.mem_cons_self, hfile, ?_⟩
        show v.versionNumber = n
        omega
      · omega
  case base =>
    exact fun fileId => (h.base fileId).trans (hmono fileId)
  case proper =>
    refine (forall_mem_set hi).mpr
      ⟨⟨hwrites.at _, hrows.version.storable, hrows.storable, hwithin.1⟩, fun o ho => ?_⟩
    refine (h.proper o (List.mem_of_mem_eraseIdx ho)).keep hmono fun w rows' hw hinsertable => ?_
    have hapart := (hone o ho).symm w rows' v rows hw (by rw [hstage]; rfl)
    refine hinsertable.keep ?_ hversions hchunks hapart
    rw [hfiles]
    exact List.Subset.refl _
  case apart =>
    exact (pairwise_set hi Stage.Apart.symm _).mpr ⟨fun o _ => Stage.apart_of_none rfl, hothers⟩

theorem Sound.proceed (h : s.Sound d₀) (hi : s.calls[i]? = some c)
    (hstep : c.Advances s.committed (s.calls.eraseIdx i) d stage) :
    (Sessions.mk d (s.calls.set i { c with stage := stage })).Sound d₀ := by
  have hc := hstep.result_eq_none
  have hproper := h.proper c (List.mem_of_getElem? hi)
  unfold Session.Proper at hproper
  cases hstep with
  | registered hstage hcall hcreate =>
    obtain ⟨-, hfiles, hversions, hchunks⟩ := Database.createFile_ok hcreate
    refine h.stay hi hc rfl hversions hchunks ?_ trivial fun o _ _ => Stage.apart_of_none rfl
    rw [hfiles, List.map_append]
    exact List.subset_append_left _ _
  | found hstage hcall hfile =>
    exact h.pass hi hc rfl trivial fun o _ _ => Stage.apart_of_none rfl
  | refused hstage hcall =>
    exact h.pass hi hc rfl trivial fun o _ _ => Stage.apart_of_none rfl
  | @numbered fileId hstage hint =>
    exact h.pass hi hc rfl ⟨h.base fileId, le_rfl⟩ fun o _ _ => Stage.apart_of_none rfl
  | wroteVersion hstage hfree hadmits =>
    rw [hstage] at hproper
    refine h.pass hi hc rfl ⟨⟨rfl, rfl⟩, ?_, hproper⟩
      fun o ho _ v rows w rows' hv hw => ?_
    · exact ⟨hadmits, by simp, by simp, by simp, List.nodup_nil, List.nodup_nil⟩
    · cases hv
      obtain ⟨hids, hnumbers⟩ := Session.holdsVersion_eq_false (hfree o ho) hw
      exact ⟨hids, hnumbers, by simp⟩
  | @wroteChunk version inserted chunk chunks d' hstage hfree hview =>
    rw [hstage] at hproper
    obtain ⟨hwrites, hrows, hwithin⟩ := hproper
    have howned : ∀ r ∈ inserted ++ [c.newChunk version inserted chunk],
        r.fileVersionId = version.id :=
      List.forall_mem_append.mpr ⟨hrows.owned, List.forall_mem_singleton.mpr rfl⟩
    refine h.stay hi hc rfl rfl rfl (List.Subset.refl _)
      ⟨hwrites.next.at _, (Database.view_isOk howned).mp ⟨d', hview⟩, hwithin⟩
      fun o ho hapart v rows w rows' hv hw => ?_
    cases hv
    have hold := hapart version inserted w rows' (by rw [hstage]; rfl) hw
    refine ⟨hold.ids, hold.numbers, List.forall_mem_append.mpr ⟨hold.chunks, ?_⟩⟩
    exact List.forall_mem_singleton.mpr (Session.holdsChunk_eq_false (hfree o ho) hw)
  | touched hstage hfree =>
    rw [hstage] at hproper
    refine h.pass hi hc rfl ⟨hproper.1.at _, hproper.2⟩
      fun o _ hapart v rows w rows' hv hw => ?_
    cases hv
    exact hapart _ _ w rows' (by rw [hstage]; rfl) hw
  | committed hstage hview =>
    obtain ⟨hfiles, hversions, hchunks⟩ := Database.view_ok hview
    refine h.commit hi hstage ?_ hversions hchunks
    rw [Database.touchFile, Database.updateFile_ids, hfiles]
  | failed hrejected =>
    exact h.pass hi hc rfl trivial fun o _ hapart => hapart
  | rolledBack hstage =>
    exact h.pass hi hc rfl trivial fun o _ _ => Stage.apart_of_none rfl

theorem Sound.arrive (h : s.Sound d₀) {r : Request} {input : CreateVersionInput}
    (hr : r.call.registration = some input) :
    (Sessions.mk s.committed (s.calls ++ [⟨r, input, .arrived⟩])).Sound d₀ := by
  have hresults : (Sessions.mk s.committed (s.calls ++ [⟨r, input, .arrived⟩])).results =
      s.results := by
    rw [results, List.filterMap_append]
    exact List.append_nil _
  constructor
  case versions =>
    rw [hresults]
    exact h.versions
  case chunks =>
    rw [hresults]
    exact h.chunks
  case inputs =>
    exact List.forall_mem_append.mpr ⟨h.inputs, List.forall_mem_singleton.mpr hr⟩
  case numbers =>
    rw [hresults]
    exact h.numbers
  case base =>
    exact h.base
  case proper =>
    exact List.forall_mem_append.mpr ⟨h.proper, List.forall_mem_singleton.mpr trivial⟩
  case apart =>
    refine List.pairwise_append.mpr ⟨h.apart, List.pairwise_singleton _ _, fun o _ x hx => ?_⟩
    rw [List.mem_singleton.mp hx]
    exact (Stage.apart_of_none rfl).symm

theorem Sound.init (d : Database) : (Sessions.init d).Sound d where
  versions := by simp [Sessions.init, results]
  chunks := by simp [Sessions.init, results]
  inputs := by simp [Sessions.init]
  numbers := fun fileId n hle hlt => absurd hlt (not_lt.mpr hle)
  base := fun fileId => le_rfl
  proper := by simp [Sessions.init]
  apart := by simp [Sessions.init]

theorem sound_of_reach {G : Sessions → Action → Prop}
    (h : Reach step G (Sessions.init d₀) s) : s.Sound d₀ := by
  apply h.invariant (fun s => s.Sound d₀) (Sound.init d₀)
  intro t a u ht _ hstep
  rcases step_inv hstep with ⟨r, input, -, hr, rfl⟩ | ⟨i, c, d, stage, -, hi, hc, rfl⟩
  · exact ht.arrive hr
  · exact ht.proceed hi hc

/-! ### What is committed -/

theorem Sound.ended (h : s.Sound d₀) (hc : c ∈ s.calls) {r : VersionDetail}
    (hr : c.stage = .ended (.ok r)) : r ∈ s.results ∧ c.Writes r.version r.chunks [] ∧
      r.version.Storable ∧ (∀ row ∈ r.chunks, row.Storable) ∧
        d₀.nextVersionNumber r.version.fileId ≤ r.version.versionNumber := by
  have hproper := h.proper c hc
  rw [Session.Proper, hr] at hproper
  refine ⟨List.mem_filterMap.mpr ⟨c, hc, ?_⟩, hproper⟩
  rw [hr]
  rfl

theorem mem_results {r : VersionDetail} :
    r ∈ s.results ↔ ∃ c ∈ s.calls, c.stage = .ended (.ok r) := by
  unfold results
  rw [List.mem_filterMap]
  refine exists_congr fun c => and_congr_right fun _ => ?_
  unfold Stage.result
  split
  · simp_all
  · simp_all

theorem Sound.contiguous (h : s.Sound d₀) (hd₀ : d₀.Contiguous) : s.committed.Contiguous := by
  have hold : ∀ v ∈ d₀.versions, v ∈ s.committed.versions :=
    fun v hv => h.versions.mem_iff.mpr (List.mem_append_left _ hv)
  have hnew : ∀ r ∈ s.results, r.version ∈ s.committed.versions :=
    fun r hr => h.versions.mem_iff.mpr (List.mem_append_right _ (List.mem_map_of_mem hr))
  apply Database.contiguous_of_exists
  · intro v hv
    rcases List.mem_append.mp (h.versions.mem_iff.mp hv) with hv | hv
    · exact hd₀.pos hv
    · obtain ⟨r, hr, rfl⟩ := List.mem_map.mp hv
      obtain ⟨c, hc, hstage⟩ := mem_results.mp hr
      exact (d₀.nextVersionNumber_pos _).trans (h.ended hc hstage).2.2.2.2
  · intro fileId n hpos hlt
    rcases lt_or_ge n (d₀.nextVersionNumber fileId) with hn | hn
    · obtain ⟨v, hv, hnumber⟩ := hd₀.exists_version hpos hn
      exact ⟨v, hold v hv, hnumber⟩
    · obtain ⟨r, hr, hnumber⟩ := h.numbers fileId n hn hlt
      exact ⟨r.version, hnew r hr, hnumber⟩

theorem Sound.owned (h : s.Sound d₀) {r : VersionDetail} (hr : r ∈ s.results) :
    ∀ row ∈ r.chunks, row.fileVersionId = r.version.id := by
  obtain ⟨c, hc, hstage⟩ := mem_results.mp hr
  rw [(h.ended hc hstage).2.1.rows_eq]
  exact fun row hrow => Database.fileVersionId_of_mem_chunkRows hrow

/-- The ids of the versions at the start and of those the calls returned. -/
theorem Sound.ids_nodup (h : s.Sound d₀) : (d₀.versions.map FileVersionRecord.id ++
    s.results.map fun r => r.version.id).Nodup := by
  have hids := (h.versions.map FileVersionRecord.id).nodup_iff.mp s.committed.versions_pkey
  rwa [List.map_append, List.map_map] at hids

theorem Sound.chunks_of_result (h : s.Sound d₀) {r : VersionDetail} (hr : r ∈ s.results) :
    (s.committed.chunks.filter (·.fileVersionId == r.version.id)).Perm r.chunks := by
  obtain ⟨-, hresults, hdisjoint⟩ := List.nodup_append.mp h.ids_nodup
  have hold : d₀.chunks.filter (·.fileVersionId == r.version.id) = [] := by
    refine List.filter_eq_nil_iff.mpr fun row hrow heq => ?_
    have hmem := d₀.chunks_version_fkey row hrow
    rw [beq_iff_eq.mp heq] at hmem
    exact hdisjoint _ hmem _ (List.mem_map_of_mem hr) rfl
  have hperm := h.chunks.filter (·.fileVersionId == r.version.id)
  rwa [List.filter_append, hold, List.nil_append,
    filter_flatMap_key hresults (fun q hq => h.owned hq) hr] at hperm

theorem Sound.chunks_of_old (h : s.Sound d₀) {v : FileVersionRecord} (hv : v ∈ d₀.versions) :
    (s.committed.chunks.filter (·.fileVersionId == v.id)).Perm
      (d₀.chunks.filter (·.fileVersionId == v.id)) := by
  have hnew : v.id ∉ s.results.map fun r => r.version.id := fun hmem =>
    (List.nodup_append.mp h.ids_nodup).2.2 _ (List.mem_map_of_mem hv) _ hmem rfl
  have hperm := h.chunks.filter (·.fileVersionId == v.id)
  rwa [List.filter_append, filter_flatMap_eq_nil (fun q hq => h.owned hq) hnew,
    List.append_nil] at hperm

/-- However the transactions interleave: the numbers of each file are 1, 2, .., no two calls
return the same number of a file, every version has the chunks of its own call, and all the
versions and chunks are those of the start and of the calls that succeeded. -/
theorem version_numbering_safe (d₀ : Database) (hd₀ : d₀.Contiguous) (s : Sessions)
    (h : Reach step (fun _ _ => True) (Sessions.init d₀) s) :
    s.committed.Contiguous ∧
      ((d₀.versions ++ s.results.map VersionDetail.version).map
        FileVersionRecord.number).Nodup ∧
      s.committed.versions.Perm (d₀.versions ++ s.results.map VersionDetail.version) ∧
      s.committed.chunks.Perm (d₀.chunks ++ s.results.flatMap VersionDetail.chunks) ∧
      (∀ v ∈ d₀.versions, (s.committed.chunks.filter (·.fileVersionId == v.id)).Perm
        (d₀.chunks.filter (·.fileVersionId == v.id))) ∧
      ∀ c ∈ s.calls, ∀ r, c.stage = .ended (.ok r) →
        (s.committed.chunks.filter (·.fileVersionId == r.version.id)).Perm r.chunks ∧
          ∃ input, c.request.call.registration = some input ∧
            r.chunks.map ChunkRecord.input = input.chunks := by
  have hsound := sound_of_reach h
  refine ⟨hsound.contiguous hd₀, ?_, hsound.versions, hsound.chunks,
    fun v hv => hsound.chunks_of_old hv, fun c hc r hr => ?_⟩
  · exact (hsound.versions.map FileVersionRecord.number).nodup_iff.mp
      s.committed.versions_number_key
  · obtain ⟨hmem, hwrites, -⟩ := hsound.ended hc hr
    refine ⟨hsound.chunks_of_result hmem, c.input, hsound.inputs c hc, ?_⟩
    rw [hwrites.rows_eq]
    exact Database.chunkRows_map_input _ _ _ _

/-! The owner of a file adds two versions to it at once, and one of them is rolled back. -/

def sampleVersion : CreateVersionInput where
  mimeType := "application/pdf"
  checksum := "d"
  chunks := [⟨0, 4, "d", "chunks/d"⟩]

def addSample (n : Nat) : Request :=
  ⟨1, sampleGenerated n, .addVersion "00000000-0000-0000-0000-000000000010" sampleVersion⟩

def overlappingVersions : List Action :=
  .arrive ⟨1, sampleGenerated 1, .registerFile ⟨sampleVersion, "report.pdf"⟩⟩ ::
    List.replicate 6 (.proceed 0) ++
    [.arrive (addSample 2), .arrive (addSample 3), .proceed 1, .proceed 2, .proceed 1, .proceed 2] ++
    List.replicate 4 (.proceed 1) ++ List.replicate 2 (.proceed 2)

theorem version_numbering_safe_overlapping :
    ∃ s, Reach step (fun _ _ => True) (Sessions.init .empty) s ∧ s.results.length = 2 ∧
      s.calls.length = 3 ∧ s.committed.Contiguous := by
  obtain ⟨s, hs, hresults, hcalls⟩ : ∃ s, overlappingVersions.foldlM
      (fun s a => if True then step s a else none) (Sessions.init .empty) = some s ∧
        s.results.length = 2 ∧ s.calls.length = 3 := ⟨_, rfl, rfl, rfl⟩
  have hempty : Database.empty.Contiguous := fun fileId => ⟨0, List.Perm.refl []⟩
  exact ⟨s, reach_of_schedule hs, hresults, hcalls,
    (version_numbering_safe .empty hempty s (reach_of_schedule hs)).1⟩

end Sessions
end IntelliStore.Metadata
