import IntelliStore.Storage.DownloadService
import IntelliStore.Storage.UploadSpec

/-! Uploads and downloads over two backends. Where the backends agree on the keys a service
uses, the service answers alike over both. -/

namespace IntelliStore.Storage
open Postgres Metadata
variable {σ τ μ α : Type}

/-- Equal answers, and states that stay related. -/
def Alike (R : σ → τ → Prop) (x : α × σ) (y : α × τ) : Prop := x.1 = y.1 ∧ R x.2 y.2

theorem Alike.results {R : σ → τ → Prop} {x : α × σ} {y : α × τ} (h : Alike R x y) :
    ∃ result s t, x = (result, s) ∧ y = (result, t) ∧ R s t :=
  ⟨x.1, x.2, y.2, rfl, Prod.ext h.1.symm rfl, h.2⟩

structure StorageBackend.Agrees (a : StorageBackend σ) (b : StorageBackend τ) (K : String → Prop)
    (R : σ → τ → Prop) : Prop where
  put : ∀ key data s t, K key → R s t → Alike R (a.put key data s) (b.put key data t)
  get : ∀ key s t, K key → R s t → a.get key s = b.get key t
  delete : ∀ key s t, K key → R s t → Alike R (a.delete key s) (b.delete key t)
  exists_ : ∀ key s t, K key → R s t → Alike R (a.exists_ key s) (b.exists_ key t)

/-- The services differ in nothing but what their backends hold. -/
structure ServiceState.Twins (R : σ → τ → Prop) (s : ServiceState σ μ) (t : ServiceState τ μ) :
    Prop where
  backend : R s.backend t.backend
  metadata : s.metadata = t.metadata
  chunkUploads : s.chunkUploads = t.chunkUploads
  fileAccesses : s.fileAccesses = t.fileAccesses

def UploadService.onBackend (svc : UploadService σ μ) (backend : StorageBackend τ) : UploadService τ μ where
  storageBackend := backend
  metadataClient := svc.metadataClient
  sha256 := svc.sha256
  chunkSizeBytes := svc.chunkSizeBytes

def DownloadService.onBackend (svc : DownloadService σ μ) (backend : StorageBackend τ) :
    DownloadService τ μ where
  storageBackend := backend
  metadataClient := svc.metadataClient
  sha256 := svc.sha256

/-- Without faults, `exists` is membership. -/
theorem MinioStorageBackend.exists_none (key : String) (b : Bucket) :
    exists_ .none key b = (decide (key ∈ b.objects), { b with stats := b.stats + 1 }) := by
  have hfault : Faults.none.stat b.stats = false := rfl
  rw [exists_, statObject]
  by_cases hmem : key ∈ b.objects
  · rw [if_pos ⟨hmem, hfault⟩, decide_eq_true hmem]
  · rw [if_neg (fun hboth => hmem hboth.1), decide_eq_false hmem]

namespace UploadService
variable {svc : UploadService σ μ} {b : StorageBackend τ} {K : String → Prop} {R : σ → τ → Prop}
  {buffer : Bytes}

/-- The loop reports no key but those of its pieces. -/
theorem mem_newlyWrittenKeys {backend : StorageBackend σ} {pieces : List ChunkPiece}
    {loop loop' : StoreLoop} {s s' : σ} (hrun : storePieces backend pieces loop s = (.ok loop', s'))
    {key : String} (hkey : key ∈ loop'.newlyWrittenKeys) :
    key ∈ loop.newlyWrittenKeys ∨ ∃ p ∈ pieces, p.key = key := by
  induction pieces generalizing loop s with
  | nil =>
    rw [storePieces, Prod.mk.injEq, Except.ok.injEq] at hrun
    rw [← hrun.1] at hkey
    exact Or.inl hkey
  | cons piece pieces ih =>
    have hrest : ∀ {loop₁ : StoreLoop} {s₁ : σ},
        storePieces backend pieces loop₁ s₁ = (.ok loop', s') →
        (key ∈ loop₁.newlyWrittenKeys → key ∈ loop.newlyWrittenKeys ∨ piece.key = key) →
        key ∈ loop.newlyWrittenKeys ∨ ∃ p ∈ piece :: pieces, p.key = key := by
      intro loop₁ s₁ hrun₁ hloop
      rcases ih hrun₁ with hkey | ⟨p, hp, hpkey⟩
      · rcases hloop hkey with hkey | hpiece
        · exact Or.inl hkey
        · exact Or.inr ⟨piece, List.mem_cons_self, hpiece⟩
      · exact Or.inr ⟨p, List.mem_cons_of_mem _ hp, hpkey⟩
    rw [storePieces] at hrun
    split at hrun
    · exact hrest hrun Or.inl
    · split at hrun
      · cases hrun
      · apply hrest hrun
        intro hmem
        rcases List.mem_append.mp hmem with hmem | hmem
        · exact Or.inl hmem
        · exact Or.inr (List.mem_singleton.mp hmem).symm

theorem storePieces_alike {a : StorageBackend σ} (h : a.Agrees b K R) {pieces : List ChunkPiece}
    (hkeys : ∀ p ∈ pieces, K p.key) (loop : StoreLoop) {s : σ} {t : τ} (hR : R s t) :
    Alike R (storePieces a pieces loop s) (storePieces b pieces loop t) := by
  induction pieces generalizing loop s t with
  | nil => exact ⟨rfl, hR⟩
  | cons piece pieces ih =>
    obtain ⟨hpiece, hpieces⟩ := List.forall_mem_cons.mp hkeys
    obtain ⟨found, s₁, t₁, hs, ht, hR₁⟩ := (h.exists_ piece.key s t hpiece hR).results
    rw [storePieces, storePieces, hs, ht]
    cases found with
    | true => exact ih hpieces _ hR₁
    | false =>
      obtain ⟨result, s₂, t₂, hs, ht, hR₂⟩ := (h.put piece.key piece.data s₁ t₁ hpiece hR₁).results
      dsimp only
      rw [hs, ht]
      cases result with
      | error e => exact ⟨rfl, hR₂⟩
      | ok => exact ih hpieces _ hR₂

theorem deleteAll_related {a : StorageBackend σ} (h : a.Agrees b K R) {keys : List String}
    (hkeys : ∀ key ∈ keys, K key) {s : σ} {t : τ} (hR : R s t) :
    R (deleteAll a keys s) (deleteAll b keys t) := by
  induction keys generalizing s t with
  | nil => exact hR
  | cons key keys ih =>
    obtain ⟨hkey, hrest⟩ := List.forall_mem_cons.mp hkeys
    exact ih hrest (h.delete key s t hkey hR).2

theorem storeChunks_alike (h : svc.storageBackend.Agrees b K R)
    (hkeys : ∀ p ∈ splitIntoChunks svc.sha256 buffer svc.chunkSizeBytes, K p.key)
    (mimeType : String) {s : σ} {t : τ} (hR : R s t) :
    Alike R (svc.storeChunks buffer mimeType s)
      ((svc.onBackend b).storeChunks buffer mimeType t) := by
  unfold storeChunks
  split_ifs
  · exact ⟨rfl, hR⟩
  · obtain ⟨result, s₁, t₁, hs, ht, hR₁⟩ := (storePieces_alike h hkeys ⟨[], 0, 0⟩ hR).results
    dsimp only [onBackend]
    rw [hs, ht]
    cases result with
    | error e => exact ⟨rfl, hR₁⟩
    | ok loop => exact ⟨rfl, hR₁⟩

/-- What was stored names the keys of the pieces only. -/
theorem newlyWrittenKeys_of_storeChunks {mimeType : String} {s s' : σ} {stored : StoredChunks}
    (hrun : svc.storeChunks buffer mimeType s = (.ok stored, s')) {key : String}
    (hkey : key ∈ stored.newlyWrittenKeys) :
    ∃ p ∈ splitIntoChunks svc.sha256 buffer svc.chunkSizeBytes, p.key = key := by
  unfold storeChunks at hrun
  split_ifs at hrun
  · cases hrun
  · dsimp only at hrun
    split at hrun
    case h_1 => cases hrun
    case h_2 loop s₁ hpieces =>
      rw [Prod.mk.injEq, Except.ok.injEq] at hrun
      rw [← hrun.1] at hkey
      exact (mem_newlyWrittenKeys hpieces hkey).resolve_left List.not_mem_nil

variable {s : ServiceState σ μ} {t : ServiceState τ μ}

theorem publishChunkUploaded_twins (h : s.Twins R t) (fileId : String) (ownerId : Uuid)
    (fileName : String) (result : VersionDetail) :
    (publishChunkUploaded fileId ownerId fileName result s).Twins R
      (publishChunkUploaded fileId ownerId fileName result t) where
  backend := h.backend
  metadata := h.metadata
  chunkUploads := by rw [publishChunkUploaded, publishChunkUploaded, h.chunkUploads]
  fileAccesses := h.fileAccesses

theorem registerWithCleanup_alike (h : svc.storageBackend.Agrees b K R) {keys : List String}
    (hkeys : ∀ key ∈ keys, K key) (register : μ → Except Failure α × μ) (hs : s.Twins R t) :
    Alike (ServiceState.Twins R) (svc.registerWithCleanup keys register s)
      ((svc.onBackend b).registerWithCleanup keys register t) := by
  unfold registerWithCleanup
  rw [hs.metadata]
  obtain ⟨result, m⟩ := register t.metadata
  cases result with
  | ok result => exact ⟨rfl, hs.backend, rfl, hs.chunkUploads, hs.fileAccesses⟩
  | error e =>
    exact ⟨rfl, deleteAll_related h hkeys hs.backend, rfl, hs.chunkUploads, hs.fileAccesses⟩

theorem storeChunks_twins (h : svc.storageBackend.Agrees b K R)
    (hkeys : ∀ p ∈ splitIntoChunks svc.sha256 buffer svc.chunkSizeBytes, K p.key)
    (mimeType : String) (hs : s.Twins R t) :
    ∃ result s₁ t₁, svc.storeChunks buffer mimeType s.backend = (result, s₁) ∧
      (svc.onBackend b).storeChunks buffer mimeType t.backend = (result, t₁) ∧
      ServiceState.Twins R { s with backend := s₁ } { t with backend := t₁ } ∧
      ∀ stored, result = .ok stored → ∀ key ∈ stored.newlyWrittenKeys, K key := by
  obtain ⟨result, s₁, t₁, hstore, hstore', hR⟩ :=
    (storeChunks_alike h hkeys mimeType hs.backend).results
  refine ⟨result, s₁, t₁, hstore, hstore',
    ⟨hR, hs.metadata, hs.chunkUploads, hs.fileAccesses⟩, ?_⟩
  intro stored hresult key hkey
  rw [hresult] at hstore
  obtain ⟨p, hp, rfl⟩ := newlyWrittenKeys_of_storeChunks hstore hkey
  exact hkeys p hp

theorem uploadNewFile_alike (h : svc.storageBackend.Agrees b K R)
    (hkeys : ∀ p ∈ splitIntoChunks svc.sha256 buffer svc.chunkSizeBytes, K p.key)
    (token : BearerToken) (fileName mimeType : String) (hs : s.Twins R t) :
    Alike (ServiceState.Twins R) (svc.uploadNewFile token fileName mimeType buffer s)
      ((svc.onBackend b).uploadNewFile token fileName mimeType buffer t) := by
  obtain ⟨result, s₁, t₁, hstore, hstore', hs₁, hstored⟩ :=
    storeChunks_twins h hkeys mimeType hs
  rw [uploadNewFile, uploadNewFile, hstore, hstore']
  cases result with
  | error e => exact ⟨rfl, hs₁⟩
  | ok stored =>
    obtain ⟨result, s₂, t₂, hreg, hreg', hs₂⟩ := (registerWithCleanup_alike h (hstored _ rfl)
      (svc.metadataClient.registerFile token ⟨stored.payload, fileName⟩) hs₁).results
    dsimp only [onBackend] at hreg' ⊢
    rw [hreg, hreg']
    cases result with
    | error e => exact ⟨rfl, hs₂⟩
    | ok result => exact ⟨rfl, publishChunkUploaded_twins hs₂ _ _ _ _⟩

theorem uploadNewVersion_alike (h : svc.storageBackend.Agrees b K R)
    (hkeys : ∀ p ∈ splitIntoChunks svc.sha256 buffer svc.chunkSizeBytes, K p.key)
    (token : BearerToken) (fileId mimeType : String) (hs : s.Twins R t) :
    Alike (ServiceState.Twins R) (svc.uploadNewVersion token fileId mimeType buffer s)
      ((svc.onBackend b).uploadNewVersion token fileId mimeType buffer t) := by
  obtain ⟨result, s₁, t₁, hstore, hstore', hs₁, hstored⟩ :=
    storeChunks_twins h hkeys mimeType hs
  rw [uploadNewVersion, uploadNewVersion, hstore, hstore']
  cases result with
  | error e => exact ⟨rfl, hs₁⟩
  | ok stored =>
    obtain ⟨result, s₂, t₂, hreg, hreg', hs₂⟩ := (registerWithCleanup_alike h (hstored _ rfl)
      (svc.metadataClient.addVersion token fileId stored.payload) hs₁).results
    dsimp only [onBackend] at hreg' ⊢
    rw [hreg, hreg']
    cases result with
    | error e => exact ⟨rfl, hs₂⟩
    | ok result =>
      dsimp only
      rw [hs₂.metadata]
      cases svc.metadataClient.getFileDetail token fileId t₂.metadata with
      | error e => exact ⟨rfl, hs₂⟩
      | ok detail => exact ⟨rfl, publishChunkUploaded_twins hs₂ _ _ _ _⟩

theorem upload_alike (svc : UploadService σ μ) (h : svc.storageBackend.Agrees b K R)
    (hkeys : ∀ p ∈ splitIntoChunks svc.sha256 buffer svc.chunkSizeBytes, K p.key)
    (token : BearerToken) (target : Target) (mimeType : String) (hs : s.Twins R t) :
    Alike (ServiceState.Twins R) (svc.upload token target mimeType buffer s)
      ((svc.onBackend b).upload token target mimeType buffer t) := by
  cases target with
  | newFile fileName =>
    obtain ⟨hresult, hs⟩ := uploadNewFile_alike h hkeys token fileName mimeType hs
    refine ⟨?_, hs⟩
    simp only [upload, hresult]
  | newVersion fileId => exact uploadNewVersion_alike h hkeys token fileId mimeType hs

end UploadService

namespace DownloadService
variable {svc : DownloadService σ μ} {b : StorageBackend τ} {K : String → Prop} {R : σ → τ → Prop}
  {s : ServiceState σ μ} {t : ServiceState τ μ}

theorem combined_alike (h : svc.storageBackend.Agrees b K R) {chunks : List ChunkRecord}
    (hkeys : ∀ c ∈ chunks, K c.storageKey) (hR : R s.backend t.backend) :
    svc.combined chunks s.backend = (svc.onBackend b).combined chunks t.backend := by
  have hmap : (chunks.mapM fun chunk => svc.storageBackend.get chunk.storageKey s.backend) =
      chunks.mapM fun chunk => b.get chunk.storageKey t.backend := by
    induction chunks with
    | nil => rfl
    | cons chunk chunks ih =>
      obtain ⟨hchunk, hchunks⟩ := List.forall_mem_cons.mp hkeys
      rw [List.mapM_cons, List.mapM_cons, h.get _ _ _ hchunk hR, ih hchunks]
  rw [combined, combined, hmap]
  rfl

/-- The keys meant are those of the version that the metadata client answers with. -/
theorem download_alike (svc : DownloadService σ μ) (h : svc.storageBackend.Agrees b K R)
    (token : BearerToken) (fileId : String)
    (versionNumber : Option Nat) (now : Nat) (hs : s.Twins R t)
    (hkeys : ∀ n detail,
      svc.metadataClient.getVersionDetail token fileId n s.metadata = .ok detail →
      ∀ c ∈ detail.chunks, K c.storageKey) :
    Alike (ServiceState.Twins R) (svc.download token fileId versionNumber now s)
      ((svc.onBackend b).download token fileId versionNumber now t) := by
  unfold download
  dsimp only [onBackend]
  rw [← hs.metadata]
  cases svc.metadataClient.getFileDetail token fileId s.metadata with
  | error e => exact ⟨rfl, hs⟩
  | ok fileDetail =>
    dsimp only
    cases fileDetail.versions with
    | nil => exact ⟨rfl, hs⟩
    | cons newest versions =>
      dsimp only
      cases hdetail : svc.metadataClient.getVersionDetail token fileId
          (versionNumber.getD newest.versionNumber) s.metadata with
      | error e => exact ⟨rfl, hs⟩
      | ok detail =>
        dsimp only
        have hcombined := combined_alike h (hkeys _ detail hdetail) hs.backend
        dsimp only [onBackend] at hcombined
        rw [← hcombined]
        cases svc.combined detail.chunks s.backend with
        | error e => exact ⟨rfl, hs⟩
        | ok buffer =>
          dsimp only
          by_cases hsum : svc.sha256 buffer = detail.version.checksum
          · simp only [hsum, ne_eq, not_true_eq_false, if_false]
            refine ⟨rfl, hs.backend, rfl, hs.chunkUploads, ?_⟩
            dsimp only
            rw [hs.fileAccesses]
          · simp only [hsum, ne_eq, not_false_eq_true, if_true]
            exact ⟨rfl, hs⟩

end DownloadService

/-! ### The double of the tests -/

namespace InMemoryStorageBackend

def put (key : String) (data : Bytes) (store : Objects) : Except Failure Unit × Objects :=
  (.ok (), store.insert key data)

/-- An empty buffer is an object too. -/
def get (key : String) (store : Objects) : Except Failure Bytes :=
  match store.lookup key with
  | some data => .ok data
  | none => .error .library

def delete (key : String) (store : Objects) : Except Failure Unit × Objects :=
  (.ok (), store.erase key)

def exists_ (key : String) (store : Objects) : Bool × Objects := (decide (key ∈ store), store)

end InMemoryStorageBackend

def inMemoryStorageBackend : StorageBackend Objects where
  put := InMemoryStorageBackend.put
  get := InMemoryStorageBackend.get
  delete := InMemoryStorageBackend.delete
  exists_ := InMemoryStorageBackend.exists_

/-- The double is the bucket without its counters, on every key. -/
theorem inMemory_agrees : (minioStorageBackend .none).Agrees inMemoryStorageBackend
    (fun _ => True) (fun b store => b.objects = store) where
  put := by
    rintro key data b store - rfl
    exact ⟨rfl, rfl⟩
  get := by
    rintro key b store - rfl
    rfl
  delete := by
    rintro key b store - rfl
    exact ⟨rfl, rfl⟩
  exists_ := by
    rintro key b store - rfl
    change Alike _ (MinioStorageBackend.exists_ .none key b)
      (InMemoryStorageBackend.exists_ key b.objects)
    rw [MinioStorageBackend.exists_none]
    exact ⟨rfl, rfl⟩

end IntelliStore.Storage
