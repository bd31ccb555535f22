import IntelliStore.Library.JsonSize
import IntelliStore.Metadata.Bodies
import IntelliStore.Platform.Effects
import IntelliStore.Platform.Wire
import IntelliStore.Storage.Splitting
import Mathlib.Algebra.Order.BigOperators.Group.List

/-! The size of a registration, against the limit that metadata-service puts on bodies: the sizes of
the default configuration stay below it, and a file of too many chunks does not. -/

namespace IntelliStore.Platform
open Postgres Library Metadata Storage

def isHexDigit (c : Char) : Bool := Json.isDigit c || ('a' ≤ c && c ≤ 'f')

/-- What `createHash('sha256').digest('hex')` returns. -/
structure HexDigest (sha256 : Bytes → String) : Prop where
  length : ∀ b, (sha256 b).length = 64
  digits : ∀ b, (sha256 b).toList.all isHexDigit = true

variable {sha256 : Bytes → String}

/-! ### The chunks of a body -/

theorem isPlain_of_isHexDigit {c : Char} (h : isHexDigit c = true) : Json.isPlain c = true := by
  have hrange : 0x30 ≤ c.toNat ∧ c.toNat ≤ 0x66 := by
    simp only [isHexDigit, Json.isDigit, Bool.or_eq_true, Bool.and_eq_true, decide_eq_true_eq,
      Char.le_def, UInt32.le_iff_toNat_le] at h
    rcases h with h | h
    · exact ⟨h.1, h.2.trans (by decide)⟩
    · exact ⟨le_trans (by decide) h.1, h.2⟩
  have hall : ∀ n < 0x67, 0x30 ≤ n → isHexDigit (Char.ofNat n) = true →
      Json.isPlain (Char.ofNat n) = true := by decide
  have hc := hall c.toNat (by omega) hrange.1
  rw [Char.ofNat_toNat] at hc
  exact hc h

theorem HexDigest.plain (h : HexDigest sha256) (b : Bytes) :
    (sha256 b).toList.all Json.isPlain = true := by
  rw [List.all_eq_true]
  intro c hc
  exact isPlain_of_isHexDigit (List.all_eq_true.mp (h.digits b) c hc)

theorem HexDigest.size (h : HexDigest sha256) (b : Bytes) :
    Json.size (.ofString (sha256 b)) = 66 := by
  rw [Json.size_plain (h.plain b), h.length]

theorem HexDigest.size_key (h : HexDigest sha256) (b : Bytes) :
    Json.size (.ofString (chunkKey (sha256 b))) = 73 := by
  have hfolder : "chunks/".toList.all Json.isPlain = true := by decide
  have hplain : (chunkKey (sha256 b)).toList.all Json.isPlain = true := by
    rw [chunkKey, String.toList_append, List.all_append, hfolder, h.plain]
    rfl
  rw [Json.size_plain hplain, chunkKey, String.length_append, h.length]
  rfl

/-- The bytes of a chunk in the body, with the comma or bracket that follows it. -/
def chunkBytes (p : ChunkPiece) : Nat :=
  194 + Json.size (.ofNat p.index) + Json.size (.ofNat p.sizeBytes)

theorem size_chunk (h : HexDigest sha256) {p : ChunkPiece} (hp : p.checksum = sha256 p.data) :
    Json.size (ChunkInput.codec.write p.payload) + 1 = chunkBytes p := by
  have hrecord : ChunkInput.codec.write p.payload = .record [("chunkIndex", .ofNat p.index),
      ("sizeBytes", .ofNat p.sizeBytes), ("checksum", .ofString p.checksum),
      ("storageKey", .ofString (chunkKey p.checksum))] := rfl
  have hindex : Json.size (.ofString "chunkIndex") = 12 := Json.size_plain (by decide)
  have hsize : Json.size (.ofString "sizeBytes") = 11 := Json.size_plain (by decide)
  have hchecksum : Json.size (.ofString "checksum") = 10 := Json.size_plain (by decide)
  have hkey : Json.size (.ofString "storageKey") = 12 := Json.size_plain (by decide)
  rw [hrecord, Json.size_record (List.cons_ne_nil _ _), hp]
  simp only [List.map_cons, List.map_nil, List.sum_cons, List.sum_nil, hindex, hsize, hchecksum,
    hkey, h.size, h.size_key, chunkBytes]
  omega

namespace Upload

/-- The bytes of the name that a new file is registered with. -/
def nameBytes (u : Upload) : Nat :=
  match u.target with
  | .newFile fileName => 12 + Json.size (.ofString fileName)
  | .newVersion _ => 0

theorem pieces_ne_nil {u : Upload} (hbuffer : u.buffer ≠ []) : u.pieces sha256 ≠ [] := by
  intro hnil
  have hdata := splitIntoChunks_data sha256 u.buffer u.chunkSizeBytes
  have hempty : splitIntoChunks sha256 u.buffer u.chunkSizeBytes = [] := hnil
  rw [hempty] at hdata
  exact hbuffer hdata.symm

theorem size_chunks (h : HexDigest sha256) {u : Upload} (hbuffer : u.buffer ≠ []) :
    Json.size (ChunkInput.codec.list.write (u.payload sha256).chunks) =
      1 + ((u.pieces sha256).map chunkBytes).sum := by
  have hitems : ChunkInput.codec.list.write (u.payload sha256).chunks =
      .array ((u.pieces sha256).map fun p => ChunkInput.codec.write p.payload) := by
    show Json.array (((u.pieces sha256).map ChunkPiece.payload).map _) = _
    rw [List.map_map]
    rfl
  have hmap : (u.pieces sha256).map (fun p => Json.size (ChunkInput.codec.write p.payload) + 1) =
      (u.pieces sha256).map chunkBytes :=
    List.map_congr_left fun p hp => size_chunk h (mem_splitIntoChunks hp).2.1
  rw [hitems, Json.size_array (mt List.map_eq_nil_iff.mp (pieces_ne_nil hbuffer)), List.map_map,
    ← hmap]
  rfl

theorem size_members (h : HexDigest sha256) {u : Upload} (hbuffer : u.buffer ≠ []) :
    ((u.payload sha256).members.map fun m => Json.size (.ofString m.1) + Json.size m.2 + 2).sum =
      101 + Json.size (.ofString u.mimeType) + ((u.pieces sha256).map chunkBytes).sum := by
  have hmime : Json.size (.ofString "mimeType") = 10 := Json.size_plain (by decide)
  have hchecksum : Json.size (.ofString "checksum") = 10 := Json.size_plain (by decide)
  have hchunks : Json.size (.ofString "chunks") = 8 := Json.size_plain (by decide)
  have hdigest : (u.payload sha256).checksum = sha256 u.buffer := rfl
  have htype : (u.payload sha256).mimeType = u.mimeType := rfl
  simp only [CreateVersionInput.members, List.map_cons, List.map_nil, List.sum_cons,
    List.sum_nil, hmime, hchecksum, hchunks, size_chunks h hbuffer, hdigest, htype, h.size]
  omega

theorem length_body (h : HexDigest sha256) {u : Upload} (hbuffer : u.buffer ≠ []) :
    (u.body sha256).length = 102 + u.nameBytes + Json.size (.ofString u.mimeType) +
      ((u.pieces sha256).map chunkBytes).sum := by
  have hmembers := size_members h hbuffer
  cases htarget : u.target with
  | newFile fileName =>
    have hname : Json.size (.ofString "fileName") = 10 := Json.size_plain (by decide)
    have hbytes : u.nameBytes = 12 + Json.size (.ofString fileName) := by rw [nameBytes, htarget]
    have hbody : (u.body sha256).length = Json.size (.record
        (("fileName", .ofString fileName) :: (u.payload sha256).members)) := by
      rw [body, htarget]
      rfl
    rw [hbody, Json.size_record (List.cons_ne_nil _ _), List.map_cons, List.sum_cons, hmembers]
    dsimp only
    omega
  | newVersion fileId =>
    have hbytes : u.nameBytes = 0 := by rw [nameBytes, htarget]
    have hbody : (u.body sha256).length = Json.size (.record (u.payload sha256).members) := by
      rw [body, htarget]
      rfl
    have hne : (u.payload sha256).members ≠ [] := List.cons_ne_nil _ _
    rw [hbody, Json.size_record hne, hmembers]
    omega

/-! ### The sizes of the default configuration -/

end Upload

def defaultChunkSizeBytes : ℕ+ := ⟨4 * 1024 * 1024, by decide⟩

def defaultMaxUploadSizeBytes : Nat := 100 * 1024 * 1024

/-- The content type of a part as `busboy` reads it from a header of at most 16 KiB: tokens, which
JSON writes as they are. -/
structure PartType (mimeType : String) : Prop where
  length : mimeType.length ≤ 16 * 1024
  plain : mimeType.toList.all Json.isPlain = true

namespace Upload

theorem length_pieces_le {u : Upload} {n : Nat} (h : u.buffer.length ≤ u.chunkSizeBytes * n) :
    (u.pieces sha256).length ≤ n := by
  have hlength : (u.pieces sha256).length = u.buffer.length ⌈/⌉ (u.chunkSizeBytes : Nat) :=
    length_splitIntoChunks
  rw [hlength]
  exact (ceilDiv_le_iff_le_mul u.chunkSizeBytes.pos).mpr h

theorem lt_length_pieces (sha256 : Bytes → String) {u : Upload} {n : Nat}
    (h : u.chunkSizeBytes * n < u.buffer.length) :
    n < (u.pieces sha256).length := by
  have hlength : (u.pieces sha256).length = u.buffer.length ⌈/⌉ (u.chunkSizeBytes : Nat) :=
    length_splitIntoChunks
  rw [hlength]
  exact lt_ceilDiv.mpr h

/-- Every chunk takes at least 196 bytes. -/
theorem chunkBytes_ge (pieces : List ChunkPiece) :
    196 * pieces.length ≤ (pieces.map chunkBytes).sum := by
  have hpiece : ∀ n ∈ pieces.map chunkBytes, 196 ≤ n := by
    intro n hn
    obtain ⟨p, -, rfl⟩ := List.mem_map.mp hn
    have hindex := Json.size_ofNat_pos p.index
    have hsize := Json.size_ofNat_pos p.sizeBytes
    unfold chunkBytes
    omega
  have hsum := List.card_nsmul_le_sum _ _ hpiece
  rw [List.length_map, smul_eq_mul, Nat.mul_comm] at hsum
  exact hsum

/-- The pieces of a file of at most 25 default chunks. -/
theorem mem_pieces {u : Upload} {p : ChunkPiece} (hp : p ∈ u.pieces sha256) :
    p.index < (u.pieces sha256).length ∧ p.sizeBytes ≤ u.chunkSizeBytes := by
  have hpieces : u.pieces sha256 = (List.range (u.buffer.length ⌈/⌉ (u.chunkSizeBytes : Nat))).map
      fun i => pieceAt sha256 u.buffer u.chunkSizeBytes i (u.chunkSizeBytes * i) :=
    splitIntoChunks_eq sha256 u.buffer u.chunkSizeBytes
  rw [hpieces] at hp ⊢
  obtain ⟨i, hi, rfl⟩ := List.mem_map.mp hp
  rw [List.length_map, sizeBytes_pieceAt]
  refine ⟨?_, ?_⟩
  · rw [List.length_range]
    exact List.mem_range.mp hi
  · omega

theorem chunkBytes_le {u : Upload} (hchunk : (u.chunkSizeBytes : Nat) < 10000000)
    (hpieces : (u.pieces sha256).length ≤ 100) :
    ((u.pieces sha256).map chunkBytes).sum ≤ (u.pieces sha256).length * 203 := by
  have hpiece : ∀ n ∈ (u.pieces sha256).map chunkBytes, n ≤ 203 := by
    intro n hn
    obtain ⟨p, hp, rfl⟩ := List.mem_map.mp hn
    obtain ⟨hindex, hsize⟩ := mem_pieces hp
    have hdigits : Json.size (.ofNat p.index) ≤ 2 :=
      Json.size_ofNat_le (by decide) (Nat.lt_of_lt_of_le hindex hpieces)
    have hbytes : Json.size (.ofNat p.sizeBytes) ≤ 7 :=
      Json.size_ofNat_le (by decide) ((Nat.lt_of_le_of_lt hsize hchunk).trans_eq (by norm_num))
    unfold chunkBytes
    omega
  have hsum := List.sum_le_card_nsmul _ _ hpiece
  rw [List.length_map, smul_eq_mul] at hsum
  exact hsum

/-- A body within the limit changes no outcome. -/
theorem wired_eq_self {u : Upload} (h : (u.body sha256).length ≤ bodyLimit) :
    u.wired sha256 = u := by
  have hcarrying : u.outcomes.registration.carrying (u.body sha256) = u.outcomes.registration := by
    unfold CallOutcome.carrying
    rw [if_pos h]
  rw [wired, hcarrying]

theorem nameBytes_le {u : Upload} {n : Nat}
    (h : ∀ fileName, u.target = .newFile fileName → utf16Length fileName ≤ n) :
    u.nameBytes ≤ 6 * n + 14 := by
  cases htarget : u.target with
  | newFile fileName =>
    have hbytes : u.nameBytes = 12 + Json.size (.ofString fileName) := by rw [nameBytes, htarget]
    have hsize := Json.size_ofString_le fileName
    have hlength := h fileName htarget
    rw [Text.length_units] at hsize
    omega
  | newVersion fileId =>
    have hbytes : u.nameBytes = 0 := by rw [nameBytes, htarget]
    omega

/-- Up to 25 chunks of the default size, with a content type and a name of usual lengths. -/
theorem body_fits (h : HexDigest sha256) {u : Upload} (hbuffer : u.buffer ≠ [])
    (hchunk : u.chunkSizeBytes ≤ defaultChunkSizeBytes)
    (hmax : u.buffer.length ≤ u.chunkSizeBytes * 25) (hname : u.nameBytes ≤ 1600)
    (hmime : PartType u.mimeType) : (u.body sha256).length ≤ bodyLimit := by
  have hpieces : (u.pieces sha256).length ≤ 25 := length_pieces_le hmax
  have hsmall : (u.chunkSizeBytes : Nat) < 10000000 :=
    Nat.lt_of_le_of_lt (PNat.coe_le_coe _ _ |>.mpr hchunk) (by decide)
  have hchunks : ((u.pieces sha256).map chunkBytes).sum ≤ (u.pieces sha256).length * 203 :=
    chunkBytes_le hsmall (hpieces.trans (by decide))
  have htype := Json.size_plain hmime.plain
  have hlength := hmime.length
  rw [length_body h hbuffer, bodyLimit]
  omega

end Upload

variable {fold : Char → Char} {app : MetadataApp} {u : Upload}

/-- The registrations of the default configuration, up to the largest, stay below the limit. Where
the path carries the id, the upload over HTTP ends like the upload of the model. -/
theorem default_upload_fits (h : HexDigest sha256)
    (hchunk : u.chunkSizeBytes = defaultChunkSizeBytes)
    (hmax : u.buffer.length ≤ defaultMaxUploadSizeBytes)
    (hname : ∀ fileName, u.target = .newFile fileName → utf16Length fileName ≤ 255)
    (hmime : PartType u.mimeType) :
    (u.buffer ≠ [] → (u.body sha256).length ≤ bodyLimit) ∧
      (u.PathCarries → ∀ w : World,
        wireStep sha256 fold app w (.upload u) = step sha256 fold w (.upload u)) := by
  have hfits : u.buffer ≠ [] → (u.body sha256).length ≤ bodyLimit := by
    intro hbuffer
    have hmax' : u.buffer.length ≤ u.chunkSizeBytes * 25 := by
      rw [hchunk]
      exact hmax
    exact Upload.body_fits h hbuffer hchunk.le hmax'
      ((Upload.nameBytes_le hname).trans (by decide)) hmime
  refine ⟨hfits, fun hpath w => ?_⟩
  by_cases hbuffer : u.buffer = []
  · -- refused before any call
    have hstore := UploadService.storeChunks_empty (u.service sha256) u.mimeType w.backend
    have hstore' := UploadService.storeChunks_empty ((u.service sha256).onClient
      (wireMetadataClient app u.generated u.outcomes)) u.mimeType w.backend
    rw [← hbuffer] at hstore hstore'
    rw [wireStep, step, Upload.run, UploadService.upload_of_error hstore,
      UploadService.upload_of_error hstore']
  · have hwired : (Op.upload u).wired sha256 = .upload u :=
      congrArg Op.upload (Upload.wired_eq_self (hfits hbuffer))
    have hcarried : (Op.upload u).Carried sha256 := ⟨hpath, fun _ => hfits hbuffer⟩
    rw [wireStep_eq hcarried, hwired]

/-- The digests of the sample uploads: of a byte, and of 522 such bytes. -/
def repeatedByteSha256 (b : Bytes) : String :=
  if b = [1] then "4bf5122f344554c53bde2ebb8cd2b7e3d1600ad631c385a5d7cce23c7785459a"
  else if b = List.replicate 522 1 then
    "084b4e3fb7fcee98fcfc0d398f9278ac07ed960eed61daae59d2b94bd7e0e0e9"
  else "e3b0c44298fc1c149afbf4c8996fb92427ae41e4649b934ca495991b7852b855"

theorem repeatedByteSha256_hex : HexDigest repeatedByteSha256 where
  length b := by
    unfold repeatedByteSha256
    split_ifs <;> decide
  digits b := by
    unfold repeatedByteSha256
    split_ifs <;> decide

/-- `byteUpload` in the default configuration. -/
def defaultUpload : Upload := { byteUpload with chunkSizeBytes := defaultChunkSizeBytes }

theorem default_upload_fits_byte :
    (defaultUpload.body repeatedByteSha256).length ≤ bodyLimit ∧
      wireStep repeatedByteSha256 id plainApp .empty (.upload defaultUpload) =
        step repeatedByteSha256 id .empty (.upload defaultUpload) := by
  have hmax : defaultUpload.buffer.length ≤ defaultMaxUploadSizeBytes := by decide
  have hname : ∀ fileName, defaultUpload.target = .newFile fileName →
      utf16Length fileName ≤ 255 := by
    intro fileName htarget
    cases htarget
    decide
  have hpath : defaultUpload.PathCarries := fun _ htarget => by cases htarget
  obtain ⟨hfits, hwire⟩ := default_upload_fits repeatedByteSha256_hex rfl hmax hname
    ⟨by decide, by decide⟩
  exact ⟨hfits (List.cons_ne_nil _ _), hwire hpath .empty⟩

/-! ### Files of too many chunks -/

/-- A body above the limit is refused whatever the path is. -/
theorem Upload.answer_above (app : MetadataApp) (habove : ¬(u.body sha256).length ≤ bodyLimit)
    (path : String) (d : Database) :
    app.answer u.generated u.ownerId (.post (u.body sha256)) path d =
      (ApiResponse.refusal .internal none, d) := by
  have hnone : jsonBody (u.body sha256) = none := by
    unfold body at habove ⊢
    split at habove
    · exact HttpMetadataClient.jsonBody_above rfl habove
    · exact HttpMetadataClient.jsonBody_above rfl habove
  exact MetadataApp.answer_unparsed (MetadataApp.parsed_post hnone) d

theorem Upload.register_above (app : MetadataApp) (habove : ¬(u.body sha256).length ≤ bodyLimit)
    (d : Database) :
    ∃ e, ((u.service sha256).onClient (wireMetadataClient app u.generated u.outcomes)).register
        u.ownerId u.target (u.payload sha256) d = (.error e, d) ∧
      (u.outcomes.registration = .replied → e = .app .internal) := by
  have hanswer := fun path => u.answer_above app habove path d
  cases htarget : u.target with
  | newFile fileName =>
    have hbody : u.body sha256 = CreateFileInput.codec.encode ⟨u.payload sha256, fileName⟩ := by
      rw [body, htarget]
    rw [hbody] at hanswer
    obtain ⟨e, hcall, he⟩ := HttpMetadataClient.fetchJson_refused (hanswer "/files")
      u.outcomes.registration RegisterFileResult.codec
    refine ⟨e, ?_, he⟩
    have hregister : (wireMetadataClient app u.generated u.outcomes).registerFile u.ownerId
      ⟨u.payload sha256, fileName⟩ d = (.error e, d) := hcall
    simp only [UploadService.register, UploadService.onClient, hregister, Except.map]
  | newVersion fileId =>
    have hbody : u.body sha256 = CreateVersionInput.codec.encode (u.payload sha256) := by
      rw [body, htarget]
    rw [hbody] at hanswer
    exact HttpMetadataClient.fetchJson_refused (hanswer _) u.outcomes.registration
      VersionDetail.codec

/-- A file of more than 521 chunks is never uploaded: its registration is above the limit, and what
the upload wrote is removed again. -/
theorem oversize_upload_refused (h : HexDigest sha256)
    (hsize : u.chunkSizeBytes * 521 < u.buffer.length) (w : World) :
    ∃ e, (wireStep sha256 fold app w (.upload u)).1 = .uploaded (.error e) ∧
      (u.outcomes.registration = .replied → e = .app .internal) ∧
      (wireStep sha256 fold app w (.upload u)).2.metadata = w.metadata ∧
      (wireStep sha256 fold app w (.upload u)).2.backend.objects = w.backend.objects ∧
      (wireStep sha256 fold app w (.upload u)).2.chunkUploads = w.chunkUploads := by
  have hbuffer : u.buffer ≠ [] := by
    intro hempty
    rw [hempty] at hsize
    exact absurd hsize (Nat.not_lt_zero _)
  have habove : ¬(u.body sha256).length ≤ bodyLimit := by
    have hpieces := Upload.lt_length_pieces sha256 hsize
    have hchunks := Upload.chunkBytes_ge (u.pieces sha256)
    have htype : 2 ≤ Json.size (.ofString u.mimeType) := by
      rw [Json.size_ofString]
      exact Nat.le_add_left _ _
    rw [Upload.length_body h hbuffer, bodyLimit]
    omega
  obtain ⟨e, hregister, he⟩ := Upload.register_above app habove w.metadata
  obtain ⟨stored, b, hstored, hkeys, hpayload, hobj⟩ :=
    UploadService.storeChunks_ok ((u.service sha256).onClient
      (wireMetadataClient app u.generated u.outcomes)) rfl (fun _ => rfl) hbuffer u.mimeType
      w.backend fun _ _ => rfl
  have hback := UploadService.rollback ((u.service sha256).onClient
    (wireMetadataClient app u.generated u.outcomes)) rfl (fun _ => rfl) hobj
  have hpay : stored.payload = u.payload sha256 :=
    hpayload.trans ((u.service sha256).payload_onClient u.mimeType u.buffer)
  rcases UploadService.upload_cases (s := w) u.ownerId u.target hstored with
    ⟨e', m, hreg, hup⟩ | ⟨result, m, fileId, ownerId, fileName, hreg, -⟩ |
    ⟨result, m, fileId, e', -, hreg, -, -⟩ <;> rw [hpay, hregister] at hreg <;> cases hreg
  have hstep : wireStep sha256 fold app w (.upload u) = (.uploaded (.error e), { w with
      metadata := w.metadata, backend := UploadService.deleteAll
        ((u.service sha256).onClient (wireMetadataClient app u.generated u.outcomes)).storageBackend
        stored.newlyWrittenKeys b }) := by
    rw [wireStep, hup]
  rw [← hkeys] at hback
  rw [hstep]
  exact ⟨e, rfl, he, rfl, hback, rfl⟩

/-- 522 bytes in chunks of one byte. -/
def manyChunksUpload : Upload :=
  { byteUpload with chunkSizeBytes := singleByte, buffer := List.replicate 522 1 }

theorem oversize_upload_refused_manyChunks : ∃ e, (wireStep repeatedByteSha256 id plainApp .empty
      (.upload manyChunksUpload)).1 = .uploaded (.error e) ∧
    (manyChunksUpload.outcomes.registration = .replied → e = .app .internal) ∧
    (wireStep repeatedByteSha256 id plainApp .empty (.upload manyChunksUpload)).2.metadata =
      World.empty.metadata ∧
    (wireStep repeatedByteSha256 id plainApp .empty
      (.upload manyChunksUpload)).2.backend.objects = World.empty.backend.objects ∧
    (wireStep repeatedByteSha256 id plainApp .empty (.upload manyChunksUpload)).2.chunkUploads =
      World.empty.chunkUploads := by
  apply oversize_upload_refused repeatedByteSha256_hex
  show 1 * 521 < (List.replicate 522 1).length
  rw [List.length_replicate]
  decide

end IntelliStore.Platform
