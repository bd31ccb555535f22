import IntelliStore.Gateway.Routes
import IntelliStore.Library.Url

/-! The requests of `HttpMetadataClient` for one file, from the path it builds to the route of
metadata-service that answers it. -/

namespace IntelliStore.Storage.HttpMetadataClient
open Library Library.Routing Library.Url Gateway

/-- The text of a positive integer: digits, and from 10^21 on a fraction and an exponent. -/
structure VersionText where
  text : String
  starts : ∀ c ∈ text.toList.head?, c.isDigit = true
  nonempty : text.toList ≠ []
  chars : ∀ c ∈ text.toList, c.isDigit = true ∨ c ∈ ['.', 'e', '+']

/-- A number below 10^21 is written in digits only. -/
def VersionText.ofNat (n : Nat) : VersionText where
  text := n.repr
  starts := by
    intro c hc
    rw [Nat.toList_repr] at hc
    exact Nat.isDigit_of_mem_toDigits (by decide) (by decide) (List.mem_of_mem_head? hc)
  nonempty := by
    rw [Nat.toList_repr]
    exact Nat.toDigits_ne_nil
  chars := by
    intro c hc
    rw [Nat.toList_repr] at hc
    exact Or.inl (Nat.isDigit_of_mem_toDigits (by decide) (by decide) hc)

inductive Operation where
  | getFileDetail
  | getVersionDetail (versionNumber : VersionText)
  | addVersion

namespace Operation

def method : Operation → Method
  | getFileDetail => .get
  | getVersionDetail _ => .get
  | addVersion => .post

/-- What follows the id in the path. -/
def suffix : Operation → String
  | getFileDetail => ""
  | getVersionDetail versionNumber => "/versions/" ++ versionNumber.text
  | addVersion => "/versions"

/-- `/files/${fileId}`, `/files/${fileId}/versions/${versionNumber}`, `/files/${fileId}/versions` -/
def path (op : Operation) (fileId : String) : String := "/files/" ++ fileId ++ op.suffix

/-- The handler that the operation is meant for. -/
def handler (fileId : String) : Operation → Guarded
  | getFileDetail => .getFile fileId
  | getVersionDetail versionNumber => .getVersion fileId versionNumber.text
  | addVersion => .addVersion fileId

end Operation

/-- The id as the URL has it. -/
def encoded (fileId : String) : String := String.ofList (percentEncode fileId.toList)

/-- The names of the path. -/
def Operation.names (fileId : String) : Operation → List String
  | .getFileDetail => ["files", encoded fileId]
  | .getVersionDetail versionNumber => ["files", encoded fileId, "versions", versionNumber.text]
  | .addVersion => ["files", encoded fileId, "versions"]

variable {τ : Type}

/-- The request reaches the handler it is meant for, and has no query. -/
structure Reaches (isEmail : String → Bool) (verify : String → Option Auth.Payload)
    (r : Gateway.Request τ) (op : Operation) (fileId : String) : Prop where
  query : (parse (op.path fileId)).query = ""
  route : respond isEmail verify .metadata (parse (op.path fileId)).path r =
    .ok (.guarded (op.handler fileId))

/-- A request of the client, with a token that metadata-service accepts. -/
structure Sent (verify : String → Option Auth.Payload) (r : Gateway.Request τ) (op : Operation) :
    Prop where
  method : r.method = op.method
  parsed : r.body.parsed = true
  authenticated : requireAuth verify r = none

/-- The ids that the path carries as they are. -/
structure Carries (op : Operation) (fileId : String) : Prop where
  nonempty : fileId ≠ ""
  not_here : fileId ≠ "."
  not_parent : fileId ≠ ".."
  plain : ∀ c ∈ fileId.toList, Plain c
  last : op = .getFileDetail → fileId.toList.rdropWhile isControlOrSpace = fileId.toList
  free : op = .getFileDetail → sameText "_stats" fileId = false ∧ sameText "search" fileId = false

/-! ### What the routes answer -/

variable {isEmail : String → Bool} {verify : String → Option Auth.Payload} {r : Gateway.Request τ}
  {op : Operation} {fileId name : String}

theorem respond_below (hsent : Sent verify r op) {path rest : List String}
    (hstrip : stripMount ["files"] ("files" :: path) = some rest) :
    respond isEmail verify .metadata ("files" :: path) r =
      match dispatch (.error .internal) r.method rest r (fileRouter verify) with
      | some result => result
      | none => .error (.error (.notFound "Route not found")) := by
  have hoptions : ¬r.method = .options := by
    rw [hsent.method]
    cases op <;> exact Method.noConfusion
  have hcors : ∀ path, dispatch (.error .internal) r.method path r [cors, json] = none := by
    intro path
    simp only [cors, json, dispatch, if_neg hoptions, hsent.parsed, if_true]
  have hhealth : dispatch (.error .internal) r.method ("files" :: path) r healthRouter = none := rfl
  have hmount : ∀ path, stripMount [] path = some path := fun _ => rfl
  simp only [respond, createApp, dispatchApp, hmount, Option.bind_some, hcors, hhealth, hstrip]
  cases dispatch (.error .internal) r.method rest r (fileRouter verify) <;> rfl

theorem respond_files (hsent : Sent verify r op) (hname : name ≠ "") (rest : List String) :
    respond isEmail verify .metadata ("files" :: name :: rest) r =
      match dispatch (.error .internal) r.method (name :: rest) r (fileRouter verify) with
      | some result => result
      | none => .error (.error (.notFound "Route not found")) := by
  apply respond_below hsent
  have hafter : afterMount ["files"] ("files" :: name :: rest) = some (name :: rest) := rfl
  rw [stripMount, if_neg (List.cons_ne_nil _ _), hafter, Option.map_some]
  split
  · rename_i heq
    exact absurd heq (List.cons_ne_nil _ _)
  · rename_i heq
    exact absurd (List.cons.inj heq).1 hname
  · rfl

/-- A registration has no id in its path. -/
theorem respond_registerFile (hsent : Sent verify r .addVersion) :
    respond isEmail verify .metadata ["files"] r = .ok (.guarded .registerFile) := by
  have hmethod : r.method = .post := hsent.method
  have hstrip : stripMount ["files"] ["files"] = some [""] := rfl
  rw [respond_below hsent hstrip]
  simp only [fileRouter, dispatch, hsent.authenticated, hmethod, matchPath]
  rfl

/-- The literal siblings of `/:id` come before it. -/
theorem respond_getFileDetail (hsent : Sent verify r .getFileDetail) (hname : name ≠ "") :
    respond isEmail verify .metadata ["files", name] r =
      if sameText "_stats" name then .ok (.guarded .getSystemStats)
      else if sameText "search" name then .ok (.guarded .searchFiles)
      else
        match decodeURIComponent name with
        | some id => .ok (.guarded (.getFile id))
        | none => .error (.error .internal) := by
  have hmethod : r.method = .get := hsent.method
  rw [respond_files hsent hname]
  simp only [fileRouter, dispatch, hsent.authenticated, hmethod, matchPath, if_neg hname]
  by_cases hstats : sameText "_stats" name = true
  · simp only [hstats, if_true]
    rfl
  · by_cases hsearch : sameText "search" name = true
    · simp only [hstats, hsearch, if_true]
      rfl
    · simp only [hstats, hsearch]
      cases hdecode : decodeURIComponent name with
      | none => simp [hdecode]
      | some id => simp [hdecode, Method.answers, guarded₁, withParams]

theorem respond_addVersion (hsent : Sent verify r .addVersion) (hname : name ≠ "") :
    respond isEmail verify .metadata ["files", name, "versions"] r =
      match decodeURIComponent name with
      | some id => .ok (.guarded (.addVersion id))
      | none => .error (.error .internal) := by
  have hmethod : r.method = .post := hsent.method
  have hversions : sameText "versions" "versions" = true := by decide
  rw [respond_files hsent hname]
  simp only [fileRouter, dispatch, hsent.authenticated, hmethod, matchPath, if_neg hname,
    hversions, if_true]
  cases hdecode : decodeURIComponent name with
  | none => simp [hdecode]
  | some id => simp [hdecode, Method.answers, guarded₁, withParams]

theorem respond_getVersionDetail {versionNumber : VersionText} {number : String}
    (hsent : Sent verify r (.getVersionDetail versionNumber)) (hname : name ≠ "")
    (hnumber : number ≠ "") (hdecodes : decodeURIComponent number = some number) :
    respond isEmail verify .metadata ["files", name, "versions", number] r =
      match decodeURIComponent name with
      | some id => .ok (.guarded (.getVersion id number))
      | none => .error (.error .internal) := by
  have hmethod : r.method = .get := hsent.method
  have hversions : sameText "versions" "versions" = true := by decide
  rw [respond_files hsent hname]
  simp only [fileRouter, dispatch, hsent.authenticated, hmethod, matchPath, if_neg hname,
    if_neg hnumber, hversions, if_true]
  cases hdecode : decodeURIComponent name with
  | none => simp [List.mapM_cons, hdecode]
  | some id => simp [List.mapM_cons, hdecode, hdecodes, Method.answers, guarded₂, withParams]

/-! ### What the path is read as -/

theorem VersionText.unchanged (v : VersionText) :
    ∀ c ∈ v.text.toList, Plain c ∧ isEncoded c = false := by
  intro c hc
  rcases v.chars c hc with hdigit | hother
  · exact plain_of_isDigit hdigit
  · have hall : ∀ c ∈ ['.', 'e', '+'], Plain c ∧ isEncoded c = false :=
      forall_of_all (by decide)
    exact hall c hother

theorem VersionText.isName (v : VersionText) : Name v.text.toList := by
  have hpercent : '%' ∉ v.text.toList := fun hmem => (v.unchanged _ hmem).1.not_percent rfl
  have hdot : ∀ rest, v.text.toList ≠ '.' :: rest := by
    intro rest heq
    have hstart : '.'.isDigit = true := v.starts '.' (by rw [heq]; rfl)
    exact absurd hstart (by decide)
  exact {
    nonempty := v.nonempty
    not_single := isSingleDot_eq_false hpercent (hdot _)
    not_double := isDoubleDot_eq_false hpercent (hdot _)
    plain := fun c hc => (v.unchanged c hc).1 }

theorem name_files : Name "files".toList :=
  ⟨by decide, by decide, by decide, forall_of_all (by decide)⟩

theorem name_versions : Name "versions".toList :=
  ⟨by decide, by decide, by decide, forall_of_all (by decide)⟩

theorem Carries.isName (h : Carries op fileId) : Name fileId.toList := by
  have hpercent : '%' ∉ fileId.toList := fun hmem => (h.plain _ hmem).not_percent rfl
  have hne : ∀ text : String, fileId ≠ text → fileId.toList ≠ text.toList :=
    fun text hne heq => hne (String.toList_inj.mp heq)
  exact {
    nonempty := hne "" h.nonempty
    not_single := isSingleDot_eq_false hpercent (hne _ h.not_here)
    not_double := isDoubleDot_eq_false hpercent (hne _ h.not_parent)
    plain := h.plain }

theorem encoded_of_unchanged {text : String} (h : ∀ c ∈ text.toList, isEncoded c = false) :
    encoded text = text := by
  rw [encoded, percentEncode_eq_self h, String.ofList_toList]

theorem parse_path (hname : Name fileId.toList) (hlast : op = .getFileDetail →
      fileId.toList.rdropWhile isControlOrSpace = fileId.toList) :
    parse (op.path fileId) = ⟨op.names fileId, ""⟩ := by
  have hfiles : encoded "files" = "files" :=
    encoded_of_unchanged (forall_of_all (by decide))
  have hversions : encoded "versions" = "versions" :=
    encoded_of_unchanged (forall_of_all (by decide))
  cases op with
  | getFileDetail =>
    have htext : ((Operation.getFileDetail).path fileId).toList =
        joined (["files".toList] ++ [fileId.toList]) := by
      simp [Operation.path, Operation.suffix, joined]
    have hnames : ∀ s ∈ ["files".toList] ++ [fileId.toList], Name s := by
      simpa using ⟨name_files, hname⟩
    rw [parse_joined htext hnames (hlast rfl)]
    change Target.mk [encoded "files", encoded fileId] "" = _
    rw [hfiles]
    rfl
  | getVersionDetail v =>
    have htext : ((Operation.getVersionDetail v).path fileId).toList =
        joined (["files".toList, fileId.toList, "versions".toList] ++ [v.text.toList]) := by
      simp [Operation.path, Operation.suffix, joined]
    have hnames : ∀ s ∈ ["files".toList, fileId.toList, "versions".toList] ++ [v.text.toList],
        Name s := by
      simpa using ⟨name_files, hname, name_versions, v.isName⟩
    have hunchanged : ∀ c ∈ v.text.toList, isEncoded c = false := fun c hc => (v.unchanged c hc).2
    rw [parse_joined htext hnames (rdropWhile_of_not_encoded hunchanged)]
    change Target.mk [encoded "files", encoded fileId, encoded "versions", encoded v.text] "" = _
    rw [hfiles, hversions, encoded_of_unchanged hunchanged]
    rfl
  | addVersion =>
    have htext : ((Operation.addVersion).path fileId).toList =
        joined (["files".toList, fileId.toList] ++ ["versions".toList]) := by
      simp [Operation.path, Operation.suffix, joined]
    have hnames : ∀ s ∈ ["files".toList, fileId.toList] ++ ["versions".toList], Name s := by
      simpa using ⟨name_files, hname, name_versions⟩
    rw [parse_joined htext hnames (by decide)]
    change Target.mk [encoded "files", encoded fileId, encoded "versions"] "" = _
    rw [hfiles, hversions]
    rfl

/-- An id is the name of a literal sibling of `/:id` exactly if its encoding is. -/
theorem sameText_encoded {text : String}
    (htext : ∀ c ∈ text.toList.map Char.toUpper, c ≠ '%' ∧ isEncoded c = false) :
    sameText text (encoded fileId) = sameText text fileId := by
  rw [encoded, sameText_percentEncode htext, String.ofList_toList]

theorem decode_encoded (hname : Name fileId.toList) :
    decodeURIComponent (encoded fileId) = some fileId := by
  have hpercent : '%' ∉ fileId.toList := fun hmem => (hname.plain _ hmem).not_percent rfl
  rw [encoded, decodeURIComponent_percentEncode, String.ofList_toList,
    decodeURIComponent_of_plain hpercent]

theorem encoded_ne_empty (hname : Name fileId.toList) : encoded fileId ≠ "" := by
  intro heq
  have hdecode := decode_encoded hname
  rw [heq, decodeURIComponent_of_plain (by decide)] at hdecode
  exact hname.nonempty (Option.some.inj hdecode ▸ rfl)

/-- An id that stands in the path as it is reaches its handler, unless it is taken. -/
theorem respond_names (hsent : Sent verify r op) (hname : Name fileId.toList) :
    respond isEmail verify .metadata (op.names fileId) r =
      match op with
      | .getFileDetail =>
        if sameText "_stats" fileId then .ok (.guarded .getSystemStats)
        else if sameText "search" fileId then .ok (.guarded .searchFiles)
        else .ok (.guarded (.getFile fileId))
      | op => .ok (.guarded (op.handler fileId)) := by
  have hne := encoded_ne_empty hname
  have hdecode := decode_encoded hname
  cases op with
  | getFileDetail =>
    have hstats : sameText "_stats" (encoded fileId) = sameText "_stats" fileId :=
      sameText_encoded (forall_of_all (by decide))
    have hsearch : sameText "search" (encoded fileId) = sameText "search" fileId :=
      sameText_encoded (forall_of_all (by decide))
    rw [Operation.names, respond_getFileDetail hsent hne, hstats, hsearch, hdecode]
  | getVersionDetail v =>
    have hnumber : v.text ≠ "" := fun heq => v.nonempty (heq ▸ rfl)
    have hpercent : '%' ∉ v.text.toList := fun hmem => (v.unchanged _ hmem).1.not_percent rfl
    rw [Operation.names, respond_getVersionDetail hsent hne hnumber
      (decodeURIComponent_of_plain hpercent), hdecode]
    rfl
  | addVersion =>
    rw [Operation.names, respond_addVersion hsent hne, hdecode]
    rfl

theorem reaches_of_carries (hsent : Sent verify r op) (h : Carries op fileId) :
    Reaches isEmail verify r op fileId := by
  have hparse := parse_path h.isName h.last
  constructor
  case query => rw [hparse]
  case route =>
    rw [hparse, respond_names hsent h.isName]
    cases op with
    | getFileDetail =>
      rw [(h.free rfl).1, (h.free rfl).2]
      rfl
    | getVersionDetail v => rfl
    | addVersion => rfl

/-! ### Where the id comes from -/

theorem guarded₁_ok {handler : String → Guarded} {params : List String} {action : Action τ}
    (h : guarded₁ handler params r = .ok action) :
    ∃ a, params = [a] ∧ action = .guarded (handler a) := by
  unfold guarded₁ withParams at h
  cases params with
  | nil => cases h
  | cons a params =>
    cases params with
    | nil => exact ⟨a, rfl, (Except.ok.inj h).symm⟩
    | cons b params => cases h

theorem guarded₂_ok {handler : String → String → Guarded} {params : List String}
    {action : Action τ} (h : guarded₂ handler params r = .ok action) :
    ∃ a b, params = [a, b] ∧ action = .guarded (handler a b) := by
  unfold guarded₂ withParams at h
  cases params with
  | nil => cases h
  | cons a params =>
    cases params with
    | nil => cases h
    | cons b params =>
      cases params with
      | nil => exact ⟨a, b, rfl, (Except.ok.inj h).symm⟩
      | cons c params => cases h

/-- The first parameter of the handler that the operation is meant for is the id. -/
theorem params_of_fileRouter {path : List String}
    (h : Routing.Reaches r.method path r (fileRouter verify) (.guarded (op.handler fileId))) :
    ∃ segment ∈ path, segment ≠ "" ∧ decodeURIComponent segment = some fileId := by
  obtain ⟨declared, pieces, handler, segments, params, hmem, -, hmatch, hdecode, haction⟩ := h
  have hfirst : ∃ rest, params = fileId :: rest := by
    have hone : ∀ f : String → Guarded, guarded₁ f params r = .ok (.guarded (op.handler fileId)) →
        (∀ a, f a = op.handler fileId → a = fileId) → ∃ rest, params = fileId :: rest := by
      intro f haction hf
      obtain ⟨a, rfl, hguarded⟩ := guarded₁_ok haction
      exact ⟨[], by rw [hf a (Action.guarded.inj hguarded).symm]⟩
    simp only [fileRouter, List.mem_cons, List.not_mem_nil, or_false] at hmem
    rcases hmem with heq | heq | heq | heq | heq | heq | heq | heq | heq <;> cases heq
    -- the handlers without an id are not meant
    iterate 4 cases op <;> cases haction
    · exact hone _ haction fun a ha => by cases op <;> cases ha; rfl
    · exact hone _ haction fun a ha => by cases op <;> cases ha
    · exact hone _ haction fun a ha => by cases op <;> cases ha; rfl
    · obtain ⟨a, b, rfl, hguarded⟩ := guarded₂_ok haction
      cases op <;> cases hguarded
      exact ⟨[_], rfl⟩
  obtain ⟨rest, rfl⟩ := hfirst
  obtain ⟨segment, hsegment, hsegmentDecode⟩ := exists_of_mapM_cons hdecode
  have hpath := mem_of_matchPath hmatch hsegment
  exact ⟨segment, hpath.1, hpath.2, hsegmentDecode⟩

theorem segment_of_respond {path : List String}
    (h : respond isEmail verify .metadata path r = .ok (.guarded (op.handler fileId))) :
    ∃ segment ∈ path, segment ≠ "" ∧ decodeURIComponent segment = some fileId := by
  unfold respond at h
  split at h
  · rename_i result hresult
    obtain ⟨mount, layers, rest, hmem, hstrip, hdispatch⟩ :=
      reaches_of_dispatchApp (h ▸ hresult)
    have hreach := reaches_of_dispatch hdispatch
    simp only [createApp, List.mem_cons, List.not_mem_nil, or_false, Prod.mk.injEq] at hmem
    rcases hmem with ⟨-, rfl⟩ | ⟨-, rfl⟩ | ⟨-, rfl⟩
    · obtain ⟨_, _, _, _, _, hroute, -⟩ := hreach
      rcases List.mem_pair.mp hroute with heq | heq <;> cases heq
    · obtain ⟨_, _, _, _, _, hroute, -, -, -, haction⟩ := hreach
      cases List.mem_singleton.mp hroute
      cases haction
    · obtain ⟨segment, hsegment, hne, hdecode⟩ := params_of_fileRouter hreach
      exact ⟨segment, mem_of_stripMount hstrip hsegment hne, hne, hdecode⟩
  · cases h

/-- A segment of the path is `files`, or lies in the text from the id on. -/
theorem mem_segments_path {segment : List Char}
    (h : segment ∈ segments (op.path fileId).toList) :
    segment = "files".toList ∨
      segment ∈ (pathText (fileId.toList ++ op.suffix.toList)).splitOnP isSlash := by
  have hwhole : Whole "/files/".toList :=
    ⟨by decide, forall_of_all (by decide), forall_of_all (by decide)⟩
  have htext : (op.path fileId).toList =
      "/files/".toList ++ (fileId.toList ++ op.suffix.toList) := by
    simp only [Operation.path, String.toList_append, List.append_assoc]
  rw [htext, segments_append name_files hwhole rfl] at h
  exact List.mem_cons.mp h

theorem mem_segments_getFileDetail {segment : List Char}
    (h : segment ∈ segments ((Operation.getFileDetail).path fileId).toList) :
    segment = "files".toList ∨
      segment.Sublist (fileId.toList.rdropWhile isControlOrSpace) := by
  apply (mem_segments_path h).imp_right
  intro hmem
  have htext : fileId.toList ++ (Operation.getFileDetail).suffix.toList = fileId.toList :=
    List.append_nil _
  rw [htext] at hmem
  exact (sublist_of_mem_splitOnP hmem).trans
    ((List.takeWhile_sublist _).trans (kept_sublist _))

/-- What stands after the id, besides the slash that begins it. -/
theorem suffix_cases (op : Operation) : op = .getFileDetail ∨ ∃ rest,
    op.suffix.toList = '/' :: rest ∧ rest.rdropWhile isControlOrSpace = rest ∧ '%' ∉ rest := by
  cases op with
  | getFileDetail => exact Or.inl rfl
  | getVersionDetail v =>
    have hunchanged : ∀ c ∈ v.text.toList, isEncoded c = false := fun c hc => (v.unchanged c hc).2
    have hpercent : '%' ∉ v.text.toList := fun hmem => (v.unchanged _ hmem).1.not_percent rfl
    refine Or.inr ⟨"versions".toList ++ '/' :: v.text.toList, ?_, ?_, ?_⟩
    · rw [Operation.suffix, String.toList_append]
      rfl
    · exact rdropWhile_after_slash (rdropWhile_of_not_encoded hunchanged)
    · rw [List.mem_append, List.mem_cons]
      have hversions : '%' ∉ "versions".toList := by decide
      exact not_or.mpr ⟨hversions, not_or.mpr ⟨by decide, hpercent⟩⟩
  | addVersion => exact Or.inr ⟨"versions".toList, rfl, by decide, by decide⟩

/-- A percent sign in the path comes from the id. -/
theorem sublist_of_percent_mem {segment : List Char}
    (h : segment ∈ segments (op.path fileId).toList) (hpercent : '%' ∈ segment) :
    segment.Sublist fileId.toList := by
  rcases suffix_cases op with rfl | ⟨rest, hsuffix, hrest, hnone⟩
  · rcases mem_segments_getFileDetail h with rfl | hsub
    · exact absurd hpercent (by decide)
    · exact hsub.trans (List.rdropWhile_prefix _ _).sublist
  · rcases mem_segments_path h with rfl | hmem
    · exact absurd hpercent (by decide)
    · rw [hsuffix] at hmem
      rcases sublist_of_mem_splitOnP_pathText hrest hmem with hsub | hsub
      · exact hsub
      · exact absurd (hsub.subset hpercent) hnone

/-- The id is a segment of the path, and no dots. -/
theorem segment_of_reaches (h : Reaches isEmail verify r op fileId) :
    fileId.toList ∈ segments (op.path fileId).toList ∧ Name fileId.toList := by
  obtain ⟨name, hmem, hne, hdecode⟩ := segment_of_respond h.route
  rcases mem_pathFrom hmem with hnil | hempty | ⟨segment, hsegment, hdouble, hsingle, rfl⟩
  · exact absurd hnil List.not_mem_nil
  · exact absurd hempty hne
  rw [decodeURIComponent_percentEncode] at hdecode
  have hpercent : '%' ∉ segment := by
    intro hpercent
    have hlt := lt_of_decodeURIComponent hdecode hpercent
    have hle := length_utf8_le (sublist_of_percent_mem hsegment hpercent)
    omega
  have hplain := plain_of_mem_segments hsegment hpercent
  have hid : segment = fileId.toList := by
    rw [decodeURIComponent_of_plain (by rwa [String.toList_ofList])] at hdecode
    rw [← Option.some.inj hdecode, String.toList_ofList]
  have hnonempty : segment ≠ [] := by
    rintro rfl
    exact hne rfl
  rw [← hid]
  exact ⟨hsegment, hnonempty, hsingle, hdouble, hplain⟩

theorem carries_of_reaches (hsent : Sent verify r op) (h : Reaches isEmail verify r op fileId) :
    Carries op fileId := by
  obtain ⟨hmem, hname⟩ := segment_of_reaches h
  have hlast : op = .getFileDetail →
      fileId.toList.rdropWhile isControlOrSpace = fileId.toList := by
    rintro rfl
    rcases mem_segments_getFileDetail hmem with hfiles | hsub
    · rw [hfiles]
      decide
    · exact (List.rdropWhile_prefix _ _).sublist.antisymm hsub
  have hroute := h.route
  rw [parse_path hname hlast, respond_names hsent hname] at hroute
  constructor
  case nonempty =>
    rintro rfl
    exact hname.nonempty rfl
  case not_here =>
    rintro rfl
    exact absurd hname.not_single (by decide)
  case not_parent =>
    rintro rfl
    exact absurd hname.not_double (by decide)
  case plain => exact hname.plain
  case last => exact hlast
  case free =>
    rintro rfl
    dsimp only at hroute
    split_ifs at hroute with hstats hsearch
    · cases hroute
    · cases hroute
    · exact ⟨Bool.eq_false_iff.mpr hstats, Bool.eq_false_iff.mpr hsearch⟩

/-- The request for an id reaches its handler exactly if the path carries the id. -/
theorem reaches_iff (hsent : Sent verify r op) :
    Reaches isEmail verify r op fileId ↔ Carries op fileId := by
  constructor
  · exact carries_of_reaches hsent
  · exact reaches_of_carries hsent

/-! ### Ids that are no names -/

/-- Every token is that of one user. -/
def oneUser : String → Option Auth.Payload := fun _ =>
  some (Auth.TokenClaims.payload ⟨"ada", "ada@example.com", .access⟩)

def userRequest (op : Operation) : Gateway.Request Unit :=
  ⟨op.method, [], some "Bearer token", ⟨true, none, none, none⟩⟩

theorem userRequest_sent (op : Operation) : Sent oneUser (userRequest op) op where
  method := rfl
  parsed := rfl
  authenticated := rfl

theorem reaches_iff_version : Reaches (fun _ => true) oneUser
    (userRequest (.getVersionDetail (.ofNat 12))) (.getVersionDetail (.ofNat 12)) "f-1" := by
  apply (reaches_iff (userRequest_sent _)).mpr
  exact {
    nonempty := by decide
    not_here := by decide
    not_parent := by decide
    plain := forall_of_all (by decide)
    last := Operation.noConfusion
    free := Operation.noConfusion }

/-- The details of `a/versions/1` are asked for at the path of a version of the file `a`. -/
theorem slash_in_fileId : ¬∀ op fileId, fileId ≠ "" →
    Reaches (fun _ => true) oneUser (userRequest op) op fileId := by
  intro h
  have hroute := (h .getFileDetail "a/versions/1" (by decide)).route
  have hpath : (parse ((Operation.getFileDetail).path "a/versions/1")).path =
    ["files", "a", "versions", "1"] := by decide
  have hanswer : respond (fun _ => true) oneUser .metadata ["files", "a", "versions", "1"]
      (userRequest .getFileDetail) = .ok (.guarded (.getVersion "a" "1")) := by
    have hsent : Sent oneUser (userRequest .getFileDetail) (.getVersionDetail (.ofNat 1)) :=
      ⟨rfl, rfl, rfl⟩
    have ha : decodeURIComponent "a" = some "a" := decodeURIComponent_of_plain (by decide)
    rw [respond_getVersionDetail hsent (by decide) (by decide)
      (decodeURIComponent_of_plain (by decide)), ha]
  rw [hpath, hanswer] at hroute
  cases hroute

end IntelliStore.Storage.HttpMetadataClient

