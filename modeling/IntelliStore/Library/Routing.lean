import Mathlib.Data.List.Basic

/-! Routing by path and method in the way of Express: the checks and the routes of a router are
tried in order, below the path where it is mounted. A path is the list of its segments: "/a/b" is
`["a", "b"]`, "/a/" is `["a", ""]` and "/" is `[""]`. -/

namespace Library.Routing

inductive Method where
  | get
  | head
  | post
  | put
  | patch
  | delete
  | options
  | other (name : String)
  deriving DecidableEq

/-- A route for GET answers HEAD as well. -/
def Method.answers : Method → Method → Bool
  | .get, .head => true
  | declared, method => declared = method

/-! ### Paths -/

/-- The case of the letters does not count. -/
def sameText (a b : String) : Bool := a.toList.map Char.toUpper = b.toList.map Char.toUpper

inductive Piece where
  | literal (text : String)
  | param

/-- The segments in the places of the parameters. -/
def matchPath : List Piece → List String → Option (List String)
  | [], [] => some []
  -- a slash at the end is optional
  | [], [segment] => if segment = "" then some [] else none
  | .literal text :: pieces, segment :: path =>
    if sameText text segment then matchPath pieces path else none
  | .param :: pieces, segment :: path =>
    if segment = "" then none else (matchPath pieces path).map (segment :: ·)
  | _, _ => none

def afterMount : List String → List String → Option (List String)
  | [], path => some path
  | text :: mount, segment :: path => if sameText text segment then afterMount mount path else none
  | _ :: _, [] => none

/-- What is left of a path below a mount path. One slash may follow the mount path before the
slash that begins the rest. -/
def stripMount (mount path : List String) : Option (List String) :=
  if mount = [] then some path
  else (afterMount mount path).map fun
    | [] => [""]
    | "" :: segment :: path => segment :: path
    | path => path

def hexValue (c : Char) : Option UInt8 :=
  if '0' ≤ c ∧ c ≤ '9' then some (UInt8.ofNat (c.toNat - 48))
  else if 'a' ≤ c ∧ c ≤ 'f' then some (UInt8.ofNat (c.toNat - 87))
  else if 'A' ≤ c ∧ c ≤ 'F' then some (UInt8.ofNat (c.toNat - 55))
  else none

def percentBytes : List Char → Option (List UInt8)
  | [] => some []
  | c :: cs =>
    if c = '%' then
      match cs with
      | c₁ :: c₂ :: rest => do
        let hi ← hexValue c₁
        let lo ← hexValue c₂
        let bytes ← percentBytes rest
        some ((16 * hi + lo) :: bytes)
      | _ => none
    else (percentBytes cs).map (String.utf8EncodeChar c ++ ·)

def decodeURIComponent (s : String) : Option String :=
  (percentBytes s.toList).bind fun bytes => String.fromUTF8? bytes.toByteArray

/-! ### Routers -/

variable {R E H : Type}

/-- A check ends the request or passes it on. -/
inductive Layer (R E H : Type) where
  | use (check : R → Option E)
  | route (method : Method) (path : List Piece) (handler : List String → R → Except E H)

/-- What a router makes of a request, or `none` if it passes it on; `undecodable` answers a
parameter that cannot be decoded, whatever the method is. -/
def dispatch (undecodable : E) (method : Method) (path : List String) (r : R) :
    List (Layer R E H) → Option (Except E H)
  | [] => none
  | .use check :: layers =>
    match check r with
    | some e => some (.error e)
    | none => dispatch undecodable method path r layers
  | .route declared pieces handler :: layers =>
    match (matchPath pieces path).map (·.mapM decodeURIComponent) with
    | none => dispatch undecodable method path r layers
    | some none => some (.error undecodable)
    | some (some params) =>
      if declared.answers method then some (handler params r)
      else dispatch undecodable method path r layers

/-- The routers of an application, each at its mount path. -/
def dispatchApp (undecodable : E) (method : Method) (path : List String) (r : R) :
    List (List String × List (Layer R E H)) → Option (Except E H)
  | [] => none
  | (mount, layers) :: app =>
    match (stripMount mount path).bind fun path => dispatch undecodable method path r layers with
    | some result => some result
    | none => dispatchApp undecodable method path r app

theorem mapM_eq_singleton {α β : Type} {f : α → Option β} {as : List α} {b : β}
    (h : as.mapM f = some [b]) : ∃ a, as = [a] ∧ f a = some b := by
  cases as with
  | nil => cases h
  | cons a as =>
    rw [List.mapM_cons] at h
    obtain ⟨b', hb, h⟩ := Option.bind_eq_some_iff.mp h
    obtain ⟨bs, hbs, h⟩ := Option.bind_eq_some_iff.mp h
    cases h
    cases as with
    | nil => exact ⟨a, rfl, hb⟩
    | cons a' as =>
      rw [List.mapM_cons] at hbs
      obtain ⟨_, -, hbs⟩ := Option.bind_eq_some_iff.mp hbs
      obtain ⟨_, -, hbs⟩ := Option.bind_eq_some_iff.mp hbs
      cases hbs

theorem exists_of_mapM_cons {α β : Type} {f : α → Option β} {as : List α} {b : β} {bs : List β}
    (h : as.mapM f = some (b :: bs)) : ∃ a ∈ as, f a = some b := by
  cases as with
  | nil => cases h
  | cons a as =>
    rw [List.mapM_cons] at h
    obtain ⟨b', hb, h⟩ := Option.bind_eq_some_iff.mp h
    obtain ⟨bs', -, h⟩ := Option.bind_eq_some_iff.mp h
    cases h
    exact ⟨a, List.mem_cons_self, hb⟩

/-- The parameters are segments of the path, and not empty. -/
theorem mem_of_matchPath {pieces : List Piece} {path segments : List String} {segment : String}
    (h : matchPath pieces path = some segments) (hmem : segment ∈ segments) :
    segment ∈ path ∧ segment ≠ "" := by
  induction pieces generalizing path segments with
  | nil =>
    have hnil : segments = [] := by
      unfold matchPath at h
      split at h <;> grind
    rw [hnil] at hmem
    cases hmem
  | cons piece pieces ih =>
    cases path with
    | nil => cases piece <;> cases h
    | cons first path =>
      cases piece with
      | literal text =>
        rw [matchPath] at h
        split_ifs at h
        have hlater := ih h hmem
        exact ⟨List.mem_cons_of_mem _ hlater.1, hlater.2⟩
      | param =>
        rw [matchPath] at h
        split_ifs at h with hfirst
        obtain ⟨later, hlater, rfl⟩ := Option.map_eq_some_iff.mp h
        rcases List.mem_cons.mp hmem with rfl | hmem
        · exact ⟨List.mem_cons_self, hfirst⟩
        · have hlater := ih hlater hmem
          exact ⟨List.mem_cons_of_mem _ hlater.1, hlater.2⟩

theorem mem_of_afterMount {mount path rest : List String} {segment : String}
    (h : afterMount mount path = some rest) (hmem : segment ∈ rest) : segment ∈ path := by
  induction mount generalizing path with
  | nil =>
    cases h
    exact hmem
  | cons text mount ih =>
    cases path with
    | nil => cases h
    | cons first path =>
      rw [afterMount] at h
      split_ifs at h
      exact List.mem_cons_of_mem _ (ih h)

/-- Below a mount path stand the segments of the path, besides empty ones. -/
theorem mem_of_stripMount {mount path rest : List String} {segment : String}
    (h : stripMount mount path = some rest) (hmem : segment ∈ rest) (hne : segment ≠ "") :
    segment ∈ path := by
  unfold stripMount at h
  split_ifs at h
  · cases h
    exact hmem
  · obtain ⟨after, hafter, hrest⟩ := Option.map_eq_some_iff.mp h
    apply mem_of_afterMount hafter
    split at hrest
    · rw [← hrest, List.mem_singleton] at hmem
      exact absurd hmem hne
    · rw [← hrest] at hmem
      exact List.mem_cons_of_mem _ hmem
    · rwa [hrest]

/-! ### What a request reaches -/

/-- The handler of a route, on the parameters of a path. -/
def Reaches (method : Method) (path : List String) (r : R) (layers : List (Layer R E H)) (h : H) :
    Prop :=
  ∃ declared pieces handler segments params, .route declared pieces handler ∈ layers ∧
    declared.answers method = true ∧ matchPath pieces path = some segments ∧
    segments.mapM decodeURIComponent = some params ∧ handler params r = .ok h

variable {undecodable : E} {method : Method} {path : List String} {r : R}
  {layers : List (Layer R E H)} {app : List (List String × List (Layer R E H))} {h : H}

/-- A check that ends the request stands before every route after it. -/
theorem dispatch_use {check : R → Option E} {e : E} (hcheck : check r = some e) :
    dispatch undecodable method path r (.use check :: layers) = some (.error e) := by
  rw [dispatch, hcheck]

theorem Reaches.tail {layer : Layer R E H} (hreach : Reaches method path r layers h) :
    Reaches method path r (layer :: layers) h := by
  obtain ⟨declared, pieces, handler, segments, params, hmem, hrest⟩ := hreach
  exact ⟨declared, pieces, handler, segments, params, List.mem_cons_of_mem _ hmem, hrest⟩

/-- A router that handles a request has a route for it. -/
theorem reaches_of_dispatch (hok : dispatch undecodable method path r layers = some (.ok h)) :
    Reaches method path r layers h := by
  induction layers with
  | nil => cases hok
  | cons layer layers ih =>
    cases layer with
    | use check =>
      rw [dispatch] at hok
      cases hcheck : check r with
      | some e =>
        rw [hcheck] at hok
        cases hok
      | none =>
        rw [hcheck] at hok
        exact (ih hok).tail
    | route declared pieces handler =>
      rw [dispatch] at hok
      cases hmatch : matchPath pieces path with
      | none =>
        rw [hmatch] at hok
        exact (ih hok).tail
      | some segments =>
        cases hdecode : segments.mapM decodeURIComponent with
        | none =>
          simp only [hmatch, hdecode, Option.map_some] at hok
          cases hok
        | some params =>
          simp only [hmatch, hdecode, Option.map_some] at hok
          split_ifs at hok with hmethod
          · exact ⟨declared, pieces, handler, segments, params, List.mem_cons_self, hmethod,
              hmatch, hdecode, Option.some_inj.mp hok⟩
          · exact (ih hok).tail

/-- An application that handles a request does so in a router mounted on its path. -/
theorem reaches_of_dispatchApp (hok : dispatchApp undecodable method path r app = some (.ok h)) :
    ∃ mount layers sub, (mount, layers) ∈ app ∧ stripMount mount path = some sub ∧
      dispatch undecodable method sub r layers = some (.ok h) := by
  induction app with
  | nil => cases hok
  | cons router app ih =>
    obtain ⟨mount, layers⟩ := router
    rw [dispatchApp] at hok
    cases hhere : (stripMount mount path).bind fun path =>
        dispatch undecodable method path r layers with
    | some result =>
      rw [hhere] at hok
      cases hok
      obtain ⟨sub, hsub, hdispatch⟩ := Option.bind_eq_some_iff.mp hhere
      exact ⟨mount, layers, sub, List.mem_cons_self, hsub, hdispatch⟩
    | none =>
      rw [hhere] at hok
      obtain ⟨mount', layers', sub, hmem, hsub⟩ := ih hok
      exact ⟨mount', layers', sub, List.mem_cons_of_mem _ hmem, hsub⟩

/-! ### Names without percent signs -/

theorem percentBytes_of_plain {cs : List Char} (hcs : '%' ∉ cs) :
    percentBytes cs = some (cs.flatMap String.utf8EncodeChar) := by
  induction cs with
  | nil => rfl
  | cons c cs ih =>
    rw [List.mem_cons, not_or] at hcs
    unfold percentBytes
    rw [if_neg (Ne.symm hcs.1), ih hcs.2]
    rfl

theorem decodeURIComponent_of_plain {s : String} (hs : '%' ∉ s.toList) :
    decodeURIComponent s = some s := by
  have hbytes : (s.toList.flatMap String.utf8EncodeChar).toByteArray = s.toByteArray := by
    conv_rhs => rw [← String.ofList_toList (s := s)]
    rfl
  rw [decodeURIComponent, percentBytes_of_plain hs, Option.bind_some, hbytes, String.fromUTF8?,
    dif_pos s.isValidUTF8]
  rfl

end Library.Routing
