import IntelliStore.Library.Routing
import Mathlib.Data.List.DropRight
import Mathlib.Data.List.Flatten

/-! The path and the query of a URL, from the end of its authority on, as the URL standard has them
for "http" and "https"; and what a router decodes from the segments of the path. -/

namespace Library.Url
open Routing

def isControlOrSpace (c : Char) : Bool := c.toNat ≤ 0x20

def isTabOrNewline (c : Char) : Bool := c.toNat ∈ [0x9, 0xA, 0xD]

def isSlash (c : Char) : Bool := c.toNat ∈ [0x2F, 0x5C]

/-- A question mark or a number sign. -/
def endsPath (c : Char) : Bool := c.toNat ∈ [0x3F, 0x23]

/-- The path percent-encode set. -/
def isEncoded (c : Char) : Bool :=
  c.toNat < 0x20 || 0x7E < c.toNat ||
    c.toNat ∈ [0x20, 0x22, 0x23, 0x3C, 0x3E, 0x3F, 0x5E, 0x60, 0x7B, 0x7D]

def hexDigit (n : Nat) : Char := Char.ofNat (if n < 10 then 48 + n else 55 + n)

def encodeByte (b : UInt8) : List Char :=
  ['%', hexDigit (b.toNat / 16), hexDigit (b.toNat % 16)]

def encodeChar (c : Char) : List Char :=
  if isEncoded c then (String.utf8EncodeChar c).flatMap encodeByte else [c]

def percentEncode (segment : List Char) : List Char := segment.flatMap encodeChar

def isSingleDot (segment : List Char) : Bool :=
  segment.map Char.toLower ∈ [".".toList, "%2e".toList]

def isDoubleDot (segment : List Char) : Bool :=
  segment.map Char.toLower ∈ ["..".toList, ".%2e".toList, "%2e.".toList, "%2e%2e".toList]

/-- What dots leave of themselves: an empty name at the end of the path. -/
def trailing (segments : List (List Char)) : List String := if segments = [] then [""] else []

/-- The path after some more segments. -/
def pathFrom : List String → List (List Char) → List String
  | path, [] => path
  | path, segment :: segments =>
    if isDoubleDot segment then pathFrom (path.dropLast ++ trailing segments) segments
    else if isSingleDot segment then pathFrom (path ++ trailing segments) segments
    else pathFrom (path ++ [String.ofList (percentEncode segment)]) segments

structure Target where
  path : List String
  query : String

/-- What the parser keeps of the text. -/
def kept (text : List Char) : List Char :=
  (text.rdropWhile isControlOrSpace).filter fun c => !isTabOrNewline c

/-- The text of the path. -/
def pathText (text : List Char) : List Char := (kept text).takeWhile fun c => !endsPath c

/-- The segments after the slash that begins the text. -/
def segments (text : List Char) : List (List Char) := ((pathText text).splitOnP isSlash).tail

def parse (text : String) : Target where
  path := pathFrom [] (segments text.toList)
  query :=
    match (kept text.toList).dropWhile fun c => !endsPath c with
    | '?' :: query => String.ofList (query.takeWhile fun c => c ≠ '#')
    | _ => ""

variable {segment text front rest : List Char} {c : Char} {p q : Char → Bool}

/-- What holds of the characters of a text is checked on each of them. -/
theorem forall_of_all {P : Char → Prop} [DecidablePred P]
    (h : text.all (fun c => decide (P c)) = true) : ∀ c ∈ text, P c :=
  fun c hc => of_decide_eq_true (List.all_eq_true.mp h c hc)

/-! ### Segments -/

theorem sublist_of_mem_splitOnP (h : segment ∈ text.splitOnP p) : segment.Sublist text := by
  induction text generalizing segment with
  | nil =>
    rw [List.splitOnP_nil, List.mem_singleton] at h
    rw [h]
  | cons c text ih =>
    rw [List.splitOnP_cons_eq_if_modifyHead] at h
    split_ifs at h
    · rcases List.mem_cons.mp h with rfl | h
      · exact List.nil_sublist _
      · exact (ih h).cons c
    · cases hsplit : text.splitOnP p with
      | nil => exact absurd hsplit (List.splitOnP_ne_nil p text)
      | cons first rest =>
        rw [hsplit, List.modifyHead_cons, List.mem_cons] at h
        rcases h with rfl | h
        · exact (ih (hsplit ▸ List.mem_cons_self)).cons_cons c
        · exact (ih (hsplit ▸ List.mem_cons_of_mem _ h)).cons c

theorem not_of_mem_splitOnP (h : segment ∈ text.splitOnP p) : ∀ c ∈ segment, p c = false := by
  induction text generalizing segment with
  | nil =>
    rw [List.splitOnP_nil, List.mem_singleton] at h
    rw [h]
    exact fun c hc => absurd hc List.not_mem_nil
  | cons c text ih =>
    rw [List.splitOnP_cons_eq_if_modifyHead] at h
    split_ifs at h with hc
    · rcases List.mem_cons.mp h with rfl | h
      · exact fun c hc => absurd hc List.not_mem_nil
      · exact ih h
    · cases hsplit : text.splitOnP p with
      | nil => exact absurd hsplit (List.splitOnP_ne_nil p text)
      | cons first rest =>
        rw [hsplit, List.modifyHead_cons, List.mem_cons] at h
        rcases h with rfl | h
        · have hfirst := ih (hsplit ▸ List.mem_cons_self : first ∈ text.splitOnP p)
          exact List.forall_mem_cons.mpr ⟨Bool.eq_false_iff.mpr hc, hfirst⟩
        · exact ih (hsplit ▸ List.mem_cons_of_mem _ h)

/-- The names of a path are empty or come from a segment that is no dots. -/
theorem mem_pathFrom {name : String} {path : List String} {segments : List (List Char)}
    (h : name ∈ pathFrom path segments) :
    name ∈ path ∨ name = "" ∨ ∃ segment ∈ segments, isDoubleDot segment = false ∧
      isSingleDot segment = false ∧ name = String.ofList (percentEncode segment) := by
  induction segments generalizing path with
  | nil => exact Or.inl h
  | cons segment segments ih =>
    have hslash : name ∈ trailing segments → name = "" := by
      intro hmem
      unfold trailing at hmem
      split_ifs at hmem
      · exact List.mem_singleton.mp hmem
      · exact absurd hmem List.not_mem_nil
    have hlater : ∀ {path' : List String}, name ∈ pathFrom path' segments →
        (name ∈ path' → name ∈ path ∨ name = "" ∨ ∃ s ∈ segment :: segments,
          isDoubleDot s = false ∧ isSingleDot s = false ∧
            name = String.ofList (percentEncode s)) →
        name ∈ path ∨ name = "" ∨ ∃ s ∈ segment :: segments, isDoubleDot s = false ∧
          isSingleDot s = false ∧ name = String.ofList (percentEncode s) := by
      intro path' hmem hpath
      rcases ih hmem with hmem | hmem | ⟨s, hs, hrest⟩
      · exact hpath hmem
      · exact Or.inr (Or.inl hmem)
      · exact Or.inr (Or.inr ⟨s, List.mem_cons_of_mem _ hs, hrest⟩)
    rw [pathFrom] at h
    split_ifs at h with hdouble hsingle
    · apply hlater h
      intro hmem
      rcases List.mem_append.mp hmem with hmem | hmem
      · exact Or.inl (List.dropLast_subset path hmem)
      · exact Or.inr (Or.inl (hslash hmem))
    · apply hlater h
      intro hmem
      exact (List.mem_append.mp hmem).imp_right fun hmem => Or.inl (hslash hmem)
    · apply hlater h
      intro hmem
      rcases List.mem_append.mp hmem with hmem | hmem
      · exact Or.inl hmem
      · have hname := List.mem_singleton.mp hmem
        exact Or.inr (Or.inr ⟨segment, List.mem_cons_self, Bool.eq_false_iff.mpr hdouble,
          Bool.eq_false_iff.mpr hsingle, hname⟩)

/-- A character that no step of the parser takes for anything but itself. -/
structure Plain (c : Char) : Prop where
  not_percent : c ≠ '%'
  not_slash : isSlash c = false
  not_end : endsPath c = false
  not_dropped : isTabOrNewline c = false

instance : DecidablePred Plain := fun c =>
  decidable_of_iff (c ≠ '%' ∧ isSlash c = false ∧ endsPath c = false ∧ isTabOrNewline c = false)
    ⟨fun h => ⟨h.1, h.2.1, h.2.2.1, h.2.2.2⟩, fun h => ⟨h.1, h.2, h.3, h.4⟩⟩

theorem plain_of_mem_segments (h : segment ∈ segments text) (hpercent : '%' ∉ segment) :
    ∀ c ∈ segment, Plain c := by
  have hsplit : segment ∈ (pathText text).splitOnP isSlash := List.mem_of_mem_tail h
  intro c hc
  have hpath : c ∈ pathText text := (sublist_of_mem_splitOnP hsplit).subset hc
  have hkept : c ∈ kept text := (List.takeWhile_sublist _).subset hpath
  constructor
  case not_percent => exact fun heq => hpercent (heq ▸ hc)
  case not_slash => exact not_of_mem_splitOnP hsplit c hc
  case not_end => simpa using List.mem_takeWhile_imp hpath
  case not_dropped => simpa using (List.mem_filter.mp hkept).2

theorem rdropWhile_append (hfront : front.rdropWhile p = front)
    (rest : List Char) : (front ++ rest).rdropWhile p = front ++ rest.rdropWhile p := by
  induction rest using List.reverseRecOn with
  | nil => rw [List.append_nil, hfront, List.rdropWhile_nil, List.append_nil]
  | append_singleton rest c ih =>
    rw [← List.append_assoc, List.rdropWhile_concat, List.rdropWhile_concat]
    split_ifs
    · exact ih
    · exact List.append_assoc _ _ _

theorem kept_append (hfront : front.rdropWhile isControlOrSpace = front)
    (hdropped : ∀ c ∈ front, isTabOrNewline c = false) (rest : List Char) :
    kept (front ++ rest) = front ++ kept rest := by
  have hfilter : front.filter (fun c => !isTabOrNewline c) = front :=
    List.filter_eq_self.mpr fun c hc => by rw [hdropped c hc]; rfl
  rw [kept, rdropWhile_append hfront, List.filter_append, hfilter, kept]

/-- Text whose characters are all kept and that has no end before its last character. -/
structure Whole (text : List Char) : Prop where
  last : text.rdropWhile isControlOrSpace = text
  not_dropped : ∀ c ∈ text, isTabOrNewline c = false
  not_end : ∀ c ∈ text, endsPath c = false

theorem Whole.kept (h : Whole text) : kept text = text := by
  have hkept := kept_append h.last h.not_dropped []
  rw [List.append_nil] at hkept
  rw [hkept]
  exact List.append_nil text

theorem Whole.takeWhile_append (h : Whole text) (rest : List Char) :
    (text ++ rest).takeWhile (fun c => !endsPath c) =
      text ++ rest.takeWhile fun c => !endsPath c :=
  List.takeWhile_append_of_pos fun c hc => by rw [h.not_end c hc]; rfl

theorem Whole.pathText_append (h : Whole text) (rest : List Char) :
    pathText (text ++ rest) = text ++ pathText rest := by
  rw [pathText, kept_append h.last h.not_dropped, h.takeWhile_append, pathText]

theorem Whole.pathText (h : Whole text) : pathText text = text := by
  have happend := h.pathText_append []
  rw [List.append_nil] at happend
  rw [happend]
  exact List.append_nil text

theorem Whole.query {text : String} (h : Whole text.toList) : (parse text).query = "" := by
  have hrest : (Url.kept text.toList).dropWhile (fun c => !endsPath c) = [] := by
    rw [h.kept, List.dropWhile_eq_nil_iff]
    intro c hc
    rw [h.not_end c hc]
    rfl
  simp only [parse, hrest]

theorem kept_sublist (text : List Char) :
    (kept text).Sublist (text.rdropWhile isControlOrSpace) := List.filter_sublist

/-! ### Dots -/

theorem eq_of_toLower_eq {c d : Char} (h : c.toLower = d) (hd : d.toNat < 97) : c = d := by
  unfold Char.toLower at h
  split at h
  · rename_i hupper
    have hval := congrArg Char.toNat h
    have hle : 65 ≤ c.toNat ∧ c.toNat ≤ 90 :=
      ⟨UInt32.le_iff_toNat_le.mp hupper.1, UInt32.le_iff_toNat_le.mp hupper.2⟩
    change (c.val + 32).toNat = _ at hval
    rw [UInt32.toNat_add] at hval
    change (c.toNat + 32) % 4294967296 = _ at hval
    omega
  · exact h

theorem map_toLower_eq_dots {dots : List Char} (hdots : ∀ c ∈ dots, c = '.')
    (h : segment.map Char.toLower = dots) : segment = dots := by
  induction segment generalizing dots with
  | nil => exact h
  | cons c segment ih =>
    rw [← h, List.map_cons, List.forall_mem_cons] at hdots
    have hc : c = '.' := eq_of_toLower_eq hdots.1 (by decide)
    rw [← h, List.map_cons, ← ih hdots.2 rfl, hc]
    rfl

theorem percent_mem_of_map_toLower (h : '%' ∈ segment.map Char.toLower) : '%' ∈ segment := by
  obtain ⟨c, hc, hlower⟩ := List.mem_map.mp h
  rwa [eq_of_toLower_eq hlower (by decide)] at hc

theorem isSingleDot_eq_false (hpercent : '%' ∉ segment) (hne : segment ≠ ".".toList) :
    isSingleDot segment = false := by
  apply decide_eq_false
  intro hmem
  rcases List.mem_pair.mp hmem with heq | heq
  · exact hne (map_toLower_eq_dots (forall_of_all (by decide)) heq)
  · exact hpercent (percent_mem_of_map_toLower (heq ▸ by decide))

theorem isDoubleDot_eq_false (hpercent : '%' ∉ segment) (hne : segment ≠ "..".toList) :
    isDoubleDot segment = false := by
  apply decide_eq_false
  intro hmem
  rcases List.mem_cons.mp hmem with heq | hmem
  · exact hne (map_toLower_eq_dots (forall_of_all (by decide)) heq)
  · have hdots : '%' ∈ segment.map Char.toLower := by
      have hall : ∀ s ∈ [".%2e".toList, "%2e.".toList, "%2e%2e".toList], '%' ∈ s := by decide
      exact hall _ hmem
    exact hpercent (percent_mem_of_map_toLower hdots)

/-- A segment that stands in the path as it is, besides its encoding. -/
structure Name (segment : List Char) : Prop where
  nonempty : segment ≠ []
  not_single : isSingleDot segment = false
  not_double : isDoubleDot segment = false
  plain : ∀ c ∈ segment, Plain c

theorem pathFrom_of_names {names : List (List Char)} (h : ∀ s ∈ names, Name s)
    (path : List String) :
    pathFrom path names = path ++ names.map fun s => String.ofList (percentEncode s) := by
  induction names generalizing path with
  | nil => exact (List.append_nil path).symm
  | cons first names ih =>
    rw [List.forall_mem_cons] at h
    rw [pathFrom, h.1.not_double, h.1.not_single, if_neg Bool.false_ne_true,
      if_neg Bool.false_ne_true, ih h.2, List.append_assoc, List.map_cons]
    rfl

/-- What lies in a region that is cut off somewhere lies before a slash or after it. -/
theorem sublist_of_mem_splitOnP_takeWhile (hc : p c = true)
    (h : segment ∈ ((front ++ c :: rest).takeWhile q).splitOnP p) :
    segment.Sublist front ∨ segment.Sublist rest := by
  have hfront : ∀ {s : List Char}, segment ∈ s.splitOnP p → s.Sublist front →
      segment.Sublist front :=
    fun hmem hs => (sublist_of_mem_splitOnP hmem).trans hs
  rw [List.takeWhile_append] at h
  split_ifs at h
  · rw [List.takeWhile_cons] at h
    split_ifs at h
    · rw [List.splitOnP_append_cons _ _ hc, List.mem_append] at h
      apply h.imp (fun h => hfront h (List.Sublist.refl _))
      intro hmem
      exact (sublist_of_mem_splitOnP hmem).trans (List.takeWhile_sublist _)
    · rw [List.append_nil] at h
      exact Or.inl (hfront h (List.Sublist.refl _))
  · exact Or.inl (hfront h (List.takeWhile_sublist _))

theorem rdropWhile_of_not_encoded (h : ∀ c ∈ text, isEncoded c = false) :
    text.rdropWhile isControlOrSpace = text := by
  apply List.rdropWhile_eq_self_iff.mpr
  intro hne hlast
  have hencoded := h _ (List.getLast_mem hne)
  simp only [isControlOrSpace, decide_eq_true_eq] at hlast
  simp only [isEncoded, Bool.or_eq_false_iff, decide_eq_false_iff_not, List.mem_cons,
    List.not_mem_nil, or_false] at hencoded
  omega

/-- A digit stands for itself in a path. -/
theorem plain_of_isDigit (h : c.isDigit = true) : Plain c ∧ isEncoded c = false := by
  have hrange : 48 ≤ c.toNat ∧ c.toNat ≤ 57 := by
    rw [Char.isDigit, Bool.and_eq_true, decide_eq_true_eq, decide_eq_true_eq] at h
    exact ⟨UInt32.le_iff_toNat_le.mp h.1, UInt32.le_iff_toNat_le.mp h.2⟩
  have hout : ∀ codes : List Nat, (∀ n ∈ codes, n < 48 ∨ 57 < n) → c.toNat ∉ codes := by
    intro codes hcodes hmem
    have := hcodes _ hmem
    omega
  refine ⟨⟨?_, ?_, ?_, ?_⟩, ?_⟩
  · rintro rfl
    exact absurd hrange (by decide)
  · exact decide_eq_false (hout _ (by decide))
  · exact decide_eq_false (hout _ (by decide))
  · exact decide_eq_false (hout _ (by decide))
  · have hset : c.toNat ∉ [0x20, 0x22, 0x23, 0x3C, 0x3E, 0x3F, 0x5E, 0x60, 0x7B, 0x7D] :=
      hout _ (by decide)
    rw [isEncoded, decide_eq_false hset, Bool.or_false, Bool.or_eq_false_iff]
    exact ⟨decide_eq_false (by omega), decide_eq_false (by omega)⟩

/-! ### Paths of names -/

/-- Each segment after a slash. -/
def joined (names : List (List Char)) : List Char := names.flatMap fun s => '/' :: s

theorem splitOnP_slash (text : List Char) :
    ('/' :: text).splitOnP isSlash = [] :: text.splitOnP isSlash :=
  List.splitOnP_append_cons [] text rfl

theorem splitOnP_joined {names : List (List Char)}
    (h : ∀ s ∈ names, ∀ c ∈ s, isSlash c = false) :
    (joined names).splitOnP isSlash = [] :: names := by
  induction names with
  | nil => rfl
  | cons first names ih =>
    rw [List.forall_mem_cons] at h
    have hrest := ih h.2
    change ('/' :: (first ++ joined names)).splitOnP isSlash = _
    rw [splitOnP_slash]
    cases names with
    | nil =>
      rw [joined, List.flatMap_nil, List.append_nil, List.splitOnP_eq_singleton h.1]
    | cons second names =>
      change ('/' :: (second ++ joined names)).splitOnP isSlash = _ at hrest
      rw [splitOnP_slash] at hrest
      change [] :: (first ++ '/' :: (second ++ joined names)).splitOnP isSlash = _
      rw [List.splitOnP_append_cons_of_forall_mem h.1 _ rfl, (List.cons.inj hrest).2]

theorem rdropWhile_after_slash (hrest : rest.rdropWhile isControlOrSpace = rest) :
    (front ++ '/' :: rest).rdropWhile isControlOrSpace = front ++ '/' :: rest := by
  have hfront : (front ++ ['/']).rdropWhile isControlOrSpace = front ++ ['/'] := by
    rw [List.rdropWhile_concat]
    rfl
  have happend := rdropWhile_append hfront rest
  rwa [hrest, List.append_assoc] at happend

theorem whole_joined {names : List (List Char)} {name : List Char}
    (h : ∀ s ∈ names ++ [name], Name s) (hlast : name.rdropWhile isControlOrSpace = name) :
    Whole (joined (names ++ [name])) := by
  have hchars : ∀ c ∈ joined (names ++ [name]), c = '/' ∨ Plain c := by
    intro c hc
    obtain ⟨s, hs, hc⟩ := List.mem_flatMap.mp hc
    exact (List.mem_cons.mp hc).imp_right ((h s hs).plain c)
  constructor
  case last =>
    have hjoin : joined (names ++ [name]) = joined names ++ '/' :: name := by
      simp only [joined, List.flatMap_append, List.flatMap_singleton]
    rw [hjoin]
    exact rdropWhile_after_slash hlast
  case not_dropped =>
    intro c hc
    rcases hchars c hc with rfl | hplain
    · rfl
    · exact hplain.not_dropped
  case not_end =>
    intro c hc
    rcases hchars c hc with rfl | hplain
    · rfl
    · exact hplain.not_end

/-- A text of names is read as these names. -/
theorem parse_joined {text : String} {names : List (List Char)} {name : List Char}
    (htext : text.toList = joined (names ++ [name])) (h : ∀ s ∈ names ++ [name], Name s)
    (hlast : name.rdropWhile isControlOrSpace = name) :
    parse text = ⟨(names ++ [name]).map fun s => String.ofList (percentEncode s), ""⟩ := by
  have hwhole : Whole text.toList := htext ▸ whole_joined h hlast
  have hsegments : segments text.toList = names ++ [name] := by
    rw [segments, hwhole.pathText, htext,
      splitOnP_joined fun s hs c hc => ((h s hs).plain c hc).not_slash, List.tail_cons]
  have hpath : (parse text).path = pathFrom [] (names ++ [name]) := by rw [parse, hsegments]
  rw [pathFrom_of_names h, List.nil_append] at hpath
  rw [← hpath, ← hwhole.query]

theorem sublist_of_mem_splitOnP_pathText (hrest : rest.rdropWhile isControlOrSpace = rest)
    (h : segment ∈ (pathText (front ++ '/' :: rest)).splitOnP isSlash) :
    segment.Sublist front ∨ segment.Sublist rest := by
  have hkept : kept (front ++ '/' :: rest) = front.filter (fun c => !isTabOrNewline c) ++
      '/' :: rest.filter fun c => !isTabOrNewline c := by
    rw [kept, rdropWhile_after_slash hrest, List.filter_append]
    rfl
  rw [pathText, hkept] at h
  exact (sublist_of_mem_splitOnP_takeWhile rfl h).imp
    (fun h => h.trans List.filter_sublist) fun h => h.trans List.filter_sublist

theorem segments_append {name : List Char} (hname : Name name) (hwhole : Whole front)
    (hfront : front = '/' :: name ++ ['/']) :
    segments (front ++ rest) = name :: (pathText rest).splitOnP isSlash := by
  have hslash : ∀ c ∈ name, isSlash c = false := fun c hc => (hname.plain c hc).not_slash
  have htext : front ++ pathText rest = '/' :: (name ++ '/' :: pathText rest) := by
    rw [hfront, List.append_assoc]
    rfl
  rw [segments, hwhole.pathText_append, htext, splitOnP_slash, List.tail_cons,
    List.splitOnP_append_cons_of_forall_mem hslash _ rfl]

/-! ### Decoding what was encoded -/

theorem hexValue_hexDigit : ∀ n < 16, hexValue (hexDigit n) = some (UInt8.ofNat n) := by decide

theorem percentBytes_percent (c₁ c₂ : Char) (rest : List Char) :
    percentBytes ('%' :: c₁ :: c₂ :: rest) = (hexValue c₁).bind fun hi => (hexValue c₂).bind
      fun lo => (percentBytes rest).map fun bytes => (16 * hi + lo) :: bytes := by
  conv_lhs => unfold percentBytes
  rw [if_pos rfl]
  simp only [Option.bind_eq_bind, Option.map_eq_bind]
  rfl

theorem percentBytes_cons (hc : c ≠ '%') (rest : List Char) :
    percentBytes (c :: rest) = (percentBytes rest).map (String.utf8EncodeChar c ++ ·) := by
  conv_lhs => unfold percentBytes
  rw [if_neg hc]

theorem percentBytes_encodeByte (b : UInt8) (rest : List Char) :
    percentBytes (encodeByte b ++ rest) = (percentBytes rest).map (b :: ·) := by
  have hb : b.toNat < 256 := b.toNat_lt
  have hhi := hexValue_hexDigit (b.toNat / 16) (by omega)
  have hlo := hexValue_hexDigit (b.toNat % 16) (by omega)
  have hbyte : 16 * UInt8.ofNat (b.toNat / 16) + UInt8.ofNat (b.toNat % 16) = b := by
    apply UInt8.toNat_inj.mp
    rw [UInt8.toNat_add, UInt8.toNat_mul, UInt8.toNat_ofNat', UInt8.toNat_ofNat']
    simp only [UInt8.toNat_ofNat]
    omega
  change percentBytes ('%' :: hexDigit (b.toNat / 16) :: hexDigit (b.toNat % 16) :: rest) = _
  rw [percentBytes_percent, hhi, hlo, Option.bind_some, Option.bind_some, hbyte]

theorem percentBytes_encodeBytes (bytes : List UInt8) (rest : List Char) :
    percentBytes (bytes.flatMap encodeByte ++ rest) = (percentBytes rest).map (bytes ++ ·) := by
  induction bytes with
  | nil => simp
  | cons b bytes ih =>
    rw [List.flatMap_cons, List.append_assoc, percentBytes_encodeByte, ih, Option.map_map]
    rfl

theorem hexValue_eq_some {b : UInt8} (h : hexValue c = some b) :
    (48 ≤ c.toNat ∧ c.toNat ≤ 57) ∨ (97 ≤ c.toNat ∧ c.toNat ≤ 102) ∨
      (65 ≤ c.toNat ∧ c.toNat ≤ 70) := by
  have hrange : ∀ lo hi : Char, lo ≤ c ∧ c ≤ hi → lo.toNat ≤ c.toNat ∧ c.toNat ≤ hi.toNat :=
    fun _ _ h => ⟨UInt32.le_iff_toNat_le.mp h.1, UInt32.le_iff_toNat_le.mp h.2⟩
  unfold hexValue at h
  split_ifs at h with h₀ h₁ h₂
  · exact Or.inl (hrange _ _ h₀)
  · exact Or.inr (Or.inl (hrange _ _ h₁))
  · exact Or.inr (Or.inr (hrange _ _ h₂))

theorem hexValue_of_isEncoded (hc : isEncoded c = true) : hexValue c = none := by
  cases h : hexValue c with
  | none => rfl
  | some b =>
    have hrange := hexValue_eq_some h
    simp only [isEncoded, Bool.or_eq_true, decide_eq_true_eq, List.mem_cons, List.not_mem_nil,
      or_false] at hc
    omega

/-- A hexadecimal digit is written as it is, and no other character becomes one. -/
theorem encodeChar_cases (c : Char) :
    (isEncoded c = false ∧ encodeChar c = [c]) ∨
      (isEncoded c = true ∧ ∃ h₁ h₂ rest, encodeChar c = '%' :: h₁ :: h₂ :: rest) := by
  by_cases hc : isEncoded c = true
  · apply Or.inr
    refine ⟨hc, ?_⟩
    rw [encodeChar, if_pos hc]
    cases hbytes : String.utf8EncodeChar c with
    | nil =>
      have hlength := congrArg List.length hbytes
      rw [String.length_utf8EncodeChar] at hlength
      exact absurd hlength (Char.utf8Size_pos c).ne'
    | cons b bytes => exact ⟨_, _, _, rfl⟩
  · exact Or.inl ⟨Bool.eq_false_iff.mpr hc, if_neg hc⟩

theorem percentBytes_of_hexValue {c₁ c₂ : Char} (h : hexValue c₁ = none ∨ hexValue c₂ = none)
    (rest : List Char) : percentBytes ('%' :: c₁ :: c₂ :: rest) = none := by
  rw [percentBytes_percent]
  rcases h with h | h
  · rw [h]
    rfl
  · rw [h]
    cases hexValue c₁ <;> rfl

theorem percentEncode_cons (c : Char) (segment : List Char) :
    percentEncode (c :: segment) = encodeChar c ++ percentEncode segment := rfl

/-- A percent sign of the text is kept, and reads the same two characters as before. -/
theorem percentBytes_percentEncode (segment : List Char) :
    percentBytes (percentEncode segment) = percentBytes segment := by
  have hpercent : ∀ rest, percentEncode ('%' :: rest) = '%' :: percentEncode rest := fun _ => rfl
  induction segment using percentBytes.induct with
  | case1 => rfl
  | case2 c₁ c₂ rest ih =>
    rw [hpercent, percentEncode_cons, percentEncode_cons]
    rcases encodeChar_cases c₁ with ⟨-, hplain₁⟩ | ⟨hencoded, h₁, h₂, tail, hencode⟩
    · rw [hplain₁, List.singleton_append]
      rcases encodeChar_cases c₂ with ⟨-, hplain₂⟩ | ⟨hencoded, h₁, h₂, tail, hencode⟩
      · rw [hplain₂, List.singleton_append, percentBytes_percent, percentBytes_percent, ih]
      · rw [hencode, percentBytes_of_hexValue (Or.inr (hexValue_of_isEncoded hencoded))]
        exact percentBytes_of_hexValue (Or.inr rfl) _
    · rw [hencode, percentBytes_of_hexValue (Or.inl (hexValue_of_isEncoded hencoded))]
      exact percentBytes_of_hexValue (Or.inl rfl) _
  | case3 segment hshort =>
    cases segment with
    | nil => rfl
    | cons c segment =>
      have hnil : segment = [] := by
        cases segment with
        | nil => rfl
        | cons c' segment => exact (hshort c c' segment rfl).elim
      rw [hnil, hpercent, percentEncode_cons]
      rcases encodeChar_cases c with ⟨-, hplain⟩ | ⟨-, h₁, h₂, tail, hencode⟩
      · rw [hplain]
        rfl
      · rw [hencode]
        exact percentBytes_of_hexValue (Or.inl rfl) _
  | case4 c segment hc ih =>
    rw [percentEncode_cons]
    by_cases hencoded : isEncoded c = true
    · rw [encodeChar, if_pos hencoded, percentBytes_encodeBytes, percentBytes_cons hc, ih]
    · rw [encodeChar, if_neg hencoded, List.singleton_append, percentBytes_cons hc,
        percentBytes_cons hc, ih]

theorem decodeURIComponent_percentEncode (segment : List Char) :
    decodeURIComponent (String.ofList (percentEncode segment)) =
      decodeURIComponent (String.ofList segment) := by
  rw [decodeURIComponent, decodeURIComponent, String.toList_ofList, String.toList_ofList,
    percentBytes_percentEncode]

theorem percentEncode_eq_self (h : ∀ c ∈ segment, isEncoded c = false) :
    percentEncode segment = segment := by
  induction segment with
  | nil => rfl
  | cons c segment ih =>
    rw [List.forall_mem_cons] at h
    rw [percentEncode_cons, encodeChar, h.1, ih h.2]
    rfl

theorem percent_mem_percentEncode (hc : c ∈ segment) (hencoded : isEncoded c = true) :
    '%' ∈ percentEncode segment := by
  rcases encodeChar_cases c with ⟨hplain, -⟩ | ⟨-, h₁, h₂, tail, hencode⟩
  · exact absurd (hencoded.symm.trans hplain) Bool.noConfusion
  · exact List.mem_flatMap.mpr ⟨c, hc, hencode ▸ List.mem_cons_self⟩

theorem isEncoded_toUpper (hc : isEncoded c = true) : isEncoded c.toUpper = true := by
  unfold Char.toUpper
  split
  · rename_i hlower
    have hle : 97 ≤ c.toNat ∧ c.toNat ≤ 122 :=
      ⟨UInt32.le_iff_toNat_le.mp hlower.1, UInt32.le_iff_toNat_le.mp hlower.2⟩
    simp only [isEncoded, Bool.or_eq_true, decide_eq_true_eq, List.mem_cons, List.not_mem_nil,
      or_false] at hc
    omega
  · exact hc

/-- The encoding of a segment does not make it a text that has no character to encode. -/
theorem sameText_percentEncode {text : String}
    (htext : ∀ c ∈ text.toList.map Char.toUpper, c ≠ '%' ∧ isEncoded c = false) :
    sameText text (String.ofList (percentEncode segment)) =
      sameText text (String.ofList segment) := by
  by_cases hall : ∀ c ∈ segment, isEncoded c = false
  · rw [percentEncode_eq_self hall]
  · push Not at hall
    obtain ⟨c, hc, hne⟩ := hall
    have hencoded : isEncoded c = true := eq_true_of_ne_false hne
    have hname : sameText text (String.ofList (percentEncode segment)) = false := by
      apply decide_eq_false
      intro heq
      rw [String.toList_ofList] at heq
      have hmem := List.mem_map_of_mem (f := Char.toUpper) (percent_mem_percentEncode hc hencoded)
      exact (htext _ (heq ▸ hmem)).1 rfl
    have hsegment : sameText text (String.ofList segment) = false := by
      apply decide_eq_false
      intro heq
      rw [String.toList_ofList] at heq
      have hmem := List.mem_map_of_mem (f := Char.toUpper) hc
      exact absurd ((isEncoded_toUpper hencoded).symm.trans (htext _ (heq ▸ hmem)).2)
        Bool.noConfusion
    rw [hname, hsegment]

/-! ### Lengths in bytes -/

def utf8 (text : List Char) : List UInt8 := text.flatMap String.utf8EncodeChar

theorem length_utf8_le {text text' : List Char} (h : text.Sublist text') :
    (utf8 text).length ≤ (utf8 text').length := (h.flatMap _).length_le

theorem utf8_toList (s : String) : (utf8 s.toList).toByteArray = s.toByteArray := by
  conv_rhs => rw [← String.ofList_toList (s := s)]
  rfl

theorem length_utf8EncodeChar_of_hexValue {b : UInt8} (h : hexValue c = some b) :
    (String.utf8EncodeChar c).length = 1 := by
  have hrange := hexValue_eq_some h
  have hle : c.toNat ≤ 127 := by omega
  rw [String.length_utf8EncodeChar]
  exact Char.utf8Size_eq_one_iff.mpr (UInt32.le_iff_toNat_le.mpr hle)

/-- Each escape is two bytes longer than the byte it stands for. -/
theorem length_percentBytes {bytes : List UInt8} (h : percentBytes text = some bytes) :
    bytes.length + 2 * text.count '%' = (utf8 text).length := by
  induction text using percentBytes.induct generalizing bytes with
  | case1 =>
    cases h
    rfl
  | case2 c₁ c₂ rest ih =>
    rw [percentBytes_percent] at h
    obtain ⟨hi, hhi, h⟩ := Option.bind_eq_some_iff.mp h
    obtain ⟨lo, hlo, h⟩ := Option.bind_eq_some_iff.mp h
    obtain ⟨bytes', hbytes', rfl⟩ := Option.map_eq_some_iff.mp h
    have hne : ∀ {c : Char} {b : UInt8}, hexValue c = some b → c ≠ '%' := by
      rintro c b hc rfl
      cases hc
    have hone : (String.utf8EncodeChar '%').length = 1 := by decide
    have hrest := ih hbytes'
    simp only [utf8, List.flatMap_cons, List.length_append, List.length_cons, hone,
      length_utf8EncodeChar_of_hexValue hhi, length_utf8EncodeChar_of_hexValue hlo,
      List.count_cons_self, List.count_cons_of_ne (hne hhi), List.count_cons_of_ne (hne hlo)]
    rw [utf8] at hrest
    omega
  | case3 rest hshort =>
    unfold percentBytes at h
    rw [if_pos rfl] at h
    split at h
    · exact (hshort _ _ _ rfl).elim
    · cases h
  | case4 c rest hc ih =>
    rw [percentBytes_cons hc] at h
    obtain ⟨bytes', hbytes', rfl⟩ := Option.map_eq_some_iff.mp h
    have hrest := ih hbytes'
    rw [utf8] at hrest
    rw [utf8, List.flatMap_cons, List.length_append, List.length_append,
      List.count_cons_of_ne hc]
    omega

/-- A component with a percent sign is longer than what it decodes to. -/
theorem lt_of_decodeURIComponent {s : String}
    (h : decodeURIComponent (String.ofList segment) = some s) (hpercent : '%' ∈ segment) :
    (utf8 s.toList).length < (utf8 segment).length := by
  obtain ⟨bytes, hbytes, hdecode⟩ := Option.bind_eq_some_iff.mp h
  rw [String.toList_ofList] at hbytes
  have hlength := length_percentBytes hbytes
  have hcount : 0 < segment.count '%' := List.count_pos_iff.mpr hpercent
  have hs : s.toByteArray = bytes.toByteArray := by
    unfold String.fromUTF8? at hdecode
    split_ifs at hdecode
    cases hdecode
    rfl
  have hsize : (utf8 s.toList).length = bytes.length := by
    have := congrArg ByteArray.size ((utf8_toList s).trans hs)
    rwa [List.size_toByteArray, List.size_toByteArray] at this
  omega

end Library.Url
