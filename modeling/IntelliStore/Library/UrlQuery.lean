import IntelliStore.Library.Url

/-! The query of a URL, from `encodeURIComponent` to what a query parser decodes. -/

namespace Library.Url
open Routing

/-- What `encodeURIComponent` leaves as it is: letters, digits and nine marks. -/
def isUnreserved (c : Char) : Bool :=
  c.isAlphanum || c.toNat ∈ [0x21, 0x27, 0x28, 0x29, 0x2A, 0x2D, 0x2E, 0x5F, 0x7E]

def encodeBytes (c : Char) : List Char := (String.utf8EncodeChar c).flatMap encodeByte

def encodeURIComponent (text : List Char) : List Char :=
  text.flatMap fun c => if isUnreserved c then [c] else encodeBytes c

/-- The special-query percent-encode set. -/
def isQueryEncoded (c : Char) : Bool :=
  c.toNat < 0x20 || 0x7E < c.toNat || c.toNat ∈ [0x20, 0x22, 0x23, 0x27, 0x3C, 0x3E]

/-- The query as it is sent. -/
def queryEncode (query : List Char) : List Char :=
  query.flatMap fun c => if isQueryEncoded c then encodeBytes c else [c]

/-! ### A value is read back -/

/-- No parser of the query takes the character for anything but itself. -/
structure Literal (c : Char) : Prop where
  not_separator : c ≠ '&'
  not_equals : c ≠ '='
  not_plus : c ≠ '+'
  not_end : c ≠ '#'
  not_encoded : isQueryEncoded c = false

instance : DecidablePred Literal := fun c =>
  decidable_of_iff (c ≠ '&' ∧ c ≠ '=' ∧ c ≠ '+' ∧ c ≠ '#' ∧ isQueryEncoded c = false)
    ⟨fun h => ⟨h.1, h.2.1, h.2.2.1, h.2.2.2.1, h.2.2.2.2⟩, fun h => ⟨h.1, h.2, h.3, h.4, h.5⟩⟩

theorem literal_hexDigit : ∀ n < 16, Literal (hexDigit n) := by decide

theorem literal_encodeBytes (c : Char) : ∀ c' ∈ encodeBytes c, Literal c' := by
  intro c' hc'
  obtain ⟨b, -, hc'⟩ := List.mem_flatMap.mp hc'
  have hb : b.toNat < 256 := b.toNat_lt
  have hbyte : c' = '%' ∨ c' = hexDigit (b.toNat / 16) ∨ c' = hexDigit (b.toNat % 16) := by
    simpa [encodeByte] using hc'
  rcases hbyte with rfl | rfl | rfl
  · decide
  · exact literal_hexDigit _ (by omega)
  · exact literal_hexDigit _ (by omega)

/-- What is sent of a character of the value. -/
def sentChar (c : Char) : List Char :=
  if isUnreserved c && !isQueryEncoded c then [c] else encodeBytes c

theorem queryEncode_of_literal {text : List Char} (h : ∀ c ∈ text, Literal c) :
    queryEncode text = text := by
  induction text with
  | nil => rfl
  | cons c text ih =>
    rw [List.forall_mem_cons] at h
    have hrest := ih h.2
    rw [queryEncode] at hrest ⊢
    rw [List.flatMap_cons, h.1.not_encoded, hrest]
    rfl

theorem queryEncode_encodeURIComponent (text : List Char) :
    queryEncode (encodeURIComponent text) = text.flatMap sentChar := by
  rw [queryEncode, encodeURIComponent, List.flatMap_assoc]
  apply List.flatMap_congr
  intro c _
  by_cases hc : isUnreserved c = true
  · rw [if_pos hc, List.flatMap_singleton, sentChar, hc, Bool.true_and]
    cases isQueryEncoded c <;> rfl
  · rw [if_neg hc, sentChar, Bool.eq_false_iff.mpr hc]
    exact queryEncode_of_literal (literal_encodeBytes c)

theorem literal_of_unreserved {c : Char} (h : isUnreserved c = true)
    (hencoded : isQueryEncoded c = false) : Literal c := by
  have hne : ∀ c' : Char, isUnreserved c' = false → c ≠ c' := by
    intro c' hc' heq
    rw [heq, hc'] at h
    cases h
  exact ⟨hne _ (by decide), hne _ (by decide), hne _ (by decide), hne _ (by decide), hencoded⟩

theorem literal_sentChar (c : Char) : ∀ c' ∈ sentChar c, Literal c' := by
  unfold sentChar
  split_ifs with hc
  · rw [Bool.and_eq_true, Bool.not_eq_true'] at hc
    simpa using literal_of_unreserved hc.1 hc.2
  · exact literal_encodeBytes c

theorem percentBytes_sentChar (c : Char) (rest : List Char) :
    percentBytes (sentChar c ++ rest) = (percentBytes rest).map (String.utf8EncodeChar c ++ ·) := by
  unfold sentChar
  split_ifs with hc
  · have hpercent : c ≠ '%' := by
      rintro rfl
      exact absurd hc (by decide)
    rw [List.singleton_append, percentBytes_cons hpercent]
  · exact percentBytes_encodeBytes _ rest

theorem percentBytes_sent (text : List Char) :
    percentBytes (text.flatMap sentChar) = some (utf8 text) := by
  induction text with
  | nil => rfl
  | cons c text ih =>
    rw [List.flatMap_cons, percentBytes_sentChar, ih]
    rfl

theorem literal_sent {text : List Char} : ∀ c ∈ text.flatMap sentChar, Literal c := by
  intro c hc
  obtain ⟨d, -, hc⟩ := List.mem_flatMap.mp hc
  exact literal_sentChar d c hc

theorem decodeURIComponent_sent (text : String) :
    decodeURIComponent (String.ofList (text.toList.flatMap sentChar)) = some text := by
  rw [decodeURIComponent, String.toList_ofList, percentBytes_sent, Option.bind_some, utf8_toList,
    String.fromUTF8?, dif_pos text.isValidUTF8]
  rfl

/-- What a parser of queries says of a query that is one pair: the value is decoded. Its characters
are such that no parser takes one for anything but itself. -/
def ReadsPair (name : String) (parser : String → Option String) : Prop :=
  ∀ value text, (∀ c ∈ value.toList, Literal c) → decodeURIComponent value = some text →
    parser (name ++ "=" ++ value) = some text

/-- Every text comes back from the query that it is put into. -/
theorem ReadsPair.encodeURIComponent {name : String} {parser : String → Option String}
    (h : ReadsPair name parser) (hname : ∀ c ∈ name.toList, Literal c) (text : String) :
    parser (String.ofList (queryEncode (name.toList ++ '=' ::
      Url.encodeURIComponent text.toList))) = some text := by
  have hquery : queryEncode (name.toList ++ '=' :: Url.encodeURIComponent text.toList) =
      name.toList ++ '=' :: text.toList.flatMap sentChar := by
    have happend := queryEncode_encodeURIComponent text.toList
    have hfront := queryEncode_of_literal hname
    rw [queryEncode] at happend hfront ⊢
    rw [List.flatMap_append, List.flatMap_cons, hfront, happend]
    rfl
  have hpair : String.ofList (name.toList ++ '=' :: text.toList.flatMap sentChar) =
      name ++ "=" ++ String.ofList (text.toList.flatMap sentChar) := by
    apply String.toList_inj.mp
    simp only [String.toList_ofList, String.toList_append]
    rw [List.append_assoc]
    rfl
  rw [hquery, hpair]
  refine h _ _ (fun c hc => ?_) (decodeURIComponent_sent text)
  rw [String.toList_ofList] at hc
  exact literal_sent c hc

/-! ### A URL with a query -/

theorem Literal.not_control {c : Char} (h : Literal c) : isControlOrSpace c = false := by
  have hencoded := h.not_encoded
  simp only [isQueryEncoded, Bool.or_eq_false_iff, decide_eq_false_iff_not, List.mem_cons,
    not_or] at hencoded
  rw [isControlOrSpace, decide_eq_false_iff_not]
  omega

theorem toNat_of_unreserved {c : Char} (h : isUnreserved c = true) : 0x20 < c.toNat := by
  rw [isUnreserved, Bool.or_eq_true] at h
  rcases h with h | h
  · delta Char.isAlphanum Char.isAlpha Char.isUpper Char.isLower Char.isDigit at h
    simp only [Bool.or_eq_true, Bool.and_eq_true, decide_eq_true_eq] at h
    rcases h with (h | h) | h
    · exact lt_of_lt_of_le (by decide) (UInt32.le_iff_toNat_le.mp h.1)
    · exact lt_of_lt_of_le (by decide) (UInt32.le_iff_toNat_le.mp h.1)
    · exact lt_of_lt_of_le (by decide) (UInt32.le_iff_toNat_le.mp h.1)
  · simp only [List.mem_cons, List.not_mem_nil, or_false, decide_eq_true_eq] at h
    omega

theorem visible_encodeURIComponent (text : List Char) :
    ∀ c ∈ encodeURIComponent text, isControlOrSpace c = false ∧ c ≠ '#' := by
  intro c hc
  obtain ⟨d, -, hc⟩ := List.mem_flatMap.mp hc
  split_ifs at hc with hd
  · rw [List.mem_singleton.mp hc, isControlOrSpace, decide_eq_false_iff_not]
    refine ⟨not_le.mpr (toNat_of_unreserved hd), ?_⟩
    rintro rfl
    exact absurd hd (by decide)
  · have hliteral := literal_encodeBytes d c hc
    exact ⟨hliteral.not_control, hliteral.not_end⟩

theorem kept_eq_self {text : List Char} (h : ∀ c ∈ text, isControlOrSpace c = false) :
    kept text = text := by
  have hlast : text.rdropWhile isControlOrSpace = text := by
    rw [List.rdropWhile_eq_self_iff]
    intro hne
    rw [h _ (List.getLast_mem hne)]
    decide
  rw [kept, hlast, List.filter_eq_self]
  intro c hc
  have hcontrol := h c hc
  rw [isControlOrSpace, decide_eq_false_iff_not] at hcontrol
  simp only [isTabOrNewline, List.mem_cons, List.not_mem_nil, or_false, Bool.not_eq_true',
    decide_eq_false_iff_not]
  omega

theorem parse_query {text : String} {front query : List Char}
    (htext : text.toList = front ++ '?' :: query)
    (hfront : ∀ c ∈ front, isControlOrSpace c = false ∧ endsPath c = false)
    (hquery : ∀ c ∈ query, isControlOrSpace c = false ∧ c ≠ '#') :
    parse text = ⟨pathFrom [] (front.splitOnP isSlash).tail, String.ofList query⟩ := by
  have hkept : kept text.toList = front ++ '?' :: query := by
    rw [htext]
    apply kept_eq_self
    intro c hc
    rcases List.mem_append.mp hc with hc | hc
    · exact (hfront c hc).1
    · rcases List.mem_cons.mp hc with rfl | hc
      · decide
      · exact (hquery c hc).1
  have hpath : ∀ c ∈ front, (!endsPath c) = true := fun c hc => by
    rw [(hfront c hc).2]
    rfl
  have hsegments : segments text.toList = (front.splitOnP isSlash).tail := by
    rw [segments, pathText, hkept, List.takeWhile_append_of_pos hpath,
      List.takeWhile_cons_of_neg (by decide), List.append_nil]
  have hrest : (kept text.toList).dropWhile (fun c => !endsPath c) = '?' :: query := by
    rw [hkept, List.dropWhile_append_of_pos hpath, List.dropWhile_cons_of_neg (by decide)]
  have hwhole : query.takeWhile (fun c => c ≠ '#') = query :=
    List.takeWhile_eq_self_iff.mpr fun c hc => decide_eq_true (hquery c hc).2
  simp only [parse, hsegments, hrest, hwhole]

end Library.Url
