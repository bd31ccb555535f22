import Mathlib.Data.List.Infix

/-! SQL `LIKE` with a backslash as escape character. -/

namespace Library

inductive LikeToken where
  | anySequence
  | anyChar
  | literal (c : Char)
  deriving DecidableEq

/-- `none` is the error of a pattern that ends in the escape character. -/
def likeTokens : List Char → Option (List LikeToken)
  | [] => some []
  | ['\\'] => none
  | '\\' :: c :: cs => (likeTokens cs).map (.literal c :: ·)
  | '%' :: cs => (likeTokens cs).map (.anySequence :: ·)
  | '_' :: cs => (likeTokens cs).map (.anyChar :: ·)
  | c :: cs => (likeTokens cs).map (.literal c :: ·)

def likeMatch : List LikeToken → List Char → Bool
  | [], s => s.isEmpty
  | .anySequence :: ts, s => s.tails.any (likeMatch ts)
  | .anyChar :: ts, s =>
    match s with
    | [] => false
    | _ :: s => likeMatch ts s
  | .literal c :: ts, s =>
    match s with
    | [] => false
    | d :: s => c == d && likeMatch ts s

theorem likeTokens_literal {c : Char} (cs : List Char) (h : c ∉ ['\\', '%', '_']) :
    likeTokens (c :: cs) = (likeTokens cs).map (.literal c :: ·) := by
  obtain ⟨hescape, hsequence, hchar⟩ : c ≠ '\\' ∧ c ≠ '%' ∧ c ≠ '_' := by simpa using h
  rw [likeTokens]
  · intro heq
    exact absurd heq hescape
  · intro c' cs' heq
    exact absurd heq hescape
  · exact hsequence
  · exact hchar

/-- Escaped text is read as the literals of its characters, also after a change of case that
keeps the metacharacters. -/
theorem likeTokens_escaped {fold : Char → Char}
    (hfold : ∀ m ∈ ['\\', '%', '_'], ∀ c, fold c = m ↔ c = m)
    (text : List Char) {rest : List Char} {tokens : List LikeToken}
    (hrest : likeTokens rest = some tokens) :
    likeTokens ((text.flatMap fun c => if c = '\\' ∨ c = '%' ∨ c = '_' then ['\\', c]
      else [c]).map fold ++ rest) = some ((text.map fold).map .literal ++ tokens) := by
  induction text with
  | nil => exact hrest
  | cons c text ih =>
    have hescape : fold '\\' = '\\' := (hfold '\\' (by simp) '\\').mpr rfl
    rw [List.flatMap_cons, List.map_append, List.append_assoc]
    split_ifs with hmeta
    · simp only [List.map_cons, List.map_nil, List.cons_append, List.nil_append]
      rw [hescape, likeTokens, ih]
      rfl
    · have hplain : fold c ∉ ['\\', '%', '_'] := by
        intro hmem
        have hc := (hfold (fold c) hmem c).mp rfl
        rw [← hc] at hmem
        exact hmeta (by simpa using hmem)
      simp only [List.map_cons, List.map_nil, List.cons_append, List.nil_append]
      rw [likeTokens_literal _ hplain, ih]
      rfl

theorem likeMatch_literals (text s : List Char) :
    likeMatch (text.map .literal ++ [.anySequence]) s = true ↔ text <+: s := by
  induction text generalizing s with
  | nil =>
    refine iff_of_true ?_ List.nil_prefix
    show s.tails.any (likeMatch []) = true
    exact List.any_eq_true.mpr ⟨[], (List.mem_tails [] s).mpr List.nil_suffix, rfl⟩
  | cons c text ih =>
    cases s with
    | nil => simp [likeMatch]
    | cons d s =>
      rw [List.cons_prefix_cons, ← ih s, List.map_cons, List.cons_append, likeMatch,
        Bool.and_eq_true, beq_iff_eq]

/-- A pattern of literals between two `%` matches the texts that contain them. -/
theorem likeMatch_contains (text s : List Char) :
    likeMatch (.anySequence :: (text.map .literal ++ [.anySequence])) s = true ↔ text <:+: s := by
  rw [likeMatch, List.any_eq_true, List.infix_iff_prefix_suffix]
  simp only [List.mem_tails, likeMatch_literals]
  exact ⟨fun ⟨t, hsuffix, hprefix⟩ => ⟨t, hprefix, hsuffix⟩,
    fun ⟨t, hprefix, hsuffix⟩ => ⟨t, hsuffix, hprefix⟩⟩

end Library
