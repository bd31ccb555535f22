import IntelliStore.Library.Runs
import IntelliStore.Metadata.RepositorySpec

/-! `searchFiles` against `listFiles`: the escaped pattern finds the names that contain the
query, and the search returns these entries of the listing. -/

namespace IntelliStore.Metadata
open Library Postgres

theorem utf16Length_pos {s : String} (hs : s ≠ "") : utf16Length s ≠ 0 := by
  unfold utf16Length
  cases hlist : s.toList with
  | nil => exact absurd (String.toList_eq_nil_iff.mp hlist) hs
  | cons c cs =>
    rw [List.map_cons, List.sum_cons]
    split_ifs <;> omega

/-- A selection from an ordered listing. -/
theorem filter_orderByDesc {α : Type*} (key : α → Nat) (p : α → Bool) (rows : List α) :
    (orderByDesc key rows).filter p = orderByDesc key (rows.filter p) := by
  have : Std.Total fun a b : α => key b ≤ key a := ⟨fun a b => le_total (key b) (key a)⟩
  have : IsTrans α fun a b => key b ≤ key a := ⟨fun _ _ _ hab hbc => hbc.trans hab⟩
  exact filter_insertionSort p rows

variable {fold : Char → Char}

/-- The name of the file contains the text, up to the case folding. -/
def FileRecord.nameContains (fold : Char → Char) (text : String) (f : FileRecord) : Bool :=
  decide (text.toList.map fold <:+: f.fileName.toList.map fold)

/-- The search finds the names that contain the query, up to the case folding. -/
theorem Database.searchByOwner_eq
    (hfold : ∀ c ∈ ['\\', '%', '_'], ∀ c', fold c' = c ↔ c' = c) {d : Database} {ownerId : Uuid}
    {query : String} (htext : isText query = true) :
    d.searchByOwner fold ownerId query = .ok (orderByDesc FileRecord.createdAt <|
      d.files.filter fun f => f.ownerId == ownerId && !f.isDeleted &&
        f.nameContains fold query) := by
  have hpercent : fold '%' = '%' := (hfold '%' (by simp) '%').mpr rfl
  have hrest : likeTokens ['%'] = some [.anySequence] := rfl
  have htokens : likeTokens ((searchPattern query).map fold) =
      some (.anySequence :: ((query.toList.map fold).map .literal ++ [.anySequence])) := by
    rw [searchPattern, List.cons_append, List.map_cons, List.map_append, List.map_singleton,
      hpercent, likeTokens, likeTokens_escaped hfold query.toList hrest]
    rfl
  rw [searchByOwner, if_pos htext, htokens]
  refine congrArg (fun files => Except.ok (orderByDesc FileRecord.createdAt files)) ?_
  refine List.filter_congr fun f _ => congrArg _ ?_
  rw [FileRecord.nameContains, Bool.eq_iff_iff, likeMatch_contains, decide_eq_true_eq]

/-- The found files are the listed ones whose names contain the query. -/
theorem Database.searchByOwner_eq_filter
    (hfold : ∀ c ∈ ['\\', '%', '_'], ∀ c', fold c' = c ↔ c' = c) {d : Database} {ownerId : Uuid}
    {query : String} (htext : isText query = true) :
    d.searchByOwner fold ownerId query =
      .ok ((d.listFilesByOwner ownerId).filter (FileRecord.nameContains fold query)) := by
  rw [searchByOwner_eq hfold htext, listFilesByOwner, filter_orderByDesc, List.filter_filter]
  simp only [Bool.and_comm]

/-- Search is the listing filtered by the trimmed query, every character of it taken literally.
A NUL cannot be sent to the tables. -/
theorem searchFiles_filters_listing (fold : Char → Char)
    (hfold : ∀ c ∈ ['\\', '%', '_'], ∀ c', fold c' = c ↔ c' = c) (d : Database) (ownerId : Uuid)
    (query : String) (hquery : trim query ≠ "") :
    FileService.searchFiles fold d ownerId query =
      if isText (trim query) then .ok ((FileService.listFiles d ownerId).filter
        fun entry => entry.file.nameContains fold (trim query))
      else .error (.db .invalidText) := by
  rw [FileService.searchFiles, if_neg (utf16Length_pos hquery)]
  split_ifs with htext
  · rw [Database.searchByOwner_eq_filter hfold htext]
    simp only [FileService.listFiles, FileService.withLatestVersions, List.filter_map,
      Function.comp_def]
  · rw [Database.searchByOwner, if_neg htext]

theorem searchFiles_rejects_nul : ¬∀ (fold : Char → Char),
    (∀ c ∈ ['\\', '%', '_'], ∀ c', fold c' = c ↔ c' = c) → ∀ (d : Database) (ownerId : Uuid)
      (query : String), trim query ≠ "" → FileService.searchFiles fold d ownerId query =
        .ok ((FileService.listFiles d ownerId).filter
          fun entry => entry.file.nameContains fold (trim query)) := by
  intro h
  have hsearch := h id (fun _ _ _ => Iff.rfl) .empty 1 "\x00" (by decide)
  revert hsearch
  decide

/-! Two names with metacharacters, and a query in capitals that is in the first of them. -/

theorem toLower_keeps_metacharacters :
    ∀ m ∈ ['\\', '%', '_'], ∀ c : Char, c.toLower = m ↔ c = m := by
  intro m hm c
  have hcode : m.val.toNat = 92 ∨ m.val.toNat = 37 ∨ m.val.toNat = 95 := by
    simp only [List.mem_cons, List.not_mem_nil, or_false] at hm
    rcases hm with rfl | rfl | rfl <;> decide
  unfold Char.toLower
  split_ifs with hupper
  · -- neither a capital nor its small letter is a metacharacter
    have hlow : 65 ≤ c.val.toNat := hupper.1
    have hhigh : c.val.toNat ≤ 90 := hupper.2
    refine iff_of_false (fun h => ?_) fun h => ?_
    · have hval : (c.val + ('a'.val - 'A'.val)).toNat = m.val.toNat := by rw [← h]
      have hsum : (c.val + ('a'.val - 'A'.val)).toNat = c.val.toNat + 32 := by
        rw [UInt32.toNat_add]
        exact Nat.mod_eq_of_lt (lt_of_le_of_lt (Nat.add_le_add_right hhigh _) (by decide))
      omega
    · rw [← h] at hcode
      omega
  · rfl

def sampleName (fileName : String) : CreateFileInput where
  fileName := fileName
  mimeType := "application/pdf"
  checksum := "c"
  chunks := [⟨0, 3, "c", "chunks/c"⟩]

def sampleNames : Database :=
  finalState (handle Char.toLower) .empty
    [⟨1, sampleGenerated 1, .registerFile (sampleName "50%_report.pdf")⟩,
      ⟨1, sampleGenerated 2, .registerFile (sampleName "50-report.pdf")⟩]

theorem searchFiles_filters_listing_sample :
    FileService.searchFiles Char.toLower sampleNames 1 " 0%_REP" =
      .ok ((FileService.listFiles sampleNames 1).filter
        fun entry => entry.file.nameContains Char.toLower "0%_REP") :=
  searchFiles_filters_listing Char.toLower toLower_keeps_metacharacters sampleNames 1 " 0%_REP"
    (by decide)

end IntelliStore.Metadata
