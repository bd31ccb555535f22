import IntelliStore.Library.PosixPath
import IntelliStore.Storage.Chunking

/-! The paths of `LocalFsStorageBackend`: every key stays inside its base directory. -/

namespace IntelliStore.Storage.LocalFsStorageBackend
open Library.PosixPath

/-- The path of a key, or the message of the error that is thrown; `cwd` is the working directory
of the process. -/
def resolveKeyPath (cwd baseDir : Path) (key : String) : Except String Path :=
  let resolved := resolve cwd [baseDir, normalize key.toList]
  let base := resolve cwd [baseDir] ++ ['/']
  if base.isPrefixOf resolved then .ok resolved
  else .error ("Refusing to access storage key outside base directory: " ++ key)

variable {cwd baseDir : Path}

theorem isName_base : ∀ s ∈ walk false [] baseDir, IsName s :=
  isName_of_mem_walk fun _ hs => absurd hs List.not_mem_nil

theorem segments_base (habs : isAbsolute baseDir = true) :
    segments (resolve cwd [baseDir]) = (walk false [] baseDir).reverse := by
  rw [resolve_base cwd habs, segments_join isName_base]

theorem segments_resolve (habs : isAbsolute baseDir = true) (path : Path) :
    segments (resolve cwd [baseDir, path]) = (target baseDir path).reverse := by
  rw [resolve_base_path cwd habs, segments_join isName_of_mem_target]

/-- `normalize` changes no result of the resolution, and the prefix test asks for a name below
the base. -/
theorem resolveKeyPath_eq (habs : isAbsolute baseDir = true)
    (hroot : segments (resolve cwd [baseDir]) ≠ []) (key : String) (path : Path) :
    resolveKeyPath cwd baseDir key = .ok path ↔
      path = resolve cwd [baseDir, key.toList] ∧
        ∃ rest, rest ≠ [] ∧ segments path = segments (resolve cwd [baseDir]) ++ rest := by
  have hne : walk false [] baseDir ≠ [] := by
    intro hnil
    rw [segments_base habs, hnil] at hroot
    exact hroot rfl
  have hresolve : resolve cwd [baseDir, normalize key.toList] =
      resolve cwd [baseDir, key.toList] := by
    rw [resolve_base_path cwd habs, resolve_base_path cwd habs, target_normalize]
  have htest : (resolve cwd [baseDir] ++ ['/']).isPrefixOf (resolve cwd [baseDir, key.toList]) =
      true ↔ ∃ rest, rest ≠ [] ∧ segments (resolve cwd [baseDir, key.toList]) =
        segments (resolve cwd [baseDir]) ++ rest := by
    rw [List.isPrefixOf_iff_prefix, segments_base habs, segments_resolve habs,
      resolve_base cwd habs, resolve_base_path cwd habs, List.cons_append,
      List.prefix_cons_inj, join_isPrefix_iff isName_base isName_of_mem_target hne]
  unfold resolveKeyPath
  simp only [hresolve]
  split_ifs with hprefix
  · constructor
    · intro hok
      have hpath : resolve cwd [baseDir, key.toList] = path := Except.ok.inj hok
      exact ⟨hpath.symm, hpath ▸ htest.mp hprefix⟩
    · intro hpath
      rw [hpath.1]
  · constructor
    · intro hok
      cases hok
    · intro hpath
      rw [hpath.1] at hpath
      exact absurd (htest.mpr hpath.2) hprefix

/-- A content key names a file in the directory "chunks" of the base. -/
theorem segments_chunkKey (habs : isAbsolute baseDir = true) {name : String}
    (hname : IsName name.toList) :
    segments (resolve cwd [baseDir, (chunkKey name).toList]) =
      segments (resolve cwd [baseDir]) ++ ["chunks".toList, name.toList] := by
  have hkey : (chunkKey name).toList = "chunks".toList ++ '/' :: name.toList := by
    rw [chunkKey, String.toList_append]
    rfl
  have hchunks : IsName "chunks".toList := by
    constructor <;> decide
  have hrelative : ¬isAbsolute (chunkKey name).toList = true := by
    rw [hkey, isAbsolute_append hchunks.ne_nil]
    decide
  have hwalk : ∀ (dir : List Segment) (segment : Segment), IsName segment →
      walk false dir segment = segment :: dir := by
    intro dir segment hsegment
    rw [walk, List.splitOn_eq_singleton hsegment.no_slash]
    exact enter_name hsegment
  rw [segments_resolve habs, segments_base habs, target, if_neg hrelative, hkey, walk_append,
    hwalk _ _ hchunks, hwalk _ _ hname, List.reverse_cons, List.reverse_cons, List.append_assoc]
  rfl

theorem resolveKeyPath_confined (habs : isAbsolute baseDir = true)
    (hroot : segments (resolve cwd [baseDir]) ≠ []) :
    (∀ key path, resolveKeyPath cwd baseDir key = .ok path →
      (∃ rest, rest ≠ [] ∧ segments path = segments (resolve cwd [baseDir]) ++ rest) ∧
        ∀ s ∈ path.splitOn '/', s ≠ here ∧ s ≠ parent) ∧
    (∀ key, (∃ rest, rest ≠ [] ∧ segments (resolve cwd [baseDir, key.toList]) =
        segments (resolve cwd [baseDir]) ++ rest) →
      resolveKeyPath cwd baseDir key = .ok (resolve cwd [baseDir, key.toList])) ∧
    ∀ a b : String, IsName a.toList → IsName b.toList → a ≠ b →
      ∃ p q, resolveKeyPath cwd baseDir (chunkKey a) = .ok p ∧
        resolveKeyPath cwd baseDir (chunkKey b) = .ok q ∧ p ≠ q := by
  have hchunk : ∀ name : String, IsName name.toList → resolveKeyPath cwd baseDir (chunkKey name) =
      .ok (resolve cwd [baseDir, (chunkKey name).toList]) := by
    intro name hname
    apply (resolveKeyPath_eq habs hroot _ _).mpr
    exact ⟨rfl, _, List.cons_ne_nil _ _, segments_chunkKey habs hname⟩
  refine ⟨?_, ?_, ?_⟩
  · intro key path hok
    obtain ⟨hpath, hinside⟩ := (resolveKeyPath_eq habs hroot key path).mp hok
    refine ⟨hinside, fun s hs => ?_⟩
    by_cases hnil : s = []
    · rw [hnil]
      decide
    · have hmem : s ∈ segments path := List.mem_filter.mpr ⟨hs, decide_eq_true hnil⟩
      rw [hpath, segments_resolve habs, List.mem_reverse] at hmem
      have hname := isName_of_mem_target s hmem
      exact ⟨hname.ne_here, hname.ne_parent⟩
  · intro key hinside
    exact (resolveKeyPath_eq habs hroot key _).mpr ⟨rfl, hinside⟩
  · intro a b ha hb hne
    refine ⟨_, _, hchunk a ha, hchunk b hb, fun hpath => hne ?_⟩
    have hsegments := congrArg segments hpath
    rw [segments_chunkKey habs ha, segments_chunkKey habs hb] at hsegments
    have hpair := List.append_cancel_left hsegments
    simp only [List.cons.injEq, and_true, true_and] at hpair
    exact String.toList_inj.mp hpair

/-- A base written with a way up and a slash at its end. -/
theorem resolveKeyPath_confined_data :
    ∃ path, resolveKeyPath "/srv".toList "/data/../blobs/".toList "a/../../blobs/./b" = .ok path ∧
      ∃ rest, rest ≠ [] ∧ segments path = ["blobs".toList] ++ rest := by
  have habs : isAbsolute "/data/../blobs/".toList = true := by decide
  have hbase : segments (resolve "/srv".toList ["/data/../blobs/".toList]) = ["blobs".toList] := by
    decide
  have hroot : segments (resolve "/srv".toList ["/data/../blobs/".toList]) ≠ [] := by decide
  have hinside := (resolveKeyPath_confined habs hroot).2.1 "a/../../blobs/./b"
    ⟨["b".toList], List.cons_ne_nil _ _, by decide⟩
  have hrest := ((resolveKeyPath_confined habs hroot).1 _ _ hinside).1
  rw [hbase] at hrest
  exact ⟨_, hinside, hrest⟩

end IntelliStore.Storage.LocalFsStorageBackend
