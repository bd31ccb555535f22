import IntelliStore.Library.FileTree
import IntelliStore.Storage.BackendAgreement
import IntelliStore.Storage.LocalFs

/-! `LocalFsStorageBackend` over a file tree, and the bucket it stands for. Its calls fail where
the tree refuses them, and nowhere else. -/

namespace IntelliStore.Storage
open Library Library.PosixPath

abbrev Disk := FileTree Segment Bytes

namespace LocalFsStorageBackend
variable (cwd baseDir : Path)

/-- The constructor. -/
def new (disk : Disk) : Option Disk :=
  disk.mkdirRecursive (segments (resolve cwd [baseDir]))

def put (key : String) (data : Bytes) (disk : Disk) : Except Failure Unit × Disk :=
  match resolveKeyPath cwd baseDir key with
  | .error _ => (.error .library, disk)
  | .ok filePath =>
    match disk.mkdirRecursive (segments (dirname filePath)) with
    | none => (.error .library, disk)
    | some disk =>
      match disk.writeFile (segments filePath) data with
      | none => (.error .library, disk)
      | some disk => (.ok (), disk)

def get (key : String) (disk : Disk) : Except Failure Bytes :=
  match resolveKeyPath cwd baseDir key with
  | .error _ => .error .library
  | .ok filePath =>
    match disk.readFile (segments filePath) with
    | none => .error .library
    | some data => .ok data

def delete (key : String) (disk : Disk) : Except Failure Unit × Disk :=
  match resolveKeyPath cwd baseDir key with
  | .error _ => (.error .library, disk)
  | .ok filePath =>
    match disk.rm (segments filePath) with
    | none => (.error .library, disk)
    | some disk => (.ok (), disk)

/-- A refused key counts as absent. -/
def exists_ (key : String) (disk : Disk) : Bool × Disk :=
  match resolveKeyPath cwd baseDir key with
  | .error _ => (false, disk)
  | .ok filePath => (disk.access (segments filePath), disk)

end LocalFsStorageBackend

def localFsStorageBackend (cwd baseDir : Path) : StorageBackend Disk where
  put := LocalFsStorageBackend.put cwd baseDir
  get := LocalFsStorageBackend.get cwd baseDir
  delete := LocalFsStorageBackend.delete cwd baseDir
  exists_ := LocalFsStorageBackend.exists_ cwd baseDir

/-- The key of a piece whose digest is a name. -/
def ContentKey (key : String) : Prop := ∃ name : String, IsName name.toList ∧ key = chunkKey name

namespace LocalFsStorageBackend
variable {cwd baseDir : Path} {b : Bucket} {disk : Disk} {name : String} {data : Bytes}

/-- The directory that holds the pieces. -/
def chunksDir (cwd baseDir : Path) : List Segment :=
  segments (resolve cwd [baseDir]) ++ ["chunks".toList]

/-- The files among the pieces are the objects of the bucket. -/
structure Mirrors (cwd baseDir : Path) (b : Bucket) (disk : Disk) : Prop where
  base : disk.IsDirectory (segments (resolve cwd [baseDir]))
  chunks : chunksDir cwd baseDir ∈ disk.entries → disk.IsDirectory (chunksDir cwd baseDir)
  contents : ∀ name : String, IsName name.toList →
    disk.lookup (chunksDir cwd baseDir ++ [name.toList]) =
      (b.objects.lookup (chunkKey name)).map .file

theorem ne_content {above : List Segment} (hpre : above <+: chunksDir cwd baseDir)
    (segment : Segment) : above ≠ chunksDir cwd baseDir ++ [segment] := by
  intro heq
  have hlength := hpre.length_le
  rw [heq, List.length_append, List.length_singleton] at hlength
  exact absurd hlength (Nat.not_succ_le_self _)

/-- No file stands on the way to a piece. -/
theorem Mirrors.way (h : Mirrors cwd baseDir b disk) :
    ∀ above, above <+: chunksDir cwd baseDir → above ∈ disk.entries → disk.IsDirectory above := by
  intro above hpre hmem
  rcases List.prefix_concat_iff.mp hpre with heq | hpre
  · rw [heq] at hmem ⊢
    exact h.chunks hmem
  · exact h.base.of_prefix hpre

theorem Mirrors.no_directory (h : Mirrors cwd baseDir b disk) (hname : IsName name.toList) :
    ¬disk.IsDirectory (chunksDir cwd baseDir ++ [name.toList]) := by
  intro hdir
  rw [FileTree.IsDirectory, h.contents name hname] at hdir
  cases hlookup : b.objects.lookup (chunkKey name) with
  | none =>
    rw [hlookup] at hdir
    cases hdir
  | some x =>
    rw [hlookup] at hdir
    cases hdir

/-- The path of a content key, and the directory it lies in. -/
theorem resolveKeyPath_chunkKey (habs : isAbsolute baseDir = true)
    (hroot : segments (resolve cwd [baseDir]) ≠ []) (hname : IsName name.toList) :
    ∃ path, resolveKeyPath cwd baseDir (chunkKey name) = .ok path ∧
      segments path = chunksDir cwd baseDir ++ [name.toList] ∧
      segments (dirname path) = chunksDir cwd baseDir := by
  have hsegments : segments (resolve cwd [baseDir, (chunkKey name).toList]) = _ :=
    segments_chunkKey habs hname
  refine ⟨resolve cwd [baseDir, (chunkKey name).toList], ?_, ?_, ?_⟩
  · apply (resolveKeyPath_eq habs hroot _ _).mpr
    exact ⟨rfl, _, List.cons_ne_nil _ _, hsegments⟩
  · rw [hsegments, chunksDir, List.append_assoc]
    rfl
  · rw [segments_resolve habs] at hsegments
    have htarget : target baseDir (chunkKey name).toList =
        name.toList :: (chunksDir cwd baseDir).reverse := by
      rw [← List.reverse_inj, hsegments, chunksDir, List.reverse_cons, List.reverse_reverse,
        List.append_assoc]
      rfl
    have hnames : ∀ s ∈ name.toList :: (chunksDir cwd baseDir).reverse, IsName s := by
      rw [← htarget]
      exact isName_of_mem_target
    obtain ⟨-, hdir⟩ := List.forall_mem_cons.mp hnames
    rw [resolve_base_path cwd habs, htarget, segments_dirname hname hdir, List.reverse_reverse]

section
variable (habs : isAbsolute baseDir = true) (hroot : segments (resolve cwd [baseDir]) ≠ [])
include habs hroot

theorem put_chunkKey (h : Mirrors cwd baseDir b disk) (hname : IsName name.toList) (data : Bytes) :
    ∃ disk', put cwd baseDir (chunkKey name) data disk = (.ok (), disk') ∧ ∀ path,
      disk'.lookup path = if path = chunksDir cwd baseDir ++ [name.toList] then some (.file data)
        else if path <+: chunksDir cwd baseDir then some .directory else disk.lookup path := by
  obtain ⟨path, hresolve, hsegments, hdirname⟩ := resolveKeyPath_chunkKey habs hroot hname
  obtain ⟨made, hmade⟩ := FileTree.exists_mkdirRecursive h.way
  have hlookup : ∀ path, made.lookup path =
      if path <+: chunksDir cwd baseDir then some .directory else disk.lookup path :=
    fun _ => FileTree.lookup_of_mkdirRecursive hmade
  have hdir : made.IsDirectory (chunksDir cwd baseDir) := by
    rw [FileTree.IsDirectory, hlookup, if_pos List.prefix_rfl]
  have hnot : ¬chunksDir cwd baseDir ++ [name.toList] <+: chunksDir cwd baseDir :=
    fun hpre => ne_content hpre _ rfl
  have hfree : ¬made.IsDirectory (chunksDir cwd baseDir ++ [name.toList]) := by
    rw [FileTree.IsDirectory, hlookup, if_neg hnot]
    exact h.no_directory hname
  obtain ⟨disk', hwrite, hdisk⟩ := FileTree.writeFile_concat hdir hfree data
  refine ⟨disk', ?_, fun path => by rw [hdisk, hlookup]⟩
  simp only [put, hresolve, hdirname, hsegments, hmade, hwrite]

theorem delete_chunkKey (h : Mirrors cwd baseDir b disk) (hname : IsName name.toList) :
    ∃ disk', delete cwd baseDir (chunkKey name) disk = (.ok (), disk') ∧ ∀ path,
      disk'.lookup path =
        if path = chunksDir cwd baseDir ++ [name.toList] then none else disk.lookup path := by
  obtain ⟨path, hresolve, hsegments, -⟩ := resolveKeyPath_chunkKey habs hroot hname
  obtain ⟨disk', hrm, hdisk⟩ := FileTree.rm_concat h.way (h.no_directory hname)
  refine ⟨disk', ?_, hdisk⟩
  simp only [delete, hresolve, hsegments, hrm]

theorem get_chunkKey (h : Mirrors cwd baseDir b disk) (hname : IsName name.toList) :
    get cwd baseDir (chunkKey name) disk = MinioStorageBackend.get (chunkKey name) b := by
  obtain ⟨path, hresolve, hsegments, -⟩ := resolveKeyPath_chunkKey habs hroot hname
  have hread := FileTree.readFile_of_lookup (h.contents name hname)
  simp only [get, MinioStorageBackend.get, hresolve, hsegments, hread]
  cases b.objects.lookup (chunkKey name) with
  | none => rfl
  | some x => rfl

theorem exists_chunkKey (h : Mirrors cwd baseDir b disk) (hname : IsName name.toList) :
    exists_ cwd baseDir (chunkKey name) disk = (decide (chunkKey name ∈ b.objects), disk) := by
  obtain ⟨path, hresolve, hsegments, -⟩ := resolveKeyPath_chunkKey habs hroot hname
  have haccess : disk.access (segments path) = decide (chunkKey name ∈ b.objects) := by
    rw [hsegments, FileTree.access, h.contents name hname, Option.isSome_map, Bool.eq_iff_iff,
      Finmap.lookup_isSome, decide_eq_true_eq]
  simp only [exists_, hresolve, haccess]

end

/-! ### Both backends keep the mirror -/

theorem content_inj {other : String} :
    chunksDir cwd baseDir ++ [name.toList] = chunksDir cwd baseDir ++ [other.toList] ↔
      name = other := by
  rw [List.append_cancel_left_eq, List.singleton_inj, String.toList_inj]

theorem Mirrors.insert {disk' : Disk} (h : Mirrors cwd baseDir b disk) (stats puts : Nat)
    (hdisk : ∀ path, disk'.lookup path =
      if path = chunksDir cwd baseDir ++ [name.toList] then some (.file data)
      else if path <+: chunksDir cwd baseDir then some .directory else disk.lookup path) :
    Mirrors cwd baseDir ⟨b.objects.insert (chunkKey name) data, stats, puts⟩ disk' := by
  have hway : ∀ above, above <+: chunksDir cwd baseDir → disk'.IsDirectory above := by
    intro above hpre
    rw [FileTree.IsDirectory, hdisk, if_neg (ne_content hpre _), if_pos hpre]
  refine ⟨hway _ (List.prefix_append _ _), fun _ => hway _ List.prefix_rfl, ?_⟩
  intro other hother
  rw [hdisk]
  by_cases heq : other = name
  · rw [heq, if_pos rfl, Finmap.lookup_insert, Option.map_some]
  · have hnot : ¬chunksDir cwd baseDir ++ [other.toList] <+: chunksDir cwd baseDir := by
      intro hpre
      have hlength := hpre.length_le
      rw [List.length_append, List.length_singleton] at hlength
      exact absurd hlength (Nat.not_succ_le_self _)
    have hkey : chunkKey other ≠ chunkKey name := mt chunkKey_inj.mp heq
    rw [if_neg (mt content_inj.mp heq), if_neg hnot, Finmap.lookup_insert_of_ne _ hkey]
    exact h.contents other hother

theorem Mirrors.erase {disk' : Disk} (h : Mirrors cwd baseDir b disk)
    (hdisk : ∀ path, disk'.lookup path =
      if path = chunksDir cwd baseDir ++ [name.toList] then none else disk.lookup path) :
    Mirrors cwd baseDir { b with objects := b.objects.erase (chunkKey name) } disk' := by
  have hway : ∀ above, above <+: chunksDir cwd baseDir →
      disk'.lookup above = disk.lookup above := by
    intro above hpre
    rw [hdisk, if_neg (ne_content hpre _)]
  constructor
  · rw [FileTree.IsDirectory, hway _ (List.prefix_append _ _)]
    exact h.base
  · intro hmem
    rw [FileTree.mem_entries, hway _ List.prefix_rfl, ← FileTree.mem_entries] at hmem
    rw [FileTree.IsDirectory, hway _ List.prefix_rfl]
    exact h.chunks hmem
  · intro other hother
    rw [hdisk]
    by_cases heq : other = name
    · rw [heq, if_pos rfl, Finmap.lookup_erase, Option.map_none]
    · have hkey : chunkKey other ≠ chunkKey name := mt chunkKey_inj.mp heq
      rw [if_neg (mt content_inj.mp heq), Finmap.lookup_erase_ne hkey]
      exact h.contents other hother

/-- The object store and the disk agree on the content keys. -/
theorem localFs_agrees (habs : isAbsolute baseDir = true)
    (hroot : segments (resolve cwd [baseDir]) ≠ []) :
    (minioStorageBackend .none).Agrees (localFsStorageBackend cwd baseDir) ContentKey
      (Mirrors cwd baseDir) where
  put := by
    rintro key data b disk ⟨name, hname, rfl⟩ h
    obtain ⟨disk', hput, hdisk⟩ := put_chunkKey habs hroot h hname data
    change Alike _ (.ok (), _) (put cwd baseDir (chunkKey name) data disk)
    rw [hput]
    exact ⟨rfl, h.insert _ _ hdisk⟩
  get := by
    rintro key b disk ⟨name, hname, rfl⟩ h
    exact (get_chunkKey habs hroot h hname).symm
  delete := by
    rintro key b disk ⟨name, hname, rfl⟩ h
    obtain ⟨disk', hdelete, hdisk⟩ := delete_chunkKey habs hroot h hname
    change Alike _ (.ok (), _) (delete cwd baseDir (chunkKey name) disk)
    rw [hdelete]
    exact ⟨rfl, h.erase hdisk⟩
  exists_ := by
    rintro key b disk ⟨name, hname, rfl⟩ h
    change Alike _ (MinioStorageBackend.exists_ .none (chunkKey name) b)
      (exists_ cwd baseDir (chunkKey name) disk)
    rw [exists_chunkKey habs hroot h hname, MinioStorageBackend.exists_none]
    exact ⟨rfl, h.base, h.chunks, h.contents⟩

/-- The constructor on a disk that holds nothing where the pieces will be. -/
theorem mirrors_new {disk' : Disk} (hnew : new cwd baseDir disk = some disk')
    (hfresh : ∀ path, chunksDir cwd baseDir <+: path → path ∉ disk.entries) :
    Mirrors cwd baseDir (.ofObjects ∅) disk' := by
  have hlookup : ∀ path, disk'.lookup path =
      if path <+: segments (resolve cwd [baseDir]) then some .directory else disk.lookup path :=
    fun _ => FileTree.lookup_of_mkdirRecursive hnew
  have hnot : ∀ path, chunksDir cwd baseDir <+: path → disk'.lookup path = none := by
    intro path hpath
    have hlonger : ¬path <+: segments (resolve cwd [baseDir]) := by
      intro hpre
      have hlength := (hpath.trans hpre).length_le
      rw [chunksDir, List.length_append, List.length_singleton] at hlength
      exact absurd hlength (Nat.not_succ_le_self _)
    have habsent := mt FileTree.mem_entries.mpr (hfresh path hpath)
    rw [hlookup, if_neg hlonger]
    exact not_not.mp habsent
  constructor
  · rw [FileTree.IsDirectory, hlookup, if_pos List.prefix_rfl]
  · intro hmem
    exact absurd (hnot _ List.prefix_rfl) (FileTree.mem_entries.mp hmem)
  · intro name hname
    rw [hnot _ (List.prefix_append _ _)]
    rfl

end LocalFsStorageBackend
end IntelliStore.Storage
