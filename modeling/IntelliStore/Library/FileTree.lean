import Mathlib.Data.Finmap

/-! A file system as the table of what lies at each path. A path is the list of its names, the
outermost first. The calls that change the tree return `none` where the system refuses them. -/

namespace Library
variable {ν β : Type*} [DecidableEq ν]

inductive FileEntry (β : Type*) where
  | file (data : β)
  | directory
  deriving DecidableEq

/-- Every entry lies in a directory. -/
structure FileTree (ν β : Type*) [DecidableEq ν] where
  entries : Finmap fun _ : List ν => FileEntry β
  root : entries.lookup [] = some .directory
  closed : ∀ dir name, dir ++ [name] ∈ entries → entries.lookup dir = some .directory

namespace FileTree

def lookup (t : FileTree ν β) (path : List ν) : Option (FileEntry β) := t.entries.lookup path

def IsDirectory (t : FileTree ν β) (path : List ν) : Prop := t.lookup path = some .directory

instance (t : FileTree ν β) (path : List ν) : Decidable (t.IsDirectory path) :=
  match h : t.lookup path with
  | some .directory => .isTrue h
  | some (.file _) => .isFalse fun hdir => by rw [IsDirectory, h] at hdir; cases hdir
  | none => .isFalse fun hdir => by rw [IsDirectory, h] at hdir; cases hdir

/-- The tree with nothing but its root. -/
def empty : FileTree ν β where
  entries := Finmap.singleton [] .directory
  root := Finmap.lookup_singleton_eq
  closed := by
    intro dir name h
    have hnil : dir ++ [name] = [] := Finmap.mem_singleton _ _ _ |>.mp h
    exact absurd hnil (List.append_ne_nil_of_right_ne_nil _ (List.cons_ne_nil _ _))

/-- An entry below a directory, at a place where no directory stands. -/
def insert (t : FileTree ν β) (dir : List ν) (name : ν) (entry : FileEntry β)
    (hdir : t.IsDirectory dir) (hfree : ¬t.IsDirectory (dir ++ [name])) : FileTree ν β where
  entries := t.entries.insert (dir ++ [name]) entry
  root := by
    have hne : ([] : List ν) ≠ dir ++ [name] :=
      (List.append_ne_nil_of_right_ne_nil _ (List.cons_ne_nil _ _)).symm
    rw [Finmap.lookup_insert_of_ne _ hne]
    exact t.root
  closed := by
    intro above below h
    have habove : t.IsDirectory above := by
      rcases Finmap.mem_insert.mp h with heq | hmem
      · rw [(List.append_inj' heq rfl).1]
        exact hdir
      · exact t.closed above below hmem
    have hne : above ≠ dir ++ [name] := by
      intro heq
      rw [heq] at habove
      exact hfree habove
    rw [Finmap.lookup_insert_of_ne _ hne]
    exact habove

/-- An entry that is no directory has nothing below it. -/
def erase (t : FileTree ν β) (path : List ν) (hpath : ¬t.IsDirectory path) : FileTree ν β where
  entries := t.entries.erase path
  root := by
    have hne : [] ≠ path := by
      intro hnil
      rw [← hnil] at hpath
      exact hpath t.root
    rw [Finmap.lookup_erase_ne hne]
    exact t.root
  closed := by
    intro above below h
    have habove := t.closed above below (Finmap.mem_erase.mp h).2
    have hne : above ≠ path := by
      intro heq
      rw [heq] at habove
      exact hpath habove
    rw [Finmap.lookup_erase_ne hne]
    exact habove

/-! ### The calls -/

/-- One directory, in one that exists. A file in its place makes the call fail. -/
def mkdir (t : FileTree ν β) (dir : List ν) (name : ν) : Option (FileTree ν β) :=
  if hthere : t.IsDirectory (dir ++ [name]) then some t
  else if hdir : t.IsDirectory dir ∧ dir ++ [name] ∉ t.entries then
    some (t.insert dir name .directory hdir.1 hthere)
  else none

/-- The directories on the way from a directory on. -/
def mkdirAll (dir : List ν) : List ν → FileTree ν β → Option (FileTree ν β)
  | [], t => some t
  | name :: names, t =>
    match t.mkdir dir name with
    -- nothing was created before: the names from the first absent one on are all absent
    | none => none
    | some t => mkdirAll (dir ++ [name]) names t

/-- `mkdir` with `recursive`. -/
def mkdirRecursive (t : FileTree ν β) (path : List ν) : Option (FileTree ν β) := mkdirAll [] path t

/-- The directory of a file must be there; a directory is not overwritten. -/
def writeFile (t : FileTree ν β) (path : List ν) (data : β) : Option (FileTree ν β) :=
  match path.getLast? with
  | none => none
  | some name =>
    if h : t.IsDirectory path.dropLast ∧ ¬t.IsDirectory (path.dropLast ++ [name]) then
      some (t.insert path.dropLast name (.file data) h.1 h.2)
    else none

def readFile (t : FileTree ν β) (path : List ν) : Option β :=
  match t.lookup path with
  | some (.file data) => some data
  | _ => none

/-- A file stands on the way to the path. -/
def belowFile (t : FileTree ν β) (path : List ν) : Bool :=
  path.dropLast.inits.any fun dir => dir ∈ t.entries ∧ ¬t.IsDirectory dir

/-- `rm` with `force`: nothing to remove is no failure, a directory is one. -/
def rm (t : FileTree ν β) (path : List ν) : Option (FileTree ν β) :=
  if hdir : t.IsDirectory path then none
  else if t.belowFile path then none
  else some (t.erase path hdir)

def access (t : FileTree ν β) (path : List ν) : Bool := (t.lookup path).isSome

/-! ### What the calls leave -/

variable {t u : FileTree ν β} {dir path : List ν} {name : ν} {names : List ν}

theorem mem_entries : path ∈ t.entries ↔ t.lookup path ≠ none := by
  rw [lookup, ne_eq, Finmap.lookup_eq_none, not_not]

theorem lookup_insert {entry : FileEntry β} {hdir : t.IsDirectory dir}
    {hfree : ¬t.IsDirectory (dir ++ [name])} :
    (t.insert dir name entry hdir hfree).lookup path =
      if path = dir ++ [name] then some entry else t.lookup path := by
  split_ifs with heq
  · rw [heq]
    exact Finmap.lookup_insert _
  · exact Finmap.lookup_insert_of_ne _ heq

theorem lookup_erase {q : List ν} {hpath : ¬t.IsDirectory path} :
    (t.erase path hpath).lookup q = if q = path then none else t.lookup q := by
  split_ifs with heq
  · rw [heq]
    exact Finmap.lookup_erase _ _
  · exact Finmap.lookup_erase_ne heq

/-- The way to an entry leads through directories. -/
theorem isDirectory_of_prefix (hpre : path <+: dir) (hne : path ≠ dir) (h : dir ∈ t.entries) :
    t.IsDirectory path := by
  induction dir using List.reverseRecOn with
  | nil => exact absurd (List.prefix_nil.mp hpre) hne
  | append_singleton dir name ih =>
    have habove : t.IsDirectory dir := t.closed dir name h
    rcases List.prefix_concat_iff.mp hpre with heq | hpre
    · exact absurd heq hne
    · by_cases hsame : path = dir
      · rw [hsame]
        exact habove
      · exact ih hpre hsame (Finmap.mem_of_lookup_eq_some habove)

theorem isDirectory_root (t : FileTree ν β) : t.IsDirectory [] := t.root

theorem IsDirectory.of_prefix (hdir : t.IsDirectory dir) (hpre : path <+: dir) :
    t.IsDirectory path := by
  by_cases hsame : path = dir
  · rw [hsame]
    exact hdir
  · exact isDirectory_of_prefix hpre hsame (Finmap.mem_of_lookup_eq_some hdir)

theorem lookup_of_mkdir (h : t.mkdir dir name = some u) :
    u.lookup path = if path = dir ++ [name] then some .directory else t.lookup path := by
  unfold mkdir at h
  split_ifs at h with hthere hdir
  · rw [← Option.some_inj.mp h]
    split_ifs with heq
    · rw [heq]
      exact hthere
    · rfl
  · rw [← Option.some_inj.mp h, lookup_insert]

/-- Every directory on the way is there, and nothing else changed. -/
theorem lookup_of_mkdirAll (hdir : t.IsDirectory dir) (h : mkdirAll dir names t = some u) :
    u.lookup path = if path <+: dir ++ names then some .directory else t.lookup path := by
  induction names generalizing t dir with
  | nil =>
    rw [← Option.some_inj.mp h, List.append_nil]
    split_ifs with hpath
    · exact hdir.of_prefix hpath
    · rfl
  | cons name names ih =>
    rw [mkdirAll] at h
    cases hmkdir : t.mkdir dir name with
    | none =>
      rw [hmkdir] at h
      cases h
    | some t₁ =>
      rw [hmkdir] at h
      have hnext : t₁.IsDirectory (dir ++ [name]) := by
        rw [IsDirectory, lookup_of_mkdir hmkdir, if_pos rfl]
      have happend : dir ++ [name] ++ names = dir ++ name :: names := (List.append_cons ..).symm
      rw [ih hnext h, happend, lookup_of_mkdir hmkdir]
      split_ifs with hpath heq
      · rfl
      · rw [heq, ← happend] at hpath
        exact absurd (List.prefix_append _ _) hpath
      · rfl

/-- Without a file on the way the directories are made. -/
theorem exists_mkdirAll (hdir : t.IsDirectory dir)
    (hfree : ∀ path, path <+: dir ++ names → path ∈ t.entries → t.IsDirectory path) :
    ∃ u, mkdirAll dir names t = some u := by
  induction names generalizing t dir with
  | nil => exact ⟨t, rfl⟩
  | cons name names ih =>
    have happend : dir ++ [name] ++ names = dir ++ name :: names := (List.append_cons ..).symm
    obtain ⟨t₁, hmkdir⟩ : ∃ t₁, t.mkdir dir name = some t₁ := by
      by_cases hthere : t.IsDirectory (dir ++ [name])
      · exact ⟨t, dif_pos hthere⟩
      · have habsent : dir ++ [name] ∉ t.entries := by
          intro hmem
          apply hthere
          apply hfree _ _ hmem
          rw [← happend]
          exact List.prefix_append _ _
        refine ⟨t.insert dir name .directory hdir hthere, ?_⟩
        rw [mkdir, dif_neg hthere, dif_pos ⟨hdir, habsent⟩]
    rw [mkdirAll, hmkdir]
    have hlookup : ∀ path, t₁.lookup path =
        if path = dir ++ [name] then some .directory else t.lookup path :=
      fun _ => lookup_of_mkdir hmkdir
    apply ih
    · rw [IsDirectory, hlookup, if_pos rfl]
    · intro path hpath hmem
      rw [happend] at hpath
      rw [mem_entries, hlookup] at hmem
      rw [IsDirectory, hlookup]
      split_ifs at hmem ⊢
      · rfl
      · exact hfree path hpath (mem_entries.mpr hmem)

theorem lookup_of_mkdirRecursive (h : t.mkdirRecursive names = some u) :
    u.lookup path = if path <+: names then some .directory else t.lookup path :=
  lookup_of_mkdirAll t.isDirectory_root h

theorem exists_mkdirRecursive
    (hfree : ∀ path, path <+: names → path ∈ t.entries → t.IsDirectory path) :
    ∃ u, t.mkdirRecursive names = some u := exists_mkdirAll t.isDirectory_root hfree

/-- In a directory, a file is written where no directory stands. -/
theorem writeFile_concat (hdir : t.IsDirectory dir) (hfree : ¬t.IsDirectory (dir ++ [name]))
    (data : β) :
    ∃ u, t.writeFile (dir ++ [name]) data = some u ∧ ∀ path,
      u.lookup path = if path = dir ++ [name] then some (.file data) else t.lookup path := by
  have hsplit : (dir ++ [name]).dropLast = dir := List.dropLast_concat
  simp only [writeFile, List.getLast?_concat, hsplit]
  refine ⟨_, dif_pos ⟨hdir, hfree⟩, fun path => lookup_insert⟩

theorem readFile_of_lookup {found : Option β} (h : t.lookup path = found.map .file) :
    t.readFile path = found := by
  cases found with
  | none => rw [readFile, h, Option.map_none]
  | some data => rw [readFile, h, Option.map_some]

/-- Where no file stands on the way, a file or nothing can be removed. -/
theorem rm_concat (hway : ∀ above, above <+: dir → above ∈ t.entries → t.IsDirectory above)
    (hfree : ¬t.IsDirectory (dir ++ [name])) :
    ∃ u, t.rm (dir ++ [name]) = some u ∧
      ∀ path, u.lookup path = if path = dir ++ [name] then none else t.lookup path := by
  have hnone : ¬t.belowFile (dir ++ [name]) = true := by
    rw [belowFile, List.dropLast_concat, List.any_eq_true]
    rintro ⟨above, hmem, habove⟩
    rw [List.mem_inits] at hmem
    rw [decide_eq_true_eq] at habove
    exact habove.2 (hway above hmem habove.1)
  refine ⟨t.erase (dir ++ [name]) hfree, ?_, fun _ => lookup_erase⟩
  rw [rm, dif_neg hfree, if_neg hnone]

end FileTree
end Library
