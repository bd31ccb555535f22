import Mathlib.Data.List.Induction

/-! `normalize` and `resolve` of POSIX paths. A path is walked segment by segment; the directory
reached is the list of its names, the innermost first. -/

namespace Library.PosixPath

abbrev Path := List Char
abbrev Segment := List Char

def here : Segment := ['.']
def parent : Segment := ['.', '.']

def isAbsolute (path : Path) : Bool := path.head? = some '/'

/-- One segment further. With `allowAboveRoot` the way up out of the start is kept. -/
def enter (allowAboveRoot : Bool) (dir : List Segment) (segment : Segment) : List Segment :=
  if segment = [] ∨ segment = here then dir
  else if segment = parent then
    match dir with
    | [] => if allowAboveRoot then [parent] else []
    | name :: above =>
      if name = parent then if allowAboveRoot then parent :: dir else dir
      else above
  else segment :: dir

def walk (allowAboveRoot : Bool) (dir : List Segment) (path : Path) : List Segment :=
  (path.splitOn '/').foldl (enter allowAboveRoot) dir

def join (dir : List Segment) : Path := ['/'].intercalate dir.reverse

def normalizeString (path : Path) (allowAboveRoot : Bool) : Path :=
  join (walk allowAboveRoot [] path)

def normalize (path : Path) : Path :=
  if path = [] then here
  else
    let normalized := normalizeString path (!isAbsolute path)
    let trailing : Path := if path.getLast? = some '/' then ['/'] else []
    if normalized = [] then if isAbsolute path then ['/'] else here ++ trailing
    else if isAbsolute path then '/' :: normalized ++ trailing
    else normalized ++ trailing

/-- The paths joined from the rightmost on, as far as the first absolute one. -/
def resolvedPath : List Path → Path → Path
  | [], resolved => resolved
  | path :: paths, resolved =>
    if path = [] then resolvedPath paths resolved
    else if isAbsolute path then path ++ '/' :: resolved
    else resolvedPath paths (path ++ '/' :: resolved)

def resolve (cwd : Path) (paths : List Path) : Path :=
  let resolved := resolvedPath (cwd :: paths).reverse []
  let normalized := normalizeString resolved (!isAbsolute resolved)
  if isAbsolute resolved then '/' :: normalized
  else if normalized = [] then here
  else normalized

/-- The path before its last segment; slashes at its end are no segment. -/
def dirname (path : Path) : Path :=
  match (path.reverse.dropWhile (· = '/')).dropWhile (· ≠ '/') with
  | [] => if isAbsolute path then ['/'] else here
  | [_] => ['/']
  | [_, '/'] => ['/', '/']
  | _ :: before => before.reverse

/-- The names of a path, the outermost first. -/
def segments (path : Path) : List Segment := (path.splitOn '/').filter (· ≠ [])

structure IsName (segment : Segment) : Prop where
  ne_nil : segment ≠ []
  ne_here : segment ≠ here
  ne_parent : segment ≠ parent
  no_slash : '/' ∉ segment

/-! ### Walking -/

variable {above : Bool} {dir : List Segment} {path p q : Path} {segment : Segment}

theorem enter_skip (h : segment = [] ∨ segment = here) : enter above dir segment = dir := if_pos h

theorem enter_name (h : IsName segment) : enter above dir segment = segment :: dir := by
  have hskip : ¬(segment = [] ∨ segment = here) := not_or.mpr ⟨h.ne_nil, h.ne_here⟩
  unfold enter
  rw [if_neg hskip, if_neg h.ne_parent]

theorem enter_parent_name (h : IsName segment) : enter above (segment :: dir) parent = dir := by
  have hskip : ¬(parent = [] ∨ parent = here) := by decide
  unfold enter
  rw [if_neg hskip, if_pos rfl]
  exact if_neg h.ne_parent

/-- Every segment between slashes is empty, ".", ".." or a name. -/
theorem segment_cases (h : '/' ∉ segment) :
    (segment = [] ∨ segment = here) ∨ segment = parent ∨ IsName segment := by
  by_cases hskip : segment = [] ∨ segment = here
  · exact Or.inl hskip
  · by_cases hparent : segment = parent
    · exact Or.inr (Or.inl hparent)
    · rw [not_or] at hskip
      exact Or.inr (Or.inr ⟨hskip.1, hskip.2, hparent, h⟩)

theorem not_mem_of_mem_splitOn (path : Path) : ∀ s ∈ path.splitOn '/', '/' ∉ s := by
  induction path with
  | nil => simp
  | cons c path ih =>
    rw [List.splitOn_cons_eq_if_modifyHead]
    split_ifs with hc
    · exact List.forall_mem_cons.mpr ⟨List.not_mem_nil, ih⟩
    · cases hsplit : path.splitOn '/' with
      | nil => exact absurd hsplit (List.splitOn_ne_nil _ _)
      | cons s rest =>
        have hcons := List.forall_mem_cons.mp (hsplit ▸ ih)
        have hhead : '/' ∉ c :: s := by
          rw [List.mem_cons, not_or]
          exact ⟨fun h => hc (beq_iff_eq.mpr h.symm), hcons.1⟩
        exact List.forall_mem_cons.mpr ⟨hhead, hcons.2⟩

theorem walk_append (p q : Path) :
    walk above dir (p ++ '/' :: q) = walk above (walk above dir p) q := by
  rw [walk, List.splitOn_append_cons_self, List.foldl_append]
  rfl

theorem walk_slash_cons (path : Path) : walk above dir ('/' :: path) = walk above dir path :=
  walk_append [] path

theorem walk_concat_slash (path : Path) : walk above dir (path ++ ['/']) = walk above dir path :=
  walk_append path []

/-- A walk that cannot leave the root passes through names only. -/
theorem isName_of_mem_walk (hdir : ∀ s ∈ dir, IsName s) :
    ∀ s ∈ walk false dir path, IsName s := by
  have hslash := not_mem_of_mem_splitOn path
  unfold walk
  generalize path.splitOn '/' = steps at hslash
  induction steps generalizing dir with
  | nil => exact hdir
  | cons step steps ih =>
    have hrest : ∀ s ∈ steps, '/' ∉ s := fun s hs => hslash s (List.mem_cons_of_mem _ hs)
    rw [List.foldl_cons]
    apply ih _ hrest
    rcases segment_cases (hslash step List.mem_cons_self) with hskip | rfl | hname
    · rwa [enter_skip hskip]
    · cases dir with
      | nil => exact hdir
      | cons name dir =>
        have hcons := List.forall_mem_cons.mp hdir
        rw [enter_parent_name hcons.1]
        exact hcons.2
    · rw [enter_name hname]
      exact List.forall_mem_cons.mpr ⟨hname, hdir⟩

/-! ### Joined walks -/

theorem splitOn_join (hdir : ∀ s ∈ dir, '/' ∉ s) (hne : dir ≠ []) :
    (join dir).splitOn '/' = dir.reverse := by
  have hslash : ∀ s ∈ dir.reverse, '/' ∉ s := fun s hs => hdir s (List.mem_reverse.mp hs)
  exact List.splitOn_intercalate '/' hslash (mt List.reverse_eq_nil_iff.mp hne)

theorem walk_join (hdir : ∀ s ∈ dir, '/' ∉ s) (start : List Segment) :
    walk above start (join dir) = dir.reverse.foldl (enter above) start := by
  by_cases hne : dir = []
  · rw [hne]
    rfl
  · rw [walk, splitOn_join hdir hne]

theorem foldl_enter_names (hdir : ∀ s ∈ dir, IsName s) (start : List Segment) :
    dir.reverse.foldl (enter above) start = dir ++ start := by
  induction dir with
  | nil => rfl
  | cons name dir ih =>
    have hcons := List.forall_mem_cons.mp hdir
    rw [List.reverse_cons, List.foldl_append, ih hcons.2, List.foldl_cons, List.foldl_nil,
      enter_name hcons.1]
    rfl

/-- The names and ways up that a relative walk leaves lead where its steps do. -/
structure Follows (steps : List Segment) (dir : List Segment) : Prop where
  mem : ∀ s ∈ dir, s = parent ∨ IsName s
  foldl : ∀ start : List Segment, (∀ s ∈ start, IsName s) →
    dir.reverse.foldl (enter false) start = steps.foldl (enter false) start

theorem Follows.step {steps : List Segment} (h : Follows steps dir) (hslash : '/' ∉ segment) :
    Follows (steps ++ [segment]) (enter true dir segment) := by
  have hconcat : ∀ s start, (∀ s ∈ start, IsName s) →
      (s :: dir).reverse.foldl (enter false) start =
        enter false (steps.foldl (enter false) start) s := by
    intro s start hstart
    rw [List.reverse_cons, List.foldl_append, h.foldl start hstart]
    rfl
  have hsteps : ∀ start, (steps ++ [segment]).foldl (enter false) start =
      enter false (steps.foldl (enter false) start) segment := by
    intro start
    rw [List.foldl_append]
    rfl
  rcases segment_cases hslash with hskip | rfl | hname
  · rw [enter_skip hskip]
    refine ⟨h.mem, fun start hstart => ?_⟩
    rw [hsteps, enter_skip hskip, h.foldl start hstart]
  · have hkept : Follows (steps ++ [parent]) (parent :: dir) := by
      refine ⟨List.forall_mem_cons.mpr ⟨Or.inl rfl, h.mem⟩, fun start hstart => ?_⟩
      rw [hsteps, hconcat _ start hstart]
    cases dir with
    | nil => exact hkept
    | cons name dir =>
      have hcons := List.forall_mem_cons.mp h.mem
      rcases hcons.1 with rfl | hname
      · exact hkept
      · rw [enter_parent_name hname]
        refine ⟨hcons.2, fun start hstart => ?_⟩
        have hprev := h.foldl start hstart
        rw [List.reverse_cons, List.foldl_append, List.foldl_cons, List.foldl_nil,
          enter_name hname] at hprev
        rw [hsteps, ← hprev, enter_parent_name hname]
  · rw [enter_name hname]
    refine ⟨List.forall_mem_cons.mpr ⟨Or.inr hname, h.mem⟩, fun start hstart => ?_⟩
    rw [hsteps, hconcat _ start hstart]

theorem follows_walk (path : Path) : Follows (path.splitOn '/') (walk true [] path) := by
  have hslash := not_mem_of_mem_splitOn path
  unfold walk
  generalize path.splitOn '/' = steps at hslash
  induction steps using List.reverseRecOn with
  | nil => exact ⟨fun s hs => absurd hs List.not_mem_nil, fun _ _ => rfl⟩
  | append_singleton steps step ih =>
    rw [List.foldl_append]
    apply (ih fun s hs => hslash s (List.mem_append_left _ hs)).step
    exact hslash step (List.mem_append_right _ List.mem_cons_self)

theorem Follows.no_slash {steps : List Segment} (h : Follows steps dir) : ∀ s ∈ dir, '/' ∉ s := by
  intro s hs
  rcases h.mem s hs with rfl | hname
  · decide
  · exact hname.no_slash

theorem head_join (hdir : ∀ s ∈ dir, s ≠ [] ∧ '/' ∉ s) : (join dir).head? ≠ some '/' := by
  have hreverse : ∀ s ∈ dir.reverse, s ≠ [] ∧ '/' ∉ s := fun s hs => hdir s (List.mem_reverse.mp hs)
  unfold join
  cases hcases : dir.reverse with
  | nil => simp
  | cons s rest =>
    have hs := hreverse s (hcases ▸ List.mem_cons_self)
    cases s with
    | nil => exact absurd rfl hs.1
    | cons c s =>
      rw [List.intercalate_cons_cons_left]
      intro hhead
      exact hs.2 (Option.some_inj.mp hhead ▸ List.mem_cons_self)

/-! ### `normalize` -/

theorem isAbsolute_append (hne : p ≠ []) : isAbsolute (p ++ q) = isAbsolute p := by
  cases p with
  | nil => exact absurd rfl hne
  | cons c p => rfl

theorem isAbsolute_normalizeString : isAbsolute (normalizeString path true) = false := by
  have hmem : ∀ s ∈ walk true [] path, s ≠ [] ∧ '/' ∉ s := by
    intro s hs
    rcases (follows_walk path).mem s hs with rfl | hname
    · decide
    · exact ⟨hname.ne_nil, hname.no_slash⟩
  exact decide_eq_false (head_join hmem)

theorem isAbsolute_normalize : isAbsolute (normalize path) = isAbsolute path := by
  by_cases hpath : path = []
  · rw [hpath]
    rfl
  · cases habs : isAbsolute path with
    | true =>
      simp only [normalize, if_neg hpath, habs, if_true]
      split_ifs <;> rfl
    | false =>
      simp only [normalize, if_neg hpath, habs, Bool.not_false, Bool.false_eq_true, if_false]
      by_cases hnil : normalizeString path true = []
      · rw [if_pos hnil]
        rfl
      · rw [if_neg hnil, isAbsolute_append hnil, isAbsolute_normalizeString]

theorem walk_normalizeString (hdir : ∀ s ∈ dir, IsName s)
    (hroot : isAbsolute path = true → dir = []) :
    walk false dir (normalizeString path (!isAbsolute path)) = walk false dir path := by
  cases habs : isAbsolute path with
  | true =>
    have hnames : ∀ s ∈ walk false [] path, IsName s :=
      isName_of_mem_walk fun s hs => absurd hs List.not_mem_nil
    rw [hroot habs]
    change walk false [] (join (walk false [] path)) = _
    rw [walk_join (fun s hs => (hnames s hs).no_slash), foldl_enter_names hnames,
      List.append_nil]
  | false =>
    have hfollows := follows_walk path
    change walk false dir (join (walk true [] path)) = _
    rw [walk_join hfollows.no_slash, hfollows.foldl dir hdir]
    rfl

/-- `normalize` changes nothing for a walk that cannot leave the root. -/
theorem walk_normalize (hdir : ∀ s ∈ dir, IsName s) (hroot : isAbsolute path = true → dir = []) :
    walk false dir (normalize path) = walk false dir path := by
  rw [← walk_normalizeString hdir hroot]
  by_cases hpath : path = []
  · rw [hpath]
    rfl
  · have htrailing : ∀ p : Path, walk false dir
        (p ++ if path.getLast? = some '/' then ['/'] else []) = walk false dir p := by
      intro p
      split_ifs
      · exact walk_concat_slash p
      · rw [List.append_nil]
    simp only [normalize, if_neg hpath]
    by_cases hnil : normalizeString path (!isAbsolute path) = []
    · rw [if_pos hnil, hnil]
      split_ifs
      · rfl
      · rfl
      · rfl
    · rw [if_neg hnil]
      split_ifs with habs
      · rw [walk_concat_slash, walk_slash_cons]
      · rw [List.append_nil, walk_slash_cons]
      · exact walk_concat_slash _
      · rw [List.append_nil]

/-! ### `resolve` -/

theorem ne_nil_of_isAbsolute (h : isAbsolute path = true) : path ≠ [] := by
  intro hnil
  rw [hnil] at h
  cases h

theorem resolve_of_isAbsolute (cwd : Path) (paths : List Path) {resolved : Path}
    (hpath : resolvedPath (cwd :: paths).reverse [] = resolved)
    (habs : isAbsolute resolved = true) :
    resolve cwd paths = '/' :: join (walk false [] resolved) := by
  simp only [resolve, hpath, habs, if_true]
  rfl

variable {base : Path}

theorem resolve_base (cwd : Path) (hbase : isAbsolute base = true) :
    resolve cwd [base] = '/' :: join (walk false [] base) := by
  have hne := ne_nil_of_isAbsolute hbase
  have hpath : resolvedPath [base, cwd] [] = base ++ ['/'] := by
    rw [resolvedPath, if_neg hne, if_pos hbase]
  have habs : isAbsolute (base ++ ['/']) = true := by rw [isAbsolute_append hne, hbase]
  rw [resolve_of_isAbsolute cwd [base] hpath habs, walk_concat_slash]

/-- The directory that a path leads to from a base directory. -/
def target (base path : Path) : List Segment :=
  if isAbsolute path then walk false [] path else walk false (walk false [] base) path

theorem resolve_base_path (cwd : Path) (hbase : isAbsolute base = true) (path : Path) :
    resolve cwd [base, path] = '/' :: join (target base path) := by
  have hne := ne_nil_of_isAbsolute hbase
  by_cases hnil : path = []
  · have hpath : resolvedPath [path, base, cwd] [] = base ++ ['/'] := by
      rw [resolvedPath, if_pos hnil, resolvedPath, if_neg hne, if_pos hbase]
    have habs : isAbsolute (base ++ ['/']) = true := by rw [isAbsolute_append hne, hbase]
    rw [resolve_of_isAbsolute cwd [base, path] hpath habs, walk_concat_slash, hnil]
    rfl
  · cases hpathAbs : isAbsolute path with
    | true =>
      have hpath : resolvedPath [path, base, cwd] [] = path ++ ['/'] := by
        rw [resolvedPath, if_neg hnil, if_pos hpathAbs]
      have habs : isAbsolute (path ++ ['/']) = true := by rw [isAbsolute_append hnil, hpathAbs]
      rw [resolve_of_isAbsolute cwd [base, path] hpath habs, walk_concat_slash, target,
        if_pos hpathAbs]
    | false =>
      have hnot : ¬isAbsolute path = true := by simp [hpathAbs]
      have hpath : resolvedPath [path, base, cwd] [] = base ++ '/' :: (path ++ ['/']) := by
        rw [resolvedPath, if_neg hnil, if_neg hnot, resolvedPath, if_neg hne, if_pos hbase]
      have habs : isAbsolute (base ++ '/' :: (path ++ ['/'])) = true := by
        rw [isAbsolute_append hne, hbase]
      rw [resolve_of_isAbsolute cwd [base, path] hpath habs, walk_append, walk_concat_slash,
        target, if_neg hnot]

theorem isName_of_mem_target : ∀ s ∈ target base path, IsName s := by
  have hroot : ∀ s ∈ ([] : List Segment), IsName s := fun s hs => absurd hs List.not_mem_nil
  unfold target
  split_ifs
  · exact isName_of_mem_walk hroot
  · exact isName_of_mem_walk (isName_of_mem_walk hroot)

theorem target_normalize (base path : Path) : target base (normalize path) = target base path := by
  have hroot : ∀ s ∈ ([] : List Segment), IsName s := fun s hs => absurd hs List.not_mem_nil
  unfold target
  rw [isAbsolute_normalize]
  split_ifs with habs
  · exact walk_normalize hroot fun _ => rfl
  · exact walk_normalize (isName_of_mem_walk hroot) fun h => absurd h habs

/-! ### Names of resolved paths -/

theorem segments_join (hdir : ∀ s ∈ dir, IsName s) : segments ('/' :: join dir) = dir.reverse := by
  have hslash : ('/' :: join dir).splitOn '/' = [] :: (join dir).splitOn '/' :=
    List.splitOn_append_cons_self [] (join dir)
  rw [segments, hslash]
  by_cases hne : dir = []
  · rw [hne]
    rfl
  · have hnames : ∀ s ∈ dir.reverse, decide (s ≠ []) = true := fun s hs =>
      decide_eq_true (hdir s (List.mem_reverse.mp hs)).ne_nil
    rw [splitOn_join (fun s hs => (hdir s hs).no_slash) hne]
    exact List.filter_eq_self.mpr hnames

/-- The textual test for lying below a directory is the one on names. -/
theorem join_isPrefix_iff {dir' : List Segment} (hdir : ∀ s ∈ dir, IsName s)
    (hdir' : ∀ s ∈ dir', IsName s) (hne : dir ≠ []) :
    join dir ++ ['/'] <+: join dir' ↔ ∃ rest, rest ≠ [] ∧ dir'.reverse = dir.reverse ++ rest := by
  have hdirSplit := splitOn_join (fun s hs => (hdir s hs).no_slash) hne
  constructor
  · intro hprefix
    obtain ⟨text, htext⟩ := hprefix
    have hjoin : join dir' = join dir ++ '/' :: text := by
      rw [← htext, List.append_assoc]
      rfl
    have hne' : dir' ≠ [] := by
      intro hnil
      rw [hnil] at hjoin
      exact List.append_ne_nil_of_right_ne_nil _ (List.cons_ne_nil _ _) hjoin.symm
    have hsplit := congrArg (List.splitOn '/') hjoin
    rw [splitOn_join (fun s hs => (hdir' s hs).no_slash) hne', List.splitOn_append_cons_self,
      hdirSplit] at hsplit
    exact ⟨text.splitOn '/', List.splitOn_ne_nil _ _, hsplit⟩
  · rintro ⟨rest, hrest, hreverse⟩
    refine ⟨['/'].intercalate rest, ?_⟩
    have hslash : ∀ s ∈ dir'.reverse, '/' ∉ s :=
      fun s hs => (hdir' s (List.mem_reverse.mp hs)).no_slash
    have hrestSlash : ∀ s ∈ rest, '/' ∉ s := fun s hs =>
      hslash s (hreverse ▸ List.mem_append_right _ hs)
    have hsplit : (join dir ++ '/' :: ['/'].intercalate rest).splitOn '/' = dir'.reverse := by
      rw [List.splitOn_append_cons_self, hdirSplit, List.splitOn_intercalate '/' hrestSlash hrest,
        hreverse]
    have htext : ['/'].intercalate ((join dir ++ '/' :: ['/'].intercalate rest).splitOn '/') =
        join dir ++ '/' :: ['/'].intercalate rest := List.intercalate_splitOn '/'
    rw [List.append_assoc, List.singleton_append, ← htext, hsplit, join]

/-! ### `dirname` -/

theorem dropWhile_name (hne : segment ≠ []) (hslash : '/' ∉ segment) (before : Path) :
    (((before ++ '/' :: segment).reverse.dropWhile (· = '/')).dropWhile (· ≠ '/')) =
      '/' :: before.reverse := by
  have hreverse : (before ++ '/' :: segment).reverse =
      segment.reverse ++ '/' :: before.reverse := by simp
  have hall : ∀ c ∈ segment.reverse, decide (c ≠ '/') = true := by
    intro c hc
    rw [decide_eq_true_eq]
    intro heq
    rw [heq, List.mem_reverse] at hc
    exact hslash hc
  have hhead : (segment.reverse ++ '/' :: before.reverse).dropWhile (· = '/') =
      segment.reverse ++ '/' :: before.reverse := by
    cases hcases : segment.reverse with
    | nil => exact absurd (List.reverse_eq_nil_iff.mp hcases) hne
    | cons c rest =>
      have hc := hall c (hcases ▸ List.mem_cons_self)
      rw [List.cons_append, List.dropWhile_cons_of_neg]
      simpa using hc
  rw [hreverse, hhead, List.dropWhile_append_of_pos hall, List.dropWhile_cons_of_neg (by simp)]

theorem dirname_append {before : Path} (hbefore : 2 ≤ before.length) (hne : segment ≠ [])
    (hslash : '/' ∉ segment) : dirname (before ++ '/' :: segment) = before := by
  have hreverse : 2 ≤ before.reverse.length := by rwa [List.length_reverse]
  have htext : before.reverse.reverse = before := List.reverse_reverse before
  rw [dirname, dropWhile_name hne hslash]
  generalize before.reverse = reversed at hreverse htext
  split
  case h_1 heq => cases heq
  case h_2 heq =>
    rw [(List.cons.inj heq).2] at hreverse
    cases hreverse
  case h_3 heq =>
    rw [(List.cons.inj heq).2] at hreverse
    cases Nat.le_of_succ_le_succ hreverse
  case h_4 heq =>
    rw [← (List.cons.inj heq).2]
    exact htext

/-- The directory of a joined path is joined from the other names. -/
theorem segments_dirname {name : Segment} (hname : IsName name) (hdir : ∀ s ∈ dir, IsName s) :
    segments (dirname ('/' :: join (name :: dir))) = dir.reverse := by
  by_cases hnil : dir = []
  · have hpath : '/' :: join [name] = [] ++ '/' :: name := by simp [join]
    rw [hnil, hpath, dirname, dropWhile_name hname.ne_nil hname.no_slash]
    rfl
  · have hsplit := splitOn_join (fun s hs => (hdir s hs).no_slash) hnil
    have hjoin : join (name :: dir) = join dir ++ '/' :: name := by
      have htext : ['/'].intercalate ((join dir ++ '/' :: name).splitOn '/') =
          join dir ++ '/' :: name := List.intercalate_splitOn '/'
      rw [List.splitOn_append_cons_self, hsplit, List.splitOn_eq_singleton hname.no_slash,
        ← List.reverse_cons] at htext
      exact htext
    have hne : join dir ≠ [] := by
      intro hempty
      have hmem : ([] : Segment) ∈ dir := by
        rw [← List.mem_reverse, ← hsplit, hempty]
        exact List.mem_cons_self
      exact (hdir _ hmem).ne_nil rfl
    have hlength : 2 ≤ ('/' :: join dir).length :=
      Nat.succ_le_succ (List.length_pos_iff.mpr hne)
    rw [hjoin, ← List.cons_append, dirname_append hlength hname.ne_nil hname.no_slash,
      segments_join hdir]

end Library.PosixPath
