import IntelliStore.Migrations

/-! The migrator of one service, statement by statement. Runs follow one another, and each may end
at any statement: a statement is refused, its reply is lost, or the process crashes. -/

namespace IntelliStore.MigrationRuns
open Migrations

variable {σ : Type}

/-- What the database holds: the names in `schema_migrations` once the table was created, the rest
of the schema, and the scripts whose effects are in it. -/
@[ext] structure Tables (σ : Type) where
  schema_migrations : Option (List String)
  schema : σ
  scripts : List Migration

namespace Tables

/-- `CREATE TABLE IF NOT EXISTS schema_migrations` -/
def ensureMigrationsTable (t : Tables σ) : Tables σ :=
  { t with schema_migrations := some (t.schema_migrations.getD []) }

/-- `exec` gives the schema that a script leaves, or `none` if it fails. -/
def execute (exec : String → σ → Option σ) (file : Migration) (t : Tables σ) :
    Option (Tables σ) :=
  (exec file.sql t.schema).map fun schema =>
    { t with schema := schema, scripts := t.scripts ++ [file] }

/-- `INSERT INTO schema_migrations (name) VALUES ($1)` -/
def insertName (name : String) (t : Tables σ) : Option (Tables σ) :=
  match t.schema_migrations with
  | none => none
  | some names =>
    if name ∈ names then none else some { t with schema_migrations := some (names ++ [name]) }

end Tables

/-- The loop of `run` at a file that was not applied before. -/
structure Position where
  applied : List String
  file : Migration
  files : List Migration

/-- The statement that the migrator waits for, with the tables as its open transaction sees them. -/
inductive Client (σ : Type) where
  | idle
  | ensureMigrationsTable
  | appliedMigrationNames
  | beginning (p : Position)
  | script (p : Position) (tx : Tables σ)
  | insert (p : Position) (tx : Tables σ)
  | commit (p : Position) (tx : Tables σ)
  | rollback
  | completed

structure State (σ : Type) where
  tables : Tables σ
  client : Client σ

/-- A lost reply is that of a statement carried out all the same. -/
inductive Reply where
  | done
  | refused
  | lost
  deriving DecidableEq

inductive Event where
  | run
  | reply (r : Reply)
  | crash
  deriving DecidableEq

def nextFile (applied : List String) : List Migration → Client σ
  | [] => .completed
  | file :: files =>
    if applied.contains file.name then nextFile applied files
    else .beginning ⟨applied, file, files⟩

section
variable (exec : String → σ → Option σ) (dir : Directory)

def onReply (s : State σ) (r : Reply) : State σ :=
  match s.client with
  | .idle => s
  | .completed => s
  | .ensureMigrationsTable =>
    match r with
    | .done => ⟨s.tables.ensureMigrationsTable, .appliedMigrationNames⟩
    | .refused => ⟨s.tables, .idle⟩
    | .lost => ⟨s.tables.ensureMigrationsTable, .idle⟩
  | .appliedMigrationNames =>
    match r, s.tables.schema_migrations with
    | .done, some names => ⟨s.tables, nextFile names dir.scripts⟩
    | _, _ => ⟨s.tables, .idle⟩
  | .beginning p => ⟨s.tables, if r = .done then .script p s.tables else .rollback⟩
  | .script p tx =>
    match r, tx.execute exec p.file with
    | .done, some tx => ⟨s.tables, .insert p tx⟩
    | _, _ => ⟨s.tables, .rollback⟩
  | .insert p tx =>
    match r, tx.insertName p.file.name with
    | .done, some tx => ⟨s.tables, .commit p tx⟩
    | _, _ => ⟨s.tables, .rollback⟩
  | .commit p tx =>
    match r with
    | .done => ⟨tx, nextFile p.applied p.files⟩
    | .refused => ⟨s.tables, .rollback⟩
    | .lost => ⟨tx, .rollback⟩
  | .rollback => ⟨s.tables, .idle⟩

/-- A run starts when none is going on; a crash leaves its transaction to be rolled back. -/
def step (s : State σ) : Event → State σ
  | .run =>
    match s.client with
    | .idle | .completed => ⟨s.tables, .ensureMigrationsTable⟩
    | _ => s
  | .reply r => onReply exec dir s r
  | .crash => ⟨s.tables, .idle⟩

def init (schema : σ) : State σ := ⟨⟨none, schema, []⟩, .idle⟩

def afterEvents (schema : σ) (events : List Event) : State σ :=
  events.foldl (step exec dir) (init schema)

/-- One run with every statement answered: two before the loop, and four for each file. -/
def uninterrupted (schema : σ) : State σ :=
  afterEvents exec dir schema
    (.run :: List.replicate (2 + 4 * dir.scripts.length) (.reply .done))

/-- The schema after the scripts, one by one. -/
def executeAll (files : List Migration) (schema : σ) : Option σ :=
  files.foldlM (fun schema file => exec file.sql schema) schema

end

/-! ### The invariant -/

/-- The tables hold the effects of these scripts and their names. -/
structure Applied (exec : String → σ → Option σ) (schema : σ) (files : List Migration)
    (t : Tables σ) : Prop where
  scripts : t.scripts = files
  names : t.schema_migrations.getD [] = files.map Migration.name
  schema : executeAll exec files schema = some t.schema

/-- The loop is at the first of the files that are left. -/
structure Position.At (dir : Directory) (files : List Migration) (p : Position) : Prop where
  scripts : dir.scripts = files ++ p.file :: p.files
  fresh : ∀ file ∈ p.file :: p.files, file.name ∉ p.applied

def ClientOk (exec : String → σ → Option σ) (dir : Directory) (files : List Migration)
    (t : Tables σ) : Client σ → Prop
  | .idle | .ensureMigrationsTable | .rollback => True
  | .appliedMigrationNames => t.schema_migrations.isSome
  | .beginning p => t.schema_migrations.isSome ∧ p.At dir files
  | .script p tx => t.schema_migrations.isSome ∧ p.At dir files ∧ tx = t
  | .insert p tx => t.schema_migrations.isSome ∧ p.At dir files ∧ t.execute exec p.file = some tx
  | .commit p tx => t.schema_migrations.isSome ∧ p.At dir files ∧
      (t.execute exec p.file).bind (Tables.insertName p.file.name) = some tx
  | .completed => t.schema_migrations.isSome ∧ files = dir.scripts

structure Inv (exec : String → σ → Option σ) (dir : Directory) (schema : σ)
    (files : List Migration) (s : State σ) : Prop where
  isPrefix : files <+: dir.scripts
  applied : Applied exec schema files s.tables
  client : ClientOk exec dir files s.tables s.client

variable {exec : String → σ → Option σ} {dir : Directory} {schema : σ} {files rest : List Migration}
  {t tx : Tables σ} {s : State σ} {p : Position} {applied : List String}

theorem executeAll_concat (file : Migration) :
    executeAll exec (files ++ [file]) schema =
      (executeAll exec files schema).bind (exec file.sql) := by
  unfold executeAll
  rw [List.foldlM_append]
  simp only [List.foldlM_cons, List.foldlM_nil, bind_pure]
  rfl

theorem nextFile_skip (hall : ∀ file ∈ files, file.name ∈ applied) :
    nextFile (σ := σ) applied (files ++ rest) = nextFile applied rest := by
  induction files with
  | nil => rfl
  | cons file files ih =>
    have hcons := List.forall_mem_cons.mp hall
    rw [List.cons_append, nextFile, if_pos (List.contains_iff_mem.mpr hcons.1), ih hcons.2]

/-- The loop goes on at the first file, since none of those left was applied. -/
theorem clientOk_nextFile (hcreated : t.schema_migrations.isSome)
    (hscripts : dir.scripts = files ++ rest) (hfresh : ∀ file ∈ rest, file.name ∉ applied) :
    ClientOk exec dir files t (nextFile applied rest) := by
  cases rest with
  | nil => exact ⟨hcreated, by rw [hscripts, List.append_nil]⟩
  | cons file rest =>
    have hfile := hfresh file List.mem_cons_self
    rw [nextFile, if_neg (mt List.contains_iff_mem.mp hfile)]
    exact ⟨hcreated, hscripts, hfresh⟩

theorem Position.At.isPrefix (h : p.At dir files) : files ++ [p.file] <+: dir.scripts :=
  ⟨p.files, by rw [h.scripts, List.append_assoc, List.singleton_append]⟩

/-- What the transaction of one file leaves. -/
theorem Applied.commit (h : Applied exec schema files t)
    (htx : (t.execute exec p.file).bind (Tables.insertName p.file.name) = some tx) :
    Applied exec schema (files ++ [p.file]) tx ∧ tx.schema_migrations.isSome := by
  obtain ⟨executed, hexecuted, hinsert⟩ := Option.bind_eq_some_iff.mp htx
  obtain ⟨schema', hexec, rfl⟩ := Option.map_eq_some_iff.mp hexecuted
  unfold Tables.insertName at hinsert
  cases hnames : t.schema_migrations with
  | none =>
    simp only [hnames] at hinsert
    cases hinsert
  | some names =>
    simp only [hnames] at hinsert
    split_ifs at hinsert
    cases hinsert
    have happlied := h.names
    rw [hnames] at happlied
    refine ⟨⟨?_, ?_, ?_⟩, rfl⟩
    · rw [h.scripts]
    · rw [List.map_append, ← happlied]
      rfl
    · rw [executeAll_concat, h.schema, Option.bind_some, hexec]

theorem Applied.ensureMigrationsTable (h : Applied exec schema files t) :
    Applied exec schema files t.ensureMigrationsTable :=
  ⟨h.scripts, h.names, h.schema⟩

/-! ### Every event keeps it -/

/-- A transaction that is not committed leaves no trace. -/
theorem Inv.unchanged (h : Inv exec dir schema files s) (client : Client σ)
    (hclient : ClientOk exec dir files s.tables client) :
    Inv exec dir schema files ⟨s.tables, client⟩ := ⟨h.isPrefix, h.applied, hclient⟩

theorem Inv.idle (h : Inv exec dir schema files s) :
    Inv exec dir schema files ⟨s.tables, .idle⟩ := h.unchanged _ trivial

theorem Inv.rollback (h : Inv exec dir schema files s) :
    Inv exec dir schema files ⟨s.tables, .rollback⟩ := h.unchanged _ trivial

/-- A file was not applied before if its name comes after those that were. -/
theorem fresh_of_names (hscripts : dir.scripts = files ++ rest) :
    ∀ file ∈ rest, file.name ∉ files.map Migration.name := by
  have hnodup := scripts_names_nodup dir
  rw [hscripts, List.map_append, List.nodup_append] at hnodup
  intro file hfile hname
  exact hnodup.2.2 _ hname _ (List.mem_map_of_mem hfile) rfl

theorem Inv.onSelect {names : List String} (h : Inv exec dir schema files s)
    (hnames : s.tables.schema_migrations = some names) :
    Inv exec dir schema files ⟨s.tables, nextFile names dir.scripts⟩ := by
  have hcreated : s.tables.schema_migrations.isSome := by rw [hnames]; rfl
  have happlied : names = files.map Migration.name := by
    have := h.applied.names
    rwa [hnames] at this
  obtain ⟨rest, hrest⟩ := h.isPrefix
  have hskip : nextFile (σ := σ) names dir.scripts = nextFile names rest := by
    rw [← hrest]
    apply nextFile_skip
    intro file hfile
    exact happlied ▸ List.mem_map_of_mem hfile
  rw [hskip]
  apply h.unchanged
  apply clientOk_nextFile hcreated hrest.symm
  exact happlied ▸ fresh_of_names hrest.symm

theorem Inv.onCommit (h : Inv exec dir schema files s) (hat : p.At dir files)
    (htx : (s.tables.execute exec p.file).bind (Tables.insertName p.file.name) = some tx)
    {client : Client σ} (hclient : ClientOk exec dir (files ++ [p.file]) tx client) :
    Inv exec dir schema (files ++ [p.file]) ⟨tx, client⟩ :=
  ⟨hat.isPrefix, (h.applied.commit htx).1, hclient⟩

theorem Inv.onReply (h : Inv exec dir schema files s) (r : Reply) :
    ∃ files', Inv exec dir schema files' (onReply exec dir s r) := by
  have hclient := h.client
  unfold MigrationRuns.onReply
  cases hc : s.client with
  | idle => exact ⟨files, h⟩
  | completed => exact ⟨files, h⟩
  | rollback => exact ⟨files, h.idle⟩
  | ensureMigrationsTable =>
    have happlied := h.applied.ensureMigrationsTable
    cases r with
    | done => exact ⟨files, h.isPrefix, happlied, rfl⟩
    | refused => exact ⟨files, h.idle⟩
    | lost => exact ⟨files, h.isPrefix, happlied, trivial⟩
  | appliedMigrationNames =>
    cases hnames : s.tables.schema_migrations with
    | none => cases r <;> exact ⟨files, h.idle⟩
    | some names =>
      cases r with
      | done => exact ⟨files, h.onSelect hnames⟩
      | refused => exact ⟨files, h.idle⟩
      | lost => exact ⟨files, h.idle⟩
  | beginning p =>
    rw [hc] at hclient
    simp only
    split_ifs
    · exact ⟨files, h.unchanged _ ⟨hclient.1, hclient.2, rfl⟩⟩
    · exact ⟨files, h.rollback⟩
  | script p tx =>
    rw [hc] at hclient
    obtain ⟨hcreated, hat, rfl⟩ := hclient
    simp only
    cases hexec : s.tables.execute exec p.file with
    | none => cases r <;> exact ⟨files, h.rollback⟩
    | some executed =>
      cases r with
      | done => exact ⟨files, h.unchanged (.insert p _) ⟨hcreated, hat, hexec⟩⟩
      | refused => exact ⟨files, h.rollback⟩
      | lost => exact ⟨files, h.rollback⟩
  | insert p tx =>
    rw [hc] at hclient
    obtain ⟨hcreated, hat, hexec⟩ := hclient
    simp only
    cases hinsert : tx.insertName p.file.name with
    | none => cases r <;> exact ⟨files, h.rollback⟩
    | some inserted =>
      cases r with
      | done =>
        have htx : (s.tables.execute exec p.file).bind (Tables.insertName p.file.name) =
            some inserted := by rw [hexec, Option.bind_some, hinsert]
        exact ⟨files, h.unchanged (.commit p _) ⟨hcreated, hat, htx⟩⟩
      | refused => exact ⟨files, h.rollback⟩
      | lost => exact ⟨files, h.rollback⟩
  | commit p tx =>
    rw [hc] at hclient
    obtain ⟨-, hat, htx⟩ := hclient
    cases r with
    | done =>
      have hscripts : dir.scripts = (files ++ [p.file]) ++ p.files := by
        rw [hat.scripts, List.append_assoc, List.singleton_append]
      have hfresh := (List.forall_mem_cons.mp hat.fresh).2
      have hnext : ClientOk exec dir (files ++ [p.file]) tx (nextFile p.applied p.files) :=
        clientOk_nextFile (h.applied.commit htx).2 hscripts hfresh
      exact ⟨files ++ [p.file], h.onCommit hat htx hnext⟩
    | refused => exact ⟨files, h.rollback⟩
    -- committed, although the migrator reports a failure
    | lost => exact ⟨files ++ [p.file], h.onCommit hat htx trivial⟩

theorem Inv.step (h : Inv exec dir schema files s) (e : Event) :
    ∃ files', Inv exec dir schema files' (step exec dir s e) := by
  cases e with
  | reply r => exact h.onReply r
  | crash => exact ⟨files, h.idle⟩
  | run =>
    have hstart : Inv exec dir schema files ⟨s.tables, .ensureMigrationsTable⟩ :=
      h.unchanged _ trivial
    refine ⟨files, ?_⟩
    unfold MigrationRuns.step
    simp only
    split
    · exact hstart
    · exact hstart
    · exact h

theorem inv_afterEvents (exec : String → σ → Option σ) (dir : Directory) (schema : σ)
    (events : List Event) :
    ∃ files, Inv exec dir schema files (afterEvents exec dir schema events) := by
  have hinit : ∃ files, Inv exec dir schema files (init schema) :=
    ⟨[], List.nil_prefix, ⟨rfl, rfl, rfl⟩, trivial⟩
  unfold afterEvents
  generalize init schema = s at hinit
  induction events generalizing s with
  | nil => exact hinit
  | cons e events ih =>
    obtain ⟨files, h⟩ := hinit
    exact ih _ (h.step e)

/-! ### An uninterrupted run -/

theorem insertName_of_new {name : String} {names : List String}
    (hnames : t.schema_migrations = some names) (hname : name ∉ names) :
    t.insertName name = some { t with schema_migrations := some (names ++ [name]) } := by
  simp only [Tables.insertName, hnames, if_neg hname]

/-- Four statements answered apply one file. -/
theorem foldl_file {file : Migration} {names : List String} {schema' : σ} (events : List Event)
    (happlied : file.name ∉ applied) (hexec : exec file.sql t.schema = some schema')
    (hnames : t.schema_migrations = some names) (hname : file.name ∉ names) :
    (List.replicate 4 (Event.reply .done) ++ events).foldl (step exec dir)
        ⟨t, nextFile applied (file :: files)⟩ =
      events.foldl (step exec dir) ⟨⟨some (names ++ [file.name]), schema', t.scripts ++ [file]⟩,
        nextFile applied files⟩ := by
  have hfirst : nextFile applied (file :: files) =
      (.beginning ⟨applied, file, files⟩ : Client σ) := by
    rw [nextFile, if_neg (mt List.contains_iff_mem.mp happlied)]
  have hexecute : t.execute exec file =
      some { t with schema := schema', scripts := t.scripts ++ [file] } := by
    rw [Tables.execute, hexec, Option.map_some]
  have hinsert : Tables.insertName file.name
      { t with schema := schema', scripts := t.scripts ++ [file] } =
      some ⟨some (names ++ [file.name]), schema', t.scripts ++ [file]⟩ :=
    insertName_of_new hnames hname
  rw [hfirst, List.foldl_append]
  simp only [List.replicate, List.foldl_cons, List.foldl_nil, step, onReply, if_true, hexecute,
    hinsert]

theorem foldl_files {names : List String} {final : σ} (hnames : t.schema_migrations = some names)
    (hfresh : ∀ file ∈ files, file.name ∉ applied)
    (hnodup : (names ++ files.map Migration.name).Nodup)
    (hexec : executeAll exec files t.schema = some final) :
    ((List.replicate (4 * files.length) (Event.reply .done)).foldl (step exec dir)
      ⟨t, nextFile applied files⟩).client = .completed := by
  induction files generalizing t names with
  | nil => rfl
  | cons file files ih =>
    obtain ⟨hfile, hrest⟩ := List.forall_mem_cons.mp hfresh
    obtain ⟨schema', hschema, hall⟩ := Option.bind_eq_some_iff.mp hexec
    have hname : file.name ∉ names := by
      intro hmem
      exact (List.nodup_append.mp hnodup).2.2 _ hmem _ List.mem_cons_self rfl
    have hlength : List.replicate (4 * (file :: files).length) (Event.reply .done) =
        List.replicate 4 (Event.reply .done) ++
          List.replicate (4 * files.length) (Event.reply .done) := by
      rw [List.replicate_append_replicate, List.length_cons, Nat.mul_succ, Nat.add_comm]
    rw [hlength, foldl_file _ hfile hschema hnames hname]
    have hnames' : (names ++ [file.name] ++ files.map Migration.name).Nodup := by
      rwa [List.append_assoc, List.singleton_append]
    exact ih rfl hrest hnames' hall

/-- If the scripts can be executed one by one, then a run without failures completes. -/
theorem uninterrupted_completed {final : σ}
    (hexec : executeAll exec dir.scripts schema = some final) :
    (uninterrupted exec dir schema).client = .completed := by
  have hfresh : ∀ file ∈ dir.scripts, file.name ∉ ([] : List String) :=
    fun _ _ => List.not_mem_nil
  have hnodup : (([] : List String) ++ dir.scripts.map Migration.name).Nodup :=
    scripts_names_nodup dir
  have hfiles : ((List.replicate (4 * dir.scripts.length) (Event.reply .done)).foldl
      (step exec dir) ⟨⟨some [], schema, []⟩, nextFile [] dir.scripts⟩).client = .completed :=
    foldl_files rfl hfresh hnodup hexec
  have hevents : List.replicate (2 + 4 * dir.scripts.length) (Event.reply .done) =
      .reply .done :: .reply .done ::
        List.replicate (4 * dir.scripts.length) (Event.reply .done) := by
    rw [Nat.add_comm]
    rfl
  rw [uninterrupted, afterEvents, hevents]
  exact hfiles

/-- What a completed run leaves does not depend on the runs before it. -/
theorem Inv.tables_of_completed (h : Inv exec dir schema files s)
    (hcompleted : s.client = .completed) :
    s.tables.schema_migrations = some (dir.scripts.map Migration.name) ∧
      s.tables.scripts = dir.scripts ∧
      executeAll exec dir.scripts schema = some s.tables.schema := by
  have hclient := h.client
  rw [hcompleted] at hclient
  obtain ⟨hcreated, rfl⟩ := hclient
  obtain ⟨names, hnames⟩ := Option.isSome_iff_exists.mp hcreated
  have happlied := h.applied.names
  rw [hnames] at happlied
  exact ⟨by rw [hnames]; exact congrArg some happlied, h.applied.scripts, h.applied.schema⟩

/-- At every point of any sequence of runs, wherever they fail. -/
theorem migration_runs_resumable (exec : String → σ → Option σ) (dir : Directory) (schema : σ)
    (events : List Event) :
    let s := afterEvents exec dir schema events
    s.tables.schema_migrations.getD [] = s.tables.scripts.map Migration.name ∧
      s.tables.scripts.Nodup ∧ s.tables.scripts <+: dir.scripts ∧
      executeAll exec s.tables.scripts schema = some s.tables.schema ∧
      (s.client = .completed → (uninterrupted exec dir schema).client = .completed ∧
        s.tables = (uninterrupted exec dir schema).tables) := by
  intro s
  obtain ⟨files, h⟩ := inv_afterEvents exec dir schema events
  have hnodup : dir.scripts.Nodup := (scripts_names_nodup dir).of_map
  have hfiles : s.tables.scripts = files := h.applied.scripts
  refine ⟨?_, ?_, ?_, ?_, fun hcompleted => ?_⟩
  · rw [hfiles]
    exact h.applied.names
  · rw [hfiles]
    exact hnodup.sublist h.isPrefix.sublist
  · rw [hfiles]
    exact h.isPrefix
  · rw [hfiles]
    exact h.applied.schema
  · have htables := h.tables_of_completed hcompleted
    have hdone := uninterrupted_completed htables.2.2
    obtain ⟨files', h'⟩ := inv_afterEvents exec dir schema
      (.run :: List.replicate (2 + 4 * dir.scripts.length) (.reply .done))
    have htables' := h'.tables_of_completed hdone
    refine ⟨hdone, ?_⟩
    have hschema := htables.2.2.symm.trans htables'.2.2
    exact Tables.ext (htables.1.trans htables'.1.symm) (Option.some_inj.mp hschema)
      (htables.2.1.trans htables'.2.1.symm)

/-- A completed run leaves the names that the migrator as one step leaves. -/
theorem names_eq_run {events : List Event}
    (hcompleted : (afterEvents exec dir schema events).client = .completed) :
    (afterEvents exec dir schema events).tables.schema_migrations =
      some (Migrations.run (fun _ : Unit => dir) .empty ()).2.names := by
  obtain ⟨files, h⟩ := inv_afterEvents exec dir schema events
  have hrun := (run_eq (fun _ : Unit => dir) .empty ()).2.1
  have hall : pending (fun _ : Unit => dir) .empty () = dir.scripts :=
    List.filter_eq_self.mpr fun file _ => decide_eq_true List.not_mem_nil
  rw [hrun, hall, (h.tables_of_completed hcompleted).1]
  rfl

end IntelliStore.MigrationRuns
