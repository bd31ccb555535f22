import IntelliStore.Library.Runs
import IntelliStore.Library.Tables
import IntelliStore.Metadata.Database

/-! The migrators of the services, all on the one database and its table `schema_migrations`. -/

namespace IntelliStore.Migrations
open Library
open Metadata (DbError)

/-- A file of a `migrations` directory. -/
structure Migration where
  name : String
  sql : String
  deriving DecidableEq

structure Directory where
  files : List Migration
  names_nodup : (files.map Migration.name).Nodup

/-- The UTF-16 code units by which JavaScript compares strings. -/
def utf16Units (s : String) : List Nat :=
  s.toList.flatMap fun c =>
    if c.toNat < 0x10000 then [c.toNat]
    else [0xD800 + (c.toNat - 0x10000) / 0x400, 0xDC00 + (c.toNat - 0x10000) % 0x400]

/-- `readdirSync(migrationsDir).filter((file) => file.endsWith('.sql')).sort()`. -/
def Directory.scripts (dir : Directory) : List Migration :=
  (dir.files.filter fun file => ".sql".toList <:+ file.name.toList).insertionSort fun a b =>
    ¬utf16Units b.name < utf16Units a.name

/-- The names in `schema_migrations`, and the scripts that were committed, with the service whose
migrator did so. -/
structure Database (ι : Type) where
  names : List String
  committed : List (ι × Migration)
  schema_migrations_pkey : names.Nodup

variable {ι : Type}

namespace Database

def empty : Database ι := ⟨[], [], List.nodup_nil⟩

/-- The transaction of one script: its SQL, and the row for its name. -/
def commit (db : Database ι) (service : ι) (file : Migration) : Except DbError (Database ι) :=
  if h : file.name ∈ db.names then .error .uniqueViolation
  else .ok ⟨db.names ++ [file.name], db.committed ++ [(service, file)],
    List.concat_eq_append ▸ List.Nodup.concat h db.schema_migrations_pkey⟩

end Database

/-- The loop of `run`; `applied` is what `schema_migrations` held before it. -/
def applyEach (service : ι) (applied : List String) :
    List Migration → Database ι → Except DbError Unit × Database ι
  | [], db => (.ok (), db)
  | file :: files, db =>
    if applied.contains file.name then applyEach service applied files db
    else
      match db.commit service file with
      | .error e => (.error e, db)
      | .ok db' => applyEach service applied files db'

def run (dirs : ι → Directory) (db : Database ι) (service : ι) :
    Except DbError Unit × Database ι :=
  applyEach service db.names (dirs service).scripts db

/-- The scripts that the next run of a migrator applies. -/
def pending (dirs : ι → Directory) (db : Database ι) (service : ι) : List Migration :=
  (dirs service).scripts.filter fun file => file.name ∉ db.names

variable {dirs : ι → Directory} {db db' : Database ι} {service : ι}

/-! ### One run -/

theorem Database.commit_ok {file : Migration} (h : db.commit service file = .ok db') :
    db'.names = db.names ++ [file.name] ∧ db'.committed = db.committed ++ [(service, file)] := by
  unfold commit at h
  split_ifs at h
  cases h
  exact ⟨rfl, rfl⟩

theorem Database.commit_of_new {file : Migration} (h : file.name ∉ db.names) :
    ∃ db', db.commit service file = .ok db' := by
  rw [commit, dif_neg h]
  exact ⟨_, rfl⟩

theorem scripts_names_nodup (dir : Directory) : (dir.scripts.map Migration.name).Nodup := by
  have hperm := (List.perm_insertionSort (fun a b : Migration =>
    ¬utf16Units b.name < utf16Units a.name)
    (dir.files.filter fun file => ".sql".toList <:+ file.name.toList)).map Migration.name
  rw [Directory.scripts, hperm.nodup_iff]
  exact dir.names_nodup.sublist (List.filter_sublist.map _)

/-- The loop commits the files that were not applied before it. -/
theorem applyEach_eq {applied : List String} {files : List Migration}
    (hfiles : (files.map Migration.name).Nodup)
    (hnew : ∀ file ∈ files, file.name ∈ db.names ↔ file.name ∈ applied) :
    (applyEach service applied files db).1 = .ok () ∧
    (applyEach service applied files db).2.names =
      db.names ++ (files.filter fun file => file.name ∉ applied).map Migration.name ∧
    (applyEach service applied files db).2.committed =
      db.committed ++ (files.filter fun file => file.name ∉ applied).map (service, ·) := by
  induction files generalizing db with
  | nil =>
    simp only [applyEach, List.filter_nil, List.map_nil, List.append_nil]
    exact ⟨trivial, trivial, trivial⟩
  | cons file files ih =>
    rw [List.map_cons, List.nodup_cons] at hfiles
    obtain ⟨hfile, hrest⟩ := List.forall_mem_cons.mp hnew
    by_cases happlied : file.name ∈ applied
    · rw [applyEach, if_pos (List.contains_iff_mem.mpr happlied),
        List.filter_cons_of_neg (by simpa using happlied)]
      exact ih hfiles.2 hrest
    · obtain ⟨db', hcommit⟩ : ∃ db', db.commit service file = .ok db' :=
        Database.commit_of_new (mt hfile.mp happlied)
      obtain ⟨hnames, hcommitted⟩ := Database.commit_ok hcommit
      have hrest' : ∀ f ∈ files, f.name ∈ db'.names ↔ f.name ∈ applied := by
        intro f hf
        have hne : f.name ≠ file.name := by
          intro heq
          exact hfiles.1 (heq ▸ List.mem_map_of_mem hf)
        rw [hnames, List.mem_append, List.mem_singleton, or_iff_left hne]
        exact hrest f hf
      rw [applyEach, if_neg (by simpa using happlied), hcommit,
        List.filter_cons_of_pos (by simpa using happlied)]
      obtain ⟨hok, hnames', hcommitted'⟩ := ih hfiles.2 hrest'
      refine ⟨hok, ?_, ?_⟩
      · rw [hnames', hnames, List.map_cons, List.append_assoc]
        rfl
      · rw [hcommitted', hcommitted, List.map_cons, List.append_assoc]
        rfl

/-- A run commits what is pending, and its inserts meet no name that is there already. -/
theorem run_eq (dirs : ι → Directory) (db : Database ι) (service : ι) :
    (run dirs db service).1 = .ok () ∧
    (run dirs db service).2.names = db.names ++ (pending dirs db service).map Migration.name ∧
    (run dirs db service).2.committed =
      db.committed ++ (pending dirs db service).map (service, ·) :=
  applyEach_eq (scripts_names_nodup _) fun _ _ => Iff.rfl

/-! ### Any order of runs -/

/-- The scripts that the migrator of a service has committed. -/
def Database.committedBy [DecidableEq ι] (db : Database ι) (service : ι) : List Migration :=
  (db.committed.filter fun c => c.1 = service).map Prod.snd

/-- Once every migrator has run, every script was committed exactly once; and what a run applies
depends on the earlier runs of its own service alone. -/
def Independent [DecidableEq ι] (dirs : ι → Directory) : Prop :=
  ∀ runs : List ι,
    ((∀ service, service ∈ runs) → ∀ service, ∀ script ∈ (dirs service).scripts,
      ((finalState (run dirs) .empty runs).committedBy service).count script = 1) ∧
    ∀ service, pending dirs (finalState (run dirs) .empty runs) service =
      pending dirs (finalState (run dirs) .empty (runs.filter fun other => other = service)) service

/-- No two services have a script of one name. -/
def NamesDisjoint (dirs : ι → Directory) : Prop :=
  ∀ i j, i ≠ j → ∀ a ∈ (dirs i).scripts, ∀ b ∈ (dirs j).scripts, a.name ≠ b.name

/-- What was committed are the scripts of the services that have run. -/
structure Committed (dirs : ι → Directory) (runs : List ι) (db : Database ι) : Prop where
  names : db.names = db.committed.map fun c => c.2.name
  scripts : ∀ service script, (service, script) ∈ db.committed ↔
    service ∈ runs ∧ script ∈ (dirs service).scripts

section
variable {runs : List ι} (hdisjoint : NamesDisjoint dirs) (h : Committed dirs runs db)
include hdisjoint h

/-- A script of a service is applied if the service has run. -/
theorem Committed.name_mem {script : Migration} (hscript : script ∈ (dirs service).scripts) :
    script.name ∈ db.names ↔ service ∈ runs := by
  rw [h.names, List.mem_map]
  constructor
  · rintro ⟨⟨other, file⟩, hcommitted, hname⟩
    obtain ⟨hother, hfile⟩ := (h.scripts other file).mp hcommitted
    by_cases hne : other = service
    · exact hne ▸ hother
    · exact absurd hname (hdisjoint other service hne file hfile script hscript)
  · intro hservice
    exact ⟨(service, script), (h.scripts service script).mpr ⟨hservice, hscript⟩, rfl⟩

theorem Committed.mem_pending {script : Migration} :
    script ∈ pending dirs db service ↔ script ∈ (dirs service).scripts ∧ service ∉ runs := by
  rw [pending, List.mem_filter, decide_eq_true_eq]
  exact and_congr_right fun hscript => not_congr (h.name_mem hdisjoint hscript)

theorem Committed.step (service : ι) :
    Committed dirs (runs ++ [service]) (run dirs db service).2 := by
  obtain ⟨-, hnames, hcommitted⟩ := run_eq dirs db service
  constructor
  · rw [hnames, hcommitted, h.names, List.map_append, List.map_map]
    rfl
  · intro other script
    rw [hcommitted, List.mem_append, h.scripts, List.mem_append, List.mem_singleton, List.mem_map]
    constructor
    · rintro (⟨hother, hscript⟩ | ⟨file, hfile, heq⟩)
      · exact ⟨.inl hother, hscript⟩
      · cases heq
        exact ⟨.inr rfl, ((h.mem_pending hdisjoint).mp hfile).1⟩
    · rintro ⟨hother | rfl, hscript⟩
      · exact .inl ⟨hother, hscript⟩
      · by_cases hother : other ∈ runs
        · exact .inl ⟨hother, hscript⟩
        · exact .inr ⟨script, (h.mem_pending hdisjoint).mpr ⟨hscript, hother⟩, rfl⟩

end

theorem committed_run (hdisjoint : NamesDisjoint dirs) (runs : List ι) :
    Committed dirs runs (finalState (run dirs) .empty runs) :=
  finalState_history (Committed dirs) (fun _ _ service _ h => h.step hdisjoint service)
    (guarded_of_forall (G := fun _ => True) fun _ _ => trivial)
    ⟨rfl, fun service script => by simp [Database.empty]⟩

/-- The migrators leave each other alone if and only if no file name occurs twice. -/
theorem independent_iff [DecidableEq ι] (dirs : ι → Directory) :
    Independent dirs ↔ NamesDisjoint dirs := by
  constructor
  · intro h i j hij a ha b hb hname
    -- the other migrator alone, and then that of the script
    obtain ⟨-, hpending⟩ := h [j]
    have hempty : [j].filter (fun other => other = i) = [] := by simp [Ne.symm hij]
    have hfirst : a ∈ pending dirs (finalState (run dirs) .empty []) i :=
      List.mem_filter.mpr ⟨ha, decide_eq_true List.not_mem_nil⟩
    have hsecond := hpending i
    rw [hempty] at hsecond
    rw [← hsecond, pending, List.mem_filter, decide_eq_true_eq] at hfirst
    apply hfirst.2
    have hnames : (finalState (run dirs) .empty [j]).names =
        [] ++ (pending dirs .empty j).map Migration.name := (run_eq dirs .empty j).2.1
    rw [hnames, List.nil_append, hname]
    exact List.mem_map_of_mem (List.mem_filter.mpr ⟨hb, decide_eq_true List.not_mem_nil⟩)
  · intro hdisjoint runs
    have h := committed_run hdisjoint runs
    constructor
    · intro hall service script hscript
      have hmem : script ∈ (finalState (run dirs) .empty runs).committedBy service := by
        have hcommitted := (h.scripts service script).mpr ⟨hall service, hscript⟩
        exact List.mem_map.mpr ⟨_, List.mem_filter.mpr ⟨hcommitted, by simp⟩, rfl⟩
      have hnodup : ((finalState (run dirs) .empty runs).committedBy service).Nodup := by
        have hkeys := (finalState (run dirs) .empty runs).schema_migrations_pkey
        rw [h.names] at hkeys
        apply List.Nodup.of_map Migration.name
        rw [Database.committedBy, List.map_map]
        exact hkeys.sublist (List.filter_sublist.map _)
      exact List.count_eq_one_of_mem hnodup hmem
    · intro service
      have h' := committed_run hdisjoint (runs.filter fun other => other = service)
      refine List.filter_congr fun script hscript => ?_
      rw [decide_eq_decide, h.name_mem hdisjoint hscript, h'.name_mem hdisjoint hscript]
      simp

/-! ### One name in two directories -/

inductive SchemaOwner where
  | auth
  | metadata
  | replication
  | aiAnalytics
  | notification
  deriving DecidableEq

def initScript (sql : String) : Directory := ⟨[⟨"001_init.sql", sql⟩], List.nodup_singleton _⟩

def sameNameDirs : SchemaOwner → Directory
  | .auth => initScript "CREATE TABLE users ();"
  | .metadata => initScript "CREATE TABLE files ();"
  | _ => ⟨[], List.nodup_nil⟩

/-- The tables of metadata-service are never created. -/
theorem same_name_not_independent : ¬Independent sameNameDirs := by
  intro h
  have hall : ∀ service : SchemaOwner,
      service ∈ [SchemaOwner.auth, .metadata, .replication, .aiAnalytics, .notification] := by
    intro service
    cases service <;> decide
  have honce := (h _).1 hall .metadata ⟨"001_init.sql", "CREATE TABLE files ();"⟩ (by decide)
  exact absurd honce (by decide)

end IntelliStore.Migrations
