import Mathlib.Data.List.Sort
import Mathlib.Data.List.Lex
import PaymentWebhook.Transactions.Triples

set_option relaxedAutoImplicit false
set_option autoImplicit false

/-!
# The migration runner

`runMigrations`, which applies the `.sql` files of a directory in the order of their names, each in a
transaction of its own that also records the file in `schema_migrations`.

## Main definitions

* `PaymentWebhook.Dialect` — what the SQL of the migrations does.
* `PaymentWebhook.migrationEngine` — the statements of a runner, on a schema and the recorded versions.
* `PaymentWebhook.runMigrations` — the runner.
* `PaymentWebhook.Progress` — what a runner has committed, and what its next transaction executes.

## Main results

* `PaymentWebhook.wp_runMigrations` — a runner commits the pending files in order.

## Implementation notes

A file is the list of its statements; they contain no transaction control, and do not touch
`schema_migrations`.  A statement outside a transaction is a transaction of its own.  The files are read
when the directory is; a file that cannot be read ends the run as a process that dies before `BEGIN` does.
-/

namespace PaymentWebhook

open Transactions

/-! ## The database of the migrations -/

/-- The SQL of the migrations: what a statement changes in a schema, and how a change is applied. -/
structure Dialect where
  Schema : Type
  Statement : Type
  Change : Type
  Err : Type
  exec : Statement → Schema → Except Err (List Change)
  apply : Schema → Change → Schema

variable {D : Dialect}

/-- The database: the schema, and the versions in `schema_migrations`, if there is that table. -/
@[ext] structure MigrationStore (D : Dialect) where
  schema : D.Schema
  versions : Option (List String)

/-- The recorded versions. -/
def MigrationStore.recorded (s : MigrationStore D) : List String := s.versions.getD []

/-- The statements of a runner. -/
inductive MigrationStmt (D : Dialect) where
  /-- `CREATE TABLE IF NOT EXISTS schema_migrations …`. -/
  | createTable
  /-- `SELECT version FROM schema_migrations`. -/
  | selectVersions
  /-- A statement of a file. -/
  | statement (q : D.Statement)
  /-- `INSERT INTO schema_migrations (version, name) VALUES ($1, $2)`. -/
  | insertVersion (version name : String)

/-- What an executed statement returns. -/
abbrev MigrationStmt.Rows : MigrationStmt D → Type
  | selectVersions => List String
  | _ => Unit

inductive MigrationWrite (D : Dialect) where
  | createTable
  | change (c : D.Change)
  | record (version : String)

inductive MigrationError (D : Dialect) where
  | sql (e : D.Err)
  | undefinedTable
  | uniqueViolation
  | valueTooLong
  | protocol

/-- A write takes effect. -/
def MigrationStore.apply (s : MigrationStore D) : MigrationWrite D → MigrationStore D
  | .createTable => { s with versions := some s.recorded }
  | .change c => { s with schema := D.apply s.schema c }
  | .record version => { s with versions := s.versions.map (· ++ [version]) }

/-- A statement of a runner is executed.  `version` is a primary key of type `VARCHAR(255)`. -/
def MigrationStmt.exec : (q : MigrationStmt D) → MigrationStore D →
    Except (MigrationError D) (q.Rows × List (MigrationWrite D))
  | .createTable, _ => .ok ((), [.createTable])
  | .selectVersions, s =>
    match s.versions with
    | none => .error .undefinedTable
    | some versions => .ok (versions, [])
  | .statement q, s =>
    match D.exec q s.schema with
    | .error e => .error (.sql e)
    | .ok changes => .ok ((), changes.map .change)
  | .insertVersion version name, s =>
    match s.versions with
    | none => .error .undefinedTable
    | some versions =>
      if 255 < version.length ∨ 255 < name.length then .error .valueTooLong
      else if version ∈ versions then .error .uniqueViolation
      else .ok ((), [.record version])

/-- A new key of `schema_migrations` is locked until its transaction ends. -/
def MigrationStmt.locks : MigrationStmt D → List String
  | .insertVersion version _ => [version]
  | _ => []

/-- The database as an engine.  The statements of a file may be executed at any time: whatever they lock
only takes interleavings away. -/
abbrev migrationEngine (D : Dialect) : Engine where
  Store := MigrationStore D
  Stmt := MigrationStmt D
  Rows := MigrationStmt.Rows
  Write := MigrationWrite D
  Key := String
  Draws := Unit
  Err := MigrationError D
  Env := Unit
  exec := fun q _ _ s => q.exec s
  apply := MigrationStore.apply
  keys := fun q _ _ => q.locks
  misses := fun _ _ => false
  protocolError := .protocol
  draw := fun _ _ _ _ => True
  pass := fun _ _ => True

/-- What a runner does. -/
abbrev MigrationProg (D : Dialect) (α : Type) := Prog (migrationEngine D) α

/-- A statement is run. -/
abbrev runStmt (q : MigrationStmt D) : MigrationProg D q.Rows := Prog.query (E := migrationEngine D) q

/-! ## The files -/

/-- A file of the directory. -/
structure MigrationFile (D : Dialect) where
  name : String
  sql : List D.Statement

/-- `f.endsWith('.sql')`. -/
def MigrationFile.isSql (f : MigrationFile D) : Bool := ".sql".toList.isSuffixOf f.name.toList

/-- `file.replace(/\.sql$/, '')`, of a file whose name ends so. -/
def MigrationFile.version (f : MigrationFile D) : String :=
  String.ofList (f.name.toList.take (f.name.toList.length - 4))

/-- The UTF-16 code units of a character. -/
def codeUnits (c : Char) : List ℕ :=
  if c.toNat ≤ 0xffff then [c.toNat]
  else [0xd800 + (c.toNat - 0x10000) / 0x400, 0xdc00 + (c.toNat - 0x10000) % 0x400]

/-- The order of `sort` without a comparison function. -/
def MigrationFile.Before (f g : MigrationFile D) : Prop :=
  f.name.toList.flatMap codeUnits ≤ g.name.toList.flatMap codeUnits

instance : DecidableRel (MigrationFile.Before (D := D)) := fun f g =>
  inferInstanceAs (Decidable (f.name.toList.flatMap codeUnits ≤ g.name.toList.flatMap codeUnits))

/-- A directory: its files have different names. -/
structure Directory (D : Dialect) where
  entries : List (MigrationFile D)
  nodup : (entries.map MigrationFile.name).Nodup

/-- The migrations of the directory, in order. -/
def Directory.migrations (dir : Directory D) : List (MigrationFile D) :=
  (dir.entries.filter MigrationFile.isSql).insertionSort MigrationFile.Before

/-! ## The runner -/

/-- A statement outside a transaction. -/
def autocommit (q : MigrationStmt D) : MigrationProg D q.Rows := do
  Prog.request (E := migrationEngine D) .begin
  let rows ← runStmt q
  Prog.request (E := migrationEngine D) .commit
  pure rows

/-- `client.query(sql)`: the statements of the file, one after the other. -/
def runStatements : List D.Statement → MigrationProg D Unit
  | [] => pure ()
  | q :: sql => do
    runStmt (.statement q)
    runStatements sql

/-- The transaction of one file. -/
def migrate (f : MigrationFile D) : MigrationProg D Unit := do
  Prog.request (E := migrationEngine D) .begin
  match ← Prog.attempt (do
    runStatements f.sql
    runStmt (.insertVersion f.version f.name)
    Prog.request (E := migrationEngine D) .commit) with
  | .ok () => pure ()
  | .error err =>
    Prog.request (E := migrationEngine D) .rollback
    .fail err

/-- The loop over the files. -/
def migrateAll (appliedSet : List String) : List (MigrationFile D) → MigrationProg D Unit
  | [] => pure ()
  | f :: files =>
    if f.version ∈ appliedSet then migrateAll appliedSet files
    else do
      migrate f
      migrateAll appliedSet files

/-- **`runMigrations`**. -/
def runMigrations (dir : Directory D) : MigrationProg D Unit := do
  autocommit .createTable
  let applied ← autocommit .selectVersions
  migrateAll applied dir.migrations

/-! ## What a runner has committed -/

/-- What a transaction has executed. -/
abbrev MigrationLog (D : Dialect) := List (Entry (migrationEngine D))

/-- The statements of the transaction of a file. -/
def MigrationFile.plan (f : MigrationFile D) : List (MigrationStmt D) :=
  f.sql.map .statement ++ [.insertVersion f.version f.name]

/-- The migrations whose version is not among the applied ones, in order. -/
def Directory.pending (dir : Directory D) (applied : List String) : List (MigrationFile D) :=
  dir.migrations.filter fun f => f.version ∉ applied

/-- The log executes the statements. -/
def Executes (log : MigrationLog D) (plan : List (MigrationStmt D)) : Prop := log.map Entry.stmt = plan

/-- The log reads the applied versions. -/
def Reads (log : MigrationLog D) (applied : List String) : Prop :=
  ∃ d w, log = [⟨.selectVersions, d, applied, w⟩]

/-- **The commits of a runner that has migrated `past`**: the table, the applied versions, and one
transaction for each file. -/
structure Committed (commits : List (MigrationLog D)) (applied : List String)
    (past : List (MigrationFile D)) : Prop where
  eq : ∃ created read migrated, commits = created :: read :: migrated ∧
    Executes created [.createTable] ∧ Reads read applied ∧
    List.Forall₂ (fun log f => Executes log f.plan) migrated past

/-- **What a runner has committed, and what its next transaction executes.** -/
inductive Progress (dir : Directory D) : List (MigrationLog D) → List (MigrationStmt D) → Prop where
  | createTable : Progress dir [] [.createTable]
  | selectVersions {created : MigrationLog D} (h : Executes created [.createTable]) :
      Progress dir [created] [.selectVersions]
  | file {commits : List (MigrationLog D)} {applied : List String} {past future : List (MigrationFile D)}
      {f : MigrationFile D} (h : Committed commits applied past)
      (hsplit : dir.pending applied = past ++ f :: future) : Progress dir commits f.plan

/-- The runner has migrated all pending files. -/
def Completed (dir : Directory D) (commits : List (MigrationLog D)) : Prop :=
  ∃ applied, Committed commits applied (dir.pending applied)

/-- The runner has finished, or is on its way. -/
def Advanced (dir : Directory D) (commits : List (MigrationLog D)) : Prop :=
  Completed dir commits ∨ ∃ plan, Progress dir commits plan

/-- What holds at every request of a runner: its transaction executes what comes next, and is committed
when it has. -/
def Proceeds (dir : Directory D) : Assertion (migrationEngine D) := fun r c =>
  match r with
  | .begin => c.tx = none ∧ ∃ plan, Progress dir c.commits plan
  | .run q => ∃ plan, Progress dir c.commits plan ∧
    ∀ t, c.tx = some t → t.aborted = false → t.log.map Entry.stmt ++ [q] <+: plan
  | .commit => ∃ plan, Progress dir c.commits plan ∧
    ∀ t, c.tx = some t → t.aborted = false → Executes t.log plan
  | .rollback => Advanced dir c.commits
  | _ => False

/-- A runner that returns has finished; one that throws stops where it is. -/
def Stops (dir : Directory D) : Post (migrationEngine D) Unit
  | .ok (), c => Completed dir c.commits
  | .error _, c => Advanced dir c.commits

/-- Between two files. -/
theorem Committed.advanced {dir : Directory D} {commits : List (MigrationLog D)} {applied : List String}
    {past future : List (MigrationFile D)} (h : Committed commits applied past)
    (hsplit : dir.pending applied = past ++ future) : Advanced dir commits := by
  cases future with
  | nil =>
    rw [List.append_nil] at hsplit
    exact .inl ⟨applied, hsplit ▸ h⟩
  | cons f future => exact .inr ⟨f.plan, .file h hsplit⟩

/-- One more file has been migrated. -/
theorem Committed.push {commits : List (MigrationLog D)} {applied : List String}
    {past : List (MigrationFile D)} (h : Committed commits applied past) {f : MigrationFile D}
    {log : MigrationLog D} (hlog : Executes log f.plan) :
    Committed (commits ++ [log]) applied (past ++ [f]) := by
  obtain ⟨created, read, migrated, rfl, hcreated, hread, hmigrated⟩ := h
  exact ⟨created, read, migrated ++ [log], by simp, hcreated, hread,
    List.rel_append hmigrated (.cons hlog .nil)⟩

section Rules

variable {dir : Directory D} {commits : List (MigrationLog D)}
  {rejected : List (Request (migrationEngine D))}

/-- A statement outside a transaction commits a transaction of its own. -/
theorem wp_autocommit {q : MigrationStmt D} {Q : Post (migrationEngine D) q.Rows}
    (hprogress : Progress dir commits [q])
    (hok : ∀ d rows w, Q (.ok rows) ⟨none, commits ++ [[⟨q, d, rows, w⟩]], rejected⟩)
    (hlost : ∀ e tx d rows w rejected', Q (.error e) ⟨tx, commits ++ [[⟨q, d, rows, w⟩]], rejected'⟩)
    (herr : ∀ e tx rejected', Q (.error e) ⟨tx, commits, rejected'⟩) :
    (autocommit q).wp Rely.any (Proceeds dir) Q ⟨none, commits, rejected⟩ := by
  refine Prog.wp_bind _ _ _ (Prog.wp_begin ⟨rfl, [q], hprogress⟩ (fun d => ?_) fun e => herr _ _ _)
  refine Prog.wp_bind _ _ _ (Prog.wp_query ⟨[q], hprogress, ?_⟩ (fun db d' skip rows w _ _ => ?_)
    fun e tx _ => herr _ _ _)
  · rintro t ht -
    obtain rfl := Option.some.inj ht
    exact List.prefix_refl _
  · refine Prog.wp_bind _ _ _ (Prog.wp_commit ⟨[q], hprogress, ?_⟩ ?_ (fun e => ?_) fun e => ?_)
    · rintro t ht -
      obtain rfl := Option.some.inj ht
      rfl
    · exact hok _ _ _
    · exact hlost _ _ _ _ _ _
    · exact herr _ _ _

/-- The statements of a file are executed in order. -/
theorem wp_runStatements {plan : List (MigrationStmt D)} {b : Unit} {Q : Post (migrationEngine D) Unit}
    (hprogress : Progress dir commits plan) (sql : List D.Statement) (log : MigrationLog D)
    (hplan : log.map Entry.stmt ++ sql.map .statement <+: plan)
    (hok : ∀ log' : MigrationLog D, log'.map Entry.stmt = log.map Entry.stmt ++ sql.map .statement →
      Q (.ok ()) ⟨some ⟨b, log', none, false⟩, commits, rejected⟩)
    (herr : ∀ e tx rejected', Q (.error e) ⟨tx, commits, rejected'⟩) :
    (runStatements sql).wp Rely.any (Proceeds dir) Q ⟨some ⟨b, log, none, false⟩, commits, rejected⟩ := by
  induction sql generalizing log with
  | nil => exact hok log (by simp)
  | cons q sql ih =>
    refine Prog.wp_bind _ _ _ (Prog.wp_query ⟨plan, hprogress, ?_⟩ (fun db d skip rows w _ _ => ?_)
      fun e tx _ => herr _ _ _)
    · rintro t ht -
      obtain rfl := Option.some.inj ht
      refine List.IsPrefix.trans ?_ hplan
      simp
    · refine ih _ ?_ fun log' hlog' => hok log' ?_
      · simpa using hplan
      · simpa using hlog'

/-- `ROLLBACK`, whether it is answered or not, commits nothing. -/
theorem wp_rollback {Q : Post (migrationEngine D) Unit} {tx : Option (Tx (migrationEngine D))}
    (hadvanced : Advanced dir commits) (hok : Q (.ok ()) ⟨none, commits, rejected⟩)
    (herr : ∀ e tx rejected', Q (.error e) ⟨tx, commits, rejected'⟩) :
    (Prog.request (E := migrationEngine D) .rollback).wp Rely.any (Proceeds dir) Q
      ⟨tx, commits, rejected⟩ := by
  refine Prog.wp_request hadvanced fun db d skip fate _ => ?_
  rcases fate with _ | e | ⟨e, _ | _⟩ | ⟨_ | _⟩
  · simpa [respond, serve, Conn.after] using hok
  all_goals simpa [respond, serve, Conn.after, afterError] using herr _ _ _

/-- The transaction of a file executes its plan and is committed, or fails; then it may have been
committed all the same. -/
theorem wp_migrate {applied : List String} {past future : List (MigrationFile D)} {f : MigrationFile D}
    {Q : Post (migrationEngine D) Unit} (h : Committed commits applied past)
    (hsplit : dir.pending applied = past ++ f :: future)
    (hok : ∀ log, Executes log f.plan → Q (.ok ()) ⟨none, commits ++ [log], rejected⟩)
    (herr : ∀ e c, Advanced dir c.commits → Q (.error e) c) :
    (migrate f).wp Rely.any (Proceeds dir) Q ⟨none, commits, rejected⟩ := by
  have hprogress : Progress dir commits f.plan := .file h hsplit
  have hadvanced : Advanced dir commits := h.advanced hsplit
  have hunwind : ∀ (e : MigrationError D) tx commits' rejected', Advanced dir commits' →
      (Prog.request (E := migrationEngine D) .rollback >>= fun _ => (.fail e : MigrationProg D Unit)).wp
        Rely.any (Proceeds dir) Q ⟨tx, commits', rejected'⟩ :=
    fun e tx commits' rejected' hadv =>
      Prog.wp_bind _ _ _ (wp_rollback hadv (herr _ _ hadv) fun _ _ _ => herr _ _ hadv)
  refine Prog.wp_bind _ _ _ (Prog.wp_begin ⟨rfl, f.plan, hprogress⟩ (fun d => ?_)
    fun e => herr _ _ hadvanced)
  refine Prog.wp_bind _ _ _ (Prog.wp_attempt _ _ (Prog.wp_bind _ _ _ ?_))
  refine wp_runStatements hprogress f.sql [] (List.prefix_append _ _) (fun log hlog => ?_)
    fun e tx rejected' => hunwind e tx _ _ hadvanced
  refine Prog.wp_bind _ _ _ (Prog.wp_query ⟨f.plan, hprogress, ?_⟩ (fun db d' skip rows w _ _ => ?_)
    fun e tx _ => hunwind e tx _ _ hadvanced)
  · rintro t ht -
    obtain rfl := Option.some.inj ht
    rw [hlog]
    exact List.prefix_refl _
  · have hexecutes : Executes (log ++ [⟨.insertVersion f.version f.name, d', rows, w⟩]) f.plan := by
      simp [Executes, MigrationFile.plan, hlog]
    have hcommitted : Advanced dir (commits ++ [log ++ [⟨.insertVersion f.version f.name, d', rows, w⟩]]) :=
      (h.push hexecutes).advanced (by rw [hsplit, List.append_assoc, List.singleton_append])
    refine Prog.wp_commit ⟨f.plan, hprogress, ?_⟩ (hok _ hexecutes)
      (fun e => hunwind e _ _ _ hcommitted) fun e => hunwind e _ _ _ hadvanced
    rintro t ht -
    obtain rfl := Option.some.inj ht
    exact hexecutes

/-- The loop over the files migrates the pending ones.

**Proof sketch.** Induction on the files that are left; the ones that have been migrated and the pending
ones of those that are left are all the pending ones. -/
theorem wp_migrateAll {applied : List String} (files : List (MigrationFile D)) :
    ∀ {commits : List (MigrationLog D)} {rejected : List (Request (migrationEngine D))}
      {past : List (MigrationFile D)}, Committed commits applied past →
      dir.pending applied = past ++ files.filter (fun f => f.version ∉ applied) →
      (migrateAll applied files).wp Rely.any (Proceeds dir) (Stops dir) ⟨none, commits, rejected⟩ := by
  induction files with
  | nil =>
    intro commits rejected past h hsplit
    rw [List.filter_nil, List.append_nil] at hsplit
    exact ⟨applied, hsplit ▸ h⟩
  | cons f files ih =>
    intro commits rejected past h hsplit
    by_cases hf : f.version ∈ applied
    · rw [migrateAll, if_pos hf]
      exact ih h (by simpa [hf] using hsplit)
    · rw [migrateAll, if_neg hf]
      rw [List.filter_cons_of_pos (by simpa using hf)] at hsplit
      refine Prog.wp_bind _ _ _ (wp_migrate h hsplit (fun log hlog => ?_) fun e c hadv => hadv)
      exact ih (h.push hlog) (by rw [hsplit, List.append_assoc, List.singleton_append])

end Rules

/-- **A runner commits the pending files in order.** -/
theorem wp_runMigrations (dir : Directory D) :
    (runMigrations dir).wp Rely.any (Proceeds dir) (Stops dir) Conn.fresh := by
  refine Prog.wp_bind _ _ _ (wp_autocommit .createTable (fun d rows w => ?_)
    (fun e tx d rows w _ => .inr ⟨_, .selectVersions rfl⟩) fun e tx _ => .inr ⟨_, .createTable⟩)
  have hcommitted : ∀ d' applied w', Committed
      ([[⟨.createTable, d, rows, w⟩], [⟨.selectVersions, d', applied, w'⟩]] : List (MigrationLog D))
      applied [] :=
    fun d' applied w' => ⟨_, _, [], rfl, rfl, ⟨d', w', rfl⟩, .nil⟩
  refine Prog.wp_bind _ _ _ (wp_autocommit (.selectVersions rfl) (fun d' applied w' => ?_)
    (fun e tx d' applied w' _ => (hcommitted d' applied w').advanced rfl)
    fun e tx _ => .inr ⟨_, .selectVersions rfl⟩)
  exact wp_migrateAll dir.migrations (hcommitted d' applied w') rfl

end PaymentWebhook
