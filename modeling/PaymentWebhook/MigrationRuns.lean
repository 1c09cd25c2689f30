import PaymentWebhook.MigrationLogs
import PaymentWebhook.Transactions.Interleaving

set_option relaxedAutoImplicit false
set_option autoImplicit false

/-!
# Runs of the migration runner

Any number of runners on one directory, one after the other or at the same time, each of which may fail or
die at any request.  A runner decides by the versions it has read at its beginning; another may have
applied some of its files since.  It then fails when it records the version of such a file, and what it has
executed of it is rolled back.

## Main definitions

* `PaymentWebhook.Migrated` — what has been migrated since the beginning.
* `PaymentWebhook.Opened` — what is known of an open transaction.
* `PaymentWebhook.Resumable` — the invariant of the runners.

## Main results

* `PaymentWebhook.Migrated.next` — a runner whose next file is not recorded is about to apply the first of
  the files that are still pending.
* `PaymentWebhook.resumable_reachable` — the invariant holds of all reachable worlds.
-/

namespace PaymentWebhook

open Transactions

variable {D : Dialect}

/-! ## The invariant of the runners -/

/-- Does the log record a version? -/
def Migrates (log : MigrationLog D) : Prop := versionsOf (log.map Entry.stmt) ≠ []

instance : DecidablePred (Migrates (D := D)) := fun log =>
  inferInstanceAs (Decidable (versionsOf (log.map Entry.stmt) ≠ []))

/-- **What has been migrated** since the beginning: the files `done`, which are the first of those that were
pending then.  Their versions are recorded, their SQL has been applied, and each has been committed once. -/
structure Migrated (dir : Directory D) (db₀ db : MigrationStore D) (logs : List (MigrationLog D))
    (done : List (MigrationFile D)) : Prop where
  pending : done <+: dir.pending db₀.recorded
  recorded : db.recorded = db₀.recorded ++ done.map MigrationFile.version
  schema : D.run (done.flatMap MigrationFile.sql) db₀.schema = .ok db.schema
  logs : List.Forall₂ (fun log f => Executes log f.plan) (logs.filter (fun log => Migrates log)) done
  short : ∀ f ∈ done, f.version.length ≤ 255 ∧ f.name.length ≤ 255

/-- The versions that were read are those of some time since the beginning. -/
def ReadsSince (initial : List String) (db : MigrationStore D) (log : MigrationLog D) : Prop :=
  ∀ d rows ws, (⟨.selectVersions, d, rows, ws⟩ : Entry (migrationEngine D)) ∈ log →
    initial ⊆ rows ∧ rows ⊆ db.recorded

/-- **An open transaction of a runner**: it executes what comes next.  The versions it records are not
recorded yet, and its SQL is applied to the committed schema; but if another runner has committed the
same file, it can only fail. -/
structure Opened (dir : Directory D) (initial : List String) (db : MigrationStore D)
    (commits : List (MigrationLog D)) (log : MigrationLog D) : Prop where
  written : Written log
  reads : ReadsSince initial db log
  fresh : ∀ v ∈ versionsOf (log.map Entry.stmt), v ∉ db.recorded
  runs : ∃ plan, Progress dir commits plan ∧ log.map Entry.stmt <+: plan ∧
    ((∃ v ∈ versionsOf plan, v ∈ db.recorded) ∨
      D.run (sqlOf (log.map Entry.stmt)) db.schema =
        .ok (MigrationStore.schema (install (E := migrationEngine D) db log)))

/-- **The invariant of the runners.** -/
structure Resumable {κ : Type} (dir : Directory D) (db₀ : MigrationStore D)
    (w : World (migrationEngine D) κ Unit) : Prop where
  migrated : ∃ done, Migrated dir db₀ w.db w.logs done
  table : w.journal ≠ [] → (MigrationStore.versions w.db).isSome
  written : ∀ log ∈ w.logs, Written log
  idle : ∀ log ∈ w.logs, ¬ Migrates log → sqlOf (log.map Entry.stmt) = []
  reads : ∀ log ∈ w.logs, ReadsSince db₀.recorded w.db log
  opened : ∀ i s t, w.sessions i = some s → s.conn.tx = some t → t.aborted = false →
    Opened dir db₀.recorded w.db s.conn.commits t.log

section Invariant

variable {dir : Directory D} {db₀ db : MigrationStore D} {commits logs : List (MigrationLog D)}
  {applied : List String} {done past future : List (MigrationFile D)} {plan : List (MigrationStmt D)}

/-- What comes next is one of the statements before the files, or a file. -/
theorem Progress.kinds (h : Progress dir commits plan) :
    (sqlOf plan = [] ∧ versionsOf plan = [] ∧ (plan = [.createTable] ∨ commits ≠ [])) ∨
    ∃ f applied past future, plan = f.plan ∧ Committed commits applied past ∧
      dir.pending applied = past ++ f :: future := by
  cases h with
  | createTable => exact .inl ⟨rfl, rfl, .inl rfl⟩
  | selectVersions h => exact .inl ⟨rfl, rfl, .inr (List.cons_ne_nil _ _)⟩
  | file h hsplit => exact .inr ⟨_, _, _, _, rfl, h, hsplit⟩

/-- What a runner has committed says what comes next. -/
theorem Progress.unique {plan' : List (MigrationStmt D)} (h : Progress dir commits plan)
    (h' : Progress dir commits plan') : plan = plan' := by
  cases h with
  | createTable =>
    cases h' with
    | createTable => rfl
    | file h' hsplit' =>
      obtain ⟨created, read, migrated, hnil, -⟩ := h'
      cases hnil
  | selectVersions h =>
    cases h' with
    | selectVersions h' => rfl
    | file h' hsplit' =>
      obtain ⟨created, read, migrated, hone, -⟩ := h'
      cases hone
  | @file _ applied past future f h hsplit =>
    obtain ⟨created, read, migrated, rfl, -, ⟨d, ws, rfl⟩, hmigrated⟩ := h
    generalize hcommits : created :: [⟨.selectVersions, d, applied, ws⟩] :: migrated = commits at h'
    cases h' with
    | createTable => cases hcommits
    | selectVersions h' => cases hcommits
    | @file _ applied' past' future' f' h' hsplit' =>
      obtain ⟨created', read', migrated', rfl, -, ⟨d', ws', rfl⟩, hmigrated'⟩ := h'
      obtain ⟨-, htail⟩ := List.cons.inj hcommits
      obtain ⟨hread, rfl⟩ := List.cons.inj htail
      obtain ⟨-, -, happlied, -⟩ := Entry.mk.inj (List.cons.inj hread).1
      obtain rfl := eq_of_heq happlied
      have hlength := hmigrated.length_eq.symm.trans hmigrated'.length_eq
      obtain ⟨-, hfuture⟩ := List.append_inj (hsplit.symm.trans hsplit') hlength
      rw [(List.cons.inj hfuture).1]

theorem Committed.ne_nil (h : Committed commits applied past) : commits ≠ [] := by
  obtain ⟨created, read, migrated, rfl, -⟩ := h
  exact List.cons_ne_nil _ _

/-- The plan of a file executes the SQL of that file and records its version. -/
theorem Migrated.push (h : Migrated dir db₀ db logs done) {f : MigrationFile D}
    {rest : List (MigrationFile D)} (hnext : dir.pending db₀.recorded = done ++ f :: rest)
    {db' : MigrationStore D} {log : MigrationLog D} (hlog : Executes log f.plan)
    (hrecorded : db'.recorded = db.recorded ++ [f.version]) (hrun : D.run f.sql db.schema = .ok db'.schema)
    (hshort : f.version.length ≤ 255 ∧ f.name.length ≤ 255) :
    Migrated dir db₀ db' (logs ++ [log]) (done ++ [f]) where
  pending := ⟨rest, by rw [hnext, List.append_assoc, List.singleton_append]⟩
  recorded := by rw [hrecorded, h.recorded, List.map_append, List.map_singleton, List.append_assoc]
  schema := by
    rw [List.flatMap_append, List.flatMap_singleton, Dialect.run_append h.schema, hrun]
  logs := by
    have hmigrates : Migrates log := by simp [Migrates, show log.map Entry.stmt = f.plan from hlog]
    rw [List.filter_append, List.filter_cons_of_pos (by simpa using hmigrates), List.filter_nil]
    exact List.rel_append h.logs (.cons hlog .nil)
  short := by
    intro g hg
    rcases List.mem_append.mp hg with hg | hg
    · exact h.short g hg
    · rwa [List.mem_singleton.mp hg]

/-- What does not concern the migrations. -/
theorem Migrated.skip (h : Migrated dir db₀ db logs done) {db' : MigrationStore D} {log : MigrationLog D}
    (hrecorded : db'.recorded = db.recorded) (hschema : db'.schema = db.schema)
    (hlog : versionsOf (log.map Entry.stmt) = []) : Migrated dir db₀ db' (logs ++ [log]) done where
  pending := h.pending
  recorded := hrecorded.trans h.recorded
  schema := by rw [hschema, h.schema]
  logs := by
    rw [List.filter_append, List.filter_cons_of_neg (by simp [Migrates, hlog]), List.filter_nil,
      List.append_nil]
    exact h.logs
  short := h.short

/-- A file that has been committed is done. -/
theorem Migrated.mem_done (h : Migrated dir db₀ db logs done) {f : MigrationFile D} {log : MigrationLog D}
    (hlog : log ∈ logs) (hexec : Executes log f.plan) (hf : f ∈ dir.migrations) : f ∈ done := by
  have hmigrates : Migrates log := by simp [Migrates, show log.map Entry.stmt = f.plan from hexec]
  have hmem : log ∈ logs.filter (fun log => Migrates log) :=
    List.mem_filter.mpr ⟨hlog, by simpa using hmigrates⟩
  obtain ⟨n, hn, rfl⟩ := List.mem_iff_getElem.mp hmem
  have hn' : n < done.length := h.logs.length_eq ▸ hn
  have hg : Executes _ (done[n].plan) := h.logs.get hn hn'
  have hversion : f.version = done[n].version := by
    have hplan : versionsOf f.plan = versionsOf done[n].plan := congrArg versionsOf (hexec.symm.trans hg)
    simpa using hplan
  exact dir.mem_of_version h.pending hf (List.mem_map.mpr ⟨done[n], List.getElem_mem hn', hversion.symm⟩)

/-- **The next file of a runner is the next one of all**, unless it is recorded. -/
theorem Migrated.next (h : Migrated dir db₀ db logs done)
    (hreads : ∀ log ∈ logs, ReadsSince db₀.recorded db log) (hlogs : commits ⊆ logs)
    (hcommitted : Committed commits applied past) {f : MigrationFile D}
    (hsplit : dir.pending applied = past ++ f :: future) (hf : f.version ∉ db.recorded) :
    ∃ rest, dir.pending db₀.recorded = done ++ f :: rest := by
  obtain ⟨created, read, migrated, rfl, -, ⟨d, ws, rfl⟩, hmigrated⟩ := hcommitted
  have hread : [⟨.selectVersions, d, applied, ws⟩] ∈ logs := hlogs (List.mem_cons_of_mem _ List.mem_cons_self)
  obtain ⟨hsub, happlied⟩ := hreads _ hread d applied ws List.mem_cons_self
  have hpast : past ⊆ done := by
    intro g hg
    obtain ⟨n, hn, rfl⟩ := List.mem_iff_getElem.mp hg
    have hn' : n < migrated.length := hmigrated.length_eq ▸ hn
    refine h.mem_done (hlogs (a := migrated[n]) ?_) (hmigrated.get hn' hn) ?_
    · exact List.mem_cons_of_mem _ (List.mem_cons_of_mem _ (List.getElem_mem hn'))
    · have hmem : past[n] ∈ dir.pending applied := by
        rw [hsplit]
        exact List.mem_append_left _ (List.getElem_mem hn)
      exact ((dir.mem_pending).mp hmem).1
  refine dir.next_pending h.pending hsplit hsub (h.recorded ▸ happlied) hpast fun hmem => hf ?_
  rw [h.recorded]
  exact List.mem_append_right _ (List.mem_map_of_mem hmem)

/-! ## What a request does -/

theorem ReadsSince.mono {log : MigrationLog D} {initial : List String} {db' : MigrationStore D}
    (h : ReadsSince initial db log) (hsub : db.recorded ⊆ db'.recorded) : ReadsSince initial db' log :=
  fun d rows ws hmem => ⟨(h d rows ws hmem).1, List.Subset.trans (h d rows ws hmem).2 hsub⟩

/-- A transaction that has just been opened. -/
theorem Opened.nil {initial : List String} (h : Progress dir commits plan) :
    Opened dir initial db commits [] where
  written := by simp [Written]
  reads := by simp [ReadsSince]
  fresh := by simp [versionsOf]
  runs := ⟨plan, h, List.nil_prefix, .inr rfl⟩

/-- One more statement.

**Proof sketch.** By cases on the statement.  `selectVersions` is the first of its transaction, so that it
reads what is committed; a version that is not in the transaction's view is not recorded either. -/
theorem Opened.push {initial : List String} {log : MigrationLog D} (h : Opened dir initial db commits log)
    (hprogress : Progress dir commits plan) {q : MigrationStmt D} (hplan : log.map Entry.stmt ++ [q] <+: plan)
    (hinitial : initial ⊆ db.recorded) (d : Unit) {rows : q.Rows} {ws : List (MigrationWrite D)}
    (hx : q.exec (install (E := migrationEngine D) db log) = .ok (rows, ws)) :
    Opened dir initial db commits (log ++ [⟨q, d, rows, ws⟩]) := by
  obtain ⟨plan', hprogress', -, hruns⟩ := h.runs
  obtain rfl := hprogress.unique hprogress'
  have hwrites : q.Writes ws := q.exec_writes hx
  have hview : db.recorded ⊆ MigrationStore.recorded (install (E := migrationEngine D) db log) :=
    MigrationStore.recorded_subset h.written
  have hstmts : (log ++ [(⟨q, d, rows, ws⟩ : Entry (migrationEngine D))]).map Entry.stmt =
      log.map Entry.stmt ++ [q] := by simp
  refine ⟨fun e he => ?_, fun d' rows' ws' hmem => ?_, fun v hv => ?_, plan, hprogress, by rwa [hstmts],
    hruns.imp_right fun hrun => ?_⟩
  · rcases List.mem_append.mp he with he | he
    · exact h.written e he
    · rw [List.mem_singleton.mp he]
      exact hwrites
  · rcases List.mem_append.mp hmem with hmem | hmem
    · exact h.reads d' rows' ws' hmem
    · obtain ⟨rfl, -, hrows, -⟩ := Entry.mk.inj (List.mem_singleton.mp hmem)
      obtain rfl := eq_of_heq hrows
      have hnone : versionsOf (log.map Entry.stmt) = [] := by
        rcases hprogress.kinds with ⟨-, hversions, -⟩ | ⟨f, _, _, _, rfl, -⟩
        · have hinit := ((List.prefix_append _ _).trans hplan).filterMap MigrationStmt.version?
          exact List.prefix_nil.mp (hversions ▸ hinit)
        · exact absurd (hplan.subset (List.mem_append_right _ (List.mem_singleton_self _)))
            (by simp [MigrationFile.plan])
      have hrecorded := MigrationStore.recorded_install (s := db) h.written (.inr hnone)
      rw [hnone, List.append_nil] at hrecorded
      rw [MigrationStmt.exec] at hx
      split at hx
      · cases hx
      · rename_i versions hversions
        obtain ⟨rfl, -⟩ := Prod.mk.inj (Except.ok.inj hx)
        rw [MigrationStore.recorded, hversions, Option.getD_some] at hrecorded
        rw [hrecorded]
        exact ⟨hinitial, List.Subset.refl _⟩
  · rw [hstmts, versionsOf_append] at hv
    rcases List.mem_append.mp hv with hv | hv
    · exact h.fresh v hv
    · cases q with
      | insertVersion version name =>
        obtain rfl : v = version := by simpa [versionsOf, MigrationStmt.version?] using hv
        rw [MigrationStmt.exec] at hx
        split at hx
        · cases hx
        · rename_i versions hversions
          split_ifs at hx with hshort hmem
          refine fun hrecorded => hmem ?_
          simpa [MigrationStore.recorded, hversions] using hview hrecorded
      | createTable => simp [versionsOf, MigrationStmt.version?] at hv
      | selectVersions => simp [versionsOf, MigrationStmt.version?] at hv
      | statement q => simp [versionsOf, MigrationStmt.version?] at hv
  · rw [hstmts, sqlOf_append, Dialect.run_append hrun, install_append]
    cases q with
    | createTable =>
      obtain rfl : ws = _ := hwrites
      rfl
    | selectVersions =>
      obtain rfl : ws = _ := hwrites
      rfl
    | insertVersion version name =>
      obtain ⟨rfl, -⟩ := hwrites
      rfl
    | statement q =>
      rw [MigrationStmt.exec] at hx
      split at hx
      · cases hx
      · rename_i changes hchanges
        obtain ⟨-, rfl⟩ := Prod.mk.inj (Except.ok.inj hx)
        rw [install_cons, install_nil, MigrationStore.foldl_change]
        simp [sqlOf, MigrationStmt.sql?, Dialect.run, hchanges]

/-- **What a request of a runner does**: it opens a transaction, executes the next statement, or leaves
nothing that could be committed; or it commits a transaction that has executed what comes next. -/
theorem Proceeds.respond {r : Request (migrationEngine D)} {c : Conn (migrationEngine D)}
    (h : Proceeds dir r c) (db : MigrationStore D) (d : Unit) (skip : String → Bool)
    (fate : Fate (migrationEngine D)) :
    ((Transactions.respond db c.tx d skip fate r).store = db ∧
      (Transactions.respond db c.tx d skip fate r).commits = [] ∧
      ∀ t, (Transactions.respond db c.tx d skip fate r).tx = some t → t.aborted = false →
        (∃ plan, Progress dir c.commits plan ∧ t.log = []) ∨
        ∃ plan t₀ q rows ws, Progress dir c.commits plan ∧ c.tx = some t₀ ∧ t₀.aborted = false ∧
          t₀.log.map Entry.stmt ++ [q] <+: plan ∧
          q.exec (install (E := migrationEngine D) db t₀.log) = .ok (rows, ws) ∧
          t.log = t₀.log ++ [⟨q, d, rows, ws⟩]) ∨
    ∃ plan t₀, Progress dir c.commits plan ∧ c.tx = some t₀ ∧ t₀.aborted = false ∧
      Executes t₀.log plan ∧
      (Transactions.respond db c.tx d skip fate r).store = install (E := migrationEngine D) db t₀.log ∧
      (Transactions.respond db c.tx d skip fate r).commits = [t₀.log] ∧
      (Transactions.respond db c.tx d skip fate r).tx = none := by
  rcases respond_store db c.tx d skip fate r with ⟨hstore, hcommits⟩ | ⟨rfl, t, ht, hab, hrest⟩
  · refine .inl ⟨hstore, hcommits, fun t ht hab => ?_⟩
    rcases fate with _ | e | ⟨e, _ | _⟩ | ⟨_ | _⟩
    · cases r with
      | begin =>
        obtain ⟨hnone, plan, hprogress⟩ := h
        rw [hnone] at ht
        obtain rfl := Option.some.inj ht
        exact .inl ⟨plan, hprogress, rfl⟩
      | run q =>
        obtain ⟨plan, hprogress, hplan⟩ := h
        right
        rcases hc : c.tx with _ | ⟨b, log, saved, _ | _⟩
        · rw [hc] at ht
          cases ht
        · rw [hc] at ht
          simp only [Transactions.respond, serve] at ht
          split at ht
          · rename_i rows ws hx
            obtain rfl := Option.some.inj ht
            exact ⟨plan, _, q, rows, ws, hprogress, rfl, rfl, hplan _ hc rfl, hx, rfl⟩
          · obtain rfl := Option.some.inj ht
            cases hab
        · rw [hc] at ht
          obtain rfl := Option.some.inj ht
          cases hab
      | commit =>
        rcases hc : c.tx with _ | ⟨b, log, saved, _ | _⟩ <;> (rw [hc] at ht; cases ht)
      | rollback => cases ht
      | savepoint => exact h.elim
      | rollbackTo => exact h.elim
      | release => exact h.elim
    · have habort : ∀ tx : Option (Tx (migrationEngine D)), tx.map Tx.abort = some t → False := by
        intro tx htx
        obtain ⟨t₀, -, rfl⟩ := Option.map_eq_some_iff.mp htx
        cases hab
      cases r with
      | commit => cases ht
      | _ => exact (habort _ ht).elim
    all_goals cases ht
  · obtain ⟨plan, hprogress, hplan⟩ := h
    exact .inr ⟨plan, t, hprogress, ht, hab, hplan t ht hab, hrest⟩

/-! ## Commits -/

/-- What a transaction does when it is committed. -/
theorem Opened.committed {initial : List String} {log : MigrationLog D}
    (h : Opened dir initial db commits log) (hprogress : Progress dir commits plan)
    (hlog : Executes log plan) (htable : commits ≠ [] → db.versions.isSome) {db' : MigrationStore D}
    (hdb' : db' = install (E := migrationEngine D) db log) :
    D.run (sqlOf plan) db.schema = .ok db'.schema ∧
      db'.recorded = db.recorded ++ versionsOf plan ∧ db'.versions.isSome := by
  subst hdb'
  obtain ⟨plan', hprogress', -, hruns⟩ := h.runs
  obtain rfl := hprogress.unique hprogress'
  have hfresh := h.fresh
  rw [show log.map Entry.stmt = plan from hlog] at hfresh hruns
  refine ⟨hruns.resolve_left fun ⟨v, hv, hrecorded⟩ => hfresh v hv hrecorded, ?_, ?_⟩
  · have hrecorded := MigrationStore.recorded_install (s := db) h.written
    rw [show log.map Entry.stmt = plan from hlog] at hrecorded
    refine hrecorded ?_
    rcases hprogress.kinds with ⟨-, hversions, -⟩ | ⟨f, _, _, _, -, hcommitted, -⟩
    · exact .inr hversions
    · exact .inl (htable hcommitted.ne_nil)
  · rcases hprogress.kinds with ⟨-, -, rfl | hne⟩ | ⟨f, _, _, _, -, hcommitted, -⟩
    · obtain ⟨e, he, hstmt⟩ := List.map_eq_singleton_iff.mp hlog
      obtain ⟨q, d, rows, ws⟩ := e
      obtain rfl : q = _ := hstmt
      obtain rfl : ws = _ := h.written ⟨_, d, rows, ws⟩ (by rw [he]; exact List.mem_cons_self)
      rw [he]
      rfl
    · exact MigrationStore.versions_install h.written (htable hne)
    · exact MigrationStore.versions_install h.written (htable hcommitted.ne_nil)

/-- **One more commit of a runner.** -/
theorem Migrated.commit (h : Migrated dir db₀ db logs done)
    (hreads : ∀ log ∈ logs, ReadsSince db₀.recorded db log) (hlogs : commits ⊆ logs)
    (htable : commits ≠ [] → db.versions.isSome) {log : MigrationLog D}
    (hopened : Opened dir db₀.recorded db commits log) (hprogress : Progress dir commits plan)
    (hlog : Executes log plan) {db' : MigrationStore D}
    (hdb' : db' = install (E := migrationEngine D) db log) :
    ∃ done', Migrated dir db₀ db' (logs ++ [log]) done' := by
  obtain ⟨hrun, hrecorded, -⟩ := hopened.committed hprogress hlog htable hdb'
  have hstmts : log.map Entry.stmt = plan := hlog
  rcases hprogress.kinds with ⟨hsql, hversions, -⟩ | ⟨f, applied, past, future, rfl, hcommitted, hsplit⟩
  · rw [hsql] at hrun
    rw [hversions, List.append_nil] at hrecorded
    exact ⟨done, h.skip hrecorded (Except.ok.inj hrun).symm (by rw [hstmts, hversions])⟩
  · rw [sqlOf_plan] at hrun
    rw [versionsOf_plan] at hrecorded
    have hfresh : f.version ∉ db.recorded := hopened.fresh _ (by simp [hstmts])
    obtain ⟨rest, hnext⟩ := h.next hreads hlogs hcommitted hsplit hfresh
    refine ⟨done ++ [f], h.push hnext hlog hrecorded hrun ?_⟩
    have hmem : .insertVersion f.version f.name ∈ log.map Entry.stmt := by
      rw [hstmts]
      simp [MigrationFile.plan]
    obtain ⟨⟨q, d, rows, ws⟩, he, hstmt⟩ := List.mem_map.mp hmem
    obtain rfl : q = _ := hstmt
    exact (hopened.written _ he).2

/-- **A commit of one runner, past the open transaction of another.**

**Proof sketch.** If the commit is that of a file, the version of the next file of the other runner is
recorded: it was before, or both were about to apply the same file. -/
theorem Opened.frame {log log' : MigrationLog D} {commits' : List (MigrationLog D)}
    (h : Migrated dir db₀ db logs done) (hreads : ∀ log ∈ logs, ReadsSince db₀.recorded db log)
    (hlogs : commits ⊆ logs) (hlogs' : commits' ⊆ logs)
    (htable : commits ≠ [] → db.versions.isSome)
    (hopened : Opened dir db₀.recorded db commits log) (hprogress : Progress dir commits plan)
    (hlog : Executes log plan) (hopened' : Opened dir db₀.recorded db commits' log')
    (hdisjoint : ∀ v ∈ versionsOf (log.map Entry.stmt), v ∉ versionsOf (log'.map Entry.stmt))
    {db' : MigrationStore D} (hdb' : db' = install (E := migrationEngine D) db log) :
    Opened dir db₀.recorded db' commits' log' := by
  obtain ⟨hrun, hrecorded, -⟩ := hopened.committed hprogress hlog htable hdb'
  have hsub : db.recorded ⊆ db'.recorded := hrecorded ▸ List.subset_append_left _ _
  rw [show log.map Entry.stmt = plan from hlog] at hdisjoint
  obtain ⟨plan', hprogress', hinit, hruns⟩ := hopened'.runs
  refine ⟨hopened'.written, hopened'.reads.mono hsub, fun v hv hmem => ?_, plan', hprogress', hinit, ?_⟩
  · rw [hrecorded] at hmem
    rcases List.mem_append.mp hmem with hmem | hmem
    · exact hopened'.fresh v hv hmem
    · exact hdisjoint v hmem hv
  · rcases hruns with ⟨v, hv, hmem⟩ | hruns
    · exact .inl ⟨v, hv, hsub hmem⟩
    · rcases hprogress'.kinds with ⟨hsql', -, -⟩ | ⟨g, _, _, _, rfl, hcommitted', hsplit'⟩
      · right
        have hnone : sqlOf (log'.map Entry.stmt) = [] :=
          List.prefix_nil.mp (hsql' ▸ hinit.filterMap MigrationStmt.sql?)
        rw [hnone, MigrationStore.schema_install hopened'.written hnone]
        rfl
      · rcases hprogress.kinds with ⟨hsql, -, -⟩ | ⟨f, _, _, _, rfl, hcommitted, hsplit⟩
        · right
          rw [hsql] at hrun
          have hschema : db'.schema = db.schema := (Except.ok.inj hrun).symm
          rw [hschema, hruns, MigrationStore.schema_install_congr hschema]
        · left
          rw [versionsOf_plan] at hrecorded
          refine ⟨g.version, by simp, ?_⟩
          by_cases hg : g.version ∈ db.recorded
          · exact hsub hg
          · have hf : f.version ∉ db.recorded :=
              hopened.fresh _ (by rw [show log.map Entry.stmt = f.plan from hlog]; simp)
            obtain ⟨rest, hnext⟩ := h.next hreads hlogs hcommitted hsplit hf
            obtain ⟨rest', hnext'⟩ := h.next hreads hlogs' hcommitted' hsplit' hg
            obtain ⟨rfl, -⟩ := List.cons.inj (List.append_cancel_left (hnext.symm.trans hnext'))
            rw [hrecorded]
            simp

end Invariant

section Runs

variable {κ : Type} {dir : Directory D} {db₀ : MigrationStore D} {w w' : World (migrationEngine D) κ Unit}

/-- At the beginning nothing has been migrated. -/
theorem Resumable.start : Resumable dir db₀ (World.start db₀ () : World (migrationEngine D) κ Unit) where
  migrated := ⟨[], List.nil_prefix, by simp [World.start], rfl, .nil, by simp⟩
  table := fun h => (h rfl).elim
  written := by simp [World.start, World.logs]
  idle := by simp [World.start, World.logs]
  reads := by simp [World.start, World.logs]
  opened := by simp [World.start]

/-- **Nothing has been committed.** -/
theorem Resumable.keep (h : Resumable dir db₀ w) {w' : World (migrationEngine D) κ Unit} (hdb : w'.db = w.db)
    (hjournal : w'.journal = w.journal)
    (hopened : ∀ j s t, w'.sessions j = some s → s.conn.tx = some t → t.aborted = false →
      Opened dir db₀.recorded w.db s.conn.commits t.log) : Resumable dir db₀ w' := by
  have hlogs : w'.logs = w.logs := by rw [World.logs, World.logs, hjournal]
  refine ⟨?_, ?_, ?_, ?_, ?_, ?_⟩
  · rw [hdb, hlogs]
    exact h.migrated
  · rw [hdb, hjournal]
    exact h.table
  · rw [hlogs]
    exact h.written
  · rw [hlogs]
    exact h.idle
  · rw [hdb, hlogs]
    exact h.reads
  · rw [hdb]
    exact hopened

/-- **One more transaction has been committed**, and those that the others have open record other versions. -/
theorem Resumable.commit (h : Resumable dir db₀ w) {w' : World (migrationEngine D) κ Unit}
    {commits : List (MigrationLog D)} {log : MigrationLog D} {plan : List (MigrationStmt D)}
    (hlogs : w'.logs = w.logs ++ [log]) (hdb : w'.db = install (E := migrationEngine D) w.db log)
    (hcommits : commits ⊆ w.logs) (hopened : Opened dir db₀.recorded w.db commits log)
    (hprogress : Progress dir commits plan) (hlog : Executes log plan)
    (hothers : ∀ j s t, w'.sessions j = some s → s.conn.tx = some t → t.aborted = false →
      s.conn.commits ⊆ w.logs ∧ Opened dir db₀.recorded w.db s.conn.commits t.log ∧
        ∀ v ∈ versionsOf (log.map Entry.stmt), v ∉ versionsOf (t.log.map Entry.stmt)) :
    Resumable dir db₀ w' := by
  obtain ⟨done, hdone⟩ := h.migrated
  have htable : commits ≠ [] → (MigrationStore.versions w.db).isSome := by
    intro hne
    obtain ⟨log', hlog'⟩ := List.exists_mem_of_ne_nil _ hne
    obtain ⟨c, hc, -⟩ := List.mem_map.mp (hcommits hlog')
    exact h.table (List.ne_nil_of_mem hc)
  obtain ⟨-, hrecorded, hsome⟩ := hopened.committed hprogress hlog htable hdb
  have hsub : MigrationStore.recorded w.db ⊆ MigrationStore.recorded w'.db :=
    hrecorded ▸ List.subset_append_left _ _
  refine ⟨?_, fun _ => hsome, ?_, ?_, ?_, fun j s t hs ht hab => ?_⟩
  · rw [hlogs]
    exact hdone.commit h.reads hcommits htable hopened hprogress hlog hdb
  · rw [hlogs]
    intro log' hmem
    rcases List.mem_append.mp hmem with hmem | hmem
    · exact h.written log' hmem
    · rw [List.mem_singleton.mp hmem]
      exact hopened.written
  · rw [hlogs]
    intro log' hmem hidle
    rcases List.mem_append.mp hmem with hmem | hmem
    · exact h.idle log' hmem hidle
    · have hstmts : log.map Entry.stmt = plan := hlog
      obtain rfl := List.mem_singleton.mp hmem
      rw [Migrates, hstmts] at hidle
      rw [hstmts]
      rcases hprogress.kinds with ⟨hsql, -⟩ | ⟨f, _, _, _, rfl, -⟩
      · exact hsql
      · exact (hidle (by simp)).elim
  · rw [hlogs]
    intro log' hmem
    rcases List.mem_append.mp hmem with hmem | hmem
    · exact (h.reads log' hmem).mono hsub
    · rw [List.mem_singleton.mp hmem]
      exact hopened.reads.mono hsub
  · obtain ⟨hcommits', hopened', hdisjoint⟩ := hothers j s t hs ht hab
    exact Opened.frame hdone h.reads hcommits hcommits' htable hopened hprogress hlog hopened' hdisjoint hdb

/-- A session that has nothing open is replaced. -/
theorem Resumable.setSession (h : Resumable dir db₀ w) (i : ℕ) (s : Session (migrationEngine D) κ Unit)
    (htx : s.conn.tx = none) : Resumable dir db₀ (w.setSession i s) := by
  refine h.keep rfl rfl fun j s' t hs' ht hab => ?_
  by_cases hj : j = i
  · subst hj
    rw [World.setSession_self, Option.some_inj] at hs'
    subst hs'
    rw [htx] at ht
    cases ht
  · rw [World.setSession_of_ne w s hj] at hs'
    exact h.opened j s' t hs' ht hab

/-- The versions a log records are locked. -/
theorem mem_locks {t : Tx (migrationEngine D)} {v : String} (h : v ∈ versionsOf (t.log.map Entry.stmt)) :
    v ∈ t.locks := by
  obtain ⟨q, hq, hv⟩ := List.mem_filterMap.mp h
  obtain ⟨e, he, rfl⟩ := List.mem_map.mp hq
  refine List.mem_flatMap.mpr ⟨e, he, ?_⟩
  obtain ⟨q, d, rows, ws⟩ := e
  cases q with
  | insertVersion version name => simpa [Entry.keys, MigrationStmt.locks, MigrationStmt.version?] using hv.symm
  | createTable => simp [MigrationStmt.version?] at hv
  | selectVersions => simp [MigrationStmt.version?] at hv
  | statement q => simp [MigrationStmt.version?] at hv

/-- **One request keeps the invariant.** -/
theorem Resumable.serve (h : Resumable dir db₀ w) (hd : Disciplined w) {i : ℕ}
    {s : Session (migrationEngine D) κ Unit} {r : Request (migrationEngine D)}
    (ok : r.Reply → MigrationProg D Unit) (failed : MigrationError D → MigrationProg D Unit) (d : Unit)
    (skip : String → Bool) (fate : Fate (migrationEngine D)) (hs : w.sessions i = some s)
    (hr : Proceeds dir r s.conn) :
    Resumable dir db₀ (w.serve i s ok failed (respond w.db s.conn.tx d skip fate r) ()) := by
  have hlogs : ∀ j s', w.sessions j = some s' → s'.conn.commits ⊆ w.logs := by
    intro j s' hs' log hlog
    rw [← hd.commits j s' hs'] at hlog
    obtain ⟨c, hc, rfl⟩ := List.mem_map.mp hlog
    exact List.mem_map_of_mem (List.mem_of_mem_filter hc)
  have hinitial : db₀.recorded ⊆ MigrationStore.recorded w.db := by
    obtain ⟨done, hdone⟩ := h.migrated
    rw [hdone.recorded]
    exact List.subset_append_left _ _
  have hserved := hr.respond w.db d skip fate
  set served := respond w.db s.conn.tx d skip fate r with hserved_def
  have hself : ∀ s', (w.serve i s ok failed served ()).sessions i = some s' →
      s'.conn.tx = served.tx ∧ s'.conn.commits = s.conn.commits ++ served.commits := by
    intro s' hs'
    simp only [World.serve, Function.update_self, Option.some_inj] at hs'
    subst hs'
    exact ⟨rfl, rfl⟩
  have hother : ∀ j s', j ≠ i → (w.serve i s ok failed served ()).sessions j = some s' →
      w.sessions j = some s' := by
    intro j s' hj hs'
    simpa [World.serve, hj] using hs'
  rcases hserved with ⟨hstore, hcommits, htx⟩ |
    ⟨plan, t₀, hprogress, ht₀, hab₀, hlog, hstore, hcommits, hnone⟩
  · refine h.keep hstore (by simp [World.serve, hcommits]) fun j s' t hs' ht hab => ?_
    by_cases hj : j = i
    · subst hj
      obtain ⟨htx', hcommits'⟩ := hself s' hs'
      rw [hcommits, List.append_nil] at hcommits'
      rw [htx'] at ht
      rw [hcommits']
      rcases htx t ht hab with ⟨plan, hprogress, hnil⟩ |
        ⟨plan, t₀, q, rows, ws, hprogress, ht₀, hab₀, hplan, hx, hlog⟩
      · rw [hnil]
        exact .nil hprogress
      · rw [hlog]
        exact (h.opened j s t₀ hs ht₀ hab₀).push hprogress hplan hinitial d hx
    · exact h.opened j s' t (hother j s' hj hs') ht hab
  · have hnew : (w.serve i s ok failed served ()).logs = w.logs ++ [t₀.log] := by
      simp [World.logs, World.serve, hcommits]
    refine h.commit hnew hstore (hlogs i s hs) (h.opened i s t₀ hs ht₀ hab₀) hprogress hlog
      fun j s' t hs' ht hab => ?_
    by_cases hj : j = i
    · subst hj
      rw [(hself s' hs').1, hnone] at ht
      cases ht
    · have hs'' := hother j s' hj hs'
      refine ⟨hlogs j s' hs'', h.opened j s' t hs'' ht hab, fun v hv hv' => ?_⟩
      exact hd.locks i j v (Ne.symm hj) ⟨s, t₀, hs, ht₀, mem_locks hv⟩ ⟨s', t, hs'', ht, mem_locks hv'⟩

/-- **The invariant holds of all reachable worlds.** -/
theorem resumable_reachable
    (h : Reachable (fun _ : κ => runMigrations dir) (World.start db₀ ()) w) : Resumable dir db₀ w := by
  induction h with
  | refl => exact .start
  | @step w w' hrun hstep ih =>
    cases hstep with
    | call i c hfree => exact ih.setSession i _ rfl
    | serve i s r ok failed d skip fate env hs hp hdraw hskip hgrant =>
      have hwp := hrun.wp (A := fun _ => Proceeds dir) (Q := fun _ => Stops dir)
        (fun _ => wp_runMigrations dir) (fun _ x _ hx => by cases x <;> exact hx) i s hs
      rw [hp] at hwp
      exact ih.serve hrun.disciplined ok failed d skip fate hs hwp.1
    | hangUp i s hs hend => exact ih.setSession i _ rfl
    | pass env henv => exact ih

end Runs

end PaymentWebhook
