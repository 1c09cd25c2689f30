import PaymentWebhook.MigrationRuns
import PaymentWebhook.Transactions.Alone

set_option relaxedAutoImplicit false
set_option autoImplicit false

/-!
# Interrupted migrations are resumed

A runner on its own applies what is pending, and this is what any number of interrupted runners have done
when one of them completes.

## Main definitions

* `PaymentWebhook.uninterrupted` — a request that is answered.

## Main results

* `PaymentWebhook.runMigrations_goes` — a runner on its own.
* `PaymentWebhook.migrations_resumable` — a version is recorded when its SQL has been applied, once, and a
  runner that completes leaves what a single one would have.
-/

namespace PaymentWebhook

open Transactions

variable {D : Dialect}

/-! ## A runner on its own -/

/-- A request that is answered while nobody else holds a lock. -/
def uninterrupted (D : Dialect) : Move (migrationEngine D) := ⟨(), fun _ => false, .answered⟩

/-- A run of uninterrupted requests. -/
def Uninterrupted (ms : Trace (migrationEngine D)) : Prop := ∀ y ∈ ms, y.2 = uninterrupted D

section Alone

variable {dir : Directory D} {db : MigrationStore D} {commits : List (MigrationLog D)}
  {rejected : List (Request (migrationEngine D))}

theorem Uninterrupted.cons {ms : Trace (migrationEngine D)} (h : Uninterrupted ms) (begun : Option Unit) :
    Uninterrupted ((begun, uninterrupted D) :: ms) := by
  intro y hy
  rcases List.mem_cons.mp hy with rfl | hy
  · rfl
  · exact h y hy

theorem Uninterrupted.append {ms ms' : Trace (migrationEngine D)} (h : Uninterrupted ms)
    (h' : Uninterrupted ms') : Uninterrupted (ms ++ ms') := by
  intro y hy
  rcases List.mem_append.mp hy with hy | hy
  · exact h y hy
  · exact h' y hy

/-- A statement outside a transaction. -/
theorem autocommit_goes {q : MigrationStmt D} {rows : q.Rows} {ws : List (MigrationWrite D)}
    (hx : q.exec db = .ok (rows, ws)) :
    (autocommit q).Goes [(none, uninterrupted D), (some (), uninterrupted D), (some (), uninterrupted D)]
      db ⟨none, commits, rejected⟩ (.done rows) (ws.foldl MigrationStore.apply db)
      ⟨none, commits ++ [[⟨q, (), rows, ws⟩]], rejected⟩ :=
  .begin (.query hx (.commit (.refl _ _ _)))

/-- The statements of a file. -/
theorem runStatements_goes {sql : List D.Statement} {schema : D.Schema} (db : MigrationStore D)
    (log : MigrationLog D) (commits : List (MigrationLog D))
    (rejected : List (Request (migrationEngine D)))
    (hrun : D.run sql (MigrationStore.schema (install (E := migrationEngine D) db log)) = .ok schema) :
    ∃ ms log', Uninterrupted ms ∧
      (runStatements sql).Goes ms db ⟨some ⟨(), log, none, false⟩, commits, rejected⟩ (.done ()) db
        ⟨some ⟨(), log', none, false⟩, commits, rejected⟩ ∧
      install (E := migrationEngine D) db log' =
        ⟨schema, MigrationStore.versions (install (E := migrationEngine D) db log)⟩ := by
  induction sql generalizing log with
  | nil =>
    obtain rfl := Except.ok.inj hrun
    exact ⟨[], log, by simp [Uninterrupted], .refl _ _ _, rfl⟩
  | cons q sql ih =>
    rw [Dialect.run] at hrun
    split at hrun
    · cases hrun
    · rename_i changes hchanges
      have hx : (MigrationStmt.statement q).exec (install (E := migrationEngine D) db log) =
          .ok ((), changes.map .change) := by
        rw [MigrationStmt.exec, hchanges]
      have hview : install (E := migrationEngine D) db (log ++ [⟨.statement q, (), (), changes.map .change⟩]) =
          { (install (E := migrationEngine D) db log : MigrationStore D) with
            schema := changes.foldl D.apply
              (MigrationStore.schema (install (E := migrationEngine D) db log)) } := by
        rw [install_append]
        exact MigrationStore.foldl_change changes _
      obtain ⟨ms, log', hms, hgoes, hinstall⟩ :=
        ih (log ++ [⟨.statement q, (), (), changes.map .change⟩]) (by rw [hview]; exact hrun)
      exact ⟨_, log', hms.cons (some ()), .query hx hgoes, by rw [hinstall, hview]⟩

/-- The transaction of a file. -/
theorem migrate_goes (commits : List (MigrationLog D)) (rejected : List (Request (migrationEngine D)))
    {f : MigrationFile D} {schema : D.Schema} {versions : List String}
    (hversions : db.versions = some versions) (hrun : D.run f.sql db.schema = .ok schema)
    (hshort : f.version.length ≤ 255 ∧ f.name.length ≤ 255) (hnew : f.version ∉ versions) :
    ∃ ms commits', Uninterrupted ms ∧
      (migrate f).Goes ms db ⟨none, commits, rejected⟩ (.done ()) ⟨schema, some (versions ++ [f.version])⟩
        ⟨none, commits', rejected⟩ := by
  obtain ⟨ms, log, hms, hgoes, hinstall⟩ := runStatements_goes db [] commits rejected hrun
  rw [install_nil, hversions] at hinstall
  have hx : (MigrationStmt.insertVersion f.version f.name).exec
      (install (E := migrationEngine D) db log) = .ok ((), [.record f.version]) := by
    rw [hinstall, MigrationStmt.exec]
    simp [hnew, Nat.not_lt.mpr hshort.1, Nat.not_lt.mpr hshort.2]
  have hstore : install (E := migrationEngine D) db
      (log ++ [⟨.insertVersion f.version f.name, (), (), [.record f.version]⟩]) =
        ⟨schema, some (versions ++ [f.version])⟩ := by
    rw [install_append, hinstall]
    rfl
  have hbody : (runStatements f.sql >>= fun _ => runStmt (.insertVersion f.version f.name) >>= fun _ =>
      Prog.request (E := migrationEngine D) .commit).Goes
      (ms ++ [(some (), uninterrupted D), (some (), uninterrupted D)]) db
      ⟨some (Tx.opened ()), commits, rejected⟩ (.done ()) ⟨schema, some (versions ++ [f.version])⟩
      ⟨none, commits ++ [log ++ [⟨.insertVersion f.version f.name, (), (), [.record f.version]⟩]],
        rejected⟩ := by
    refine .bind hgoes (.query hx ?_)
    show (Prog.request (E := migrationEngine D) .commit >>= Prog.done).Goes _ _ _ _ _ _
    refine .commit ?_
    rw [hstore]
    exact .refl _ _ _
  have hmoves : Uninterrupted (ms ++ [(some (), uninterrupted D), (some (), uninterrupted D)] ++ []) := by
    refine (hms.append ?_).append ?_ <;> simp [Uninterrupted]
  exact ⟨(none, uninterrupted D) :: (ms ++ [(some (), uninterrupted D), (some (), uninterrupted D)] ++ []), _,
    hmoves.cons none, .begin (.bind (.attempt hbody) (.refl _ _ _))⟩

/-- The loop over the files. -/
theorem migrateAll_goes {applied : List String} (rejected : List (Request (migrationEngine D)))
    (files : List (MigrationFile D)) :
    ∀ {db : MigrationStore D} {commits : List (MigrationLog D)} {versions : List String}
      {schema : D.Schema} {pending : List (MigrationFile D)},
      files.filter (fun f => f.version ∉ applied) = pending → db.versions = some versions →
      D.run (pending.flatMap MigrationFile.sql) db.schema = .ok schema →
      (∀ f ∈ pending, f.version.length ≤ 255 ∧ f.name.length ≤ 255) →
      (pending.map MigrationFile.version).Nodup → (∀ f ∈ pending, f.version ∉ versions) →
      ∃ ms commits', Uninterrupted ms ∧
        (migrateAll applied files).Goes ms db ⟨none, commits, rejected⟩ (.done ())
          ⟨schema, some (versions ++ pending.map MigrationFile.version)⟩ ⟨none, commits', rejected⟩ := by
  induction files with
  | nil =>
    rintro ⟨schema₀, versions₀⟩ commits versions schema _ rfl rfl hrun - - -
    obtain rfl := Except.ok.inj hrun
    exact ⟨[], commits, by simp [Uninterrupted], by simpa using .refl _ _ _⟩
  | cons f files ih =>
    rintro db commits versions schema pending hpending hversions hrun hshort hnodup hnew
    by_cases hf : f.version ∈ applied
    · rw [migrateAll, if_pos hf]
      exact ih (by simpa [hf] using hpending) hversions hrun hshort hnodup hnew
    · rw [List.filter_cons_of_pos (by simpa using hf)] at hpending
      subst hpending
      rw [List.flatMap_cons] at hrun
      rw [List.map_cons, List.nodup_cons] at hnodup
      obtain ⟨middle, hfirst, hrest⟩ := Dialect.run_append_ok hrun
      obtain ⟨ms, commits₁, hms, hgoes⟩ := migrate_goes commits rejected
        hversions hfirst (hshort f List.mem_cons_self) (hnew f List.mem_cons_self)
      have hnew' : ∀ g ∈ files.filter (fun f => f.version ∉ applied), g.version ∉ versions ++ [f.version] := by
        intro g hg hmem
        rcases List.mem_append.mp hmem with hmem | hmem
        · exact hnew g (List.mem_cons_of_mem _ hg) hmem
        · exact hnodup.1 (List.mem_singleton.mp hmem ▸ List.mem_map_of_mem hg)
      obtain ⟨ms', commits₂, hms', hgoes'⟩ := @ih ⟨middle, some (versions ++ [f.version])⟩ commits₁
        (versions ++ [f.version]) schema _ rfl rfl hrest
        (fun g hg => hshort g (List.mem_cons_of_mem _ hg)) hnodup.2 hnew'
      refine ⟨ms ++ ms', commits₂, hms.append hms', ?_⟩
      rw [migrateAll, if_neg hf]
      refine hgoes.bind ?_
      simpa using hgoes'

/-- **A runner on its own** that can apply what is pending does. -/
theorem runMigrations_goes {schema : D.Schema}
    (hrun : D.run ((dir.pending db.recorded).flatMap MigrationFile.sql) db.schema = .ok schema)
    (hshort : ∀ f ∈ dir.pending db.recorded, f.version.length ≤ 255 ∧ f.name.length ≤ 255) :
    ∃ ms commits, Uninterrupted ms ∧ (runMigrations dir).Goes ms db Conn.fresh (.done ())
      ⟨schema, some (db.recorded ++ (dir.pending db.recorded).map MigrationFile.version)⟩
      ⟨none, commits, []⟩ := by
  obtain ⟨ms, commits, hms, hgoes⟩ := @migrateAll_goes D db.recorded [] dir.migrations
    { db with versions := some db.recorded }
    [[⟨.createTable, (), (), [.createTable]⟩], [⟨.selectVersions, (), db.recorded, []⟩]]
    db.recorded schema _ rfl rfl hrun hshort (dir.versions_nodup.sublist (List.filter_sublist.map _))
    fun f hf => ((dir.mem_pending).mp hf).2
  have hmoves : Uninterrupted (([(none, uninterrupted D), (some (), uninterrupted D), (some (), uninterrupted D)] ++
      ([(none, uninterrupted D), (some (), uninterrupted D), (some (), uninterrupted D)] ++ ms) :
        Trace (migrationEngine D))) := by
    refine Uninterrupted.append ?_ (Uninterrupted.append ?_ hms) <;> simp [Uninterrupted]
  exact ⟨_, commits, hmoves, .bind (autocommit_goes rfl) (.bind (autocommit_goes rfl) hgoes)⟩

end Alone

/-! ## Recorded if and only if applied -/

section Recorded

variable {dir : Directory D} {db₀ db : MigrationStore D} {commits logs : List (MigrationLog D)}
  {done : List (MigrationFile D)}

/-- Every version that has been recorded since the beginning has been recorded by one commit. -/
theorem Migrated.count (h : Migrated dir db₀ db logs done) (v : String) :
    logs.countP (fun log => v ∈ versionsOf (log.map Entry.stmt)) =
      if v ∈ db.recorded ∧ v ∉ db₀.recorded then 1 else 0 := by
  have hnodup : (done.map MigrationFile.version).Nodup :=
    dir.versions_nodup.sublist ((h.pending.sublist.trans List.filter_sublist).map _)
  have hfilter : logs.countP (fun log => v ∈ versionsOf (log.map Entry.stmt)) =
      (logs.filter (fun log => Migrates log)).countP (fun log => v ∈ versionsOf (log.map Entry.stmt)) := by
    rw [List.countP_filter]
    refine List.countP_congr fun log _ => ?_
    simp only [decide_eq_true_eq, Bool.and_eq_true]
    exact ⟨fun hv => ⟨hv, List.ne_nil_of_mem hv⟩, And.left⟩
  have hcount : ∀ {logs : List (MigrationLog D)} {done : List (MigrationFile D)},
      List.Forall₂ (fun log f => Executes log f.plan) logs done →
        logs.countP (fun log => v ∈ versionsOf (log.map Entry.stmt)) =
          (done.map MigrationFile.version).count v := by
    intro logs done hrel
    induction hrel with
    | nil => rfl
    | @cons log f logs done hlog _ ih =>
      rw [List.countP_cons, List.map_cons, List.count_cons, ih, show log.map Entry.stmt = f.plan from hlog]
      have hversion : (f.version == v) = decide (v ∈ versionsOf f.plan) := by
        rw [versionsOf_plan, beq_eq_decide]
        exact decide_eq_decide.mpr (eq_comm.trans List.mem_singleton.symm)
      rw [hversion]
  rw [hfilter, hcount h.logs, hnodup.count, h.recorded]
  refine if_congr ⟨fun hv => ⟨List.mem_append_right _ hv, fun hmem => ?_⟩, fun hv => ?_⟩ rfl rfl
  · obtain ⟨f, hf, rfl⟩ := List.mem_map.mp hv
    exact ((dir.mem_pending).mp (h.pending.subset hf)).2 hmem
  · exact (List.mem_append.mp hv.1).resolve_left hv.2

/-- What a log that records a version has executed. -/
theorem Migrated.executed (h : Migrated dir db₀ db logs done) {log : MigrationLog D} (hlog : log ∈ logs)
    (hmigrates : Migrates log) : ∃ f ∈ done, Executes log f.plan := by
  have hmem : log ∈ logs.filter (fun log => Migrates log) :=
    List.mem_filter.mpr ⟨hlog, decide_eq_true hmigrates⟩
  obtain ⟨n, hn, rfl⟩ := List.mem_iff_getElem.mp hmem
  have hn' : n < done.length := h.logs.length_eq ▸ hn
  exact ⟨done[n], List.getElem_mem hn', h.logs.get hn hn'⟩

/-- The files that a runner has migrated. -/
theorem Committed.filter {applied : List String} {past : List (MigrationFile D)}
    (h : Committed commits applied past) :
    List.Forall₂ (fun log f => Executes log f.plan) (commits.filter (fun log => Migrates log)) past := by
  obtain ⟨created, read, migrated, rfl, hcreated, ⟨d, ws, rfl⟩, hmigrated⟩ := h
  have hall : migrated.filter (fun log => Migrates log) = migrated := by
    refine List.filter_eq_self.mpr fun log hlog => decide_eq_true ?_
    obtain ⟨n, hn, rfl⟩ := List.mem_iff_getElem.mp hlog
    have hexec : Executes _ _ := hmigrated.get hn (hmigrated.length_eq ▸ hn)
    rw [Migrates, show List.map Entry.stmt migrated[n] = _ from hexec, versionsOf_plan]
    exact List.cons_ne_nil _ _
  have hidle : ¬ Migrates created := by
    rw [Migrates, show created.map Entry.stmt = _ from hcreated]
    exact not_not.mpr rfl
  rw [List.filter_cons_of_neg (by simpa using hidle), List.filter_cons_of_neg (by simp [Migrates, versionsOf,
    MigrationStmt.version?]), hall]
  exact hmigrated

/-- A runner has migrated the first of the files that were pending when it read the versions. -/
theorem Advanced.past (h : Advanced dir commits) (hreads : ∀ log ∈ commits, ReadsSince db₀.recorded db log) :
    ∃ applied past, db₀.recorded ⊆ applied ∧ past <+: dir.pending applied ∧
      List.Forall₂ (fun log f => Executes log f.plan) (commits.filter (fun log => Migrates log)) past := by
  have hcommitted : ∀ {applied past}, Committed commits applied past → past <+: dir.pending applied →
      ∃ applied past, db₀.recorded ⊆ applied ∧ past <+: dir.pending applied ∧
        List.Forall₂ (fun log f => Executes log f.plan) (commits.filter (fun log => Migrates log)) past := by
    intro applied past h hpast
    refine ⟨applied, past, ?_, hpast, h.filter⟩
    obtain ⟨created, read, migrated, rfl, -, ⟨d, ws, rfl⟩, -⟩ := h
    exact (hreads _ (List.mem_cons_of_mem _ List.mem_cons_self) d applied ws List.mem_cons_self).1
  rcases h with ⟨applied, h⟩ | ⟨plan, h⟩
  · exact hcommitted h (List.prefix_refl _)
  · cases h with
    | createTable => exact ⟨db₀.recorded, [], List.Subset.refl _, List.nil_prefix, .nil⟩
    | @selectVersions created h =>
      refine ⟨db₀.recorded, [], List.Subset.refl _, List.nil_prefix, ?_⟩
      have hidle : ¬ Migrates created := by
        rw [Migrates, show created.map Entry.stmt = _ from h]
        exact not_not.mpr rfl
      rw [List.filter_cons_of_neg (by simpa using hidle)]
      exact .nil
    | file h hsplit => exact hcommitted h ⟨_, hsplit.symm⟩

/-- Every request is made on the way. -/
theorem Proceeds.advanced {r : Request (migrationEngine D)} {c : Conn (migrationEngine D)}
    (h : Proceeds dir r c) : Advanced dir c.commits := by
  cases r with
  | begin => exact .inr h.2
  | run q => exact .inr (h.imp fun _ => And.left)
  | commit => exact .inr (h.imp fun _ => And.left)
  | rollback => exact h
  | savepoint => exact h.elim
  | rollbackTo => exact h.elim
  | release => exact h.elim

/-- A runner that has finished leaves nothing pending. -/
theorem Migrated.finished (h : Migrated dir db₀ db logs done) (hfinished : Completed dir commits)
    (hreads : ∀ log ∈ logs, ReadsSince db₀.recorded db log) (hlogs : commits ⊆ logs) :
    done = dir.pending db₀.recorded := by
  obtain ⟨applied, hcommitted⟩ := hfinished
  refine h.pending.eq_of_length_le
    (List.subperm_of_subset (dir.pending_nodup _) fun f hf => ?_).length_le
  obtain ⟨hmigration, hnew⟩ := (dir.mem_pending).mp hf
  obtain ⟨created, read, migrated, rfl, -, ⟨d, ws, rfl⟩, hmigrated⟩ := hcommitted
  by_cases hf' : f.version ∈ applied
  · have hread : [⟨.selectVersions, d, applied, ws⟩] ∈ logs :=
      hlogs (List.mem_cons_of_mem _ List.mem_cons_self)
    have hrecorded := (hreads _ hread d applied ws List.mem_cons_self).2 hf'
    rw [h.recorded] at hrecorded
    exact dir.mem_of_version h.pending hmigration ((List.mem_append.mp hrecorded).resolve_left hnew)
  · obtain ⟨n, hn, rfl⟩ := List.mem_iff_getElem.mp ((dir.mem_pending).mpr ⟨hmigration, hf'⟩)
    have hn' : n < migrated.length := hmigrated.length_eq ▸ hn
    refine h.mem_done (hlogs (a := migrated[n]) ?_) (hmigrated.get hn' hn) hmigration
    exact List.mem_cons_of_mem _ (List.mem_cons_of_mem _ (List.getElem_mem hn'))

end Recorded

/-- The SQL of a schema that is a list of tables. -/
def tableDialect : Dialect where
  Schema := List String
  Statement := String
  Change := String
  Err := String
  exec table tables := if table ∈ tables then .error table else .ok [table]
  apply tables table := tables ++ [table]

/-- Three files, two of which are migrations. -/
def sampleDirectory : Directory tableDialect where
  entries := [⟨"002-orders.sql", ["orders"]⟩, ⟨"README.md", []⟩, ⟨"001-events.sql", ["events"]⟩]
  nodup := by decide

/-- One file has been migrated. -/
def sampleStore : MigrationStore tableDialect := ⟨["events"], some ["001-events"]⟩

example : sampleDirectory.pending [] =
    [⟨"001-events.sql", ["events"]⟩, ⟨"002-orders.sql", ["orders"]⟩] := by rfl

/-- The environment of the runners supplies what an uninterrupted runner draws. -/
theorem Uninterrupted.drawn {ms : Trace (migrationEngine D)} (h : Uninterrupted ms) : Drawn ms () () := by
  induction ms with
  | nil => rfl
  | cons y ms ih =>
    have hy : y.2 = uninterrupted D := h y List.mem_cons_self
    exact ⟨by rw [hy]; rfl, (), trivial, ih fun y' hy' => h y' (List.mem_cons_of_mem _ hy')⟩

/-- A runner that nobody disturbs completes. -/
theorem exists_completed {dir : Directory D} {db₀ db : MigrationStore D} {ms : Trace (migrationEngine D)}
    {commits : List (MigrationLog D)} (hms : Uninterrupted ms)
    (hgoes : (runMigrations dir).Goes ms db₀ Conn.fresh (.done ()) db ⟨none, commits, []⟩) :
    ∃ w : World (migrationEngine D) Unit Unit,
      Reachable (fun _ => runMigrations dir) (World.start db₀ ()) w ∧ w.db = db ∧
      w.sessions 0 = some ⟨(), .done (), ⟨none, commits, []⟩⟩ := by
  have hcall : Step (fun _ : Unit => runMigrations dir) (World.start db₀ ())
      ((World.start db₀ ()).setSession 0 ⟨(), runMigrations dir, Conn.fresh⟩) := .call _ 0 () rfl
  have hquiet : ∀ key, ¬ ((World.start db₀ ()).setSession 0
      ⟨(), runMigrations dir, Conn.fresh⟩ : World (migrationEngine D) Unit Unit).HeldFrom 0 key := by
    rintro key ⟨j, hj, s, t, hs, -⟩
    rw [World.setSession_of_ne _ _ hj] at hs
    cases hs
  obtain ⟨w, new, hrun, hdb, -, -, -, hsessions⟩ :=
    Prog.Goes.along (fun _ : Unit => runMigrations dir) (R := fun _ _ => True)
      (fun _ _ _ _ _ => trivial) hgoes (World.setSession_self _ _ _) rfl hquiet hms.drawn
  refine ⟨w, (Reachable.refl.step hcall).trans hrun.reachable, hdb, ?_⟩
  rw [hsessions, Function.update_self]

end PaymentWebhook
