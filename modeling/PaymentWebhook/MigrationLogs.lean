import PaymentWebhook.Migrations

set_option relaxedAutoImplicit false
set_option autoImplicit false

/-!
# The files and the statements of the migrations

Facts about a directory of migrations, and about what the statements of a runner do to the database.

## Main definitions

* `PaymentWebhook.Dialect.run` — the SQL of the migrations on its own.
* `PaymentWebhook.sqlOf`, `PaymentWebhook.versionsOf` — what the statements execute and record.

## Main results

* `PaymentWebhook.Directory.next_pending` — the next file of a list of pending files is the next one of an
  earlier one.
* `PaymentWebhook.MigrationStore.recorded_install` — what a log records.
-/

namespace PaymentWebhook

open Transactions

variable {D : Dialect}

/-! ## The files of a directory -/

/-- The name of a migration is its version, with the extension. -/
theorem MigrationFile.name_eq {f : MigrationFile D} (h : f.isSql = true) :
    f.name.toList = f.version.toList ++ ".sql".toList := by
  obtain ⟨stem, hstem⟩ := List.isSuffixOf_iff_suffix.mp h
  have hlength : f.name.toList.length - 4 = stem.length := by
    have hsuffix : ".sql".toList.length = 4 := rfl
    rw [← hstem, List.length_append, hsuffix]
    omega
  rw [MigrationFile.version, String.toList_ofList, hlength, ← hstem, List.take_left]

namespace Directory

variable (dir : Directory D)

theorem mem_migrations {f : MigrationFile D} :
    f ∈ dir.migrations ↔ f ∈ dir.entries ∧ f.isSql = true := by
  rw [migrations, List.mem_insertionSort, List.mem_filter]

/-- The migrations are in the order of their names. -/
theorem migrations_sorted : dir.migrations.Pairwise MigrationFile.Before := by
  have : Std.Total (MigrationFile.Before (D := D)) := ⟨fun f g => le_total _ _⟩
  have : IsTrans (MigrationFile D) MigrationFile.Before := ⟨fun f g k => le_trans⟩
  exact List.pairwise_insertionSort _ _

/-- Different migrations have different versions. -/
theorem versions_nodup : (dir.migrations.map MigrationFile.version).Nodup := by
  have hnames : (dir.migrations.map MigrationFile.name).Nodup := by
    have hperm := (List.perm_insertionSort MigrationFile.Before (dir.entries.filter MigrationFile.isSql))
    refine (hperm.map MigrationFile.name).nodup_iff.mpr ?_
    exact dir.nodup.sublist (List.filter_sublist.map _)
  refine List.Nodup.map_on (fun f hf g hg heq => ?_) (List.Nodup.of_map _ hnames)
  refine List.inj_on_of_nodup_map hnames hf hg (String.toList_inj.mp ?_)
  rw [MigrationFile.name_eq ((dir.mem_migrations).mp hf).2,
    MigrationFile.name_eq ((dir.mem_migrations).mp hg).2, heq]

theorem mem_pending {applied : List String} {f : MigrationFile D} :
    f ∈ dir.pending applied ↔ f ∈ dir.migrations ∧ f.version ∉ applied := by
  simp [pending]

theorem pending_nodup (applied : List String) : (dir.pending applied).Nodup :=
  (List.Nodup.of_map _ dir.versions_nodup).filter _

/-- A migration is known by its version. -/
theorem mem_of_version {applied : List String} {done : List (MigrationFile D)} {f : MigrationFile D}
    (hdone : done <+: dir.pending applied) (hf : f ∈ dir.migrations)
    (hversion : f.version ∈ done.map MigrationFile.version) : f ∈ done := by
  obtain ⟨g, hg, heq⟩ := List.mem_map.mp hversion
  have hmem : g ∈ dir.migrations := ((dir.mem_pending).mp (hdone.subset hg)).1
  rwa [← List.inj_on_of_nodup_map dir.versions_nodup hmem hf heq]

/-- **The first pending file**: let `done` be the first of the files that were pending at `initial`, and
`past` the first of those that were at the later `applied`.  If everything that `applied` and `past` record
is in `initial` or `done`, the next file after `past` is the next one after `done`, unless it is done.

**Proof sketch.** Both lists of pending files filter the same list, which `f` splits in two.  What stands
before `f` and is pending at `initial` is in `applied` or in `past`, hence in `done`; and `done` does not go
as far as `f`. -/
theorem next_pending {initial applied : List String} {done past future : List (MigrationFile D)}
    {f : MigrationFile D} (hdone : done <+: dir.pending initial)
    (hsplit : dir.pending applied = past ++ f :: future) (hsub : initial ⊆ applied)
    (happlied : applied ⊆ initial ++ done.map MigrationFile.version) (hpast : past ⊆ done)
    (hf : f ∉ done) : ∃ rest, dir.pending initial = done ++ f :: rest := by
  have hmem : f ∈ dir.pending applied := by
    rw [hsplit]
    simp
  obtain ⟨hmigration, hnew⟩ := (dir.mem_pending).mp hmem
  obtain ⟨before, after, hmigrations⟩ := List.append_of_mem hmigration
  have hinitial : dir.pending initial =
      before.filter (fun g => g.version ∉ initial) ++ f :: after.filter (fun g => g.version ∉ initial) := by
    have hnot : f.version ∉ initial := fun h => hnew (hsub h)
    rw [pending, hmigrations, List.filter_append, List.filter_cons_of_pos (by simpa using hnot)]
  have hlater : past ++ f :: future =
      before.filter (fun g => g.version ∉ applied) ++ f :: after.filter (fun g => g.version ∉ applied) := by
    rw [← hsplit, pending, hmigrations, List.filter_append, List.filter_cons_of_pos (by simpa using hnew)]
  have hpast_eq : past = before.filter (fun g => g.version ∉ applied) := by
    have hnodup' : (past ++ f :: future).Nodup := hsplit ▸ dir.pending_nodup applied
    obtain ⟨-, hfuture, hdisjoint⟩ := List.nodup_append.mp hnodup'
    refine ((List.append_cons_inj_of_notMem (fun h => ?_) (List.nodup_cons.mp hfuture).1).mp hlater).1
    exact hdisjoint f h f (by simp) rfl
  have hcovered : ∀ g ∈ before.filter (fun g => g.version ∉ initial), g ∈ done := by
    intro g hg
    obtain ⟨hgb, hgi⟩ := List.mem_filter.mp hg
    by_cases hga : g.version ∈ applied
    · rcases List.mem_append.mp (happlied hga) with h | h
      · exact absurd h (by simpa using hgi)
      · refine dir.mem_of_version hdone ?_ h
        rw [hmigrations]
        exact List.mem_append_left _ hgb
    · exact hpast (by rw [hpast_eq]; exact List.mem_filter.mpr ⟨hgb, by simpa using hga⟩)
  have hinit : before.filter (fun g => g.version ∉ initial) <+: dir.pending initial :=
    ⟨_, hinitial.symm⟩
  rcases List.prefix_or_prefix_of_prefix hdone hinit with h | ⟨l, hl⟩
  · have hlength : (before.filter (fun g => g.version ∉ initial)).length ≤ done.length :=
      (List.subperm_of_subset ((dir.pending_nodup initial).sublist hinit.sublist) hcovered).length_le
    exact ⟨_, by rw [hinitial, h.eq_of_length_le hlength]⟩
  · cases l with
    | nil => exact ⟨_, by rw [hinitial, ← hl, List.append_nil]⟩
    | cons g l =>
      obtain ⟨rest, hrest⟩ := hdone
      rw [hinitial, ← hl, List.append_assoc] at hrest
      obtain ⟨rfl, -⟩ := List.cons.inj (List.append_cancel_left hrest)
      exact absurd (by rw [← hl]; simp) hf

end Directory

/-! ## What the statements do -/

/-- The SQL of the migrations, executed one statement after the other. -/
def Dialect.run (D : Dialect) : List D.Statement → D.Schema → Except D.Err D.Schema
  | [], schema => .ok schema
  | q :: sql, schema =>
    match D.exec q schema with
    | .error e => .error e
    | .ok changes => D.run sql (changes.foldl D.apply schema)

/-- One part of the SQL after the other. -/
theorem Dialect.run_append {sql sql' : List D.Statement} {schema schema' : D.Schema}
    (h : D.run sql schema = .ok schema') : D.run (sql ++ sql') schema = D.run sql' schema' := by
  induction sql generalizing schema with
  | nil =>
    obtain rfl := Except.ok.inj h
    rfl
  | cons q sql ih =>
    rw [Dialect.run] at h
    rw [List.cons_append, Dialect.run]
    cases hq : D.exec q schema with
    | error e =>
      rw [hq] at h
      cases h
    | ok changes =>
      rw [hq] at h
      exact ih h

/-- The first part of the SQL, and the rest. -/
theorem Dialect.run_append_ok {sql sql' : List D.Statement} {schema schema' : D.Schema}
    (h : D.run (sql ++ sql') schema = .ok schema') :
    ∃ middle, D.run sql schema = .ok middle ∧ D.run sql' middle = .ok schema' := by
  induction sql generalizing schema with
  | nil => exact ⟨schema, rfl, h⟩
  | cons q sql ih =>
    rw [List.cons_append, Dialect.run] at h
    rw [Dialect.run]
    split at h
    · cases h
    · rename_i changes hchanges
      exact ih h

/-- The SQL in a statement. -/
def MigrationStmt.sql? : MigrationStmt D → Option D.Statement
  | .statement q => some q
  | _ => none

/-- The version a statement records. -/
def MigrationStmt.version? : MigrationStmt D → Option String
  | .insertVersion version _ => some version
  | _ => none

/-- The SQL among the statements. -/
def sqlOf (plan : List (MigrationStmt D)) : List D.Statement := plan.filterMap MigrationStmt.sql?

/-- The versions that the statements record. -/
def versionsOf (plan : List (MigrationStmt D)) : List String := plan.filterMap MigrationStmt.version?

@[simp] theorem sqlOf_append (plan plan' : List (MigrationStmt D)) :
    sqlOf (plan ++ plan') = sqlOf plan ++ sqlOf plan' := List.filterMap_append

@[simp] theorem versionsOf_append (plan plan' : List (MigrationStmt D)) :
    versionsOf (plan ++ plan') = versionsOf plan ++ versionsOf plan' := List.filterMap_append

@[simp] theorem sqlOf_plan (f : MigrationFile D) : sqlOf f.plan = f.sql := by
  have hsql : sqlOf (f.sql.map .statement) = f.sql := by
    simp [sqlOf, List.filterMap_map, Function.comp_def, MigrationStmt.sql?]
  simp [MigrationFile.plan, hsql]
  simp [sqlOf, MigrationStmt.sql?]

@[simp] theorem versionsOf_plan (f : MigrationFile D) : versionsOf f.plan = [f.version] := by
  have hsql : versionsOf (f.sql.map (.statement : D.Statement → MigrationStmt D)) = [] := by
    simp [versionsOf, List.filterMap_map, Function.comp_def, MigrationStmt.version?]
  simp [MigrationFile.plan, hsql]
  simp [versionsOf, MigrationStmt.version?]

/-- What a statement writes when it is executed; what it inserts fits its columns. -/
def MigrationStmt.Writes : MigrationStmt D → List (MigrationWrite D) → Prop
  | .createTable, ws => ws = [.createTable]
  | .selectVersions, ws => ws = []
  | .statement _, ws => ∃ changes : List D.Change, ws = changes.map .change
  | .insertVersion version name, ws =>
    ws = [.record version] ∧ version.length ≤ 255 ∧ name.length ≤ 255

theorem MigrationStmt.exec_writes {q : MigrationStmt D} {s : MigrationStore D} {rows : q.Rows}
    {ws : List (MigrationWrite D)} (h : q.exec s = .ok (rows, ws)) : q.Writes ws := by
  cases q with
  | createTable =>
    obtain ⟨-, rfl⟩ := Prod.mk.inj (Except.ok.inj h)
    rfl
  | selectVersions =>
    rw [exec] at h
    split at h
    · cases h
    · obtain ⟨-, rfl⟩ := Prod.mk.inj (Except.ok.inj h)
      rfl
  | statement q =>
    rw [exec] at h
    split at h
    · cases h
    · obtain ⟨-, rfl⟩ := Prod.mk.inj (Except.ok.inj h)
      exact ⟨_, rfl⟩
  | insertVersion version name =>
    rw [exec] at h
    split at h
    · cases h
    · split_ifs at h with hshort hmem
      obtain ⟨-, rfl⟩ := Prod.mk.inj (Except.ok.inj h)
      exact ⟨rfl, by omega, by omega⟩

/-- The statements of the log have been executed. -/
def Written (log : MigrationLog D) : Prop := ∀ e ∈ log, e.stmt.Writes e.writes

namespace MigrationStore

variable {s s' : MigrationStore D} {log : MigrationLog D}

theorem foldl_change (changes : List D.Change) (s : MigrationStore D) :
    (changes.map MigrationWrite.change).foldl apply s =
      { s with schema := changes.foldl D.apply s.schema } := by
  induction changes generalizing s with
  | nil => rfl
  | cons c changes ih =>
    rw [List.map_cons, List.foldl_cons, ih]
    rfl

/-- What the writes make of the schema depends on the schema. -/
theorem schema_install_congr (h : s.schema = s'.schema) (log : MigrationLog D) :
    MigrationStore.schema (install (E := migrationEngine D) s log) =
      MigrationStore.schema (install (E := migrationEngine D) s' log) := by
  induction log generalizing s s' with
  | nil => exact h
  | cons e log ih =>
    refine ih ?_
    have hwrites : ∀ (ws : List (MigrationWrite D)) (s s' : MigrationStore D), s.schema = s'.schema →
        (ws.foldl apply s).schema = (ws.foldl apply s').schema := by
      intro ws
      induction ws with
      | nil => exact fun _ _ h => h
      | cons w ws ih =>
        intro s s' h
        refine ih _ _ ?_
        cases w <;> simp [apply, h]
    exact hwrites e.writes s s' h

/-- Statements without SQL leave the schema alone. -/
theorem schema_install (hlog : Written log) (h : sqlOf (log.map Entry.stmt) = []) :
    MigrationStore.schema (install (E := migrationEngine D) s log) = s.schema := by
  induction log generalizing s with
  | nil => rfl
  | cons e log ih =>
    obtain ⟨q, d, rows, ws⟩ := e
    have hwrites : q.Writes ws := hlog ⟨q, d, rows, ws⟩ List.mem_cons_self
    rw [List.map_cons, sqlOf, List.filterMap_cons] at h
    have hrest := @ih (ws.foldl apply s) fun e he => hlog e (by simp [he])
    cases q with
    | createTable =>
      obtain rfl : ws = _ := hwrites
      exact hrest h
    | selectVersions =>
      obtain rfl : ws = _ := hwrites
      exact hrest h
    | statement q => cases h
    | insertVersion version name =>
      obtain ⟨rfl, -⟩ := hwrites
      exact hrest h

/-- The versions are recorded one after the other, in a table that exists. -/
theorem recorded_install (hlog : Written log)
    (h : s.versions.isSome ∨ versionsOf (log.map Entry.stmt) = []) :
    MigrationStore.recorded (install (E := migrationEngine D) s log) =
      s.recorded ++ versionsOf (log.map Entry.stmt) := by
  induction log generalizing s with
  | nil => simp [versionsOf]
  | cons e log ih =>
    obtain ⟨q, d, rows, ws⟩ := e
    have hwrites : q.Writes ws := hlog ⟨q, d, rows, ws⟩ List.mem_cons_self
    have hrest := @ih (ws.foldl apply s) fun e he => hlog e (by simp [he])
    show MigrationStore.recorded (install (E := migrationEngine D) (ws.foldl apply s) log) = _
    rw [List.map_cons, versionsOf, List.filterMap_cons] at h ⊢
    cases q with
    | createTable =>
      obtain rfl : ws = _ := hwrites
      exact hrest (.inl rfl)
    | selectVersions =>
      obtain rfl : ws = _ := hwrites
      exact hrest h
    | statement q =>
      obtain ⟨changes, rfl⟩ := hwrites
      rw [foldl_change] at hrest ⊢
      exact hrest h
    | insertVersion version name =>
      obtain ⟨rfl, -⟩ := hwrites
      rcases h with h | h
      · obtain ⟨versions, hversions⟩ := Option.isSome_iff_exists.mp h
        rw [hrest (.inl (by simp [apply, hversions]))]
        simp [apply, recorded, hversions, MigrationStmt.version?, versionsOf]
      · cases h

/-- The table stays. -/
theorem versions_install (hlog : Written log) (h : s.versions.isSome) :
    (MigrationStore.versions (install (E := migrationEngine D) s log)).isSome := by
  induction log generalizing s with
  | nil => exact h
  | cons e log ih =>
    obtain ⟨q, d, rows, ws⟩ := e
    have hwrites : q.Writes ws := hlog ⟨q, d, rows, ws⟩ List.mem_cons_self
    refine @ih (ws.foldl apply s) (fun e he => hlog e (by simp [he])) ?_
    cases q with
    | createTable =>
      obtain rfl : ws = _ := hwrites
      rfl
    | selectVersions =>
      obtain rfl : ws = _ := hwrites
      exact h
    | statement q =>
      obtain ⟨changes, rfl⟩ := hwrites
      rwa [foldl_change]
    | insertVersion version name =>
      obtain ⟨rfl, -⟩ := hwrites
      simpa [apply] using h

/-- Recorded versions stay. -/
theorem recorded_subset (hlog : Written log) :
    s.recorded ⊆ MigrationStore.recorded (install (E := migrationEngine D) s log) := by
  cases hs : s.versions with
  | none => simp [recorded, hs]
  | some versions =>
    rw [recorded_install hlog (.inl (by rw [hs]; rfl))]
    exact List.subset_append_left _ _

end MigrationStore

end PaymentWebhook
