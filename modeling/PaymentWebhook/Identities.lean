import PaymentWebhook.Columns
import PaymentWebhook.Transactions.Work

set_option relaxedAutoImplicit false
set_option autoImplicit false

/-!
# Identity columns

Five tables number their rows with identity columns.  The number of every row, committed or still
in an open transaction, has been given out, so that a number that is drawn next is the number of no
row.

## Main definitions

* `PaymentWebhook.Row.Given` — the number of the row has been given out.
* `PaymentWebhook.Draws.New` — the numbers drawn have not been given before.

## Main results

* `PaymentWebhook.exec_given` — a statement writes rows whose numbers have been given out.
* `PaymentWebhook.Reach.given` — so have the numbers of all rows of a reachable world.
-/

namespace PaymentWebhook

open Transactions

/-! ## Numbers that have been given out -/

/-- The number of the row has been given out. -/
def Row.Given (env : Env) : Row → Prop
  | .event r => r.id < env.nextEventId
  | .delivery r => r.id < env.nextDeliveryId
  | .order _ => True
  | .history r => r.id < env.nextHistoryId
  | .run r => r.id < env.nextRunId
  | .detail r => r.id < env.nextDetailId

/-- The row takes the number that is drawn. -/
def Row.Takes (d : Draws) : Row → Prop
  | .event r => r.id = d.eventId
  | .delivery r => r.id = d.deliveryId
  | .order _ => True
  | .history r => r.id = d.historyId
  | .run r => r.id = d.runId
  | .detail r => r.id = d.detailId

/-- `env'` has given out what `env` has. -/
structure Env.Le (env env' : Env) : Prop where
  event : env.nextEventId ≤ env'.nextEventId
  delivery : env.nextDeliveryId ≤ env'.nextDeliveryId
  history : env.nextHistoryId ≤ env'.nextHistoryId
  run : env.nextRunId ≤ env'.nextRunId
  detail : env.nextDetailId ≤ env'.nextDetailId

/-- The numbers drawn have not been given out. -/
structure Draws.New (env : Env) (d : Draws) : Prop where
  event : env.nextEventId ≤ d.eventId
  delivery : env.nextDeliveryId ≤ d.deliveryId
  history : env.nextHistoryId ≤ d.historyId
  run : env.nextRunId ≤ d.runId
  detail : env.nextDetailId ≤ d.detailId

section Given

variable {env env' : Env} {begun : Option Draws} {d : Draws} {r old : Row} {s : Store}

/-- Drawing gives out numbers. -/
theorem Env.Draw.le (h : env.Draw begun d env') : env.Le env' :=
  ⟨(h.eventId.1.trans_lt h.eventId.2).le, (h.deliveryId.1.trans_lt h.deliveryId.2).le,
    (h.historyId.1.trans_lt h.historyId.2).le, (h.runId.1.trans_lt h.runId.2).le,
    (h.detailId.1.trans_lt h.detailId.2).le⟩

/-- What is drawn has not been given out before. -/
theorem Env.Draw.new (h : env.Draw begun d env') : d.New env :=
  ⟨h.eventId.1, h.deliveryId.1, h.historyId.1, h.runId.1, h.detailId.1⟩

/-- There are always values to draw. -/
theorem Env.exists_draw (env : Env) (begun : Option Draws) : ∃ d env', Env.Draw env begun d env' :=
  ⟨⟨env.clock, (begun.map Draws.start).getD env.clock, env.nextEventId, env.nextDeliveryId,
      env.nextHistoryId, env.nextRunId, env.nextDetailId⟩,
    ⟨env.clock, env.nextEventId + 1, env.nextDeliveryId + 1, env.nextHistoryId + 1, env.nextRunId + 1,
      env.nextDetailId + 1⟩, rfl, rfl, by simp, by simp, by simp, by simp, by simp, rfl⟩

theorem Row.Given.mono (hle : env.Le env') (h : r.Given env) : r.Given env' := by
  cases r with
  | event r => exact lt_of_lt_of_le h hle.event
  | delivery r => exact lt_of_lt_of_le h hle.delivery
  | order r => trivial
  | history r => exact lt_of_lt_of_le h hle.history
  | run r => exact lt_of_lt_of_le h hle.run
  | detail r => exact lt_of_lt_of_le h hle.detail

/-- A row that takes the number drawn has a number that is then given out. -/
theorem Row.Takes.given (hdraw : env.Draw begun d env') (h : r.Takes d) : r.Given env' := by
  cases r with
  | event r => exact h.trans_lt hdraw.eventId.2
  | delivery r => exact h.trans_lt hdraw.deliveryId.2
  | order r => trivial
  | history r => exact h.trans_lt hdraw.historyId.2
  | run r => exact h.trans_lt hdraw.runId.2
  | detail r => exact h.trans_lt hdraw.detailId.2

/-- A new version of a row keeps its number. -/
theorem Row.Given.of_keys (hk : old.keys = r.keys) (h : old.Given env) : r.Given env := by
  cases old <;> cases r <;>
    simp_all [Row.keys, EventRow.keys, DeliveryRow.keys, OrderRow.keys, HistoryRow.keys, RunRow.keys,
      DetailRow.keys, Row.Given]

/-- A row has a key. -/
theorem Row.keys_ne_nil (r : Row) : r.keys ≠ [] := by
  cases r <;> simp [Row.keys, EventRow.keys, DeliveryRow.keys, OrderRow.keys, HistoryRow.keys,
    RunRow.keys, DetailRow.keys]

/-- A row has the key that it is found by. -/
theorem Store.mem_keys_of_look {k : Key} (h : s.look k = some r) : k ∈ r.keys := by
  cases k with
  | advisory key => cases h
  | _ =>
    obtain ⟨x, hx, rfl⟩ := Option.map_eq_some_iff.mp h
    exact (Tables.mem_of_find hx).2

/-- The primary keys that are drawn. -/
def Draws.keys (d : Draws) : List Key :=
  [.eventPk d.eventId, .delivery d.deliveryId, .history d.historyId, .run d.runId, .detail d.detailId]

/-- A number that has not been given out is the number of no row. -/
theorem Row.Given.not_mem_keys (h : r.Given env) (hnew : d.New env) : ∀ k ∈ d.keys, k ∉ r.keys := by
  intro k hk hr
  simp only [Draws.keys, List.mem_cons, List.not_mem_nil, or_false] at hk
  cases r <;> rcases hk with rfl | rfl | rfl | rfl | rfl <;>
    simp only [Row.keys, EventRow.keys, DeliveryRow.keys, OrderRow.keys, HistoryRow.keys, RunRow.keys,
      DetailRow.keys, List.mem_cons, List.mem_map, List.not_mem_nil, reduceCtorEq, Key.eventPk.injEq,
      Key.delivery.injEq, Key.history.injEq, Key.run.injEq, Key.detail.injEq, false_or, or_false, and_false,
      exists_false] at hr
  · exact absurd (hnew.event.trans_eq hr) (not_le.mpr h)
  · exact absurd (hnew.delivery.trans_eq hr) (not_le.mpr h)
  · exact absurd (hnew.history.trans_eq hr) (not_le.mpr h)
  · exact absurd (hnew.run.trans_eq hr) (not_le.mpr h)
  · exact absurd (hnew.detail.trans_eq hr) (not_le.mpr h)

/-- What is drawn is the key of no row. -/
theorem Store.All.look_drawn (h : s.All (Row.Given env)) (hnew : d.New env) {k : Key} (hk : k ∈ d.keys) :
    s.look k = none := by
  cases hlook : s.look k with
  | none => rfl
  | some r => exact absurd (Store.mem_keys_of_look hlook) ((h k r hlook).not_mem_keys hnew k hk)

/-- The writes that a store admits give new versions of rows whose numbers have been given out, and
rows that are inserted. -/
theorem given_writes {ws : List Write} (hs : s.Keyed) (h : s.All (Row.Given env))
    (hws : s.AdmitsAll ws) (hin : ∀ r, .insert r ∈ ws → r.Given env) :
    ∀ w ∈ ws, w.row.Given env := by
  induction ws generalizing s with
  | nil => simp
  | cons w ws ih =>
    have hw : w.row.Given env := by
      cases w with
      | insert r => exact hin r (by simp)
      | update r =>
        obtain ⟨old, hk, hlook⟩ := hws.1
        obtain ⟨k, hk'⟩ := List.exists_mem_of_ne_nil _ r.keys_ne_nil
        exact (h k old (hlook k hk')).of_keys hk
    intro w' hw'
    rcases List.mem_cons.mp hw' with rfl | hw'
    · exact hw
    · exact ih (hs.apply hws.1) (h.apply hs hws.1 hw) hws.2 (fun r hr => hin r (by simp [hr])) w' hw'

/-- What an update writes is no insertion. -/
theorem no_insert_of_updateRow {α ρ : Type} {mk : ρ → Row} {f : ρ → ρ} {found : ρ → α}
    {missing x : α} {o : Option ρ} {ws : List Write}
    (h : updateRow mk f found missing o = .ok (x, ws)) (r : Row) : .insert r ∉ ws := by
  obtain ⟨-, -, rfl⟩ | ⟨r', -, -, -, rfl⟩ := updateRow_ok.mp h <;> simp

/-- What an insertion writes. -/
theorem insert_of_insertRow {α : Type} {r r' : Row} {a x : α} {ws : List Write}
    (h : s.insertRow r a = .ok (x, ws)) (hr : .insert r' ∈ ws) : r' = r := by
  obtain ⟨-, -, rfl⟩ := insertRow_ok.mp h
  simpa using hr

variable [Platform] {skip : Key → Bool} {ws : List Write}

/-- **An inserted row takes the number that its statement has drawn.** -/
theorem exec_inserts {q : Stmt} {rows : q.Rows} (h : exec q d skip s = .ok (rows, ws)) {r : Row}
    (hr : .insert r ∈ ws) : r.Takes d := by
  cases q with
  | upsertAndDeliver p b =>
    obtain ⟨occurredAt, evt, w, -, -, hup, -, -, rfl⟩ := upsertAndDeliver_ok.mp h
    simp only [List.mem_cons, Write.insert.injEq, List.not_mem_nil, or_false] at hr
    rcases hr with rfl | rfl
    · obtain ⟨-, ⟨-, -, -, hw⟩ | ⟨old, -, -, -, hw⟩⟩ := upsert_ok.mp hup
      · obtain rfl := Write.insert.inj hw
        rfl
      · cases hw
    · rfl
  | claim =>
    obtain ⟨-, rfl⟩ : _ ∧ ws = [] := by simpa [exec, eq_comm] using h
    cases hr
  | insertOrder id =>
    simp only [exec] at h
    split at h
    · cases h
    · split at h
      · obtain ⟨-, rfl⟩ : _ ∧ ws = [] := by simpa [eq_comm] using h
        cases hr
      · rw [insert_of_insertRow h hr]
        trivial
  | selectOrder id =>
    obtain ⟨-, rfl⟩ : _ ∧ ws = [] := by simpa [exec, eq_comm] using h
    cases hr
  | applyToOrder id status seq amount currency =>
    simp only [exec] at h
    split at h
    · exact absurd hr (no_insert_of_updateRow h r)
    · cases h
  | insertHistory v =>
    simp only [exec] at h
    split at h
    · rw [insert_of_insertRow h hr]
      rfl
    · cases h
  | selectEvent id =>
    obtain ⟨-, rfl⟩ : _ ∧ ws = [] := by simpa [exec, eq_comm] using h
    cases hr
  | advisoryLock =>
    obtain rfl : ws = [] := by simpa [exec, eq_comm] using h
    cases hr
  | insertRun =>
    rw [insert_of_insertRow h hr]
    rfl
  | reconcileOrder id status seq amount currency =>
    simp only [exec] at h
    split at h
    · exact absurd hr (no_insert_of_updateRow h r)
    · cases h
  | insertDetail v =>
    rw [insert_of_insertRow h hr]
    rfl
  | markApplied id => exact absurd hr (no_insert_of_updateRow (by simpa only [exec] using h) r)
  | markIgnored id reason => exact absurd hr (no_insert_of_updateRow (by simpa only [exec] using h) r)
  | markDlq id n error => exact absurd hr (no_insert_of_updateRow (by simpa only [exec] using h) r)
  | markRetryScheduled id n next error =>
    exact absurd hr (no_insert_of_updateRow (by simpa only [exec] using h) r)
  | replayEvent id => exact absurd hr (no_insert_of_updateRow h r)
  | completeRun id checked divergences repaired => exact absurd hr (no_insert_of_updateRow h r)

/-- **A statement writes rows whose numbers have been given out.** -/
theorem exec_given {q : Stmt} {rows : q.Rows} (hs : s.Keyed) (h : s.All (Row.Given env))
    (hdraw : env.Draw begun d env') (hx : exec q d skip s = .ok (rows, ws)) :
    ∀ w ∈ ws, w.row.Given env' :=
  given_writes hs (fun k r hk => (h k r hk).mono hdraw.le) (exec_admits hs hx)
    fun _ hr => (exec_inserts hx hr).given hdraw

end Given

/-! ## In every reachable world -/

variable [Platform]

/-- The log has written rows with a property only. -/
def Wrote (P : Row → Prop) (log : Log) : Prop := ∀ e ∈ log, ∀ w ∈ e.writes, P (Write.row w)

/-- **The numbers of all rows have been given out.** -/
def givenWork : Work (E := postgres) locality Env.Le where
  Done := fun env s _ => Store.All (Row.Given env) s
  Open := fun env _ _ _ log => Wrote (Row.Given env) log
  done_mono := fun hle h k r hk => (h k r hk).mono hle
  open_mono := fun hle h e he w hw => (h e he w hw).mono hle
  opened := fun _ _ => by simp [Wrote]
  initial := fun h hp e he => h e (hp.subset he)
  push := fun hs hdone hopen hredo hdraw hx => by
    intro e he w hw
    rcases List.mem_append.mp he with he | he
    · exact (hopen e he w hw).mono hdraw.le
    · rw [List.mem_singleton.mp he] at hw
      exact exec_given (locality.inv_install hs hredo) (Store.All.install hdone hs hredo hopen) hdraw hx
        w hw
  commit := fun hs hdone hopen hredo => Store.All.install hdone hs hredo hopen
  frame := fun _ _ h _ _ _ _ => h

variable {cfg : WorkerConfig} {w : State}

/-- The numbers of all rows of a reachable world have been given out. -/
theorem Reach.given (h : Reach cfg .empty w) : givenWork.Holds w := by
  obtain ⟨env₀, hrun⟩ := h
  exact givenWork.holds_reachable Env.Draw.le
    (fun hpass => by rw [hpass]; exact ⟨le_rfl, le_rfl, le_rfl, le_rfl, le_rfl⟩) Store.keyed_empty
    Store.all_empty hrun

end PaymentWebhook
