import PaymentWebhook.System

set_option relaxedAutoImplicit false
set_option autoImplicit false

/-!
# What a commit changes

The system at the granularity of transactions: a log that is redone on a store changes it in one of
a dozen ways, each named by a constructor of `Change` together with all that is known of the rows
involved.  By `Reach.changes_induction` every reachable store is the result of a sequence of such
changes; the invariants of the service are proved change by change.

## Main definitions

* `PaymentWebhook.Store.putOrder`, `PaymentWebhook.Store.putEvent` — a row written.
* `PaymentWebhook.OpenedOrder` — the order row a transaction has locked.
* `PaymentWebhook.Change` — what a committed transaction changes.

## Main results

* `PaymentWebhook.change_of_redoes` — every log changes the store in one of these ways.
* `PaymentWebhook.Reach.step_change` — what one step of the system changes.
* `PaymentWebhook.Reach.changes_induction`, `PaymentWebhook.Reach.since_induction` — induction over the changes
  of a run, or over those since one of its states.
-/

namespace PaymentWebhook

open Transactions

/-! ## Writing one row -/

namespace Store

variable {s : Store}

/-- The store with an order row written: inserted if it is new, replaced otherwise. -/
def putOrder (s : Store) (o : OrderRow) : Store :=
  { s with orders := Tables.put OrderRow.keys (.order o.id) o s.orders }

/-- The store with an event row replaced. -/
def putEvent (s : Store) (e : EventRow) : Store :=
  { s with events := Tables.replace EventRow.keys e s.events }

/-- The store with a history row inserted. -/
def addHistory (s : Store) (h : HistoryRow) : Store := { s with history := s.history ++ [h] }

@[simp] theorem putOrder_events (o : OrderRow) : (s.putOrder o).events = s.events := rfl
@[simp] theorem putOrder_deliveries (o : OrderRow) : (s.putOrder o).deliveries = s.deliveries := rfl
@[simp] theorem putOrder_history (o : OrderRow) : (s.putOrder o).history = s.history := rfl
@[simp] theorem putOrder_runs (o : OrderRow) : (s.putOrder o).runs = s.runs := rfl
@[simp] theorem putOrder_details (o : OrderRow) : (s.putOrder o).details = s.details := rfl
@[simp] theorem putEvent_deliveries (e : EventRow) : (s.putEvent e).deliveries = s.deliveries := rfl
@[simp] theorem putEvent_orders (e : EventRow) : (s.putEvent e).orders = s.orders := rfl
@[simp] theorem putEvent_history (e : EventRow) : (s.putEvent e).history = s.history := rfl
@[simp] theorem putEvent_runs (e : EventRow) : (s.putEvent e).runs = s.runs := rfl
@[simp] theorem putEvent_details (e : EventRow) : (s.putEvent e).details = s.details := rfl
@[simp] theorem addHistory_events (h : HistoryRow) : (s.addHistory h).events = s.events := rfl
@[simp] theorem addHistory_deliveries (h : HistoryRow) :
    (s.addHistory h).deliveries = s.deliveries := rfl
@[simp] theorem addHistory_orders (h : HistoryRow) : (s.addHistory h).orders = s.orders := rfl
@[simp] theorem addHistory_history (h : HistoryRow) :
    (s.addHistory h).history = s.history ++ [h] := rfl
@[simp] theorem addHistory_runs (h : HistoryRow) : (s.addHistory h).runs = s.runs := rfl
@[simp] theorem addHistory_details (h : HistoryRow) : (s.addHistory h).details = s.details := rfl

@[simp] theorem putEvent_order? (e : EventRow) (k : String) :
    (s.putEvent e).order? k = s.order? k := rfl
@[simp] theorem addHistory_order? (h : HistoryRow) (k : String) :
    (s.addHistory h).order? k = s.order? k := rfl
@[simp] theorem putOrder_event? (o : OrderRow) (k : String) :
    (s.putOrder o).event? k = s.event? k := rfl
@[simp] theorem addHistory_event? (h : HistoryRow) (k : String) :
    (s.addHistory h).event? k = s.event? k := rfl
@[simp] theorem putOrder_eventAt? (o : OrderRow) (n : ℕ) :
    (s.putOrder o).eventAt? n = s.eventAt? n := rfl
@[simp] theorem addHistory_eventAt? (h : HistoryRow) (n : ℕ) :
    (s.addHistory h).eventAt? n = s.eventAt? n := rfl

theorem order?_eq_none {k : String} : s.order? k = none ↔ ∀ o ∈ s.orders, o.id ≠ k := by
  rw [order?, Tables.find_eq_none]
  simp [OrderRow.keys, eq_comm]

theorem event?_eq_none {k : String} : s.event? k = none ↔ ∀ e ∈ s.events, e.eventId ≠ k := by
  rw [event?, Tables.find_eq_none]
  simp [EventRow.keys, eq_comm]

theorem orderKeys (k : String) (o : OrderRow) (h : Key.order k ∈ o.keys) : o.keys = [.order k] := by
  simpa [OrderRow.keys, eq_comm] using h

/-- Which order is found after one has been written. -/
theorem order?_putOrder (hs : s.Keyed) (o : OrderRow) (k : String) :
    (s.putOrder o).order? k = if k = o.id then some o else s.order? k := by
  have h := Tables.find_put (orderKeys o.id) (r := o) rfl hs.orders (.order k)
  simpa [putOrder, order?] using h

/-- Which rows are among the orders after one has been written. -/
theorem mem_putOrder (hs : s.Keyed) {o x : OrderRow} :
    x ∈ (s.putOrder o).orders ↔ x = o ∨ (x ∈ s.orders ∧ x.id ≠ o.id) := by
  have h := Tables.mem_put (orderKeys o.id) (r := o) rfl hs.orders (y := x)
  simpa [putOrder, OrderRow.keys, eq_comm] using h

theorem Keyed.putOrder (hs : s.Keyed) (o : OrderRow) : (s.putOrder o).Keyed :=
  ⟨hs.events, hs.deliveries, Tables.Keyed.put (orderKeys o.id) rfl hs.orders, hs.history, hs.runs,
    hs.details⟩

/-- Writing the row that is there changes nothing. -/
theorem putOrder_self (hs : s.Keyed) {o : OrderRow} (h : s.order? o.id = some o) :
    s.putOrder o = s := by
  rw [putOrder, Tables.put_self (orderKeys o.id) rfl hs.orders h]

/-- Of two writes of one row the second counts. -/
theorem putOrder_putOrder (hs : s.Keyed) {o o' : OrderRow} (h : o'.id = o.id) :
    (s.putOrder o).putOrder o' = s.putOrder o' := by
  have hput := Tables.put_put (orderKeys o.id) (r := o) rfl hs.orders (show o'.keys = [.order o.id]
    by simp [OrderRow.keys, h])
  simp only [putOrder, h, hput]

/-- Which event is found after one has been replaced. -/
theorem event?_putEvent (hs : s.Keyed) {e e' : EventRow} (he : e ∈ s.events)
    (hk : e.keys = e'.keys) (k : String) :
    (s.putEvent e').event? k = if k = e'.eventId then some e' else s.event? k := by
  have h := Tables.find_replace hs.events he hk (.event k)
  simpa [putEvent, event?, EventRow.keys] using h

/-- Which rows are among the events after one has been replaced. -/
theorem mem_putEvent (hs : s.Keyed) {e e' : EventRow} (he : e ∈ s.events) (hk : e.keys = e'.keys)
    {x : EventRow} : x ∈ (s.putEvent e').events ↔ x = e' ∨ (x ∈ s.events ∧ x ≠ e) :=
  Tables.mem_replace hs.events he hk (by simp [EventRow.keys])

/-- An event is known by its `event_id`. -/
theorem Keyed.eq_of_eventId (hs : s.Keyed) {e e' : EventRow} (he : e ∈ s.events)
    (he' : e' ∈ s.events) (h : e'.eventId = e.eventId) : e' = e :=
  hs.events.eq_of_mem he' he (k := .event e.eventId) (by simp [EventRow.keys, h])
    (by simp [EventRow.keys])

/-- What holds of the new version of an event and of the other events holds of all. -/
theorem forall_putEvent (hs : s.Keyed) {e e' : EventRow} (he : e ∈ s.events)
    (hk : e.keys = e'.keys) {P : EventRow → Prop} (hnew : P e')
    (hold : ∀ x ∈ s.events, x.eventId ≠ e.eventId → P x) : ∀ x ∈ (s.putEvent e').events, P x := by
  intro x hx
  rcases (mem_putEvent hs he hk).mp hx with rfl | ⟨hx, hne⟩
  · exact hnew
  · exact hold x hx fun hid => hne (hs.eq_of_eventId he hx hid)

theorem Keyed.putEvent (hs : s.Keyed) (e : EventRow) : (s.putEvent e).Keyed :=
  ⟨hs.events.replace, hs.deliveries, hs.orders, hs.history, hs.runs, hs.details⟩

end Store

/-- The order row that a transaction has locked: a new one with the defaults, or the one that is
there. -/
inductive OpenedOrder (s : Store) (id : String) (d : Draws) : Bool → OrderRow → Prop where
  | fresh (h : s.order? id = none) : OpenedOrder s id d true (defaultOrder id d)
  | found {o : OrderRow} (h : s.order? id = some o) : OpenedOrder s id d false o

theorem OpenedOrder.id_eq {s : Store} {d : Draws} {id : String} {isNew : Bool} {o : OrderRow}
    (h : OpenedOrder s id d isNew o) : o.id = id := by
  cases h with
  | fresh h => rfl
  | found h => exact (Store.mem_of_order? h).2

/-- An order that does not exist is opened with the defaults. -/
theorem OpenedOrder.eq_default {s : Store} {d : Draws} {id : String} {isNew : Bool} {o : OrderRow}
    (h : OpenedOrder s id d isNew o) (hno : s.order? id = none) : o = defaultOrder id d := by
  cases h with
  | fresh => rfl
  | found hfound => exact absurd (hno.symm.trans hfound) (by simp)

/-- An order that exists is opened as it is. -/
theorem OpenedOrder.eq_found {s : Store} {d : Draws} {id : String} {isNew : Bool} {o o' : OrderRow}
    (h : OpenedOrder s id d isNew o') (ho : s.order? id = some o) : o' = o := by
  cases h with
  | fresh hno => exact absurd (hno.symm.trans ho) (by simp)
  | found hfound => exact Option.some.inj (hfound.symm.trans ho)

/-! ## What one statement of a redone log tells -/

section Statements

variable [Platform] {s : Store} {d : Draws} {w : List Write} {log : Log}

/-- A statement that found its row has been executed on the store. -/
theorem exec_of_valid {q : Stmt} {rows : q.Rows} (h : Entry.Valid (E := postgres) ⟨q, d, rows, w⟩ s)
    (hm : q.misses rows = false) : ∃ skip, exec q d skip s = .ok (rows, w) := by
  rcases h with ⟨hmiss, -⟩ | h
  · exact absurd (hm.symm.trans hmiss) (by simp)
  · exact h

/-- The rest of a log, once the writes of its first statement are known. -/
theorem redoes_next {s' : Store} {q : Stmt} {rows : q.Rows}
    (h : Redoes (E := postgres) (⟨q, d, rows, w⟩ :: log) s) (hw : w.foldl Store.apply s = s') :
    Redoes (E := postgres) log s' ∧
      install (E := postgres) s (⟨q, d, rows, w⟩ :: log) = install (E := postgres) s' log := by
  subst hw
  exact ⟨h.2, rfl⟩

/-- `INSERT … ON CONFLICT DO NOTHING` and `SELECT … FOR UPDATE` of an order. -/
theorem redoes_openOrder (hs : s.Keyed) {id : String} {d₁ d₂ : Draws} {isNew : Bool}
    {order : OrderRow} {w₁ w₂ : List Write}
    (h : Redoes (E := postgres)
      (⟨.insertOrder id, d₁, isNew, w₁⟩ :: ⟨.selectOrder id, d₂, some order, w₂⟩ :: log) s) :
    OpenedOrder s id d₁ isNew order ∧ Redoes (E := postgres) log (s.putOrder order) ∧
      install (E := postgres) s
        (⟨.insertOrder id, d₁, isNew, w₁⟩ :: ⟨.selectOrder id, d₂, some order, w₂⟩ :: log) =
      install (E := postgres) (s.putOrder order) log := by
  obtain ⟨h₁, h₂, h₃⟩ := h
  obtain ⟨skip₂, hx₂⟩ := exec_of_valid h₂ rfl
  replace hx₂ : exec (.selectOrder id) d₂ skip₂ (w₁.foldl Store.apply s) = .ok (some order, w₂) :=
    hx₂
  obtain ⟨horder, rfl⟩ : (w₁.foldl Store.apply s).order? id = some order ∧ w₂ = [] := by
    simpa [exec, eq_comm] using hx₂
  cases isNew with
  | true =>
    obtain ⟨skip₁, hx₁⟩ := exec_of_valid h₁ rfl
    simp only [exec] at hx₁
    split at hx₁
    · cases hx₁
    · cases ho : s.order? id with
      | some o =>
        rw [ho] at hx₁
        simp at hx₁
      | none =>
        rw [ho] at hx₁
        obtain ⟨-, -, rfl⟩ := insertRow_ok.mp hx₁
        have happ : [Write.insert (.order (defaultOrder id d₁))].foldl Store.apply s =
            s.putOrder (defaultOrder id d₁) := by
          have hfind : Tables.find OrderRow.keys (.order id) s.orders = none := ho
          simp [Store.apply, Store.putOrder, Tables.put, defaultOrder, hfind]
        rw [happ, Store.order?_putOrder hs] at horder
        obtain rfl : defaultOrder id d₁ = order := by simpa [defaultOrder] using horder
        refine ⟨.fresh ho, ?_, ?_⟩
        · rw [← happ]
          exact h₃
        · rw [← happ]
          rfl
  | false =>
    obtain rfl : w₁ = [] := by
      rcases h₁ with ⟨-, hw⟩ | ⟨skip₁, hx₁⟩
      · exact hw
      · replace hx₁ : exec (.insertOrder id) d₁ skip₁ s = .ok (false, w₁) := hx₁
        simp only [exec] at hx₁
        split at hx₁
        · cases hx₁
        · cases ho : s.order? id with
          | some o =>
            rw [ho] at hx₁
            simpa [eq_comm] using hx₁
          | none =>
            rw [ho] at hx₁
            obtain ⟨-, hfalse, -⟩ := insertRow_ok.mp hx₁
            cases hfalse
    have hput : s.putOrder order = s := by
      refine Store.putOrder_self hs ?_
      rw [(Store.mem_of_order? horder).2]
      exact horder
    rw [hput]
    exact ⟨.found horder, h₃, rfl⟩

omit [Platform] in
/-- Updating a row of `orders` that is there. -/
theorem redoes_updateOrder {id : String} {o : OrderRow} {f : OrderRow → OrderRow} {m : Bool}
    (ho : s.order? id = some o) (hf : (f o).id = o.id)
    (h : updateRow .order f (fun _ => true) false (s.order? id) = .ok (m, w)) :
    m = true ∧ w.foldl Store.apply s = s.putOrder (f o) := by
  have hid := (Store.mem_of_order? ho).2
  obtain ⟨hnone, -, -⟩ | ⟨r, hr, -, hm, rfl⟩ := updateRow_ok.mp h
  · rw [ho] at hnone
    cases hnone
  · obtain rfl : o = r := by simpa [ho] using hr
    have hfind : Tables.find OrderRow.keys (.order id) s.orders = some o := ho
    refine ⟨hm, ?_⟩
    simp [Store.apply, Store.putOrder, Tables.put, hf, hid, hfind]

omit [Platform] in
/-- Updating a row of `webhook_events` that is there. -/
theorem redoes_updateEvent {α : Type} {e : EventRow} {f : EventRow → EventRow} {m missing : α}
    {found : EventRow → α} (he : s.eventAt? e.id = some e)
    (h : updateRow .event f found missing (s.eventAt? e.id) = .ok (m, w)) :
    m = found (f e) ∧ w.foldl Store.apply s = s.putEvent (f e) := by
  obtain ⟨hnone, -, -⟩ | ⟨r, hr, -, hm, rfl⟩ := updateRow_ok.mp h
  · rw [he] at hnone
    cases hnone
  · obtain rfl : e = r := by simpa [he] using hr
    exact ⟨hm, rfl⟩

/-- The worker's claim of an event. -/
theorem redoes_claim {event : EventRow}
    (h : Redoes (E := postgres) (⟨.claim, d, some event, w⟩ :: log) s) :
    event ∈ s.events ∧ event.claimable d.now = true ∧ w = [] ∧
      Redoes (E := postgres) log s := by
  obtain ⟨h₁, h₂⟩ := h
  obtain ⟨skip, hx⟩ := exec_of_valid h₁ rfl
  obtain ⟨hc, rfl⟩ : s.claimed d.now skip = some event ∧ w = [] := by simpa [exec, eq_comm] using hx
  obtain ⟨hmem, hcl, -, -⟩ := Store.claimed_some hc
  exact ⟨hmem, hcl, rfl, h₂⟩

/-- An insertion of a history row. -/
theorem redoes_insertHistory {v : HistoryValues}
    (h : Entry.Valid (E := postgres) ⟨.insertHistory v, d, (), w⟩ s) :
    ∃ st, v.newStatus = .known st ∧ s.insertable (.history (v.row st d)) = .ok () ∧
      w.foldl Store.apply s = s.addHistory (v.row st d) := by
  obtain ⟨skip, hx⟩ := exec_of_valid h rfl
  simp only [exec] at hx
  split at hx
  · rename_i st hst
    obtain ⟨hi, -, rfl⟩ := insertRow_ok.mp hx
    exact ⟨st, hst, hi, rfl⟩
  · cases hx

/-- The worker's update of an order that is there. -/
theorem redoes_applyToOrder {id : String} {o : OrderRow} {target : MappedStatus} {seq : ℤ}
    {amount currency : Option String} {m : Bool} (ho : s.order? id = some o)
    (h : Entry.Valid (E := postgres) ⟨.applyToOrder id target seq amount currency, d, m, w⟩ s) :
    ∃ st a, target = .known st ∧ numericParam amount = .ok a ∧ m = true ∧
      w.foldl Store.apply s = s.putOrder (o.applied st seq a currency d) := by
  obtain ⟨skip, hx⟩ := exec_of_valid h rfl
  cases target with
  | inherited => simp [exec] at hx
  | known st =>
    cases ha : numericParam amount with
    | error e => simp [exec, ha] at hx
    | ok a =>
      simp only [exec, ha] at hx
      exact ⟨st, a, rfl, rfl, redoes_updateOrder (f := (·.applied st seq a currency d)) ho rfl hx⟩

/-- The reconciliation's update of an order that is there. -/
theorem redoes_reconcileOrder {id : String} {o : OrderRow} {st : OrderStatus} {seq : ℤ}
    {amount : String} {currency : Option String} {m : Bool} (ho : s.order? id = some o)
    (h : Entry.Valid (E := postgres)
      ⟨.reconcileOrder id st seq (some amount) currency, d, m, w⟩ s) :
    ∃ a, numericIn amount = some a ∧ m = true ∧
      w.foldl Store.apply s = s.putOrder (o.reconciled st seq (some a) currency d) := by
  obtain ⟨skip, hx⟩ := exec_of_valid h rfl
  cases ha : numericIn amount with
  | none => simp [exec, numericParam, ha] at hx
  | some a =>
    simp only [exec, numericParam, ha] at hx
    exact ⟨a, rfl, redoes_updateOrder (f := (·.reconciled st seq (some a) currency d)) ho rfl hx⟩

theorem redoes_markApplied {e : EventRow} {m : Bool} (he : s.eventAt? e.id = some e)
    (h : Entry.Valid (E := postgres) ⟨.markApplied e.id, d, m, w⟩ s) :
    w.foldl Store.apply s = s.putEvent (e.applied d) := by
  obtain ⟨skip, hx⟩ := exec_of_valid h rfl
  simp only [exec] at hx
  exact (redoes_updateEvent (f := (·.applied d)) he hx).2

theorem redoes_markIgnored {e : EventRow} {m : Bool} {reason : Option OutcomeReason}
    (he : s.eventAt? e.id = some e)
    (h : Entry.Valid (E := postgres) ⟨.markIgnored e.id reason, d, m, w⟩ s) :
    w.foldl Store.apply s = s.putEvent (e.ignored reason d) := by
  obtain ⟨skip, hx⟩ := exec_of_valid h rfl
  simp only [exec] at hx
  exact (redoes_updateEvent (f := (·.ignored reason d)) he hx).2

theorem redoes_markDlq {e : EventRow} {m : Bool} {n : ℕ} {error : String}
    (he : s.eventAt? e.id = some e)
    (h : Entry.Valid (E := postgres) ⟨.markDlq e.id n error, d, m, w⟩ s) :
    w.foldl Store.apply s = s.putEvent (e.dlq n error d) := by
  obtain ⟨skip, hx⟩ := exec_of_valid h rfl
  simp only [exec] at hx
  exact (redoes_updateEvent (f := (·.dlq n error d)) he hx).2

theorem redoes_markRetryScheduled {e : EventRow} {m : Bool} {n : ℕ} {next : Timestamp}
    {error : String} (he : s.eventAt? e.id = some e)
    (h : Entry.Valid (E := postgres) ⟨.markRetryScheduled e.id n next error, d, m, w⟩ s) :
    w.foldl Store.apply s = s.putEvent (e.retryScheduled n next error) := by
  obtain ⟨skip, hx⟩ := exec_of_valid h rfl
  simp only [exec] at hx
  exact (redoes_updateEvent (f := (·.retryScheduled n next error)) he hx).2

theorem redoes_replayEvent {e : EventRow} {m : Option EventRow} (he : s.eventAt? e.id = some e)
    (h : Entry.Valid (E := postgres) ⟨.replayEvent e.id, d, m, w⟩ s) :
    m = some e.replayed ∧ w.foldl Store.apply s = s.putEvent e.replayed := by
  obtain ⟨skip, hx⟩ := exec_of_valid h rfl
  simp only [exec] at hx
  exact redoes_updateEvent (f := (·.replayed)) he hx

end Statements

/-! ## The history a log writes -/

section History

variable [Platform] {s : Store}

/-- The history row that a statement has inserted. -/
def insertedHistory? : Entry postgres → Option HistoryRow
  | ⟨.insertHistory _, _, _, [.insert (.history h)]⟩ => some h
  | _ => none

omit [Platform] in
private theorem history_updateRow {α ρ : Type} {mk : ρ → Row} {f : ρ → ρ} {found : ρ → α}
    {missing x : α} {o : Option ρ} {w : List Write}
    (hmk : ∀ r, (s.apply (.update (mk r))).history = s.history)
    (h : updateRow mk f found missing o = .ok (x, w)) : (w.foldl Store.apply s).history = s.history := by
  obtain ⟨-, -, rfl⟩ | ⟨r, -, -, -, rfl⟩ := updateRow_ok.mp h
  · rfl
  · exact hmk _

/-- **A statement adds to the history the row it inserts**, and changes nothing else there. -/
theorem exec_history {q : Stmt} {d : Draws} {skip : Key → Bool} {rows : q.Rows} {w : List Write}
    (h : exec q d skip s = .ok (rows, w)) :
    (w.foldl Store.apply s).history = s.history ++ (insertedHistory? ⟨q, d, rows, w⟩).toList := by
  have hnone : (w.foldl Store.apply s).history = s.history → (∀ v, q ≠ .insertHistory v) →
      (w.foldl Store.apply s).history = s.history ++ (insertedHistory? ⟨q, d, rows, w⟩).toList := by
    intro hs hq
    cases q <;> first | simpa [insertedHistory?] using hs | exact absurd rfl (hq _)
  cases q with
  | upsertAndDeliver p b =>
    refine hnone ?_ (by simp)
    obtain ⟨occurredAt, evt, w, -, -, hu, -, -, rfl⟩ := upsertAndDeliver_ok.mp h
    obtain ⟨-, ⟨-, -, -, rfl⟩ | ⟨old, -, -, -, rfl⟩⟩ := upsert_ok.mp hu <;> rfl
  | claim =>
    obtain ⟨-, rfl⟩ : _ ∧ w = [] := by simpa [exec, eq_comm] using h
    exact hnone rfl (by simp)
  | insertOrder id =>
    refine hnone ?_ (by simp)
    simp only [exec] at h
    split at h
    · cases h
    · cases ho : s.order? id with
      | some o =>
        rw [ho] at h
        obtain ⟨-, rfl⟩ : _ ∧ w = [] := by simpa [eq_comm] using h
        rfl
      | none =>
        rw [ho] at h
        obtain ⟨-, -, rfl⟩ := insertRow_ok.mp h
        rfl
  | selectOrder id =>
    obtain ⟨-, rfl⟩ : _ ∧ w = [] := by simpa [exec, eq_comm] using h
    exact hnone rfl (by simp)
  | applyToOrder id status seq amount currency =>
    refine hnone ?_ (by simp)
    simp only [exec] at h
    split at h
    · exact history_updateRow (fun _ => rfl) h
    · cases h
  | insertHistory v =>
    simp only [exec] at h
    split at h
    · obtain ⟨-, -, rfl⟩ := insertRow_ok.mp h
      rfl
    · cases h
  | markApplied id =>
    simp only [exec] at h
    exact hnone (history_updateRow (fun _ => rfl) h) (by simp)
  | markIgnored id reason =>
    simp only [exec] at h
    exact hnone (history_updateRow (fun _ => rfl) h) (by simp)
  | markDlq id n error =>
    simp only [exec] at h
    exact hnone (history_updateRow (fun _ => rfl) h) (by simp)
  | markRetryScheduled id n next error =>
    simp only [exec] at h
    exact hnone (history_updateRow (fun _ => rfl) h) (by simp)
  | selectEvent id =>
    obtain ⟨-, rfl⟩ : _ ∧ w = [] := by simpa [exec, eq_comm] using h
    exact hnone rfl (by simp)
  | replayEvent id =>
    simp only [exec] at h
    exact hnone (history_updateRow (fun _ => rfl) h) (by simp)
  | advisoryLock =>
    obtain rfl : w = [] := by simpa [exec, eq_comm] using h
    exact hnone rfl (by simp)
  | insertRun =>
    obtain ⟨-, -, rfl⟩ := insertRow_ok.mp h
    exact hnone rfl (by simp)
  | reconcileOrder id status seq amount currency =>
    refine hnone ?_ (by simp)
    simp only [exec] at h
    split at h
    · exact history_updateRow (fun _ => rfl) h
    · cases h
  | insertDetail v =>
    obtain ⟨-, -, rfl⟩ := insertRow_ok.mp h
    exact hnone rfl (by simp)
  | completeRun id checked divergences repaired =>
    simp only [exec] at h
    exact hnone (history_updateRow (fun _ => rfl) h) (by simp)

/-- An executed statement adds to the history the row it inserts. -/
theorem history_install_entry {e : Entry postgres} (h : e.Valid s) :
    (Entry.install e s : Store).history = s.history ++ (insertedHistory? e).toList := by
  obtain ⟨q, d, rows, w⟩ := e
  rcases h with ⟨-, hw⟩ | ⟨skip, hx⟩
  · obtain rfl : w = [] := hw
    cases q <;> simp [insertedHistory?, Entry.install]
  · exact exec_history hx

/-- A log adds to the history the rows it inserts. -/
theorem history_install {log : Log} (h : Redoes (E := postgres) log s) :
    (install (E := postgres) s log).history = s.history ++ log.filterMap insertedHistory? := by
  induction log generalizing s with
  | nil => simp
  | cons e log ih =>
    rw [install_cons, ih h.2]
    have he := history_install_entry h.1
    simp only [Entry.install] at he
    rw [he]
    cases hrow : insertedHistory? e <;> simp [hrow]

end History

/-! ## The changes -/

/-- The history row of an event. -/
def eventHistory (event : EventRow) (previous new : OrderStatus) (outcome : HistoryOutcome)
    (reason : Option OutcomeReason) (d : Draws) : HistoryRow where
  id := d.historyId
  orderId := event.orderId
  eventId := some event.eventId
  sequence := event.sequence
  previousStatus := some previous
  newStatus := new
  outcome := outcome
  outcomeReason := reason
  source := .webhook
  changedAt := d.start

/-- The history row of a repair. -/
def repairHistory (o : ProviderOrder) (previous : Option OrderStatus) (d : Draws) : HistoryRow where
  id := d.historyId
  orderId := o.id
  eventId := none
  sequence := o.sequence
  previousStatus := previous
  newStatus := o.status
  outcome := .reconciled
  outcomeReason := some .providerSourceOfTruth
  source := .reconciliation
  changedAt := d.start

variable [Platform]

/-- What one turn of a reconciliation changes. -/
inductive Turn (o : ProviderOrder) (t : Tally) : Log → Tally → Store → Store → Prop where
  | kept {s : Store} {d₁ d₂ : Draws} {w₁ w₂ : List Write} {isNew : Bool} {row : OrderRow}
      (hopen : OpenedOrder s o.id d₁ isNew row) (hclass : classify o row ≠ .repaired) :
      Turn o t
        [⟨.insertOrder o.id, d₁, isNew, w₁⟩, ⟨.selectOrder o.id, d₂, some row, w₂⟩]
        (t.push (detailOf o row isNew)) s (s.putOrder row)
  | repaired {s : Store} {d₁ d₂ d₃ d₄ : Draws} {w₁ w₂ w₃ w₄ : List Write} {isNew : Bool}
      {row : OrderRow} {amount : ℤ} (hopen : OpenedOrder s o.id d₁ isNew row)
      (hclass : classify o row = .repaired) (hamount : numericIn o.amount = some amount) :
      Turn o t
        [⟨.insertOrder o.id, d₁, isNew, w₁⟩, ⟨.selectOrder o.id, d₂, some row, w₂⟩,
          ⟨.reconcileOrder o.id o.status o.sequence (some o.amount) (some o.currency), d₃, true, w₃⟩,
          ⟨.insertHistory (repairValues o (if isNew then none else some row.status)), d₄, (), w₄⟩]
        (t.push (detailOf o row isNew)) s
        ((s.putOrder (row.reconciled o.status o.sequence (some amount) (some o.currency) d₃)).addHistory
          (repairHistory o (if isNew then none else some row.status) d₄))

/-- What the loop of a reconciliation changes. -/
inductive Turns : List ProviderOrder → Tally → Log → Tally → Store → Store → Prop where
  | nil (t : Tally) (s : Store) : Turns [] t [] t s s
  | cons {o : ProviderOrder} {orders : List ProviderOrder} {t t' t'' : Tally} {turn log : Log}
      {s s' s'' : Store} (hs : s.Keyed) (hturn : Turn o t turn t' s s')
      (htail : Turns orders t' log t'' s' s'') : Turns (o :: orders) t (turn ++ log) t'' s s''

/-- **What a committed transaction changes**, by its call, its log and its answer. -/
inductive Change (cfg : WorkerConfig) : Call → Log → Option Answer → Store → Store → Prop where
  | created {s : Store} {req : WebhookRequest} {d : Draws} {w : List Write} {row : CteRow}
      {occurredAt : Timestamp} (hnew : s.event? req.rawBody.json.eventId = none)
      (htime : Platform.timestamptzIn req.rawBody.json.occurredAt = some occurredAt)
      (hrow : row.deliveryResult =
        if req.event.processingStatus = .ignored then .ignored else .created) :
      Change cfg (.ingest req) [⟨.upsertAndDeliver req.event req.delivery, d, row, w⟩]
        (some (.ingested ⟨req.rawBody.json.eventId, row.deliveryResult,
          "Webhook stored for asynchronous processing"⟩)) s
        { s with
          events := s.events ++ [req.event.row d.eventId occurredAt]
          deliveries := s.deliveries ++ [req.delivery.row d row.deliveryResult] }
  | counted {s : Store} {req : WebhookRequest} {d : Draws} {w : List Write} {row : CteRow}
      {old : EventRow} (hold : s.event? req.rawBody.json.eventId = some old)
      (hfits : old.deliveryCount + 1 ≤ 2147483647)
      (hrow : row.deliveryResult =
        deliveryResult (old.deliveryCount + 1) (req.event.processingStatus = .ignored)
          old.payloadHash req.event.payloadHash) :
      Change cfg (.ingest req) [⟨.upsertAndDeliver req.event req.delivery, d, row, w⟩]
        (some (.ingested ⟨req.rawBody.json.eventId, row.deliveryResult,
          "Webhook stored for asynchronous processing"⟩)) s
        { s.putEvent { old with deliveryCount := old.deliveryCount + 1 } with
          deliveries := s.deliveries ++ [req.delivery.row d row.deliveryResult] }
  | idle {s : Store} {input : WorkerInput} {d : Draws} :
      Change cfg (.processOne input) [⟨.claim, d, none, []⟩] (some (.processed .notFound)) s s
  | applied {s : Store} {input : WorkerInput} {d d₁ d₂ d₃ d₄ d₅ : Draws}
      {w₁ w₂ w₃ w₄ w₅ : List Write} {isNew m₅ : Bool} {event : EventRow} {order : OrderRow}
      {status : OrderStatus} {amount : Option ℤ} (hev : event ∈ s.events)
      (hclaim : event.claimable d.now = true) (hopen : OpenedOrder s event.orderId d₁ isNew order)
      (hmap : mapEventToStatus event.eventType = some (.known status))
      (hseq : order.lastSequence < event.sequence)
      (hamount : numericParam (event.payload.data.bind PaymentWebhookData.amount) = .ok amount) :
      Change cfg (.processOne input)
        [⟨.claim, d, some event, []⟩, ⟨.insertOrder event.orderId, d₁, isNew, w₁⟩,
          ⟨.selectOrder event.orderId, d₂, some order, w₂⟩,
          ⟨.applyToOrder event.orderId (.known status) event.sequence
            (event.payload.data.bind PaymentWebhookData.amount)
            (event.payload.data.bind PaymentWebhookData.currency), d₃, true, w₃⟩,
          ⟨.insertHistory (historyValues event order.status (.known status) .applied none), d₄, (),
            w₄⟩,
          ⟨.markApplied event.id, d₅, m₅, w₅⟩]
        (some (.processed (processed event .applied none event.attemptCount none))) s
        (((s.putOrder (order.applied status event.sequence amount
            (event.payload.data.bind PaymentWebhookData.currency) d₃)).addHistory
          (eventHistory event order.status status .applied none d₄)).putEvent (event.applied d₅))
  | ignored {s : Store} {input : WorkerInput} {d d₁ d₂ d₄ d₅ : Draws}
      {w₁ w₂ w₄ w₅ : List Write} {isNew m₅ : Bool} {event : EventRow} {order : OrderRow}
      {reason : OutcomeReason} (hev : event ∈ s.events) (hclaim : event.claimable d.now = true)
      (hopen : OpenedOrder s event.orderId d₁ isNew order)
      (hreason : (mapEventToStatus event.eventType = none ∧ reason = .unknownEventType) ∨
        ((mapEventToStatus event.eventType).isSome ∧ event.sequence ≤ order.lastSequence ∧
          reason = .staleSequence)) :
      Change cfg (.processOne input)
        [⟨.claim, d, some event, []⟩, ⟨.insertOrder event.orderId, d₁, isNew, w₁⟩,
          ⟨.selectOrder event.orderId, d₂, some order, w₂⟩,
          ⟨.insertHistory (historyValues event order.status (.known order.status) .ignored
            (some reason)), d₄, (), w₄⟩,
          ⟨.markIgnored event.id (some reason), d₅, m₅, w₅⟩]
        (some (.processed (processed event .ignored (some reason) event.attemptCount none))) s
        (((s.putOrder order).addHistory
          (eventHistory event order.status order.status .ignored (some reason) d₄)).putEvent
          (event.ignored (some reason) d₅))
  | retried {s : Store} {input : WorkerInput} {d d' : Draws} {w' : List Write} {m : Bool}
      {event : EventRow} {error : DbError} {attemptCount delayMs : ℕ} {nextAttemptAt : Timestamp}
      (hev : event ∈ s.events) (hclaim : event.claimable d.now = true)
      (heval : RetryPolicy.evaluate cfg event.attemptCount input.now input.random =
        .retry attemptCount delayMs nextAttemptAt) :
      Change cfg (.processOne input)
        [⟨.claim, d, some event, []⟩,
          ⟨.markRetryScheduled event.id attemptCount nextAttemptAt
            (sanitizeError (Platform.errorMessage error)), d', m, w'⟩]
        (some (.processed (processed event .retryScheduled (some .transientError) attemptCount
          (some nextAttemptAt)))) s
        (s.putEvent (event.retryScheduled attemptCount nextAttemptAt
          (sanitizeError (Platform.errorMessage error))))
  | buried {s : Store} {input : WorkerInput} {d d' : Draws} {w' : List Write} {m : Bool}
      {event : EventRow} {error : DbError} {attemptCount : ℕ} (hev : event ∈ s.events)
      (hclaim : event.claimable d.now = true)
      (heval : RetryPolicy.evaluate cfg event.attemptCount input.now input.random =
        .dlq attemptCount) :
      Change cfg (.processOne input)
        [⟨.claim, d, some event, []⟩,
          ⟨.markDlq event.id attemptCount (sanitizeError (Platform.errorMessage error)), d', m, w'⟩]
        (some (.processed (processed event .dlq (some .maxAttemptsExhausted) attemptCount none))) s
        (s.putEvent (event.dlq attemptCount (sanitizeError (Platform.errorMessage error)) d'))
  | unknown {s : Store} {id : ℕ} {d : Draws} :
      Change cfg (.replay id) [⟨.selectEvent id, d, none, []⟩] (some (.replayed none)) s s
  | replayed {s : Store} {d d' : Draws} {w w' : List Write} {event : EventRow}
      (hev : event ∈ s.events) (hdlq : event.processingStatus = .dlq) :
      Change cfg (.replay event.id)
        [⟨.selectEvent event.id, d, some event, w⟩,
          ⟨.replayEvent event.id, d', some event.replayed, w'⟩]
        (some (.replayed (some (.replayed event.id event.eventId .pending (event.replayCount + 1))))) s
        (s.putEvent event.replayed)
  | notInDlq {s : Store} {d : Draws} {w : List Write} {event : EventRow}
      (hev : event ∈ s.events) (hdlq : event.processingStatus ≠ .dlq) :
      Change cfg (.replay event.id) [⟨.selectEvent event.id, d, some event, w⟩]
        (some (.replayed (some (.notInDlq event.id event.eventId event.processingStatus)))) s s
  | reconciled {s s' : Store} {snapshot : ValidSnapshot} {d₁ d₂ d₃ : Draws} {w₁ w₂ w₃ : List Write}
      {t : Tally} {loop details : Log} {rows : List DetailRow} (hrun : s.run? d₂.runId = none)
      (hturns : Turns snapshot.orders Tally.empty loop t
        { s with runs := s.runs ++ [runningRun d₂] } s')
      (hdetails : DetailsLog d₂.runId t.details details)
      (hrows : List.Forall₂ (fun detail r => ∃ d, r = (detailValues d₂.runId detail).row d)
        t.details rows) :
      Change cfg (.reconcile snapshot)
        (⟨.advisoryLock, d₁, (), w₁⟩ :: ⟨.insertRun, d₂, runningRun d₂, w₂⟩ :: (loop ++ details ++
          [⟨.completeRun d₂.runId snapshot.orders.length (t.repaired + t.staleProviderSnapshots)
            t.repaired, d₃, some ((runningRun d₂).complete snapshot.orders.length
              (t.repaired + t.staleProviderSnapshots) t.repaired d₃), w₃⟩]))
        (some (.reconciled (runResult snapshot.orders (runningRun d₂) t
          ((runningRun d₂).complete snapshot.orders.length
            (t.repaired + t.staleProviderSnapshots) t.repaired d₃)))) s
        { s' with
          runs := Tables.replace RunRow.keys ((runningRun d₂).complete snapshot.orders.length
            (t.repaired + t.staleProviderSnapshots) t.repaired d₃) s'.runs
          details := s'.details ++ rows }

/-! ## Every log is one of the changes -/

section ChangeOfRedoes

variable {cfg : WorkerConfig} {s : Store}

theorem Change.of_install {c : Call} {log : Log} {x : Option Answer} {s' : Store}
    (h : install (E := postgres) s log = s') (hc : Change cfg c log x s s') :
    Change cfg c log x s (install (E := postgres) s log) := h ▸ hc

theorem change_ingest {req : WebhookRequest} {log : Log} {x : Option IngestionResult}
    (h : IngestLog req log x) (hr : Redoes (E := postgres) log s) :
    Change cfg (.ingest req) log (x.map .ingested) s (install (E := postgres) s log) := by
  obtain @⟨d, w, row⟩ := h
  obtain ⟨skip, hx⟩ := exec_of_valid hr.1 rfl
  obtain ⟨occurredAt, evt, w, htime, -, hu, rfl, -, rfl⟩ := upsertAndDeliver_ok.mp hx
  obtain ⟨-, ⟨hnew, -, rfl, rfl⟩ | ⟨old, hold, rfl, hfits, rfl⟩⟩ := upsert_ok.mp hu
  · refine .created hnew htime ?_
    by_cases hst : req.event.processingStatus = .ignored <;>
      simp [deliveryResult, EventInsertParams.row, hst]
  · refine .counted hold ?_ rfl
    simp only [EventRow.fits, int4Fits, Bool.and_eq_true, decide_eq_true_iff] at hfits
    omega

/-- A claim that found nothing has written nothing. -/
theorem claim_none_writes {d : Draws} {w : List Write}
    (h : Entry.Valid (E := postgres) ⟨.claim, d, none, w⟩ s) : w = [] := by
  rcases h with ⟨-, hw⟩ | ⟨skip, hx⟩
  · exact hw
  · replace hx : exec .claim d skip s = .ok (none, w) := hx
    simp only [exec, Except.ok.injEq, Prod.mk.injEq] at hx
    exact hx.2.symm

theorem change_applied (hs : s.Keyed) {input : WorkerInput} {d d₁ d₂ d₃ d₄ d₅ : Draws}
    {w w₁ w₂ w₃ w₄ w₅ : List Write} {isNew m₃ m₅ : Bool} {event : EventRow} {order : OrderRow}
    {target : MappedStatus} (hmap : mapEventToStatus event.eventType = some target)
    (hseq : order.lastSequence < event.sequence) {log : Log}
    (hlog : log = [⟨.claim, d, some event, w⟩, ⟨.insertOrder event.orderId, d₁, isNew, w₁⟩,
      ⟨.selectOrder event.orderId, d₂, some order, w₂⟩,
      ⟨.applyToOrder event.orderId target event.sequence
        (event.payload.data.bind PaymentWebhookData.amount)
        (event.payload.data.bind PaymentWebhookData.currency), d₃, m₃, w₃⟩,
      ⟨.insertHistory (historyValues event order.status target .applied none), d₄, (), w₄⟩,
      ⟨.markApplied event.id, d₅, m₅, w₅⟩])
    (hr : Redoes (E := postgres) log s) :
    Change cfg (.processOne input) log
      (some (.processed (processed event .applied none event.attemptCount none))) s
      (install (E := postgres) s log) := by
  subst hlog
  obtain ⟨hev, hclaim, rfl, hrest⟩ := redoes_claim hr
  obtain ⟨hopen, hrest, he⟩ := redoes_openOrder hs hrest
  have hput : ∀ o : OrderRow, o.id = order.id → (s.putOrder order).putOrder o = s.putOrder o :=
    fun o ho => Store.putOrder_putOrder hs ho
  have hfound : (s.putOrder order).order? event.orderId = some order := by
    rw [Store.order?_putOrder hs, if_pos hopen.id_eq.symm]
  obtain ⟨status, amount, rfl, hamount, rfl, hw₃⟩ := redoes_applyToOrder hfound hrest.1
  rw [hput _ (by rfl)] at hw₃
  obtain ⟨hrest, he₃⟩ := redoes_next hrest hw₃
  obtain ⟨st, hst, -, hw₄⟩ := redoes_insertHistory hrest.1
  obtain rfl : status = st := by simpa [historyValues] using hst
  obtain ⟨hrest, he₄⟩ := redoes_next hrest hw₄
  have hw₅ := redoes_markApplied (by exact hs.eventAt?_eq hev) hrest.1
  have hinstall := he.trans (he₃.trans (he₄.trans (redoes_next hrest hw₅).2))
  exact .of_install (by exact hinstall) (.applied hev hclaim hopen hmap hseq hamount)

theorem change_ignored (hs : s.Keyed) {input : WorkerInput} {d d₁ d₂ d₄ d₅ : Draws}
    {w w₁ w₂ w₄ w₅ : List Write} {isNew m₅ : Bool} {event : EventRow} {order : OrderRow}
    {reason : OutcomeReason}
    (hreason : (mapEventToStatus event.eventType = none ∧ reason = .unknownEventType) ∨
      ((mapEventToStatus event.eventType).isSome ∧ event.sequence ≤ order.lastSequence ∧
        reason = .staleSequence)) {log : Log}
    (hlog : log = [⟨.claim, d, some event, w⟩, ⟨.insertOrder event.orderId, d₁, isNew, w₁⟩,
      ⟨.selectOrder event.orderId, d₂, some order, w₂⟩,
      ⟨.insertHistory (historyValues event order.status (.known order.status) .ignored
        (some reason)), d₄, (), w₄⟩,
      ⟨.markIgnored event.id (some reason), d₅, m₅, w₅⟩])
    (hr : Redoes (E := postgres) log s) :
    Change cfg (.processOne input) log
      (some (.processed (processed event .ignored (some reason) event.attemptCount none))) s
      (install (E := postgres) s log) := by
  subst hlog
  obtain ⟨hev, hclaim, rfl, hrest⟩ := redoes_claim hr
  obtain ⟨hopen, hrest, he⟩ := redoes_openOrder hs hrest
  obtain ⟨st, hst, -, hw₄⟩ := redoes_insertHistory hrest.1
  obtain rfl : order.status = st := by simpa [historyValues] using hst
  obtain ⟨hrest, he₄⟩ := redoes_next hrest hw₄
  have hw₅ := redoes_markIgnored (by exact hs.eventAt?_eq hev) hrest.1
  have hinstall := he.trans (he₄.trans (redoes_next hrest hw₅).2)
  exact .of_install (by exact hinstall) (.ignored hev hclaim hopen hreason)

theorem change_worker (hs : s.Keyed) {input : WorkerInput} {log : Log} {x : Option ProcessOneResult}
    (h : WorkerLog cfg input log x) (hr : Redoes (E := postgres) log s) :
    Change cfg (.processOne input) log (x.map .processed) s (install (E := postgres) s log) := by
  cases h with
  | idle =>
    obtain rfl := claim_none_writes hr.1
    exact .idle
  | done hb =>
    cases hb with
    | @applied _ _ _ _ _ _ _ _ _ _ _ _ _ order h =>
      obtain ⟨target, hmap, hseq, hp⟩ := process_applied h
      generalize process _ order = r at hp hr ⊢
      subst hp
      exact change_applied hs hmap hseq rfl hr
    | @ignored _ _ _ _ _ _ _ _ _ _ order h =>
      obtain ⟨reason, hp, hreason⟩ := process_ignored h
      generalize process _ order = r at hp hr ⊢
      subst hp
      exact change_ignored hs hreason rfl hr
  | retried heval =>
    obtain ⟨hev, hclaim, rfl, hrest⟩ := redoes_claim hr
    have hw := redoes_markRetryScheduled (by exact hs.eventAt?_eq hev) hrest.1
    exact .of_install (by exact (redoes_next hrest hw).2) (.retried hev hclaim heval)
  | buried heval =>
    obtain ⟨hev, hclaim, rfl, hrest⟩ := redoes_claim hr
    have hw := redoes_markDlq (by exact hs.eventAt?_eq hev) hrest.1
    exact .of_install (by exact (redoes_next hrest hw).2) (.buried hev hclaim heval)

/-- Selecting an event. -/
theorem redoes_selectEvent {id : ℕ} {d : Draws} {w : List Write} {event : EventRow}
    (h : Entry.Valid (E := postgres) ⟨.selectEvent id, d, some event, w⟩ s) :
    event ∈ s.events ∧ event.id = id ∧ w = [] := by
  obtain ⟨skip, hx⟩ := exec_of_valid h rfl
  obtain ⟨he, rfl⟩ : s.eventAt? id = some event ∧ w = [] := by simpa [exec, eq_comm] using hx
  exact ⟨(Store.mem_of_eventAt? he).1, (Store.mem_of_eventAt? he).2, rfl⟩

/-- A select that found nothing has written nothing. -/
theorem selectEvent_none_writes {id : ℕ} {d : Draws} {w : List Write}
    (h : Entry.Valid (E := postgres) ⟨.selectEvent id, d, none, w⟩ s) : w = [] := by
  rcases h with ⟨-, hw⟩ | ⟨skip, hx⟩
  · exact hw
  · replace hx : exec (.selectEvent id) d skip s = .ok (none, w) := hx
    simp only [exec, Except.ok.injEq, Prod.mk.injEq] at hx
    exact hx.2.symm

theorem change_replay (hs : s.Keyed) {id : ℕ} {log : Log} {x : Option (Option ReplayResult)}
    (h : ReplayLog id log x) (hr : Redoes (E := postgres) log s) :
    Change cfg (.replay id) log (x.map .replayed) s (install (E := postgres) s log) := by
  cases h with
  | missing =>
    obtain rfl := selectEvent_none_writes hr.1
    exact .unknown
  | replayed h =>
    obtain ⟨hev, rfl, rfl⟩ := redoes_selectEvent hr.1
    obtain ⟨rfl, hw⟩ := redoes_replayEvent (by exact hs.eventAt?_eq hev) hr.2.1
    exact .of_install (by exact (redoes_next hr.2 hw).2) (.replayed hev h)
  | notInDlq h =>
    obtain ⟨hev, rfl, rfl⟩ := redoes_selectEvent hr.1
    exact .notInDlq hev h

/-- A turn of a reconciliation. -/
theorem turn_of_redoes (hs : s.Keyed) {o : ProviderOrder} {t t' : Tally} {log : Log}
    (h : TurnLog o t log t') (hr : Redoes (E := postgres) log s) :
    Turn o t log t' s (install (E := postgres) s log) := by
  cases h with
  | kept h =>
    obtain ⟨hopen, -, he⟩ := redoes_openOrder hs hr
    rw [he]
    exact .kept hopen h
  | @repaired d₁ d₂ d₃ d₄ w₁ w₂ w₃ w₄ isNew m₃ row h =>
    obtain ⟨hopen, hrest, he⟩ := redoes_openOrder hs hr
    have hfound : (s.putOrder row).order? o.id = some row := by
      rw [Store.order?_putOrder hs, if_pos hopen.id_eq.symm]
    obtain ⟨amount, hamount, rfl, hw₃⟩ := redoes_reconcileOrder hfound hrest.1
    rw [Store.putOrder_putOrder hs (by rfl)] at hw₃
    obtain ⟨hrest, he₃⟩ := redoes_next hrest hw₃
    obtain ⟨st, hst, -, hw₄⟩ := redoes_insertHistory hrest.1
    obtain rfl : o.status = st := by simpa [repairValues] using hst
    rw [he, he₃, (redoes_next hrest hw₄).2]
    exact .repaired hopen h hamount

/-- The loop of a reconciliation. -/
theorem turns_of_redoes {orders : List ProviderOrder} {t t' : Tally} {log : Log}
    (h : LoopLog orders t log t') (hs : s.Keyed) (hr : Redoes (E := postgres) log s) :
    Turns orders t log t' s (install (E := postgres) s log) := by
  induction h generalizing s with
  | nil t => exact .nil t s
  | cons hturn htail ih =>
    rw [redoes_append] at hr
    rw [install_append]
    exact .cons hs (turn_of_redoes hs hturn hr.1) (ih (locality.inv_install hs hr.1) hr.2)

/-- The loop that writes the details. -/
theorem redoes_details {runId : ℕ} {details : List ReconciliationDetail} {log : Log}
    (h : DetailsLog runId details log) (hr : Redoes (E := postgres) log s) :
    ∃ rows, List.Forall₂ (fun detail r => ∃ d, r = (detailValues runId detail).row d) details rows ∧
      install (E := postgres) s log = { s with details := s.details ++ rows } := by
  induction h generalizing s with
  | nil => exact ⟨[], .nil, by simp⟩
  | @cons detail details log d w htail ih =>
    obtain ⟨skip, hx⟩ := exec_of_valid hr.1 rfl
    simp only [exec] at hx
    obtain ⟨-, -, rfl⟩ := insertRow_ok.mp hx
    obtain ⟨rows, hrows, he⟩ := ih hr.2
    exact ⟨_ :: rows, .cons ⟨d, rfl⟩ hrows, by
      rw [install_cons]
      refine he.trans ?_
      simp [Entry.install, Store.apply]⟩

/-- The loop has executed the statements of a loop. -/
theorem Turns.loopLog {orders : List ProviderOrder} {t t' : Tally} {log : Log} {s s' : Store}
    (h : Turns orders t log t' s s') : LoopLog orders t log t' := by
  induction h with
  | nil => exact .nil _
  | cons hs hturn htail ih =>
    cases hturn with
    | kept hopen hclass => exact .cons (.kept hclass) ih
    | repaired hopen hclass hamount => exact .cons (.repaired hclass) ih

/-- A turn of a reconciliation leaves the runs alone. -/
theorem Turn.runs_eq {o : ProviderOrder} {t t' : Tally} {log : Log} {s s' : Store}
    (h : Turn o t log t' s s') : s'.runs = s.runs := by
  cases h <;> rfl

/-- The loop of a reconciliation leaves the runs alone. -/
theorem Turns.runs_eq {orders : List ProviderOrder} {t t' : Tally} {log : Log} {s s' : Store}
    (h : Turns orders t log t' s s') : s'.runs = s.runs := by
  induction h with
  | nil => rfl
  | cons hs hturn htail ih => rw [ih, hturn.runs_eq]

/-- A turn of a reconciliation leaves the events and the deliveries alone. -/
theorem Turn.inbox_eq {o : ProviderOrder} {t t' : Tally} {log : Log} {s s' : Store}
    (h : Turn o t log t' s s') : s'.events = s.events ∧ s'.deliveries = s.deliveries := by
  cases h <;> exact ⟨rfl, rfl⟩

/-- The loop of a reconciliation leaves the events and the deliveries alone. -/
theorem Turns.inbox_eq {orders : List ProviderOrder} {t t' : Tally} {log : Log} {s s' : Store}
    (h : Turns orders t log t' s s') : s'.events = s.events ∧ s'.deliveries = s.deliveries := by
  induction h with
  | nil => exact ⟨rfl, rfl⟩
  | cons hs hturn htail ih =>
    obtain ⟨he, hd⟩ := hturn.inbox_eq
    rw [ih.1, ih.2, he, hd]
    exact ⟨rfl, rfl⟩

/-- The loop of a reconciliation leaves the details alone. -/
theorem Turns.details_eq {orders : List ProviderOrder} {t t' : Tally} {log : Log} {s s' : Store}
    (h : Turns orders t log t' s s') : s'.details = s.details := by
  induction h with
  | nil => rfl
  | cons hs hturn htail ih =>
    rw [ih]
    cases hturn <;> rfl

/-- The lock of a reconciliation, and its run. -/
theorem redoes_opening (hs : s.Keyed) {d₁ d₂ : Draws} {w₁ w₂ : List Write} {run : RunRow} {log : Log}
    (hr : Redoes (E := postgres) (⟨.advisoryLock, d₁, (), w₁⟩ :: ⟨.insertRun, d₂, run, w₂⟩ :: log) s) :
    run = runningRun d₂ ∧ s.run? d₂.runId = none ∧
      ({ s with runs := s.runs ++ [runningRun d₂] } : Store).Keyed ∧
      Redoes (E := postgres) log ({ s with runs := s.runs ++ [runningRun d₂] } : Store) ∧
      install (E := postgres) s
        (⟨.advisoryLock, d₁, (), w₁⟩ :: ⟨.insertRun, d₂, run, w₂⟩ :: log) =
      install (E := postgres) ({ s with runs := s.runs ++ [runningRun d₂] } : Store) log := by
  obtain ⟨skip₁, hx₁⟩ := exec_of_valid hr.1 rfl
  obtain rfl : w₁ = [] := by simpa [exec, eq_comm] using hx₁
  replace hr : Redoes (E := postgres) (_ :: _) s := hr.2
  obtain ⟨skip₂, hx₂⟩ := exec_of_valid hr.1 rfl
  simp only [exec] at hx₂
  obtain ⟨hi, rfl, rfl⟩ := insertRow_ok.mp hx₂
  have hfree := (insertable_ok.mp hi).2.1
  have hrun : s.run? d₂.runId = none := by
    simpa [Store.look] using hfree (.run d₂.runId) (by simp [Row.keys, RunRow.keys, runningRun])
  obtain ⟨hrest, he⟩ := redoes_next hr
    (show _ = ({ s with runs := s.runs ++ [runningRun d₂] } : Store) from rfl)
  exact ⟨rfl, hrun, hs.insert (r := .run (runningRun d₂)) hfree, hrest, he⟩

omit [Platform] in
/-- The run of a reconciliation is found again, as long as the runs are left alone. -/
theorem run?_opening {s' : Store} {d : Draws} (h : s.run? d.runId = none)
    (hruns : s'.runs = s.runs ++ [runningRun d]) : s'.run? d.runId = some (runningRun d) := by
  have hnone : ∀ k ∈ (runningRun d).keys, Tables.find RunRow.keys k s.runs = none := by
    simpa [RunRow.keys, runningRun, Store.run?] using h
  show Tables.find RunRow.keys (.run d.runId) s'.runs = _
  rw [hruns, Tables.find_append (.run d.runId) hnone]
  simp [RunRow.keys, runningRun]

theorem change_reconcile (hs : s.Keyed) {snapshot : ValidSnapshot} {log : Log}
    {x : Option ReconciliationRunResult} (h : ReconciliationLog snapshot.orders log x)
    (hr : Redoes (E := postgres) log s) :
    Change cfg (.reconcile snapshot) log (x.map .reconciled) s (install (E := postgres) s log) := by
  obtain @⟨d₁, d₂, d₃, w₁, w₂, w₃, run, finished, t, loop, details, hloop, hdetails⟩ := h
  obtain ⟨rfl, hrun, hs₁, hrest, he⟩ := redoes_opening hs hr
  rw [redoes_append, redoes_append] at hrest
  rw [install_append, install_append] at he
  obtain ⟨⟨hloop', hdetails'⟩, hlast⟩ := hrest
  have hturns := turns_of_redoes hloop hs₁ hloop'
  obtain ⟨rows, hrows, he'⟩ := redoes_details hdetails hdetails'
  rw [install_append, he'] at hlast
  rw [he'] at he
  obtain ⟨skip₃, hx₃⟩ := exec_of_valid hlast.1 rfl
  simp only [exec] at hx₃
  have hfound : ({ install (E := postgres) { s with runs := s.runs ++ [runningRun d₂] } loop with
      details := s.details ++ rows } : Store).run? d₂.runId = some (runningRun d₂) :=
    run?_opening hrun hturns.runs_eq
  obtain ⟨hno, -, -⟩ | ⟨r, hr', -, rfl, rfl⟩ := updateRow_ok.mp hx₃
  · exact absurd (hfound.symm.trans hno) (by simp)
  · obtain rfl : runningRun d₂ = r := Option.some.inj (hfound.symm.trans hr')
    exact .of_install (by exact he) (.reconciled hrun hturns hdetails hrows)

/-- **Every log changes the store in one of these ways.** -/
theorem change_of_redoes (hs : s.Keyed) {c : Call} {log : Log} {x : Option Answer}
    (h : CommitLog cfg c log x) (hr : Redoes (E := postgres) log s) :
    Change cfg c log x s (install (E := postgres) s log) := by
  cases h with
  | ingest h => exact change_ingest h hr
  | processOne h => exact change_worker hs h hr
  | replay h => exact change_replay hs h hr
  | reconcile h => exact change_reconcile hs h hr

end ChangeOfRedoes

/-- **What one step changes**: nothing, or what an open transaction that is committed changes. -/
theorem Reach.step_change {cfg : WorkerConfig} {db₀ : Store} {w w' : State} (h₀ : db₀.Keyed)
    (h : Reach cfg db₀ w) (hstep : Step (program cfg) w w') :
    (w'.db = w.db ∧ w'.journal = w.journal) ∨
    ∃ i s t x, w.sessions i = some s ∧ s.conn.tx = some t ∧ Change cfg s.call t.log x w.db w'.db ∧
      w'.journal = w.journal ++ [(i, t.log)] := by
  refine (h.step_commits_open h₀ hstep).imp_right ?_
  rintro ⟨i, s, t, x, hs, ht, hlog, hredo, hdb, hjournal⟩
  refine ⟨i, s, t, x, hs, ht, ?_, hjournal⟩
  rw [hdb]
  exact change_of_redoes (h.coherent h₀).inv hlog hredo

/-- Induction over the changes of a run, between stores whose rows have their keys for themselves. -/
theorem Reach.keyed_changes_induction {cfg : WorkerConfig} {db₀ : Store} {w : State}
    {P : List (ℕ × Log) → Store → Prop} (h₀ : db₀.Keyed) (hnil : P [] db₀)
    (hchange : ∀ journal s s' i c log x, Called w i c → s.Keyed → s'.Keyed → P journal s →
      Change cfg c log x s s' → P (journal ++ [(i, log)]) s')
    (h : Reach cfg db₀ w) : P w.journal w.db :=
  Reach.commits_induction h₀ hnil (fun journal db i c log x hcall hs hP hlog hredo =>
    hchange journal db _ i c log x hcall hs (locality.inv_install hs hredo) hP
      (change_of_redoes hs hlog hredo)) h

/-- **Induction over the changes of a run.** -/
theorem Reach.changes_induction {cfg : WorkerConfig} {db₀ : Store} {w : State}
    {P : List (ℕ × Log) → Store → Prop} (h₀ : db₀.Keyed) (hnil : P [] db₀)
    (hchange : ∀ journal s s' i c log x, Called w i c → s.Keyed → P journal s →
      Change cfg c log x s s' → P (journal ++ [(i, log)]) s')
    (h : Reach cfg db₀ w) : P w.journal w.db :=
  h.keyed_changes_induction h₀ hnil fun journal s s' i c log x hcall hs _ =>
    hchange journal s s' i c log x hcall hs

/-- **Induction over the changes since a state of the run.** -/
theorem Reach.since_induction {cfg : WorkerConfig} {db₀ : Store} {w w' : State}
    {P : List (ℕ × Log) → Store → Prop} (h₀ : db₀.Keyed) (h : Reach cfg db₀ w)
    (hrun : Reachable (program cfg) w w') (hnil : P [] w.db)
    (hchange : ∀ (since : List (ℕ × Log)) (w₁ w₂ : State) i c log x, Reach cfg db₀ w₁ → Reach cfg db₀ w₂ →
      Called w' i c → P since w₁.db → Change cfg c log x w₁.db w₂.db → P (since ++ [(i, log)]) w₂.db) :
    ∃ since, w'.journal = w.journal ++ since ∧ P since w'.db := by
  obtain ⟨env₀, hstart⟩ := h
  induction hrun with
  | refl => exact ⟨[], (List.append_nil _).symm, hnil⟩
  | @step w₁ w₂ hrun hstep ih =>
    have hreach : Reach cfg db₀ w₁ := ⟨env₀, hstart.trans hrun⟩
    obtain ⟨since, hjournal, hP⟩ := ih fun since w₁ w₂ i c log x h₁ h₂ hcall =>
      hchange since w₁ w₂ i c log x h₁ h₂ (hcall.step hstep)
    rcases hreach.step_change h₀ hstep with ⟨hdb, hsame⟩ | ⟨i, s, t, x, hs, -, hc, hnew⟩
    · exact ⟨since, hsame.trans hjournal, by rwa [hdb]⟩
    · refine ⟨since ++ [(i, t.log)], by rw [hnew, hjournal, List.append_assoc], ?_⟩
      have hcalled : Called w₁ i s.call := ⟨s, hs, rfl⟩
      exact hchange since w₁ w₂ i s.call t.log x hreach (hreach.step hstep) (hcalled.step hstep) hP hc

end PaymentWebhook
