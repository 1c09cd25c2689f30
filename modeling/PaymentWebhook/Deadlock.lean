import PaymentWebhook.Changes
import PaymentWebhook.Identities
import PaymentWebhook.Requests
import PaymentWebhook.Consumption
import PaymentWebhook.Transactions.Waiting

set_option relaxedAutoImplicit false
set_option autoImplicit false

/-!
# Freedom from deadlock

A worker locks an event and then one order; a reconciliation locks many orders, in the order of its
snapshot.  No cycle of waiting sessions can arise, because a session that waits for an order holds
no order, unless it is the reconciliation, of which the advisory lock admits one at a time.

## Main definitions

* `PaymentWebhook.Stmt.Wants` — the locks a statement may take.
* `PaymentWebhook.Stance` — what a session that is about to execute a statement holds, and what it
  may wait for.

## Main results

* `PaymentWebhook.Reach.stance` — every pending statement of a reachable world is in one of the
  four stances.
* `PaymentWebhook.deadlock_freedom` — the wait-for graph has no cycle.
-/

namespace PaymentWebhook

open Transactions

/-! ## The locks a statement may take -/

/-- The key is one of an event row. -/
def Key.IsEvent : Key → Prop
  | .event _ => True
  | .eventPk _ => True
  | _ => False

/-- The keys of the event row with an `id`. -/
def Store.EventKey (s : Store) (id : ℕ) (k : Key) : Prop :=
  k = .eventPk id ∨ ∃ e, s.eventAt? id = some e ∧ k = .event e.eventId

/-- **The locks a statement may take.** -/
def Stmt.Wants (d : Draws) (s : Store) (k : Key) : Stmt → Prop
  | .upsertAndDeliver _ _ => True
  | .claim => k.IsEvent
  | .insertOrder id => k = .order id
  | .selectOrder id => k = .order id
  | .applyToOrder id _ _ _ _ => k = .order id
  | .insertHistory v =>
    k = .order v.orderId ∨ k = .history d.historyId ∨ ∃ e, v.eventId = some e ∧ k = .historyEvent e
  | .markApplied id => s.EventKey id k
  | .markIgnored id _ => s.EventKey id k
  | .markDlq id _ _ => s.EventKey id k
  | .markRetryScheduled id _ _ _ => s.EventKey id k
  | .selectEvent _ => k.IsEvent
  | .replayEvent id => s.EventKey id k
  | .advisoryLock => k = .advisory ADVISORY_LOCK_KEY
  | .insertRun => k = .run d.runId
  | .reconcileOrder id _ _ _ _ => k = .order id
  | .insertDetail v => k = .run v.runId ∨ k = .detail d.detailId
  | .completeRun id _ _ _ => k = .run id

section Keys

variable {s : Store} {k : Key} {ws : List Write}

theorem EventRow.isEvent_of_keys {e : EventRow} (h : k ∈ e.keys) : k.IsEvent := by
  simp only [EventRow.keys, List.mem_cons, List.not_mem_nil, or_false] at h
  rcases h with rfl | rfl <;> trivial

/-- The keys that an update of an event writes. -/
theorem eventKey_of_update {α : Type} {f : EventRow → EventRow} {found : EventRow → α} {missing x : α}
    {id : ℕ} (h : updateRow .event f found missing (s.eventAt? id) = .ok (x, ws))
    (hk : k ∈ ws.flatMap fun w => w.row.keys) (hf : ∀ e, (f e).keys = e.keys) : s.EventKey id k := by
  obtain ⟨-, -, rfl⟩ | ⟨e, he, -, -, rfl⟩ := updateRow_ok.mp h
  · cases hk
  · have hkey : k ∈ (f e).keys := by simpa [Write.row, Row.keys] using hk
    rw [hf] at hkey
    simp only [EventRow.keys, List.mem_cons, List.not_mem_nil, or_false] at hkey
    rcases hkey with rfl | rfl
    · exact .inr ⟨e, he, rfl⟩
    · exact .inl (by rw [(Store.mem_of_eventAt? he).2])

/-- The keys that an update of an order writes. -/
theorem orderKey_of_update {α : Type} {f : OrderRow → OrderRow} {found : OrderRow → α} {missing x : α}
    {id : String} (h : updateRow .order f found missing (s.order? id) = .ok (x, ws))
    (hk : k ∈ ws.flatMap fun w => w.row.keys) (hf : ∀ o, (f o).id = o.id) : k = .order id := by
  obtain ⟨-, -, rfl⟩ | ⟨o, ho, -, -, rfl⟩ := updateRow_ok.mp h
  · cases hk
  · simpa [Write.row, Row.keys, OrderRow.keys, hf, (Store.mem_of_order? ho).2] using hk

/-- The keys that an insertion writes. -/
theorem key_of_insert {α : Type} {r : Row} {a x : α} (h : s.insertRow r a = .ok (x, ws))
    (hk : k ∈ ws.flatMap fun w => w.row.keys) : k ∈ r.keys := by
  obtain ⟨-, -, rfl⟩ := insertRow_ok.mp h
  simpa [Write.row] using hk

variable [Platform] {d : Draws} {skip : Key → Bool}

/-- **A statement takes no other locks.** -/
theorem exec_wants {q : Stmt} {rows : q.Rows} (h : exec q d skip s = .ok (rows, ws))
    (hk : k ∈ q.locks rows ++ ws.flatMap fun w => w.row.keys) : q.Wants d s k := by
  rw [List.mem_append] at hk
  cases q with
  | upsertAndDeliver p b => trivial
  | claim =>
    obtain ⟨-, rfl⟩ : _ ∧ ws = [] := by simpa [exec, eq_comm] using h
    cases rows with
    | none => simp [Stmt.locks] at hk
    | some e => exact EventRow.isEvent_of_keys (by simpa [Stmt.locks, Stmt.Wants] using hk)
  | insertOrder id =>
    replace hk := hk.resolve_left (by simp [Stmt.locks])
    simp only [exec] at h
    split at h
    · cases h
    · split at h
      · obtain ⟨-, rfl⟩ : _ ∧ ws = [] := by simpa [eq_comm] using h
        cases hk
      · simpa [Row.keys, OrderRow.keys, defaultOrder, Stmt.Wants] using key_of_insert h hk
  | selectOrder id =>
    obtain ⟨-, rfl⟩ : _ ∧ ws = [] := by simpa [exec, eq_comm] using h
    cases rows with
    | none => simp [Stmt.locks] at hk
    | some o => simpa [Stmt.locks, Stmt.Wants] using hk
  | applyToOrder id status seq amount currency =>
    rcases hk with hk | hk
    · simpa [Stmt.locks, Stmt.Wants] using hk
    · simp only [exec] at h
      split at h
      · exact orderKey_of_update h hk fun _ => rfl
      · cases h
  | insertHistory v =>
    rcases hk with hk | hk
    · exact .inl (by simpa [Stmt.locks, Stmt.Wants] using hk)
    · simp only [exec] at h
      split at h
      · have hkey := key_of_insert h hk
        simp only [Row.keys, HistoryRow.keys, HistoryValues.row, List.mem_cons, List.mem_map,
          Option.mem_toList] at hkey
        rcases hkey with rfl | ⟨e, he, rfl⟩
        · exact .inr (.inl rfl)
        · exact .inr (.inr ⟨e, he, rfl⟩)
      · cases h
  | markApplied id =>
    rcases hk with hk | hk
    · exact .inl (by simpa [Stmt.locks, Stmt.Wants] using hk)
    · simp only [exec] at h
      exact eventKey_of_update h hk fun _ => rfl
  | markIgnored id reason =>
    rcases hk with hk | hk
    · exact .inl (by simpa [Stmt.locks, Stmt.Wants] using hk)
    · simp only [exec] at h
      exact eventKey_of_update h hk fun _ => rfl
  | markDlq id n error =>
    rcases hk with hk | hk
    · exact .inl (by simpa [Stmt.locks, Stmt.Wants] using hk)
    · simp only [exec] at h
      exact eventKey_of_update h hk fun _ => rfl
  | markRetryScheduled id n next error =>
    rcases hk with hk | hk
    · exact .inl (by simpa [Stmt.locks, Stmt.Wants] using hk)
    · simp only [exec] at h
      exact eventKey_of_update h hk fun _ => rfl
  | selectEvent id =>
    obtain ⟨-, rfl⟩ : _ ∧ ws = [] := by simpa [exec, eq_comm] using h
    cases rows with
    | none => simp [Stmt.locks] at hk
    | some e => exact EventRow.isEvent_of_keys (by simpa [Stmt.locks, Stmt.Wants] using hk)
  | replayEvent id =>
    rcases hk with hk | hk
    · exact .inl (by simpa [Stmt.locks, Stmt.Wants] using hk)
    · exact eventKey_of_update h hk fun _ => rfl
  | advisoryLock =>
    obtain rfl : ws = [] := by simpa [exec, eq_comm] using h
    simpa [Stmt.locks, Stmt.Wants] using hk
  | insertRun =>
    replace hk := hk.resolve_left (by simp [Stmt.locks])
    simpa [Row.keys, RunRow.keys, runningRun, Stmt.Wants] using key_of_insert h hk
  | reconcileOrder id status seq amount currency =>
    rcases hk with hk | hk
    · simpa [Stmt.locks, Stmt.Wants] using hk
    · simp only [exec] at h
      split at h
      · exact orderKey_of_update h hk fun _ => rfl
      · cases h
  | insertDetail v =>
    rcases hk with hk | hk
    · exact .inl (by simpa [Stmt.locks, Stmt.Wants] using hk)
    · exact .inr (by simpa [Row.keys, DetailRow.keys, DetailValues.row] using key_of_insert h hk)
  | completeRun id checked divergences repaired =>
    rcases hk with hk | hk
    · simpa [Stmt.locks, Stmt.Wants] using hk
    · obtain ⟨-, -, rfl⟩ | ⟨r, hr, -, -, rfl⟩ := updateRow_ok.mp h
      · cases hk
      · simpa [Write.row, Row.keys, RunRow.keys, RunRow.complete, (Store.mem_of_run? hr).2, Stmt.Wants] using hk

end Keys

/-! ## Stances -/

section Stances

variable [Platform] {db : Store} {log : Log} {q : Stmt} {k : Key}

/-- The locks that a log holds. -/
def locksOf (log : Log) : List Key := log.flatMap Entry.keys

/-- **What a session that is about to execute a statement holds, and what it may wait for.**

* It holds nothing.
* It is a worker that holds an event, and may wait for an order.
* It is a reconciliation; it may wait for orders, and never for an event.
* It waits for nothing but what only its own event, or nobody yet, can have. -/
inductive Stance (db : Store) (log : Log) (q : Stmt) : Prop where
  | bare (held : locksOf log = [])
  | worker (held : ∀ k ∈ locksOf log, k.IsEvent)
      (wants : ∀ d k, q.Wants d (install (E := postgres) db log) k → ∃ id, k = .order id)
  | reconciliation (held : .advisory ADVISORY_LOCK_KEY ∈ locksOf log)
      (wants : ∀ d k, q.Wants d (install (E := postgres) db log) k → ¬ k.IsEvent)
  | settled (wants : ∀ d k, q.Wants d (install (E := postgres) db log) k → k ∈ locksOf log ∨
      k = .history d.historyId ∨ ∃ e, k = .historyEvent e ∧ .event e ∈ locksOf log)

/-- Whoever has written the history of an event holds the event. -/
def Guarded (log : Log) : Prop :=
  ∀ eventId, .historyEvent eventId ∈ locksOf log → .event eventId ∈ locksOf log

theorem locksOf_append (log log' : Log) : locksOf (log ++ log') = locksOf log ++ locksOf log' :=
  List.flatMap_append

@[simp] theorem locksOf_cons (e : Entry postgres) (log : Log) :
    locksOf (e :: log) = Entry.keys e ++ locksOf log := rfl

@[simp] theorem locksOf_nil : locksOf [] = [] := rfl

/-- A statement that can be executed has locked only what it may, unless it has found nothing. -/
theorem keys_of_valid {e : Entry postgres} {s : Store} (h : e.Valid s) (hk : k ∈ Entry.keys e) :
    e.stmt.Wants e.draws s k := by
  obtain ⟨q, d, rows, ws⟩ := e
  rcases h with ⟨hm, hw⟩ | ⟨skip, hx⟩
  · replace hw : ws = [] := hw
    subst hw
    replace hk : k ∈ q.locks rows ++ [] := hk
    replace hm : q.misses rows = true := hm
    cases q <;> cases rows <;> simp_all [Stmt.misses, Stmt.locks]
  · exact exec_wants hx hk

/-- Every statement of a log that can be redone has locked only what it may, or found nothing. -/
theorem wants_of_locksOf {s : Store} (h : Redoes (E := postgres) log s) (hk : k ∈ locksOf log) :
    ∃ e ∈ log, ∃ s, e.stmt.Wants e.draws s k := by
  induction log generalizing s with
  | nil => cases hk
  | cons e log ih =>
    rcases List.mem_append.mp (locksOf_cons e log ▸ hk) with hk | hk
    · exact ⟨e, by simp, s, keys_of_valid h.1 hk⟩
    · obtain ⟨e', he', hwants⟩ := ih h.2 hk
      exact ⟨e', by simp [he'], hwants⟩

/-- A log whose statements write history of events only under the lock of the event is guarded. -/
theorem Guarded.of_stmts {s : Store} (h : Redoes (E := postgres) log s)
    (hlog : ∀ e ∈ log, ∀ d s eventId, e.stmt.Wants d s (.historyEvent eventId) →
      .event eventId ∈ locksOf log) : Guarded log := fun eventId hk =>
  let ⟨e, he, _, hwants⟩ := wants_of_locksOf h hk
  hlog e he _ _ eventId hwants

/-- Statements on other rows keep the event row with an `id`. -/
theorem eventAt?_install {id : ℕ} (hs : db.Keyed) (h : Redoes (E := postgres) log db)
    (hlog : ∀ e ∈ log, ∀ d s, ¬ e.stmt.Wants d s (.eventPk id)) :
    (install (E := postgres) db log : Store).eventAt? id = db.eventAt? id := by
  have hkeys : ∀ e ∈ log, ∀ k ∈ Entry.keys e, ¬ k = .eventPk id := by
    induction log generalizing db with
    | nil => simp
    | cons e log ih =>
      intro e' he' k hk hkey
      subst hkey
      rcases List.mem_cons.mp he' with rfl | he'
      · exact hlog e' (.head _) _ _ (keys_of_valid h.1 hk)
      · exact ih (locality.inv_entry hs h.1) h.2 (fun e he => hlog e (.tail _ he)) e' he' _ hk rfl
  exact (eventAt?_congr (locality.agree_install (K := (· = Key.eventPk id)) hs hkeys h _ rfl)).symm

variable {d d₁ d₂ : Draws} {event : EventRow} {order : OrderRow} {isNew : Bool}
  {w w₁ w₂ : List Write}

/-- A claim locks the event. -/
theorem event_mem_locksOf_claim (log : Log) : ∀ k ∈ event.keys,
    k ∈ locksOf (⟨.claim, d, some event, w⟩ :: log) := fun _ hk =>
  List.mem_append.mpr (.inl (List.mem_append.mpr (.inl hk)))

/-- A claim alone holds an event, and no history. -/
theorem held_claim (h : Redoes (E := postgres) [⟨.claim, d, some event, w⟩] db) :
    ∀ k ∈ locksOf [⟨.claim, d, some event, w⟩], k.IsEvent := by
  intro k hk
  obtain ⟨e, he, s, hwants⟩ := wants_of_locksOf h hk
  rw [List.mem_singleton.mp he] at hwants
  exact hwants

/-- A session that holds events only is guarded. -/
theorem Guarded.of_events (h : ∀ k ∈ locksOf log, k.IsEvent) : Guarded log := fun _ hk =>
  absurd (h _ hk) (by simp [Key.IsEvent])

/-- The keys of an event that is claimed, as long as its row is what was claimed. -/
theorem eventKey_of_claimed {s : Store} (he : s.eventAt? event.id = some event) {log : Log}
    (hlog : ∀ k ∈ event.keys, k ∈ locksOf log) (hk : s.EventKey event.id k) : k ∈ locksOf log := by
  rcases hk with rfl | ⟨e, he', rfl⟩
  · exact hlog _ (by simp [EventRow.keys])
  · obtain rfl : event = e := Option.some.inj (he.symm.trans he')
    exact hlog _ (by simp [EventRow.keys])

/-- **The stance of a worker.** -/
theorem WorkerAsks.stance (h : WorkerAsks log q) (hs : db.Keyed)
    (hr : Redoes (E := postgres) log db) : Guarded log ∧ Stance db log q := by
  cases h with
  | claim => exact ⟨nofun, .bare rfl⟩
  | insertOrder =>
    have held := held_claim hr
    exact ⟨.of_events held, .worker held fun _ _ hk => ⟨_, hk⟩⟩
  | @selectOrder d d₁ event isNew w w₁ =>
    have hguarded : Guarded [⟨.claim, d, some event, w⟩, ⟨.insertOrder event.orderId, d₁, isNew, w₁⟩] := by
      refine .of_stmts hr fun e he d s eventId hwants => ?_
      simp only [List.mem_cons, List.not_mem_nil, or_false] at he
      rcases he with rfl | rfl
      · exact hwants.elim
      · cases hwants
    refine ⟨hguarded, ?_⟩
    -- an order that was inserted is locked already
    by_cases horder : .order event.orderId ∈
      locksOf [⟨.claim, d, some event, w⟩, ⟨.insertOrder event.orderId, d₁, isNew, w₁⟩]
    · exact .settled fun _ k hk => .inl (hk ▸ horder)
    · refine .worker (fun k hk => ?_) fun _ _ hk => ⟨_, hk⟩
      obtain ⟨e, he, s, hwants⟩ := wants_of_locksOf hr hk
      simp only [List.mem_cons, List.not_mem_nil, or_false] at he
      rcases he with rfl | rfl
      · exact hwants
      · exact absurd (hwants ▸ hk) horder
  | @finish d d₁ d₂ event order isNew w w₁ w₂ _ log hlog hq =>
    obtain ⟨hev, -, rfl, hr'⟩ := redoes_claim hr
    have hevent : ∀ k ∈ event.keys, k ∈ locksOf (⟨.claim, d, some event, []⟩ ::
        ⟨.insertOrder event.orderId, d₁, isNew, w₁⟩ ::
        ⟨.selectOrder event.orderId, d₂, some order, w₂⟩ :: log) := event_mem_locksOf_claim _
    have horder : .order event.orderId ∈ locksOf (⟨.claim, d, some event, []⟩ ::
        ⟨.insertOrder event.orderId, d₁, isNew, w₁⟩ ::
        ⟨.selectOrder event.orderId, d₂, some order, w₂⟩ :: log) := by
      simp [Entry.keys, Stmt.locks]
    have hprojects : ∀ {q : Stmt}, Projects event q → ∀ d s k, q.Wants d s k →
        k = .order event.orderId ∨ k = .history d.historyId ∨ k = .historyEvent event.eventId := by
      rintro q (_ | _) d s k hwants
      · exact .inl hwants
      · rcases hwants with rfl | rfl | ⟨e, he, rfl⟩
        · exact .inl rfl
        · exact .inr (.inl rfl)
        · exact .inr (.inr (by rw [Option.some.inj he]))
    have hguarded : Guarded (⟨.claim, d, some event, []⟩ ::
        ⟨.insertOrder event.orderId, d₁, isNew, w₁⟩ ::
        ⟨.selectOrder event.orderId, d₂, some order, w₂⟩ :: log) := by
      refine .of_stmts hr fun e he d s eventId hwants => ?_
      simp only [List.mem_cons] at he
      rcases he with rfl | rfl | rfl | he
      · exact hwants.elim
      · cases hwants
      · cases hwants
      · rcases hprojects (hlog e he) _ _ _ hwants with h | h | h
        · cases h
        · cases h
        · obtain rfl := Key.historyEvent.inj h
          exact hevent _ (by simp [EventRow.keys])
    refine ⟨hguarded, .settled fun d' k hk => ?_⟩
    have hmark : Store.EventKey (install (E := postgres) db (⟨.claim, d, some event, []⟩ ::
        ⟨.insertOrder event.orderId, d₁, isNew, w₁⟩ ::
        ⟨.selectOrder event.orderId, d₂, some order, w₂⟩ :: log)) event.id k →
        k ∈ locksOf (⟨.claim, d, some event, []⟩ :: ⟨.insertOrder event.orderId, d₁, isNew, w₁⟩ ::
          ⟨.selectOrder event.orderId, d₂, some order, w₂⟩ :: log) := by
      refine eventKey_of_claimed ?_ hevent
      show Store.eventAt? (install (E := postgres) db (⟨.insertOrder event.orderId, d₁, isNew, w₁⟩ ::
        ⟨.selectOrder event.orderId, d₂, some order, w₂⟩ :: log)) event.id = some event
      refine (eventAt?_install hs hr' fun e he d s hwants => ?_).trans (hs.eventAt?_eq hev)
      simp only [List.mem_cons] at he
      rcases he with rfl | rfl | he
      · cases hwants
      · cases hwants
      · rcases hprojects (hlog e he) _ _ _ hwants with h | h | h <;> cases h
    cases hq with
    | projects hq =>
      rcases hprojects hq _ _ _ hk with rfl | rfl | rfl
      · exact .inl horder
      · exact .inr (.inl rfl)
      · exact .inr (.inr ⟨_, rfl, hevent _ (by simp [EventRow.keys])⟩)
    | markApplied => exact .inl (hmark hk)
    | markIgnored reason => exact .inl (hmark hk)
  | @put d event w _ hq =>
    have held := held_claim hr
    obtain ⟨hev, -, rfl, -⟩ := redoes_claim hr
    refine ⟨.of_events held, .settled fun _ k hk => .inl ?_⟩
    refine eventKey_of_claimed (hs.eventAt?_eq hev) (event_mem_locksOf_claim []) ?_
    cases hq <;> exact hk

/-- **The stance of a replay.** -/
theorem ReplayAsks.stance {id : ℕ} (h : ReplayAsks id log q) (hs : db.Keyed)
    (hr : Redoes (E := postgres) log db) : Guarded log ∧ Stance db log q := by
  cases h with
  | selectEvent => exact ⟨nofun, .bare rfl⟩
  | @replayEvent d event w =>
    obtain ⟨hev, rfl, rfl⟩ := redoes_selectEvent hr.1
    have held : ∀ k ∈ locksOf [⟨.selectEvent event.id, d, some event, []⟩], k ∈ event.keys := by
      simp [Entry.keys, Stmt.locks]
    refine ⟨.of_events fun k hk => EventRow.isEvent_of_keys (held k hk),
      .settled fun _ k hk => .inl ?_⟩
    refine eventKey_of_claimed (hs.eventAt?_eq hev) (fun k hk => ?_) hk
    exact List.mem_append.mpr (.inl (List.mem_append.mpr (.inl hk)))

/-- The statements of a reconciliation. -/
inductive Reconciling : Stmt → Prop where
  | advisoryLock : Reconciling .advisoryLock
  | insertRun : Reconciling .insertRun
  | insertOrder (id : String) : Reconciling (.insertOrder id)
  | selectOrder (id : String) : Reconciling (.selectOrder id)
  | reconcileOrder (id : String) (status : OrderStatus) (sequence : ℤ)
      (amount currency : Option String) :
      Reconciling (.reconcileOrder id status sequence amount currency)
  | insertHistory (o : ProviderOrder) (previous : Option OrderStatus) :
      Reconciling (.insertHistory (repairValues o previous))
  | insertDetail (v : DetailValues) : Reconciling (.insertDetail v)
  | completeRun (id ordersChecked divergences repaired : ℕ) :
      Reconciling (.completeRun id ordersChecked divergences repaired)

omit [Platform] in
/-- A reconciliation takes no lock of an event, nor of its history. -/
theorem Reconciling.wants (h : Reconciling q) {s : Store} (hk : q.Wants d s k) :
    ¬ k.IsEvent ∧ ∀ eventId, k ≠ .historyEvent eventId := by
  cases h with
  | insertHistory o previous =>
    rcases hk with rfl | rfl | ⟨e, he, rfl⟩
    · exact ⟨id, by simp⟩
    · exact ⟨id, by simp⟩
    · cases he
  | insertDetail v => rcases hk with rfl | rfl <;> exact ⟨id, by simp⟩
  | _ =>
    obtain rfl := hk
    exact ⟨id, by simp⟩

theorem TurnLog.reconciling {o : ProviderOrder} {t t' : Tally} (h : TurnLog o t log t') :
    ∀ e ∈ log, Reconciling e.stmt := by
  cases h <;> simp only [List.forall_mem_cons, List.not_mem_nil, IsEmpty.forall_iff, implies_true,
    and_true] <;> (repeat' constructor)

theorem LoopLog.reconciling {orders : List ProviderOrder} {t t' : Tally}
    (h : LoopLog orders t log t') : ∀ e ∈ log, Reconciling e.stmt := by
  induction h with
  | nil => simp
  | cons hturn _ ih =>
    intro e he
    rcases List.mem_append.mp he with he | he
    · exact hturn.reconciling e he
    · exact ih e he

theorem DetailsLog.reconciling {runId : ℕ} {details : List ReconciliationDetail}
    (h : DetailsLog runId details log) : ∀ e ∈ log, Reconciling e.stmt := by
  induction h with
  | nil => simp
  | cons _ ih =>
    intro e he
    rcases List.mem_cons.mp he with rfl | he
    · exact .insertDetail _
    · exact ih e he

theorem TurnAsks.reconciling {o : ProviderOrder} (h : TurnAsks o log q) :
    Reconciling q ∧ ∀ e ∈ log, Reconciling e.stmt := by
  cases h <;> refine ⟨by constructor, ?_⟩ <;> simp only [List.forall_mem_cons, List.not_mem_nil,
    IsEmpty.forall_iff, implies_true, and_true] <;> (repeat' constructor)

/-- **The stance of a reconciliation.** -/
theorem ReconciliationAsks.stance {orders : List ProviderOrder} (h : ReconciliationAsks orders log q)
    (hr : Redoes (E := postgres) log db) : Guarded log ∧ Stance db log q := by
  have hstance : ∀ {log : Log} {d : Draws} {w : List Write}, Redoes (E := postgres)
      (⟨.advisoryLock, d, (), w⟩ :: log) db → Reconciling q → (∀ e ∈ log, Reconciling e.stmt) →
      Guarded (⟨.advisoryLock, d, (), w⟩ :: log) ∧ Stance db (⟨.advisoryLock, d, (), w⟩ :: log) q := by
    intro log d w hr hq hlog
    refine ⟨.of_stmts hr fun e he d s eventId hwants => ?_,
      .reconciliation (by simp [Entry.keys, Stmt.locks]) fun d k hk => (hq.wants hk).1⟩
    rcases List.mem_cons.mp he with rfl | he
    · cases hwants
    · exact absurd rfl ((hlog e he).wants hwants |>.2 eventId)
  have hrun : ∀ {d : Draws} {run : RunRow} {w : List Write} {log : Log},
      (∀ e ∈ log, Reconciling e.stmt) →
        ∀ e ∈ (⟨.insertRun, d, run, w⟩ :: log : Log), Reconciling e.stmt := by
    intro d run w log hlog e he
    rcases List.mem_cons.mp he with rfl | he
    · exact .insertRun
    · exact hlog e he
  have happend : ∀ {l l' : Log}, (∀ e ∈ l, Reconciling e.stmt) → (∀ e ∈ l', Reconciling e.stmt) →
      ∀ e ∈ l ++ l', Reconciling e.stmt := fun hl hl' e he =>
    (List.mem_append.mp he).elim (hl e) (hl' e)
  cases h with
  | advisoryLock =>
    refine ⟨?_, .bare rfl⟩
    intro e he
    cases he
  | insertRun => exact hstance hr .insertRun (by simp)
  | turn horders hloop hq =>
    exact hstance hr hq.reconciling.1 (hrun (happend hloop.reconciling hq.reconciling.2))
  | insertDetail hloop hsplit hdetails =>
    exact hstance hr (.insertDetail _) (hrun (happend hloop.reconciling hdetails.reconciling))
  | completeRun hloop hdetails =>
    exact hstance hr (.completeRun _ _ _ _) (hrun (happend hloop.reconciling hdetails.reconciling))

/-- **The stance of a call.** -/
theorem Asks.stance {c : Call} (h : Asks c log q) (hs : db.Keyed)
    (hr : Redoes (E := postgres) log db) : Guarded log ∧ Stance db log q := by
  cases h with
  | ingest => exact ⟨nofun, .bare rfl⟩
  | processOne h => exact h.stance hs hr
  | replay h => exact h.stance hs hr
  | reconcile h => exact h.stance hr

end Stances

/-! ## The wait-for graph -/

section Graph

variable [Platform] {cfg : WorkerConfig} {w : State}

/-- **Every pending statement of a reachable world is in one of the four stances.** -/
theorem Reach.stance (h : Reach cfg .empty w) {i : ℕ} {s : Session postgres Call Answer}
    {t : Tx postgres} {q : Stmt} (hi : w.Pending i s t q) :
    Guarded t.log ∧ Stance w.db t.log q := by
  obtain ⟨ok, failed, hp⟩ := hi.prog
  have hco := h.coherent Store.keyed_empty
  exact (h.asks hi.session hp hi.tx).stance hco.inv (hco.sound i s t hi.session hi.tx).redoes

omit [Platform] in
/-- No statement locks a history row that it does not write. -/
theorem history_not_locked (q : Stmt) (rows : q.Rows) (n : ℕ) : .history n ∉ q.locks rows := by
  cases q with
  | claim => cases rows <;> simp [Stmt.locks, EventRow.keys]
  | selectOrder id => cases rows <;> simp [Stmt.locks]
  | selectEvent id => cases rows <;> simp [Stmt.locks, EventRow.keys]
  | _ => simp [Stmt.locks]

/-- Nobody holds a history row whose number has not been given out. -/
theorem Reach.history_free (h : Reach cfg .empty w) {d : Draws} (hnew : d.New w.env) (j : ℕ) :
    ¬ w.Holds j (.history d.historyId) := by
  rintro ⟨s, t, hs, ht, hk⟩
  obtain ⟨e, he, hk⟩ := List.mem_flatMap.mp hk
  rcases List.mem_append.mp hk with hk | hk
  · exact history_not_locked _ _ _ hk
  · obtain ⟨write, hwrite, hkey⟩ := List.mem_flatMap.mp hk
    have hgiven := h.given.opened j s t hs ht e he write hwrite
    cases hr : Write.row write with
    | history r =>
      rw [hr] at hgiven hkey
      have hid : r.id = d.historyId := by
        simpa [Row.keys, HistoryRow.keys, eq_comm] using hkey
      have := hnew.history
      simp only [Row.Given] at hgiven
      omega
    | event r => rw [hr] at hkey; simp [Row.keys, EventRow.keys] at hkey
    | delivery r => rw [hr] at hkey; simp [Row.keys, DeliveryRow.keys] at hkey
    | order r => rw [hr] at hkey; simp [Row.keys, OrderRow.keys] at hkey
    | run r => rw [hr] at hkey; simp [Row.keys, RunRow.keys] at hkey
    | detail r => rw [hr] at hkey; simp [Row.keys, DetailRow.keys] at hkey

/-- A session that holds a lock which another one waits for, and that waits itself. -/
structure Blocked (w : State) (i : ℕ) (log : Log) (q : Stmt) : Prop where
  guarded : Guarded log
  stance : Stance w.db log q
  holds : ∀ k, w.Holds i k ↔ k ∈ locksOf log
  needed : locksOf log ≠ []

/-- **Whoever is on a cycle is blocked**, and waits for a lock of another session on the cycle. -/
theorem Reach.blocked (h : Reach cfg .empty w) {i : ℕ}
    (hi : Relation.TransGen (World.WaitsFor w) i i) : ∃ log q, Blocked w i log q ∧
      ∃ j d k, Relation.TransGen (World.WaitsFor w) j j ∧ j ≠ i ∧
        q.Wants d (install (E := postgres) w.db log) k ∧ w.Holds j k ∧ k ∉ locksOf log ∧
        ∀ j, ¬ w.Holds j (.history d.historyId) := by
  have hco := h.coherent Store.keyed_empty
  obtain ⟨j, hij, hj⟩ := cycle_next hi
  obtain ⟨l, hli, -⟩ := cycle_prev hi
  obtain ⟨s, t, q, d, env, skip, rows, ws, k, hp, hdraw, hskip, hx, hk, hhold⟩ := hco.waitsFor hij
  obtain ⟨-, -, -, -, -, -, -, -, k', -, -, -, -, -, hneeded⟩ := hco.waitsFor hli
  have hholds : ∀ k, w.Holds i k ↔ k ∈ locksOf t.log := by
    refine fun k => ⟨fun ⟨s', t', hs', ht', hk⟩ => ?_, fun hk => ⟨s, t, hp.session, hp.tx, hk⟩⟩
    obtain rfl : s = s' := Option.some.inj (hp.session.symm.trans hs')
    obtain rfl : t = t' := Option.some.inj (hp.tx.symm.trans ht')
    exact hk
  refine ⟨t.log, q, ⟨(h.stance hp).1, (h.stance hp).2, hholds, List.ne_nil_of_mem ((hholds k').mp hneeded)⟩,
    j, d, k, hj, hij.1, exec_wants hx hk, hhold, fun hown => ?_, h.history_free hdraw.new⟩
  exact hco.locks i j k (Ne.symm hij.1) ((hholds k).mpr hown) hhold

/-- **Whoever is on a cycle is a worker or a reconciliation**: it holds events only and waits for an
order, or it holds the advisory lock and waits for something that is no event. -/
theorem Reach.halted (h : Reach cfg .empty w) {i : ℕ}
    (hi : Relation.TransGen (World.WaitsFor w) i i) :
    ∃ j k, Relation.TransGen (World.WaitsFor w) j j ∧ j ≠ i ∧ w.Holds j k ∧
      ((∀ k, w.Holds i k → k.IsEvent) ∧ (∃ id, k = .order id) ∨
        w.Holds i (.advisory ADVISORY_LOCK_KEY) ∧ ¬ k.IsEvent) := by
  obtain ⟨log, q, hb, j, d, k, hj, hne, hk, hhold, hown, hfree⟩ := h.blocked hi
  refine ⟨j, k, hj, hne, hhold, ?_⟩
  cases hb.stance with
  | bare held => exact absurd held hb.needed
  | worker held wants => exact .inl ⟨fun k hk => held k ((hb.holds k).mp hk), wants d k hk⟩
  | reconciliation held wants => exact .inr ⟨(hb.holds _).mpr held, wants d k hk⟩
  | settled wants =>
    exfalso
    rcases wants d k hk with hk | rfl | ⟨e, rfl, he⟩
    · exact hown hk
    · exact hfree j hhold
    · -- whoever holds the history of the event would hold the event
      obtain ⟨log', _, hb', -⟩ := h.blocked hj
      have he' := hb'.guarded e ((hb'.holds _).mp hhold)
      exact (h.coherent Store.keyed_empty).locks i j _ (Ne.symm hne) ((hb.holds _).mpr he)
        ((hb'.holds _).mpr he')

/-- No reconciliation is on a cycle. -/
theorem Reach.not_reconciling (h : Reach cfg .empty w) {i : ℕ}
    (hi : Relation.TransGen (World.WaitsFor w) i i) : ¬ w.Holds i (.advisory ADVISORY_LOCK_KEY) := by
  intro hadvisory
  obtain ⟨j, k, hj, hne, hhold, ⟨hevents, -⟩ | ⟨-, hk⟩⟩ := h.halted hi
  · exact hevents _ hadvisory
  · obtain ⟨-, -, -, -, -, ⟨hevents, -⟩ | ⟨hadvisory', -⟩⟩ := h.halted hj
    · exact hk (hevents _ hhold)
    · exact (h.coherent Store.keyed_empty).locks i j _ (Ne.symm hne) hadvisory hadvisory'

/-- A call that takes the advisory lock first. -/
theorem asks_advisoryLock (cfg : WorkerConfig) (snapshot : ValidSnapshot) {failed}
    {ok : Unit → Prog postgres Answer} (h : program cfg (.reconcile snapshot) = .ask .begin ok failed) :
    ∃ ok' failed', ok () = .ask (.run .advisoryLock) ok' failed' := by
  cases h
  exact ⟨_, _, rfl⟩

/-- **Two reconciliations at once**: the second waits for the first. -/
theorem exists_waiting (cfg : WorkerConfig) (snapshot : ValidSnapshot) :
    ∃ (w : State) (i j : ℕ), Reach cfg .empty w ∧ w.WaitsFor j i := by
  obtain ⟨w₁, i, b, hcont, -, ⟨ok, failed, hp, hi⟩, -⟩ :=
    (Resting.start cfg ⟨0, 0, 0, 0, 0, 0⟩).begin (.reconcile snapshot)
  obtain ⟨w₂, j, b', hcont', hfree, ⟨ok', failed', hp', hj⟩, -⟩ := hcont.rest.begin (.reconcile snapshot)
  obtain ⟨ok₁, failed₁, hok⟩ := asks_advisoryLock cfg snapshot hp
  obtain ⟨ok₂, failed₂, hok'⟩ := asks_advisoryLock cfg snapshot hp'
  have hne : j ≠ i := by
    rintro rfl
    rw [hi] at hfree
    cases hfree
  have hs := hcont'.kept i _ hi
  rw [hok] at hs
  rw [hok'] at hj
  obtain ⟨d, env, hdraw⟩ := w₂.env.exists_draw (some b)
  have hquiet := hcont'.rest.quiet.not_heldFrom
  let w₃ : State := w₂.serve i ⟨.reconcile snapshot, .ask (.run .advisoryLock) ok₁ failed₁,
      ⟨some (Tx.opened b), [], []⟩⟩ ok₁ failed₁
    (respond w₂.db (some (Tx.opened b)) d noSkip .answered (.run .advisoryLock)) env
  have hstep : Step (program cfg) w₂ w₃ := by
    refine .serve w₂ i _ (.run .advisoryLock) ok₁ failed₁ d noSkip .answered env hs rfl hdraw (fun k => ?_)
      fun _ _ k _ => hquiet i k
    exact ⟨nofun, fun hk => absurd hk (hquiet i k)⟩
  have hhold : w₃.Holds i (.advisory ADVISORY_LOCK_KEY) :=
    ⟨_, _, Function.update_self .., rfl, List.mem_singleton.mpr rfl⟩
  have hj' : w₃.sessions j = some ⟨.reconcile snapshot, .ask (.run .advisoryLock) ok₂ failed₂,
      ⟨some (Tx.opened b'), [], []⟩⟩ := (Function.update_of_ne hne _ _).trans hj
  obtain ⟨d', env', hdraw'⟩ := w₃.env.exists_draw (some b')
  classical
  refine ⟨w₃, i, j, hcont'.rest.reach.step hstep, Ne.symm hne, _, _, _, _, d', env',
    fun k => decide (w₃.HeldFrom j k), _, .advisory ADVISORY_LOCK_KEY, hj', rfl, hdraw', fun k => by simp,
    rfl, List.mem_singleton.mpr rfl, hhold⟩

/-- **The wait-for graph has no cycle.**

**Proof sketch.** Whoever is on a cycle holds a lock that another one on the cycle waits for, and
waits itself.  A session whose statement waits for nothing but its own cannot, and of the other
sessions a worker waits for an order only, which no worker that waits holds, and a reconciliation
waits for no event, which is all that a worker that waits holds, nor for another reconciliation. -/
theorem deadlock_freedom (h : Reach cfg .empty w) (i : ℕ) :
    ¬ Relation.TransGen (World.WaitsFor w) i i := by
  intro hi
  obtain ⟨j, k, hj, -, hhold, ⟨-, id, rfl⟩ | ⟨hadvisory, -⟩⟩ := h.halted hi
  · obtain ⟨-, -, -, -, -, ⟨hevents, -⟩ | ⟨hadvisory, -⟩⟩ := h.halted hj
    · exact hevents _ hhold
    · exact h.not_reconciling hj hadvisory
  · exact h.not_reconciling hi hadvisory

omit [Platform] in
theorem deadlock_freedom_sample : letI := samplePlatform
    ∃ (w : State) (i j : ℕ), Reach .default .empty w ∧ w.WaitsFor j i ∧ ¬ w.WaitsFor i j := by
  let _ := samplePlatform
  obtain ⟨w, i, j, hreach, hwaits⟩ := exists_waiting .default ⟨[], by simp, by simp⟩
  exact ⟨w, i, j, hreach, hwaits, fun hwaits' =>
    deadlock_freedom hreach i (Relation.TransGen.single hwaits' |>.tail hwaits)⟩

end Graph

end PaymentWebhook
