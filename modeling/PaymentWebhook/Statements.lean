import Mathlib.Data.List.MinMax
import PaymentWebhook.Schema
import PaymentWebhook.Transactions.Interleaving

set_option relaxedAutoImplicit false
set_option autoImplicit false

/-!
# The SQL statements

Every SQL text of the service's transactions as a constructor of `Stmt`, with its evaluation,
the rows it locks, and the engine `postgres` they make up.

## Main definitions

* `PaymentWebhook.Stmt`, `PaymentWebhook.Stmt.Rows` — the statements and what they return.
* `PaymentWebhook.exec` — their evaluation.
* `PaymentWebhook.postgres` — the engine.

## Implementation notes

A statement is evaluated on the newest committed version of the rows it locks, as READ COMMITTED
re-reads them.  An `UPDATE` or a foreign key that names a row locks its key whether the row
exists or not; every one of the program's is issued on a row that its transaction has locked
already, so this adds no lock.
-/

namespace PaymentWebhook

/-- The lock key of reconciliations. -/
def ADVISORY_LOCK_KEY : ℕ := 900000001

/-! ## Parameters and results -/

/-- The status a webhook event asks for.  `EVENT_TYPE_TO_STATUS` is an object literal, so that
looking up the name of an inherited property finds a function or an object. -/
inductive MappedStatus where
  | known (s : OrderStatus)
  | inherited
  deriving DecidableEq, Repr

structure EventInsertParams where
  eventId : String
  orderId : String
  eventType : String
  sequence : ℤ
  occurredAt : String
  payload : RawBody
  payloadHash : String
  receivedAt : Timestamp
  processingStatus : ProcessingStatus
  outcomeReason : Option OutcomeReason
  processedAt : Option Timestamp
  correlationId : String
  deriving DecidableEq, Repr

structure DeliveryBaseParams where
  eventId : String
  receivedAt : Timestamp
  correlationId : String
  deriving DecidableEq, Repr

structure CteRow where
  id : ℕ
  deliveryCount : ℕ
  payloadHash : String
  processingStatus : ProcessingStatus
  deliveryResult : DeliveryResult
  deriving DecidableEq, Repr

/-- The values of an `INSERT INTO order_status_history`. -/
structure HistoryValues where
  eventId : Option String
  orderId : String
  sequence : ℤ
  previousStatus : Option OrderStatus
  newStatus : MappedStatus
  outcome : HistoryOutcome
  outcomeReason : Option OutcomeReason
  source : HistorySource
  deriving DecidableEq, Repr

/-- The values of an `INSERT INTO reconciliation_details`. -/
structure DetailValues where
  runId : ℕ
  orderId : String
  localStatus : Option OrderStatus
  localSequence : Option ℤ
  providerStatus : OrderStatus
  providerSequence : ℤ
  action : ReconciliationAction
  deriving DecidableEq, Repr

/-! ## Statements -/

/-- The SQL statements of the service's read-write transactions. -/
inductive Stmt where
  /-- `UPSERT_AND_DELIVER_SQL`. -/
  | upsertAndDeliver (event : EventInsertParams) (delivery : DeliveryBaseParams)
  /-- The worker's claim: `… ORDER BY id LIMIT 1 FOR UPDATE SKIP LOCKED`. -/
  | claim
  /-- `INSERT INTO orders … ON CONFLICT (id) DO NOTHING`, with the column defaults. -/
  | insertOrder (id : String)
  /-- `SELECT … FROM orders WHERE id = $1 FOR UPDATE`. -/
  | selectOrder (id : String)
  /-- The worker's `UPDATE orders`, with `COALESCE` on the money. -/
  | applyToOrder (id : String) (status : MappedStatus) (sequence : ℤ)
      (amount currency : Option String)
  /-- `INSERT INTO order_status_history`. -/
  | insertHistory (v : HistoryValues)
  | markApplied (id : ℕ)
  | markIgnored (id : ℕ) (reason : Option OutcomeReason)
  | markDlq (id attemptCount : ℕ) (error : String)
  | markRetryScheduled (id attemptCount : ℕ) (nextAttemptAt : Timestamp) (error : String)
  /-- `SELECT … FROM webhook_events WHERE id = $1 FOR UPDATE`. -/
  | selectEvent (id : ℕ)
  /-- The replay's `UPDATE webhook_events`. -/
  | replayEvent (id : ℕ)
  /-- `SELECT pg_advisory_xact_lock($1)`. -/
  | advisoryLock
  | insertRun
  /-- The reconciliation's `UPDATE orders`. -/
  | reconcileOrder (id : String) (status : OrderStatus) (sequence : ℤ)
      (amount currency : Option String)
  | insertDetail (v : DetailValues)
  | completeRun (id ordersChecked divergences repaired : ℕ)
  deriving DecidableEq, Repr

/-- What a statement returns.  A `SELECT` of the columns of one row returns the row; an `UPDATE`
without `RETURNING` tells whether a row matched. -/
abbrev Stmt.Rows : Stmt → Type
  | upsertAndDeliver _ _ => CteRow
  | claim => Option EventRow
  | insertOrder _ => Bool
  | selectOrder _ => Option OrderRow
  | applyToOrder _ _ _ _ _ => Bool
  | insertHistory _ => Unit
  | markApplied _ => Bool
  | markIgnored _ _ => Bool
  | markDlq _ _ _ => Bool
  | markRetryScheduled _ _ _ _ => Bool
  | selectEvent _ => Option EventRow
  | replayEvent _ => Option EventRow
  | advisoryLock => Unit
  | insertRun => RunRow
  | reconcileOrder _ _ _ _ _ => Bool
  | insertDetail _ => Unit
  | completeRun _ _ _ _ => Option RunRow

/-- What a statement draws from outside: `clock_timestamp()`, `now()`, and the next values of the
identity columns. -/
structure Draws where
  now : Timestamp
  start : Timestamp
  eventId : ℕ
  deliveryId : ℕ
  historyId : ℕ
  runId : ℕ
  detailId : ℕ
  deriving DecidableEq, Repr

/-! ## Evaluation -/

/-- The constraints that an insertion has to meet. -/
def Store.insertable (s : Store) (r : Row) : Except DbError Unit :=
  if r.fits = false then .error .invalidValue
  else match r.keys.find? (fun k => (s.look k).isSome) with
    | some k => .error (.uniqueViolation k)
    | none =>
      if r.refs.all (fun k => (s.look k).isSome) then .ok () else .error .foreignKeyViolation

/-- Insert a row. -/
def Store.insertRow {α : Type} (s : Store) (r : Row) (rows : α) :
    Except DbError (α × List Write) :=
  (s.insertable r).map fun _ => (rows, [.insert r])

/-- Update a row, if there is one. -/
def updateRow {α ρ : Type} (mk : ρ → Row) (f : ρ → ρ) (found : ρ → α) (missing : α) :
    Option ρ → Except DbError (α × List Write)
  | none => .ok (missing, [])
  | some r =>
    if (mk (f r)).fits then .ok (found (f r), [.update (mk (f r))]) else .error .invalidValue

/-- An optional `NUMERIC(12,2)` parameter. -/
def numericParam : Option String → Except DbError (Option ℤ)
  | none => .ok none
  | some a =>
    match numericIn a with
    | none => .error .invalidValue
    | some c => .ok (some c)

section Upsert

/-- The row that the ingestion statement proposes. -/
def EventInsertParams.row (p : EventInsertParams) (id : ℕ) (occurredAt : Timestamp) : EventRow where
  id := id
  eventId := p.eventId
  orderId := p.orderId
  eventType := p.eventType
  sequence := p.sequence
  occurredAt := occurredAt
  payload := p.payload.json
  payloadHash := p.payloadHash
  receivedAt := p.receivedAt
  processingStatus := p.processingStatus
  outcomeReason := p.outcomeReason
  attemptCount := 0
  nextAttemptAt := none
  lastError := none
  processedAt := p.processedAt
  deliveryCount := 1
  replayCount := 0
  correlationId := p.correlationId

/-- The `CASE` of the CTE `resolved`. -/
def deliveryResult (deliveryCount : ℕ) (isStale : Bool) (storedHash hash : String) :
    DeliveryResult :=
  if deliveryCount = 1 ∧ isStale then .ignored
  else if deliveryCount = 1 then .created
  else if storedHash = hash then .duplicate
  else .rejected

/-- The row that the CTE `dlv` inserts. -/
def DeliveryBaseParams.row (p : DeliveryBaseParams) (d : Draws) (result : DeliveryResult) :
    DeliveryRow where
  id := d.deliveryId
  eventId := p.eventId
  receivedAt := p.receivedAt
  latency := ((d.now - p.receivedAt).toNat + 5) / 10
  result := result
  correlationId := p.correlationId

/-- The CTE `evt`: the row returned and what is written. -/
def upsert (s : Store) (row : EventRow) : Except DbError (EventRow × Write) :=
  if row.fits = false then .error .invalidValue
  else match s.event? row.eventId with
    | none => (s.insertable (.event row)).map fun _ => (row, .insert (.event row))
    | some old =>
      let row' := { old with deliveryCount := old.deliveryCount + 1 }
      if row'.fits then .ok (row', .update (.event row')) else .error .invalidValue

/-- `UPSERT_AND_DELIVER_SQL`. -/
def upsertAndDeliver [Platform] (p : EventInsertParams) (b : DeliveryBaseParams) (d : Draws)
    (s : Store) : Except DbError (CteRow × List Write) :=
  match Platform.timestamptzIn p.occurredAt with
  | none => .error .invalidValue
  | some occurredAt =>
    if Platform.jsonbIn p.payload.bytes = false then .error .invalidValue
    else match upsert s (p.row d.eventId occurredAt) with
      | .error e => .error e
      | .ok (evt, w) =>
        let result := deliveryResult evt.deliveryCount (p.processingStatus = .ignored)
          evt.payloadHash p.payloadHash
        (s.insertRow (.delivery (b.row d result))
          (⟨evt.id, evt.deliveryCount, evt.payloadHash, evt.processingStatus, result⟩ : CteRow)).map
          fun (row, ws) => (row, w :: ws)

end Upsert

/-- The condition of the worker's claim. -/
def EventRow.claimable (e : EventRow) (now : Timestamp) : Bool :=
  e.processingStatus = .pending ||
    (e.processingStatus = .retryScheduled && e.nextAttemptAt.any (· ≤ now))

/-- The row the worker's claim returns: the least `id` among the eligible rows that are not
locked. -/
def Store.claimed (s : Store) (now : Timestamp) (skip : Key → Bool) : Option EventRow :=
  (s.events.filter fun e => e.claimable now && !e.keys.any skip).argmin EventRow.id

/-- The defaults of a new order row. -/
def defaultOrder (id : String) (d : Draws) : OrderRow where
  id := id
  status := .pending
  lastSequence := 0
  amount := none
  currency := none
  createdAt := d.start
  updatedAt := d.start

/-- The worker's `UPDATE orders`. -/
def OrderRow.applied (o : OrderRow) (status : OrderStatus) (sequence : ℤ) (amount : Option ℤ)
    (currency : Option String) (d : Draws) : OrderRow :=
  { o with
    status := status
    lastSequence := sequence
    amount := amount.or o.amount
    currency := currency.or o.currency
    updatedAt := d.now }

/-- The reconciliation's `UPDATE orders`. -/
def OrderRow.reconciled (o : OrderRow) (status : OrderStatus) (sequence : ℤ) (amount : Option ℤ)
    (currency : Option String) (d : Draws) : OrderRow :=
  { o with
    status := status
    lastSequence := sequence
    amount := amount
    currency := currency
    updatedAt := d.start }

/-- The row of an `INSERT INTO order_status_history`. -/
def HistoryValues.row (v : HistoryValues) (newStatus : OrderStatus) (d : Draws) : HistoryRow where
  id := d.historyId
  orderId := v.orderId
  eventId := v.eventId
  sequence := v.sequence
  previousStatus := v.previousStatus
  newStatus := newStatus
  outcome := v.outcome
  outcomeReason := v.outcomeReason
  source := v.source
  changedAt := d.start

def EventRow.applied (e : EventRow) (d : Draws) : EventRow :=
  { e with
    processingStatus := .applied
    outcomeReason := none
    nextAttemptAt := none
    processedAt := some d.now }

def EventRow.ignored (e : EventRow) (reason : Option OutcomeReason) (d : Draws) : EventRow :=
  { e with
    processingStatus := .ignored
    outcomeReason := reason
    nextAttemptAt := none
    processedAt := some d.now }

def EventRow.dlq (e : EventRow) (attemptCount : ℕ) (error : String) (d : Draws) : EventRow :=
  { e with
    processingStatus := .dlq
    attemptCount := attemptCount
    nextAttemptAt := none
    lastError := some error
    outcomeReason := some .maxAttemptsExhausted
    processedAt := some d.now }

def EventRow.retryScheduled (e : EventRow) (attemptCount : ℕ) (nextAttemptAt : Timestamp)
    (error : String) : EventRow :=
  { e with
    processingStatus := .retryScheduled
    attemptCount := attemptCount
    nextAttemptAt := some nextAttemptAt
    lastError := some error
    outcomeReason := some .transientError
    processedAt := none }

def EventRow.replayed (e : EventRow) : EventRow :=
  { e with
    processingStatus := .pending
    attemptCount := 0
    nextAttemptAt := none
    lastError := none
    outcomeReason := none
    processedAt := none
    replayCount := e.replayCount + 1 }

/-- The row of an `INSERT INTO reconciliation_runs (status) VALUES ('RUNNING')`. -/
def runningRun (d : Draws) : RunRow where
  id := d.runId
  startedAt := d.start
  finishedAt := none
  ordersChecked := 0
  divergences := 0
  repaired := 0
  status := .running

def RunRow.complete (r : RunRow) (ordersChecked divergences repaired : ℕ) (d : Draws) : RunRow :=
  { r with
    status := .completed
    ordersChecked := ordersChecked
    divergences := divergences
    repaired := repaired
    finishedAt := some d.now }

/-- The row of an `INSERT INTO reconciliation_details`. -/
def DetailValues.row (v : DetailValues) (d : Draws) : DetailRow where
  id := d.detailId
  runId := v.runId
  orderId := v.orderId
  localStatus := v.localStatus
  localSequence := v.localSequence
  providerStatus := v.providerStatus
  providerSequence := v.providerSequence
  action := v.action
  repairedAt := if v.action = .repaired then some d.now else none

/-- **Evaluation of a statement**: the rows returned and the row versions written. -/
def exec [Platform] : (q : Stmt) → Draws → (Key → Bool) → Store →
    Except DbError (q.Rows × List Write)
  | .upsertAndDeliver p b, d, _, s => upsertAndDeliver p b d s
  | .claim, d, skip, s => .ok (s.claimed d.now skip, [])
  | .insertOrder id, d, _, s =>
    if (defaultOrder id d).fits = false then .error .invalidValue
    else match s.order? id with
      | some _ => .ok (false, [])
      | none => s.insertRow (.order (defaultOrder id d)) true
  | .selectOrder id, _, _, s => .ok (s.order? id, [])
  | .applyToOrder id status seq amount currency, d, _, s =>
    match status, numericParam amount with
    | .known st, .ok a =>
      updateRow .order (·.applied st seq a currency d) (fun _ => true) false (s.order? id)
    | _, _ => .error .invalidValue
  | .insertHistory v, d, _, s =>
    match v.newStatus with
    | .known st => s.insertRow (.history (v.row st d)) ()
    | .inherited => .error .invalidValue
  | .markApplied id, d, _, s =>
    updateRow .event (·.applied d) (fun _ => true) false (s.eventAt? id)
  | .markIgnored id reason, d, _, s =>
    updateRow .event (·.ignored reason d) (fun _ => true) false (s.eventAt? id)
  | .markDlq id n error, d, _, s =>
    updateRow .event (·.dlq n error d) (fun _ => true) false (s.eventAt? id)
  | .markRetryScheduled id n next error, _, _, s =>
    updateRow .event (·.retryScheduled n next error) (fun _ => true) false (s.eventAt? id)
  | .selectEvent id, _, _, s => .ok (s.eventAt? id, [])
  | .replayEvent id, _, _, s => updateRow .event (·.replayed) some none (s.eventAt? id)
  | .advisoryLock, _, _, _ => .ok ((), [])
  | .insertRun, d, _, s => s.insertRow (.run (runningRun d)) (runningRun d)
  | .reconcileOrder id status seq amount currency, d, _, s =>
    match numericParam amount with
    | .ok a =>
      updateRow .order (·.reconciled status seq a currency d) (fun _ => true) false (s.order? id)
    | .error e => .error e
  | .insertDetail v, d, _, s => s.insertRow (.detail (v.row d)) ()
  | .completeRun id checked divergences repaired, d, _, s =>
    updateRow .run (·.complete checked divergences repaired d) some none (s.run? id)

/-! ## The engine -/

/-- What a statement locks besides the rows it writes. -/
def Stmt.locks : (q : Stmt) → q.Rows → List Key
  | .claim, some e => e.keys
  | .selectOrder id, some _ => [.order id]
  | .applyToOrder id _ _ _ _, _ => [.order id]
  | .insertHistory v, _ => [.order v.orderId]
  | .markApplied id, _ => [.eventPk id]
  | .markIgnored id _, _ => [.eventPk id]
  | .markDlq id _ _, _ => [.eventPk id]
  | .markRetryScheduled id _ _ _, _ => [.eventPk id]
  | .selectEvent _, some e => e.keys
  | .replayEvent id, _ => [.eventPk id]
  | .advisoryLock, _ => [.advisory ADVISORY_LOCK_KEY]
  | .reconcileOrder id _ _ _ _, _ => [.order id]
  | .insertDetail v, _ => [.run v.runId]
  | .completeRun id _ _ _, _ => [.run id]
  | _, _ => []

/-- The answers that lock nothing because there was no row to lock: nothing to claim or select,
nothing to insert. -/
def Stmt.misses : (q : Stmt) → q.Rows → Bool
  | .claim, none => true
  | .insertOrder _, false => true
  | .selectOrder _, none => true
  | .selectEvent _, none => true
  | _, _ => false

/-- The clock and the identity sequences. -/
structure Env where
  clock : Timestamp
  nextEventId : ℕ
  nextDeliveryId : ℕ
  nextHistoryId : ℕ
  nextRunId : ℕ
  nextDetailId : ℕ
  deriving DecidableEq, Repr

/-- A statement reads the clock, and takes values that the identity columns have not given
before. -/
structure Env.Draw (env : Env) (begun : Option Draws) (d : Draws) (env' : Env) : Prop where
  now : d.now = env.clock
  start : d.start = (begun.map Draws.start).getD env.clock
  eventId : env.nextEventId ≤ d.eventId ∧ d.eventId < env'.nextEventId
  deliveryId : env.nextDeliveryId ≤ d.deliveryId ∧ d.deliveryId < env'.nextDeliveryId
  historyId : env.nextHistoryId ≤ d.historyId ∧ d.historyId < env'.nextHistoryId
  runId : env.nextRunId ≤ d.runId ∧ d.runId < env'.nextRunId
  detailId : env.nextDetailId ≤ d.detailId ∧ d.detailId < env'.nextDetailId
  clock : env'.clock = env.clock

/-- PostgreSQL, as far as the service uses it. -/
abbrev postgres [Platform] : Transactions.Engine where
  Store := Store
  Stmt := Stmt
  Rows := Stmt.Rows
  Write := Write
  Key := Key
  Draws := Draws
  Err := DbError
  Env := Env
  exec := exec
  apply := Store.apply
  keys := fun q rows ws => q.locks rows ++ ws.flatMap fun w => w.row.keys
  misses := Stmt.misses
  protocolError := .noTransaction
  draw := Env.Draw
  pass := fun env env' => env' = { env with clock := env'.clock }

/-- Run a statement; its error is thrown. -/
abbrev sql [Platform] (q : Stmt) : Transactions.Prog postgres q.Rows :=
  Transactions.Prog.query (E := postgres) q

end PaymentWebhook
