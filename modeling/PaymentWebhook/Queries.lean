import Mathlib.Data.List.Sort
import PaymentWebhook.JsString
import PaymentWebhook.Statements
import PaymentWebhook.Transactions.Reads

set_option relaxedAutoImplicit false
set_option autoImplicit false

/-!
# The read-only endpoints

What `GET /orders/:id`, `GET /admin/dlq` and `GET /metrics` read.

## Main definitions

* `PaymentWebhook.OrdersRepository.findById` — an order with its events and its history, at
  REPEATABLE READ.
* `PaymentWebhook.DlqRepository.list` — a page of the dead-letter queue, at READ COMMITTED.
* `PaymentWebhook.DlqController.page` — which pages can be asked for.
* `PaymentWebhook.MetricsRepository.getMetrics` — the counters, in one statement.

## Main results

* `PaymentWebhook.orderBy_eq_of_pairwise` — rows that are in order stay as they are.

## Implementation notes

The two percentiles of the metrics are floating point and are left out.
-/

namespace PaymentWebhook

open Transactions

/-- `ORDER BY`, for a relation that compares the sort keys. -/
abbrev orderBy {α : Type} (before : α → α → Prop) [DecidableRel before] (rows : List α) : List α :=
  rows.insertionSort before

/-- Rows that are in order stay as they are. -/
theorem orderBy_eq_of_pairwise {α : Type} {before : α → α → Prop} [DecidableRel before]
    {rows : List α} (h : rows.Pairwise before) : orderBy before rows = rows :=
  h.insertionSort_eq

/-! ## Orders -/

structure OrderDetailRow where
  id : String
  status : OrderStatus
  lastSequence : ℤ
  amount : Option String
  currency : Option String
  createdAt : Timestamp
  updatedAt : Timestamp
  deriving DecidableEq, Repr

structure OrderEventRow where
  eventId : String
  eventType : String
  sequence : ℤ
  occurredAt : Timestamp
  receivedAt : Timestamp
  processingStatus : ProcessingStatus
  outcomeReason : Option OutcomeReason
  attemptCount : ℕ
  deliveryCount : ℕ
  processedAt : Option Timestamp
  nextAttemptAt : Option Timestamp
  lastError : Option String
  replayCount : ℕ
  deriving DecidableEq, Repr

structure StatusChangeRow where
  eventId : Option String
  sequence : ℤ
  previousStatus : Option OrderStatus
  newStatus : OrderStatus
  outcome : HistoryOutcome
  outcomeReason : Option OutcomeReason
  source : HistorySource
  changedAt : Timestamp
  deriving DecidableEq, Repr

structure OrderDetail where
  order : OrderDetailRow
  events : List OrderEventRow
  statusChanges : List StatusChangeRow
  deriving DecidableEq, Repr

/-- The columns of an order that are selected; an amount is read as text. -/
def OrderRow.detail (o : OrderRow) : OrderDetailRow :=
  ⟨o.id, o.status, o.lastSequence, o.amount.map numericText, o.currency, o.createdAt, o.updatedAt⟩

/-- The columns of an event that are selected. -/
def EventRow.detail (e : EventRow) : OrderEventRow :=
  ⟨e.eventId, e.eventType, e.sequence, e.occurredAt, e.receivedAt, e.processingStatus,
    e.outcomeReason, e.attemptCount, e.deliveryCount, e.processedAt, e.nextAttemptAt, e.lastError,
    e.replayCount⟩

/-- The columns of a history row that are selected. -/
def HistoryRow.change (h : HistoryRow) : StatusChangeRow :=
  ⟨h.eventId, h.sequence, h.previousStatus, h.newStatus, h.outcome, h.outcomeReason, h.source,
    h.changedAt⟩

/-- `ORDER BY received_at, id`. -/
def EventRow.receivedBefore (a b : EventRow) : Prop :=
  a.receivedAt < b.receivedAt ∨ (a.receivedAt = b.receivedAt ∧ a.id ≤ b.id)

/-- `ORDER BY changed_at, id`. -/
def HistoryRow.changedBefore (a b : HistoryRow) : Prop :=
  a.changedAt < b.changedAt ∨ (a.changedAt = b.changedAt ∧ a.id ≤ b.id)

instance : DecidableRel EventRow.receivedBefore := fun a b =>
  inferInstanceAs (Decidable (a.receivedAt < b.receivedAt ∨ (a.receivedAt = b.receivedAt ∧ a.id ≤ b.id)))

instance : DecidableRel HistoryRow.changedBefore := fun a b =>
  inferInstanceAs (Decidable (a.changedAt < b.changedAt ∨ (a.changedAt = b.changedAt ∧ a.id ≤ b.id)))

/-- **`OrdersRepository.findById`**, in a REPEATABLE READ transaction. -/
def OrdersRepository.findById (orderId : String) : Reader Store (Option OrderDetail) := do
  match ← Reader.query fun s => s.order? orderId with
  | none => pure none
  | some order =>
    let events ← Reader.query fun s =>
      orderBy EventRow.receivedBefore (s.events.filter fun e => e.orderId = orderId)
    let history ← Reader.query fun s =>
      orderBy HistoryRow.changedBefore (s.history.filter fun h => h.orderId = orderId)
    pure (some ⟨order.detail, events.map EventRow.detail, history.map HistoryRow.change⟩)

/-- What `findById` answers: the order, its events and its history in one store. -/
theorem OrdersRepository.findById_on (s : Store) (orderId : String) :
    (findById orderId).on s = (s.order? orderId).map fun order =>
      ⟨order.detail,
        (orderBy EventRow.receivedBefore (s.events.filter fun e => e.orderId = orderId)).map
          EventRow.detail,
        (orderBy HistoryRow.changedBefore (s.history.filter fun h => h.orderId = orderId)).map
          HistoryRow.change⟩ := by
  cases horder : s.order? orderId with
  | none =>
    show Reader.on s (match s.order? orderId with | none => _ | some order => _) = _
    rw [horder]
    rfl
  | some order =>
    show Reader.on s (match s.order? orderId with | none => _ | some order => _) = _
    rw [horder]
    rfl

/-! ## The dead-letter queue -/

structure DlqEventRow where
  id : ℕ
  eventId : String
  orderId : String
  eventType : String
  sequence : ℤ
  processingStatus : ProcessingStatus
  attemptCount : ℕ
  lastError : Option String
  outcomeReason : Option OutcomeReason
  receivedAt : Timestamp
  processedAt : Option Timestamp
  replayCount : ℕ
  correlationId : String
  deriving DecidableEq, Repr

structure DlqListResult where
  items : List DlqEventRow
  total : ℕ
  deriving DecidableEq, Repr

/-- The columns of an event that are selected. -/
def EventRow.dlqRow (e : EventRow) : DlqEventRow :=
  ⟨e.id, e.eventId, e.orderId, e.eventType, e.sequence, e.processingStatus, e.attemptCount,
    e.lastError, e.outcomeReason, e.receivedAt, e.processedAt, e.replayCount, e.correlationId⟩

/-- The rows in the dead-letter queue. -/
def Store.dlqRows (s : Store) : List DlqEventRow :=
  (s.events.filter fun e => e.processingStatus = .dlq).map EventRow.dlqRow

/-- `processed_at DESC`: a null comes before every time. -/
def laterFirst : Option Timestamp → Option Timestamp → Bool
  | none, some _ => true
  | some t, some t' => t' < t
  | _, none => false

/-- `ORDER BY processed_at DESC, id DESC`. -/
def DlqEventRow.before (a b : DlqEventRow) : Prop :=
  laterFirst a.processedAt b.processedAt = true ∨ (a.processedAt = b.processedAt ∧ b.id ≤ a.id)

instance : DecidableRel DlqEventRow.before := fun a b =>
  inferInstanceAs (Decidable (laterFirst a.processedAt b.processedAt = true ∨
    (a.processedAt = b.processedAt ∧ b.id ≤ a.id)))

/-- **`DlqRepository.list`**, in a READ COMMITTED transaction. -/
def DlqRepository.list (limit offset : ℕ) : Reader Store DlqListResult := do
  let total ← Reader.query fun s => s.dlqRows.length
  let items ← Reader.query fun s => ((orderBy DlqEventRow.before s.dlqRows).drop offset).take limit
  pure ⟨items, total⟩

/-- The double that is nearest to a number; `none` is `Infinity`. -/
def nearestDouble (n : ℕ) : Option ℕ :=
  if n < 2 ^ 53 then some n
  else
    let step := 2 ^ (Nat.log2 n - 52)
    let q := n / step
    let up := step < 2 * (n % step) ∨ (step = 2 * (n % step) ∧ q % 2 = 1)
    let rounded := (if up then q + 1 else q) * step
    if rounded < 2 ^ 1024 then some rounded else none

/-- `parseInt(text, 10)`; `none` is a number that is not finite. -/
def jsParseInt (text : String) : Option ℤ :=
  let digits (s : List Char) : Option ℕ :=
    let ds := s.takeWhile Char.isDigit
    if ds = [] then none else nearestDouble (digitsValue ds)
  match text.toList.dropWhile jsSpace with
  | '-' :: rest => (digits rest).map fun n => -(n : ℤ)
  | '+' :: rest => (digits rest).map fun n => (n : ℤ)
  | rest => (digits rest).map fun n => (n : ℤ)

/-- The checks of **`DlqController.list`**: the page that is asked for, or the message of the
`BadRequestException`. -/
def DlqController.page (limitParam offsetParam : Option String) : Except String (ℕ × ℕ) :=
  let limit := match limitParam with
    | some text => jsParseInt text
    | none => some 50
  let offset := match offsetParam with
    | some text => jsParseInt text
    | none => some 0
  match limit with
  | none => .error "limit must be between 1 and 100"
  | some limit =>
    if limit < 1 ∨ 100 < limit then .error "limit must be between 1 and 100"
    else match offset with
      | none => .error "offset must be >= 0"
      | some offset =>
        if offset < 0 then .error "offset must be >= 0"
        else .ok (limit.toNat, offset.toNat)

/-! ## Metrics -/

structure MetricsSnapshot where
  webhookEventsReceivedTotal : ℕ
  webhookDuplicateEventsTotal : ℕ
  webhookOutOfOrderEventsTotal : ℕ
  webhookDlqSize : ℕ
  deriving DecidableEq, Repr

/-- **`MetricsRepository.getMetrics`**: one statement, outside of a transaction. -/
def MetricsRepository.getMetrics : Reader Store MetricsSnapshot :=
  Reader.query fun s =>
    { webhookEventsReceivedTotal := s.deliveries.length
      webhookDuplicateEventsTotal := s.deliveries.countP fun r => r.result = .duplicate
      webhookOutOfOrderEventsTotal := s.events.countP fun e => e.outcomeReason = some .staleSequence
      webhookDlqSize := s.events.countP fun e => e.processingStatus = .dlq }

end PaymentWebhook
