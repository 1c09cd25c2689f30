import PaymentWebhook.Money
import PaymentWebhook.Transactions.Tables

set_option relaxedAutoImplicit false
set_option autoImplicit false

/-!
# The schema

The tables of the service as the migrations create them: rows, column domains, unique keys and
foreign keys.

## Main definitions

* `PaymentWebhook.EventRow`, `PaymentWebhook.DeliveryRow`, `PaymentWebhook.OrderRow`,
  `PaymentWebhook.HistoryRow`, `PaymentWebhook.RunRow`, `PaymentWebhook.DetailRow` — the rows of
  the six tables, each with the check `fits` of its column domains.
* `PaymentWebhook.Key` — the unique keys of rows, which are also what transactions lock.
* `PaymentWebhook.Store` — the six tables; `PaymentWebhook.Store.look` finds a row by key.
* `PaymentWebhook.Platform` — what the service uses of its surroundings: SHA-256, the parsers
  of dates and of `jsonb`, the texts of errors.

## Implementation notes

A column with a `CHECK (… IN …)` constraint, or that only ever receives literals of the
program, is an enumeration.  Timestamps are microseconds since the epoch; a JavaScript `Date` is
a multiple of 1000.  A `jsonb` payload keeps the fields the program reads.
-/

namespace PaymentWebhook

/-- Microseconds since the epoch. -/
abbrev Timestamp := ℤ

/-! ## Enumerations -/

/-- `orders.status`. -/
inductive OrderStatus where
  | pending | authorized | captured | refunded | failed
  deriving DecidableEq, Repr

/-- `webhook_events.processing_status`. -/
inductive ProcessingStatus where
  | pending | retryScheduled | applied | ignored | dlq
  deriving DecidableEq, Repr

/-- The reasons the program writes to an `outcome_reason` column. -/
inductive OutcomeReason where
  | staleTimestamp | staleSequence | unknownEventType | transientError | maxAttemptsExhausted
  | providerSourceOfTruth
  deriving DecidableEq, Repr

/-- `webhook_deliveries.result`. -/
inductive DeliveryResult where
  | created | duplicate | ignored | rejected
  deriving DecidableEq, Repr

/-- `order_status_history.outcome`. -/
inductive HistoryOutcome where
  | applied | ignored | reconciled
  deriving DecidableEq, Repr

/-- `order_status_history.source`. -/
inductive HistorySource where
  | webhook | reconciliation
  deriving DecidableEq, Repr

/-- `reconciliation_runs.status`. -/
inductive RunStatus where
  | running | completed | failed
  deriving DecidableEq, Repr

/-- `reconciliation_details.action`. -/
inductive ReconciliationAction where
  | repaired | alreadyOk | staleProviderSnapshot
  deriving DecidableEq, Repr

/-! ## Webhook payloads -/

/-- The `data` object of a webhook payload. -/
structure PaymentWebhookData where
  amount : Option String
  currency : Option String
  deriving DecidableEq, Repr

/-- The fields the program reads of a webhook payload. -/
structure WebhookPayload where
  eventId : String
  orderId : String
  eventType : String
  sequence : ℤ
  occurredAt : String
  data : Option PaymentWebhookData
  deriving DecidableEq, Repr

/-- A request body: its bytes, and what `JSON.parse` reads from them. -/
structure RawBody where
  bytes : List UInt8
  json : WebhookPayload
  deriving DecidableEq, Repr

/-! ## Column domains -/

/-- A `TEXT` value: PostgreSQL stores no U+0000. -/
def textFits (s : String) : Bool := s.toList.all (· ≠ '\x00')

/-- A `VARCHAR(n)` value. -/
def varcharFits (n : ℕ) (s : String) : Bool := s.length ≤ n && textFits s

/-- An `INTEGER` value. -/
def int4Fits (z : ℤ) : Bool := -2147483648 ≤ z && z ≤ 2147483647

/-! ## Rows -/

/-- A row of `webhook_events`. -/
structure EventRow where
  id : ℕ
  eventId : String
  orderId : String
  eventType : String
  sequence : ℤ
  occurredAt : Timestamp
  payload : WebhookPayload
  payloadHash : String
  receivedAt : Timestamp
  processingStatus : ProcessingStatus
  outcomeReason : Option OutcomeReason
  attemptCount : ℕ
  nextAttemptAt : Option Timestamp
  lastError : Option String
  processedAt : Option Timestamp
  deliveryCount : ℕ
  replayCount : ℕ
  correlationId : String
  deriving DecidableEq, Repr

/-- A row of `webhook_deliveries`; the latency is in hundredths of a millisecond. -/
structure DeliveryRow where
  id : ℕ
  eventId : String
  receivedAt : Timestamp
  latency : ℕ
  result : DeliveryResult
  correlationId : String
  deriving DecidableEq, Repr

/-- A row of `orders`; the amount is in cents. -/
structure OrderRow where
  id : String
  status : OrderStatus
  lastSequence : ℤ
  amount : Option ℤ
  currency : Option String
  createdAt : Timestamp
  updatedAt : Timestamp
  deriving DecidableEq, Repr

/-- A row of `order_status_history`. -/
structure HistoryRow where
  id : ℕ
  orderId : String
  eventId : Option String
  sequence : ℤ
  previousStatus : Option OrderStatus
  newStatus : OrderStatus
  outcome : HistoryOutcome
  outcomeReason : Option OutcomeReason
  source : HistorySource
  changedAt : Timestamp
  deriving DecidableEq, Repr

/-- A row of `reconciliation_runs`. -/
structure RunRow where
  id : ℕ
  startedAt : Timestamp
  finishedAt : Option Timestamp
  ordersChecked : ℕ
  divergences : ℕ
  repaired : ℕ
  status : RunStatus
  deriving DecidableEq, Repr

/-- A row of `reconciliation_details`. -/
structure DetailRow where
  id : ℕ
  runId : ℕ
  orderId : String
  localStatus : Option OrderStatus
  localSequence : Option ℤ
  providerStatus : OrderStatus
  providerSequence : ℤ
  action : ReconciliationAction
  repairedAt : Option Timestamp
  deriving DecidableEq, Repr

/-- The column domains and checks of `webhook_events`. -/
def EventRow.fits (r : EventRow) : Bool :=
  varcharFits 255 r.eventId && varcharFits 255 r.orderId && varcharFits 50 r.eventType &&
  int4Fits r.sequence && 0 ≤ r.sequence && varcharFits 64 r.payloadHash &&
  int4Fits r.attemptCount && r.lastError.all textFits && int4Fits r.deliveryCount &&
  1 ≤ r.deliveryCount && int4Fits r.replayCount && varcharFits 255 r.correlationId &&
  -- chk_retry_scheduled_has_next_attempt
  (r.processingStatus ≠ .retryScheduled || r.nextAttemptAt.isSome)

/-- The column domains and checks of `webhook_deliveries`. -/
def DeliveryRow.fits (r : DeliveryRow) : Bool :=
  varcharFits 255 r.eventId && r.latency < 10 ^ 10 && varcharFits 255 r.correlationId

/-- The column domains and checks of `orders`. -/
def OrderRow.fits (r : OrderRow) : Bool :=
  varcharFits 255 r.id && int4Fits r.lastSequence && 0 ≤ r.lastSequence &&
  r.amount.all numericFits && r.currency.all (varcharFits 3)

/-- The column domains and checks of `order_status_history`. -/
def HistoryRow.fits (r : HistoryRow) : Bool :=
  varcharFits 255 r.orderId && r.eventId.all (varcharFits 255) && int4Fits r.sequence

/-- The column domains and checks of `reconciliation_runs`. -/
def RunRow.fits (r : RunRow) : Bool :=
  int4Fits r.ordersChecked && int4Fits r.divergences && int4Fits r.repaired

/-- The column domains and checks of `reconciliation_details`. -/
def DetailRow.fits (r : DetailRow) : Bool :=
  varcharFits 255 r.orderId && r.localSequence.all int4Fits && int4Fits r.providerSequence

/-! ## Keys -/

/-- The unique keys of rows, and the advisory lock.  `event` is the unique constraint on
`webhook_events(event_id)`, `historyEvent` the partial unique index
`uq_order_status_history_event_id`; the others are primary keys. -/
inductive Key where
  | event (eventId : String)
  | eventPk (id : ℕ)
  | delivery (id : ℕ)
  | order (id : String)
  | history (id : ℕ)
  | historyEvent (eventId : String)
  | run (id : ℕ)
  | detail (id : ℕ)
  | advisory (key : ℕ)
  deriving DecidableEq, Repr

def EventRow.keys (r : EventRow) : List Key := [.event r.eventId, .eventPk r.id]
def DeliveryRow.keys (r : DeliveryRow) : List Key := [.delivery r.id]
def OrderRow.keys (r : OrderRow) : List Key := [.order r.id]

/-- The partial index leaves out the rows without event. -/
def HistoryRow.keys (r : HistoryRow) : List Key :=
  .history r.id :: r.eventId.toList.map .historyEvent

def RunRow.keys (r : RunRow) : List Key := [.run r.id]
def DetailRow.keys (r : DetailRow) : List Key := [.detail r.id]

/-- A row of one of the tables. -/
inductive Row where
  | event (r : EventRow)
  | delivery (r : DeliveryRow)
  | order (r : OrderRow)
  | history (r : HistoryRow)
  | run (r : RunRow)
  | detail (r : DetailRow)
  deriving DecidableEq, Repr

namespace Row

def keys : Row → List Key
  | event r => r.keys
  | delivery r => r.keys
  | order r => r.keys
  | history r => r.keys
  | run r => r.keys
  | detail r => r.keys

def fits : Row → Bool
  | event r => r.fits
  | delivery r => r.fits
  | order r => r.fits
  | history r => r.fits
  | run r => r.fits
  | detail r => r.fits

/-- The foreign keys of a row. -/
def refs : Row → List Key
  | history r => [.order r.orderId]
  | detail r => [.run r.runId]
  | _ => []

end Row

/-! ## The store -/

/-- The six tables, oldest rows first. -/
structure Store where
  events : List EventRow
  deliveries : List DeliveryRow
  orders : List OrderRow
  history : List HistoryRow
  runs : List RunRow
  details : List DetailRow
  deriving DecidableEq, Repr

namespace Store

variable (s : Store)

/-- The store after the migrations. -/
def empty : Store := ⟨[], [], [], [], [], []⟩

/-- The event row with an `event_id`. -/
def event? (eventId : String) : Option EventRow := Tables.find EventRow.keys (.event eventId) s.events

/-- The event row with an `id`. -/
def eventAt? (id : ℕ) : Option EventRow := Tables.find EventRow.keys (.eventPk id) s.events

/-- The order row with an `id`. -/
def order? (id : String) : Option OrderRow := Tables.find OrderRow.keys (.order id) s.orders

/-- The run row with an `id`. -/
def run? (id : ℕ) : Option RunRow := Tables.find RunRow.keys (.run id) s.runs

/-- The row with a key. -/
def look : Key → Option Row
  | .event e => (s.event? e).map .event
  | .eventPk n => (s.eventAt? n).map .event
  | .delivery n => (Tables.find DeliveryRow.keys (.delivery n) s.deliveries).map .delivery
  | .order o => (s.order? o).map .order
  | .history n => (Tables.find HistoryRow.keys (.history n) s.history).map .history
  | .historyEvent e => (Tables.find HistoryRow.keys (.historyEvent e) s.history).map .history
  | .run n => (s.run? n).map .run
  | .detail n => (Tables.find DetailRow.keys (.detail n) s.details).map .detail
  | .advisory _ => none

/-- No unique key is taken twice. -/
structure Keyed : Prop where
  events : Tables.Keyed EventRow.keys s.events
  deliveries : Tables.Keyed DeliveryRow.keys s.deliveries
  orders : Tables.Keyed OrderRow.keys s.orders
  history : Tables.Keyed HistoryRow.keys s.history
  runs : Tables.Keyed RunRow.keys s.runs
  details : Tables.Keyed DetailRow.keys s.details

end Store

/-! ## Row versions -/

/-- A row version that a transaction has written. -/
inductive Write where
  | insert (r : Row)
  | update (r : Row)
  deriving DecidableEq, Repr

/-- The row a write installs. -/
def Write.row : Write → Row
  | insert r => r
  | update r => r

/-- Install a row version. -/
def Store.apply (s : Store) : Write → Store
  | .insert (.event r) => { s with events := s.events ++ [r] }
  | .insert (.delivery r) => { s with deliveries := s.deliveries ++ [r] }
  | .insert (.order r) => { s with orders := s.orders ++ [r] }
  | .insert (.history r) => { s with history := s.history ++ [r] }
  | .insert (.run r) => { s with runs := s.runs ++ [r] }
  | .insert (.detail r) => { s with details := s.details ++ [r] }
  | .update (.event r) => { s with events := Tables.replace EventRow.keys r s.events }
  | .update (.delivery r) => { s with deliveries := Tables.replace DeliveryRow.keys r s.deliveries }
  | .update (.order r) => { s with orders := Tables.replace OrderRow.keys r s.orders }
  | .update (.history r) => { s with history := Tables.replace HistoryRow.keys r s.history }
  | .update (.run r) => { s with runs := Tables.replace RunRow.keys r s.runs }
  | .update (.detail r) => { s with details := Tables.replace DetailRow.keys r s.details }

/-! ## The surroundings -/

/-- An error a request can end in: the unique index that rejected a row, the other reports of
PostgreSQL, and the `TypeError` of reading a property of `undefined`. -/
inductive DbError where
  | uniqueViolation (k : Key)
  | foreignKeyViolation
  | invalidValue
  | noTransaction
  | typeError
  | reported (message : String)
  deriving DecidableEq, Repr

/-- What the service uses of its surroundings.  `none` of `dateParse` is an invalid `Date`. -/
class Platform where
  sha256Hex : List UInt8 → String
  sha256Hex_fits : ∀ bytes, varcharFits 64 (sha256Hex bytes) = true
  /-- `new Date(text).getTime()`. -/
  dateParse : String → Option Timestamp
  /-- `s.toUpperCase()`. -/
  toUpperCase : String → String
  /-- The check of `@IsDateString()`. -/
  isDateString : String → Bool
  /-- A text read as `TIMESTAMPTZ`. -/
  timestamptzIn : String → Option Timestamp
  /-- PostgreSQL accepts the text as `jsonb`. -/
  jsonbIn : List UInt8 → Bool
  /-- The message of an error. -/
  errorMessage : DbError → String

/-! ## Lookups after a write -/

namespace Store

variable {s : Store}

theorem keyed_empty : empty.Keyed :=
  ⟨by simp [empty], by simp [empty], by simp [empty], by simp [empty], by simp [empty],
    by simp [empty]⟩

/-- A write that the constraints admit: an inserted row takes no key that is taken, an updated
row replaces a version with the same keys. -/
def Admits (s : Store) : Write → Prop
  | .insert r => ∀ k ∈ r.keys, s.look k = none
  | .update r => ∃ old : Row, old.keys = r.keys ∧ ∀ k ∈ r.keys, s.look k = some old

private theorem map_ite {α β : Type} (c : Prop) [Decidable c] (f : α → β) (a : α)
    (x : Option α) : (if c then some a else x).map f = if c then some (f a) else x.map f := by
  split <;> rfl

/-- What is found after an insertion. -/
theorem look_insert {r : Row} (h : ∀ k ∈ r.keys, s.look k = none) (k : Key) :
    (s.apply (.insert r)).look k = if k ∈ r.keys then some r else s.look k := by
  rcases r with r | r | r | r | r | r
  · have h' : ∀ k ∈ r.keys, Tables.find EventRow.keys k s.events = none := by
      simpa [Row.keys, EventRow.keys, look, event?, eventAt?] using h
    cases k <;>
      simp only [apply, look, event?, eventAt?, order?, run?, Row.keys,
        Tables.find_append _ h', map_ite] <;> simp [EventRow.keys]
  · have h' : ∀ k ∈ r.keys, Tables.find DeliveryRow.keys k s.deliveries = none := by
      simpa [Row.keys, DeliveryRow.keys, look] using h
    cases k <;>
      simp only [apply, look, event?, eventAt?, order?, run?, Row.keys,
        Tables.find_append _ h', map_ite] <;> simp [DeliveryRow.keys]
  · have h' : ∀ k ∈ r.keys, Tables.find OrderRow.keys k s.orders = none := by
      simpa [Row.keys, OrderRow.keys, look, order?] using h
    cases k <;>
      simp only [apply, look, event?, eventAt?, order?, run?, Row.keys,
        Tables.find_append _ h', map_ite] <;> simp [OrderRow.keys]
  · have h' : ∀ k ∈ r.keys, Tables.find HistoryRow.keys k s.history = none := by
      simpa [Row.keys, HistoryRow.keys, look] using h
    cases k <;>
      simp only [apply, look, event?, eventAt?, order?, run?, Row.keys,
        Tables.find_append _ h', map_ite] <;> simp [HistoryRow.keys]
  · have h' : ∀ k ∈ r.keys, Tables.find RunRow.keys k s.runs = none := by
      simpa [Row.keys, RunRow.keys, look, run?] using h
    cases k <;>
      simp only [apply, look, event?, eventAt?, order?, run?, Row.keys,
        Tables.find_append _ h', map_ite] <;> simp [RunRow.keys]
  · have h' : ∀ k ∈ r.keys, Tables.find DetailRow.keys k s.details = none := by
      simpa [Row.keys, DetailRow.keys, look] using h
    cases k <;>
      simp only [apply, look, event?, eventAt?, order?, run?, Row.keys,
        Tables.find_append _ h', map_ite] <;> simp [DetailRow.keys]

/-- What is found after an update. -/
theorem look_update (hs : s.Keyed) {r : Row} (h : s.Admits (.update r)) (k : Key) :
    (s.apply (.update r)).look k = if k ∈ r.keys then some r else s.look k := by
  obtain ⟨old, hold, hlook⟩ := h
  rcases r with r | r | r | r | r | r
  · obtain ⟨x, hx, rfl⟩ := Option.map_eq_some_iff.mp
      (hlook (.event r.eventId) (by simp [Row.keys, EventRow.keys]))
    have h' := Tables.find_replace hs.events (Tables.mem_of_find hx).1 hold
    cases k <;>
      simp only [apply, look, event?, eventAt?, order?, run?, Row.keys, h', map_ite] <;>
      simp [EventRow.keys]
  · obtain ⟨x, hx, rfl⟩ := Option.map_eq_some_iff.mp
      (hlook (.delivery r.id) (by simp [Row.keys, DeliveryRow.keys]))
    have h' := Tables.find_replace hs.deliveries (Tables.mem_of_find hx).1 hold
    cases k <;>
      simp only [apply, look, event?, eventAt?, order?, run?, Row.keys, h', map_ite] <;>
      simp [DeliveryRow.keys]
  · obtain ⟨x, hx, rfl⟩ := Option.map_eq_some_iff.mp
      (hlook (.order r.id) (by simp [Row.keys, OrderRow.keys]))
    have h' := Tables.find_replace hs.orders (Tables.mem_of_find hx).1 hold
    cases k <;>
      simp only [apply, look, event?, eventAt?, order?, run?, Row.keys, h', map_ite] <;>
      simp [OrderRow.keys]
  · obtain ⟨x, hx, rfl⟩ := Option.map_eq_some_iff.mp
      (hlook (.history r.id) (by simp [Row.keys, HistoryRow.keys]))
    have h' := Tables.find_replace hs.history (Tables.mem_of_find hx).1 hold
    cases k <;>
      simp only [apply, look, event?, eventAt?, order?, run?, Row.keys, h', map_ite] <;>
      simp [HistoryRow.keys]
  · obtain ⟨x, hx, rfl⟩ := Option.map_eq_some_iff.mp
      (hlook (.run r.id) (by simp [Row.keys, RunRow.keys]))
    have h' := Tables.find_replace hs.runs (Tables.mem_of_find hx).1 hold
    cases k <;>
      simp only [apply, look, event?, eventAt?, order?, run?, Row.keys, h', map_ite] <;>
      simp [RunRow.keys]
  · obtain ⟨x, hx, rfl⟩ := Option.map_eq_some_iff.mp
      (hlook (.detail r.id) (by simp [Row.keys, DetailRow.keys]))
    have h' := Tables.find_replace hs.details (Tables.mem_of_find hx).1 hold
    cases k <;>
      simp only [apply, look, event?, eventAt?, order?, run?, Row.keys, h', map_ite] <;>
      simp [DetailRow.keys]

/-- An admitted insertion takes no key twice. -/
theorem Keyed.insert (hs : s.Keyed) {r : Row} (h : s.Admits (.insert r)) :
    (s.apply (.insert r)).Keyed := by
  obtain ⟨h1, h2, h3, h4, h5, h6⟩ := hs
  rcases r with r | r | r | r | r | r
  · exact ⟨h1.append (by simpa [Admits, Row.keys, EventRow.keys, look, event?, eventAt?] using h),
      h2, h3, h4, h5, h6⟩
  · exact ⟨h1, h2.append (by simpa [Admits, Row.keys, DeliveryRow.keys, look] using h),
      h3, h4, h5, h6⟩
  · exact ⟨h1, h2, h3.append (by simpa [Admits, Row.keys, OrderRow.keys, look, order?] using h),
      h4, h5, h6⟩
  · exact ⟨h1, h2, h3, h4.append (by simpa [Admits, Row.keys, HistoryRow.keys, look] using h),
      h5, h6⟩
  · exact ⟨h1, h2, h3, h4, h5.append (by simpa [Admits, Row.keys, RunRow.keys, look, run?] using h),
      h6⟩
  · exact ⟨h1, h2, h3, h4, h5, h6.append (by simpa [Admits, Row.keys, DetailRow.keys, look] using h)⟩

/-- An update takes no new key. -/
theorem Keyed.update (hs : s.Keyed) (r : Row) : (s.apply (.update r)).Keyed := by
  obtain ⟨h1, h2, h3, h4, h5, h6⟩ := hs
  rcases r with r | r | r | r | r | r
  · exact ⟨h1.replace, h2, h3, h4, h5, h6⟩
  · exact ⟨h1, h2.replace, h3, h4, h5, h6⟩
  · exact ⟨h1, h2, h3.replace, h4, h5, h6⟩
  · exact ⟨h1, h2, h3, h4.replace, h5, h6⟩
  · exact ⟨h1, h2, h3, h4, h5.replace, h6⟩
  · exact ⟨h1, h2, h3, h4, h5, h6.replace⟩

/-- **What is found after a write**: the written row under its keys, and what was found before
under all others. -/
theorem look_apply (hs : s.Keyed) {w : Write} (h : s.Admits w) (k : Key) :
    (s.apply w).look k = if k ∈ w.row.keys then some w.row else s.look k := by
  cases w with
  | insert r => exact look_insert h k
  | update r => exact look_update hs h k

/-- A write that the constraints admit takes no key twice. -/
theorem Keyed.apply (hs : s.Keyed) {w : Write} (h : s.Admits w) : (s.apply w).Keyed := by
  cases w with
  | insert r => exact hs.insert h
  | update r => exact hs.update r

/-- The constraints admit the writes one after the other. -/
def AdmitsAll (s : Store) : List Write → Prop
  | [] => True
  | w :: ws => s.Admits w ∧ (s.apply w).AdmitsAll ws

theorem Keyed.applyAll (hs : s.Keyed) {ws : List Write} (h : s.AdmitsAll ws) :
    (ws.foldl Store.apply s).Keyed := by
  induction ws generalizing s with
  | nil => exact hs
  | cons w ws ih => exact ih (hs.apply h.1) h.2

/-- Writes change nothing under keys they do not write. -/
theorem look_applyAll_of_notMem (hs : s.Keyed) {ws : List Write} (h : s.AdmitsAll ws) {k : Key}
    (hk : ∀ w ∈ ws, k ∉ w.row.keys) : (ws.foldl Store.apply s).look k = s.look k := by
  induction ws generalizing s with
  | nil => rfl
  | cons w ws ih =>
    rw [List.foldl_cons, ih (hs.apply h.1) h.2 (fun w' hw' => hk w' (by simp [hw'])),
      look_apply hs h.1, if_neg (hk w (by simp))]

/-- Stores that agree under a key agree under it after the same writes. -/
theorem look_applyAll_congr {s' : Store} (hs : s.Keyed) (hs' : s'.Keyed) {ws : List Write}
    (h : s.AdmitsAll ws) (h' : s'.AdmitsAll ws) {k : Key} (hk : s.look k = s'.look k) :
    (ws.foldl Store.apply s).look k = (ws.foldl Store.apply s').look k := by
  induction ws generalizing s s' with
  | nil => exact hk
  | cons w ws ih =>
    refine ih (hs.apply h.1) (hs'.apply h'.1) h.2 h'.2 ?_
    rw [look_apply hs h.1, look_apply hs' h'.1, hk]

end Store

end PaymentWebhook
