import Mathlib.Algebra.Order.Field.Rat
import Mathlib.Data.Rat.Floor
import PaymentWebhook.Sanitize
import PaymentWebhook.Statements

set_option relaxedAutoImplicit false
set_option autoImplicit false

/-!
# The worker

`PaymentEventProcessor.process`, `RetryPolicy.evaluate` and `WorkerRepository.processOne`.

## Main definitions

* `PaymentWebhook.process` — what an event does to its order.
* `PaymentWebhook.RetryPolicy.evaluate` — retry, or give up.
* `PaymentWebhook.businessBlock` — the statements under the savepoint.
* `PaymentWebhook.processOne` — one turn of the worker.

## Implementation notes

The observer `onClaimed` cannot disturb the transaction and is left out.  The clock and the
random number that the retry policy reads are inputs of the call.
-/

namespace PaymentWebhook

open Transactions

/-! ## The event processor -/

/-- The names of the properties every object inherits. -/
def objectPrototypeKeys : List String :=
  ["constructor", "__defineGetter__", "__defineSetter__", "hasOwnProperty", "__lookupGetter__",
    "__lookupSetter__", "isPrototypeOf", "propertyIsEnumerable", "toString", "valueOf", "__proto__",
    "toLocaleString"]

/-- `EVENT_TYPE_TO_STATUS[eventType] ?? null`. -/
def mapEventToStatus (eventType : String) : Option MappedStatus :=
  if eventType = "payment.pending" then some (.known .pending)
  else if eventType = "payment.authorized" then some (.known .authorized)
  else if eventType = "payment.captured" then some (.known .captured)
  else if eventType = "payment.refunded" then some (.known .refunded)
  else if eventType = "payment.failed" then some (.known .failed)
  else if eventType ∈ objectPrototypeKeys then some .inherited
  else none

/-- `ProcessingResult.outcome`. -/
inductive ProcessingOutcome where
  | applied | ignored
  deriving DecidableEq, Repr

structure ProcessingResult where
  outcome : ProcessingOutcome
  outcomeReason : Option OutcomeReason
  previousStatus : OrderStatus
  newStatus : MappedStatus
  newSequence : ℤ
  amount : Option String
  currency : Option String
  deriving DecidableEq, Repr

/-- **`PaymentEventProcessor.process`**. -/
def process (event : EventRow) (order : OrderRow) : ProcessingResult :=
  match mapEventToStatus event.eventType with
  | none =>
    { outcome := .ignored
      outcomeReason := some .unknownEventType
      previousStatus := order.status
      newStatus := .known order.status
      newSequence := order.lastSequence
      amount := none
      currency := none }
  | some targetStatus =>
    if event.sequence > order.lastSequence then
      { outcome := .applied
        outcomeReason := none
        previousStatus := order.status
        newStatus := targetStatus
        newSequence := event.sequence
        amount := event.payload.data.bind PaymentWebhookData.amount
        currency := event.payload.data.bind PaymentWebhookData.currency }
    else
      { outcome := .ignored
        outcomeReason := some .staleSequence
        previousStatus := order.status
        newStatus := .known order.status
        newSequence := order.lastSequence
        amount := none
        currency := none }

/-- When an event is applied. -/
theorem process_applied {event : EventRow} {order : OrderRow}
    (h : (process event order).outcome = .applied) :
    ∃ target, mapEventToStatus event.eventType = some target ∧
      order.lastSequence < event.sequence ∧ process event order =
        ⟨.applied, none, order.status, target, event.sequence,
          event.payload.data.bind PaymentWebhookData.amount,
          event.payload.data.bind PaymentWebhookData.currency⟩ := by
  unfold process at h ⊢
  cases hmap : mapEventToStatus event.eventType with
  | none => simp [hmap] at h
  | some target =>
    by_cases hseq : event.sequence > order.lastSequence
    · exact ⟨target, rfl, hseq, by simp [hseq]⟩
    · simp [hmap, hseq] at h

/-- When an event is ignored. -/
theorem process_ignored {event : EventRow} {order : OrderRow}
    (h : (process event order).outcome = .ignored) :
    ∃ reason, process event order =
        ⟨.ignored, some reason, order.status, .known order.status, order.lastSequence, none, none⟩ ∧
      ((mapEventToStatus event.eventType = none ∧ reason = .unknownEventType) ∨
        ((mapEventToStatus event.eventType).isSome ∧ event.sequence ≤ order.lastSequence ∧
          reason = .staleSequence)) := by
  unfold process at h ⊢
  cases hmap : mapEventToStatus event.eventType with
  | none => exact ⟨_, rfl, .inl ⟨rfl, rfl⟩⟩
  | some target =>
    by_cases hseq : event.sequence > order.lastSequence
    · simp [hmap, hseq] at h
    · exact ⟨_, by simp [hseq], .inr ⟨rfl, not_lt.mp hseq, rfl⟩⟩

/-! ## The retry policy -/

/-- The settings that `workerConfig` accepts. -/
structure WorkerConfig where
  maxAttempts : ℕ
  retryBaseMs : ℕ
  retryMaxMs : ℕ
  one_le_maxAttempts : 1 ≤ maxAttempts
  one_le_retryBaseMs : 1 ≤ retryBaseMs
  retryBaseMs_le_retryMaxMs : retryBaseMs ≤ retryMaxMs

/-- The defaults of `workerConfig`. -/
def WorkerConfig.default : WorkerConfig where
  maxAttempts := 5
  retryBaseMs := 500
  retryMaxMs := 30000
  one_le_maxAttempts := by decide
  one_le_retryBaseMs := by decide
  retryBaseMs_le_retryMaxMs := by decide

inductive RetryOrDlq where
  | retry (attemptCount delayMs : ℕ) (nextAttemptAt : Timestamp)
  | dlq (attemptCount : ℕ)
  deriving DecidableEq, Repr

/-- **`RetryPolicy.evaluate`**; `random` is what `Math.random()` returns. -/
def RetryPolicy.evaluate (cfg : WorkerConfig) (currentAttemptCount : ℕ) (now : Timestamp)
    (random : ℚ) : RetryOrDlq :=
  let newAttemptCount := currentAttemptCount + 1
  if newAttemptCount ≥ cfg.maxAttempts then .dlq newAttemptCount
  else
    let cap := min cfg.retryMaxMs (cfg.retryBaseMs * 2 ^ (newAttemptCount - 1))
    let delayMs := ⌊random * cap⌋.toNat
    .retry newAttemptCount delayMs (now + 1000 * delayMs)

/-! ## One turn of the worker -/

/-- What a turn of the worker reads outside the database. -/
structure WorkerInput where
  now : Timestamp
  random : ℚ
  deriving DecidableEq, Repr

/-- `ProcessOneResult.outcome`. -/
inductive WorkerOutcome where
  | applied | ignored | retryScheduled | dlq
  deriving DecidableEq, Repr

def ProcessingOutcome.toWorker : ProcessingOutcome → WorkerOutcome
  | applied => .applied
  | ignored => .ignored

/-- The fields of a `ProcessOneResult` with `found: true`. -/
structure Processed where
  eventId : String
  orderId : String
  outcome : WorkerOutcome
  outcomeReason : Option OutcomeReason
  correlationId : String
  sequence : ℤ
  attemptCount : ℕ
  nextAttemptAt : Option Timestamp
  deriving DecidableEq, Repr

/-- `ProcessOneResult`. -/
inductive ProcessOneResult where
  | notFound
  | found (p : Processed)
  deriving DecidableEq, Repr

variable [Platform]

/-- What `processOne` answers about an event it has finished with. -/
def processed (event : EventRow) (outcome : WorkerOutcome) (reason : Option OutcomeReason)
    (attemptCount : ℕ) (nextAttemptAt : Option Timestamp) : ProcessOneResult :=
  .found
    { eventId := event.eventId
      orderId := event.orderId
      outcome := outcome
      outcomeReason := reason
      correlationId := event.correlationId
      sequence := event.sequence
      attemptCount := attemptCount
      nextAttemptAt := nextAttemptAt }

/-- The values of the history row of an event. -/
def historyValues (event : EventRow) (previous : OrderStatus) (new : MappedStatus)
    (outcome : HistoryOutcome) (reason : Option OutcomeReason) : HistoryValues where
  eventId := some event.eventId
  orderId := event.orderId
  sequence := event.sequence
  previousStatus := some previous
  newStatus := new
  outcome := outcome
  outcomeReason := reason
  source := .webhook

/-- The statements that follow `process`. -/
def writeResult (event : EventRow) (result : ProcessingResult) : Prog postgres Unit :=
  match result.outcome with
  | .applied => do
    let _ ← sql (.applyToOrder event.orderId result.newStatus result.newSequence result.amount
      result.currency)
    sql (.insertHistory
      (historyValues event result.previousStatus result.newStatus .applied none))
    let _ ← sql (.markApplied event.id)
    pure ()
  | .ignored => do
    sql (.insertHistory
      (historyValues event result.previousStatus result.newStatus .ignored result.outcomeReason))
    let _ ← sql (.markIgnored event.id result.outcomeReason)
    pure ()

/-- The block under the savepoint. -/
def businessBlock (event : EventRow) : Prog postgres ProcessingResult := do
  let _ ← sql (.insertOrder event.orderId)
  match ← sql (.selectOrder event.orderId) with
  -- `process` reads a property of `undefined`
  | none => .fail DbError.typeError
  | some order =>
    let result := process event order
    writeResult event result
    pure result

/-- What follows a failure of the business block. -/
def recover (cfg : WorkerConfig) (input : WorkerInput) (event : EventRow)
    (businessError : DbError) : Prog postgres ProcessOneResult := do
  Prog.request (E := postgres) .rollbackTo
  Prog.request (E := postgres) .release
  let errorMessage := sanitizeError (Platform.errorMessage businessError)
  match RetryPolicy.evaluate cfg event.attemptCount input.now input.random with
  | .dlq attemptCount =>
    let _ ← sql (.markDlq event.id attemptCount errorMessage)
    Prog.request (E := postgres) .commit
    pure (processed event .dlq (some .maxAttemptsExhausted) attemptCount none)
  | .retry attemptCount _ nextAttemptAt =>
    let _ ← sql
      (.markRetryScheduled event.id attemptCount nextAttemptAt errorMessage)
    Prog.request (E := postgres) .commit
    pure (processed event .retryScheduled (some .transientError) attemptCount (some nextAttemptAt))

/-- What follows the claim of an event. -/
def processClaimed (cfg : WorkerConfig) (input : WorkerInput) (event : EventRow) :
    Prog postgres ProcessOneResult := do
  Prog.request (E := postgres) .savepoint
  match ← Prog.attempt (businessBlock event) with
  | .error businessError => recover cfg input event businessError
  | .ok result =>
    Prog.request (E := postgres) .release
    Prog.request (E := postgres) .commit
    pure (processed event result.outcome.toWorker result.outcomeReason event.attemptCount none)

/-- **`WorkerRepository.processOne`**. -/
def processOne (cfg : WorkerConfig) (input : WorkerInput) : Prog postgres ProcessOneResult :=
  Prog.transaction do
    match ← sql .claim with
    | none =>
      Prog.request (E := postgres) .commit
      pure .notFound
    | some event => processClaimed cfg input event

end PaymentWebhook
