import PaymentWebhook.Provider
import PaymentWebhook.Statements

set_option relaxedAutoImplicit false
set_option autoImplicit false

/-!
# Reconciliation

`ReconciliationRepository.executeReconciliation`: one transaction that compares every order of a
provider snapshot with the local one and repairs what differs.

## Main definitions

* `PaymentWebhook.matches` — the comparison of case B.
* `PaymentWebhook.reconcileOrder` — one turn of the loop over the snapshot.
* `PaymentWebhook.executeReconciliation` — the whole transaction.
-/

namespace PaymentWebhook

open Transactions

structure ReconciliationDetail where
  orderId : String
  localStatus : Option OrderStatus
  localSequence : Option ℤ
  providerStatus : OrderStatus
  providerSequence : ℤ
  action : ReconciliationAction
  deriving DecidableEq, Repr

/-- `ReconciliationRunResult`. -/
structure ReconciliationRunResult where
  runId : ℕ
  status : RunStatus
  ordersChecked : ℕ
  divergences : ℕ
  repaired : ℕ
  alreadyOk : ℕ
  staleProviderSnapshots : ℕ
  startedAt : Timestamp
  finishedAt : Option Timestamp
  details : List ReconciliationDetail
  deriving DecidableEq, Repr

/-- What the loop over the snapshot accumulates. -/
structure Tally where
  details : List ReconciliationDetail
  repaired : ℕ
  alreadyOk : ℕ
  staleProviderSnapshots : ℕ
  deriving DecidableEq, Repr

def Tally.empty : Tally := ⟨[], 0, 0, 0⟩

/-- `details.push(detail)` and the counter of its action. -/
def Tally.push (t : Tally) (d : ReconciliationDetail) : Tally where
  details := t.details ++ [d]
  repaired := if d.action = .repaired then t.repaired + 1 else t.repaired
  alreadyOk := if d.action = .alreadyOk then t.alreadyOk + 1 else t.alreadyOk
  staleProviderSnapshots :=
    if d.action = .staleProviderSnapshot then t.staleProviderSnapshots + 1
    else t.staleProviderSnapshots

/-- Case B: everything matches. -/
def OrderRow.matches (row : OrderRow) (o : ProviderOrder) : Bool :=
  row.status = o.status && row.lastSequence = o.sequence &&
  normalizeAmount (row.amount.map numericText) = normalizeAmount (some o.amount) &&
  row.currency = some o.currency

/-- The classification of a snapshot order against the locked local row. -/
def classify (o : ProviderOrder) (row : OrderRow) : ReconciliationAction :=
  if o.sequence < row.lastSequence then .staleProviderSnapshot
  else if row.matches o then .alreadyOk
  else .repaired

/-- The detail that is pushed for a snapshot order. -/
def detailOf (o : ProviderOrder) (row : OrderRow) (isNewOrder : Bool) : ReconciliationDetail :=
  let action := classify o row
  { orderId := o.id
    localStatus := if action = .repaired ∧ isNewOrder then none else some row.status
    localSequence := if action = .repaired ∧ isNewOrder then none else some row.lastSequence
    providerStatus := o.status
    providerSequence := o.sequence
    action := action }

/-- The values of the history row of a repair. -/
def repairValues (o : ProviderOrder) (previousStatus : Option OrderStatus) : HistoryValues where
  eventId := none
  orderId := o.id
  sequence := o.sequence
  previousStatus := previousStatus
  newStatus := .known o.status
  outcome := .reconciled
  outcomeReason := some .providerSourceOfTruth
  source := .reconciliation

variable [Platform]

/-- Case C: update the order, insert exactly one history row. -/
def repair (o : ProviderOrder) (previousStatus : Option OrderStatus) : Prog postgres Unit := do
  let _ ← sql (.reconcileOrder o.id o.status o.sequence (some o.amount) (some o.currency))
  sql (.insertHistory (repairValues o previousStatus))

/-- What a turn of the loop does with the locked row: nothing, or case C. -/
def settleOrder (o : ProviderOrder) (t : Tally) (isNewOrder : Bool) (row : OrderRow) :
    Prog postgres Tally :=
  if classify o row = .repaired then do
    repair o (if isNewOrder then none else some row.status)
    pure (t.push (detailOf o row isNewOrder))
  else pure (t.push (detailOf o row isNewOrder))

/-- One turn of the loop over the snapshot. -/
def reconcileOrder (o : ProviderOrder) (t : Tally) : Prog postgres Tally := do
  let isNewOrder ← sql (.insertOrder o.id)
  match ← sql (.selectOrder o.id) with
  | none => .fail DbError.typeError
  | some row => settleOrder o t isNewOrder row

/-- The loop over the snapshot. -/
def reconcileOrders : List ProviderOrder → Tally → Prog postgres Tally
  | [], t => pure t
  | o :: orders, t => do
    let t ← reconcileOrder o t
    reconcileOrders orders t

/-- The values of the row of a detail. -/
def detailValues (runId : ℕ) (d : ReconciliationDetail) : DetailValues where
  runId := runId
  orderId := d.orderId
  localStatus := d.localStatus
  localSequence := d.localSequence
  providerStatus := d.providerStatus
  providerSequence := d.providerSequence
  action := d.action

/-- The loop that writes the details. -/
def insertDetails (runId : ℕ) : List ReconciliationDetail → Prog postgres Unit
  | [] => pure ()
  | d :: details => do
    sql (.insertDetail (detailValues runId d))
    insertDetails runId details

/-- **`ReconciliationRepository.executeReconciliation`**. -/
def executeReconciliation (providerOrders : List ProviderOrder) :
    Prog postgres ReconciliationRunResult :=
  Prog.transaction do
    sql .advisoryLock
    let run ← sql .insertRun
    let t ← reconcileOrders providerOrders Tally.empty
    let divergences := t.repaired + t.staleProviderSnapshots
    insertDetails run.id t.details
    let finished ← sql
      (.completeRun run.id providerOrders.length divergences t.repaired)
    Prog.request (E := postgres) .commit
    match finished with
    | none => .fail DbError.typeError
    | some row =>
      pure
        { runId := run.id
          status := .completed
          ordersChecked := providerOrders.length
          divergences := divergences
          repaired := t.repaired
          alreadyOk := t.alreadyOk
          staleProviderSnapshots := t.staleProviderSnapshots
          startedAt := run.startedAt
          finishedAt := row.finishedAt
          details := t.details }

end PaymentWebhook
