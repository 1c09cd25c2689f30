import PaymentWebhook.Statements

set_option relaxedAutoImplicit false
set_option autoImplicit false

/-!
# Replay of the dead-letter queue

`DlqRepository.replay`.
-/

namespace PaymentWebhook

open Transactions

/-- `ReplayResult`. -/
inductive ReplayResult where
  | replayed (id : ℕ) (eventId : String) (status : ProcessingStatus) (replayCount : ℕ)
  | notInDlq (id : ℕ) (eventId : String) (status : ProcessingStatus)
  deriving DecidableEq, Repr

variable [Platform]

/-- **`DlqRepository.replay`**; `none` for an unknown id. -/
def replay (id : ℕ) : Prog postgres (Option ReplayResult) :=
  Prog.transaction do
    match ← sql (.selectEvent id) with
    | none =>
      Prog.request (E := postgres) .commit
      pure none
    | some event =>
      if event.processingStatus = .dlq then
        let updated ← sql (.replayEvent id)
        Prog.request (E := postgres) .commit
        match updated with
        | none => .fail DbError.typeError
        | some e => pure (some (.replayed e.id e.eventId e.processingStatus e.replayCount))
      else
        Prog.request (E := postgres) .commit
        pure (some (.notInDlq event.id event.eventId event.processingStatus))

end PaymentWebhook
