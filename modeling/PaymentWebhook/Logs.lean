import PaymentWebhook.Dlq
import PaymentWebhook.Reconciliation
import PaymentWebhook.Webhooks
import PaymentWebhook.Worker

set_option relaxedAutoImplicit false
set_option autoImplicit false

/-!
# What each call commits

A call commits one log or none.  This file says which logs the four procedures of the service can
commit, statement by statement with the answers they got, and proves it of the procedures by
weakest preconditions.  Everything about committed states is later derived from these logs, and no
proof looks at the procedures again.

## Main definitions

* `PaymentWebhook.WorkerLog`, `PaymentWebhook.ReplayLog`, `PaymentWebhook.ReconciliationLog` — the
  logs, each with the answer of the call.

## Main results

* `PaymentWebhook.wp_processOne`, `PaymentWebhook.wp_ingest`, `PaymentWebhook.wp_replay`,
  `PaymentWebhook.wp_executeReconciliation` — the procedures commit these logs and answer
  accordingly.
-/

namespace PaymentWebhook

open Transactions

variable [Platform]

/-- What a transaction has executed. -/
abbrev Log := List (Entry postgres)

/-! ## The logs

Each is indexed by the answer of the call; `none` if the call throws although it has committed. -/

/-- The statements of the business block, once it has succeeded. -/
inductive BusinessLog (event : EventRow) : Log → ProcessingResult → Prop where
  | applied {d₁ d₂ d₃ d₄ d₅ : Draws} {w₁ w₂ w₃ w₄ w₅ : List Write} {isNew m₃ m₅ : Bool}
      {order : OrderRow} (h : (process event order).outcome = .applied) :
      BusinessLog event
        [⟨.insertOrder event.orderId, d₁, isNew, w₁⟩,
          ⟨.selectOrder event.orderId, d₂, some order, w₂⟩,
          ⟨.applyToOrder event.orderId (process event order).newStatus
            (process event order).newSequence (process event order).amount
            (process event order).currency, d₃, m₃, w₃⟩,
          ⟨.insertHistory (historyValues event (process event order).previousStatus
            (process event order).newStatus .applied none), d₄, (), w₄⟩,
          ⟨.markApplied event.id, d₅, m₅, w₅⟩]
        (process event order)
  | ignored {d₁ d₂ d₄ d₅ : Draws} {w₁ w₂ w₄ w₅ : List Write} {isNew m₅ : Bool}
      {order : OrderRow} (h : (process event order).outcome = .ignored) :
      BusinessLog event
        [⟨.insertOrder event.orderId, d₁, isNew, w₁⟩,
          ⟨.selectOrder event.orderId, d₂, some order, w₂⟩,
          ⟨.insertHistory (historyValues event (process event order).previousStatus
            (process event order).newStatus .ignored (process event order).outcomeReason),
            d₄, (), w₄⟩,
          ⟨.markIgnored event.id (process event order).outcomeReason, d₅, m₅, w₅⟩]
        (process event order)

/-- The logs of `processOne`, with its answer. -/
inductive WorkerLog (cfg : WorkerConfig) (input : WorkerInput) :
    Log → Option ProcessOneResult → Prop where
  | idle {d : Draws} {w : List Write} :
      WorkerLog cfg input [⟨.claim, d, none, w⟩] (some .notFound)
  | done {d : Draws} {w : List Write} {event : EventRow} {log : Log} {result : ProcessingResult}
      (h : BusinessLog event log result) :
      WorkerLog cfg input (⟨.claim, d, some event, w⟩ :: log)
        (some (processed event result.outcome.toWorker result.outcomeReason event.attemptCount none))
  | retried {d d' : Draws} {w w' : List Write} {m : Bool} {event : EventRow} {error : DbError}
      {attemptCount delayMs : ℕ} {nextAttemptAt : Timestamp}
      (h : RetryPolicy.evaluate cfg event.attemptCount input.now input.random =
        .retry attemptCount delayMs nextAttemptAt) :
      WorkerLog cfg input
        [⟨.claim, d, some event, w⟩,
          ⟨.markRetryScheduled event.id attemptCount nextAttemptAt
            (sanitizeError (Platform.errorMessage error)), d', m, w'⟩]
        (some (processed event .retryScheduled (some .transientError) attemptCount
          (some nextAttemptAt)))
  | buried {d d' : Draws} {w w' : List Write} {m : Bool} {event : EventRow} {error : DbError}
      {attemptCount : ℕ}
      (h : RetryPolicy.evaluate cfg event.attemptCount input.now input.random = .dlq attemptCount) :
      WorkerLog cfg input
        [⟨.claim, d, some event, w⟩,
          ⟨.markDlq event.id attemptCount (sanitizeError (Platform.errorMessage error)), d', m, w'⟩]
        (some (processed event .dlq (some .maxAttemptsExhausted) attemptCount none))

/-- The log of `ingest`, with its answer. -/
inductive IngestLog (req : WebhookRequest) : Log → Option IngestionResult → Prop where
  | saved {d : Draws} {w : List Write} {row : CteRow} :
      IngestLog req [⟨.upsertAndDeliver req.event req.delivery, d, row, w⟩]
        (some ⟨req.rawBody.json.eventId, row.deliveryResult,
          "Webhook stored for asynchronous processing"⟩)

/-- The logs of `replay`, with what it answers if the last statement found its row. -/
inductive ReplayLog (id : ℕ) : Log → Option (Option ReplayResult) → Prop where
  | missing {d : Draws} {w : List Write} : ReplayLog id [⟨.selectEvent id, d, none, w⟩] (some none)
  | replayed {d d' : Draws} {w w' : List Write} {event : EventRow} {updated : Option EventRow}
      (h : event.processingStatus = .dlq) :
      ReplayLog id [⟨.selectEvent id, d, some event, w⟩, ⟨.replayEvent id, d', updated, w'⟩]
        (updated.map fun e => some (.replayed e.id e.eventId e.processingStatus e.replayCount))
  | notInDlq {d : Draws} {w : List Write} {event : EventRow} (h : event.processingStatus ≠ .dlq) :
      ReplayLog id [⟨.selectEvent id, d, some event, w⟩]
        (some (some (.notInDlq event.id event.eventId event.processingStatus)))

/-- The statements of one turn of the loop over the snapshot. -/
inductive TurnLog (o : ProviderOrder) (t : Tally) : Log → Tally → Prop where
  | kept {d₁ d₂ : Draws} {w₁ w₂ : List Write} {isNew : Bool} {row : OrderRow}
      (h : classify o row ≠ .repaired) :
      TurnLog o t
        [⟨.insertOrder o.id, d₁, isNew, w₁⟩, ⟨.selectOrder o.id, d₂, some row, w₂⟩]
        (t.push (detailOf o row isNew))
  | repaired {d₁ d₂ d₃ d₄ : Draws} {w₁ w₂ w₃ w₄ : List Write} {isNew m₃ : Bool} {row : OrderRow}
      (h : classify o row = .repaired) :
      TurnLog o t
        [⟨.insertOrder o.id, d₁, isNew, w₁⟩, ⟨.selectOrder o.id, d₂, some row, w₂⟩,
          ⟨.reconcileOrder o.id o.status o.sequence (some o.amount) (some o.currency), d₃, m₃, w₃⟩,
          ⟨.insertHistory (repairValues o (if isNew then none else some row.status)), d₄, (), w₄⟩]
        (t.push (detailOf o row isNew))

/-- The statements of the loop over the snapshot. -/
inductive LoopLog : List ProviderOrder → Tally → Log → Tally → Prop where
  | nil (t : Tally) : LoopLog [] t [] t
  | cons {o : ProviderOrder} {orders : List ProviderOrder} {t t' t'' : Tally} {turn log : Log}
      (hturn : TurnLog o t turn t') (htail : LoopLog orders t' log t'') :
      LoopLog (o :: orders) t (turn ++ log) t''

/-- The statements of the loop that writes the details. -/
inductive DetailsLog (runId : ℕ) : List ReconciliationDetail → Log → Prop where
  | nil : DetailsLog runId [] []
  | cons {detail : ReconciliationDetail} {details : List ReconciliationDetail} {log : Log}
      {d : Draws} {w : List Write} (htail : DetailsLog runId details log) :
      DetailsLog runId (detail :: details)
        (⟨.insertDetail (detailValues runId detail), d, (), w⟩ :: log)

/-- The answer of a reconciliation. -/
def runResult (orders : List ProviderOrder) (run : RunRow) (t : Tally) (finished : RunRow) :
    ReconciliationRunResult where
  runId := run.id
  status := .completed
  ordersChecked := orders.length
  divergences := t.repaired + t.staleProviderSnapshots
  repaired := t.repaired
  alreadyOk := t.alreadyOk
  staleProviderSnapshots := t.staleProviderSnapshots
  startedAt := run.startedAt
  finishedAt := finished.finishedAt
  details := t.details

/-- The logs of `executeReconciliation`, with what it answers if the last statement found its
row. -/
inductive ReconciliationLog (orders : List ProviderOrder) :
    Log → Option ReconciliationRunResult → Prop where
  | completed {d₁ d₂ d₃ : Draws} {w₁ w₂ w₃ : List Write} {run : RunRow} {finished : Option RunRow}
      {t : Tally} {loop details : Log} (hloop : LoopLog orders Tally.empty loop t)
      (hdetails : DetailsLog run.id t.details details) :
      ReconciliationLog orders
        (⟨.advisoryLock, d₁, (), w₁⟩ :: ⟨.insertRun, d₂, run, w₂⟩ :: (loop ++ details ++
          [⟨.completeRun run.id orders.length (t.repaired + t.staleProviderSnapshots) t.repaired,
            d₃, finished, w₃⟩]))
        (finished.map (runResult orders run t))

/-! ## How the procedures are careful -/

section Careful

variable {α β : Type} (S : Log → Option α → Prop)

/-- The statement writes at most an order row. -/
def OrderStatement : Stmt → Prop
  | .insertOrder _ => True
  | .selectOrder _ => True
  | .applyToOrder _ _ _ _ _ => True
  | _ => False

/-- The call has committed nothing; or it has committed one of its logs and was told that its
`COMMIT` had failed, or has failed after the commit. -/
def Settled (c : Conn postgres) : Prop := c.commits = [] ∨
  ∃ log x, c.commits = [log] ∧ S log x ∧ (x = none ∨ .commit ∈ c.rejected)

/-- What holds at every request of a call: nothing but a final `ROLLBACK` follows a commit, what
is committed is one of the logs, and the history row of an event is written only after its claim,
by a transaction that has written no history yet. -/
structure Careful (r : Request postgres) (c : Conn postgres) : Prop where
  settled : Settled S c
  fresh : r ≠ .rollback → c.commits = []
  commit : r = .commit → ∀ t, c.tx = some t → t.aborted = false → ∃ x, S t.log x
  history : ∀ v eventId, r = .run (Stmt.insertHistory v) → v.eventId = some eventId →
    ∀ t, c.tx = some t → ∃ event d w log, t.log = ⟨Stmt.claim, d, some event, w⟩ :: log ∧
      event.eventId = eventId ∧ ∀ e ∈ log, OrderStatement e.stmt

/-- The answer of a call names the log it has committed. -/
def Truthful : Post postgres α
  | .ok a, c => ∃ log, c.commits = [log] ∧ S log (some a)
  | .error _, c => Settled S c

/-- The postcondition of the body of a transaction. -/
def BodyPost : Post postgres α
  | .ok a, c => Truthful S (.ok a) c
  | .error e, c => Prog.Unwinds (Careful S) (Truthful S) e c

variable {S}

/-- Before its commit, a call may make any request but a commit or an insertion of history. -/
theorem Careful.of_nil {r : Request postgres} {tx : Option (Tx postgres)}
    {rj : List (Request postgres)} (hc : r ≠ .commit)
    (hh : ∀ v, r = .run (Stmt.insertHistory v) → v.eventId = none) :
    Careful S r ⟨tx, [], rj⟩ where
  settled := .inl rfl
  fresh := fun _ => rfl
  commit := fun h => absurd h hc
  history := fun v eventId hr hv => by simp [hh v hr] at hv

theorem Careful.rollback {c : Conn postgres} (h : Settled S c) : Careful S .rollback c where
  settled := h
  fresh := fun h => absurd rfl h
  commit := fun h => by cases h
  history := fun v eventId h => by cases h

/-- Throwing before the commit. -/
theorem bodyPost_error {e : DbError} {tx : Option (Tx postgres)} {rj : List (Request postgres)} :
    BodyPost S (.error e) ⟨tx, [], rj⟩ :=
  ⟨Careful.rollback (.inl rfl), fun _ _ _ _ => .inl rfl⟩

/-- Throwing at the commit or after it. -/
theorem bodyPost_error_of_commit {e : DbError} {tx : Option (Tx postgres)} {log : Log}
    {x : Option α} {rj : List (Request postgres)} (h : S log x)
    (hx : x = none ∨ .commit ∈ rj) : BodyPost S (.error e) ⟨tx, [log], rj⟩ := by
  refine ⟨Careful.rollback (.inr ⟨log, x, rfl, h, hx⟩), fun _ rj' _ hrj => .inr ⟨log, x, rfl, h, ?_⟩⟩
  refine hx.imp_right fun hmem => ?_
  rcases hrj with rfl | rfl
  · exact hmem
  · exact List.mem_append.mpr (.inl hmem)

variable {b : Draws} {log l : Log} {saved : Option Log} {rj : List (Request postgres)}
  {f : α → Prog postgres β}

/-- A statement, and what follows it. -/
theorem wp_sql {q : Stmt} {f : q.Rows → Prog postgres β} {Q : Post postgres β}
    (hA : ∀ v eventId, q = .insertHistory v → v.eventId = some eventId →
      ∃ event d w l, log = ⟨Stmt.claim, d, some event, w⟩ :: l ∧ event.eventId = eventId ∧
        ∀ e ∈ l, OrderStatement e.stmt)
    (herr : ∀ e tx rj', (tx = none ∨ ∃ ab, tx = some ⟨b, log, saved, ab⟩) →
      Q (.error e) ⟨tx, [], rj'⟩)
    (hok : ∀ d rows ws,
      (f rows).wp Rely.any (Careful S) Q ⟨some ⟨b, log ++ [⟨q, d, rows, ws⟩], saved, false⟩, [], rj⟩) :
    (sql q >>= f).wp Rely.any (Careful S) Q ⟨some ⟨b, log, saved, false⟩, [], rj⟩ := by
  refine Prog.wp_bind _ _ _ (Prog.wp_query ?_ (fun _ d _ rows ws _ _ => hok d rows ws)
    fun e tx htx => herr e tx _ ?_)
  · refine ⟨.inl rfl, fun _ => rfl, nofun, fun v eventId hq hv t ht => ?_⟩
    cases ht
    exact hA v eventId (by injection hq) hv
  · exact htx.imp_right fun h => ⟨true, h⟩

/-- A statement of the body of a transaction, outside a savepoint. -/
theorem wp_sql_body {q : Stmt} {f : q.Rows → Prog postgres α}
    (hA : ∀ v, q = .insertHistory v → v.eventId = none)
    (hok : ∀ d rows ws,
      (f rows).wp Rely.any (Careful S) (BodyPost S)
        ⟨some ⟨b, log ++ [⟨q, d, rows, ws⟩], saved, false⟩, [], rj⟩) :
    (sql q >>= f).wp Rely.any (Careful S) (BodyPost S) ⟨some ⟨b, log, saved, false⟩, [], rj⟩ :=
  wp_sql (fun v _ hq hv => by simp [hA v hq] at hv) (fun _ _ _ _ => bodyPost_error) hok

/-- The commit, and what follows it. -/
theorem wp_commit_body {x : Option α} {f : Unit → Prog postgres α} (h : S log x)
    (hok : (f ()).wp Rely.any (Careful S) (BodyPost S) ⟨none, [log], rj⟩) :
    (Prog.request (E := postgres) .commit >>= f).wp Rely.any (Careful S) (BodyPost S)
      ⟨some ⟨b, log, saved, false⟩, [], rj⟩ := by
  refine Prog.wp_bind _ _ _ (Prog.wp_commit ?_ hok (fun e => ?_) fun e => bodyPost_error)
  · refine ⟨.inl rfl, fun _ => rfl, fun _ t ht _ => ?_, fun v eventId h => by cases h⟩
    cases ht
    exact ⟨x, h⟩
  · exact bodyPost_error_of_commit h (.inr (by simp))

/-- The commit and the answer. -/
theorem wp_commit_pure {a : α} (h : S log (some a)) :
    (Prog.request (E := postgres) .commit >>= fun _ => pure a).wp Rely.any (Careful S) (BodyPost S)
      ⟨some ⟨b, log, saved, false⟩, [], rj⟩ :=
  wp_commit_body h ⟨log, rfl, h⟩

/-- The frame of the transaction. -/
theorem wp_transaction_body {body : Prog postgres α}
    (h : ∀ d, body.wp Rely.any (Careful S) (BodyPost S) ⟨some (Tx.opened d), [], []⟩) :
    (Prog.transaction body).wp Rely.any (Careful S) (Truthful S) Conn.fresh := by
  refine Prog.wp_transaction (Careful.of_nil (by simp) (by simp)) (fun e => ?_) fun d => ?_
  · exact bodyPost_error
  · refine Prog.wp_mono (fun x c hx => ?_) _ _ (h d)
    cases x with
    | ok a => exact hx
    | error e => exact hx

end Careful

/-! ## Ingestion and replay -/

/-- **Ingestion** commits its one statement. -/
theorem wp_ingest (req : WebhookRequest) :
    (ingest req).wp Rely.any (Careful (IngestLog req)) (Truthful (IngestLog req)) Conn.fresh := by
  refine wp_transaction_body fun d => wp_sql_body (by simp) fun d row w => ?_
  exact wp_commit_pure .saved

/-- **Replay** commits a read, or a read and the update. -/
theorem wp_replay (id : ℕ) :
    (replay id).wp Rely.any (Careful (ReplayLog id)) (Truthful (ReplayLog id)) Conn.fresh := by
  refine wp_transaction_body fun d => wp_sql_body (by simp) fun d event w => ?_
  cases event with
  | none => exact wp_commit_pure .missing
  | some event =>
    by_cases h : event.processingStatus = .dlq
    · simp only [h, if_true]
      refine wp_sql_body (by simp) fun d' updated w' => ?_
      refine wp_commit_body (.replayed h) ?_
      cases updated with
      | none => exact bodyPost_error_of_commit (.replayed h) (.inl rfl)
      | some e => exact ⟨_, rfl, .replayed h⟩
    · simp only [h, if_false]
      exact wp_commit_pure (.notInDlq h)

/-! ## The worker -/

section Worker

variable {α : Type} {S : Log → Option α → Prop} {b d : Draws} {w : List Write} {event : EventRow}
  {saved : Option Log} {rj : List (Request postgres)}

/-- **The business block** extends the claim by one of its logs, or fails with the savepoint
still set. -/
theorem wp_businessBlock {Q : Post postgres ProcessingResult}
    (herr : ∀ e tx rj', (tx = none ∨ ∃ l ab, tx = some ⟨b, l, saved, ab⟩) →
      Q (.error e) ⟨tx, [], rj'⟩)
    (hok : ∀ log result, BusinessLog event log result →
      Q (.ok result) ⟨some ⟨b, ⟨Stmt.claim, d, some event, w⟩ :: log, saved, false⟩, [], rj⟩) :
    (businessBlock event).wp Rely.any (Careful S) Q
      ⟨some ⟨b, [⟨Stmt.claim, d, some event, w⟩], saved, false⟩, [], rj⟩ := by
  have herr' : ∀ {l : Log} e tx rj', (tx = none ∨ ∃ ab, tx = some ⟨b, l, saved, ab⟩) →
      Q (.error e) ⟨tx, [], rj'⟩ := fun e tx rj' h =>
    herr e tx rj' (h.imp_right fun ⟨ab, h⟩ => ⟨_, ab, h⟩)
  refine wp_sql (by simp) herr' fun d₁ isNew w₁ => ?_
  refine wp_sql (by simp) herr' fun d₂ order w₂ => ?_
  cases order with
  | none => exact herr _ _ _ (.inr ⟨_, false, rfl⟩)
  | some order =>
    refine Prog.wp_bind _ _ _ ?_
    unfold writeResult
    cases hout : (process event order).outcome with
    | applied =>
      refine wp_sql (by simp) herr' fun d₃ m₃ w₃ => ?_
      refine wp_sql (fun v eventId hv he => ?_) herr' fun d₄ _ w₄ => ?_
      · obtain rfl : _ = v := by injection hv
        exact ⟨event, d, w, _, rfl, by simpa [historyValues] using he, by simp [OrderStatement]⟩
      · refine wp_sql (by simp) herr' fun d₅ m₅ w₅ => ?_
        exact hok _ _ (.applied hout)
    | ignored =>
      refine wp_sql (fun v eventId hv he => ?_) herr' fun d₄ _ w₄ => ?_
      · obtain rfl : _ = v := by injection hv
        exact ⟨event, d, w, _, rfl, by simpa [historyValues] using he, by simp [OrderStatement]⟩
      · refine wp_sql (by simp) herr' fun d₅ m₅ w₅ => ?_
        exact hok _ _ (.ignored hout)

variable {cfg : WorkerConfig} {input : WorkerInput}

/-- After a failure of the business block, the retry or the burial of the event is committed, from
the claim alone. -/
theorem wp_recover {error : DbError} {tx : Option (Tx postgres)}
    (htx : tx = none ∨ ∃ l ab, tx = some ⟨b, l, some [⟨Stmt.claim, d, some event, w⟩], ab⟩) :
    (recover cfg input event error).wp Rely.any (Careful (WorkerLog cfg input)) (BodyPost (WorkerLog cfg input))
      ⟨tx, [], rj⟩ := by
  refine Prog.wp_bind _ _ _ ?_
  have hroll : (Prog.request (E := postgres) .rollbackTo).wp Rely.any (Careful (WorkerLog cfg input))
      (fun x c => match x with
        | .ok _ => c = ⟨some ⟨b, [⟨Stmt.claim, d, some event, w⟩],
            some [⟨Stmt.claim, d, some event, w⟩], false⟩, [], rj⟩
        | .error e => BodyPost (WorkerLog cfg input) (.error e) c) ⟨tx, [], rj⟩ := by
    have htx' : ∃ l, tx = none ∨ ∃ ab, tx = some ⟨b, l, some [⟨Stmt.claim, d, some event, w⟩], ab⟩ := by
      rcases htx with rfl | ⟨l, ab, rfl⟩
      · exact ⟨[], .inl rfl⟩
      · exact ⟨l, .inr ⟨ab, rfl⟩⟩
    obtain ⟨l, hl⟩ := htx'
    exact Prog.wp_rollbackTo hl (Careful.of_nil (by simp) (by simp)) rfl fun e tx' => bodyPost_error
  refine Prog.wp_mono (fun x c hx => ?_) _ _ hroll
  cases x with
  | error e => exact hx
  | ok u =>
    obtain rfl := hx
    refine Prog.wp_bind _ _ _ (Prog.wp_release (Careful.of_nil (by simp) (by simp)) ?_
      fun e tx' _ => bodyPost_error)
    cases heval : RetryPolicy.evaluate cfg event.attemptCount input.now input.random with
    | dlq attemptCount =>
      simp only
      exact wp_sql_body (by simp) fun d' m w' => wp_commit_pure (.buried heval)
    | retry attemptCount delayMs nextAttemptAt =>
      simp only
      exact wp_sql_body (by simp) fun d' m w' => wp_commit_pure (.retried heval)

/-- **One turn of the worker** commits one of its logs. -/
theorem wp_processOne (cfg : WorkerConfig) (input : WorkerInput) :
    (processOne cfg input).wp Rely.any (Careful (WorkerLog cfg input)) (Truthful (WorkerLog cfg input))
      Conn.fresh := by
  refine wp_transaction_body fun b => wp_sql_body (by simp) fun d event w => ?_
  cases event with
  | none => exact wp_commit_pure .idle
  | some event =>
    refine Prog.wp_bind _ _ _ (Prog.wp_savepoint (Careful.of_nil (by simp) (by simp)) ?_
      fun e tx _ => bodyPost_error)
    refine Prog.wp_bind _ _ _ (Prog.wp_attempt _ _ (wp_businessBlock (fun e tx rj' htx => ?_)
      fun log result hlog => ?_))
    · exact wp_recover htx
    · refine Prog.wp_bind _ _ _ (Prog.wp_release (Careful.of_nil (by simp) (by simp)) ?_
        fun e tx' _ => bodyPost_error)
      exact wp_commit_pure (.done hlog)

end Worker

/-! ## Reconciliation -/

section Reconciliation

variable {α : Type} {S : Log → Option α → Prop} {b : Draws} {log : Log}
  {rj : List (Request postgres)}

/-- A turn of the loop over the snapshot extends the log by one of its logs. -/
theorem wp_reconcileOrder {Q : Post postgres Tally} {o : ProviderOrder} {t : Tally}
    (herr : ∀ e tx rj', Q (.error e) ⟨tx, [], rj'⟩)
    (hok : ∀ l t', TurnLog o t l t' → Q (.ok t') ⟨some ⟨b, log ++ l, none, false⟩, [], rj⟩) :
    (reconcileOrder o t).wp Rely.any (Careful S) Q ⟨some ⟨b, log, none, false⟩, [], rj⟩ := by
  refine wp_sql (by simp) (fun e tx rj' _ => herr e tx rj') fun d₁ isNew w₁ => ?_
  refine wp_sql (by simp) (fun e tx rj' _ => herr e tx rj') fun d₂ row w₂ => ?_
  cases row with
  | none => exact herr _ _ _
  | some row =>
    show (settleOrder o t isNew row).wp Rely.any (Careful S) Q _
    unfold settleOrder
    by_cases hc : classify o row = .repaired
    · rw [if_pos hc, repair, Prog.bind_assoc]
      refine wp_sql (by simp) (fun e tx rj' _ => herr e tx rj') fun d₃ m₃ w₃ => ?_
      refine wp_sql (fun v eventId hv he => ?_) (fun e tx rj' _ => herr e tx rj') fun d₄ _ w₄ => ?_
      · obtain rfl : _ = v := by injection hv
        simp [repairValues] at he
      · simpa using hok _ _ (.repaired hc)
    · rw [if_neg hc]
      simpa using hok _ _ (.kept hc)

/-- The loop over the snapshot extends the log by one of its logs. -/
theorem wp_reconcileOrders {f : Tally → Prog postgres α} :
    ∀ (orders : List ProviderOrder) (t : Tally) (log : Log),
      (∀ l t', LoopLog orders t l t' → (f t').wp Rely.any (Careful S) (BodyPost S)
        ⟨some ⟨b, log ++ l, none, false⟩, [], rj⟩) →
      (reconcileOrders orders t >>= f).wp Rely.any (Careful S) (BodyPost S)
        ⟨some ⟨b, log, none, false⟩, [], rj⟩
  | [], t, log, h => by
    have hnil := h [] t (.nil t)
    rwa [List.append_nil] at hnil
  | o :: orders, t, log, h => by
    rw [reconcileOrders, Prog.bind_assoc]
    refine Prog.wp_bind _ _ _ (wp_reconcileOrder (fun e tx rj' => bodyPost_error) fun l t' hl => ?_)
    refine wp_reconcileOrders orders t' _ fun l' t'' hl' => ?_
    simpa using h _ t'' (.cons hl hl')

/-- The loop that writes the details extends the log by one of its logs. -/
theorem wp_insertDetails {runId : ℕ} {f : Unit → Prog postgres α} :
    ∀ (details : List ReconciliationDetail) (log : Log),
      (∀ l, DetailsLog runId details l → (f ()).wp Rely.any (Careful S) (BodyPost S)
        ⟨some ⟨b, log ++ l, none, false⟩, [], rj⟩) →
      (insertDetails runId details >>= f).wp Rely.any (Careful S) (BodyPost S)
        ⟨some ⟨b, log, none, false⟩, [], rj⟩
  | [], log, h => by
    have hnil := h [] .nil
    rwa [List.append_nil] at hnil
  | detail :: details, log, h => by
    refine wp_sql_body (by simp) fun d _ w => ?_
    refine wp_insertDetails details _ fun l hl => ?_
    simpa using h _ (.cons hl)

/-- **A reconciliation** commits one of its logs. -/
theorem wp_executeReconciliation (orders : List ProviderOrder) :
    (executeReconciliation orders).wp Rely.any (Careful (ReconciliationLog orders))
      (Truthful (ReconciliationLog orders)) Conn.fresh := by
  refine wp_transaction_body fun b => wp_sql_body (by simp) fun d₁ _ w₁ => ?_
  refine wp_sql_body (by simp) fun d₂ run w₂ => ?_
  refine wp_reconcileOrders orders _ _ fun loop t hloop => ?_
  refine wp_insertDetails _ _ fun details hdetails => ?_
  refine wp_sql_body (by simp) fun d₃ finished w₃ => ?_
  have hlog : ReconciliationLog orders ([⟨Stmt.advisoryLock, d₁, (), w₁⟩] ++
      [⟨Stmt.insertRun, d₂, run, w₂⟩] ++ loop ++ details ++
        [⟨Stmt.completeRun run.id orders.length (t.repaired + t.staleProviderSnapshots) t.repaired,
          d₃, finished, w₃⟩]) (finished.map (runResult orders run t)) := by
    simpa using ReconciliationLog.completed hloop hdetails
  refine wp_commit_body hlog ?_
  cases finished with
  | none => exact bodyPost_error_of_commit hlog (.inl rfl)
  | some row => exact ⟨_, rfl, hlog⟩

end Reconciliation

end PaymentWebhook
