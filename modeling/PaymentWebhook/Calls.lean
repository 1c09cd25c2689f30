import PaymentWebhook.Changes
import PaymentWebhook.Transactions.Alone

set_option relaxedAutoImplicit false
set_option autoImplicit false

/-!
# Calls on their own

How each procedure goes when nobody interferes: if the statements of one of its logs can be
executed one after the other, the procedure executes them and commits the log.

## Main definitions

* `PaymentWebhook.Ran` — the statements of a log, executed one after the other on a store.

## Main results

* `PaymentWebhook.goes_ingest`, `PaymentWebhook.goes_processOne_done`,
  `PaymentWebhook.goes_processOne_retried`, `PaymentWebhook.goes_processOne_buried`,
  `PaymentWebhook.goes_replay`, `PaymentWebhook.goes_executeReconciliation` — the procedures on
  their own.
-/

namespace PaymentWebhook

open Transactions

variable [Platform]

/-- No row is skipped. -/
abbrev noSkip : Key → Bool := fun _ => false

/-- A request that is answered. -/
abbrev answered (b : Option Draws) (d : Draws) (skip : Key → Bool) :
    Option Draws × Move postgres := (b, ⟨d, skip, .answered⟩)

/-- The requests of a transaction that executes a log. -/
def requests (b : Draws) (log : Log) : Trace postgres :=
  log.map fun e => answered (some b) e.draws noSkip

/-- The statements of the log have been executed one after the other. -/
def Ran : Log → Store → Prop
  | [], _ => True
  | e :: log, s =>
    exec e.stmt e.draws noSkip s = .ok (e.rows, e.writes) ∧ Ran log (Entry.install e s)

/-- The connection of a call that has committed one log. -/
abbrev committed (log : Log) (rejected : List (Request postgres)) : Conn postgres :=
  ⟨none, [log], rejected⟩

variable {s : Store} {b d d' d'' d''' : Draws} {log pre : Log}

theorem ran_append {log' : Log} :
    Ran (log ++ log') s ↔ Ran log s ∧ Ran log' (install (E := postgres) s log) := by
  induction log generalizing s with
  | nil => simp [Ran]
  | cons e log ih => simp only [List.cons_append, Ran, ih, install_cons, and_assoc]

theorem requests_append (log' : Log) : requests b (log ++ log') = requests b log ++ requests b log' := by
  simp [requests]

theorem length_requests : (requests b log).length = log.length := by
  simp [requests]

section Fragments

variable {α : Type} {saved : Option Log} {rj : List (Request postgres)} {ms : Trace postgres}
  {q' : Prog postgres α} {db' : Store} {c' : Conn postgres}

/-- A statement on its own. -/
theorem goes_sql {q : Stmt} {f : q.Rows → Prog postgres α} {rows : q.Rows} {w : List Write}
    (hx : exec q d noSkip (install (E := postgres) s log) = .ok (rows, w))
    (h : (f rows).Goes ms s ⟨some ⟨b, log ++ [⟨q, d, rows, w⟩], saved, false⟩, [], rj⟩ q' db' c') :
    (sql q >>= f).Goes (answered (some b) d noSkip :: ms) s ⟨some ⟨b, log, saved, false⟩, [], rj⟩ q'
      db' c' :=
  .query hx h

/-- **The business block on its own.** -/
theorem goes_businessBlock {event : EventRow} {result : ProcessingResult}
    (h : BusinessLog event log result) (hr : Ran log (install (E := postgres) s pre)) :
    (businessBlock event).Goes (requests b log) s ⟨some ⟨b, pre, saved, false⟩, [], rj⟩
      (.done result) s ⟨some ⟨b, pre ++ log, saved, false⟩, [], rj⟩ := by
  cases h with
  | @applied d₁ d₂ d₃ d₄ d₅ w₁ w₂ w₃ w₄ w₅ isNew m₃ m₅ order h =>
    obtain ⟨h₁, h₂, h₃, h₄, h₅, -⟩ := hr
    refine goes_sql h₁ (goes_sql (by simpa using h₂) ?_)
    have hwrite : writeResult event (process event order) = (do
        let _ ← sql (.applyToOrder event.orderId (process event order).newStatus
          (process event order).newSequence (process event order).amount
          (process event order).currency)
        sql (.insertHistory (historyValues event (process event order).previousStatus
          (process event order).newStatus .applied none))
        let _ ← sql (.markApplied event.id)
        pure ()) := by
      simp only [writeResult, h]
    show ((writeResult event (process event order)) >>= fun _ => _).Goes _ _ _ _ _ _
    rw [hwrite]
    refine goes_sql (by simpa using h₃) (goes_sql (by simpa using h₄) (goes_sql (by simpa using h₅) ?_))
    simp only [List.append_assoc, List.cons_append, List.nil_append]
    exact .refl _ _ _
  | @ignored d₁ d₂ d₄ d₅ w₁ w₂ w₄ w₅ isNew m₅ order h =>
    obtain ⟨h₁, h₂, h₄, h₅, -⟩ := hr
    refine goes_sql h₁ (goes_sql (by simpa using h₂) ?_)
    have hwrite : writeResult event (process event order) = (do
        sql (.insertHistory (historyValues event (process event order).previousStatus
          (process event order).newStatus .ignored (process event order).outcomeReason))
        let _ ← sql (.markIgnored event.id (process event order).outcomeReason)
        pure ()) := by
      simp only [writeResult, h]
    show ((writeResult event (process event order)) >>= fun _ => _).Goes _ _ _ _ _ _
    rw [hwrite]
    refine goes_sql (by simpa using h₄) (goes_sql (by simpa using h₅) ?_)
    simp only [List.append_assoc, List.cons_append, List.nil_append]
    exact .refl _ _ _

end Fragments

/-- **Ingestion on its own.** -/
theorem goes_ingest {req : WebhookRequest} {x : Option IngestionResult} (h : IngestLog req log x)
    (hr : Ran log s) : ∃ a, x = some a ∧ (ingest req).Goes
      (answered none b noSkip :: (requests b log ++ [answered (some b) d noSkip])) s Conn.fresh
      (.done a) (install (E := postgres) s log) (committed log []) := by
  obtain ⟨⟩ := h
  exact ⟨_, rfl, .transaction_done (.query hr.1 (.commit (.refl _ _ _)))⟩

section Worker

variable (cfg : WorkerConfig) (input : WorkerInput) (b : Draws) {skip : Key → Bool} {event : EventRow}
  {w w' : List Write} {m : Bool} (error : DbError)

/-- **A turn of the worker on its own** whose business block succeeds. -/
theorem goes_processOne_done (d₁ d₂ d₃ : Draws) {result : ProcessingResult}
    (hclaim : exec .claim d skip s = .ok (some event, w)) (h : BusinessLog event log result)
    (hr : Ran log (w.foldl Store.apply s)) :
    (processOne cfg input).Goes
      (answered none b noSkip :: answered (some b) d skip :: answered (some b) d₁ noSkip ::
        (requests b log ++ [answered (some b) d₂ noSkip, answered (some b) d₃ noSkip]))
      s Conn.fresh
      (.done (processed event result.outcome.toWorker result.outcomeReason event.attemptCount none))
      (install (E := postgres) s (⟨.claim, d, some event, w⟩ :: log))
      (committed (⟨.claim, d, some event, w⟩ :: log) []) := by
  have hblock : (businessBlock event).Goes (requests b log) s
      ⟨some ⟨b, [⟨.claim, d, some event, w⟩], some [⟨.claim, d, some event, w⟩], false⟩, [], []⟩
      (.done result) s ⟨some ⟨b, [⟨.claim, d, some event, w⟩] ++ log,
        some [⟨.claim, d, some event, w⟩], false⟩, [], []⟩ := goes_businessBlock h hr
  refine .transaction_done (.query hclaim (.savepoint (.bind (.attempt hblock) ?_)))
  exact .release (.commit (.refl _ _ _))

/-- **A turn of the worker on its own** that finds no event. -/
theorem goes_processOne_idle (d₁ : Draws) (hclaim : exec .claim d skip s = .ok (none, w)) :
    (processOne cfg input).Goes
      [answered none b noSkip, answered (some b) d skip, answered (some b) d₁ noSkip] s Conn.fresh
      (.done .notFound) (install (E := postgres) s [⟨.claim, d, none, w⟩])
      (committed [⟨.claim, d, none, w⟩] []) :=
  .transaction_done (.query hclaim (.commit (.refl _ _ _)))

/-- What the worker does on its own when the first business statement has failed. -/
theorem goes_processOne_recover {d₁ d₂ : Draws} {ms : Trace postgres} {log' : Log}
    {a : ProcessOneResult} (hclaim : exec .claim d skip s = .ok (some event, w))
    (h : (recover cfg input event error).Goes ms s
      ⟨some ⟨b, [⟨.claim, d, some event, w⟩], some [⟨.claim, d, some event, w⟩], true⟩, [],
        [.run (Stmt.insertOrder event.orderId)]⟩ (.done a) (install (E := postgres) s log')
      (committed log' [.run (Stmt.insertOrder event.orderId)])) :
    (processOne cfg input).Goes
      (answered none b noSkip :: answered (some b) d skip :: answered (some b) d₁ noSkip ::
        (some b, ⟨d₂, noSkip, .rejected error⟩) :: ms)
      s Conn.fresh (.done a) (install (E := postgres) s log')
      (committed log' [.run (Stmt.insertOrder event.orderId)]) := by
  refine .transaction_done (.query hclaim (.savepoint ?_))
  have hfailed : (Prog.attempt (businessBlock event)).Goes [(some b, ⟨d₂, noSkip, .rejected error⟩)]
      s ⟨some ⟨b, [⟨.claim, d, some event, w⟩], some [⟨.claim, d, some event, w⟩], false⟩, [], []⟩
      (.done (.error error)) s
      ⟨some ⟨b, [⟨.claim, d, some event, w⟩], some [⟨.claim, d, some event, w⟩], true⟩, [],
        [.run (Stmt.insertOrder event.orderId)]⟩ :=
    .attempt .rejected
  exact hfailed.bind h

/-- **A turn of the worker on its own** whose business block fails and is retried later. -/
theorem goes_processOne_retried (f : ℕ → Draws) {attemptCount delayMs : ℕ} {nextAttemptAt : Timestamp}
    (hclaim : exec .claim d skip s = .ok (some event, w))
    (heval : RetryPolicy.evaluate cfg event.attemptCount input.now input.random =
      .retry attemptCount delayMs nextAttemptAt)
    (hmark : exec (.markRetryScheduled event.id attemptCount nextAttemptAt
      (sanitizeError (Platform.errorMessage error))) d' noSkip (w.foldl Store.apply s) = .ok (m, w')) :
    (processOne cfg input).Goes
      [answered none b noSkip, answered (some b) d skip, answered (some b) (f 1) noSkip,
        (some b, ⟨f 2, noSkip, .rejected error⟩), answered (some b) (f 3) noSkip,
        answered (some b) (f 4) noSkip, answered (some b) d' noSkip, answered (some b) (f 6) noSkip]
      s Conn.fresh
      (.done (processed event .retryScheduled (some .transientError) attemptCount (some nextAttemptAt)))
      (install (E := postgres) s [⟨.claim, d, some event, w⟩, ⟨.markRetryScheduled event.id
        attemptCount nextAttemptAt (sanitizeError (Platform.errorMessage error)), d', m, w'⟩])
      (committed [⟨.claim, d, some event, w⟩, ⟨.markRetryScheduled event.id attemptCount nextAttemptAt
        (sanitizeError (Platform.errorMessage error)), d', m, w'⟩]
        [.run (Stmt.insertOrder event.orderId)]) := by
  refine goes_processOne_recover cfg input b error hclaim ?_
  unfold recover
  rw [heval]
  exact .rollbackTo (.release (.query hmark (.commit (.refl _ _ _))))

/-- **A turn of the worker on its own** whose business block fails for good. -/
theorem goes_processOne_buried (f : ℕ → Draws) {attemptCount : ℕ}
    (hclaim : exec .claim d skip s = .ok (some event, w))
    (heval : RetryPolicy.evaluate cfg event.attemptCount input.now input.random = .dlq attemptCount)
    (hmark : exec (.markDlq event.id attemptCount (sanitizeError (Platform.errorMessage error))) d'
      noSkip (w.foldl Store.apply s) = .ok (m, w')) :
    (processOne cfg input).Goes
      [answered none b noSkip, answered (some b) d skip, answered (some b) (f 1) noSkip,
        (some b, ⟨f 2, noSkip, .rejected error⟩), answered (some b) (f 3) noSkip,
        answered (some b) (f 4) noSkip, answered (some b) d' noSkip, answered (some b) (f 6) noSkip]
      s Conn.fresh (.done (processed event .dlq (some .maxAttemptsExhausted) attemptCount none))
      (install (E := postgres) s [⟨.claim, d, some event, w⟩, ⟨.markDlq event.id attemptCount
        (sanitizeError (Platform.errorMessage error)), d', m, w'⟩])
      (committed [⟨.claim, d, some event, w⟩, ⟨.markDlq event.id attemptCount
        (sanitizeError (Platform.errorMessage error)), d', m, w'⟩]
        [.run (Stmt.insertOrder event.orderId)]) := by
  refine goes_processOne_recover cfg input b error hclaim ?_
  unfold recover
  rw [heval]
  exact .rollbackTo (.release (.query hmark (.commit (.refl _ _ _))))

end Worker

/-- **A replay on its own.** -/
theorem goes_replay {id : ℕ} {x : Option (Option ReplayResult)} (h : ReplayLog id log x)
    (hr : Ran log s) (hx : x.isSome) : ∃ a, x = some a ∧ (replay id).Goes
      (answered none b noSkip :: (requests b log ++ [answered (some b) d noSkip])) s Conn.fresh
      (.done a) (install (E := postgres) s log) (committed log []) := by
  cases h with
  | missing => exact ⟨_, rfl, .transaction_done (.query hr.1 (.commit (.refl _ _ _)))⟩
  | @replayed d₁ d₂ w₁ w₂ event updated h =>
    obtain ⟨h₁, h₂, -⟩ := hr
    obtain ⟨e, rfl⟩ : ∃ e, updated = some e := by
      cases updated with
      | none => cases hx
      | some e => exact ⟨e, rfl⟩
    refine ⟨_, rfl, .transaction_done (.query h₁ ?_)⟩
    simp only [h, if_true]
    exact .query h₂ (.commit (.refl _ _ _))
  | @notInDlq d₁ w₁ event h =>
    refine ⟨_, rfl, .transaction_done (.query hr.1 ?_)⟩
    simp only [h, if_false]
    exact .commit (.refl _ _ _)

section Reconciliation

variable {saved : Option Log} {rj : List (Request postgres)} {t t' : Tally}

/-- A turn of the loop over the snapshot on its own. -/
theorem goes_reconcileOrder {o : ProviderOrder} (h : TurnLog o t log t')
    (hr : Ran log (install (E := postgres) s pre)) :
    (reconcileOrder o t).Goes (requests b log) s ⟨some ⟨b, pre, saved, false⟩, [], rj⟩ (.done t') s
      ⟨some ⟨b, pre ++ log, saved, false⟩, [], rj⟩ := by
  cases h with
  | @kept d₁ d₂ w₁ w₂ isNew row h =>
    obtain ⟨h₁, h₂, -⟩ := hr
    refine goes_sql h₁ (goes_sql (by simpa using h₂) ?_)
    show (settleOrder o t isNew row).Goes _ _ _ _ _ _
    rw [settleOrder, if_neg h]
    simp only [List.append_assoc, List.cons_append, List.nil_append]
    exact .refl _ _ _
  | @repaired d₁ d₂ d₃ d₄ w₁ w₂ w₃ w₄ isNew m₃ row h =>
    obtain ⟨h₁, h₂, h₃, h₄, -⟩ := hr
    refine goes_sql h₁ (goes_sql (by simpa using h₂) ?_)
    show (settleOrder o t isNew row).Goes _ _ _ _ _ _
    rw [settleOrder, if_pos h]
    refine goes_sql (by simpa using h₃) (goes_sql (by simpa using h₄) ?_)
    simp only [List.append_assoc, List.cons_append, List.nil_append]
    exact .refl _ _ _

/-- The loop over the snapshot on its own. -/
theorem goes_reconcileOrders {orders : List ProviderOrder} (h : LoopLog orders t log t')
    (hr : Ran log (install (E := postgres) s pre)) :
    (reconcileOrders orders t).Goes (requests b log) s ⟨some ⟨b, pre, saved, false⟩, [], rj⟩ (.done t') s
      ⟨some ⟨b, pre ++ log, saved, false⟩, [], rj⟩ := by
  induction h generalizing pre with
  | nil t =>
    rw [List.append_nil]
    exact .refl _ _ _
  | cons hturn htail ih =>
    obtain ⟨hr₁, hr₂⟩ := ran_append.mp hr
    rw [requests_append, ← List.append_assoc]
    rw [← install_append] at hr₂
    exact (goes_reconcileOrder hturn hr₁).bind (ih hr₂)

/-- The loop that writes the details on its own. -/
theorem goes_insertDetails {runId : ℕ} {details : List ReconciliationDetail}
    (h : DetailsLog runId details log) (hr : Ran log (install (E := postgres) s pre)) :
    (insertDetails runId details).Goes (requests b log) s ⟨some ⟨b, pre, saved, false⟩, [], rj⟩
      (.done ()) s ⟨some ⟨b, pre ++ log, saved, false⟩, [], rj⟩ := by
  induction h generalizing pre with
  | nil =>
    rw [List.append_nil]
    exact .refl _ _ _
  | @cons detail details log d w htail ih =>
    obtain ⟨h₁, h₂⟩ := hr
    have hrest := @ih (pre ++ [⟨.insertDetail (detailValues runId detail), d, (), w⟩])
      (by simpa using h₂)
    rw [List.append_assoc] at hrest
    exact goes_sql h₁ hrest

/-- **A reconciliation on its own.** -/
theorem goes_executeReconciliation {orders : List ProviderOrder}
    {x : Option ReconciliationRunResult} (h : ReconciliationLog orders log x) (hr : Ran log s)
    (hx : x.isSome) : ∃ a, x = some a ∧ (executeReconciliation orders).Goes
      (answered none b noSkip :: (requests b log ++ [answered (some b) d noSkip])) s Conn.fresh
      (.done a) (install (E := postgres) s log) (committed log []) := by
  obtain @⟨d₁, d₂, d₃, w₁, w₂, w₃, run, finished, t, loop, details, hloop, hdetails⟩ := h
  obtain ⟨row, rfl⟩ : ∃ row, finished = some row := by
    cases finished with
    | none => cases hx
    | some row => exact ⟨row, rfl⟩
  obtain ⟨h₁, h₂, hr⟩ := hr
  obtain ⟨hr, h₃, -⟩ := ran_append.mp hr
  obtain ⟨hr₁, hr₂⟩ := ran_append.mp hr
  let opening : Log := [⟨.advisoryLock, d₁, (), w₁⟩, ⟨.insertRun, d₂, run, w₂⟩]
  have hloop' : (reconcileOrders orders Tally.empty).Goes (requests b loop) s
      ⟨some ⟨b, opening, none, false⟩, [], []⟩ (.done t) s
      ⟨some ⟨b, opening ++ loop, none, false⟩, [], []⟩ := goes_reconcileOrders hloop hr₁
  have hdetails' : (insertDetails run.id t.details).Goes (requests b details) s
      ⟨some ⟨b, opening ++ loop, none, false⟩, [], []⟩ (.done ()) s
      ⟨some ⟨b, opening ++ loop ++ details, none, false⟩, [], []⟩ :=
    goes_insertDetails hdetails (by rw [install_append]; exact hr₂)
  refine ⟨_, rfl, .transaction_done (goes_sql h₁ (goes_sql h₂ ?_))⟩
  show Prog.Goes _ (requests b (loop ++ details ++ [_]) ++ [_]) _ _ _ _ _
  rw [requests_append, requests_append, List.append_assoc, List.append_assoc]
  refine hloop'.bind ?_
  refine hdetails'.bind ?_
  have h₃' : exec (.completeRun run.id orders.length (t.repaired + t.staleProviderSnapshots)
      t.repaired) d₃ noSkip (install (E := postgres) s (opening ++ loop ++ details)) =
      .ok (some row, w₃) := by
    rw [install_append, install_append] at *
    exact h₃
  refine goes_sql h₃' ?_
  simp only [opening, List.append_assoc, List.cons_append, List.nil_append]
  exact .commit (.refl _ _ _)

end Reconciliation

end PaymentWebhook
