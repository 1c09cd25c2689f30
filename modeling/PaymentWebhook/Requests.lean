import PaymentWebhook.System

set_option relaxedAutoImplicit false
set_option autoImplicit false

/-!
# What each call requests

The statements a call may issue next, by what its transaction has executed so far.  Facts about open
transactions, which locks a call waits for and which statements of it can fail, are derived from
this list, and no proof looks at the procedures again.

## Main definitions

* `PaymentWebhook.Asks` — the call may issue the statement after the log.

## Main results

* `PaymentWebhook.Reach.asks` — every pending statement of a reachable world is one of these.
-/

namespace PaymentWebhook

open Transactions

variable [Platform]

/-! ## The statements of each call -/

/-- The statements about its order that a worker issues once it has locked it. -/
inductive Projects (event : EventRow) : Stmt → Prop where
  | applyToOrder (status : MappedStatus) (sequence : ℤ) (amount currency : Option String) :
      Projects event (.applyToOrder event.orderId status sequence amount currency)
  | insertHistory (previous : OrderStatus) (new : MappedStatus) (outcome : HistoryOutcome)
      (reason : Option OutcomeReason) :
      Projects event (.insertHistory (historyValues event previous new outcome reason))

/-- The statements that a worker issues once it has locked the order of an event. -/
inductive Finishes (event : EventRow) : Stmt → Prop where
  | projects {q : Stmt} (h : Projects event q) : Finishes event q
  | markApplied : Finishes event (.markApplied event.id)
  | markIgnored (reason : Option OutcomeReason) : Finishes event (.markIgnored event.id reason)

/-- The statements that reschedule an event. -/
inductive Puts (event : EventRow) : Stmt → Prop where
  | markDlq (attemptCount : ℕ) (error : String) : Puts event (.markDlq event.id attemptCount error)
  | markRetryScheduled (attemptCount : ℕ) (nextAttemptAt : Timestamp) (error : String) :
      Puts event (.markRetryScheduled event.id attemptCount nextAttemptAt error)

/-- What a worker issues after what it has executed. -/
inductive WorkerAsks : Log → Stmt → Prop where
  | claim : WorkerAsks [] .claim
  | insertOrder {d : Draws} {event : EventRow} {w : List Write} :
      WorkerAsks [⟨.claim, d, some event, w⟩] (.insertOrder event.orderId)
  | selectOrder {d d₁ : Draws} {event : EventRow} {isNew : Bool} {w w₁ : List Write} :
      WorkerAsks [⟨.claim, d, some event, w⟩, ⟨.insertOrder event.orderId, d₁, isNew, w₁⟩]
        (.selectOrder event.orderId)
  | finish {d d₁ d₂ : Draws} {event : EventRow} {order : OrderRow} {isNew : Bool}
      {w w₁ w₂ : List Write} {q : Stmt} (log : Log) (hlog : ∀ e ∈ log, Projects event e.stmt)
      (hq : Finishes event q) :
      WorkerAsks (⟨.claim, d, some event, w⟩ :: ⟨.insertOrder event.orderId, d₁, isNew, w₁⟩ ::
        ⟨.selectOrder event.orderId, d₂, some order, w₂⟩ :: log) q
  | put {d : Draws} {event : EventRow} {w : List Write} {q : Stmt} (hq : Puts event q) :
      WorkerAsks [⟨.claim, d, some event, w⟩] q

/-- What a replay issues after what it has executed. -/
inductive ReplayAsks (id : ℕ) : Log → Stmt → Prop where
  | selectEvent : ReplayAsks id [] (.selectEvent id)
  | replayEvent {d : Draws} {event : EventRow} {w : List Write} :
      ReplayAsks id [⟨.selectEvent id, d, some event, w⟩] (.replayEvent id)

/-- What a turn of the loop over a snapshot issues after what it has executed. -/
inductive TurnAsks (o : ProviderOrder) : Log → Stmt → Prop where
  | insertOrder : TurnAsks o [] (.insertOrder o.id)
  | selectOrder {d₁ : Draws} {w₁ : List Write} {isNew : Bool} :
      TurnAsks o [⟨.insertOrder o.id, d₁, isNew, w₁⟩] (.selectOrder o.id)
  | reconcileOrder {d₁ d₂ : Draws} {w₁ w₂ : List Write} {isNew : Bool} {row : OrderRow} :
      TurnAsks o [⟨.insertOrder o.id, d₁, isNew, w₁⟩, ⟨.selectOrder o.id, d₂, some row, w₂⟩]
        (.reconcileOrder o.id o.status o.sequence (some o.amount) (some o.currency))
  | insertHistory {d₁ d₂ d₃ : Draws} {w₁ w₂ w₃ : List Write} {isNew m₃ : Bool} {row : OrderRow}
      {previous : Option OrderStatus} :
      TurnAsks o [⟨.insertOrder o.id, d₁, isNew, w₁⟩, ⟨.selectOrder o.id, d₂, some row, w₂⟩,
          ⟨.reconcileOrder o.id o.status o.sequence (some o.amount) (some o.currency), d₃, m₃, w₃⟩]
        (.insertHistory (repairValues o previous))

/-- What a reconciliation issues after what it has executed. -/
inductive ReconciliationAsks (orders : List ProviderOrder) : Log → Stmt → Prop where
  | advisoryLock : ReconciliationAsks orders [] .advisoryLock
  | insertRun {d₁ : Draws} {w₁ : List Write} :
      ReconciliationAsks orders [⟨.advisoryLock, d₁, (), w₁⟩] .insertRun
  | turn {d₁ d₂ : Draws} {w₁ w₂ : List Write} {run : RunRow} {past future : List ProviderOrder}
      {o : ProviderOrder} {t : Tally} {loop part : Log} {q : Stmt}
      (horders : orders = past ++ o :: future) (hloop : LoopLog past Tally.empty loop t)
      (hq : TurnAsks o part q) :
      ReconciliationAsks orders
        (⟨.advisoryLock, d₁, (), w₁⟩ :: ⟨.insertRun, d₂, run, w₂⟩ :: (loop ++ part)) q
  | insertDetail {d₁ d₂ : Draws} {w₁ w₂ : List Write} {run : RunRow} {t : Tally}
      {loop details : Log} {past future : List ReconciliationDetail} {detail : ReconciliationDetail}
      (hloop : LoopLog orders Tally.empty loop t) (hsplit : t.details = past ++ detail :: future)
      (hdetails : DetailsLog run.id past details) :
      ReconciliationAsks orders
        (⟨.advisoryLock, d₁, (), w₁⟩ :: ⟨.insertRun, d₂, run, w₂⟩ :: (loop ++ details))
        (.insertDetail (detailValues run.id detail))
  | completeRun {d₁ d₂ : Draws} {w₁ w₂ : List Write} {run : RunRow} {t : Tally} {loop details : Log}
      (hloop : LoopLog orders Tally.empty loop t) (hdetails : DetailsLog run.id t.details details) :
      ReconciliationAsks orders
        (⟨.advisoryLock, d₁, (), w₁⟩ :: ⟨.insertRun, d₂, run, w₂⟩ :: (loop ++ details))
        (.completeRun run.id orders.length (t.repaired + t.staleProviderSnapshots) t.repaired)

/-- **What a call issues after what its transaction has executed.** -/
inductive Asks : Call → Log → Stmt → Prop where
  | ingest {req : WebhookRequest} : Asks (.ingest req) [] (.upsertAndDeliver req.event req.delivery)
  | processOne {input : WorkerInput} {log : Log} {q : Stmt} (h : WorkerAsks log q) :
      Asks (.processOne input) log q
  | replay {id : ℕ} {log : Log} {q : Stmt} (h : ReplayAsks id log q) : Asks (.replay id) log q
  | reconcile {snapshot : ValidSnapshot} {log : Log} {q : Stmt}
      (h : ReconciliationAsks snapshot.orders log q) : Asks (.reconcile snapshot) log q

/-! ## Rules -/

section Rules

variable {α β : Type} (P : Log → Stmt → Prop)

/-- Every statement is one that `P` admits after the log of the open transaction. -/
def Asking (r : Request postgres) (c : Conn postgres) : Prop :=
  ∀ q, r = .run q → ∀ t, c.tx = some t → P t.log q

variable {P} {b : Draws} {log l : Log} {saved : Option Log} {cs : List Log}
  {rj : List (Request postgres)}

/-- Any other request. -/
theorem asking_of_ne {r : Request postgres} {c : Conn postgres} (h : ∀ q, r ≠ .run q) :
    Asking P r c := fun q hq => absurd hq (h q)

/-- A statement, and what follows it. -/
theorem wp_sql_asking {q : Stmt} {f : q.Rows → Prog postgres β} {Q : Post postgres β}
    (hq : P log q)
    (herr : ∀ e tx rj', (tx = none ∨ ∃ ab, tx = some ⟨b, log, saved, ab⟩) →
      Q (.error e) ⟨tx, cs, rj'⟩)
    (hok : ∀ d rows ws, (f rows).wp Rely.any (Asking P) Q
      ⟨some ⟨b, log ++ [⟨q, d, rows, ws⟩], saved, false⟩, cs, rj⟩) :
    (sql q >>= f).wp Rely.any (Asking P) Q ⟨some ⟨b, log, saved, false⟩, cs, rj⟩ := by
  refine Prog.wp_bind _ _ _ (Prog.wp_query ?_ (fun _ d _ rows ws _ _ => hok d rows ws)
    fun e tx htx => herr e tx _ (htx.imp_right fun h => ⟨true, h⟩))
  intro q' hq' t ht
  obtain rfl : q = q' := by injection hq'
  obtain rfl := Option.some.inj ht
  exact hq

/-- Nothing is to be shown of the end of a call. -/
abbrev anyPost : Post postgres α := fun _ _ => True

/-- A statement of the body of a transaction. -/
theorem wp_sql_any {q : Stmt} {f : q.Rows → Prog postgres β} (hq : P log q)
    (hok : ∀ d rows ws, (f rows).wp Rely.any (Asking P) anyPost
      ⟨some ⟨b, log ++ [⟨q, d, rows, ws⟩], saved, false⟩, cs, rj⟩) :
    (sql q >>= f).wp Rely.any (Asking P) anyPost ⟨some ⟨b, log, saved, false⟩, cs, rj⟩ :=
  wp_sql_asking hq (fun _ _ _ _ => trivial) hok

/-- The commit, and what follows it. -/
theorem wp_commit_any {f : Unit → Prog postgres β}
    (hok : (f ()).wp Rely.any (Asking P) anyPost ⟨none, cs ++ [log], rj⟩) :
    (Prog.request (E := postgres) .commit >>= f).wp Rely.any (Asking P) anyPost
      ⟨some ⟨b, log, saved, false⟩, cs, rj⟩ :=
  Prog.wp_bind _ _ _ (Prog.wp_commit (asking_of_ne (by simp)) hok (fun _ => trivial) fun _ => trivial)

/-- The frame of the transaction. -/
theorem wp_transaction_asking {body : Prog postgres α}
    (h : ∀ d, body.wp Rely.any (Asking P) anyPost ⟨some (Tx.opened d), [], []⟩) :
    (Prog.transaction body).wp Rely.any (Asking P) anyPost Conn.fresh := by
  have hunwinds : ∀ e c, Prog.Unwinds (Asking P) (anyPost (α := α)) e c := fun e c =>
    ⟨asking_of_ne (by simp), fun _ _ _ _ => trivial⟩
  refine Prog.wp_transaction (asking_of_ne (by simp)) (fun e => hunwinds _ _) fun d => ?_
  refine Prog.wp_mono (fun x c _ => ?_) _ _ (h d)
  cases x with
  | ok a => trivial
  | error e => exact hunwinds _ _

end Rules

/-! ## The procedures -/

theorem asking_ingest (req : WebhookRequest) :
    (ingest req).wp Rely.any (Asking (Asks (.ingest req))) anyPost Conn.fresh :=
  wp_transaction_asking fun _ => wp_sql_any .ingest fun _ _ _ => wp_commit_any trivial

theorem asking_replay (id : ℕ) :
    (replay id).wp Rely.any (Asking (Asks (.replay id))) anyPost Conn.fresh := by
  refine wp_transaction_asking fun b => wp_sql_any (.replay .selectEvent) fun d event w => ?_
  cases event with
  | none => exact wp_commit_any trivial
  | some event =>
    by_cases h : event.processingStatus = .dlq
    · simp only [h, if_true]
      refine wp_sql_any (.replay .replayEvent) fun d' updated w' => wp_commit_any ?_
      cases updated <;> trivial
    · simp only [h, if_false]
      exact wp_commit_any trivial

section Worker

variable {b d : Draws} {w : List Write} {event : EventRow} {rj : List (Request postgres)}
  {cfg : WorkerConfig} {input : WorkerInput}

/-- The business block, under the savepoint that remembers the claim. -/
theorem asking_businessBlock {Q : Post postgres ProcessingResult}
    (herr : ∀ e tx rj', (tx = none ∨ ∃ l ab,
      tx = some ⟨b, l, some [⟨Stmt.claim, d, some event, w⟩], ab⟩) → Q (.error e) ⟨tx, [], rj'⟩)
    (hok : ∀ log result, Q (.ok result)
      ⟨some ⟨b, log, some [⟨Stmt.claim, d, some event, w⟩], false⟩, [], rj⟩) :
    (businessBlock event).wp Rely.any (Asking (Asks (.processOne input))) Q
      ⟨some ⟨b, [⟨Stmt.claim, d, some event, w⟩], some [⟨Stmt.claim, d, some event, w⟩], false⟩,
        [], rj⟩ := by
  have herr' : ∀ {l : Log} e tx rj', (tx = none ∨ ∃ ab,
      tx = some ⟨b, l, some [⟨Stmt.claim, d, some event, w⟩], ab⟩) → Q (.error e) ⟨tx, [], rj'⟩ :=
    fun e tx rj' h => herr e tx rj' (h.imp_right fun ⟨ab, h⟩ => ⟨_, ab, h⟩)
  refine wp_sql_asking (.processOne .insertOrder) herr' fun d₁ isNew w₁ => ?_
  refine wp_sql_asking (.processOne .selectOrder) herr' fun d₂ order w₂ => ?_
  cases order with
  | none => exact herr _ _ _ (.inr ⟨_, false, rfl⟩)
  | some order =>
    refine Prog.wp_bind _ _ _ ?_
    unfold writeResult
    cases hout : (process event order).outcome with
    | applied =>
      refine wp_sql_asking (.processOne (.finish [] (by simp) (.projects (.applyToOrder _ _ _ _)))) herr'
        fun d₃ m₃ w₃ => ?_
      refine wp_sql_asking (.processOne (.finish [_] ?_ (.projects (.insertHistory _ _ _ _)))) herr'
        fun d₄ _ w₄ => ?_
      · simpa using Projects.applyToOrder _ _ _ _
      · refine wp_sql_asking (.processOne (.finish [_, _] ?_ .markApplied)) herr'
          fun d₅ m₅ w₅ => hok _ _
        simpa using ⟨Projects.applyToOrder _ _ _ _, Projects.insertHistory _ _ _ _⟩
    | ignored =>
      refine wp_sql_asking (.processOne (.finish [] (by simp) (.projects (.insertHistory _ _ _ _)))) herr'
        fun d₄ _ w₄ => ?_
      refine wp_sql_asking (.processOne (.finish [_] ?_ (.markIgnored _))) herr'
        fun d₅ m₅ w₅ => hok _ _
      simpa using Projects.insertHistory _ _ _ _

/-- What follows a failure of the business block. -/
theorem asking_recover {error : DbError} {tx : Option (Tx postgres)}
    (htx : tx = none ∨ ∃ l ab, tx = some ⟨b, l, some [⟨Stmt.claim, d, some event, w⟩], ab⟩) :
    (recover cfg input event error).wp Rely.any (Asking (Asks (.processOne input))) anyPost
      ⟨tx, [], rj⟩ := by
  have htx' : ∃ l, tx = none ∨ ∃ ab, tx = some ⟨b, l, some [⟨Stmt.claim, d, some event, w⟩], ab⟩ := by
    rcases htx with rfl | ⟨l, ab, rfl⟩
    · exact ⟨[], .inl rfl⟩
    · exact ⟨l, .inr ⟨ab, rfl⟩⟩
  obtain ⟨l, hl⟩ := htx'
  refine Prog.wp_bind _ _ _ (Prog.wp_rollbackTo hl (asking_of_ne (by simp)) ?_ fun _ _ => trivial)
  refine Prog.wp_bind _ _ _ (Prog.wp_release (asking_of_ne (by simp)) ?_ fun _ _ _ => trivial)
  cases RetryPolicy.evaluate cfg event.attemptCount input.now input.random with
  | dlq attemptCount =>
    exact wp_sql_any (.processOne (.put (.markDlq _ _))) fun _ _ _ => wp_commit_any trivial
  | retry attemptCount delayMs nextAttemptAt =>
    exact wp_sql_any (.processOne (.put (.markRetryScheduled _ _ _))) fun _ _ _ => wp_commit_any trivial

theorem asking_processOne (cfg : WorkerConfig) (input : WorkerInput) :
    (processOne cfg input).wp Rely.any (Asking (Asks (.processOne input))) anyPost Conn.fresh := by
  refine wp_transaction_asking fun b => wp_sql_any (.processOne .claim) fun d event w => ?_
  cases event with
  | none => exact wp_commit_any trivial
  | some event =>
    refine Prog.wp_bind _ _ _ (Prog.wp_savepoint (asking_of_ne (by simp)) ?_ fun _ _ _ => trivial)
    refine Prog.wp_bind _ _ _ (Prog.wp_attempt _ _ (asking_businessBlock (fun e tx rj' htx => ?_)
      fun log result => ?_))
    · exact asking_recover htx
    · refine Prog.wp_bind _ _ _ (Prog.wp_release (asking_of_ne (by simp)) ?_ fun _ _ _ => trivial)
      exact wp_commit_any trivial

end Worker

section Reconciliation

variable {b d₁ d₂ : Draws} {w₁ w₂ : List Write} {run : RunRow} {rj : List (Request postgres)}
  {snapshot : ValidSnapshot}

/-- What a reconciliation has executed before its loops. -/
abbrev opening (d₁ d₂ : Draws) (w₁ w₂ : List Write) (run : RunRow) : Log :=
  [⟨Stmt.advisoryLock, d₁, (), w₁⟩, ⟨Stmt.insertRun, d₂, run, w₂⟩]

/-- One more turn of the loop over the snapshot. -/
theorem LoopLog.snoc {orders : List ProviderOrder} {o : ProviderOrder} {t t' t'' : Tally}
    {log turn : Log} (h : LoopLog orders t log t') (hturn : TurnLog o t' turn t'') :
    LoopLog (orders ++ [o]) t (log ++ turn) t'' := by
  induction h with
  | nil t => simpa using LoopLog.cons hturn (.nil _)
  | cons hfirst _ ih => simpa using LoopLog.cons hfirst (ih hturn)

/-- One more detail. -/
theorem DetailsLog.snoc {runId : ℕ} {details : List ReconciliationDetail}
    {detail : ReconciliationDetail} {log : Log} {d : Draws} {w : List Write}
    (h : DetailsLog runId details log) : DetailsLog runId (details ++ [detail])
      (log ++ [⟨.insertDetail (detailValues runId detail), d, (), w⟩]) := by
  induction h with
  | nil => exact .cons .nil
  | cons _ ih => exact .cons ih

/-- The loop over the snapshot. -/
theorem asking_reconcileOrders {α : Type} {f : Tally → Prog postgres α}
    (hf : ∀ loop t, LoopLog snapshot.orders Tally.empty loop t →
      (f t).wp Rely.any (Asking (Asks (.reconcile snapshot))) anyPost
        ⟨some ⟨b, opening d₁ d₂ w₁ w₂ run ++ loop, none, false⟩, [], rj⟩) :
    ∀ (future past : List ProviderOrder) (t : Tally) (loop : Log),
      snapshot.orders = past ++ future → LoopLog past Tally.empty loop t →
      (reconcileOrders future t >>= f).wp Rely.any (Asking (Asks (.reconcile snapshot))) anyPost
        ⟨some ⟨b, opening d₁ d₂ w₁ w₂ run ++ loop, none, false⟩, [], rj⟩
  | [], past, t, loop, hsplit, hloop => by
    rw [List.append_nil] at hsplit
    exact hf loop t (hsplit ▸ hloop)
  | o :: future, past, t, loop, hsplit, hloop => by
    have hturn : ∀ {part : Log} {q : Stmt}, TurnAsks o part q →
        Asks (.reconcile snapshot) (opening d₁ d₂ w₁ w₂ run ++ (loop ++ part)) q := fun {part q} hq =>
      .reconcile (show ReconciliationAsks _ (_ :: _ :: (loop ++ part)) q from .turn hsplit hloop hq)
    have hnext : ∀ {turn : Log} {t' : Tally}, TurnLog o t turn t' →
        (reconcileOrders future t' >>= f).wp Rely.any (Asking (Asks (.reconcile snapshot))) anyPost
          ⟨some ⟨b, opening d₁ d₂ w₁ w₂ run ++ (loop ++ turn), none, false⟩, [], rj⟩ := fun hturn =>
      asking_reconcileOrders hf future (past ++ [o]) _ _ (by simp [hsplit]) (hloop.snoc hturn)
    rw [reconcileOrders, Prog.bind_assoc, reconcileOrder, Prog.bind_assoc]
    refine wp_sql_any ?_ fun d₃ isNew w₃ => ?_
    · simpa using hturn .insertOrder
    rw [Prog.bind_assoc]
    refine wp_sql_any ?_ fun d₄ row w₄ => ?_
    · simpa using hturn .selectOrder
    cases row with
    | none => trivial
    | some row =>
      show (settleOrder o t isNew row >>= fun t => reconcileOrders future t >>= f).wp Rely.any _ _ _
      unfold settleOrder
      by_cases hc : classify o row = .repaired
      · rw [if_pos hc, repair, Prog.bind_assoc, Prog.bind_assoc]
        refine wp_sql_any ?_ fun d₅ m₅ w₅ => ?_
        · simpa using hturn .reconcileOrder
        refine wp_sql_any ?_ fun d₆ _ w₆ => ?_
        · simpa using hturn .insertHistory
        · simpa using hnext (.repaired hc)
      · rw [if_neg hc]
        simpa using hnext (.kept hc)

/-- The loop that writes the details. -/
theorem asking_insertDetails {α : Type} {f : Unit → Prog postgres α} {loop : Log} {t : Tally}
    (hloop : LoopLog snapshot.orders Tally.empty loop t)
    (hf : ∀ details, DetailsLog run.id t.details details →
      (f ()).wp Rely.any (Asking (Asks (.reconcile snapshot))) anyPost
        ⟨some ⟨b, opening d₁ d₂ w₁ w₂ run ++ (loop ++ details), none, false⟩, [], rj⟩) :
    ∀ (future past : List ReconciliationDetail) (details : Log),
      t.details = past ++ future → DetailsLog run.id past details →
      (insertDetails run.id future >>= f).wp Rely.any (Asking (Asks (.reconcile snapshot))) anyPost
        ⟨some ⟨b, opening d₁ d₂ w₁ w₂ run ++ (loop ++ details), none, false⟩, [], rj⟩
  | [], past, details, hsplit, hdetails => by
    rw [List.append_nil] at hsplit
    exact hf details (hsplit ▸ hdetails)
  | detail :: future, past, details, hsplit, hdetails => by
    rw [insertDetails, Prog.bind_assoc]
    refine wp_sql_any ?_ fun d _ w => ?_
    · exact .reconcile (show ReconciliationAsks _ (_ :: _ :: (loop ++ details)) _ from
        .insertDetail hloop hsplit hdetails)
    have hnext := asking_insertDetails hloop hf future (past ++ [detail])
      (details ++ [⟨.insertDetail (detailValues run.id detail), d, (), w⟩]) (by simp [hsplit])
      hdetails.snoc
    simpa using hnext

theorem asking_executeReconciliation (snapshot : ValidSnapshot) :
    (executeReconciliation snapshot.orders).wp Rely.any (Asking (Asks (.reconcile snapshot))) anyPost
      Conn.fresh := by
  refine wp_transaction_asking fun b => wp_sql_any (.reconcile .advisoryLock) fun d₁ _ w₁ => ?_
  refine wp_sql_any (.reconcile .insertRun) fun d₂ run w₂ => ?_
  refine asking_reconcileOrders (fun loop t hloop => ?_) snapshot.orders [] Tally.empty [] rfl (.nil _)
  rw [← List.append_nil loop]
  show (insertDetails run.id t.details >>= _).wp Rely.any _ _ _
  refine asking_insertDetails hloop (fun details hdetails => ?_) t.details [] [] rfl .nil
  refine wp_sql_any ?_ fun d₃ finished w₃ => wp_commit_any ?_
  · exact .reconcile (show ReconciliationAsks _ (_ :: _ :: (loop ++ details)) _ from
      .completeRun hloop hdetails)
  · cases finished <;> trivial

end Reconciliation

/-! ## In every reachable world -/

/-- Wrapping the answer of a procedure. -/
theorem asking_wrap {α : Type} {c : Call} {g : α → Answer} {p : Prog postgres α}
    (h : p.wp Rely.any (Asking (Asks c)) anyPost Conn.fresh) :
    (p >>= fun a => pure (g a)).wp Rely.any (Asking (Asks c)) anyPost Conn.fresh :=
  Prog.wp_bind _ _ _ (Prog.wp_mono (fun x _ _ => by cases x <;> trivial) _ _ h)

theorem asking_program (cfg : WorkerConfig) (c : Call) :
    (program cfg c).wp Rely.any (Asking (Asks c)) anyPost Conn.fresh := by
  cases c with
  | ingest req => exact asking_wrap (asking_ingest req)
  | processOne input => exact asking_wrap (asking_processOne cfg input)
  | replay id => exact asking_wrap (asking_replay id)
  | reconcile snapshot => exact asking_wrap (asking_executeReconciliation snapshot)

variable {cfg : WorkerConfig} {db₀ : Store} {w : State}

/-- **Every pending statement of a reachable world** is one that its call issues after what its
transaction has executed. -/
theorem Reach.asks (h : Reach cfg db₀ w) {i : ℕ} {s : Session postgres Call Answer} {q : Stmt}
    {ok : q.Rows → Prog postgres Answer} {failed : DbError → Prog postgres Answer} {t : Tx postgres}
    (hs : w.sessions i = some s) (hp : s.prog = .ask (.run q) ok failed) (ht : s.conn.tx = some t) :
    Asks s.call t.log q := by
  obtain ⟨env₀, h⟩ := h
  have hwp := h.wp (A := fun c => Asking (Asks c)) (Q := fun _ => anyPost) (asking_program cfg)
    (fun _ _ _ _ => trivial) i s hs
  rw [hp] at hwp
  exact hwp.1 q rfl t ht

end PaymentWebhook
