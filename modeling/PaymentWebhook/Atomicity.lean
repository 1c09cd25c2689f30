import PaymentWebhook.Consumption

set_option relaxedAutoImplicit false
set_option autoImplicit false

/-!
# One turn of the worker under every fault schedule

A call of `processOne` on a store that nobody else changes, every request of which may be rejected,
lose its connection, or be the one at which the process dies.

## Main definitions

* `PaymentWebhook.WorkerEffect` — the change that an answer of `processOne` names.
* `PaymentWebhook.Stmt.Reschedules` — the statements that consume an attempt.

## Main results

* `PaymentWebhook.wp_processOne_alone` — an attempt is consumed only after a statement has failed.
* `PaymentWebhook.processOne_atomic` — the committed change is the one the answer names, or there is
  none.
-/

namespace PaymentWebhook

open Transactions

variable [Platform]

/-! ## The effect that an answer names -/

/-- **The change that an answer of `processOne` names.** -/
inductive WorkerEffect (s : Store) : ProcessOneResult → Store → Prop where
  | notFound : WorkerEffect s .notFound s
  | applied {event : EventRow} {order : OrderRow} {isNew : Bool} {status : OrderStatus}
      {amount : Option ℤ} {d d₁ d₃ d₄ d₅ : Draws} (hev : event ∈ s.events)
      (hclaim : event.claimable d.now = true) (hopen : OpenedOrder s event.orderId d₁ isNew order)
      (hmap : mapEventToStatus event.eventType = some (.known status))
      (hseq : order.lastSequence < event.sequence)
      (hamount : numericParam (event.payload.data.bind PaymentWebhookData.amount) = .ok amount) :
      WorkerEffect s (processed event .applied none event.attemptCount none)
        (((s.putOrder (order.applied status event.sequence amount
            (event.payload.data.bind PaymentWebhookData.currency) d₃)).addHistory
          (eventHistory event order.status status .applied none d₄)).putEvent (event.applied d₅))
  | ignored {event : EventRow} {order : OrderRow} {isNew : Bool} {reason : OutcomeReason}
      {d d₁ d₄ d₅ : Draws} (hev : event ∈ s.events) (hclaim : event.claimable d.now = true)
      (hopen : OpenedOrder s event.orderId d₁ isNew order)
      (hreason : (mapEventToStatus event.eventType = none ∧ reason = .unknownEventType) ∨
        ((mapEventToStatus event.eventType).isSome ∧ event.sequence ≤ order.lastSequence ∧
          reason = .staleSequence)) :
      WorkerEffect s (processed event .ignored (some reason) event.attemptCount none)
        (((s.putOrder order).addHistory
          (eventHistory event order.status order.status .ignored (some reason) d₄)).putEvent
          (event.ignored (some reason) d₅))
  | retryScheduled {event : EventRow} {attemptCount : ℕ} {nextAttemptAt : Timestamp}
      {error : String} {d : Draws} (hev : event ∈ s.events)
      (hclaim : event.claimable d.now = true) :
      WorkerEffect s
        (processed event .retryScheduled (some .transientError) attemptCount (some nextAttemptAt))
        (s.putEvent (event.retryScheduled attemptCount nextAttemptAt error))
  | dlq {event : EventRow} {attemptCount : ℕ} {error : String} {d d' : Draws}
      (hev : event ∈ s.events) (hclaim : event.claimable d.now = true) :
      WorkerEffect s (processed event .dlq (some .maxAttemptsExhausted) attemptCount none)
        (s.putEvent (event.dlq attemptCount error d'))

variable {cfg : WorkerConfig} {input : WorkerInput} {s s' : Store}

/-- What a worker's log changes is what the answer names. -/
theorem Change.workerEffect {log : Log} {a : ProcessOneResult}
    (h : Change cfg (.processOne input) log (some (.processed a)) s s') : WorkerEffect s a s' := by
  cases h with
  | idle => exact .notFound
  | applied hev hclaim hopen hmap hseq hamount => exact .applied hev hclaim hopen hmap hseq hamount
  | ignored hev hclaim hopen hreason => exact .ignored hev hclaim hopen hreason
  | retried hev hclaim => exact .retryScheduled hev hclaim
  | buried hev hclaim => exact .dlq hev hclaim

omit [Platform] in
/-- Rewriting an event keeps the attempts of all if it keeps its own. -/
theorem attempts_putEvent (hs : s.Keyed) {e e' : EventRow} (he : e ∈ s.events)
    (hkeys : e.keys = e'.keys) (hattempts : e'.attemptCount = e.attemptCount) :
    (s.putEvent e').events.map EventRow.attemptCount = s.events.map EventRow.attemptCount := by
  have hne : e'.keys ≠ [] := by simp [EventRow.keys]
  obtain ⟨l₁, l₂, hold, hnew⟩ := Tables.exists_replace hs.events he hkeys hne
  have hnew' : (s.putEvent e').events = l₁ ++ e' :: l₂ := hnew
  rw [hold, hnew', List.map_append, List.map_append, List.map_cons, List.map_cons, hattempts]

omit [Platform] in
/-- No attempt is consumed unless the answer says so. -/
theorem WorkerEffect.attempts (hs : s.Keyed) {a : ProcessOneResult} (h : WorkerEffect s a s') :
    s'.events.map EventRow.attemptCount = s.events.map EventRow.attemptCount ∨
      ∃ p, (p.outcome = .retryScheduled ∨ p.outcome = .dlq) ∧ a = .found p := by
  cases h with
  | notFound => exact .inl rfl
  | applied hev => exact .inl (attempts_putEvent hs hev rfl rfl)
  | ignored hev => exact .inl (attempts_putEvent hs hev rfl rfl)
  | retryScheduled hev => exact .inr ⟨_, .inl rfl, rfl⟩
  | dlq hev => exact .inr ⟨_, .inr rfl, rfl⟩

/-! ## An attempt is consumed only after a statement has failed -/

/-- The statement consumes an attempt. -/
def Stmt.Reschedules : Stmt → Prop
  | .markDlq _ _ _ => True
  | .markRetryScheduled _ _ _ _ => True
  | _ => False

/-- The log consumes no attempt. -/
def Spares (log : Log) : Prop := ∀ e ∈ log, ¬ e.stmt.Reschedules

/-- The call was told that a statement had failed. -/
def StatementFailed (c : Conn postgres) : Prop := ∃ q, .run q ∈ c.rejected

/-- A request of a call none of whose statements has failed: it has consumed no attempt, and its
`COMMIT` consumes none. -/
def Sparing (r : Request postgres) (c : Conn postgres) : Prop :=
  StatementFailed c ∨ (∀ log ∈ c.commits, Spares log) ∧
    (r = .commit → ∀ t, c.tx = some t → Spares t.log)

/-- A call none of whose statements has failed has consumed no attempt. -/
def Spared (c : Conn postgres) : Prop := StatementFailed c ∨ ∀ log ∈ c.commits, Spares log

section Rules

variable {α β : Type} {R : Rely postgres} {b : Draws} {log : Log} {saved : Option Log}
  {tx : Option (Tx postgres)} {rj : List (Request postgres)}

/-- After a statement has failed nothing is left to show. -/
theorem wp_of_failed {p : Prog postgres α} {c : Conn postgres} {Q : Post postgres α}
    (h : StatementFailed c) (hQ : ∀ x c, StatementFailed c → Q x c) : p.wp R Sparing Q c := by
  obtain ⟨q, hq⟩ := h
  refine Prog.wp_mono (fun x c hc => hQ x c ⟨q, hc⟩) _ _ ?_
  exact Prog.wp_imp (fun r c hc => .inl ⟨q, hc⟩) _ _ (Prog.wp_rejected p c hq)

/-- What has to be shown of the whole call. -/
def SparedPost : Post postgres α := fun _ c => Spared c

/-- What has to be shown of the body of the transaction. -/
def SparedBody : Post postgres α
  | .ok _, c => Spared c
  | .error e, c => Prog.Unwinds Sparing (SparedPost (α := α)) e c

theorem sparedBody_of_spared {x : Except DbError α} {c : Conn postgres} (h : Spared c) :
    SparedBody x c := by
  cases x with
  | ok a => exact h
  | error e =>
    refine ⟨h.imp_right fun h => ⟨h, by simp⟩, fun tx rj _ hrj => h.imp_left ?_⟩
    rintro ⟨q, hq⟩
    rcases hrj with rfl | rfl
    · exact ⟨q, hq⟩
    · exact ⟨q, List.mem_append.mpr (.inl hq)⟩

/-- Before the commit, a request that is no commit. -/
theorem sparing_of_nil {r : Request postgres} (hr : r ≠ .commit) : Sparing r ⟨tx, [], rj⟩ :=
  .inr ⟨by simp, fun h => absurd h hr⟩

/-- A statement: its failure is recorded. -/
theorem wp_sql_spared {q : Stmt} {f : q.Rows → Prog postgres β} {Q : Post postgres β}
    (herr : ∀ e c, StatementFailed c → Q (.error e) c)
    (hok : ∀ db d skip rows ws, R ⟨some ⟨b, log, saved, false⟩, [], rj⟩ db →
      exec q d skip (install (E := postgres) db log) = .ok (rows, ws) →
      (f rows).wp R Sparing Q ⟨some ⟨b, log ++ [⟨q, d, rows, ws⟩], saved, false⟩, [], rj⟩) :
    (sql q >>= f).wp R Sparing Q ⟨some ⟨b, log, saved, false⟩, [], rj⟩ := by
  refine Prog.wp_bind _ _ _ (Prog.wp_query (sparing_of_nil (by simp)) hok fun e tx _ => ?_)
  exact herr e _ ⟨q, by simp⟩

end Rules

/-- After `INSERT … ON CONFLICT DO NOTHING` the order is there. -/
theorem order?_of_insertOrder {id : String} {d : Draws} {skip : Key → Bool} {isNew : Bool}
    {w : List Write} (h : exec (.insertOrder id) d skip s = .ok (isNew, w)) :
    ∃ o, (w.foldl Store.apply s).order? id = some o := by
  simp only [exec] at h
  split at h
  · cases h
  · cases ho : s.order? id with
    | some o =>
      rw [ho] at h
      obtain ⟨-, rfl⟩ : _ ∧ w = [] := by simpa [eq_comm] using h
      exact ⟨o, ho⟩
    | none =>
      rw [ho] at h
      obtain ⟨-, -, rfl⟩ := insertRow_ok.mp h
      have hno : ∀ k ∈ (defaultOrder id d).keys, Tables.find OrderRow.keys k s.orders = none := by
        simpa [OrderRow.keys, defaultOrder, Store.order?] using ho
      have hfind := Tables.find_append (.order id) hno
      rw [if_pos (by simp [OrderRow.keys, defaultOrder])] at hfind
      exact ⟨_, hfind⟩

/-- **The business block** of a call that nobody disturbs fails only by a failed statement, and
consumes no attempt. -/
theorem wp_businessBlock_alone {Q : Post postgres ProcessingResult} {event : EventRow} {b d : Draws}
    {w : List Write} {saved : Option Log} {rj : List (Request postgres)}
    (herr : ∀ e c, StatementFailed c → Q (.error e) c)
    (hok : ∀ log result, Spares (⟨.claim, d, some event, w⟩ :: log) →
      Q (.ok result) ⟨some ⟨b, ⟨.claim, d, some event, w⟩ :: log, saved, false⟩, [], rj⟩) :
    (businessBlock event).wp (Rely.alone s) Sparing Q
      ⟨some ⟨b, [⟨.claim, d, some event, w⟩], saved, false⟩, [], rj⟩ := by
  refine wp_sql_spared herr fun db d₁ skip₁ isNew w₁ hdb hx₁ => ?_
  refine wp_sql_spared herr fun db' d₂ skip₂ order w₂ hdb' hx₂ => ?_
  obtain rfl : db = s := hdb rfl
  obtain rfl : db' = db := hdb' rfl
  cases order with
  | none =>
    obtain ⟨o, ho⟩ := order?_of_insertOrder hx₁
    have hnone : (w₁.foldl Store.apply (install (E := postgres) db'
        [⟨.claim, d, some event, w⟩])).order? event.orderId = none := by
      replace hx₂ : Except.ok _ = Except.ok _ := hx₂
      simp only [Except.ok.injEq, Prod.mk.injEq] at hx₂
      exact hx₂.1
    exact absurd (ho.symm.trans hnone) (by simp)
  | some order =>
    refine Prog.wp_bind _ _ _ ?_
    unfold writeResult
    cases hout : (process event order).outcome with
    | applied =>
      refine wp_sql_spared herr fun _ d₃ _ m₃ w₃ _ _ => ?_
      refine wp_sql_spared herr fun _ d₄ _ _ w₄ _ _ => ?_
      refine wp_sql_spared herr fun _ d₅ _ m₅ w₅ _ _ => ?_
      exact hok _ _ (by simp [Spares, Stmt.Reschedules])
    | ignored =>
      refine wp_sql_spared herr fun _ d₄ _ _ w₄ _ _ => ?_
      refine wp_sql_spared herr fun _ d₅ _ m₅ w₅ _ _ => ?_
      exact hok _ _ (by simp [Spares, Stmt.Reschedules])

/-- The commit of a log that consumes no attempt. -/
theorem wp_commit_spared {α : Type} {R : Rely postgres} {b : Draws} {log : Log}
    {saved : Option Log} {rj : List (Request postgres)} {a : α} (h : Spares log) :
    (Prog.request (E := postgres) .commit >>= fun _ => pure a).wp R Sparing SparedBody
      ⟨some ⟨b, log, saved, false⟩, [], rj⟩ := by
  have hspares : ∀ l ∈ [log], Spares l := by simpa using h
  refine Prog.wp_bind _ _ _ (Prog.wp_commit ?_ ?_ (fun e => ?_) fun e => ?_)
  · exact .inr ⟨by simp, fun _ t ht => by cases ht; exact h⟩
  · exact .inr hspares
  · exact sparedBody_of_spared (x := .error e) (.inr hspares)
  · exact sparedBody_of_spared (x := .error e) (.inr (by simp))

/-- **An attempt is consumed only after a statement has failed**, in a call that nobody
disturbs. -/
theorem wp_processOne_alone (cfg : WorkerConfig) (input : WorkerInput) (s : Store) :
    (processOne cfg input).wp (Rely.alone s) Sparing SparedPost Conn.fresh := by
  have hfailed : ∀ {α : Type} (x : Except DbError α) (c : Conn postgres), StatementFailed c →
      SparedBody x c := fun x c h => sparedBody_of_spared (.inl h)
  refine Prog.wp_transaction (sparing_of_nil (by simp)) (fun e => ?_) fun b => ?_
  · exact sparedBody_of_spared (x := .error e) (.inr (by simp))
  · refine Prog.wp_mono (Q := SparedBody) (fun x c hx => by cases x <;> exact hx) _ _ ?_
    refine wp_sql_spared (fun e => hfailed (.error e)) fun _ d _ event w _ _ => ?_
    cases event with
    | none => exact wp_commit_spared (by simp [Spares, Stmt.Reschedules])
    | some event =>
      refine Prog.wp_bind _ _ _ (Prog.wp_savepoint (sparing_of_nil (by simp)) ?_ fun e tx _ => ?_)
      · refine Prog.wp_bind _ _ _ (Prog.wp_attempt _ _ (wp_businessBlock_alone (fun e c hc => ?_)
          fun log result hlog => ?_))
        · exact wp_of_failed hc hfailed
        · refine Prog.wp_bind _ _ _ (Prog.wp_release (sparing_of_nil (by simp)) ?_ fun e tx _ => ?_)
          · exact wp_commit_spared hlog
          · exact sparedBody_of_spared (.inr (by simp))
      · exact sparedBody_of_spared (.inr (by simp))

/-! ## Atomicity -/

/-- How a call of `processOne` on its own ends. -/
theorem processOne_ends (cfg : WorkerConfig) (input : WorkerInput) (s : Store)
    (mv : ℕ → Move postgres) :
    Prog.Ends (fun r c => Careful (WorkerLog cfg input) r c ∧ Sparing r c)
      (fun x c => Truthful (WorkerLog cfg input) x c ∧ Spared c)
      ((processOne cfg input).call mv s).1 ((processOne cfg input).call mv s).2.2 := by
  refine Prog.call_wp mv _ s (Prog.wp_and _ _ ?_ (wp_processOne_alone cfg input s))
  exact Prog.wp_rely (fun _ _ _ => trivial) _ _ (wp_processOne cfg input)

/-- **What a call on its own commits**: nothing, or one of its logs; and if it does not return, it was
told that its `COMMIT` had failed, or has failed after it. -/
theorem ends_commits {α : Type} {S : Log → Option α → Prop} {o : Outcome postgres α}
    {c : Conn postgres} (h : Prog.Ends (Careful S) (Truthful S) o c) :
    (∃ a log, o = .returned a ∧ c.commits = [log] ∧ S log (some a)) ∨
    ((∀ a, o ≠ .returned a) ∧ (c.commits = [] ∨
      ∃ log x, c.commits = [log] ∧ S log x ∧ (x = none ∨ .commit ∈ c.rejected))) := by
  cases o with
  | returned a =>
    obtain ⟨log, hl, hx⟩ := h
    exact .inl ⟨a, log, rfl, hl, hx⟩
  | threw e => exact .inr ⟨by simp, h⟩
  | died =>
    refine .inr ⟨by simp, ?_⟩
    obtain ⟨r, c₀, hcareful, hrj, hsame | ⟨rfl, t, ht, ha, hone⟩⟩ := h
    · rw [hsame, hrj]
      refine hcareful.settled.imp_right ?_
      rintro ⟨log, x, hl, hx, hmem⟩
      exact ⟨log, x, hl, hx, hmem.imp_right fun hmem => List.mem_append.mpr (.inl hmem)⟩
    · obtain ⟨x, hx⟩ := hcareful.commit rfl t ht ha
      rw [hone, hrj, hcareful.fresh (by simp)]
      exact .inr ⟨t.log, x, rfl, hx, .inr (by simp)⟩

/-- Every log of a worker comes with an answer. -/
theorem WorkerLog.isSome {log : Log} {x : Option ProcessOneResult} (h : WorkerLog cfg input log x) :
    ∃ a, x = some a := by
  cases h <;> exact ⟨_, rfl⟩

/-- What a turn of the worker commits: nothing, or one of its logs; and if it does not return, it was
told that its `COMMIT` had failed. -/
theorem processOne_commits {o : Outcome postgres ProcessOneResult} {c : Conn postgres}
    (h : Prog.Ends (fun r c => Careful (WorkerLog cfg input) r c ∧ Sparing r c)
      (fun x c => Truthful (WorkerLog cfg input) x c ∧ Spared c) o c) :
    (∃ a log, o = .returned a ∧ c.commits = [log] ∧ WorkerLog cfg input log (some a)) ∨
    ((∀ a, o ≠ .returned a) ∧ (c.commits = [] ∨
      ∃ log a, c.commits = [log] ∧ WorkerLog cfg input log (some a) ∧ .commit ∈ c.rejected)) := by
  have hends : Prog.Ends (Careful (WorkerLog cfg input)) (Truthful (WorkerLog cfg input)) o c :=
    Prog.Ends.imp (fun _ _ hA => hA.1) (fun _ _ hQ => hQ.1) h
  refine (ends_commits hends).imp_right fun ⟨hne, hc⟩ => ⟨hne, hc.imp_right ?_⟩
  rintro ⟨log, x, hl, hx, hmem⟩
  obtain ⟨a, rfl⟩ := hx.isSome
  exact ⟨log, a, hl, hx, hmem.resolve_left (by simp)⟩

/-- A call none of whose statements has failed consumes no attempt. -/
theorem processOne_spared {o : Outcome postgres ProcessOneResult} {c : Conn postgres}
    (h : Prog.Ends (fun r c => Careful (WorkerLog cfg input) r c ∧ Sparing r c)
      (fun x c => Truthful (WorkerLog cfg input) x c ∧ Spared c) o c) : Spared c := by
  cases o with
  | returned a => exact h.2
  | threw e => exact h.2
  | died =>
    obtain ⟨r, c₀, ⟨-, hsparing⟩, hrj, hc⟩ := h
    refine hsparing.imp (fun ⟨q, hq⟩ => ⟨q, by simp [hrj, hq]⟩) fun ⟨hold, hnew⟩ => ?_
    rcases hc with hsame | ⟨rfl, t, ht, -, hone⟩
    · rw [hsame]
      exact hold
    · rw [hone]
      intro log hlog
      rcases List.mem_append.mp hlog with hlog | hlog
      · exact hold log hlog
      · obtain rfl := List.mem_singleton.mp hlog
        exact hnew rfl t ht

end PaymentWebhook
