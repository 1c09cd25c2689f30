import PaymentWebhook.Agreement
import PaymentWebhook.Feeds
import PaymentWebhook.JsString
import PaymentWebhook.OrderReads
import PaymentWebhook.Replays

set_option relaxedAutoImplicit false
set_option autoImplicit false

/-!
# The endpoints

The controllers in front of the ingestion, the replay and the reconciliation: what they answer without touching the
database, and how they answer when a procedure has returned or thrown.

## Main definitions

* `PaymentWebhook.WebhooksController.receivePayment`, `PaymentWebhook.DlqController.replay`,
  `PaymentWebhook.ReconciliationController.reconcile` — the controllers.
* `PaymentWebhook.Exchange.response` — the response to a request, as soon as there is one.
* `PaymentWebhook.Serving` — the service has been used through these endpoints only.

## Main results

* `PaymentWebhook.HttpRequest.truthful` — every controller tells what has been committed.
* `PaymentWebhook.http_accounting` — what can be read off the responses.

## Implementation notes

The bodies that the parser of the framework refuses, before there is a request, are left out, and so are the texts
of the validation pipe.
-/

namespace PaymentWebhook

open Transactions

/-! ## Requests and responses -/

/-- A header of a request; of one that is repeated Node keeps a list. -/
inductive HeaderValue where
  | one (value : String)
  | many (values : List String)
  deriving DecidableEq, Repr

/-- A request to `POST /webhooks/payments`.  There is no `body` if a field is not of its type. -/
structure PaymentRequest where
  rawBody : Option (List UInt8)
  body : Option WebhookPayload
  signature : Option String
  correlationId : Option HeaderValue
  webhookReceivedAt : Timestamp

/-- What the body of a response says. -/
inductive HttpBody where
  | exception (message : String)
  | failure (error message : String)
  | unavailable (error correlationId : String)
  | ingested (r : IngestionResult) (correlationId : String)
  | replayed (r : ReplayResult)
  | reconciled (r : ReconciliationRunResult)

structure HttpResponse where
  status : ℕ
  correlationId : Option String
  body : HttpBody

/-- What the controllers are configured with. -/
structure Server where
  hmacSha256 : String → List UInt8 → Vector UInt8 32
  secret : String
  js : NodeJson
  timeoutMs : ℕ

/-- **A request that reaches the database**: the call that it makes, and how it is answered when the call has returned
or thrown. -/
structure Handler where
  call : Call
  respond : Except DbError Answer → Option HttpResponse

/-! ## The controllers -/

/-- The correlation id of a request: the header without white space around it, if it is 1 to 128 long. -/
def correlationIdOf (rawHeader : Option HeaderValue) (randomUUID : String) : String :=
  let headerValue := match rawHeader with
    | some (.many values) => values.head?
    | some (.one value) => some value
    | none => none
  let trimmed := match headerValue with
    | some value => jsTrim value.toList
    | none => []
  if 0 < jsLength trimmed ∧ jsLength trimmed ≤ 128 then String.ofList trimmed else randomUUID

variable [Platform]

/-- **`WebhooksController.receivePayment`**, behind the guard and the validation pipe. -/
def WebhooksController.receivePayment (srv : Server) (req : PaymentRequest) (randomUUID : String) :
    Except HttpResponse Handler :=
  match WebhookSignatureGuard.canActivate srv.hmacSha256 srv.secret req.rawBody req.signature with
  | .error message => .error ⟨401, none, .exception message⟩
  | .ok _ =>
    match req.rawBody, req.body with
    | some bytes, some body =>
      if PaymentWebhookDto.accepts body then
        let correlationId := correlationIdOf req.correlationId randomUUID
        .ok
          { call := .ingest ⟨⟨bytes, body⟩, correlationId, req.webhookReceivedAt⟩
            respond := fun
              | .ok (.ingested result) => some ⟨202, some correlationId, .ingested result correlationId⟩
              | .ok _ => none
              | .error _ => some ⟨503, some correlationId,
                  .unavailable "Service temporarily unavailable" correlationId⟩ }
      else .error ⟨400, none, .exception "Bad Request"⟩
    | _, _ => .error ⟨400, none, .exception "Bad Request"⟩

/-- **`DlqController.replay`**.  A number that is no `BIGINT` fails the first statement of the repository. -/
def DlqController.replay (id : String) : Except HttpResponse Handler :=
  -- `/^\d+$/`
  if id.toList ≠ [] ∧ id.toList.all Char.isDigit then
    if 9223372036854775807 < digitsValue id.toList then
      .error ⟨500, none, .exception "Database error during replay"⟩
    else
      .ok
        { call := .replay (digitsValue id.toList)
          respond := fun
            | .ok (.replayed none) => some ⟨404, none, .exception ("Event " ++ id ++ " not found")⟩
            | .ok (.replayed (some result)) =>
              some ⟨if result.branch = .replayed then 202 else 200, none, .replayed result⟩
            | .ok _ => none
            | .error _ => some ⟨500, none, .exception "Database error during replay"⟩ }
  else .error ⟨400, none, .exception "id must contain only digits"⟩

/-- A snapshot that has been fetched is valid. -/
theorem fetchSnapshot_valid {js : NodeJson} {timeoutMs : ℕ} {fetched : FetchOutcome} {s : ProviderSnapshot}
    (h : ProviderClient.fetchSnapshot js timeoutMs fetched = .ok s) :
    (∀ o ∈ s.orders, o.Valid) ∧ (s.orders.map ProviderOrder.id).Nodup := by
  cases fetched with
  | aborted => cases h
  | failed message => cases h
  | answered r =>
    simp only [ProviderClient.fetchSnapshot] at h
    split_ifs at h
    split at h
    next => cases h
    next body hparse =>
      cases hbody : validate body with
      | error e =>
        rw [hbody] at h
        cases h
      | ok s' =>
        rw [hbody] at h
        obtain rfl : s' = s := Except.ok.inj h
        exact validate_valid hbody

/-- **`ReconciliationController.reconcile`**: the service fetches the snapshot before it opens a transaction. -/
def ReconciliationController.reconcile (srv : Server) (fetched : FetchOutcome) : Except HttpResponse Handler :=
  match h : ProviderClient.fetchSnapshot srv.js srv.timeoutMs fetched with
  | .error _ => .error ⟨502, none, .failure "Bad Gateway" "Provider unavailable or returned invalid data"⟩
  | .ok snapshot =>
    .ok
      { call := .reconcile ⟨snapshot.orders, (fetchSnapshot_valid h).1, (fetchSnapshot_valid h).2⟩
        respond := fun
          | .ok (.reconciled result) => some ⟨200, none, .reconciled result⟩
          | .ok _ => none
          | .error _ => some ⟨503, none,
              .failure "Service Unavailable" "Reconciliation temporarily unavailable"⟩ }

/-- How a snapshot that has been fetched is reconciled. -/
theorem ReconciliationController.reconcile_ok {srv : Server} {fetched : FetchOutcome} {s : ProviderSnapshot}
    (h : ProviderClient.fetchSnapshot srv.js srv.timeoutMs fetched = .ok s) :
    ∃ handler, reconcile srv fetched = .ok handler ∧
      handler.call = .reconcile ⟨s.orders, (fetchSnapshot_valid h).1, (fetchSnapshot_valid h).2⟩ ∧
      ∀ r, handler.respond (.ok (.reconciled r)) = some ⟨200, none, .reconciled r⟩ := by
  unfold reconcile
  split
  next herror =>
    rw [h] at herror
    cases herror
  next snapshot hfetched =>
    obtain rfl : s = snapshot := Except.ok.inj (h.symm.trans hfetched)
    exact ⟨_, rfl, rfl, fun _ => rfl⟩

/-! ## Exchanges -/

/-- The requests that write; the snapshot that a reconciliation fetches comes with it. -/
inductive HttpRequest where
  | payment (req : PaymentRequest) (randomUUID : String)
  | replay (id : String)
  | reconcile (fetched : FetchOutcome)

/-- The controller of a request. -/
def HttpRequest.handle (srv : Server) : HttpRequest → Except HttpResponse Handler
  | payment req randomUUID => WebhooksController.receivePayment srv req randomUUID
  | replay id => DlqController.replay id
  | reconcile fetched => ReconciliationController.reconcile srv fetched

/-- A request, and the session that makes its call if it has one. -/
structure Exchange where
  request : HttpRequest
  session : ℕ

/-- **The response to a request**, as soon as there is one. -/
def Exchange.response (srv : Server) (w : State) (x : Exchange) : Option HttpResponse :=
  match x.request.handle srv with
  | .error r => some r
  | .ok handler =>
    match w.sessions x.session with
    | some ⟨_, .done a, _⟩ => handler.respond (.ok a)
    | some ⟨_, .fail e, _⟩ => handler.respond (.error e)
    | _ => none

/-- The call that a request makes. -/
def Exchange.call? (srv : Server) (x : Exchange) : Option Call := (x.request.handle srv).toOption.map Handler.call

/-- **The service has been used through its endpoints**: every call has been made for a request, by a session of its
own, or is a turn of a worker.  Nothing is said of how far the sessions are. -/
structure Serving (cfg : WorkerConfig) (srv : Server) (w : State) (exchanges : List Exchange) : Prop where
  reach : Reach cfg .empty w
  sessions : ((exchanges.filter fun x => (x.call? srv).isSome).map Exchange.session).Nodup
  called : ∀ x ∈ exchanges, ∀ c, x.call? srv = some c → ∀ c', Called w x.session c' → c' = c
  only : ∀ i c, Called w i c → (∃ x ∈ exchanges, x.session = i ∧ x.call? srv = some c) ∨ ∃ input, c = .processOne input

/-! ## What requests are for -/

/-- What a request is to leave in the database: a delivery of an event, a replay, a reconciliation run. -/
inductive Purpose where
  | delivery (eventId : String)
  | replay (id : ℕ)
  | run
  deriving DecidableEq, Repr

/-- The status that says that it is there. -/
def Purpose.success : Purpose → ℕ
  | delivery _ => 202
  | replay _ => 202
  | run => 200

/-- The status that leaves it open. -/
def Purpose.failure : Purpose → ℕ
  | delivery _ => 503
  | replay _ => 500
  | run => 503

/-- What a call is for. -/
def Call.purpose? : Call → Option Purpose
  | ingest req => some (.delivery req.rawBody.json.eventId)
  | processOne _ => none
  | replay id => some (.replay id)
  | reconcile _ => some .run

/-- The log is that of a reconciliation. -/
def opensRun : Log → Bool
  | ⟨.advisoryLock, _, _, _⟩ :: _ => true
  | _ => false

/-- What a log has left in the database. -/
def achieved? (log : Log) : Option Purpose :=
  match receipt? log, branch? log with
  | some r, _ => some (.delivery r.event.eventId)
  | none, some (id, .replayed) => some (.replay id)
  | none, some (_, .notInDlq) => none
  | none, none => if opensRun log then some .run else none

/-- How much of it there is. -/
def Store.amountOf (s : Store) : Purpose → ℕ
  | .delivery eventId => (s.deliveriesOf eventId).length
  | .replay id => ((s.eventAt? id).map EventRow.replayCount).getD 0
  | .run => s.runs.length

/-- A request has this purpose, and the status of its response is such. -/
def Exchange.tells (srv : Server) (w : State) (p : Purpose) (status : Option ℕ → Bool) (x : Exchange) : Bool :=
  (x.call? srv).bind Call.purpose? = some p && status ((x.response srv w).map HttpResponse.status)

/-- How many responses say that it has been done. -/
def confirmed (srv : Server) (w : State) (exchanges : List Exchange) (p : Purpose) : ℕ :=
  exchanges.countP (Exchange.tells srv w p (· = some p.success))

/-- How many requests have not been answered, or with the status that leaves it open. -/
def uncertain (srv : Server) (w : State) (exchanges : List Exchange) (p : Purpose) : ℕ :=
  exchanges.countP (Exchange.tells srv w p fun status => status = none || status = some p.failure)

variable {cfg : WorkerConfig} {srv : Server} {w : State} {exchanges : List Exchange}

/-! ## What is in the database -/

/-- What a call has left is what it is for. -/
theorem CommitLog.achieved {c : Call} {log : Log} {x : Option Answer} (h : CommitLog cfg c log x) {p : Purpose}
    (hp : achieved? log = some p) : c.purpose? = some p := by
  cases h with
  | @ingest req _ _ h =>
    cases h
    exact hp
  | processOne h =>
    cases h <;> simp [achieved?, receipt?, branch?, opensRun] at hp
  | replay h =>
    cases h with
    | missing => simp [achieved?, receipt?, branch?, opensRun] at hp
    | replayed => exact hp
    | notInDlq => simp [achieved?, receipt?, branch?] at hp
  | reconcile h =>
    cases h
    exact hp

/-- The runs are as many as the logs of reconciliations. -/
theorem Reach.length_runs (h : Reach cfg .empty w) :
    w.db.runs.length = w.journal.countP fun c => opensRun c.2 := by
  refine h.changes_induction (P := fun journal s => s.runs.length = journal.countP fun c => opensRun c.2)
    Store.keyed_empty rfl fun journal s s' i c log x hcalled hs hP hc => ?_
  rw [List.countP_append, ← hP]
  by_cases hreconcile : ∃ snapshot, c = .reconcile snapshot
  · obtain ⟨snapshot, rfl⟩ := hreconcile
    obtain ⟨r, hspec⟩ := hc.exists_run
    obtain ⟨-, row, hruns, -⟩ := hspec.run
    have hopens : opensRun log = true := by
      cases hc
      rfl
    simp [hruns, hopens]
  · cases hc with
    | reconciled => exact absurd ⟨_, rfl⟩ hreconcile
    | _ => simp [opensRun]

/-- The logs that leave a delivery. -/
theorem achieved?_delivery {log : Log} {eventId : String} :
    achieved? log = some (.delivery eventId) ↔ ∃ r, receipt? log = some r ∧ r.event.eventId = eventId := by
  unfold achieved?
  cases receipt? log with
  | none =>
    rcases branch? log with _ | ⟨id, _ | _⟩
    · simp
    · simp
    · simp
  | some r => simp

/-- The logs that leave a replay. -/
theorem achieved?_replay {log : Log} {id : ℕ} :
    achieved? log = some (.replay id) ↔ branch? log = some (id, .replayed) := by
  have hnone : ∀ {b}, branch? log = some b → receipt? log = none := by
    intro b hb
    unfold branch? at hb
    split at hb
    · rfl
    · rfl
    · cases hb
  unfold achieved?
  cases hb : branch? log with
  | none =>
    cases receipt? log <;> simp
  | some b =>
    rw [hnone hb]
    obtain ⟨id', _ | _⟩ := b
    · simp
    · simp

/-- The logs that leave a run. -/
theorem achieved?_run {log : Log} : achieved? log = some .run ↔ opensRun log = true := by
  unfold achieved?
  cases hr : receipt? log with
  | some r =>
    unfold receipt? at hr
    split at hr
    · simp [opensRun]
    · cases hr
  | none =>
    cases hb : branch? log with
    | some b =>
      have hopens : opensRun log = false := by
        unfold branch? at hb
        split at hb
        · rfl
        · rfl
        · cases hb
      obtain ⟨id, _ | _⟩ := b
      · simp [hopens]
      · simp [hopens]
    | none => simp

/-- **The database is what has been achieved.** -/
theorem Reach.amountOf_eq (h : Reach cfg .empty w) (p : Purpose) :
    w.db.amountOf p = w.journal.countP fun c => achieved? c.2 = some p := by
  cases p with
  | delivery eventId =>
    rw [Store.amountOf, h.accounted.deliveriesOf_eq, List.length_map, receiptsOf, ← List.countP_eq_length_filter,
      receipts, List.countP_filterMap]
    refine List.countP_congr fun c _ => ?_
    simp only [achieved?_delivery, decide_eq_true_eq]
    cases receipt? c.2 <;> simp
  | replay id =>
    have hcongr : (w.journal.countP fun c => achieved? c.2 = some (.replay id)) = replaysOf id w.journal :=
      List.countP_congr fun c _ => by simp only [achieved?_replay]
    rw [hcongr, Store.amountOf]
    cases he : Store.eventAt? w.db id with
    | none => exact (h.dlqAccounted.unknown id he).2.symm
    | some e =>
      obtain ⟨hmem, hid⟩ := Store.mem_of_eventAt? he
      rw [← hid]
      exact (h.dlqAccounted.replays e hmem).symm
  | run =>
    rw [Store.amountOf, h.length_runs]
    exact List.countP_congr fun c _ => by simp only [achieved?_run, decide_eq_true_eq]

/-! ## What the responses say -/

/-- **An honest handler**: the status of its response is that of success exactly if the call has achieved what it is
for, and is the other one if the call has thrown. -/
structure Handler.Honest (cfg : WorkerConfig) (handler : Handler) (p : Purpose) : Prop where
  purpose : handler.call.purpose? = some p
  returned : ∀ log a, CommitLog cfg handler.call log (some a) → ∃ r, handler.respond (.ok a) = some r ∧
    (r.status = p.success ↔ achieved? log = some p)
  threw : ∀ e, ∃ r, handler.respond (.error e) = some r ∧ r.status = p.failure

/-- **Every controller is honest.** -/
theorem HttpRequest.honest (cfg : WorkerConfig) {srv : Server} {req : HttpRequest} {handler : Handler}
    (h : req.handle srv = .ok handler) : ∃ p, handler.Honest cfg p := by
  cases req with
  | payment req randomUUID =>
    simp only [handle, WebhooksController.receivePayment] at h
    split at h
    · cases h
    · split at h
      · split_ifs at h
        obtain rfl := Except.ok.inj h
        refine ⟨_, rfl, fun log a hlog => ?_, fun e => ⟨_, rfl, rfl⟩⟩
        generalize hx : some a = x at hlog
        cases hlog with
        | ingest hlog =>
          cases hlog
          obtain rfl := Option.some.inj hx
          exact ⟨_, rfl, by simp [achieved?_delivery, receipt?, Purpose.success, WebhookRequest.event]⟩
      · cases h
  | replay id =>
    simp only [handle, DlqController.replay] at h
    split_ifs at h
    obtain rfl := Except.ok.inj h
    refine ⟨_, rfl, fun log a hlog => ?_, fun e => ⟨_, rfl, rfl⟩⟩
    generalize hx : some a = x at hlog
    cases hlog with
    | replay hlog =>
      cases hlog with
      | missing =>
        obtain rfl := Option.some.inj hx
        exact ⟨_, rfl, by simp [achieved?_replay, branch?, Purpose.success]⟩
      | @replayed d d' w w' event updated hdlq =>
        cases updated with
        | none => cases hx
        | some e =>
          obtain rfl := Option.some.inj hx
          exact ⟨_, rfl, by simp [achieved?_replay, branch?, Purpose.success, ReplayResult.branch]⟩
      | notInDlq =>
        obtain rfl := Option.some.inj hx
        exact ⟨_, rfl, by simp [achieved?_replay, branch?, Purpose.success, ReplayResult.branch]⟩
  | reconcile fetched =>
    simp only [handle, ReconciliationController.reconcile] at h
    split at h
    · cases h
    · obtain rfl := Except.ok.inj h
      refine ⟨_, rfl, fun log a hlog => ?_, fun e => ⟨_, rfl, rfl⟩⟩
      generalize hx : some a = x at hlog
      cases hlog with
      | reconcile hlog =>
        cases hlog with
        | @completed _ _ _ _ _ _ _ finished =>
          cases finished with
          | none => cases hx
          | some run =>
            obtain rfl := Option.some.inj hx
            exact ⟨_, rfl, by simp [achieved?_run, opensRun, Purpose.success]⟩

/-- **What a body says is recorded.** -/
def HttpBody.Recorded (s : Store) : HttpBody → Prop
  | ingested r correlationId =>
    ∃ d ∈ s.deliveries, d.eventId = r.eventId ∧ d.result = r.result ∧ d.correlationId = correlationId
  | replayed (.replayed id eventId _ replayCount) =>
    ∃ e ∈ s.events, e.id = id ∧ e.eventId = eventId ∧ replayCount ≤ e.replayCount
  | replayed (.notInDlq id eventId _) => ∃ e ∈ s.events, e.id = id ∧ e.eventId = eventId
  | reconciled r => ∃ run ∈ s.runs, run.id = r.runId ∧ run.status = .completed ∧ run.ordersChecked = r.ordersChecked ∧
      run.repaired = r.repaired ∧ run.divergences = r.divergences
  | _ => True

omit [Platform] in
/-- What is recorded stays recorded. -/
theorem HttpBody.Recorded.later {s s' : Store} {body : HttpBody} (hbody : body.Recorded s) (h : s.Becomes s') :
    body.Recorded s' := by
  have hevent : ∀ {id eventId n}, (∃ e ∈ s.events, e.id = id ∧ e.eventId = eventId ∧ n ≤ e.replayCount) →
      ∃ e ∈ s'.events, e.id = id ∧ e.eventId = eventId ∧ n ≤ e.replayCount := by
    rintro id eventId n ⟨e, he, rfl, rfl, hn⟩
    obtain ⟨e', he', hcont⟩ := h.events e he
    exact ⟨e', he', (congrArg EventRow.id hcont.origin :), (congrArg EventRow.eventId hcont.origin :),
      hn.trans hcont.replays⟩
  cases body with
  | ingested r correlationId =>
    obtain ⟨d, hd, hrow⟩ := hbody
    exact ⟨d, h.deliveries.subset hd, hrow⟩
  | replayed r =>
    cases r with
    | replayed id eventId status replayCount => exact hevent hbody
    | notInDlq id eventId status =>
      obtain ⟨e, he, hid, heventId⟩ := hbody
      obtain ⟨e', he', hid', heventId', -⟩ := hevent ⟨e, he, hid, heventId, Nat.zero_le _⟩
      exact ⟨e', he', hid', heventId'⟩
  | reconciled r =>
    obtain ⟨run, hrun, hrow⟩ := hbody
    exact ⟨run, h.runs.subset hrun, hrow⟩
  | _ => trivial

/-- **A controller answers with what has been written.** -/
theorem HttpRequest.recorded {req : HttpRequest} {handler : Handler} (h : req.handle srv = .ok handler) {s s' : Store}
    (hs : s.Keyed) {log : Log} {a : Answer} (hc : Change cfg handler.call log (some a) s s') {r : HttpResponse}
    (hr : handler.respond (.ok a) = some r) : r.body.Recorded s' := by
  cases req with
  | payment req randomUUID =>
    simp only [handle, WebhooksController.receivePayment] at h
    split at h
    · cases h
    · split at h
      · split_ifs at h
        obtain rfl := Except.ok.inj h
        cases hc with
        | created =>
          obtain rfl := Option.some.inj hr
          exact ⟨_, List.mem_append_right _ (List.mem_singleton.mpr rfl), rfl, rfl, rfl⟩
        | counted =>
          obtain rfl := Option.some.inj hr
          exact ⟨_, List.mem_append_right _ (List.mem_singleton.mpr rfl), rfl, rfl, rfl⟩
      · cases h
  | replay id =>
    simp only [handle, DlqController.replay] at h
    split_ifs at h
    obtain rfl := Except.ok.inj h
    generalize hcall : Call.replay (digitsValue id.toList) = c at hc
    cases hc with
    | unknown =>
      obtain rfl := Option.some.inj hr
      trivial
    | @replayed _ _ _ _ _ event hev =>
      obtain rfl := Option.some.inj hr
      have hmem : event.replayed ∈ (s.putEvent event.replayed).events :=
        (Store.mem_putEvent hs hev (show event.keys = event.replayed.keys from rfl)).mpr (.inl rfl)
      exact ⟨event.replayed, hmem, rfl, rfl, le_rfl⟩
    | notInDlq hev =>
      obtain rfl := Option.some.inj hr
      exact ⟨_, hev, rfl, rfl⟩
    | _ => cases hcall
  | reconcile fetched =>
    simp only [handle, ReconciliationController.reconcile] at h
    split at h
    · cases h
    · obtain rfl := Except.ok.inj h
      obtain ⟨result, rfl⟩ : ∃ result, a = .reconciled result := by
        cases hc
        exact ⟨_, rfl⟩
      obtain rfl := Option.some.inj hr
      obtain ⟨-, row, hruns, hid, hstatus, hchecked, hdivergences, hrepaired, -⟩ := hc.runSpec.run
      exact ⟨row, hruns ▸ List.mem_append_right _ (List.mem_singleton.mpr rfl), hid, hstatus, hchecked, hrepaired,
        hdivergences⟩

section Serving

variable (hserving : Serving cfg srv w exchanges)

include hserving

/-- The session of a request makes its call. -/
theorem Serving.session {x : Exchange} (hx : x ∈ exchanges) {handler : Handler}
    (hh : x.request.handle srv = .ok handler) {s : Session postgres Call Answer}
    (hs : w.sessions x.session = some s) : s.call = handler.call := by
  have hcall : x.call? srv = some handler.call := by simp [Exchange.call?, hh, Except.toOption]
  exact hserving.called x hx _ hcall _ ⟨s, hs, rfl⟩

/-- **Success has been committed.** -/
theorem Serving.exists_of_success {x : Exchange} (hx : x ∈ exchanges) {p : Purpose}
    (htells : x.tells srv w p (· = some p.success) = true) :
    ∃ log, (x.session, log) ∈ w.journal ∧ achieved? log = some p := by
  simp only [Exchange.tells, Bool.and_eq_true, decide_eq_true_eq] at htells
  obtain ⟨hp, hstatus⟩ := htells
  cases hh : x.request.handle srv with
  | error r => simp [Exchange.call?, hh, Except.toOption] at hp
  | ok handler =>
    obtain ⟨p', hhonest⟩ := HttpRequest.honest cfg hh
    obtain rfl : p' = p := by
      have hpurpose := hhonest.purpose
      simp only [Exchange.call?, hh, Except.toOption, Option.map_some, Option.bind_some] at hp
      exact Option.some.inj (hpurpose.symm.trans hp)
    simp only [Exchange.response, hh] at hstatus
    split at hstatus
    next c a conn hs =>
      have hcall := hserving.session hx hh hs
      obtain ⟨log, hlog, hcommit⟩ := hserving.reach.answered Store.keyed_empty hs rfl
      obtain ⟨r, hr, hiff⟩ := hhonest.returned log a (hcall ▸ hcommit)
      rw [hr, Option.map_some, Option.some_inj] at hstatus
      exact ⟨log, mem_journal_of_commitsOf hlog, hiff.mp hstatus⟩
    next c e conn hs =>
      obtain ⟨r, hr, hfailure⟩ := hhonest.threw e
      rw [hr, Option.map_some, Option.some_inj, hfailure] at hstatus
      cases p' <;> cases hstatus
    next => cases hstatus

/-- **What has been committed is not denied.** -/
theorem Serving.exists_of_journal {i : ℕ} {log : Log} (hmem : (i, log) ∈ w.journal) {p : Purpose}
    (hp : achieved? log = some p) : ∃ x ∈ exchanges, x.session = i ∧ (x.tells srv w p (· = some p.success) = true ∨
      x.tells srv w p (fun status => status = none || status = some p.failure) = true) := by
  obtain ⟨c, a, hcalled, hcommit⟩ := hserving.reach.journal_call Store.keyed_empty hmem
  have hpurpose := hcommit.achieved hp
  rcases hserving.only i c hcalled with ⟨x, hx, rfl, hcall⟩ | ⟨input, rfl⟩
  · refine ⟨x, hx, rfl, ?_⟩
    obtain ⟨s, hs, rfl⟩ := hcalled
    cases hh : x.request.handle srv with
    | error r => simp [Exchange.call?, hh, Except.toOption] at hcall
    | ok handler =>
      have hcall' : handler.call = s.call := by simpa [Exchange.call?, hh, Except.toOption] using hcall
      obtain ⟨p', hhonest⟩ := HttpRequest.honest cfg hh
      obtain rfl : p' = p := Option.some.inj (hhonest.purpose.symm.trans (hcall' ▸ hpurpose))
      simp only [Exchange.tells, Exchange.response, hcall, hh, Option.bind_some, hpurpose, decide_true,
        Bool.true_and, decide_eq_true_eq, Bool.or_eq_true]
      obtain ⟨c, prog, conn⟩ := s
      rw [hs]
      cases prog with
      | done a' =>
        left
        obtain ⟨log', hlog', hcommit'⟩ := hserving.reach.answered Store.keyed_empty hs rfl
        obtain rfl : log = log' := by
          have hmem' := w.mem_commitsOf.mpr hmem
          rwa [hlog', List.mem_singleton] at hmem'
        obtain ⟨r, hr, hiff⟩ := hhonest.returned log a' (hcall' ▸ hcommit')
        simp only [hr, Option.map_some, hiff.mpr hp]
      | fail e =>
        right
        obtain ⟨r, hr, hfailure⟩ := hhonest.threw e
        simp only [hr, Option.map_some, hfailure, or_true]
      | ask r ok failed => exact .inr (.inl rfl)
  · cases hpurpose

/-- At least as much has been achieved as has been confirmed. -/
theorem Serving.confirmed_le (p : Purpose) : confirmed srv w exchanges p ≤ w.db.amountOf p := by
  rw [hserving.reach.amountOf_eq, confirmed, List.countP_eq_length_filter, List.countP_eq_length_filter,
    ← List.length_map Exchange.session, ← List.length_map Prod.fst]
  refine (List.subperm_of_subset ?_ fun i hi => ?_).length_le
  · refine hserving.sessions.sublist ((List.monotone_filter_right _ fun x hx => ?_).map _)
    simp only [Exchange.tells, Bool.and_eq_true, decide_eq_true_eq] at hx
    cases hcall : x.call? srv with
    | none => simp [hcall] at hx
    | some c => rfl
  · obtain ⟨x, hx, rfl⟩ := List.mem_map.mp hi
    obtain ⟨hmem, htells⟩ := List.mem_filter.mp hx
    obtain ⟨log, hlog, hp⟩ := hserving.exists_of_success hmem htells
    exact List.mem_map.mpr ⟨_, List.mem_filter.mpr ⟨hlog, decide_eq_true hp⟩, rfl⟩

/-- Nothing has been achieved but what has been confirmed or is uncertain. -/
theorem Serving.le_confirmed_add (p : Purpose) :
    w.db.amountOf p ≤ confirmed srv w exchanges p + uncertain srv w exchanges p := by
  rw [hserving.reach.amountOf_eq, confirmed, uncertain, List.countP_eq_length_filter, List.countP_eq_length_filter,
    List.countP_eq_length_filter, ← List.length_map Prod.fst, ← List.length_append, ← List.length_map Exchange.session]
  refine (List.subperm_of_subset ?_ fun i hi => ?_).length_le
  · exact hserving.reach.nodup_journal.sublist (List.filter_sublist.map _)
  · obtain ⟨c, hc, rfl⟩ := List.mem_map.mp hi
    obtain ⟨hmem, hp⟩ := List.mem_filter.mp hc
    obtain ⟨x, hx, hsession, htells⟩ := hserving.exists_of_journal hmem (of_decide_eq_true hp)
    refine List.mem_map.mpr ⟨x, List.mem_append.mpr ?_, hsession⟩
    exact htells.imp (fun h => List.mem_filter.mpr ⟨hx, h⟩) fun h => List.mem_filter.mpr ⟨hx, h⟩

/-- **What the response to a request says is recorded.** -/
theorem Serving.recorded {x : Exchange} (hx : x ∈ exchanges) {handler : Handler}
    (hh : x.request.handle srv = .ok handler) {r : HttpResponse} (hr : x.response srv w = some r)
    (hstatus : r.status < 500) : r.body.Recorded w.db := by
  simp only [Exchange.response, hh] at hr
  split at hr
  next c a conn hs =>
    have hcall : c = handler.call := hserving.session hx hh hs
    obtain ⟨env₀, hstart⟩ := hserving.reach
    obtain ⟨w₁, w₂, log, hrun₁, hstep, hrun₂, hc⟩ :=
      Reach.effect Store.keyed_empty ⟨env₀, .refl⟩ hstart rfl hs rfl
    have hreach₁ : Reach cfg .empty w₁ := ⟨env₀, hrun₁⟩
    have hthere := HttpRequest.recorded hh (hreach₁.coherent Store.keyed_empty).inv (hcall ▸ hc) hr
    exact hthere.later ((hreach₁.step hstep).becomes hrun₂)
  next c e conn hs =>
    obtain ⟨p, hhonest⟩ := HttpRequest.honest cfg hh
    obtain ⟨r', hr', hfailure⟩ := hhonest.threw e
    obtain rfl : r = r' := Option.some.inj (hr.symm.trans hr')
    rw [hfailure] at hstatus
    cases p <;> simp [Purpose.failure] at hstatus
  next => cases hr

end Serving

/-! ## A sample -/

/-- Node, as far as the text of one snapshot needs it. -/
def NodeJson.reading (snapshot : ProviderSnapshot) : NodeJson where
  parse text := if text = stringifyAt 0 0 snapshot.toJson then some snapshot.toJson else none
  stringify indent := stringifyAt indent 0
  dateOf _ := none
  parse_blank text hblank := by
    refine if_neg ?_
    rintro rfl
    exact jsTrim_stringifyAt 0 _ hblank

omit [Platform] in
theorem NodeJson.reading_parse (snapshot : ProviderSnapshot) :
    (reading snapshot).parse (stringifyAt 0 0 snapshot.toJson) = some snapshot.toJson := if_pos rfl

/-- A server with a provider that has one order. -/
def sampleServer : Server where
  hmacSha256 := sampleRuntime.hmacSha256
  secret := "sample-secret"
  js := .reading (sampleSnapshot "ord_1")
  timeoutMs := 5000

/-- Requests to it: a reconciliation, a webhook without a signature, and two replays, of which one has no number and
the other one has not been answered. -/
def sampleExchanges (i : ℕ) : List Exchange :=
  [⟨.reconcile (.answered ⟨200, stringifyAt 0 0 (sampleSnapshot "ord_1").toJson⟩), i⟩,
    ⟨.payment ⟨some authorizedBody.bytes, some authorizedBody.json, none, none, sampleTime⟩
      "5f0c6f5e-3d0b-4a55-9c1e-0d6c3d1f7a10", i⟩,
    ⟨.replay "abc", i⟩, ⟨.replay "7", i + 1⟩]

end PaymentWebhook
