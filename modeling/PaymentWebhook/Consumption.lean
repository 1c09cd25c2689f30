import PaymentWebhook.Columns
import PaymentWebhook.Sequential

set_option relaxedAutoImplicit false
set_option autoImplicit false

/-!
# The way of an event

What the service does with an event when nothing goes wrong: it is ingested, and a worker applies
or ignores it.  In a resting world all of this can be done with every body that PostgreSQL accepts.

## Main definitions

* `PaymentWebhook.RawBody.Storable`, `PaymentWebhook.RawBody.Applicable` — the bodies that PostgreSQL
  accepts as an event, and those whose money it accepts in an order.
* `PaymentWebhook.Consumed` — an event has been ingested and finished with.

## Main results

* `PaymentWebhook.Resting.ingest` — a new event can be ingested.
* `PaymentWebhook.Resting.applied`, `PaymentWebhook.Resting.ignored` — what a worker makes of it.
* `PaymentWebhook.Resting.consume_applied`, `PaymentWebhook.Resting.consume_ignored` — the whole way.
-/

namespace PaymentWebhook

open Transactions

variable [Platform] {cfg : WorkerConfig} {w : State} {now start : Timestamp}

/-! ## Ingesting an event -/

/-- **A storable body**: PostgreSQL accepts it as an event. -/
structure RawBody.Storable (b : RawBody) : Prop where
  time : (Platform.timestamptzIn b.json.occurredAt).isSome
  jsonb : Platform.jsonbIn b.bytes = true
  eventId : varcharFits 255 b.json.eventId = true
  orderId : varcharFits 255 b.json.orderId = true
  eventType : varcharFits 50 b.json.eventType = true
  sequence : int4Fits b.json.sequence = true
  sequence_nonneg : 0 ≤ b.json.sequence

/-- An event that has just been ingested from a body, and waits for a worker. -/
structure EventRow.Awaits (e : EventRow) (b : RawBody) : Prop where
  eventId : e.eventId = b.json.eventId
  orderId : e.orderId = b.json.orderId
  eventType : e.eventType = b.json.eventType
  sequence : e.sequence = b.json.sequence
  payload : e.payload = b.json
  pending : e.processingStatus = .pending
  fits : e.fits = true

omit [Platform] in
/-- The accepted event types are those that stand for a status. -/
theorem PaymentWebhookDto.map_of_mem_allowed {eventType : String}
    (h : eventType ∈ PaymentWebhookDto.ALLOWED_EVENT_TYPES) :
    ∃ status, mapEventToStatus eventType = some (.known status) := by
  simp only [PaymentWebhookDto.ALLOWED_EVENT_TYPES, List.mem_cons, List.not_mem_nil, or_false] at h
  rcases h with rfl | rfl | rfl | rfl | rfl
  · exact ⟨.pending, rfl⟩
  · exact ⟨.authorized, rfl⟩
  · exact ⟨.captured, rfl⟩
  · exact ⟨.refunded, rfl⟩
  · exact ⟨.failed, rfl⟩

/-- A request with the body, received at the time `now`. -/
def RawBody.request (b : RawBody) (now : Timestamp) : WebhookRequest where
  rawBody := b
  correlationId := ""
  receivedAt := now

/-- The event of the body is not stale at the time `now`. -/
def RawBody.Recent (b : RawBody) (now : Timestamp) : Prop :=
  isStaleEvent (Platform.dateParse b.json.occurredAt) now = false

/-- No event is stale for ever. -/
theorem RawBody.exists_recent (b : RawBody) : ∃ now, b.Recent now := by
  unfold RawBody.Recent isStaleEvent
  cases h : Platform.dateParse b.json.occurredAt with
  | none => exact ⟨0, rfl⟩
  | some t =>
    refine ⟨t, decide_eq_false ?_⟩
    exact not_lt.mpr (sub_le_self t (by decide))

/-- An event that is not stale waits for a worker. -/
theorem RawBody.Recent.pending {b : RawBody} (h : b.Recent now) :
    (b.request now).event.processingStatus = .pending := by
  unfold RawBody.Recent at h
  simp [WebhookRequest.event, RawBody.request, h]

omit [Platform] in
/-- The empty string fits every column. -/
theorem varcharFits_empty (n : ℕ) : varcharFits n "" = true := by
  simp [varcharFits, textFits]

/-- The row that the request proposes. -/
theorem RawBody.Storable.awaits {b : RawBody} (hb : b.Storable) (hrecent : b.Recent now) (id : ℕ)
    (occurredAt : Timestamp) : ((b.request now).event.row id occurredAt).Awaits b where
  eventId := rfl
  orderId := rfl
  eventType := rfl
  sequence := rfl
  payload := rfl
  pending := hrecent.pending
  fits := by
    have hpending : ((b.request now).event.row id occurredAt).processingStatus = .pending :=
      hrecent.pending
    simp only [EventRow.fits, hpending, Bool.and_eq_true, and_assoc]
    exact ⟨hb.eventId, hb.orderId, hb.eventType, hb.sequence, decide_eq_true hb.sequence_nonneg,
      Platform.sha256Hex_fits b.bytes, rfl, rfl, rfl, rfl, rfl, varcharFits_empty 255, rfl⟩

/-- **A new event can be ingested** in a resting world. -/
theorem Resting.ingest (h : Resting cfg w) {b : RawBody} (hb : b.Storable)
    (hrecent : b.Recent w.env.clock) (hnew : w.db.event? b.json.eventId = none) :
    ∃ w' e r, Continues cfg w w' ∧ e.Awaits b ∧
      w'.db = { w.db with events := w.db.events ++ [e], deliveries := w.db.deliveries ++ [r] } ∧
      ∃ i d row ws a c, w.sessions i = none ∧
        w'.sessions = Function.update w.sessions i (some ⟨.ingest (b.request w.env.clock), .done a, c⟩) ∧
        w'.journal = w.journal ++ [(i, [⟨.upsertAndDeliver (b.request w.env.clock).event
          (b.request w.env.clock).delivery, d, row, ws⟩])] := by
  let req := b.request w.env.clock
  obtain ⟨w₁, i, t, hbegin, hfree, hbegun, hstart, hdb₁, hjournal₁, hothers⟩ := h.begin (.ingest req)
  obtain ⟨occurredAt, htime⟩ := Option.isSome_iff_exists.mp hb.time
  obtain ⟨n, hn, hfresh⟩ := w₁.db.exists_fresh w₁.env
  have hdraws := hfresh n le_rfl
  let d := Draws.nth w₁.env.clock t.start n
  let e := req.event.row d.eventId occurredAt
  let row : CteRow := ⟨e.id, e.deliveryCount, e.payloadHash, e.processingStatus,
    deliveryResult e.deliveryCount (req.event.processingStatus = .ignored) e.payloadHash
      req.event.payloadHash⟩
  let r := req.delivery.row d row.deliveryResult
  have hawaits : e.Awaits b := hb.awaits hrecent d.eventId occurredAt
  have hnew₁ : w₁.db.event? b.json.eventId = none := by rw [hdb₁, hnew]
  have hevent : upsert w₁.db e = .ok (e, .insert (.event e)) := by
    refine upsert_ok.mpr ⟨hawaits.fits, .inl ⟨hnew₁, insertable_ok.mpr ⟨hawaits.fits, ?_, ?_⟩, rfl, rfl⟩⟩
    · simp only [Row.keys, EventRow.keys, List.mem_cons, List.not_mem_nil, or_false]
      rintro k (rfl | rfl)
      · exact Option.map_eq_none_iff.mpr hnew₁
      · exact hdraws.event
    · simp [Row.refs]
  have hdelivery : w₁.db.insertable (.delivery r) = .ok () := by
    refine insertable_ok.mpr ⟨?_, ?_, by simp [Row.refs]⟩
    · have hlatency : r.latency = 0 := by
        simp [r, DeliveryBaseParams.row, d, WebhookRequest.delivery, req, RawBody.request,
          hbegin.clock]
      simp only [Row.fits, DeliveryRow.fits, hlatency, Bool.and_eq_true]
      exact ⟨⟨hb.eventId, by decide⟩, varcharFits_empty 255⟩
    · simp only [Row.keys, DeliveryRow.keys, List.mem_singleton]
      rintro k rfl
      exact hdraws.delivery
  have hexec : exec (.upsertAndDeliver req.event req.delivery) d noSkip w₁.db =
      .ok (row, [.insert (.event e), .insert (.delivery r)]) :=
    upsertAndDeliver_ok.mpr ⟨occurredAt, e, _, htime, hb.jsonb, hevent, rfl, hdelivery, rfl⟩
  have hlog : IngestLog req [⟨.upsertAndDeliver req.event req.delivery, d, row,
      [.insert (.event e), .insert (.delivery r)]⟩] _ := .saved
  obtain ⟨a, -, hgoes⟩ := goes_ingest (b := t) (d := Draws.nth w₁.env.clock t.start (n + 1)) hlog
    ⟨hexec, trivial⟩
  obtain ⟨w', hfollows, hdb, hjournal, hsessions⟩ := hbegin.rest.finish hbegun (hgoes.head _)
    (by exact ⟨rfl, rfl, rfl, rfl, trivial⟩) hn (by simp)
  exact ⟨w', e, r, hbegin.finish hfree hfollows hsessions, hawaits, by rw [hdb, ← hdb₁]; rfl, i, d, row, _,
    _, _, hfree, hsessions.trans (update_sessions hothers _), by rw [hjournal, hjournal₁]; rfl⟩

/-! ## Statements that succeed -/

section Statements

variable {s s' s'' : Store} {d : Draws}

/-- A log that has been executed, and the store it leaves. -/
def RanTo (log : Log) (s s' : Store) : Prop := Ran log s ∧ install (E := postgres) s log = s'

theorem RanTo.nil (s : Store) : RanTo [] s s := ⟨trivial, rfl⟩

/-- One more statement. -/
theorem RanTo.cons {q : Stmt} {rows : q.Rows} {ws : List Write} {log : Log}
    (hx : exec q d noSkip s = .ok (rows, ws)) (hws : ws.foldl Store.apply s = s')
    (h : RanTo log s' s'') : RanTo (⟨q, d, rows, ws⟩ :: log) s s'' := by
  subst hws
  exact ⟨⟨hx, h.1⟩, h.2⟩

omit [Platform] in
/-- The only eligible event is claimed. -/
theorem Store.claimed_eq {e : EventRow} {now : Timestamp} (he : e ∈ s.events)
    (hclaim : e.claimable now = true) (honly : ∀ x ∈ s.events, x.claimable now = true → x = e) :
    s.claimed now noSkip = some e := by
  cases h : s.claimed now noSkip with
  | none =>
    obtain ⟨k, -, hk⟩ := Store.claimed_none h he hclaim
    cases hk
  | some x =>
    obtain ⟨hx, hc, -, -⟩ := Store.claimed_some h
    rw [honly x hx hc]

/-- An order is opened. -/
theorem exec_openOrder (hs : s.Keyed) {id : String} (hid : varcharFits 255 id = true) :
    ∃ isNew order ws, OpenedOrder s id d isNew order ∧
      exec (.insertOrder id) d noSkip s = .ok (isNew, ws) ∧
      ws.foldl Store.apply s = s.putOrder order := by
  have hfits : (defaultOrder id d).fits = true := by
    simp [OrderRow.fits, defaultOrder, hid, int4Fits]
  cases ho : s.order? id with
  | some o =>
    refine ⟨false, o, [], .found ho, by simp [exec, hfits, ho], ?_⟩
    refine (Store.putOrder_self hs ?_).symm
    rwa [(Store.mem_of_order? ho).2]
  | none =>
    have hfree : ∀ k ∈ Row.keys (.order (defaultOrder id d)), s.look k = none := by
      simpa [Row.keys, OrderRow.keys, Store.look, defaultOrder] using ho
    have hinsert : s.insertable (.order (defaultOrder id d)) = .ok () :=
      insertable_ok.mpr ⟨hfits, hfree, by simp [Row.refs]⟩
    refine ⟨true, defaultOrder id d, [.insert (.order (defaultOrder id d))], .fresh ho, ?_, ?_⟩
    · simp only [exec, hfits, ho]
      exact insertRow_ok.mpr ⟨hinsert, rfl, rfl⟩
    · have hfind : Tables.find OrderRow.keys (.order id) s.orders = none := ho
      simp [Store.apply, Store.putOrder, Tables.put, defaultOrder, hfind]

/-- An order that is open is updated. -/
theorem exec_applyToOrder {id : String} {o : OrderRow} {status : OrderStatus} {seq : ℤ}
    {amount : Option ℤ} {amountText currency : Option String} (ho : s.order? id = some o)
    (hamount : numericParam amountText = .ok amount)
    (hfits : (o.applied status seq amount currency d).fits = true) :
    ∃ ws, exec (.applyToOrder id (.known status) seq amountText currency) d noSkip s = .ok (true, ws) ∧
      ws.foldl Store.apply s = s.putOrder (o.applied status seq amount currency d) := by
  have hx : updateRow .order (·.applied status seq amount currency d) (fun _ => true) false
      (s.order? id) = .ok (true, [.update (.order (o.applied status seq amount currency d))]) :=
    updateRow_ok.mpr (.inr ⟨o, ho, hfits, rfl, rfl⟩)
  refine ⟨_, ?_, (redoes_updateOrder (f := (·.applied status seq amount currency d)) ho rfl hx).2⟩
  simp only [exec, hamount]
  exact hx

/-- The history row of an event that has none. -/
theorem exec_insertEventHistory {e : EventRow} {previous new : OrderStatus} {outcome : HistoryOutcome}
    {reason : Option OutcomeReason} (he : e.fits = true) (ho : (s.order? e.orderId).isSome)
    (hid : s.look (.history d.historyId) = none)
    (hnone : ∀ r ∈ s.history, r.eventId ≠ some e.eventId) :
    exec (.insertHistory (historyValues e previous (.known new) outcome reason)) d noSkip s =
      .ok ((), [.insert (.history (eventHistory e previous new outcome reason d))]) := by
  simp only [EventRow.fits, Bool.and_eq_true, and_assoc] at he
  obtain ⟨hevent, horder, -, hseq, -⟩ := he
  have hfits : (eventHistory e previous new outcome reason d).fits = true := by
    simp [HistoryRow.fits, eventHistory, hevent, horder, hseq]
  refine insertRow_ok.mpr ⟨insertable_ok.mpr ⟨hfits, ?_, ?_⟩, rfl, rfl⟩
  · simp only [Row.keys, HistoryRow.keys, HistoryValues.row, historyValues, Option.toList_some,
      List.map_cons, List.map_nil, List.mem_cons, List.not_mem_nil, or_false]
    rintro k (rfl | rfl)
    · exact hid
    · rw [Store.look, Option.map_eq_none_iff, Tables.find_eq_none]
      intro r hr hk
      refine hnone r hr ?_
      simpa [HistoryRow.keys, eq_comm] using hk
  · simp only [Row.refs, HistoryValues.row, historyValues, List.mem_singleton]
    rintro k rfl
    simpa [Store.look] using ho

end Statements

/-! ## A turn of the worker -/

section Business

variable {e : EventRow} {order : OrderRow} {r : ProcessingResult} {d₁ d₂ d₃ d₄ d₅ : Draws}
  {w₁ w₂ w₃ w₄ w₅ : List Write} {isNew m₃ m₅ : Bool}

/-- The log of a business block that applies an event, in terms of its result. -/
theorem BusinessLog.of_applied (hp : process e order = r) (h : r.outcome = .applied) :
    BusinessLog e
      [⟨.insertOrder e.orderId, d₁, isNew, w₁⟩, ⟨.selectOrder e.orderId, d₂, some order, w₂⟩,
        ⟨.applyToOrder e.orderId r.newStatus r.newSequence r.amount r.currency, d₃, m₃, w₃⟩,
        ⟨.insertHistory (historyValues e r.previousStatus r.newStatus .applied none), d₄, (), w₄⟩,
        ⟨.markApplied e.id, d₅, m₅, w₅⟩] r := by
  subst hp
  exact .applied h

/-- The log of a business block that ignores an event, in terms of its result. -/
theorem BusinessLog.of_ignored (hp : process e order = r) (h : r.outcome = .ignored) :
    BusinessLog e
      [⟨.insertOrder e.orderId, d₁, isNew, w₁⟩, ⟨.selectOrder e.orderId, d₂, some order, w₂⟩,
        ⟨.insertHistory (historyValues e r.previousStatus r.newStatus .ignored r.outcomeReason), d₄,
          (), w₄⟩,
        ⟨.markIgnored e.id r.outcomeReason, d₅, m₅, w₅⟩] r := by
  subst hp
  exact .ignored h

end Business

/-- The money that a body carries. -/
def RawBody.amount (b : RawBody) : Option String := b.json.data.bind PaymentWebhookData.amount

/-- The currency that a body carries. -/
def RawBody.currency (b : RawBody) : Option String := b.json.data.bind PaymentWebhookData.currency

/-- **An applicable body**: PostgreSQL accepts its money in an order. -/
structure RawBody.Applicable (b : RawBody) (cents : Option ℤ) : Prop where
  amount : numericParam b.amount = .ok cents
  amount_fits : cents.all numericFits = true
  currency : b.currency.all (varcharFits 3) = true

omit [Platform] in
/-- An order that is opened meets its checks. -/
theorem OpenedOrder.fits {s : Store} (hs : s.Fits) {id : String} (hid : varcharFits 255 id = true)
    {d : Draws} {isNew : Bool} {o : OrderRow} (h : OpenedOrder s id d isNew o) : o.fits = true := by
  cases h with
  | fresh h => simp [OrderRow.fits, defaultOrder, hid, int4Fits]
  | found h => exact hs.order h

omit [Platform] in
/-- An order that an applicable event has been applied to meets its checks. -/
theorem OrderRow.applied_fits {o : OrderRow} {e : EventRow} {status : OrderStatus}
    {amount : Option ℤ} {currency : Option String} {d : Draws} (ho : o.fits = true)
    (he : e.fits = true) (hamount : amount.all numericFits = true)
    (hcurrency : currency.all (varcharFits 3) = true) :
    (o.applied status e.sequence amount currency d).fits = true := by
  simp only [OrderRow.fits, Bool.and_eq_true, and_assoc] at ho
  simp only [EventRow.fits, Bool.and_eq_true, and_assoc] at he
  obtain ⟨hid, -, -, ho₁, ho₂⟩ := ho
  obtain ⟨-, -, -, hseq, hnonneg, -⟩ := he
  simp only [OrderRow.fits, OrderRow.applied, Bool.and_eq_true, and_assoc]
  refine ⟨hid, hseq, hnonneg, ?_, ?_⟩
  · cases amount with
    | none => exact ho₁
    | some a => exact hamount
  · cases currency with
    | none => exact ho₂
    | some c => exact hcurrency

omit [Platform] in
/-- An event that has been applied meets its checks. -/
theorem EventRow.applied_fits {e : EventRow} (he : e.fits = true) (d : Draws) :
    (e.applied d).fits = true := by
  simp only [EventRow.fits, Bool.and_eq_true, and_assoc] at he
  simp only [EventRow.fits, EventRow.applied, Bool.and_eq_true, and_assoc]
  obtain ⟨h₁, h₂, h₃, h₄, h₅, h₆, h₇, h₈, h₉, h₁₀, h₁₁, h₁₂, -⟩ := he
  exact ⟨h₁, h₂, h₃, h₄, h₅, h₆, h₇, h₈, h₉, h₁₀, h₁₁, h₁₂, rfl⟩

omit [Platform] in
/-- An event that has been ignored meets its checks. -/
theorem EventRow.ignored_fits {e : EventRow} (he : e.fits = true) (reason : Option OutcomeReason)
    (d : Draws) : (e.ignored reason d).fits = true :=
  EventRow.applied_fits he d

/-- The store after a worker has applied an event. -/
def Store.AfterApplied (s : Store) (e : EventRow) (status : OrderStatus) (cents : Option ℤ)
    (currency : Option String) (now start : Timestamp) (s' : Store) : Prop :=
  ∃ d d₃ d₄ d₅ isNew order, OpenedOrder s e.orderId d isNew order ∧ d₃.now = now ∧
    d₄.start = start ∧
    s' = ((s.putOrder (order.applied status e.sequence cents currency d₃)).addHistory
      (eventHistory e order.status status .applied none d₄)).putEvent (e.applied d₅)

/-- The store after a worker has ignored an event that came too late. -/
def Store.AfterIgnored (s : Store) (e : EventRow) (s' : Store) : Prop :=
  ∃ d d₄ d₅ isNew order, OpenedOrder s e.orderId d isNew order ∧
    s' = ((s.putOrder order).addHistory
      (eventHistory e order.status order.status .ignored (some .staleSequence) d₄)).putEvent
      (e.ignored (some .staleSequence) d₅)

section Turn

variable (h : Resting cfg w) {i : ℕ} {input : WorkerInput} {t : Draws}
  (hbegun : Begun cfg w i (.processOne input) t) {b : RawBody} {e : EventRow}
  (he : e ∈ w.db.events) (hb : e.Awaits b)
  (honly : ∀ x ∈ w.db.events, x.claimable w.env.clock = true → x = e)
  (hnone : ∀ r ∈ w.db.history, r.eventId ≠ some e.eventId)

/-- A session has made its call, and nobody else has done anything. -/
def Served (cfg : WorkerConfig) (w w' : State) (i : ℕ) : Prop :=
  Follows cfg w w' ∧ ∃ s, w'.sessions = Function.update w.sessions i (some s)

/-- A session has committed a turn that has not failed. -/
def Worked (w w' : State) (i : ℕ) (e : EventRow) : Prop :=
  ∃ d log result, BusinessLog e log result ∧
    w'.journal = w.journal ++ [(i, ⟨.claim, d, some e, []⟩ :: log)]

include h hbegun he hb honly

/-- **A turn of the worker can be made** in a resting world in which one event is eligible, if its
business block can be executed. -/
theorem Resting.turn {P : Store → Prop}
    (hblock : ∀ n, (∀ m, n ≤ m → w.db.Fresh m) → ∃ log result s', BusinessLog e log result ∧
      RanTo log w.db s' ∧ NumberedLog w.env.clock t.start n log ∧ P s') :
    ∃ w', Served cfg w w' i ∧ Worked w w' i e ∧ P w'.db := by
  obtain ⟨n, hn, hfresh⟩ := w.db.exists_fresh w.env
  obtain ⟨log, result, s', hlog, ⟨hran, hinstall⟩, hdraws, hP⟩ :=
    hblock (n + 2) fun m hm => hfresh m (by omega)
  let d (k : ℕ) := Draws.nth w.env.clock t.start (n + k)
  have hpending : e.claimable w.env.clock = true := by simp [EventRow.claimable, hb.pending]
  have hclaim : exec .claim (d 0) noSkip w.db = .ok (some e, []) := by
    simp only [exec, d, Draws.nth_now, Store.claimed_eq he hpending honly]
  have hgoes := goes_processOne_done cfg input t (d 1) (d (2 + log.length)) (d (3 + log.length)) hclaim
    hlog hran
  have hnumbered : Numbered w.env.clock n (answered (some t) (d 0) noSkip ::
      answered (some t) (d 1) noSkip :: (requests t log ++
        [answered (some t) (d (2 + log.length)) noSkip,
          answered (some t) (d (3 + log.length)) noSkip])) := by
    refine ⟨rfl, rfl, rfl, rfl, numbered_append.mpr ⟨numbered_requests hdraws, ?_, rfl, ?_, rfl, trivial⟩⟩
    all_goals
      rw [length_requests]
      simp only [d, Option.map_some, Option.getD_some]
      congr 1
      omega
  obtain ⟨w', hfollows, hdb, hjournal, hsessions⟩ := h.finish hbegun (hgoes.head _) hnumbered hn (by simp)
  refine ⟨w', ⟨hfollows, _, hsessions⟩, ⟨d 0, log, result, hlog, hjournal⟩, ?_⟩
  rw [hdb]
  exact hinstall ▸ hP

omit hbegun honly in
/-- What a worker finds when it opens the order of an event that nobody has finished with. -/
theorem Resting.opens (d : Draws) :
    varcharFits 255 e.orderId = true ∧ w.db.eventAt? e.id = some e ∧
      ∃ isNew order ws, OpenedOrder w.db e.orderId d isNew order ∧ order.fits = true ∧
        exec (.insertOrder e.orderId) d noSkip w.db = .ok (isNew, ws) ∧
        ws.foldl Store.apply w.db = w.db.putOrder order ∧
        (w.db.putOrder order).order? e.orderId = some order := by
  have hid : varcharFits 255 e.orderId = true := by
    have hfits := hb.fits
    simp only [EventRow.fits, Bool.and_eq_true, and_assoc] at hfits
    exact hfits.2.1
  obtain ⟨isNew, order, ws, hopen, hx, hws⟩ := exec_openOrder (d := d) h.keyed hid
  refine ⟨hid, Store.Keyed.eventAt?_eq h.keyed he, isNew, order, ws, hopen,
    hopen.fits h.reach.fits hid, hx, hws, ?_⟩
  rw [Store.order?_putOrder h.keyed, if_pos hopen.id_eq.symm]

include hnone in
/-- **A worker applies an event** in a resting world in which no other is eligible. -/
theorem Resting.applied {status : OrderStatus} {cents : Option ℤ}
    (hmap : mapEventToStatus e.eventType = some (.known status)) (hmoney : b.Applicable cents)
    (hseq : ∀ d isNew o, OpenedOrder w.db e.orderId d isNew o → o.lastSequence < e.sequence) :
    ∃ w', Served cfg w w' i ∧ Worked w w' i e ∧
      w.db.AfterApplied e status cents b.currency w.env.clock t.start w'.db := by
  refine h.turn hbegun he hb honly fun n hfresh => ?_
  let d (k : ℕ) := Draws.nth w.env.clock t.start (n + k)
  obtain ⟨hid, hat, isNew, order, w₁, hopen, hfits, hx₁, hw₁, hfound⟩ := h.opens he hb (d 0)
  have hp : process e order =
      ⟨.applied, none, order.status, .known status, e.sequence, b.amount, b.currency⟩ := by
    simp only [process, hmap, if_pos (hseq _ _ _ hopen), hb.payload]
    rfl
  have hfits₃ : (order.applied status e.sequence cents b.currency (d 2)).fits = true :=
    OrderRow.applied_fits hfits hb.fits hmoney.amount_fits hmoney.currency
  obtain ⟨w₃, hx₃, hw₃⟩ := exec_applyToOrder hfound hmoney.amount hfits₃
  replace hw₃ := hw₃.trans (Store.putOrder_putOrder h.keyed (by rfl))
  have happlied : (w.db.putOrder (order.applied status e.sequence cents b.currency (d 2))).order?
      e.orderId = some (order.applied status e.sequence cents b.currency (d 2)) := by
    rw [Store.order?_putOrder h.keyed, if_pos (by exact hopen.id_eq.symm)]
  have hx₄ : exec (.insertHistory (historyValues e order.status (.known status) .applied none)) (d 3)
      noSkip (w.db.putOrder (order.applied status e.sequence cents b.currency (d 2))) =
      .ok ((), [.insert (.history (eventHistory e order.status status .applied none (d 3)))]) :=
    exec_insertEventHistory hb.fits (by rw [happlied]; rfl) (hfresh (n + 3) (by omega)).history hnone
  have hx₅ : updateRow .event (·.applied (d 4)) (fun _ => true) false (w.db.eventAt? e.id) =
      .ok (true, [.update (.event (e.applied (d 4)))]) :=
    updateRow_ok.mpr (.inr ⟨e, hat, EventRow.applied_fits hb.fits _, rfl, rfl⟩)
  have hx₂ : exec (.selectOrder e.orderId) (d 1) noSkip (w.db.putOrder order) =
      .ok (some order, []) := by simp only [exec, hfound]
  refine ⟨_, _, _, .of_applied hp rfl, .cons hx₁ hw₁ (.cons hx₂ rfl (.cons hx₃ hw₃ (.cons hx₄ rfl
    (.cons hx₅ rfl (.nil _))))), ⟨rfl, rfl, rfl, rfl, rfl, trivial⟩, ?_⟩
  exact ⟨d 0, d 2, d 3, d 4, isNew, order, hopen, rfl, rfl, rfl⟩

include hnone in
/-- **A worker ignores an event** that comes too late, in a resting world in which no other is
eligible. -/
theorem Resting.ignored {status : OrderStatus}
    (hmap : mapEventToStatus e.eventType = some (.known status))
    (hseq : ∀ d isNew o, OpenedOrder w.db e.orderId d isNew o → e.sequence ≤ o.lastSequence) :
    ∃ w', Served cfg w w' i ∧ Worked w w' i e ∧ w.db.AfterIgnored e w'.db := by
  refine h.turn hbegun he hb honly fun n hfresh => ?_
  let d (k : ℕ) := Draws.nth w.env.clock t.start (n + k)
  obtain ⟨hid, hat, isNew, order, w₁, hopen, hfits, hx₁, hw₁, hfound⟩ := h.opens he hb (d 0)
  have hp : process e order = ⟨.ignored, some .staleSequence, order.status, .known order.status,
      order.lastSequence, none, none⟩ := by
    simp only [process, hmap, if_neg (not_lt.mpr (hseq _ _ _ hopen))]
  have hx₂ : exec (.selectOrder e.orderId) (d 1) noSkip (w.db.putOrder order) =
      .ok (some order, []) := by simp only [exec, hfound]
  have hx₃ : exec (.insertHistory (historyValues e order.status (.known order.status) .ignored
      (some .staleSequence))) (d 2) noSkip (w.db.putOrder order) =
      .ok ((), [.insert (.history (eventHistory e order.status order.status .ignored
        (some .staleSequence) (d 2)))]) :=
    exec_insertEventHistory hb.fits (by rw [hfound]; rfl) (hfresh (n + 2) (by omega)).history hnone
  have hx₄ : updateRow .event (·.ignored (some .staleSequence) (d 3)) (fun _ => true) false
      (w.db.eventAt? e.id) = .ok (true, [.update (.event (e.ignored (some .staleSequence) (d 3)))]) :=
    updateRow_ok.mpr (.inr ⟨e, hat, EventRow.ignored_fits hb.fits _ _, rfl, rfl⟩)
  refine ⟨_, _, _, .of_ignored hp rfl, .cons hx₁ hw₁ (.cons hx₂ rfl (.cons hx₃ rfl (.cons hx₄ rfl
    (.nil _)))), ⟨rfl, rfl, rfl, rfl, trivial⟩, ?_⟩
  exact ⟨d 0, d 2, d 3, isNew, order, hopen, rfl⟩

end Turn

/-! ## From the ingestion to the end -/

/-- A request with the body has been stored. -/
def Ingested (w : State) (b : RawBody) : Prop :=
  ∃ (i : ℕ) (req : WebhookRequest) (d : Draws) (row : CteRow) (ws : List Write), req.rawBody = b ∧
    (i, [⟨.upsertAndDeliver req.event req.delivery, d, row, ws⟩]) ∈ w.journal

/-- What has been stored stays stored. -/
theorem Ingested.mono {w' : State} {b : RawBody} (h : Ingested w b)
    (hrun : Reachable (program cfg) w w') : Ingested w' b := by
  obtain ⟨i, req, d, row, ws, hb, hmem⟩ := h
  exact ⟨i, req, d, row, ws, hb, hrun.journal_grows.subset hmem⟩

omit [Platform] in
/-- No event of the store is eligible, now or later. -/
def Store.Drained (s : Store) : Prop := ∀ e ∈ s.events, ∀ now, e.claimable now = false

/-- **A new event waits** as `e`. -/
structure Staged (b : RawBody) (e : EventRow) (w w' : State) : Prop where
  awaits : e.Awaits b
  ingested : Ingested w' b
  events : w'.db.events = w.db.events ++ [e]
  orders : w'.db.orders = w.db.orders
  history : w'.db.history = w.db.history
  details : w'.db.details = w.db.details

/-- **An event has been consumed**: it was ingested, and a worker has finished with it as `e`. -/
structure Consumed (b : RawBody) (e : EventRow) (w w' : State) : Prop where
  ingested : Ingested w' b
  events : w'.db.events = w.db.events ++ [e]
  details : w'.db.details = w.db.details
  payload : e.payload = b.json
  eventId : e.eventId = b.json.eventId
  orderId : e.orderId = b.json.orderId
  eventType : e.eventType = b.json.eventType
  sequence : e.sequence = b.json.sequence

section Staged

variable {b : RawBody} {e : EventRow} {w₁ w₂ w' : State} (h : Staged b e w w₁)

include h

/-- The event that waits is in the inbox. -/
theorem Staged.mem : e ∈ w₁.db.events := by
  rw [h.events]
  simp

/-- The event that waits is the only one, if there was none. -/
theorem Staged.only (now : Timestamp) (hdrained : w.db.Drained) :
    ∀ x ∈ w₁.db.events, x.claimable now = true → x = e := by
  intro x hx hclaim
  rw [h.events] at hx
  rcases List.mem_append.mp hx with hx | hx
  · rw [hdrained x hx now] at hclaim
    cases hclaim
  · exact List.mem_singleton.mp hx

/-- It waits as long as nothing is committed. -/
theorem Staged.congr (hdb : w₂.db = w₁.db) (hjournal : w₂.journal = w₁.journal) : Staged b e w w₂ where
  awaits := h.awaits
  ingested := by
    obtain ⟨i, req, d, row, ws, hb, hmem⟩ := h.ingested
    exact ⟨i, req, d, row, ws, hb, hjournal ▸ hmem⟩
  events := hdb ▸ h.events
  orders := hdb ▸ h.orders
  history := hdb ▸ h.history
  details := hdb ▸ h.details

/-- The order of the event is what it was. -/
theorem Staged.opened {d : Draws} {isNew : Bool} {o : OrderRow}
    (ho : OpenedOrder w₁.db e.orderId d isNew o) : OpenedOrder w.db b.json.orderId d isNew o := by
  have horder : w₁.db.order? e.orderId = w.db.order? b.json.orderId := by
    rw [Store.order?, Store.order?, h.orders, h.awaits.orderId]
  cases ho with
  | fresh ho =>
    rw [h.awaits.orderId]
    exact .fresh (horder ▸ ho)
  | found ho => exact .found (horder ▸ ho)

/-- The event that waited has been rewritten. -/
theorem Staged.consumed {e' : EventRow} (hkeyed : w₁.db.Keyed)
    (hevents : w'.db.events = (w₁.db.putEvent e').events) (hdetails : w'.db.details = w₁.db.details)
    (hrun : Reachable (program cfg) w₁ w') (hkeys : e.keys = e'.keys)
    (hpayload : e'.payload = e.payload) (horder : e'.orderId = e.orderId)
    (htype : e'.eventType = e.eventType) (hseq : e'.sequence = e.sequence) : Consumed b e' w w' where
  ingested := h.ingested.mono hrun
  events := by
    have hother : ∀ x ∈ w.db.events, x.keys ≠ e'.keys := by
      intro x hx heq
      have hpair := hkeyed.events
      rw [h.events, Tables.Keyed, List.pairwise_append] at hpair
      refine hpair.2.2 x hx e (List.mem_singleton.mpr rfl) (.event x.eventId) (by simp [EventRow.keys]) ?_
      rw [hkeys, ← heq]
      simp [EventRow.keys]
    have hkeep := Tables.replace_of_forall_ne hother
    rw [Tables.replace] at hkeep
    rw [hevents, Store.putEvent, h.events, Tables.replace, List.map_append, hkeep]
    simp [hkeys]
  details := hdetails.trans h.details
  payload := hpayload.trans h.awaits.payload
  eventId := by
    have hid : e'.eventId = e.eventId := by
      simp only [EventRow.keys, List.cons.injEq, Key.event.injEq] at hkeys
      exact hkeys.1.symm
    exact hid.trans h.awaits.eventId
  orderId := horder.trans h.awaits.orderId
  eventType := htype.trans h.awaits.eventType
  sequence := hseq.trans h.awaits.sequence

variable {i : ℕ} {input : WorkerInput} {t : Draws} (hrest : Resting cfg w₁)
  (hbegun : Begun cfg w₁ i (.processOne input) t) (hdrained : w.db.Drained)
  (hnone : ∀ r ∈ w.db.history, r.eventId ≠ some b.json.eventId)
  {status : OrderStatus} (hmap : mapEventToStatus b.json.eventType = some (.known status))

include hrest hbegun hdrained hnone hmap

/-- **The event that waits is applied** by a worker that has opened its transaction. -/
theorem Staged.apply {cents : Option ℤ} (hmoney : b.Applicable cents)
    (hseq : ∀ d isNew o, OpenedOrder w.db b.json.orderId d isNew o →
      o.lastSequence < b.json.sequence) :
    ∃ w' e', Served cfg w₁ w' i ∧ Consumed b e' w w' ∧ e'.processingStatus = .applied ∧
      ∃ d d₃ d₄ isNew order, OpenedOrder w.db b.json.orderId d isNew order ∧
        d₃.now = w₁.env.clock ∧ d₄.start = t.start ∧
        w'.db.order? b.json.orderId =
          some (order.applied status b.json.sequence cents b.currency d₃) ∧
        w'.db.history = w.db.history ++ [eventHistory e order.status status .applied none d₄] := by
  obtain ⟨w', hserved, -, d, d₃, d₄, d₅, isNew, order, hopen, hd₃, hd₄, hdb⟩ := hrest.applied hbegun
    h.mem h.awaits (h.only _ hdrained) (by rw [h.history, h.awaits.eventId]; exact hnone)
    (by rw [h.awaits.eventType]; exact hmap) hmoney
    (fun d isNew o ho => by rw [h.awaits.sequence]; exact hseq d isNew o (h.opened ho))
  refine ⟨w', e.applied d₅, hserved, h.consumed hrest.keyed (by rw [hdb]; rfl) (by rw [hdb]; rfl)
    hserved.1.run.reachable rfl rfl rfl rfl rfl, rfl, d, d₃, d₄, isNew, order, h.opened hopen, hd₃, hd₄,
    ?_, ?_⟩
  · rw [hdb, ← h.awaits.sequence, Store.putEvent_order?, Store.addHistory_order?,
      Store.order?_putOrder hrest.keyed]
    exact if_pos ((h.opened hopen).id_eq).symm
  · rw [hdb, ← h.history]
    rfl

/-- **The event that waits is ignored**, because it comes too late, by a worker that has opened its
transaction. -/
theorem Staged.ignore
    (hseq : ∀ d isNew o, OpenedOrder w.db b.json.orderId d isNew o →
      b.json.sequence ≤ o.lastSequence) :
    ∃ w' e', Served cfg w₁ w' i ∧ Consumed b e' w w' ∧ e'.processingStatus = .ignored ∧
      e'.outcomeReason = some .staleSequence ∧
      ∃ d d₄ isNew order, OpenedOrder w.db b.json.orderId d isNew order ∧
        w'.db.order? b.json.orderId = some order ∧ w'.db.history = w.db.history ++
          [eventHistory e order.status order.status .ignored (some .staleSequence) d₄] := by
  obtain ⟨w', hserved, -, d, d₄, d₅, isNew, order, hopen, hdb⟩ := hrest.ignored hbegun
    h.mem h.awaits (h.only _ hdrained) (by rw [h.history, h.awaits.eventId]; exact hnone)
    (by rw [h.awaits.eventType]; exact hmap)
    (fun d isNew o ho => by rw [h.awaits.sequence]; exact hseq d isNew o (h.opened ho))
  refine ⟨w', e.ignored (some .staleSequence) d₅, hserved, h.consumed hrest.keyed (by rw [hdb]; rfl)
    (by rw [hdb]; rfl) hserved.1.run.reachable rfl rfl rfl rfl rfl, rfl, rfl, d, d₄, isNew, order,
    h.opened hopen, ?_, ?_⟩
  · rw [hdb, Store.putEvent_order?, Store.addHistory_order?, Store.order?_putOrder hrest.keyed]
    exact if_pos ((h.opened hopen).id_eq).symm
  · rw [hdb, ← h.history]
    rfl

end Staged

section Consume

variable (h : Resting cfg w) {b : RawBody} (hb : b.Storable) (hrecent : b.Recent w.env.clock)
  (hnew : w.db.event? b.json.eventId = none)

include h hb hrecent hnew

/-- A new event is ingested, and waits. -/
theorem Resting.stage : ∃ w' e, Continues cfg w w' ∧ Staged b e w w' := by
  obtain ⟨w', e, r, hcont, hawaits, hdb, i, d, row, ws, -, -, -, -, hjournal⟩ := h.ingest hb hrecent hnew
  refine ⟨w', e, hcont, hawaits, ⟨i, b.request w.env.clock, d, row, ws, rfl, ?_⟩, ?_, ?_, ?_, ?_⟩
  · rw [hjournal]
    simp
  all_goals rw [hdb]

/-- A new event is ingested, and a worker begins a turn. -/
theorem Resting.stage_turn (input : WorkerInput) : ∃ w' e i t, Continues cfg w w' ∧
    w.sessions i = none ∧ Staged b e w w' ∧ Begun cfg w' i (.processOne input) t ∧
      t.start = w.env.clock := by
  obtain ⟨w₁, e, hcont, hstaged⟩ := h.stage hb hrecent hnew
  obtain ⟨w₂, i, t, hbegin, hfree, hbegun, hstart, hdb, hjournal, -⟩ := hcont.rest.begin (.processOne input)
  refine ⟨w₂, e, i, t, hcont.trans hbegin, ?_, hstaged.congr hdb hjournal, hbegun,
    hstart.trans hcont.clock⟩
  by_contra hsome
  obtain ⟨s, hs⟩ := Option.ne_none_iff_exists'.mp hsome
  rw [hcont.kept i s hs] at hfree
  cases hfree

variable (hdrained : w.db.Drained)
  (hnone : ∀ r ∈ w.db.history, r.eventId ≠ some b.json.eventId)
  {status : OrderStatus} (hmap : mapEventToStatus b.json.eventType = some (.known status))

include hdrained hnone hmap

/-- **A new event is ingested and applied.** -/
theorem Resting.consume_applied {cents : Option ℤ} (hmoney : b.Applicable cents)
    (hseq : ∀ d isNew o, OpenedOrder w.db b.json.orderId d isNew o →
      o.lastSequence < b.json.sequence) :
    ∃ w' e, Continues cfg w w' ∧ Consumed b e w w' ∧ e.processingStatus = .applied ∧
      ∃ d d₃ isNew order, OpenedOrder w.db b.json.orderId d isNew order ∧
        d₃.now = w.env.clock ∧ w'.db.order? b.json.orderId =
          some (order.applied status b.json.sequence cents b.currency d₃) ∧
        ∃ r, r.eventId = some b.json.eventId ∧ r.changedAt = w.env.clock ∧
          w'.db.history = w.db.history ++ [r] := by
  obtain ⟨w₁, e, i, t, hcont, hfree, hstaged, hbegun, hstart⟩ := h.stage_turn hb hrecent hnew ⟨0, 0⟩
  obtain ⟨w', e', ⟨hfollows, s, hs⟩, hconsumed, happlied, d, d₃, d₄, isNew, order, hopen, hd₃, hd₄,
    horder, hhistory⟩ := hstaged.apply hcont.rest hbegun hdrained hnone hmap hmoney hseq
  refine ⟨w', e', hcont.finish hfree hfollows hs, hconsumed, happlied, d, d₃, isNew, order, hopen,
    hd₃.trans hcont.clock, horder, _, ?_, hd₄.trans hstart, hhistory⟩
  exact congrArg some hstaged.awaits.eventId

/-- **A new event is ingested and ignored**, because it comes too late. -/
theorem Resting.consume_ignored
    (hseq : ∀ d isNew o, OpenedOrder w.db b.json.orderId d isNew o →
      b.json.sequence ≤ o.lastSequence) :
    ∃ w' e, Continues cfg w w' ∧ Consumed b e w w' ∧ e.processingStatus = .ignored ∧
      e.outcomeReason = some .staleSequence ∧
      ∃ d isNew order, OpenedOrder w.db b.json.orderId d isNew order ∧
        w'.db.order? b.json.orderId = some order ∧
        ∃ r, r.eventId = some b.json.eventId ∧ w'.db.history = w.db.history ++ [r] := by
  obtain ⟨w₁, e, i, t, hcont, hfree, hstaged, hbegun, hstart⟩ := h.stage_turn hb hrecent hnew ⟨0, 0⟩
  obtain ⟨w', e', ⟨hfollows, s, hs⟩, hconsumed, hignored, hreason, d, d₄, isNew, order, hopen, horder,
    hhistory⟩ := hstaged.ignore hcont.rest hbegun hdrained hnone hmap hseq
  refine ⟨w', e', hcont.finish hfree hfollows hs, hconsumed, hignored, hreason, d, isNew, order, hopen,
    horder, _, ?_, hhistory⟩
  exact congrArg some hstaged.awaits.eventId

end Consume

/-- **The first event** is ingested and applied. -/
theorem Resting.first (cfg : WorkerConfig) {b : RawBody} {cents : Option ℤ} {status : OrderStatus}
    (hb : b.Storable) (hrecent : b.Recent now) (hmoney : b.Applicable cents)
    (hmap : mapEventToStatus b.json.eventType = some (.known status)) (hseq : 0 < b.json.sequence) :
    ∃ w e o, Resting cfg w ∧ w.env.clock = now ∧ w.db.events = [e] ∧ e.eventId = b.json.eventId ∧
      e.processingStatus = .applied ∧ w.db.order? b.json.orderId = some o ∧
      o.lastSequence = b.json.sequence ∧ o.status = status ∧ o.amount = cents ∧
      o.currency = b.currency ∧ o.updatedAt = now ∧ w.db.details = [] ∧
      ∃ r, r.eventId = some b.json.eventId ∧ r.changedAt = now ∧ w.db.history = [r] := by
  have hstart := Resting.start cfg ⟨now, 0, 0, 0, 0, 0⟩
  have hnew : Store.empty.event? b.json.eventId = none := rfl
  obtain ⟨w, e, hcont, hconsumed, happlied, d, d₃, isNew, order, hopen, hd₃, horder, r, hr, hchanged,
    hhistory⟩ := hstart.consume_applied hb hrecent hnew (by intro e he; cases he)
      (by intro r hr; cases hr) hmap hmoney (fun d isNew o ho => by rw [ho.eq_default rfl]; exact hseq)
  obtain rfl := hopen.eq_default rfl
  exact ⟨w, e, _, hcont.rest, hcont.clock, hconsumed.events, hconsumed.eventId, happlied, horder, rfl, rfl,
    Option.or_none, Option.or_none, hd₃, hconsumed.details, r, hr, hchanged, hhistory⟩

end PaymentWebhook

/-! ## A sample -/

namespace PaymentWebhook

/-- An authorization with all its money. -/
def authorizedBody : RawBody where
  bytes := ("\x7b\"event_id\":\"evt_1\",\"order_id\":\"ord_1\"," ++
    "\"event_type\":\"payment.authorized\",\"sequence\":1," ++
    "\"occurred_at\":\"2026-01-15T10:00:00.000Z\"," ++
    "\"data\":\x7b\"amount\":\"10.00\",\"currency\":\"USD\"\x7d\x7d").toUTF8.toList
  json := ⟨"evt_1", "ord_1", "payment.authorized", 1, "2026-01-15T10:00:00.000Z",
    some ⟨some "10.00", some "USD"⟩⟩

/-- A capture of the same payment, without money. -/
def capturedBody : RawBody where
  bytes := ("\x7b\"event_id\":\"evt_2\",\"order_id\":\"ord_1\"," ++
    "\"event_type\":\"payment.captured\",\"sequence\":2," ++
    "\"occurred_at\":\"2026-01-15T10:00:00.000Z\",\"data\":\x7b\x7d\x7d").toUTF8.toList
  json := ⟨"evt_2", "ord_1", "payment.captured", 2, "2026-01-15T10:00:00.000Z", some ⟨none, none⟩⟩

/-- The first event of the payment, numbered from zero. -/
def pendingBody : RawBody where
  bytes := ("\x7b\"event_id\":\"evt_0\",\"order_id\":\"ord_1\"," ++
    "\"event_type\":\"payment.pending\",\"sequence\":0," ++
    "\"occurred_at\":\"2026-01-15T10:00:00.000Z\"," ++
    "\"data\":\x7b\"amount\":\"10.00\",\"currency\":\"USD\"\x7d\x7d").toUTF8.toList
  json := ⟨"evt_0", "ord_1", "payment.pending", 0, "2026-01-15T10:00:00.000Z",
    some ⟨some "10.00", some "USD"⟩⟩

/-- The surroundings, as far as these bodies need them. -/
@[reducible] def samplePlatform : Platform where
  sha256Hex bytes :=
    if bytes = authorizedBody.bytes then
      "1ee3b4e3fba0f29d9179ef054398a89a7520817fba54a98c1834c4c4333d30dc"
    else if bytes = capturedBody.bytes then
      "c2daee91697614826ae892fdabf9b931345dab755cc7a860249490a379a426f6"
    else "04b1cae1d583eed8142705d4a9a2a9d153527b470172b95df38d4b1ccba97bd8"
  sha256Hex_fits bytes := by
    split
    · decide
    · split <;> decide
  dateParse text := if text = "2026-01-15T10:00:00.000Z" then some 1768471200000000 else none
  toUpperCase text := text.toUpper
  isDateString text := text = "2026-01-15T10:00:00.000Z"
  timestamptzIn text := if text = "2026-01-15T10:00:00.000Z" then some 1768471200000000 else none
  jsonbIn _ := true
  errorMessage
    | .uniqueViolation _ => "duplicate key value violates unique constraint"
    | .foreignKeyViolation => "insert or update on table violates foreign key constraint"
    | .invalidValue => "value out of range"
    | .noTransaction => "current transaction is aborted, commands ignored until end of transaction block"
    | .typeError => "Cannot read properties of undefined"
    | .reported message => message

/-- The money of the sample. -/
theorem acceptsData_sample :
    @PaymentWebhookDto.acceptsData samplePlatform ⟨some "10.00", some "USD"⟩ = true := by
  let _ := samplePlatform
  have hupper : Platform.toUpperCase "USD" = "USD" := by
    show "USD".toUpper = "USD"
    rw [← String.toList_inj]
    simp [String.toUpper]
  have hamount : PaymentWebhookDto.amountMatches "10.00" = true := by decide
  have hlength : PaymentWebhookDto.validatorLength "USD" = 3 := by decide
  simp [PaymentWebhookDto.acceptsData, hamount, hlength, hupper]

theorem authorizedBody_accepts : @PaymentWebhookDto.accepts samplePlatform authorizedBody.json = true :=
  let _ := samplePlatform
  PaymentWebhookDto.accepts_iff.mpr ⟨by decide, by decide, by decide, by decide, rfl, _, rfl,
    acceptsData_sample⟩

theorem pendingBody_accepts : @PaymentWebhookDto.accepts samplePlatform pendingBody.json = true :=
  let _ := samplePlatform
  PaymentWebhookDto.accepts_iff.mpr ⟨by decide, by decide, by decide, by decide, rfl, _, rfl,
    acceptsData_sample⟩

theorem capturedBody_accepts : @PaymentWebhookDto.accepts samplePlatform capturedBody.json = true :=
  let _ := samplePlatform
  PaymentWebhookDto.accepts_iff.mpr ⟨by decide, by decide, by decide, by decide, rfl, _, rfl, rfl⟩

theorem authorizedBody_storable : @RawBody.Storable samplePlatform authorizedBody :=
  let _ := samplePlatform
  ⟨rfl, rfl, by decide, by decide, by decide, by decide, by decide⟩

theorem capturedBody_storable : @RawBody.Storable samplePlatform capturedBody :=
  let _ := samplePlatform
  ⟨rfl, rfl, by decide, by decide, by decide, by decide, by decide⟩

theorem authorizedBody_applicable : authorizedBody.Applicable (some 1000) :=
  ⟨by decide, by decide, by decide⟩

theorem capturedBody_applicable : capturedBody.Applicable none := ⟨by decide, by decide, by decide⟩

/-- The time at which the bodies say that they occurred. -/
def sampleTime : Timestamp := 1768471200000000

theorem authorizedBody_recent : @RawBody.Recent samplePlatform authorizedBody sampleTime := rfl

/-- The authorization is ingested and applied. -/
theorem exists_applied_sample : letI := samplePlatform
    ∃ (w : State) (e : EventRow) (o : OrderRow), Resting .default w ∧ w.db.events = [e] ∧
      e.eventId = "evt_1" ∧ e.processingStatus = .applied ∧ w.db.order? "ord_1" = some o ∧
      o.lastSequence = 1 := by
  let _ := samplePlatform
  have hmap : mapEventToStatus authorizedBody.json.eventType = some (.known .authorized) := by decide
  obtain ⟨w, e, o, hrest, -, hevents, hid, happlied, horder, hseq, -⟩ := Resting.first .default
    authorizedBody_storable authorizedBody_recent authorizedBody_applicable hmap (by decide)
  exact ⟨w, e, o, hrest, hevents, hid, happlied, horder, hseq⟩

end PaymentWebhook
