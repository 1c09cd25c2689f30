import Mathlib.Data.List.Pairwise
import PaymentWebhook.LifeCycle

set_option relaxedAutoImplicit false
set_option autoImplicit false

/-!
# The accounting of deliveries

Every accepted webhook request leaves a row in `webhook_deliveries`, and the first one for an event
also the event.  The journal tells which request left which row; the counter, the results and the
immutable columns of the events are proved to be what the journal says.

## Main definitions

* `PaymentWebhook.Receipt`, `PaymentWebhook.receipts` — the deliveries that have been committed.
* `PaymentWebhook.Account` — what is due to one event.
* `PaymentWebhook.Accounted` — the invariant.

## Main results

* `PaymentWebhook.Change.accounted` — every change keeps the invariant.
* `PaymentWebhook.delivery_accounting` — the accounts of every reachable state.
-/

namespace PaymentWebhook

open Transactions

/-! ## Receipts -/

/-- A committed delivery: what the request bound, what was drawn, and what the statement
returned. -/
structure Receipt where
  event : EventInsertParams
  delivery : DeliveryBaseParams
  draws : Draws
  row : CteRow

/-- The row of `webhook_deliveries` that a delivery leaves. -/
def Receipt.deliveryRow (r : Receipt) : DeliveryRow := r.delivery.row r.draws r.row.deliveryResult

/-- The rows of `webhook_deliveries` of an event. -/
def Store.deliveriesOf (s : Store) (eventId : String) : List DeliveryRow :=
  s.deliveries.filter (·.eventId = eventId)

/-- `webhook_events_received_total` of `METRICS_QUERY`. -/
def webhookEventsReceivedTotal (s : Store) : ℕ := s.deliveries.length

section Journal

variable [Platform]

/-- The delivery that a log commits. -/
def receipt? : Log → Option Receipt
  | [⟨.upsertAndDeliver event delivery, d, row, _⟩] => some ⟨event, delivery, d, row⟩
  | _ => none

/-- The deliveries that have been committed. -/
def receipts (journal : List (ℕ × Log)) : List Receipt := journal.filterMap fun c => receipt? c.2

/-- The deliveries of an event that have been committed. -/
def receiptsOf (eventId : String) (journal : List (ℕ × Log)) : List Receipt :=
  (receipts journal).filter (·.event.eventId = eventId)

/-- **What is due to an event**: the delivery that inserted it and the later ones. -/
structure Account (e : EventRow) (first : Receipt) (rest : List Receipt) : Prop where
  count : e.deliveryCount = rest.length + 1
  origin : ∃ occurredAt, Platform.timestamptzIn first.event.occurredAt = some occurredAt ∧
    e.origin = (first.event.row first.draws.eventId occurredAt).origin
  firstResult : first.row.deliveryResult =
    if first.event.processingStatus = .ignored then .ignored else .created
  restResult : ∀ r ∈ rest, r.row.deliveryResult =
    if e.payloadHash = r.event.payloadHash then .duplicate else .rejected

/-- **The accounts are in order.** -/
structure Accounted (journal : List (ℕ × Log)) (s : Store) : Prop where
  deliveries : s.deliveries = (receipts journal).map Receipt.deliveryRow
  requests : ∀ r ∈ receipts journal, ∃ req : WebhookRequest,
    r.event = req.event ∧ r.delivery = req.delivery
  unknown : ∀ eventId, s.event? eventId = none → receiptsOf eventId journal = []
  known : ∀ e ∈ s.events, ∃ first rest, receiptsOf e.eventId journal = first :: rest ∧
    Account e first rest
  total : s.deliveries.length = (s.events.map EventRow.deliveryCount).sum

variable {journal : List (ℕ × Log)} {i : ℕ} {log : Log}

theorem receipts_append_of_none (h : receipt? log = none) :
    receipts (journal ++ [(i, log)]) = receipts journal := by
  simp [receipts, List.filterMap_append, h]

theorem receipts_append {r : Receipt} (h : receipt? log = some r) :
    receipts (journal ++ [(i, log)]) = receipts journal ++ [r] := by
  simp [receipts, List.filterMap_append, h]

theorem receiptsOf_append {r : Receipt} (h : receipt? log = some r) (eventId : String) :
    receiptsOf eventId (journal ++ [(i, log)]) =
      receiptsOf eventId journal ++ if r.event.eventId = eventId then [r] else [] := by
  rw [receiptsOf, receiptsOf, receipts_append h, List.filter_append]
  by_cases he : r.event.eventId = eventId <;> simp [he]

/-! ## Keeping the accounts -/

variable {s s' : Store}

omit [Platform] in
/-- A sum over the events after one of them has been rewritten. -/
theorem Store.sum_putEvent (hs : s.Keyed) {e e' : EventRow} (he : e ∈ s.events)
    (hkeys : e.keys = e'.keys) (f : EventRow → ℕ) :
    ((s.putEvent e').events.map f).sum + f e = (s.events.map f).sum + f e' := by
  have hne : e'.keys ≠ [] := by simp [EventRow.keys]
  obtain ⟨l₁, l₂, hold, hnew⟩ := Tables.exists_replace hs.events he hkeys hne
  have hnew' : (s.putEvent e').events = l₁ ++ e' :: l₂ := hnew
  rw [hold, hnew']
  simp only [List.map_append, List.map_cons, List.sum_append, List.sum_cons]
  omega

omit [Platform] in
/-- Which events are unknown after one has been rewritten. -/
theorem event?_putEvent_eq_none (hs : s.Keyed) {e e' : EventRow} (he : e ∈ s.events)
    (hkeys : e.keys = e'.keys) {eventId : String} (h : (s.putEvent e').event? eventId = none) :
    s.event? eventId = none := by
  rw [Store.event?_putEvent hs he hkeys] at h
  by_cases hid : eventId = e'.eventId
  · simp [hid] at h
  · rwa [if_neg hid] at h

/-- A transaction that touches neither events nor deliveries keeps the accounts. -/
theorem Accounted.congr (h : Accounted journal s) (he : s'.events = s.events)
    (hd : s'.deliveries = s.deliveries) (hlog : receipt? log = none) :
    Accounted (journal ++ [(i, log)]) s' := by
  have hrec : receipts (journal ++ [(i, log)]) = receipts journal := receipts_append_of_none hlog
  have hof : ∀ id, receiptsOf id (journal ++ [(i, log)]) = receiptsOf id journal := fun id => by
    rw [receiptsOf, receiptsOf, hrec]
  refine ⟨by rw [hrec, hd, h.deliveries], by rw [hrec]; exact h.requests, fun id hid => ?_,
    fun e hmem => ?_, by rw [he, hd, h.total]⟩
  · rw [hof]
    rw [Store.event?, he] at hid
    exact h.unknown id hid
  · rw [hof]
    exact h.known e (he ▸ hmem)

/-- Rewriting an event keeps the accounts if it keeps the counter and the immutable columns. -/
theorem Accounted.putEvent (h : Accounted journal s) (hs : s.Keyed) {e e' : EventRow}
    (he : e ∈ s.events) (horigin : e'.origin = e.origin)
    (hcount : e'.deliveryCount = e.deliveryCount) : Accounted journal (s.putEvent e') := by
  obtain ⟨-, heid, hhash, hkeys⟩ := EventRow.eq_of_origin_eq horigin
  refine ⟨h.deliveries, h.requests, fun id hid => ?_, ?_, ?_⟩
  · exact h.unknown id (event?_putEvent_eq_none hs he hkeys hid)
  · refine Store.forall_putEvent hs he hkeys ?_ fun x hx _ => h.known x hx
    obtain ⟨first, rest, hr, hacc⟩ := h.known e he
    refine ⟨first, rest, by rw [heid, hr], hcount ▸ hacc.count, ?_, hacc.firstResult, ?_⟩
    · rw [horigin]
      exact hacc.origin
    · rw [hhash]
      exact hacc.restResult
  · have hsum := Store.sum_putEvent hs he hkeys EventRow.deliveryCount
    have htotal := h.total
    rw [Store.putEvent_deliveries]
    omega

/-- A transaction that makes an uncounted move keeps the accounts. -/
theorem Accounted.move (h : Accounted journal s) (hs : s.Keyed) {e e' : EventRow}
    (he : e ∈ s.events) (hevents : s'.events = (s.putEvent e').events)
    (hdeliveries : s'.deliveries = s.deliveries) (horigin : e'.origin = e.origin)
    (hcount : e'.deliveryCount = e.deliveryCount) (hlog : receipt? log = none) :
    Accounted (journal ++ [(i, log)]) s' :=
  (h.putEvent hs he horigin hcount).congr hevents hdeliveries hlog

omit [Platform] in
/-- What the counter says after another delivery of a known event. -/
theorem deliveryResult_of_two_le {n : ℕ} (hn : 2 ≤ n) (isStale : Bool) (storedHash hash : String) :
    deliveryResult n isStale storedHash hash =
      if storedHash = hash then .duplicate else .rejected := by
  have hne : n ≠ 1 := by omega
  simp [deliveryResult, hne]

/-- The first delivery of an event. -/
theorem Accounted.create (h : Accounted journal s) {req : WebhookRequest} {d : Draws}
    {row : CteRow} {w : List Write} {occurredAt : Timestamp}
    (hnew : s.event? req.rawBody.json.eventId = none)
    (htime : Platform.timestamptzIn req.rawBody.json.occurredAt = some occurredAt)
    (hrow : row.deliveryResult =
      if req.event.processingStatus = .ignored then .ignored else .created) :
    Accounted (journal ++ [(i, [⟨.upsertAndDeliver req.event req.delivery, d, row, w⟩])])
      { s with
        events := s.events ++ [req.event.row d.eventId occurredAt]
        deliveries := s.deliveries ++ [req.delivery.row d row.deliveryResult] } := by
  have hlog : receipt? [⟨.upsertAndDeliver req.event req.delivery, d, row, w⟩] =
      some ⟨req.event, req.delivery, d, row⟩ := rfl
  have hid : (req.event.row d.eventId occurredAt).eventId = req.event.eventId := rfl
  refine ⟨?_, fun r hr => ?_, fun id hnone => ?_, fun e he => ?_, ?_⟩
  · rw [receipts_append hlog, List.map_append, ← h.deliveries]
    rfl
  · rw [receipts_append hlog] at hr
    rcases List.mem_append.mp hr with hr | hr
    · exact h.requests r hr
    · obtain rfl := List.mem_singleton.mp hr
      exact ⟨req, rfl, rfl⟩
  · have hno := Store.event?_eq_none.mp hnone
    have hne : req.event.eventId ≠ id := hid ▸ hno _ (by simp)
    rw [receiptsOf_append hlog, if_neg hne, List.append_nil]
    exact h.unknown id (Store.event?_eq_none.mpr fun e he => hno e (by simp [he]))
  · rw [receiptsOf_append hlog]
    rcases List.mem_append.mp he with he | he
    · have hne : req.event.eventId ≠ e.eventId := fun heq =>
        Store.event?_eq_none.mp hnew e he heq.symm
      rw [if_neg hne, List.append_nil]
      exact h.known e he
    · obtain rfl := List.mem_singleton.mp he
      refine ⟨⟨req.event, req.delivery, d, row⟩, [], ?_, rfl, ⟨occurredAt, htime, rfl⟩, hrow, by simp⟩
      rw [hid, show req.event.eventId = req.rawBody.json.eventId from rfl, h.unknown _ hnew]
      exact if_pos rfl
  · have htotal := h.total
    simp only [List.length_append, List.length_singleton, List.map_append, List.map_singleton,
      List.sum_append, List.sum_singleton, EventInsertParams.row]
    omega

/-- A further delivery of an event. -/
theorem Accounted.count (h : Accounted journal s) (hs : s.Keyed) {req : WebhookRequest} {d : Draws}
    {row : CteRow} {w : List Write} {old : EventRow}
    (hold : s.event? req.rawBody.json.eventId = some old)
    (hrow : row.deliveryResult =
      deliveryResult (old.deliveryCount + 1) (req.event.processingStatus = .ignored)
        old.payloadHash req.event.payloadHash) :
    Accounted (journal ++ [(i, [⟨.upsertAndDeliver req.event req.delivery, d, row, w⟩])])
      { s.putEvent { old with deliveryCount := old.deliveryCount + 1 } with
        deliveries := s.deliveries ++ [req.delivery.row d row.deliveryResult] } := by
  obtain ⟨hmem, hid⟩ := Store.mem_of_event? hold
  have hlog : receipt? [⟨.upsertAndDeliver req.event req.delivery, d, row, w⟩] =
      some ⟨req.event, req.delivery, d, row⟩ := rfl
  set e' : EventRow := { old with deliveryCount := old.deliveryCount + 1 }
  have hkeys : old.keys = e'.keys := rfl
  have heid : req.event.eventId = old.eventId := hid.symm
  refine ⟨?_, fun r hr => ?_, fun id hnone => ?_, ?_, ?_⟩
  · rw [receipts_append hlog, List.map_append, ← h.deliveries]
    rfl
  · rw [receipts_append hlog] at hr
    rcases List.mem_append.mp hr with hr | hr
    · exact h.requests r hr
    · obtain rfl := List.mem_singleton.mp hr
      exact ⟨req, rfl, rfl⟩
  · have hnone' : s.event? id = none := event?_putEvent_eq_none hs hmem hkeys hnone
    have hne : req.event.eventId ≠ id := fun heq => by
      rw [← heq, show req.event.eventId = req.rawBody.json.eventId from rfl, hold] at hnone'
      cases hnone'
    rw [receiptsOf_append hlog, if_neg hne, List.append_nil]
    exact h.unknown id hnone'
  · refine Store.forall_putEvent hs hmem hkeys ?_ fun x hx hne => ?_
    · obtain ⟨first, rest, hr, hacc⟩ := h.known old hmem
      have hcount := hacc.count
      refine ⟨first, rest ++ [⟨req.event, req.delivery, d, row⟩], ?_, ?_, hacc.origin,
        hacc.firstResult, fun r hr => ?_⟩
      · rw [receiptsOf_append hlog, if_pos heid, show e'.eventId = old.eventId from rfl, hr]
        rfl
      · show old.deliveryCount + 1 = _
        rw [hcount, List.length_append, List.length_singleton]
      · rcases List.mem_append.mp hr with hr | hr
        · exact hacc.restResult r hr
        · obtain rfl := List.mem_singleton.mp hr
          exact hrow.trans (deliveryResult_of_two_le (by omega) _ _ _)
    · rw [receiptsOf_append hlog, if_neg (by rw [heid]; exact Ne.symm hne), List.append_nil]
      exact h.known x hx
  · have hsum := Store.sum_putEvent hs hmem hkeys EventRow.deliveryCount
    have htotal := h.total
    have hone : e'.deliveryCount = old.deliveryCount + 1 := rfl
    simp only [List.length_append, List.length_singleton]
    show s.deliveries.length + 1 = ((s.putEvent e').events.map EventRow.deliveryCount).sum
    omega

/-- **Every change keeps the accounts.** -/
theorem Change.accounted {cfg : WorkerConfig} {c : Call} {x : Option Answer} (hs : s.Keyed)
    (h : Accounted journal s) (hc : Change cfg c log x s s') :
    Accounted (journal ++ [(i, log)]) s' := by
  cases hc with
  | created hnew htime hrow => exact h.create hnew htime hrow
  | counted hold hfits hrow => exact h.count hs hold hrow
  | idle => exact h.congr rfl rfl rfl
  | applied hev => exact h.move hs hev rfl rfl rfl rfl rfl
  | ignored hev => exact h.move hs hev rfl rfl rfl rfl rfl
  | retried hev => exact h.move hs hev rfl rfl rfl rfl rfl
  | buried hev => exact h.move hs hev rfl rfl rfl rfl rfl
  | unknown => exact h.congr rfl rfl rfl
  | replayed hev => exact h.move hs hev rfl rfl rfl rfl rfl
  | notInDlq => exact h.congr rfl rfl rfl
  | reconciled hrun hturns =>
    obtain ⟨he, hd⟩ := hturns.inbox_eq
    exact h.congr he hd rfl

end Journal

/-! ## Every reachable state -/

section Reach

variable [Platform] {cfg : WorkerConfig} {w : State}

/-- The accounts of a reachable state are in order. -/
theorem Reach.accounted (h : Reach cfg .empty w) : Accounted w.journal w.db := by
  refine h.changes_induction (P := Accounted) Store.keyed_empty ?_ fun _ _ _ _ _ _ _ _ hs hP hc =>
    hc.accounted hs hP
  exact ⟨rfl, by simp [receipts], fun _ _ => rfl, by simp [Store.empty], rfl⟩

/-- The request of session `i` has left the delivery `r`: it is all that the session has
committed, and it is there. -/
def Delivered (w : State) (i : ℕ) (req : WebhookRequest) (r : Receipt) : Prop :=
  r.event = req.event ∧ r.delivery = req.delivery ∧
    (∃ log, w.commitsOf i = [log] ∧ receipt? log = some r) ∧ r.deliveryRow ∈ w.db.deliveries

theorem mem_journal_of_commitsOf {i : ℕ} {log : Log} (h : w.commitsOf i = [log]) :
    (i, log) ∈ w.journal := w.mem_commitsOf.mp (by simp [h])

/-- A commit of an ingestion is a delivery. -/
theorem Reach.delivered (h : Reach cfg .empty w) {i : ℕ} {req : WebhookRequest} {log : Log}
    {x : Option Answer} (hc : w.commitsOf i = [log]) (hlog : CommitLog cfg (.ingest req) log x) :
    ∃ r, Delivered w i req r ∧ x = some (.ingested ⟨req.rawBody.json.eventId, r.row.deliveryResult,
      "Webhook stored for asynchronous processing"⟩) := by
  cases hlog with
  | ingest hlog =>
    obtain @⟨d, ws, row⟩ := hlog
    set r : Receipt := ⟨req.event, req.delivery, d, row⟩
    refine ⟨r, ⟨rfl, rfl, ⟨_, hc, rfl⟩, ?_⟩, rfl⟩
    have hmem : r ∈ receipts w.journal :=
      List.mem_filterMap.mpr ⟨_, mem_journal_of_commitsOf hc, rfl⟩
    rw [h.accounted.deliveries]
    exact List.mem_map_of_mem hmem

/-- No two requests have left the same delivery. -/
theorem Reach.deliveryRow_ne (h : Reach cfg .empty w) {i j : ℕ} (hij : i ≠ j)
    {req req' : WebhookRequest} {r r' : Receipt} (hr : Delivered w i req r)
    (hr' : Delivered w j req' r') : r.deliveryRow.id ≠ r'.deliveryRow.id := by
  obtain ⟨-, -, ⟨log, hc, hlog⟩, -⟩ := hr
  obtain ⟨-, -, ⟨log', hc', hlog'⟩, -⟩ := hr'
  have hkeyed := (h.coherent Store.keyed_empty).inv.deliveries
  rw [h.accounted.deliveries, Tables.Keyed, List.pairwise_map, receipts,
    List.pairwise_filterMap] at hkeyed
  let Apart : ℕ × Log → ℕ × Log → Prop := fun c c' => ∀ r, receipt? c.2 = some r →
    ∀ r', receipt? c'.2 = some r' → r.deliveryRow.id ≠ r'.deliveryRow.id
  have hapart : w.journal.Pairwise Apart :=
    hkeyed.imp fun hcc r hr r' hr' => by simpa [DeliveryRow.keys] using hcc r hr r' hr'
  have hsymm : Std.Symm Apart := ⟨fun c c' hcc r' hr' r hr => (hcc r hr r' hr').symm⟩
  have hne : (i, log) ≠ (j, log') := by simp [hij]
  exact hapart.forall (mem_journal_of_commitsOf hc) (mem_journal_of_commitsOf hc') hne r hlog r'
    hlog'

/-- Where an ingestion may stand, it has committed nothing or its delivery. -/
theorem Reach.ingest_settled (h : Reach cfg .empty w) {i : ℕ} {s : Session postgres Call Answer}
    {req : WebhookRequest} (hs : w.sessions i = some s) (hcall : s.call = .ingest req) :
    w.commitsOf i = [] ∨ ∃ r, Delivered w i req r := by
  refine (h.settled Store.keyed_empty hs).imp_right ?_
  rintro ⟨log, x, hl, hx⟩
  rw [hcall] at hx
  obtain ⟨r, hr, -⟩ := h.delivered hl hx
  exact ⟨r, hr⟩

/-- An ingestion that answers has left its delivery. -/
theorem Reach.ingest_answered (h : Reach cfg .empty w) {i : ℕ} {s : Session postgres Call Answer}
    {req : WebhookRequest} {a : Answer} (hs : w.sessions i = some s) (hcall : s.call = .ingest req)
    (hp : s.prog = .done a) : ∃ r, Delivered w i req r ∧
      a = .ingested ⟨req.rawBody.json.eventId, r.row.deliveryResult,
        "Webhook stored for asynchronous processing"⟩ := by
  obtain ⟨log, hl, hx⟩ := h.answered Store.keyed_empty hs hp
  rw [hcall] at hx
  obtain ⟨r, hr, ha⟩ := h.delivered hl hx
  exact ⟨r, hr, Option.some.inj ha⟩

/-- An event keeps its immutable columns along every run. -/
theorem Reach.origin_forever (h : Reach cfg .empty w) {w' : State}
    (hrun : Reachable (program cfg) w w') : Reach cfg .empty w' ∧
      ∀ e ∈ w.db.events, ∃ e' ∈ w'.db.events, e'.origin = e.origin := by
  induction hrun with
  | refl => exact ⟨h, fun e he => ⟨e, he, rfl⟩⟩
  | step hrun hstep ih =>
    refine ⟨ih.1.step hstep, fun e he => ?_⟩
    obtain ⟨e₁, he₁, horigin⟩ := ih.2 e he
    rcases ih.1.step_event hstep he₁ with he₂ | ⟨e₂, he₂, hmove⟩
    · exact ⟨e₁, he₂, horigin⟩
    · exact ⟨e₂, he₂, hmove.origin_eq.trans horigin⟩

/-- The deliveries of an event, as the journal has them. -/
theorem Accounted.deliveriesOf_eq {journal : List (ℕ × Log)} {s : Store} (h : Accounted journal s)
    (eventId : String) :
    s.deliveriesOf eventId = (receiptsOf eventId journal).map Receipt.deliveryRow := by
  rw [Store.deliveriesOf, h.deliveries, receiptsOf, List.filter_map]
  refine congrArg _ (List.filter_congr fun r hr => ?_)
  obtain ⟨req, he, hd⟩ := h.requests r hr
  simp [Receipt.deliveryRow, DeliveryBaseParams.row, he, hd, WebhookRequest.event,
    WebhookRequest.delivery]

end Reach

end PaymentWebhook
