import PaymentWebhook.Feeds
import PaymentWebhook.GeneratedEvents

set_option relaxedAutoImplicit false
set_option autoImplicit false

/-!
# The simulator against the service

The webhooks that the generator makes are sent to the service, in any order and while workers run: what the
answers are, and what is in the inbox and in the orders afterwards.

## Main definitions

* `PaymentWebhook.Posting`, `PaymentWebhook.Posting.response` — a webhook that is sent, and the answer.
* `PaymentWebhook.Inbox` — the inbox holds what was sent, and workers are through with it.
* `PaymentWebhook.Simulation` — a run of the simulator to its end.
* `PaymentWebhook.Sent` — what has been sent, and what the service makes of it on arrival.

## Main results

* `PaymentWebhook.Inbox.events`, `PaymentWebhook.Inbox.states` — the events and the orders are those that the
  oracle expects.
* `PaymentWebhook.Simulation.inbox` — a run leaves such an inbox.
* `PaymentWebhook.Simulation.count_answers` — how many answers of each kind there are.
-/

namespace PaymentWebhook

open Transactions Generator

/-! ## The inbox and the oracle -/

/-- The state of an order, as the oracle writes it. -/
def OrderRow.state? (r : OrderRow) : Option ExpectedState :=
  r.amount.bind fun amount => r.currency.map fun currency =>
    ⟨r.status, r.lastSequence, numericText amount, currency⟩

/-- The type of a webhook stands for its status. -/
theorem mapEventToStatus_type (status : OrderStatus) :
    mapEventToStatus (STATUS_TO_EVENT_TYPE status) = some (.known status) := by
  cases status <;> rfl

variable [Platform] {cfg : WorkerConfig} {w : State}

/-- **The inbox holds what was sent**: the webhooks `base`, with which workers have finished, and the
webhooks `stale`, which came too late; nothing else has touched the orders. -/
structure Inbox (w : State) (base stale : List GeneratedEvent) : Prop where
  known : ∀ e ∈ w.db.events, ∃ src ∈ base ++ stale, e.payload = src.payload ∧ (e.finished = true ↔ src ∈ base)
  stored : ∀ src ∈ base ++ stale, ∃ e ∈ w.db.events, e.payload = src.payload
  details : w.db.details = []

section Inbox

variable {rt : Runtime} {opts : GenerateOptions} {base duplicates invalid stale : List GeneratedEvent}
  (h : Reach cfg .empty w)
  (ht : Traffic rt opts base duplicates invalid stale) (hi : Inbox w base stale)

include h ht

/-- The row of a webhook repeats it. -/
theorem Generator.Traffic.columns {e : EventRow} (he : e ∈ w.db.events) {src : GeneratedEvent} (hsrc : src ∈ base ++ stale)
    (hpayload : e.payload = src.payload) : e.eventId = src.eventId ∧ e.orderId = src.orderId ∧
      e.sequence = src.sequence ∧ mapEventToStatus e.eventType = some (.known src.status) := by
  obtain ⟨hid, horder, htype, hseq⟩ := h.columns_eq e he
  have hsound := (ht.sound src hsrc).1
  rw [hid, horder, htype, hseq, hpayload, hsound.eventType]
  exact ⟨hsound.eventId, hsound.orderId, hsound.sequence, mapEventToStatus_type src.status⟩

include hi

/-- Workers have finished with a webhook of `base`. -/
theorem Inbox.finished {b : GeneratedEvent} (hb : b ∈ base) :
    ∃ e ∈ w.db.events, e.payload = b.payload ∧ e.finished = true := by
  obtain ⟨e, he, hpayload⟩ := hi.stored b (List.mem_append_left _ hb)
  obtain ⟨src, hsrc, hpayload', hfinished⟩ := hi.known e he
  have hid : src.eventId = b.eventId :=
    (ht.columns h he hsrc hpayload').1.symm.trans (ht.columns h he (List.mem_append_left _ hb) hpayload).1
  obtain rfl := ht.eq_of_eventId hsrc (List.mem_append_left _ hb) hid
  exact ⟨e, he, hpayload, hfinished.mpr hb⟩

omit h ht in
/-- What workers have finished with is a webhook of `base`. -/
theorem Inbox.of_finished {e : EventRow} (he : e ∈ w.db.events) (hfinished : e.finished = true) :
    ∃ b ∈ base, e.payload = b.payload := by
  obtain ⟨src, -, hpayload, hiff⟩ := hi.known e he
  exact ⟨src, hiff.mp hfinished, hpayload⟩

/-- **The events of each order** are those that the oracle expects. -/
theorem Inbox.events (id : String) : ((w.db.events.filter (·.orderId = id)).map EventRow.eventId).Perm
    ((((base ++ stale).foldl collectEvent []).lookup id).getD []) := by
  obtain ⟨hnodup, hmem⟩ := mem_collect (base ++ stale) id
  have hkeyed : Store.Keyed w.db := (h.coherent Store.keyed_empty).inv
  have hnodup' : ((w.db.events.filter (·.orderId = id)).map EventRow.eventId).Nodup := by
    refine List.Nodup.sublist (List.Sublist.map _ List.filter_sublist) ?_
    rw [List.Nodup, List.pairwise_map]
    refine hkeyed.events.imp fun {e e'} hkeys heq => ?_
    exact hkeys (.event e.eventId) (by simp [EventRow.keys]) (by simp [EventRow.keys, heq])
  refine (List.perm_ext_iff_of_nodup hnodup' hnodup).mpr fun eventId => ?_
  rw [hmem]
  simp only [List.mem_map, List.mem_filter, decide_eq_true_eq]
  constructor
  · rintro ⟨e, ⟨he, horder⟩, heid⟩
    obtain ⟨src, hsrc, hpayload, -⟩ := hi.known e he
    obtain ⟨hid, horder', -⟩ := ht.columns h he hsrc hpayload
    exact ⟨src, hsrc, horder'.symm.trans horder, hid.symm.trans heid⟩
  · rintro ⟨src, hsrc, horder, heid⟩
    obtain ⟨e, he, hpayload⟩ := hi.stored src hsrc
    obtain ⟨hid, horder', -⟩ := ht.columns h he hsrc hpayload
    exact ⟨e, ⟨he, horder'.trans horder⟩, hid.trans heid⟩

/-- An order without webhooks does not exist. -/
theorem Inbox.no_order {id : String} (hnone : ∀ b ∈ base, b.orderId ≠ id) : w.db.order? id = none := by
  by_contra hsome
  obtain ⟨r, hr⟩ := Option.ne_none_iff_exists'.mp hsome
  obtain ⟨row, hrow⟩ := List.exists_mem_of_ne_nil _ ((h.audited id).present r hr).1
  obtain ⟨hmem, hid⟩ := List.mem_filter.mp hrow
  cases h.accounts row hmem with
  | @event e he horder =>
    obtain ⟨src, hsrc, hpayload, -⟩ := hi.known e he
    have hsame : src.orderId = id :=
      (ht.columns h he hsrc hpayload).2.1.symm.trans (horder.trans (of_decide_eq_true hid))
    rcases List.mem_append.mp hsrc with hsrc | hsrc
    · exact hnone src hsrc hsame
    · obtain ⟨b, hb, hborrowed, -⟩ := ht.borrowed src hsrc
      exact hnone b hb (hborrowed.symm.trans hsame)
  | repair hd => simp [hi.details] at hd

/-- What workers have read for an order. -/
theorem Inbox.inputs {id : String} {i : OrderWrite} (hi' : i ∈ w.db.inputs id) :
    ∃ b ∈ base, b.orderId = id ∧ i = ⟨b.status, b.sequence, false⟩ := by
  rcases hi' with ⟨e, he, horder, hinput⟩ | ⟨d, hd, -⟩
  · have hfinished : e.finished = true := by
      by_contra hnot
      rw [EventRow.input?_of_not_finished (by simpa using hnot)] at hinput
      cases hinput
    obtain ⟨b, hb, hpayload⟩ := hi.of_finished he hfinished
    obtain ⟨-, horder', hseq, hmap⟩ := ht.columns h he (List.mem_append_left _ hb) hpayload
    refine ⟨b, hb, horder'.symm.trans horder, ?_⟩
    simp only [EventRow.input?, hfinished, hmap, Option.some.injEq] at hinput
    rw [← hinput, hseq]
  · simp [hi.details] at hd

variable {b : GeneratedEvent} (hb : b ∈ base)
  (hle : ∀ b' ∈ base, b'.orderId = b.orderId → b'.sequence ≤ b.sequence)

include hb

/-- A worker has read what a webhook of `base` says. -/
theorem Inbox.mem_inputs : (⟨b.status, b.sequence, false⟩ : OrderWrite) ∈ w.db.inputs b.orderId := by
  obtain ⟨e, he, hpayload, hfinished⟩ := hi.finished h ht hb
  obtain ⟨-, horder, hseq, hmap⟩ := ht.columns h he (List.mem_append_left _ hb) hpayload
  exact .inl ⟨e, he, horder, by simp [EventRow.input?, hfinished, hmap, hseq]⟩

include hle

/-- The status and the sequence of an order are those of its webhook with the greatest sequence. -/
theorem Inbox.register {r : OrderRow} (hr : w.db.order? b.orderId = some r) :
    r.lastSequence = b.sequence ∧ r.status = b.status := by
  have hholds := (h.projected b.orderId).present r hr
  have hinput := hi.mem_inputs h ht hb
  have hpos := (ht.sound b (List.mem_append_left _ hb)).1.positive
  have hlast : r.lastSequence = b.sequence := by
    refine le_antisymm ?_ (hholds.le hinput)
    rcases hholds.attained with hzero | ⟨i, hi', hstamp⟩
    · replace hzero : r.lastSequence = 0 := hzero
      omega
    · obtain ⟨b', hb', hid, rfl⟩ := hi.inputs h ht hi'
      exact hstamp.symm.trans_le (hle b' hb' hid)
  refine ⟨hlast, hholds.value (fun i hi' j hj hstamp => ?_) _ hinput hlast.symm (.inl hpos)⟩
  obtain ⟨b₁, hb₁, hid₁, rfl⟩ := hi.inputs h ht hi'
  obtain ⟨b₂, hb₂, hid₂, rfl⟩ := hi.inputs h ht hj
  rw [(ht.orders b₁ hb₁ b₂ hb₂ (hid₁.trans hid₂.symm)).2 hstamp]

/-- The money of an order is that of its webhook with the greatest sequence. -/
theorem Inbox.field {r : OrderRow} (hr : w.db.order? b.orderId = some r) {α : Type} (F : MoneyField α)
    {a : α} (ha : F.ofPayload b.payload = some a) : F.ofOrder r = some a := by
  obtain ⟨hlast, -⟩ := hi.register h ht hb hle hr
  have hpos := (ht.sound b (List.mem_append_left _ hb)).1.positive
  have hcarried : Carried F (F.writes w.db b.orderId) (w.db.order? b.orderId) :=
    h.carried F (by simp [hi.details])
  -- what has put the order where it stands is this webhook
  have hwrote : ∀ x ∈ w.db.events, x.orderId = b.orderId → x.processingStatus = .applied →
      x.sequence = r.lastSequence → x.payload = b.payload := by
    intro x hx hid happlied hxseq
    obtain ⟨b', hb', hpayload⟩ := hi.of_finished hx (by simp [EventRow.finished, happlied])
    obtain ⟨-, horder, hseq, -⟩ := ht.columns h hx (List.mem_append_left _ hb') hpayload
    obtain rfl := (ht.orders b' hb' b hb (horder.symm.trans hid)).2 (by omega)
    exact hpayload
  rcases h.moved hr (by omega) with ⟨x, hx, hid, happlied, hxseq⟩ | ⟨d, hd, -⟩
  · refine (hcarried.holds r hr).of_greatest (t := r.lastSequence) ?_ (hcarried.bounded r hr) ?_
    · refine ⟨x, hx, hid, ?_⟩
      rw [MoneyField.write?, if_pos happlied, hxseq, hwrote x hx hid happlied hxseq, ha]
    · rintro ⟨t, v⟩ ⟨y, hy, hyid, hwrite⟩ heq
      have hyapplied : y.processingStatus = .applied := by
        by_contra hnot
        rw [MoneyField.write?_of_not_applied hnot] at hwrite
        cases hwrite
      rw [MoneyField.write?, if_pos hyapplied] at hwrite
      obtain ⟨rfl, rfl⟩ := Prod.mk.inj (Option.some.inj hwrite)
      rw [hwrote y hy hyid hyapplied heq, ha]
  · simp [hi.details] at hd

/-- **An order stands where its webhook with the greatest sequence puts it.** -/
theorem Inbox.order : ∃ r, w.db.order? b.orderId = some r ∧ r.state? = some b.state := by
  obtain ⟨r, hr⟩ : ∃ r, w.db.order? b.orderId = some r := by
    refine Option.ne_none_iff_exists'.mp fun hnone => ?_
    have hinput := hi.mem_inputs h ht hb
    rw [(h.projected b.orderId).absent hnone] at hinput
    exact hinput
  obtain ⟨hlast, hstatus⟩ := hi.register h ht hb hle hr
  obtain ⟨cents, currency, hfits, -, hdata⟩ := (ht.sound b (List.mem_append_left _ hb)).1.money
  have hamount : r.amount = some (cents : ℤ) := hi.field h ht hb hle hr amountField
    (by simp [amountField, WebhookPayload.cents, hdata, numericIn_numericText hfits])
  have hcurrency : r.currency = some currency := hi.field h ht hb hle hr currencyField
    (by simp [currencyField, WebhookPayload.currency, hdata])
  refine ⟨r, hr, ?_⟩
  simp [OrderRow.state?, GeneratedEvent.state, hamount, hcurrency, hstatus, hlast, hdata]

omit hb hle in
/-- **The orders are those that the oracle expects.** -/
theorem Inbox.states (id : String) :
    (w.db.order? id).map OrderRow.state? = ((finalStates base).lookup id).map some := by
  have hlatest := latest_finalStates base id
  generalize (finalStates base).lookup id = state at hlatest
  cases hlatest with
  | absent hnone => rw [hi.no_order h ht hnone, Option.map_none, Option.map_none]
  | present hb hid hle =>
    subst hid
    obtain ⟨r, hr, hstate⟩ := hi.order h ht hb hle
    rw [hr, Option.map_some, Option.map_some, hstate]

end Inbox

/-! ## Sending the webhooks -/

/-- A webhook that is sent: the session of its request, and what the server adds to it. -/
structure Posting where
  event : GeneratedEvent
  session : ℕ
  correlationId : String
  receivedAt : Timestamp

/-- The answer to a webhook: 401, 400, or the result of its ingestion. -/
inductive Response where
  | unauthorized
  | badRequest
  | accepted (result : DeliveryResult)
  deriving DecidableEq, Repr

/-- The request that a webhook becomes. -/
def Posting.request (p : Posting) : WebhookRequest where
  rawBody := ⟨p.event.rawBody, p.event.payload⟩
  correlationId := p.correlationId
  receivedAt := p.receivedAt

/-- The guard lets the webhook pass. -/
def Generator.GeneratedEvent.authentic (rt : Runtime) (secret : String) (e : GeneratedEvent) : Bool :=
  match WebhookSignatureGuard.canActivate rt.hmacSha256 secret (some e.rawBody) (some e.signature) with
  | .ok passed => passed
  | .error _ => false

/-- The guard and the validation let the webhook pass. -/
def Generator.GeneratedEvent.admitted (rt : Runtime) (secret : String) (e : GeneratedEvent) : Bool :=
  e.authentic rt secret && PaymentWebhookDto.accepts e.payload

/-- **The answer to a webhook.** -/
def Posting.response (rt : Runtime) (secret : String) (w : State) (p : Posting) : Option Response :=
  if p.event.authentic rt secret = false then some .unauthorized
  else if PaymentWebhookDto.accepts p.event.payload = false then some .badRequest
  else (answerOf w p.session).map .accepted

/-- **A run of the simulator to its end**: all webhooks have been sent to the empty service within five minutes
of the base time and have been answered, each by a session of its own if it has passed the guard and the
validation; the other calls were turns of workers; none of them has failed, and nothing waits. -/
structure Simulation (cfg : WorkerConfig) (rt : Runtime) (opts : GenerateOptions) (w : State)
    (postings : List Posting) : Prop where
  reach : Reach cfg .empty w
  posted : (postings.map Posting.event).Perm (generate rt opts).allEvents
  window : ∀ p ∈ postings, 1000 * (opts.baseTimeMs - 5 * 60 * 1000) < p.receivedAt ∧
    p.receivedAt < 1000 * (opts.baseTimeMs + 5 * 60 * 1000)
  answered : ∀ p ∈ postings, (p.response rt opts.secret w).isSome
  sessions : ((postings.filter fun p => p.event.admitted rt opts.secret).map Posting.session).Nodup
  called : ∀ p ∈ postings, p.event.admitted rt opts.secret = true → Called w p.session (.ingest p.request)
  only : ∀ i c, Called w i c → (∃ p ∈ postings, p.event.admitted rt opts.secret = true ∧ p.session = i ∧
    c = .ingest p.request) ∨ ∃ input, c = .processOne input
  failures : ∀ c ∈ w.journal, failed c.2 = false
  drained : ∀ e ∈ w.db.events, e.processingStatus ≠ .pending ∧ e.processingStatus ≠ .retryScheduled

/-! ## What has been sent -/

/-- **What has been sent**: all webhooks of the run.  The service admits those that are to be stored and knows
the forged ones; those of `base` come in time and the outdated ones do not. -/
structure Sent (rt : Runtime) (secret : String) (postings : List Posting)
    (base duplicates invalid stale : List GeneratedEvent) : Prop where
  posted : (postings.map Posting.event).Perm (base ++ duplicates ++ invalid ++ stale)
  admitted : ∀ e ∈ base ++ duplicates ++ stale, e.admitted rt secret = true
  refused : ∀ e ∈ invalid, e.authentic rt secret = false
  inTime : ∀ p ∈ postings, ∀ src ∈ base, p.event.payload = src.payload → p.request.late = false
  tooLate : ∀ p ∈ postings, ∀ src ∈ stale, p.event.payload = src.payload → p.request.late = true

/-- The requests that have passed the guard and the validation, with their sessions. -/
def admittedRequests (rt : Runtime) (secret : String) (postings : List Posting) : List (ℕ × WebhookRequest) :=
  (postings.filter fun p => p.event.admitted rt secret).map fun p => (p.session, p.request)

section Sent

variable {rt : Runtime} {opts : GenerateOptions} {postings : List Posting}
  {base duplicates invalid stale : List GeneratedEvent}

/-- The requests are the webhooks that have been admitted. -/
theorem mem_admittedRequests {secret : String} {q : ℕ × WebhookRequest} :
    q ∈ admittedRequests rt secret postings ↔
      ∃ p ∈ postings, p.event.admitted rt secret = true ∧ q = (p.session, p.request) := by
  simp only [admittedRequests, List.mem_map, List.mem_filter, and_assoc, eq_comm]

/-- What the guard refuses is not admitted. -/
theorem Generator.GeneratedEvent.authentic_of_admitted {secret : String} {e : GeneratedEvent}
    (h : e.admitted rt secret = true) : e.authentic rt secret = true ∧ PaymentWebhookDto.accepts e.payload = true := by
  simpa [GeneratedEvent.admitted] using h

section Counting

variable {secret : String} (hsent : Sent rt secret postings base duplicates invalid stale)

include hsent

/-- A count over what has been sent is a count over what has been made. -/
theorem Sent.countP (P : GeneratedEvent → Bool) : (postings.countP fun p => P p.event) =
    base.countP P + duplicates.countP P + invalid.countP P + stale.countP P := by
  have hcount := hsent.posted.countP_eq P
  rwa [List.countP_map, List.countP_append, List.countP_append, List.countP_append] at hcount

/-- Each webhook is admitted or is one of the forged. -/
theorem Sent.admitted_or {p : Posting} (hp : p ∈ postings) :
    p.event ∈ base ++ duplicates ++ stale ∧ p.event.admitted rt secret = true ∨
      p.event ∈ invalid ∧ p.event.authentic rt secret = false := by
  have hmem : p.event ∈ base ++ duplicates ++ invalid ++ stale :=
    hsent.posted.subset (List.mem_map_of_mem hp)
  rcases List.mem_append.mp hmem with hmem | hmem
  · rcases List.mem_append.mp hmem with hmem | hmem
    · have hmem' := List.mem_append_left stale hmem
      exact .inl ⟨hmem', hsent.admitted _ hmem'⟩
    · exact .inr ⟨hmem, hsent.refused _ hmem⟩
  · have hmem' := List.mem_append_right (base ++ duplicates) hmem
    exact .inl ⟨hmem', hsent.admitted _ hmem'⟩

/-- As many webhooks are admitted as are to be stored. -/
theorem Sent.length_admitted :
    (admittedRequests rt secret postings).length = base.length + duplicates.length + stale.length := by
  have hall : ∀ l : List GeneratedEvent, (∀ e ∈ l, e ∈ base ++ duplicates ++ stale) →
      l.countP (GeneratedEvent.admitted rt secret) = l.length := fun l hl =>
    List.countP_eq_length.mpr fun e he => hsent.admitted e (hl e he)
  have hnone : invalid.countP (GeneratedEvent.admitted rt secret) = 0 := by
    refine List.countP_eq_zero.mpr fun e he hadmitted => ?_
    have hauth := (GeneratedEvent.authentic_of_admitted hadmitted).1
    rw [hsent.refused e he] at hauth
    cases hauth
  rw [admittedRequests, List.length_map, ← List.countP_eq_length_filter,
    hsent.countP (GeneratedEvent.admitted rt secret), hnone, hall base fun e he => by simp [he],
    hall duplicates fun e he => by simp [he], hall stale fun e he => by simp [he]]
  omega

/-- The webhooks that are refused are the forged ones. -/
theorem Sent.count_unauthorized :
    (postings.map (Posting.response rt secret w)).count (some .unauthorized) = invalid.length := by
  have hall : ∀ l : List GeneratedEvent, (∀ e ∈ l, e ∈ base ++ duplicates ++ stale) →
      l.countP (fun e => !e.authentic rt secret) = 0 := by
    refine fun l hl => List.countP_eq_zero.mpr fun e he => ?_
    rw [(GeneratedEvent.authentic_of_admitted (hsent.admitted e (hl e he))).1]
    simp
  have hinvalid : invalid.countP (fun e => !e.authentic rt secret) = invalid.length := by
    refine List.countP_eq_length.mpr fun e he => ?_
    rw [hsent.refused e he]
    rfl
  have hcount : (postings.map (Posting.response rt secret w)).count (some .unauthorized) =
      postings.countP fun p => !p.event.authentic rt secret := by
    rw [List.count, List.countP_map]
    refine List.countP_congr fun p _ => ?_
    cases hauth : p.event.authentic rt secret
    · simp [Posting.response, hauth]
    · cases haccepts : PaymentWebhookDto.accepts p.event.payload <;> simp [Posting.response, hauth, haccepts]
  rw [hcount, hsent.countP fun e => !e.authentic rt secret, hinvalid, hall base fun e he => by simp [he],
    hall duplicates fun e he => by simp [he], hall stale fun e he => by simp [he]]
  omega

/-- No webhook is malformed. -/
theorem Sent.count_badRequest :
    (postings.map (Posting.response rt secret w)).count (some .badRequest) = 0 := by
  refine List.count_eq_zero.mpr fun hmem => ?_
  obtain ⟨p, hp, hresponse⟩ := List.mem_map.mp hmem
  rcases hsent.admitted_or hp with ⟨-, hadmitted⟩ | ⟨-, hrefused⟩
  · obtain ⟨hauth, haccepts⟩ := GeneratedEvent.authentic_of_admitted hadmitted
    simp [Posting.response, hauth, haccepts] at hresponse
  · simp [Posting.response, hrefused] at hresponse

omit hsent in
/-- The other answers are those to the requests. -/
theorem count_accepted (x : DeliveryResult) :
    (postings.map (Posting.response rt secret w)).count (some (.accepted x)) =
      ((admittedRequests rt secret postings).map fun p => answerOf w p.1).count (some x) := by
  rw [admittedRequests, List.map_map, List.count, List.countP_map, List.count, List.countP_map,
    List.countP_filter]
  refine List.countP_congr fun p _ => ?_
  cases hauth : p.event.authentic rt secret
  · simp [Posting.response, GeneratedEvent.admitted, hauth]
  · cases haccepts : PaymentWebhookDto.accepts p.event.payload <;>
      simp [Posting.response, GeneratedEvent.admitted, hauth, haccepts]

end Counting

section Run

variable (hs : Simulation cfg rt opts w postings) (ht : Traffic rt opts base duplicates invalid stale)
  (hsent : Sent rt opts.secret postings base duplicates invalid stale)

include hs in
/-- **A run of the simulator is a feed**: of the requests that have been admitted. -/
theorem Simulation.feed : Feed w (admittedRequests rt opts.secret postings) where
  sessions := by
    rw [admittedRequests, List.map_map]
    exact hs.sessions
  called := by
    intro q hq
    obtain ⟨p, hp, hadmitted, rfl⟩ := mem_admittedRequests.mp hq
    exact hs.called p hp hadmitted
  answered := by
    intro q hq
    obtain ⟨p, hp, hadmitted, rfl⟩ := mem_admittedRequests.mp hq
    obtain ⟨hauth, haccepts⟩ := GeneratedEvent.authentic_of_admitted hadmitted
    have hanswered := hs.answered p hp
    simpa [Posting.response, hauth, haccepts] using hanswered
  only := by
    intro i c hcalled
    rcases hs.only i c hcalled with ⟨p, hp, hadmitted, rfl, rfl⟩ | hworker
    · exact .inl ⟨_, rfl, mem_admittedRequests.mpr ⟨p, hp, hadmitted, rfl⟩⟩
    · exact .inr hworker

include ht hsent

/-- What a request repeats: its source is outdated exactly if it comes too late. -/
theorem Sent.source {q : ℕ × WebhookRequest} (hq : q ∈ admittedRequests rt opts.secret postings) :
    ∃ src ∈ base ++ stale, q.2.rawBody = ⟨src.rawBody, src.payload⟩ ∧ (q.2.late = true ↔ src ∈ stale) := by
  obtain ⟨p, hp, hadmitted, rfl⟩ := mem_admittedRequests.mp hq
  have hmem : p.event ∈ base ++ duplicates ++ stale := by
    rcases hsent.admitted_or hp with ⟨hmem, -⟩ | ⟨-, hrefused⟩
    · exact hmem
    · rw [(GeneratedEvent.authentic_of_admitted hadmitted).1] at hrefused
      cases hrefused
  obtain ⟨src, hsrc, -, -, hpayload, hbody, -⟩ := ht.source hmem
  refine ⟨src, hsrc, by rw [Posting.request, hbody, hpayload], ?_, fun hstale =>
    hsent.tooLate p hp src hstale hpayload⟩
  intro hlate
  refine (List.mem_append.mp hsrc).resolve_left fun hbase => ?_
  rw [hsent.inTime p hp src hbase hpayload] at hlate
  cases hlate

omit ht in
/-- Each webhook that is to be stored is requested. -/
theorem Sent.requested {src : GeneratedEvent} (hsrc : src ∈ base ++ stale) :
    ∃ q ∈ admittedRequests rt opts.secret postings, q.2.rawBody = ⟨src.rawBody, src.payload⟩ := by
  have hmem : src ∈ base ++ duplicates ++ invalid ++ stale := by
    rcases List.mem_append.mp hsrc with hsrc | hsrc <;> simp [hsrc]
  have hadmitted : src.admitted rt opts.secret = true := by
    refine hsent.admitted src ?_
    rcases List.mem_append.mp hsrc with hsrc | hsrc <;> simp [hsrc]
  obtain ⟨p, hp, rfl⟩ := List.mem_map.mp (hsent.posted.symm.subset hmem)
  exact ⟨_, mem_admittedRequests.mpr ⟨p, hp, hadmitted, rfl⟩, rfl⟩

/-- **The kinds of the requests**: those for the webhooks of `base` come in time, and those for the outdated
webhooks do not. -/
theorem Sent.kinds : Kinds (admittedRequests rt opts.secret postings) (base.map GeneratedEvent.eventId)
    (stale.map GeneratedEvent.eventId) where
  nodup := by
    rw [← List.map_append]
    exact ht.eventIds
  covered := by
    intro id
    rw [← List.map_append, List.mem_map]
    constructor
    · rintro ⟨src, hsrc, rfl⟩
      obtain ⟨q, hq, hbody⟩ := hsent.requested hsrc
      exact ⟨q, hq, by rw [hbody]; exact (ht.sound src hsrc).1.eventId⟩
    · rintro ⟨q, hq, rfl⟩
      obtain ⟨src, hsrc, hbody, -⟩ := hsent.source ht hq
      exact ⟨src, hsrc, by rw [hbody]; exact (ht.sound src hsrc).1.eventId.symm⟩
  late_iff := by
    intro q hq
    obtain ⟨src, hsrc, hbody, hlate⟩ := hsent.source ht hq
    rw [hlate, hbody, (ht.sound src hsrc).1.eventId, List.mem_map]
    constructor
    · exact fun hstale => ⟨src, hstale, rfl⟩
    · rintro ⟨src', hstale, hid⟩
      rwa [← ht.eq_of_eventId (List.mem_append_right _ hstale) hsrc hid]
  same := by
    intro q hq q' hq' hid
    obtain ⟨src, hsrc, hbody, -⟩ := hsent.source ht hq
    obtain ⟨src', hsrc', hbody', -⟩ := hsent.source ht hq'
    rw [hbody, hbody'] at hid ⊢
    have hids : src.eventId = src'.eventId :=
      (ht.sound src hsrc).1.eventId.symm.trans (hid.trans (ht.sound src' hsrc').1.eventId)
    rw [ht.eq_of_eventId hsrc hsrc' hids]

include hs

/-- **The inbox after a run** holds what was sent. -/
theorem Simulation.inbox : Inbox w base stale where
  known := by
    intro e he
    obtain ⟨q, hq, hpayload, hreceived⟩ := (hs.feed.events hs.reach).1 e he
    obtain ⟨src, hsrc, hbody, hlate⟩ := hsent.source ht hq
    have hsame : e.payload = src.payload := by rw [hpayload, hbody]
    refine ⟨src, hsrc, hsame, ?_⟩
    have hfinished := hs.reach.finished_iff hs.failures hs.drained e he
    rw [hpayload, hreceived] at hfinished
    -- a webhook is in only one of the lists
    have hdisjoint : src ∈ base ↔ src ∉ stale := by
      have hnodup := List.Nodup.of_map _ ht.eventIds
      refine ⟨fun hbase hstale => (List.nodup_append.mp hnodup).2.2 src hbase src hstale rfl, fun hnot => ?_⟩
      exact (List.mem_append.mp hsrc).resolve_right hnot
    rw [hfinished, hdisjoint, ← hlate, Bool.not_eq_true]
    rfl
  stored := by
    intro src hsrc
    obtain ⟨q, hq, hbody⟩ := hsent.requested hsrc
    obtain ⟨e, he, hid⟩ := (hs.feed.events hs.reach).2 q hq
    obtain ⟨q', hq', hpayload, -⟩ := (hs.feed.events hs.reach).1 e he
    obtain ⟨src', hsrc', hbody', -⟩ := hsent.source ht hq'
    refine ⟨e, he, ?_⟩
    have hid' : e.eventId = src'.eventId := by
      rw [(hs.reach.columns_eq e he).1, hpayload, hbody']
      exact (ht.sound src' hsrc').1.eventId
    rw [hbody, (ht.sound src hsrc).1.eventId] at hid
    rw [hpayload, hbody', ht.eq_of_eventId hsrc' hsrc (hid'.symm.trans hid)]
  details := hs.feed.details_eq_nil hs.reach

/-- **The answers of a run.** -/
theorem Simulation.count_answers : let responses := postings.map (Posting.response rt opts.secret w)
    responses.count (some (.accepted .created)) = base.length ∧
      responses.count (some (.accepted .duplicate)) = duplicates.length ∧
      responses.count (some (.accepted .ignored)) = stale.length ∧
      responses.count (some (.accepted .rejected)) = 0 ∧
      responses.count (some .unauthorized) = invalid.length ∧ responses.count (some .badRequest) = 0 := by
  intro responses
  obtain ⟨hcreated, hignored, hrejected, htotal⟩ := hs.feed.count_answers hs.reach (hsent.kinds ht)
  have hlength := hsent.length_admitted
  simp only [← count_accepted, List.length_map] at hcreated hignored hrejected htotal
  refine ⟨hcreated, ?_, hignored, hrejected, hsent.count_unauthorized, hsent.count_badRequest⟩
  show List.count _ (postings.map (Posting.response rt opts.secret w)) = _
  omega

end Run

end Sent

end PaymentWebhook
