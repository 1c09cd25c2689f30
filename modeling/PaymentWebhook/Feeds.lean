import PaymentWebhook.Deliveries
import PaymentWebhook.RetryCycle
import PaymentWebhook.Trail

set_option relaxedAutoImplicit false
set_option autoImplicit false

/-!
# Feeds

Runs in which the only calls are a given list of webhook requests, all of them answered, and turns of
workers.  The deliveries that the journal has are the requests, whatever their order and whatever the
workers have done in between; so the answers can be counted, and the inbox is what was sent.

## Main definitions

* `PaymentWebhook.Feed` — the requests of a run have been answered, and there were no others.
* `PaymentWebhook.Kinds` — which requests come in time and which do not.

## Main results

* `PaymentWebhook.Feed.answers_perm` — the answers are the results of the deliveries.
* `PaymentWebhook.Feed.count_answers` — how many answers of each kind there are.
* `PaymentWebhook.Reach.stale_iff` — which events came too late.
* `PaymentWebhook.Feed.settled` — where the events end if nothing fails.
-/

namespace PaymentWebhook

open Transactions

variable [Platform] {cfg : WorkerConfig} {w : State}

/-! ## The deliveries of a feed -/

/-- What a session has answered to its webhook request. -/
def answerOf (w : State) (i : ℕ) : Option DeliveryResult :=
  match w.sessions i with
  | some ⟨_, .done (.ingested r), _⟩ => some r.result
  | _ => none

/-- **The requests of a run have been answered**, each by a session of its own, and there were no others:
the other calls are turns of workers. -/
structure Feed (w : State) (requests : List (ℕ × WebhookRequest)) : Prop where
  sessions : (requests.map Prod.fst).Nodup
  called : ∀ p ∈ requests, Called w p.1 (.ingest p.2)
  answered : ∀ p ∈ requests, (answerOf w p.1).isSome
  only : ∀ i c, Called w i c → (∃ req, c = .ingest req ∧ (i, req) ∈ requests) ∨ ∃ input, c = .processOne input

/-- The deliveries of a journal, with their sessions. -/
def deliveriesBy (journal : List (ℕ × Log)) : List (ℕ × Receipt) :=
  journal.filterMap fun c => (receipt? c.2).map fun r => (c.1, r)

theorem map_snd_deliveriesBy (journal : List (ℕ × Log)) :
    (deliveriesBy journal).map Prod.snd = receipts journal := by
  rw [deliveriesBy, receipts, List.map_filterMap]
  congr 1
  funext c
  cases receipt? c.2 <;> rfl

/-- A delivery has been committed by a webhook request. -/
theorem CommitLog.ingest_of_receipt {c : Call} {log : Log} {x : Option Answer} {r : Receipt}
    (h : CommitLog cfg c log x) (hr : receipt? log = some r) : ∃ req, c = .ingest req := by
  cases h with
  | @ingest req _ _ h => exact ⟨req, rfl⟩
  | processOne h => cases h <;> simp [receipt?] at hr
  | replay h => cases h <;> simp [receipt?] at hr
  | reconcile h =>
    cases h
    simp [receipt?] at hr

section Feed

variable {requests : List (ℕ × WebhookRequest)} (h : Reach cfg .empty w)

include h

/-- A session commits at most once. -/
theorem Reach.nodup_journal : (w.journal.map Prod.fst).Nodup := by
  have hone : ∀ i, (w.commitsOf i).length ≤ 1 := by
    intro i
    have hcoherent := h.coherent Store.keyed_empty
    cases hs : w.sessions i with
    | none => simp [hcoherent.idle i hs]
    | some s =>
      rcases h.settled Store.keyed_empty hs with hnil | ⟨log, x, hlog, -⟩
      · simp [hnil]
      · simp [hlog]
  refine List.nodup_iff_count_le_one.mpr fun i => ?_
  calc (w.journal.map Prod.fst).count i = (w.commitsOf i).length := by
        rw [World.commitsOf, List.length_map, List.count, List.countP_map, List.countP_eq_length_filter]
        congr 2
    _ ≤ 1 := hone i

/-- A session commits at most one delivery. -/
theorem Reach.nodup_deliveriesBy : ((deliveriesBy w.journal).map Prod.fst).Nodup := by
  have hsub : ((deliveriesBy w.journal).map Prod.fst).Sublist (w.journal.map Prod.fst) := by
    rw [deliveriesBy]
    generalize w.journal = journal
    induction journal with
    | nil => exact .slnil
    | cons c journal ih =>
      rw [List.filterMap_cons]
      cases receipt? c.2 with
      | none => exact ih.cons c.1
      | some r => exact ih.cons_cons c.1
  exact hsub.nodup h.nodup_journal

/-- The delivery of an answered request: what it says, and what the answer was. -/
theorem Feed.delivery (hf : Feed w requests) {p : ℕ × WebhookRequest} (hp : p ∈ requests) :
    ∃ r, (p.1, r) ∈ deliveriesBy w.journal ∧ r.event = p.2.event ∧
      answerOf w p.1 = some r.row.deliveryResult := by
  obtain ⟨s, hs, hcall⟩ := hf.called p hp
  have hanswered := hf.answered p hp
  simp only [answerOf, hs] at hanswered ⊢
  split at hanswered
  next hsession =>
    obtain rfl := Option.some.inj hsession
    obtain ⟨r, ⟨hevent, -, ⟨log, hc, hlog⟩, -⟩, ha⟩ := h.ingest_answered hs hcall rfl
    refine ⟨r, List.mem_filterMap.mpr ⟨_, mem_journal_of_commitsOf hc, by simp [hlog]⟩, hevent, ?_⟩
    simp only [Answer.ingested.injEq] at ha
    rw [ha]
  next => cases hanswered

/-- A delivery is that of one of the requests. -/
theorem Feed.request (hf : Feed w requests) {i : ℕ} {r : Receipt} (hr : (i, r) ∈ deliveriesBy w.journal) :
    ∃ req, (i, req) ∈ requests ∧ r.event = req.event ∧ answerOf w i = some r.row.deliveryResult := by
  obtain ⟨⟨j, log⟩, hmem, hlog⟩ := List.mem_filterMap.mp hr
  obtain ⟨r', hr', heq⟩ := Option.map_eq_some_iff.mp hlog
  obtain ⟨rfl, rfl⟩ := Prod.mk.inj heq
  obtain ⟨c, x, hcalled, hcommit⟩ := h.journal_call Store.keyed_empty hmem
  obtain ⟨req, rfl⟩ := hcommit.ingest_of_receipt hr'
  rcases hf.only j _ hcalled with ⟨req', hreq, hp⟩ | ⟨input, hinput⟩
  · obtain rfl : req = req' := by injection hreq
    obtain ⟨r, hr₂, hevent, hanswer⟩ := hf.delivery h hp
    obtain rfl : r' = r := by
      have hnodup := h.nodup_deliveriesBy
      have hinj := List.inj_on_of_nodup_map hnodup hr hr₂ rfl
      exact congrArg Prod.snd hinj
    exact ⟨req, hp, hevent, hanswer⟩
  · cases hinput

/-- **The answers are the results of the deliveries**, in another order. -/
theorem Feed.answers_perm (hf : Feed w requests) :
    (requests.map fun p => answerOf w p.1).Perm
      ((receipts w.journal).map fun r => some r.row.deliveryResult) := by
  have hperm : (requests.map Prod.fst).Perm ((deliveriesBy w.journal).map Prod.fst) := by
    refine (List.perm_ext_iff_of_nodup hf.sessions h.nodup_deliveriesBy).mpr fun i => ?_
    constructor
    · intro hi
      obtain ⟨p, hp, rfl⟩ := List.mem_map.mp hi
      obtain ⟨r, hr, -⟩ := hf.delivery h hp
      exact List.mem_map.mpr ⟨_, hr, rfl⟩
    · intro hi
      obtain ⟨⟨i, r⟩, hr, rfl⟩ := List.mem_map.mp hi
      obtain ⟨req, hp, -⟩ := hf.request h hr
      exact List.mem_map.mpr ⟨_, hp, rfl⟩
  have hresults : (deliveriesBy w.journal).map (fun p => answerOf w p.1) =
      (receipts w.journal).map fun r => some r.row.deliveryResult := by
    rw [← map_snd_deliveriesBy, List.map_map]
    refine List.map_congr_left fun p hp => ?_
    obtain ⟨req, -, -, hanswer⟩ := hf.request h hp
    exact hanswer
  rw [← hresults]
  simpa [List.map_map, Function.comp_def] using hperm.map (answerOf w)

/-- The deliveries say what the requests say. -/
theorem Feed.mem_receipts (hf : Feed w requests) :
    (∀ r ∈ receipts w.journal, ∃ p ∈ requests, r.event = p.2.event) ∧
      ∀ p ∈ requests, ∃ r ∈ receipts w.journal, r.event = p.2.event := by
  rw [← map_snd_deliveriesBy]
  refine ⟨fun r hr => ?_, fun p hp => ?_⟩
  · obtain ⟨⟨i, r⟩, hmem, rfl⟩ := List.mem_map.mp hr
    obtain ⟨req, hp, hevent, -⟩ := hf.request h hmem
    exact ⟨_, hp, hevent⟩
  · obtain ⟨r, hr, hevent, -⟩ := hf.delivery h hp
    exact ⟨r, List.mem_map.mpr ⟨_, hr, rfl⟩, hevent⟩

end Feed

/-! ## Counting the answers -/

/-- The request is for an event that is too old. -/
def WebhookRequest.late (req : WebhookRequest) : Bool :=
  isStaleEvent (Platform.dateParse req.rawBody.json.occurredAt) req.receivedAt

/-- **Which requests come in time**: those for the events `fresh` do, and those for the events `stale` do
not; the requests for one event have one body. -/
structure Kinds (requests : List (ℕ × WebhookRequest)) (fresh stale : List String) : Prop where
  nodup : (fresh ++ stale).Nodup
  covered : ∀ id, id ∈ fresh ++ stale ↔ ∃ p ∈ requests, p.2.rawBody.json.eventId = id
  late_iff : ∀ p ∈ requests, p.2.late = true ↔ p.2.rawBody.json.eventId ∈ stale
  same : ∀ p ∈ requests, ∀ q ∈ requests, p.2.rawBody.json.eventId = q.2.rawBody.json.eventId →
    p.2.rawBody = q.2.rawBody

/-- What an event starts as. -/
theorem WebhookRequest.event_ignored_iff (req : WebhookRequest) :
    req.event.processingStatus = .ignored ↔ req.late = true := by
  unfold WebhookRequest.late WebhookRequest.event
  cases isStaleEvent (Platform.dateParse req.rawBody.json.occurredAt) req.receivedAt <;> simp

omit [Platform] in
/-- A result that some events have once, and the others never. -/
theorem count_results {receipts : List Receipt} {ids : List String} {x : DeliveryResult} (hids : ids.Nodup)
    (hone : ∀ id, ((receipts.filter (·.event.eventId = id)).map fun r => r.row.deliveryResult).count x =
      if id ∈ ids then 1 else 0) :
    (receipts.map fun r => r.row.deliveryResult).count x = ids.length := by
  have hperm : ((receipts.filter (·.row.deliveryResult = x)).map (·.event.eventId)).Perm ids := by
    refine List.perm_iff_count.mpr fun id => ?_
    rw [hids.count, ← hone id]
    simp only [List.count, List.countP_map, List.countP_filter]
    refine List.countP_congr fun r _ => ?_
    simp [and_comm]
  rw [← hperm.length_eq, List.length_map, List.count, List.countP_map, List.countP_eq_length_filter]
  congr 2

omit [Platform] in
/-- Every delivery has one of the four results. -/
theorem count_deliveryResult (results : List DeliveryResult) : results.count .created +
    results.count .duplicate + results.count .ignored + results.count .rejected = results.length := by
  induction results with
  | nil => rfl
  | cons x results ih =>
    simp only [List.count_cons, List.length_cons]
    cases x <;> simp <;> omega

section Counts

variable {requests : List (ℕ × WebhookRequest)} {fresh stale : List String} (h : Reach cfg .empty w)
  (hf : Feed w requests) (hk : Kinds requests fresh stale)

include h hf hk

/-- **The results for one event**: the first delivery is accepted or ignored, and all others are
duplicates. -/
theorem Feed.results {id : String} (hid : id ∈ fresh ++ stale) :
    ∃ n, (receiptsOf id w.journal).map (fun r => r.row.deliveryResult) =
      (if id ∈ stale then .ignored else .created) :: List.replicate n .duplicate := by
  have hacc := h.accounted
  obtain ⟨hreceipts, hrequests⟩ := hf.mem_receipts h
  have hof : ∀ r ∈ receiptsOf id w.journal, ∃ p ∈ requests, r.event = p.2.event ∧
      p.2.rawBody.json.eventId = id := by
    intro r hr
    obtain ⟨hmem, hrid⟩ := List.mem_filter.mp hr
    obtain ⟨p, hp, hevent⟩ := hreceipts r hmem
    refine ⟨p, hp, hevent, ?_⟩
    have heid : r.event.eventId = id := by simpa using hrid
    rw [← heid, hevent]
    rfl
  obtain ⟨e, he⟩ : ∃ e, w.db.event? id = some e := by
    by_contra hnone
    rw [not_exists, ← Option.eq_none_iff_forall_ne_some] at hnone
    obtain ⟨p, hp, hpid⟩ := (hk.covered id).mp hid
    obtain ⟨r, hr, hevent⟩ := hrequests p hp
    have hmem : r ∈ receiptsOf id w.journal := by
      refine List.mem_filter.mpr ⟨hr, decide_eq_true ?_⟩
      rw [hevent]
      exact hpid
    rw [hacc.unknown id hnone] at hmem
    cases hmem
  obtain ⟨hmem, heid⟩ := Store.mem_of_event? he
  obtain ⟨first, rest, hof', hdue⟩ := hacc.known e hmem
  rw [heid] at hof'
  obtain ⟨p, hp, hevent, hpid⟩ := hof first (by simp [hof'])
  obtain ⟨occurredAt, -, horigin⟩ := hdue.origin
  have hhash : e.payloadHash = Platform.sha256Hex p.2.rawBody.bytes := by
    rw [(EventRow.eq_of_origin_eq horigin).2.2.1, hevent]
    rfl
  have hfirst : first.row.deliveryResult = if id ∈ stale then .ignored else .created := by
    have hiff : first.event.processingStatus = .ignored ↔ id ∈ stale := by
      rw [hevent, p.2.event_ignored_iff, hk.late_iff p hp, hpid]
    rw [hdue.firstResult]
    exact if_congr hiff rfl rfl
  refine ⟨rest.length, ?_⟩
  rw [hof', List.map_cons, hfirst, List.cons.injEq]
  refine ⟨rfl, List.map_eq_replicate_iff.mpr fun r hr => ?_⟩
  obtain ⟨q, hq, hevent', hqid⟩ := hof r (by simp [hof', hr])
  rw [hdue.restResult r hr, if_pos]
  rw [hhash, hevent', hk.same p hp q hq (hpid.trans hqid.symm)]
  rfl

/-- An event is accepted or ignored at most once. -/
theorem Feed.count_one {x : DeliveryResult} (hx : x ≠ .duplicate) (id : String) :
    (((receipts w.journal).filter (·.event.eventId = id)).map fun r => r.row.deliveryResult).count x =
      if id ∈ fresh ∧ x = .created ∨ id ∈ stale ∧ x = .ignored then 1 else 0 := by
  by_cases hid : id ∈ fresh ++ stale
  · obtain ⟨n, hn⟩ := hf.results h hk hid
    have hdisjoint := (List.nodup_append.mp hk.nodup).2.2
    rw [receiptsOf] at hn
    rw [hn, List.count_cons, List.count_replicate]
    by_cases hstale : id ∈ stale
    · have hnot : id ∉ fresh := fun hfresh => hdisjoint id hfresh id hstale rfl
      cases x <;> simp [hstale, hnot] at hx ⊢
    · have hfresh : id ∈ fresh := (List.mem_append.mp hid).resolve_right hstale
      cases x <;> simp [hstale, hfresh] at hx ⊢
  · have hnil : (receipts w.journal).filter (·.event.eventId = id) = [] := by
      refine List.filter_eq_nil_iff.mpr fun r hr hrid => hid ?_
      obtain ⟨p, hp, hevent⟩ := (hf.mem_receipts h).1 r hr
      refine (hk.covered id).mpr ⟨p, hp, ?_⟩
      have heid : r.event.eventId = id := by simpa using hrid
      rw [← heid, hevent]
      rfl
    rw [List.mem_append, not_or] at hid
    rw [hnil]
    simp [hid.1, hid.2]

/-- **How many answers of each kind there are.** -/
theorem Feed.count_answers :
    let answers := requests.map fun p => answerOf w p.1
    answers.count (some .created) = fresh.length ∧ answers.count (some .ignored) = stale.length ∧
      answers.count (some .rejected) = 0 ∧
      answers.count (some .duplicate) + fresh.length + stale.length = requests.length := by
  intro answers
  have hresults : ∀ x, answers.count (some x) =
      ((receipts w.journal).map fun r => r.row.deliveryResult).count x := by
    intro x
    rw [(hf.answers_perm h).count_eq]
    simp only [List.count, List.countP_map]
    refine List.countP_congr fun r _ => ?_
    simp
  have hdisjoint := List.nodup_append.mp hk.nodup
  have hcreated : answers.count (some .created) = fresh.length := by
    rw [hresults]
    exact count_results hdisjoint.1 fun id => (hf.count_one h hk (by decide) id).trans (by simp)
  have hignored : answers.count (some .ignored) = stale.length := by
    rw [hresults]
    exact count_results hdisjoint.2.1 fun id => (hf.count_one h hk (by decide) id).trans (by simp)
  have hrejected : answers.count (some .rejected) = 0 := by
    rw [hresults]
    exact count_results List.nodup_nil fun id => (hf.count_one h hk (by decide) id).trans (by simp)
  have htotal := count_deliveryResult ((receipts w.journal).map fun r => r.row.deliveryResult)
  have hlength := (hf.answers_perm h).length_eq
  simp only [← hresults, List.length_map] at htotal hlength
  exact ⟨hcreated, hignored, hrejected, by omega⟩

end Counts

/-! ## The inbox of a feed -/

/-- **Which events came too late**: those that the ingestion has ignored, for good. -/
theorem Reach.stale_iff (h : Reach cfg .empty w) : ∀ e ∈ w.db.events,
    (e.processingStatus = .ignored ∧ e.outcomeReason = some .staleTimestamp) ↔
      isStaleEvent (Platform.dateParse e.payload.occurredAt) e.receivedAt = true := by
  refine h.events_induction (fun req id occurredAt => ?_) fun e e' he hm => ?_
  · refine Iff.trans ?_ req.event_ignored_iff
    rcases req.event_status with ⟨hst, -⟩ | ⟨hst, hreason, -⟩ <;> simp [EventInsertParams.row, *]
  · have horigin := hm.origin_eq
    have hpayload : e'.payload = e.payload := (congrArg EventRow.payload horigin :)
    have hreceived : e'.receivedAt = e.receivedAt := (congrArg EventRow.receivedAt horigin :)
    rw [hpayload, hreceived, ← he]
    have hnot : ∀ {now}, e.claimable now = true → e.processingStatus ≠ .ignored := by
      intro now hclaim hi
      simp [EventRow.claimable, hi] at hclaim
    cases hm with
    | counted => rfl
    | applied d hclaim => simp [EventRow.applied, hnot hclaim]
    | ignored d hclaim hreason =>
      rcases hreason with rfl | rfl <;> simp [EventRow.ignored, hnot hclaim]
    | retried error hclaim => simp [EventRow.retryScheduled, hnot hclaim]
    | buried error d hclaim => simp [EventRow.dlq, hnot hclaim]
    | replayed hdlq => simp [EventRow.replayed, hdlq]

/-- A transaction that is no failure buries no event. -/
theorem Change.not_dlq {c : Call} {log : Log} {x : Option Answer} {s s' : Store} (hs : s.Keyed)
    (hc : Change cfg c log x s s') (hfailed : failed log = false)
    (h : ∀ e ∈ s.events, e.processingStatus ≠ .dlq) : ∀ e ∈ s'.events, e.processingStatus ≠ .dlq := by
  have hput : ∀ {e₀ e₁ : EventRow}, e₀ ∈ s.events → e₀.keys = e₁.keys → e₁.processingStatus ≠ .dlq →
      ∀ e ∈ (s.putEvent e₁).events, e.processingStatus ≠ .dlq :=
    fun he₀ hkeys hst => Store.forall_putEvent hs he₀ hkeys hst fun e he _ => h e he
  cases hc with
  | @created _ req =>
    refine List.forall_mem_append.mpr ⟨h, List.forall_mem_singleton.mpr ?_⟩
    rcases req.event_status with ⟨hst, -⟩ | ⟨hst, -⟩ <;> simp [EventInsertParams.row, hst]
  | @counted _ _ _ _ _ old hold =>
    have hmem : old ∈ s.events := (Store.mem_of_event? hold).1
    exact hput hmem rfl (h old hmem)
  | applied hev => exact hput hev rfl (by simp [EventRow.applied])
  | ignored hev => exact hput hev rfl (by simp [EventRow.ignored])
  | retried hev => exact hput hev rfl (by simp [EventRow.retryScheduled])
  | buried => simp [failed] at hfailed
  | replayed hev hdlq => exact absurd hdlq (h _ hev)
  | reconciled hrun hturns =>
    show ∀ e ∈ Store.events _, _
    rw [hturns.inbox_eq.1]
    exact h
  | _ => exact h

section Inbox

variable {requests : List (ℕ × WebhookRequest)} (h : Reach cfg .empty w)

include h

/-- If nothing fails, no event is buried. -/
theorem Reach.not_dlq (hfails : ∀ c ∈ w.journal, failed c.2 = false) :
    ∀ e ∈ w.db.events, e.processingStatus ≠ .dlq := by
  refine h.changes_induction (P := fun journal s => (∀ c ∈ journal, failed c.2 = false) →
    ∀ e ∈ Store.events s, e.processingStatus ≠ .dlq) Store.keyed_empty (by simp [Store.empty])
    (fun journal s s' i c log x _ hs hP hc hfails => ?_) hfails
  obtain ⟨hbefore, hlast⟩ := List.forall_mem_append.mp hfails
  exact hc.not_dlq hs (hlast (i, log) (by simp)) (hP hbefore)

/-- Nothing has been reconciled. -/
theorem Feed.details_eq_nil (hf : Feed w requests) : w.db.details = [] := by
  refine h.changes_induction (P := fun _ s => Store.details s = []) Store.keyed_empty rfl
    fun journal s s' i c log x hcalled hs hP hc => ?_
  have hnot : ∀ snapshot, c ≠ .reconcile snapshot := by
    rintro snapshot rfl
    rcases hf.only i _ hcalled with ⟨req, hreq, -⟩ | ⟨input, hinput⟩
    · cases hreq
    · cases hinput
  cases hc with
  | reconciled => exact absurd rfl (hnot _)
  | _ => exact hP

/-- **Where the events end** if nothing fails and nothing waits: a worker has finished with those that came
in time, and with no other. -/
theorem Reach.finished_iff (hfails : ∀ c ∈ w.journal, failed c.2 = false)
    (hdrained : ∀ e ∈ w.db.events, e.processingStatus ≠ .pending ∧ e.processingStatus ≠ .retryScheduled) :
    ∀ e ∈ w.db.events, e.finished = true ↔
      isStaleEvent (Platform.dateParse e.payload.occurredAt) e.receivedAt = false := by
  intro e he
  obtain ⟨hpending, hretry⟩ := hdrained e he
  have hdlq := h.not_dlq hfails e he
  rw [← Bool.not_eq_true, ← h.stale_iff e he]
  cases hst : e.processingStatus <;> simp [EventRow.finished, hst] at hpending hretry hdlq ⊢

/-- **The inbox is what was sent**: each event is that of one of the requests, and each request has its
event. -/
theorem Feed.events (hf : Feed w requests) :
    (∀ e ∈ w.db.events, ∃ p ∈ requests, e.payload = p.2.rawBody.json ∧ e.receivedAt = p.2.receivedAt) ∧
      ∀ p ∈ requests, ∃ e ∈ w.db.events, e.eventId = p.2.rawBody.json.eventId := by
  have hacc := h.accounted
  obtain ⟨hreceipts, hrequests⟩ := hf.mem_receipts h
  constructor
  · intro e he
    obtain ⟨first, rest, hof, hdue⟩ := hacc.known e he
    have hfirst : first ∈ receiptsOf e.eventId w.journal := by simp [hof]
    obtain ⟨p, hp, hevent⟩ := hreceipts first (List.mem_filter.mp hfirst).1
    obtain ⟨occurredAt, -, horigin⟩ := hdue.origin
    rw [hevent] at horigin
    exact ⟨p, hp, (congrArg EventRow.payload horigin :), (congrArg EventRow.receivedAt horigin :)⟩
  · intro p hp
    obtain ⟨r, hr, hevent⟩ := hrequests p hp
    by_contra hnone
    have hmem : r ∈ receiptsOf p.2.rawBody.json.eventId w.journal := by
      refine List.mem_filter.mpr ⟨hr, decide_eq_true ?_⟩
      rw [hevent]
      rfl
    rw [hacc.unknown _ (Store.event?_eq_none.mpr fun e he hid => hnone ⟨e, he, hid⟩)] at hmem
    cases hmem

end Inbox

end PaymentWebhook
