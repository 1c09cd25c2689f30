import PaymentWebhook.Attempts
import PaymentWebhook.OrderReads

set_option relaxedAutoImplicit false
set_option autoImplicit false

/-!
# Metrics

`GET /metrics` declares three of its values as counters: whoever scrapes them takes a lower value for a restart of the
service.  They are computed from the tables, some rows of which are rewritten all the time.

## Main results

* `PaymentWebhook.Store.Becomes.outOfOrder_le` — the events that were out of order stay so.
* `PaymentWebhook.Reach.received` — what the deliveries have come to.
* `PaymentWebhook.metrics_counters` — the counters count.
-/

namespace PaymentWebhook

open Transactions

/-- **The events that were out of order stay so**, if only events that are finished with are. -/
theorem Store.Becomes.outOfOrder_le {s s' : Store} (h : s.Becomes s') (hs : s.Keyed)
    (hfinal : ∀ e ∈ s.events, e.outcomeReason = some .staleSequence → e.processingStatus = .ignored) :
    (s.events.countP fun e => e.outcomeReason = some .staleSequence) ≤
      s'.events.countP fun e => e.outcomeReason = some .staleSequence := by
  rw [List.countP_eq_length_filter, List.countP_eq_length_filter, ← List.length_map EventRow.id,
    ← List.length_map EventRow.id]
  refine (List.subperm_of_subset (hs.nodup_ids.sublist (List.filter_sublist.map _)) fun id hid => ?_).length_le
  obtain ⟨e, he, rfl⟩ := List.mem_map.mp hid
  obtain ⟨hmem, hreason⟩ := List.mem_filter.mp he
  replace hreason := of_decide_eq_true hreason
  obtain ⟨e', he', hcont⟩ := h.events e hmem
  have hsame := (hcont.final (.inr (hfinal e hmem hreason))).2
  refine List.mem_map.mpr ⟨e', List.mem_filter.mpr ⟨he', decide_eq_true (hsame.trans hreason)⟩, ?_⟩
  exact (congrArg EventRow.id hcont.origin :)

/-- A later delivery of an event is a duplicate or is rejected. -/
theorem deliveryResult_again {n : ℕ} (hn : 1 ≤ n) (isStale : Bool) (storedHash hash : String) :
    deliveryResult (n + 1) isStale storedHash hash = .duplicate ∨
      deliveryResult (n + 1) isStale storedHash hash = .rejected := by
  unfold deliveryResult
  rw [if_neg (by omega), if_neg (by omega)]
  split_ifs
  · exact .inl rfl
  · exact .inr rfl

/-- An event that is out of order is finished with. -/
theorem EventRow.Consistent.ignored_of_stale {maxAttempts : ℕ} {e : EventRow} (h : e.Consistent maxAttempts)
    (hreason : e.outcomeReason = some .staleSequence) : e.processingStatus = .ignored := by
  unfold EventRow.Consistent at h
  cases hstatus : e.processingStatus <;> simp_all

/-- **What the deliveries have come to**: one for each event, duplicates, and rejected ones. -/
def Store.Received (s : Store) : Prop :=
  s.deliveries.length = s.events.length + (s.deliveries.countP fun r => r.result = .duplicate) +
    s.deliveries.countP fun r => r.result = .rejected

/-- Replacing an event leaves as many. -/
theorem Store.length_putEvent (s : Store) (e : EventRow) : (s.putEvent e).events.length = s.events.length := by
  simp [Store.putEvent, Tables.replace]

variable [Platform] {cfg : WorkerConfig} {w w' : State}

/-- Every change counts the deliveries. -/
theorem Change.received {s s' : Store} {c : Call} {log : Log} {x : Option Answer} (hc : Change cfg c log x s s')
    (hfirst : ∀ e ∈ s.events, 1 ≤ e.deliveryCount) (hP : s.Received) : s'.Received := by
  have hkept : s'.deliveries = s.deliveries → s'.events.length = s.events.length → s'.Received := by
    intro hdeliveries hevents
    rw [Store.Received, hdeliveries, hevents]
    exact hP
  by_cases hreconcile : ∃ snapshot, c = .reconcile snapshot
  · obtain ⟨snapshot, rfl⟩ := hreconcile
    obtain ⟨r, hspec⟩ := hc.exists_run
    exact hkept hspec.deliveries (by rw [hspec.events])
  · unfold Store.Received at hP
    cases hc with
    | @created _ req d _ row _ _ _ hrow =>
      have hresult : row.deliveryResult ≠ .duplicate ∧ row.deliveryResult ≠ .rejected := by
        rw [hrow]
        split_ifs <;> exact ⟨by decide, by decide⟩
      simp only [Store.Received, List.length_append, List.countP_append, List.countP_singleton,
        DeliveryBaseParams.row, hresult.1, hresult.2, decide_false, List.length_singleton, hP]
      simp only [Bool.false_eq_true, if_false]
      omega
    | @counted _ req d _ row old hold _ hrow =>
      have hresult := deliveryResult_again (hfirst old (Store.mem_of_event? hold).1)
        (req.event.processingStatus = .ignored) old.payloadHash req.event.payloadHash
      rw [← hrow] at hresult
      simp only [Store.Received, List.length_append, List.countP_append, List.countP_singleton,
        DeliveryBaseParams.row, Store.length_putEvent, List.length_singleton, hP]
      rcases hresult with hresult | hresult
      · simp only [hresult, decide_true, if_true]
        simp
        omega
      · simp only [hresult, decide_true, if_true]
        simp
        omega
    | reconciled => exact absurd ⟨_, rfl⟩ hreconcile
    | _ => exact hkept rfl (by simp [Store.length_putEvent])

/-- The deliveries of every reachable state are counted. -/
theorem Reach.received (h : Reach cfg .empty w) : Store.Received w.db := by
  obtain ⟨env₀, hstart⟩ := h
  have hstep : ∀ (since : List (ℕ × Log)) (w₁ w₂ : State) i c log x, Reach cfg .empty w₁ → Reach cfg .empty w₂ →
      Called w i c → Store.Received w₁.db → Change cfg c log x w₁.db w₂.db → Store.Received w₂.db := by
    intro since w₁ w₂ i c log x h₁ _ _ hP hc
    refine hc.received (fun e he => ?_) hP
    obtain ⟨first, rest, -, haccount⟩ := h₁.accounted.known e he
    rw [haccount.count]
    exact Nat.succ_pos _
  obtain ⟨-, -, hall⟩ := Reach.since_induction (P := fun _ s => Store.Received s) Store.keyed_empty ⟨env₀, .refl⟩
    hstart rfl hstep
  exact hall

/-- **The counters count.**  A value that is declared as a counter never goes down; what has been received is one
delivery for each event, the duplicates and the rejected deliveries; and no event is both in the queue and out of
order. -/
theorem metrics_counters (h : Reach cfg .empty w) (hrun : Reachable (program cfg) w w') :
    let m := MetricsRepository.getMetrics.on w.db
    let m' := MetricsRepository.getMetrics.on w'.db
    m.webhookEventsReceivedTotal ≤ m'.webhookEventsReceivedTotal ∧
      m.webhookDuplicateEventsTotal ≤ m'.webhookDuplicateEventsTotal ∧
      m.webhookOutOfOrderEventsTotal ≤ m'.webhookOutOfOrderEventsTotal ∧
      m.webhookEventsReceivedTotal = w.db.events.length + m.webhookDuplicateEventsTotal +
        (w.db.deliveries.countP fun r => r.result = .rejected) ∧
      m.webhookDlqSize + m.webhookOutOfOrderEventsTotal ≤ w.db.events.length := by
  have hbecomes := h.becomes hrun
  have hfinal : ∀ e ∈ w.db.events, e.outcomeReason = some .staleSequence → e.processingStatus = .ignored :=
    fun e he => (h.consistent e he).ignored_of_stale
  refine ⟨hbecomes.deliveries.length_le, hbecomes.deliveries.sublist.countP_le,
    hbecomes.outOfOrder_le (h.coherent Store.keyed_empty).inv hfinal, h.received, ?_⟩
  have hsplit := w.db.events.length_eq_countP_add_countP fun e => decide (e.processingStatus = .dlq)
  have hapart : (w.db.events.countP fun e => decide (e.outcomeReason = some .staleSequence)) ≤
      w.db.events.countP fun e => decide ¬ decide (e.processingStatus = .dlq) = true := by
    refine List.countP_mono_left fun e he hreason => ?_
    simp [hfinal e he (of_decide_eq_true hreason)]
  exact (Nat.add_le_add_left hapart _).trans hsplit.ge

omit [Platform] in
/-- In the sample, a second webhook is received. -/
theorem metrics_counters_sample : letI := samplePlatform
    ∃ w w' : State, Reach .default .empty w ∧
      (MetricsRepository.getMetrics.on w.db).webhookEventsReceivedTotal = 1 ∧
      (MetricsRepository.getMetrics.on w'.db).webhookEventsReceivedTotal = 2 ∧
      (MetricsRepository.getMetrics.on w.db).webhookDuplicateEventsTotal ≤
        (MetricsRepository.getMetrics.on w'.db).webhookDuplicateEventsTotal := by
  let _ := samplePlatform
  obtain ⟨w₁, e, r, hcont, hawaits, hdb, -⟩ := (Resting.start .default ⟨sampleTime, 0, 0, 0, 0, 0⟩).ingest
    authorizedBody_storable authorizedBody_recent rfl
  have hnew : Store.event? w₁.db capturedBody.json.eventId = none := by
    refine Store.event?_eq_none.mpr fun x hx => ?_
    rw [hdb] at hx
    obtain rfl : x = e := by simpa [World.start, Store.empty] using hx
    rw [hawaits.eventId]
    decide
  have hrecent : capturedBody.Recent w₁.env.clock := by
    rw [hcont.clock]
    rfl
  obtain ⟨w₂, e', r', hcont', -, hdb', -⟩ := hcont.rest.ingest capturedBody_storable hrecent hnew
  have hcounters := metrics_counters hcont.rest.reach hcont'.run.reachable
  refine ⟨w₁, w₂, hcont.rest.reach, ?_, ?_, hcounters.2.1⟩
  · show w₁.db.deliveries.length = 1
    rw [hdb]
    rfl
  · show w₂.db.deliveries.length = 2
    rw [hdb', hdb]
    rfl

end PaymentWebhook
