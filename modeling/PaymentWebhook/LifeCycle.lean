import PaymentWebhook.Consumption

set_option relaxedAutoImplicit false
set_option autoImplicit false

/-!
# The life cycle of an event

Seven statements write to `webhook_events`, each to a different subset of its columns.  At the
granularity of transactions an event row is inserted once and then makes one of six moves at a time
(`EventMove`); what its columns say at each stage, and which stage follows which, is proved move
by move.

## Main definitions

* `PaymentWebhook.EventMove` — what a transaction does to an event row.
* `PaymentWebhook.InboxChange` — what a transaction does to the table.
* `PaymentWebhook.EventRow.Consistent` — what the columns say at each stage.
* `PaymentWebhook.ProcessingStatus.Next` — which status can follow which.

## Main results

* `PaymentWebhook.Change.inbox` — a change makes at most one move.
* `PaymentWebhook.Reach.events_induction` — induction over the moves of an event.
* `PaymentWebhook.inbox_row_life_cycle` — the life cycle.
-/

namespace PaymentWebhook

open Transactions

/-! ## The moves of an event row -/

/-- **What a transaction does to an event row.** -/
inductive EventMove (cfg : WorkerConfig) (e : EventRow) : EventRow → Prop where
  | counted (h : e.deliveryCount + 1 ≤ 2147483647) :
      EventMove cfg e { e with deliveryCount := e.deliveryCount + 1 }
  | applied {now : Timestamp} (d : Draws) (h : e.claimable now = true) :
      EventMove cfg e (e.applied d)
  | ignored {now : Timestamp} {reason : OutcomeReason} (d : Draws) (h : e.claimable now = true)
      (hreason : reason = .unknownEventType ∨ reason = .staleSequence) :
      EventMove cfg e (e.ignored (some reason) d)
  | retried {now retryAt nextAttemptAt : Timestamp} {random : ℚ} {attemptCount delayMs : ℕ}
      (error : String) (h : e.claimable now = true)
      (heval : RetryPolicy.evaluate cfg e.attemptCount retryAt random =
        .retry attemptCount delayMs nextAttemptAt) :
      EventMove cfg e (e.retryScheduled attemptCount nextAttemptAt error)
  | buried {now retryAt : Timestamp} {random : ℚ} {attemptCount : ℕ} (error : String) (d : Draws)
      (h : e.claimable now = true)
      (heval : RetryPolicy.evaluate cfg e.attemptCount retryAt random = .dlq attemptCount) :
      EventMove cfg e (e.dlq attemptCount error d)
  | replayed (h : e.processingStatus = .dlq) : EventMove cfg e e.replayed

/-- **What a transaction does to the table of events.** -/
inductive InboxChange [Platform] (cfg : WorkerConfig) (s s' : Store) : Prop where
  | kept (h : s'.events = s.events)
  | inserted (req : WebhookRequest) (d : Draws) (occurredAt : Timestamp)
      (hnew : s.event? req.rawBody.json.eventId = none)
      (h : s'.events = s.events ++ [req.event.row d.eventId occurredAt])
  | moved {e e' : EventRow} (he : e ∈ s.events) (hmove : EventMove cfg e e')
      (h : s'.events = (s.putEvent e').events)

variable {cfg : WorkerConfig} {e e' : EventRow}

/-- What an event row was inserted with and keeps: its other columns are blanked out. -/
def EventRow.origin (e : EventRow) : EventRow :=
  { e with
    processingStatus := .pending
    outcomeReason := none
    attemptCount := 0
    nextAttemptAt := none
    lastError := none
    processedAt := none
    deliveryCount := 1
    replayCount := 0 }

@[simp] theorem EventRow.origin_id (e : EventRow) : e.origin.id = e.id := rfl
@[simp] theorem EventRow.origin_eventId (e : EventRow) : e.origin.eventId = e.eventId := rfl
@[simp] theorem EventRow.origin_payloadHash (e : EventRow) : e.origin.payloadHash = e.payloadHash :=
  rfl

/-- Two versions of one event row are found under the same keys. -/
theorem EventRow.eq_of_origin_eq (h : e'.origin = e.origin) :
    e'.id = e.id ∧ e'.eventId = e.eventId ∧ e'.payloadHash = e.payloadHash ∧ e.keys = e'.keys := by
  have hid : e'.id = e.id := by simpa using congrArg EventRow.id h
  have heid : e'.eventId = e.eventId := by simpa using congrArg EventRow.eventId h
  refine ⟨hid, heid, by simpa using congrArg EventRow.payloadHash h, ?_⟩
  rw [EventRow.keys, EventRow.keys, hid, heid]

/-- **A move keeps what the event was inserted with.** -/
theorem EventMove.origin_eq (h : EventMove cfg e e') : e'.origin = e.origin := by
  cases h <;> rfl

theorem EventMove.keys_eq (h : EventMove cfg e e') : e.keys = e'.keys :=
  (EventRow.eq_of_origin_eq h.origin_eq).2.2.2

section Inbox

variable [Platform]

/-- **A change makes at most one move.** -/
theorem Change.inbox {c : Call} {log : Log} {x : Option Answer} {s s' : Store}
    (h : Change cfg c log x s s') : InboxChange cfg s s' := by
  cases h with
  | created hnew htime hrow => exact .inserted _ _ _ hnew rfl
  | counted hold hfits hrow => exact .moved (Store.mem_of_event? hold).1 (.counted hfits) rfl
  | idle => exact .kept rfl
  | applied hev hclaim hopen hmap hseq hamount => exact .moved hev (.applied _ hclaim) rfl
  | ignored hev hclaim hopen hreason =>
    refine .moved hev (.ignored _ hclaim ?_) rfl
    exact hreason.imp And.right fun h => h.2.2
  | retried hev hclaim heval => exact .moved hev (.retried _ hclaim heval) rfl
  | buried hev hclaim heval => exact .moved hev (.buried _ _ hclaim heval) rfl
  | unknown => exact .kept rfl
  | replayed hev hdlq => exact .moved hev (.replayed hdlq) rfl
  | notInDlq hev hdlq => exact .kept rfl
  | reconciled hrun hturns hdetails hrows => exact .kept hturns.inbox_eq.1

/-- Every event stays, or makes a move. -/
theorem InboxChange.forward {s s' : Store} (hs : s.Keyed) (h : InboxChange cfg s s')
    (he : e ∈ s.events) : e ∈ s'.events ∨ ∃ e' ∈ s'.events, EventMove cfg e e' := by
  cases h with
  | kept h => exact .inl (h ▸ he)
  | inserted req d occurredAt hnew h => exact .inl (h ▸ List.mem_append.mpr (.inl he))
  | @moved x x' hx hmove h =>
    have hmem : ∀ {y}, y ∈ s'.events ↔ y = x' ∨ y ∈ s.events ∧ y ≠ x := by
      intro y
      rw [h]
      exact Store.mem_putEvent hs hx hmove.keys_eq
    by_cases hex : e = x
    · exact .inr ⟨x', hmem.mpr (.inl rfl), hex ▸ hmove⟩
    · exact .inl (hmem.mpr (.inr ⟨he, hex⟩))

/-- Every event was there, has just been inserted, or has just made a move. -/
theorem InboxChange.backward {s s' : Store} (hs : s.Keyed) (h : InboxChange cfg s s')
    (he : e' ∈ s'.events) : e' ∈ s.events ∨
      (∃ (req : WebhookRequest) (id : ℕ) (occurredAt : Timestamp),
        e' = req.event.row id occurredAt) ∨
      ∃ e ∈ s.events, EventMove cfg e e' := by
  cases h with
  | kept h => exact .inl (h ▸ he)
  | inserted req d occurredAt hnew h =>
    rw [h] at he
    refine (List.mem_append.mp he).imp_right fun hmem => .inl ?_
    exact ⟨req, d.eventId, occurredAt, List.mem_singleton.mp hmem⟩
  | moved hx hmove h =>
    rw [h] at he
    rcases (Store.mem_putEvent hs hx hmove.keys_eq).mp he with rfl | ⟨hmem, -⟩
    · exact .inr (.inr ⟨_, hx, hmove⟩)
    · exact .inl hmem

/-- **Induction over the moves of an event.** -/
theorem Reach.events_induction {w : State} {P : EventRow → Prop}
    (hnew : ∀ (req : WebhookRequest) id occurredAt, P (req.event.row id occurredAt))
    (hmove : ∀ e e', P e → EventMove cfg e e' → P e') (h : Reach cfg .empty w) :
    ∀ e ∈ w.db.events, P e := by
  refine h.changes_induction (P := fun _ s => ∀ e ∈ Store.events s, P e) Store.keyed_empty
    (by simp [Store.empty]) fun _ s s' _ _ _ _ _ hs hP hc e he => ?_
  rcases hc.inbox.backward hs he with he | ⟨req, id, occurredAt, rfl⟩ | ⟨e₀, he₀, hm⟩
  · exact hP e he
  · exact hnew req id occurredAt
  · exact hmove e₀ e (hP e₀ he₀) hm

end Inbox

/-! ## The columns at each stage -/

/-- What the columns of an event row say at each stage. -/
def EventRow.Consistent (maxAttempts : ℕ) (e : EventRow) : Prop :=
  match e.processingStatus with
  | .pending => e.attemptCount = 0 ∧ e.outcomeReason = none ∧ e.nextAttemptAt = none ∧
      e.lastError = none ∧ e.processedAt = none
  | .retryScheduled => 1 ≤ e.attemptCount ∧ e.attemptCount < maxAttempts ∧
      e.outcomeReason = some .transientError ∧ e.nextAttemptAt ≠ none ∧ e.lastError ≠ none ∧
      e.processedAt = none
  | .dlq => e.attemptCount = maxAttempts ∧ e.outcomeReason = some .maxAttemptsExhausted ∧
      e.nextAttemptAt = none ∧ e.lastError ≠ none ∧ e.processedAt ≠ none
  | .applied => e.attemptCount < maxAttempts ∧ e.outcomeReason = none ∧
      e.nextAttemptAt = none ∧ e.processedAt ≠ none
  | .ignored => e.attemptCount < maxAttempts ∧
      (e.outcomeReason = some .staleTimestamp ∨ e.outcomeReason = some .staleSequence ∨
        e.outcomeReason = some .unknownEventType) ∧
      e.nextAttemptAt = none ∧ e.processedAt ≠ none

/-- A claimable event has attempts left. -/
theorem EventRow.Consistent.attempts_left {maxAttempts : ℕ} (hmax : 1 ≤ maxAttempts)
    {now : Timestamp} (h : e.Consistent maxAttempts) (hclaim : e.claimable now = true) :
    e.attemptCount < maxAttempts := by
  unfold EventRow.Consistent at h
  unfold EventRow.claimable at hclaim
  cases hst : e.processingStatus with
  | pending =>
    rw [hst] at h
    obtain ⟨hzero, -⟩ := h
    omega
  | retryScheduled =>
    rw [hst] at h
    exact h.2.1
  | applied => simp [hst] at hclaim
  | ignored => simp [hst] at hclaim
  | dlq => simp [hst] at hclaim

/-- What the retry policy decides: one attempt more, and the dead-letter queue exactly when no
attempt is left. -/
theorem RetryPolicy.evaluate_cases (cfg : WorkerConfig) (attempts : ℕ) (now : Timestamp)
    (random : ℚ) :
    (cfg.maxAttempts ≤ attempts + 1 ∧
      RetryPolicy.evaluate cfg attempts now random = .dlq (attempts + 1)) ∨
    (attempts + 1 < cfg.maxAttempts ∧ ∃ delayMs nextAttemptAt,
      RetryPolicy.evaluate cfg attempts now random = .retry (attempts + 1) delayMs nextAttemptAt) := by
  unfold RetryPolicy.evaluate
  by_cases hmax : attempts + 1 ≥ cfg.maxAttempts
  · exact .inl ⟨hmax, by rw [if_pos hmax]⟩
  · exact .inr ⟨not_le.mp hmax, _, _, if_neg hmax⟩

/-- A move keeps the columns consistent. -/
theorem EventMove.consistent (h : e.Consistent cfg.maxAttempts) (hm : EventMove cfg e e') :
    e'.Consistent cfg.maxAttempts := by
  have hmax := cfg.one_le_maxAttempts
  cases hm with
  | counted => exact h
  | applied d hclaim =>
    have hleft := h.attempts_left hmax hclaim
    exact ⟨hleft, rfl, rfl, by simp [EventRow.applied]⟩
  | ignored d hclaim hreason =>
    have hleft := h.attempts_left hmax hclaim
    refine ⟨hleft, .inr ?_, rfl, by simp [EventRow.ignored]⟩
    rcases hreason with rfl | rfl
    · exact .inr rfl
    · exact .inl rfl
  | @retried now retryAt nextAttemptAt random attemptCount delayMs error hclaim heval =>
    rcases RetryPolicy.evaluate_cases cfg e.attemptCount retryAt random with
      ⟨-, hdlq⟩ | ⟨hlt, delay, next, hretry⟩
    · rw [hdlq] at heval
      cases heval
    · obtain ⟨rfl, -, -⟩ : e.attemptCount + 1 = attemptCount ∧ _ ∧ _ := by
        simpa [hretry] using heval
      exact ⟨Nat.le_add_left 1 _, hlt, rfl, by simp [EventRow.retryScheduled],
        by simp [EventRow.retryScheduled], rfl⟩
  | @buried now retryAt random attemptCount error d hclaim heval =>
    have hleft := h.attempts_left hmax hclaim
    rcases RetryPolicy.evaluate_cases cfg e.attemptCount retryAt random with
      ⟨hge, hdlq⟩ | ⟨-, delay, next, hretry⟩
    · obtain rfl : e.attemptCount + 1 = attemptCount := by simpa [hdlq] using heval
      have heq : e.attemptCount + 1 = cfg.maxAttempts := by omega
      exact ⟨heq, rfl, rfl, by simp [EventRow.dlq], by simp [EventRow.dlq]⟩
    · rw [hretry] at heval
      cases heval
  | replayed hdlq => exact ⟨rfl, rfl, rfl, rfl, rfl⟩

/-- An event is inserted with consistent columns. -/
theorem WebhookRequest.event_consistent [Platform] {maxAttempts : ℕ} (hmax : 1 ≤ maxAttempts)
    (req : WebhookRequest) (id : ℕ) (occurredAt : Timestamp) :
    (req.event.row id occurredAt).Consistent maxAttempts := by
  unfold EventRow.Consistent EventInsertParams.row
  rcases req.event_status with ⟨hst, hreason, hproc⟩ | ⟨hst, hreason, hproc⟩
  · simp [hst, hreason, hproc]
  · have hpos : 0 < maxAttempts := hmax
    simp [hst, hreason, hproc, hpos]

/-! ## Which stage follows which -/

/-- Which status can follow which. -/
def ProcessingStatus.Next : ProcessingStatus → ProcessingStatus → Prop
  | pending, b => b = applied ∨ b = ignored ∨ b = retryScheduled ∨ b = dlq
  | retryScheduled, b => b = applied ∨ b = ignored ∨ b = retryScheduled ∨ b = dlq
  | dlq, b => b = pending
  | applied, _ => False
  | ignored, _ => False

/-- A move keeps the status, or changes it to one that can follow. -/
theorem EventMove.next (h : EventMove cfg e e') : e'.processingStatus = e.processingStatus ∨
    e.processingStatus.Next e'.processingStatus := by
  have hfrom : ∀ {now : Timestamp} {b : ProcessingStatus}, e.claimable now = true →
      b = .applied ∨ b = .ignored ∨ b = .retryScheduled ∨ b = .dlq → e.processingStatus.Next b := by
    intro now b hclaim hb
    unfold EventRow.claimable at hclaim
    cases hst : e.processingStatus <;> simp [hst] at hclaim
    · exact hb
    · exact hb
  cases h with
  | counted => exact .inl rfl
  | applied d hclaim => exact .inr (hfrom hclaim (.inl rfl))
  | ignored d hclaim hreason => exact .inr (hfrom hclaim (.inr (.inl rfl)))
  | retried error hclaim heval => exact .inr (hfrom hclaim (.inr (.inr (.inl rfl))))
  | buried error d hclaim heval => exact .inr (hfrom hclaim (.inr (.inr (.inr rfl))))
  | replayed hdlq =>
    rw [hdlq]
    exact .inr rfl

/-! ## Every run -/

variable [Platform] {w w' : State}

/-- The columns of every event are consistent. -/
theorem Reach.consistent (h : Reach cfg .empty w) :
    ∀ e ∈ w.db.events, e.Consistent cfg.maxAttempts :=
  h.events_induction (fun req id occurredAt =>
    req.event_consistent cfg.one_le_maxAttempts id occurredAt) fun _ _ he hm => hm.consistent he

/-- What one step of the system does to an event. -/
theorem Reach.step_event (h : Reach cfg .empty w) (hstep : Step (program cfg) w w')
    (he : e ∈ w.db.events) : e ∈ w'.db.events ∨ ∃ e' ∈ w'.db.events, EventMove cfg e e' := by
  rcases h.step_commits Store.keyed_empty hstep with ⟨hdb, -⟩ | ⟨i, s, log, x, -, hlog, hredo, hdb, -⟩
  · exact .inl (hdb ▸ he)
  · have hs : Store.Keyed w.db := (h.coherent Store.keyed_empty).inv
    rw [hdb]
    exact (change_of_redoes hs hlog hredo).inbox.forward hs he

/-- An event that makes a step stays the same event. -/
theorem Reach.step_next (h : Reach cfg .empty w) (hstep : Step (program cfg) w w')
    (he : e ∈ w.db.events) : ∃ e' ∈ w'.db.events, e'.id = e.id ∧ e'.eventId = e.eventId ∧
      (e'.processingStatus = e.processingStatus ∨
        e.processingStatus.Next e'.processingStatus) := by
  rcases h.step_event hstep he with he' | ⟨e', he', hm⟩
  · exact ⟨e, he', rfl, rfl, .inl rfl⟩
  · obtain ⟨hid, heid, -⟩ := EventRow.eq_of_origin_eq hm.origin_eq
    exact ⟨e', he', hid, heid, hm.next⟩

/-- An event is never deleted, and what has been finished with stays so. -/
theorem Reach.final (h : Reach cfg .empty w) (hrun : Reachable (program cfg) w w')
    (he : e ∈ w.db.events) : ∃ e' ∈ w'.db.events, e'.id = e.id ∧ e'.eventId = e.eventId ∧
      (e.processingStatus = .applied ∨ e.processingStatus = .ignored →
        e'.processingStatus = e.processingStatus) := by
  suffices Reach cfg .empty w' ∧ ∃ e' ∈ w'.db.events, e'.id = e.id ∧ e'.eventId = e.eventId ∧
      (e.processingStatus = .applied ∨ e.processingStatus = .ignored →
        e'.processingStatus = e.processingStatus) from this.2
  induction hrun with
  | refl => exact ⟨h, e, he, rfl, rfl, fun _ => rfl⟩
  | @step w₁ w₂ hrun hnext ih =>
    obtain ⟨hreach, e₁, he₁, hid₁, heid₁, hend⟩ := ih
    obtain ⟨e₂, he₂, hid₂, heid₂, hmove⟩ := hreach.step_next hnext he₁
    refine ⟨hreach.step hnext, e₂, he₂, hid₂.trans hid₁, heid₂.trans heid₁, fun hfin => ?_⟩
    have hst := hend hfin
    rcases hmove with hsame | hnext
    · rw [hsame, hst]
    · rw [hst] at hnext
      rcases hfin with hfin | hfin <;> simp [hfin, ProcessingStatus.Next] at hnext

/-- **The life cycle of an event row**: its columns, the order of its stages, and that it is never
deleted. -/
theorem inbox_row_life_cycle (h : Reach cfg .empty w) :
    (∀ e ∈ w.db.events, e.Consistent cfg.maxAttempts) ∧
    (∀ w', Step (program cfg) w w' → ∀ e ∈ w.db.events,
      ∃ e' ∈ w'.db.events, e'.id = e.id ∧ e'.eventId = e.eventId ∧
        (e'.processingStatus = e.processingStatus ∨
          e.processingStatus.Next e'.processingStatus)) ∧
    (∀ w', Reachable (program cfg) w w' → ∀ e ∈ w.db.events,
      ∃ e' ∈ w'.db.events, e'.id = e.id ∧ e'.eventId = e.eventId ∧
        (e.processingStatus = .applied ∨ e.processingStatus = .ignored →
          e'.processingStatus = e.processingStatus)) :=
  ⟨h.consistent, fun _ hstep _ he => h.step_next hstep he, fun _ hrun _ he => h.final hrun he⟩

omit [Platform] in
/-- In the sample, the event stays applied whatever happens afterwards. -/
theorem inbox_row_sample : letI := samplePlatform
    ∃ w : State, Reach .default .empty w ∧ ∀ w', Reachable (program .default) w w' →
      ∃ e ∈ w'.db.events, e.eventId = "evt_1" ∧ e.processingStatus = .applied := by
  let _ := samplePlatform
  obtain ⟨w, e, o, hrest, hevents, hid, happlied, -⟩ := exists_applied_sample
  refine ⟨w, hrest.reach, fun w' hrun => ?_⟩
  obtain ⟨-, -, hforever⟩ := inbox_row_life_cycle hrest.reach
  obtain ⟨e', he', -, hid', hfinal⟩ := hforever w' hrun e (by simp [hevents])
  exact ⟨e', he', hid'.trans hid, (hfinal (.inl happlied)).trans happlied⟩

end PaymentWebhook
