import Mathlib.Data.List.Chain
import PaymentWebhook.Replays

set_option relaxedAutoImplicit false
set_option autoImplicit false

/-!
# The retry cycle

An event whose business block fails at every claim, from the moment at which it waits to be processed until
it is in the dead-letter queue.

## Main definitions

* `PaymentWebhook.claimsOf` — the claims of an event that a journal has committed.
* `PaymentWebhook.WorkerConfig.delayBound` — the bound of the delay after a failure.
* `PaymentWebhook.Attempt` — what the `k`th failure has committed.
* `PaymentWebhook.RetryCycle` — where the event is in its cycle.

## Main results

* `PaymentWebhook.Change.retryCycle` — every change keeps an event in its cycle.
* `PaymentWebhook.retry_cycle` — the cycle of every event in every run.
-/

namespace PaymentWebhook

open Transactions

/-- The delay after the `k`th failure is less, in milliseconds. -/
def WorkerConfig.delayBound (cfg : WorkerConfig) (k : ℕ) : ℕ :=
  min cfg.retryMaxMs (cfg.retryBaseMs * 2 ^ (k - 1))

/-- The bounds do not decrease. -/
theorem WorkerConfig.delayBound_mono (cfg : WorkerConfig) {k k' : ℕ} (h : k ≤ k') :
    cfg.delayBound k ≤ cfg.delayBound k' := by
  refine min_le_min le_rfl (Nat.mul_le_mul_left _ (Nat.pow_le_pow_right (by decide) ?_))
  omega

/-- How long a failure is put off. -/
theorem RetryPolicy.retry_delay {cfg : WorkerConfig} {n n' delay : ℕ} {now next : Timestamp} {random : ℚ}
    (h₀ : 0 ≤ random) (h₁ : random < 1)
    (h : RetryPolicy.evaluate cfg n now random = .retry n' delay next) :
    n' = n + 1 ∧ n + 1 < cfg.maxAttempts ∧ delay < cfg.delayBound (n + 1) ∧ next = now + 1000 * delay := by
  unfold RetryPolicy.evaluate at h
  by_cases hmax : n + 1 ≥ cfg.maxAttempts
  · simp only [if_pos hmax] at h
    cases h
  · simp only [if_neg hmax, RetryOrDlq.retry.injEq] at h
    obtain ⟨rfl, rfl, rfl⟩ := h
    refine ⟨rfl, not_le.mp hmax, ?_, rfl⟩
    have hpos : 0 < cfg.delayBound (n + 1) :=
      lt_min (cfg.one_le_retryBaseMs.trans cfg.retryBaseMs_le_retryMaxMs)
        (Nat.mul_pos cfg.one_le_retryBaseMs (by positivity))
    have hfloor : ⌊random * (cfg.delayBound (n + 1) : ℚ)⌋ < (cfg.delayBound (n + 1) : ℤ) := by
      rw [Int.floor_lt]
      have hcast : (0 : ℚ) < cfg.delayBound (n + 1) := by exact_mod_cast hpos
      exact_mod_cast mul_lt_of_lt_one_left hcast h₁
    have hnonneg : 0 ≤ ⌊random * (cfg.delayBound (n + 1) : ℚ)⌋ := Int.floor_nonneg.mpr (by positivity)
    show ⌊random * (cfg.delayBound (n + 1) : ℚ)⌋.toNat < cfg.delayBound (n + 1)
    omega

section Journal

variable [Platform]

/-- The event that the log of a turn has claimed. -/
def claimed? : Log → Option ℕ
  | ⟨.claim, _, some e, _⟩ :: _ => some e.id
  | _ => none

/-- When the log of a turn has claimed its event, by the clock of the database. -/
def claimedAt? : Log → Option Timestamp
  | ⟨.claim, d, some _, _⟩ :: _ => some d.now
  | _ => none

/-- When the event is put off to. -/
def putOff? : Log → Option Timestamp
  | [_, ⟨.markRetryScheduled _ _ next _, _, _, _⟩] => some next
  | _ => none

/-- The business block of the turn has failed. -/
def failed : Log → Bool
  | [_, ⟨.markRetryScheduled _ _ _ _, _, _, _⟩] => true
  | [_, ⟨.markDlq _ _ _, _, _, _⟩] => true
  | _ => false

/-- The claims of an event that a journal has committed. -/
def claimsOf (id : ℕ) (journal : List (ℕ × Log)) : List (ℕ × Log) :=
  journal.filter fun c => claimed? c.2 = some id

/-- **What the `k`th failure of an event has committed**: that the event is put off, by a delay after the
clock of the policy; the last one, that it is in the dead-letter queue. -/
def Attempt (cfg : WorkerConfig) (w : State) (id k : ℕ) (c : ℕ × Log) : Prop :=
  ∃ input event d d' m ws message, Called w c.1 (.processOne input) ∧ event.id = id ∧
    event.attemptCount + 1 = k ∧
    ((k < cfg.maxAttempts ∧ ∃ delay : ℕ, delay < cfg.delayBound k ∧ c.2 = [⟨.claim, d, some event, []⟩,
      ⟨.markRetryScheduled id k (input.now + 1000 * delay) message, d', m, ws⟩]) ∨
    (k = cfg.maxAttempts ∧ c.2 = [⟨.claim, d, some event, []⟩, ⟨.markDlq id k message, d', m, ws⟩]))

/-- The status after `n` failures. -/
def statusAfter (cfg : WorkerConfig) (n : ℕ) : ProcessingStatus :=
  if n = 0 then .pending else if n < cfg.maxAttempts then .retryScheduled else .dlq

/-- **Where an event is in its cycle**, after the claims that have been committed since it waited. -/
structure RetryCycle (cfg : WorkerConfig) (w : State) (id : ℕ) (claims : List (ℕ × Log)) (e : EventRow) :
    Prop where
  id_eq : e.id = id
  attempts : e.attemptCount = claims.length
  most : claims.length ≤ cfg.maxAttempts
  status : e.processingStatus = statusAfter cfg claims.length
  next : e.nextAttemptAt = claims.getLast?.bind fun c => putOff? c.2
  failures : ∀ k c, claims[k]? = some c → Attempt cfg w id (k + 1) c
  due : claims.IsChain fun c c' => ∀ next ∈ putOff? c.2, ∀ now ∈ claimedAt? c'.2, next ≤ now

variable {cfg : WorkerConfig} {w : State} {id i : ℕ} {log : Log} {since : List (ℕ × Log)}
  {claims : List (ℕ × Log)} {s s' : Store} {e e' : EventRow}

theorem claimsOf_append_of_ne (h : claimed? log ≠ some id) :
    claimsOf id (since ++ [(i, log)]) = claimsOf id since := by
  simp [claimsOf, h]

theorem claimsOf_append_of_eq (h : claimed? log = some id) :
    claimsOf id (since ++ [(i, log)]) = claimsOf id since ++ [(i, log)] := by
  simp [claimsOf, h]

/-- A change that keeps what the cycle is about. -/
theorem RetryCycle.keep (h : RetryCycle cfg w id claims e) (hid : e'.id = e.id)
    (hattempts : e'.attemptCount = e.attemptCount) (hstatus : e'.processingStatus = e.processingStatus)
    (hnext : e'.nextAttemptAt = e.nextAttemptAt) : RetryCycle cfg w id claims e' :=
  ⟨hid.trans h.id_eq, hattempts.trans h.attempts, h.most, hstatus.trans h.status, hnext.trans h.next,
    h.failures, h.due⟩

/-- An event that can be claimed has failures left, and is due. -/
theorem RetryCycle.claimable (h : RetryCycle cfg w id claims e) {now : Timestamp}
    (hclaim : e.claimable now = true) : claims.length < cfg.maxAttempts ∧
      ∀ c, claims.getLast? = some c → ∀ next ∈ putOff? c.2, next ≤ now := by
  have hmax := cfg.one_le_maxAttempts
  simp only [EventRow.claimable, Bool.or_eq_true, Bool.and_eq_true, decide_eq_true_eq] at hclaim
  have hstatus := h.status
  unfold statusAfter at hstatus
  rcases hclaim with hpending | ⟨hretry, hdue⟩
  · have hnil : claims.length = 0 := by
      by_contra hne
      rw [hpending, if_neg hne] at hstatus
      split at hstatus <;> cases hstatus
    rw [List.length_eq_zero_iff] at hnil
    subst hnil
    refine ⟨hmax, fun c hlast => ?_⟩
    cases hlast
  · refine ⟨?_, fun c hlast next hnext => ?_⟩
    · by_contra hge
      rw [hretry] at hstatus
      split at hstatus
      · cases hstatus
      · cases hstatus
    · rw [h.next, hlast, Option.bind_some, Option.mem_def.mp hnext] at hdue
      simpa using hdue

/-- **One more failure.** -/
theorem RetryCycle.push (h : RetryCycle cfg w id claims e) {c : ℕ × Log} {now : Timestamp}
    (hclaim : e.claimable now = true) (hnow : ∀ t ∈ claimedAt? c.2, t = now)
    (hattempt : Attempt cfg w id (claims.length + 1) c) (hid : e'.id = e.id)
    (hattempts : e'.attemptCount = claims.length + 1)
    (hstatus : e'.processingStatus = statusAfter cfg (claims.length + 1))
    (hnext : e'.nextAttemptAt = putOff? c.2) : RetryCycle cfg w id (claims ++ [c]) e' := by
  obtain ⟨hleft, hdue⟩ := h.claimable hclaim
  refine ⟨hid.trans h.id_eq, by simp [hattempts], by rw [List.length_append]; exact hleft, by simpa using hstatus,
    by simp [hnext], fun k c' hk => ?_, ?_⟩
  · rcases lt_trichotomy k claims.length with hlt | rfl | hgt
    · rw [List.getElem?_append_left hlt] at hk
      exact h.failures k c' hk
    · obtain rfl : c = c' := by simpa using hk
      exact hattempt
    · rw [List.getElem?_eq_none (by rw [List.length_append]; exact hgt)] at hk
      cases hk
  · refine h.due.append (List.isChain_singleton _) (fun c' hc' c'' hc'' => ?_)
    obtain rfl : c = c'' := by simpa using hc''
    intro next hnext t ht
    rw [hnow t ht]
    exact hdue c' hc' next hnext

/-- **An event fails once more**, and is rewritten as `e'`. -/
theorem RetryCycle.failure (hs : s.Keyed) (h : RetryCycle cfg w id (claimsOf id since) e) (he : e ∈ s.events)
    (e' : EventRow) {now : Timestamp} (hkeys : e.keys = e'.keys) (hevents : s'.events = (s.putEvent e').events)
    (hclaimed : claimed? log = some id) (hclaim : e.claimable now = true) (hnow : claimedAt? log = some now)
    (hattempt : Attempt cfg w id (e.attemptCount + 1) (i, log))
    (hattempts : e'.attemptCount = e.attemptCount + 1)
    (hstatus : e'.processingStatus = statusAfter cfg (e.attemptCount + 1))
    (hnext : e'.nextAttemptAt = putOff? log) :
    ∃ e' ∈ s'.events, RetryCycle cfg w id (claimsOf id (since ++ [(i, log)])) e' := by
  have hid : e'.id = e.id := by
    simp only [EventRow.keys, List.cons.injEq, Key.eventPk.injEq] at hkeys
    exact hkeys.2.1.symm
  rw [h.attempts] at hattempt hattempts hstatus
  refine ⟨e', ?_, ?_⟩
  · rw [hevents]
    exact (Store.mem_putEvent hs he hkeys).mpr (.inl rfl)
  · rw [claimsOf_append_of_eq hclaimed]
    refine h.push hclaim (fun t ht => ?_) hattempt hid hattempts hstatus hnext
    exact (Option.some.inj (hnow.symm.trans ht)).symm

/-- **Every change keeps an event in its cycle**, if its claims fail and it is not replayed. -/
theorem Change.retryCycle {c : Call} {x : Option Answer} (hs : s.Keyed) (hc : Change cfg c log x s s')
    (he : e ∈ s.events) (h : RetryCycle cfg w id (claimsOf id since) e) (hcalled : Called w i c)
    (hjitter : ∀ input, c = .processOne input → 0 ≤ input.random ∧ input.random < 1)
    (hfails : claimed? log = some id → failed log = true)
    (hreplay : branch? log ≠ some (id, .replayed)) :
    ∃ e' ∈ s'.events, RetryCycle cfg w id (claimsOf id (since ++ [(i, log)])) e' := by
  have hid : ∀ {x : EventRow}, x ∈ s.events → (x.id = id ↔ x = e) := by
    intro x hx
    constructor
    · intro heq
      exact hs.events.eq_of_mem hx he (k := .eventPk e.id) (by simp [EventRow.keys, heq, h.id_eq])
        (by simp [EventRow.keys])
    · rintro rfl
      exact h.id_eq
  -- a change that is not about a claim of the event
  have hidle : claimed? log ≠ some id → ∀ e' ∈ s'.events, e'.id = e.id → e'.attemptCount = e.attemptCount →
      e'.processingStatus = e.processingStatus → e'.nextAttemptAt = e.nextAttemptAt →
      ∃ e' ∈ s'.events, RetryCycle cfg w id (claimsOf id (since ++ [(i, log)])) e' := by
    intro hne e' he' h₁ h₂ h₃ h₄
    exact ⟨e', he', by rw [claimsOf_append_of_ne hne]; exact h.keep h₁ h₂ h₃ h₄⟩
  -- another event is rewritten
  have hother : ∀ {x : EventRow} (x' : EventRow), x ∈ s.events → x.keys = x'.keys → x ≠ e →
      s'.events = (s.putEvent x').events → claimed? log ≠ some id →
      ∃ e' ∈ s'.events, RetryCycle cfg w id (claimsOf id (since ++ [(i, log)])) e' := by
    intro x x' hx hkeys hne hevents hclaimed
    refine hidle hclaimed e ?_ rfl rfl rfl rfl
    rw [hevents, Store.mem_putEvent hs hx hkeys]
    exact .inr ⟨he, Ne.symm hne⟩
  cases hc with
  | created hnew htime hrow => exact hidle (by simp [claimed?]) e (by simp [he]) rfl rfl rfl rfl
  | @counted _ req d _ row old hold hfits hrow =>
    have hmem := (Store.mem_of_event? hold).1
    by_cases hold' : old = e
    · subst hold'
      have hkeys : old.keys = { old with deliveryCount := old.deliveryCount + 1 }.keys := rfl
      refine hidle (by simp [claimed?]) { old with deliveryCount := old.deliveryCount + 1 } ?_ rfl rfl rfl rfl
      exact (Store.mem_putEvent hs hmem hkeys).mpr (.inl rfl)
    · exact hother { old with deliveryCount := old.deliveryCount + 1 } hmem rfl hold' rfl
        (by simp [claimed?])
  | idle => exact hidle (by simp [claimed?]) e he rfl rfl rfl rfl
  | @applied _ _ _ _ _ _ _ d₅ _ _ _ _ _ _ _ event _ _ _ hev hclaim =>
    have hne : event.id ≠ id := fun heq => by simpa [failed] using hfails (by simp [claimed?, heq])
    exact hother (event.applied d₅) hev rfl (fun heq => hne ((hid hev).mpr heq)) rfl
      (by simpa [claimed?] using hne)
  | @ignored _ _ _ _ _ _ d₅ _ _ _ _ _ _ event _ reason hev hclaim =>
    have hne : event.id ≠ id := fun heq => by simpa [failed] using hfails (by simp [claimed?, heq])
    exact hother (event.ignored (some reason) d₅) hev rfl (fun heq => hne ((hid hev).mpr heq)) rfl
      (by simpa [claimed?] using hne)
  | @retried _ input d d' w' m event error n delay next hev hclaim heval =>
    by_cases heq : event.id = id
    · obtain rfl := (hid hev).mp heq
      obtain ⟨h₀, h₁⟩ := hjitter input rfl
      obtain ⟨rfl, hlt, hdelay, rfl⟩ := RetryPolicy.retry_delay h₀ h₁ heval
      refine h.failure hs hev (event.retryScheduled (event.attemptCount + 1) (input.now + 1000 * delay)
        (sanitizeError (Platform.errorMessage error))) rfl rfl (by simp [claimed?, heq]) hclaim rfl ?_ rfl ?_ rfl
      · exact ⟨input, event, d, d', m, w', sanitizeError (Platform.errorMessage error), hcalled, heq, rfl,
          .inl ⟨hlt, delay, hdelay, by rw [heq]⟩⟩
      · rw [statusAfter, if_neg (Nat.succ_ne_zero _), if_pos hlt]
        rfl
    · exact hother (event.retryScheduled n next (sanitizeError (Platform.errorMessage error))) hev rfl
        (fun h' => heq ((hid hev).mpr h')) rfl (by simpa [claimed?] using heq)
  | @buried _ input d d' w' m event error n hev hclaim heval =>
    by_cases heq : event.id = id
    · obtain rfl := (hid hev).mp heq
      obtain ⟨hle, heval'⟩ : cfg.maxAttempts ≤ event.attemptCount + 1 ∧
          RetryPolicy.evaluate cfg event.attemptCount input.now input.random =
            .dlq (event.attemptCount + 1) := by
        rcases RetryPolicy.evaluate_cases cfg event.attemptCount input.now input.random with
          hdlq | ⟨-, delay, next, hretry⟩
        · exact hdlq
        · rw [hretry] at heval
          cases heval
      obtain rfl : event.attemptCount + 1 = n := by simpa [heval'] using heval
      have hlast : event.attemptCount + 1 = cfg.maxAttempts :=
        le_antisymm (by rw [h.attempts]; exact (h.claimable hclaim).1) hle
      refine h.failure hs hev (event.dlq (event.attemptCount + 1) (sanitizeError (Platform.errorMessage error)) d')
        rfl rfl (by simp [claimed?, heq]) hclaim rfl ?_ rfl ?_ rfl
      · exact ⟨input, event, d, d', m, w', sanitizeError (Platform.errorMessage error), hcalled, heq, rfl,
          .inr ⟨hlast, by rw [heq]⟩⟩
      · rw [statusAfter, if_neg (Nat.succ_ne_zero _), if_neg (by omega)]
        rfl
    · exact hother (event.dlq n (sanitizeError (Platform.errorMessage error)) d') hev rfl
        (fun h' => heq ((hid hev).mpr h')) rfl (by simpa [claimed?] using heq)
  | unknown => exact hidle (by simp [claimed?]) e he rfl rfl rfl rfl
  | @replayed _ d d' _ _ event hev hdlq =>
    have hne : event.id ≠ id := fun heq => hreplay (by simp [branch?, heq])
    exact hother event.replayed hev rfl (fun heq => hne ((hid hev).mpr heq)) rfl
      (by simp [claimed?])
  | notInDlq hev hdlq => exact hidle (by simp [claimed?]) e he rfl rfl rfl rfl
  | reconciled hrun hturns =>
    refine hidle (by simp [claimed?]) e ?_ rfl rfl rfl rfl
    show e ∈ Store.events _
    rw [hturns.inbox_eq.1]
    exact he

/-- The cycle is told in the same way after one more step. -/
theorem RetryCycle.step {w' : State} (h : RetryCycle cfg w id claims e) (hstep : Step (program cfg) w w') :
    RetryCycle cfg w' id claims e := by
  refine ⟨h.id_eq, h.attempts, h.most, h.status, h.next, fun k c hk => ?_, h.due⟩
  obtain ⟨input, event, d, d', m, ws, message, hcalled, hlog⟩ := h.failures k c hk
  exact ⟨input, event, d, d', m, ws, message, hcalled.step hstep, hlog⟩

/-- An event that waits to be processed has not failed. -/
theorem EventRow.Consistent.retryCycle (h : e.Consistent cfg.maxAttempts)
    (hpending : e.processingStatus = .pending) : RetryCycle cfg w e.id [] e := by
  simp only [EventRow.Consistent, hpending] at h
  refine ⟨rfl, h.1, Nat.zero_le _, hpending, h.2.2.1, fun k c hk => ?_, .nil⟩
  cases hk

/-- The event is in the dead-letter queue if it has failed as often as it may. -/
theorem RetryCycle.dlq_iff (h : RetryCycle cfg w id claims e) :
    e.processingStatus = .dlq ↔ claims.length = cfg.maxAttempts := by
  have hmax := cfg.one_le_maxAttempts
  have hmost := h.most
  rw [h.status]
  unfold statusAfter
  split_ifs with hzero hless
  · refine ⟨fun heq => ?_, fun heq => by omega⟩
    cases heq
  · refine ⟨fun heq => ?_, fun heq => by omega⟩
    cases heq
  · exact ⟨fun _ => by omega, fun _ => rfl⟩

/-- **The cycle goes on along every run.** -/
theorem Reach.retryCycle {w₀ : State} {e₀ : EventRow} (h₀ : Reach cfg .empty w₀) (he₀ : e₀ ∈ w₀.db.events)
    (hpending : e₀.processingStatus = .pending) (hrun : Reachable (program cfg) w₀ w) :
    ∃ since, w.journal = w₀.journal ++ since ∧
      ((∀ c ∈ since, claimed? c.2 = some e₀.id → failed c.2 = true) →
      (∀ c ∈ since, branch? c.2 ≠ some (e₀.id, .replayed)) →
      (∀ c ∈ since, ∀ input, Called w c.1 (.processOne input) → 0 ≤ input.random ∧ input.random < 1) →
      ∃ e ∈ w.db.events, RetryCycle cfg w e₀.id (claimsOf e₀.id since) e) := by
  obtain ⟨env₀, hstart⟩ := h₀
  induction hrun with
  | refl =>
    have hreach : Reach cfg .empty w₀ := ⟨env₀, hstart⟩
    exact ⟨[], (List.append_nil _).symm, fun _ _ _ => ⟨e₀, he₀, (hreach.consistent e₀ he₀).retryCycle hpending⟩⟩
  | @step w w' hrun hstep ih =>
    obtain ⟨since, hjournal, hcycle⟩ := ih
    have hreach : Reach cfg .empty w := ⟨env₀, hstart.trans hrun⟩
    rcases hreach.step_change Store.keyed_empty hstep with ⟨hdb, hsame⟩ | ⟨i, s, t, x, hs, ht, hc, hnew⟩
    · refine ⟨since, hsame.trans hjournal, fun hfails hreplay hjitter => ?_⟩
      obtain ⟨e, he, hcycle⟩ := hcycle hfails hreplay fun c hc input hcalled =>
        hjitter c hc input (hcalled.step hstep)
      exact ⟨e, hdb ▸ he, hcycle.step hstep⟩
    · refine ⟨since ++ [(i, t.log)], by rw [hnew, hjournal, List.append_assoc], fun hfails hreplay hjitter => ?_⟩
      have hlast : (i, t.log) ∈ since ++ [(i, t.log)] := by simp
      have hcalled : Called w i s.call := ⟨s, hs, rfl⟩
      obtain ⟨e, he, hcycle⟩ := hcycle (fun c hc => hfails c (List.mem_append_left _ hc))
        (fun c hc => hreplay c (List.mem_append_left _ hc)) fun c hc input hcalled =>
          hjitter c (List.mem_append_left _ hc) input (hcalled.step hstep)
      obtain ⟨e', he', hcycle'⟩ := hc.retryCycle (hreach.coherent Store.keyed_empty).inv he hcycle hcalled
        (fun input hcall => hjitter _ hlast input (hcall ▸ hcalled.step hstep)) (hfails _ hlast)
        (hreplay _ hlast)
      exact ⟨e', he', hcycle'.step hstep⟩

/-- **A claim in an open transaction** is of the row as it is, which is due and not in the dead-letter
queue. -/
theorem RetryCycle.claim_open (h : RetryCycle cfg w id claims e) (hreach : Reach cfg .empty w)
    (he : e ∈ w.db.events) {s : Session postgres Call Answer} {t : Tx postgres} (hs : w.sessions i = some s)
    (ht : s.conn.tx = some t) {d : Draws} {event : EventRow} {ws : List Write} {rest : Log}
    (hlog : t.log = ⟨.claim, d, some event, ws⟩ :: rest) (hid : event.id = id) :
    event = e ∧ claims.length < cfg.maxAttempts ∧ ∀ next ∈ e.nextAttemptAt, next ≤ d.now := by
  have hcoherent := hreach.coherent Store.keyed_empty
  have hredo := (hcoherent.sound i s t hs ht).redoes
  rw [hlog] at hredo
  obtain ⟨hmem, hclaim, -, -⟩ := redoes_claim hredo
  obtain rfl : event = e := hcoherent.inv.events.eq_of_mem hmem he (k := .eventPk e.id)
    (by simp [EventRow.keys, hid, h.id_eq]) (by simp [EventRow.keys])
  obtain ⟨hleft, hdue⟩ := h.claimable hclaim
  refine ⟨rfl, hleft, fun next hnext => ?_⟩
  rw [h.next, Option.mem_def, Option.bind_eq_some_iff] at hnext
  obtain ⟨c, hlast, hnext⟩ := hnext
  exact hdue c hlast next hnext

/-- What a replay has taken from the dead-letter queue. -/
theorem Change.replayed_of_branch {c : Call} {x : Option Answer} (hc : Change cfg c log x s s')
    (hbranch : branch? log = some (id, .replayed)) :
    ∃ event ∈ s.events, event.id = id ∧ event.processingStatus = .dlq ∧ s' = s.putEvent event.replayed := by
  cases hc with
  | @replayed _ _ _ _ _ event hev hdlq =>
    obtain rfl : event.id = id := by simpa [branch?] using hbranch
    exact ⟨event, hev, rfl, hdlq, rfl⟩
  | _ => simp [branch?] at hbranch

/-- A replay of the event begins its cycle again. -/
theorem RetryCycle.again (h : RetryCycle cfg w id claims e) (hreach : Reach cfg .empty w)
    (he : e ∈ w.db.events) {w' : State} (hstep : Step (program cfg) w w')
    (hjournal : w'.journal = w.journal ++ [(i, log)]) (hbranch : branch? log = some (id, .replayed)) :
    claims.length = cfg.maxAttempts ∧ e.replayed ∈ w'.db.events ∧ RetryCycle cfg w' id [] e.replayed := by
  have hkeyed : w.db.Keyed := (hreach.coherent Store.keyed_empty).inv
  have hreach' : Reach cfg .empty w' := by
    obtain ⟨env₀, hrun⟩ := hreach
    exact ⟨env₀, hrun.step hstep⟩
  rcases hreach.step_change Store.keyed_empty hstep with ⟨-, hsame⟩ | ⟨j, s, t, x, hs, ht, hc, hjournal'⟩
  · rw [hsame] at hjournal
    simp at hjournal
  · obtain ⟨rfl, rfl⟩ : i = j ∧ log = t.log := by simpa using hjournal.symm.trans hjournal'
    obtain ⟨event, hev, hid, hdlq, hdb⟩ := hc.replayed_of_branch hbranch
    obtain rfl : event = e := hkeyed.events.eq_of_mem hev he (k := .eventPk e.id)
      (by simp [EventRow.keys, hid, h.id_eq]) (by simp [EventRow.keys])
    have hkeys : event.keys = event.replayed.keys := rfl
    have hmem : event.replayed ∈ w'.db.events := by
      rw [hdb, Store.mem_putEvent hkeyed hev hkeys]
      exact .inl rfl
    refine ⟨h.dlq_iff.mp hdlq, hmem, ?_⟩
    rw [← hid]
    exact EventRow.Consistent.retryCycle (hreach'.consistent _ hmem) rfl

/-- **The retry cycle.**  From a state in which an event waits to be processed, along a run in which all its
committed claims are failures: the event has the row of its cycle (it has failed `attempt_count` times, at most
`maxAttempts`; its `k`th failure has put it off by a delay below the `k`th bound; no claim is before the
time the failure before it has set), and is in the dead-letter queue exactly after `maxAttempts` claims.
A claim that is not committed yet is of this row as well, neither early nor in the queue, and a replay takes
it from the queue to the beginning of its cycle. -/
theorem retry_cycle {w₀ : State} {e₀ : EventRow} (h₀ : Reach cfg .empty w₀) (he₀ : e₀ ∈ w₀.db.events)
    (hpending : e₀.processingStatus = .pending) (hrun : Reachable (program cfg) w₀ w)
    (hsince : w.journal = w₀.journal ++ since)
    (hfails : ∀ c ∈ since, claimed? c.2 = some e₀.id → failed c.2 = true)
    (hreplay : ∀ c ∈ since, branch? c.2 ≠ some (e₀.id, .replayed))
    (hjitter : ∀ c ∈ since, ∀ input, Called w c.1 (.processOne input) →
      0 ≤ input.random ∧ input.random < 1) :
    ∃ e ∈ w.db.events, RetryCycle cfg w e₀.id (claimsOf e₀.id since) e ∧
      (e.processingStatus = .dlq ↔ (claimsOf e₀.id since).length = cfg.maxAttempts) ∧
      (∀ i s t d event ws rest, w.sessions i = some s → s.conn.tx = some t →
        t.log = ⟨.claim, d, some event, ws⟩ :: rest → event.id = e₀.id →
        event = e ∧ e.processingStatus ≠ .dlq ∧ ∀ next ∈ e.nextAttemptAt, next ≤ d.now) ∧
      (∀ w' i log, Step (program cfg) w w' → w'.journal = w.journal ++ [(i, log)] →
        branch? log = some (e₀.id, .replayed) → (claimsOf e₀.id since).length = cfg.maxAttempts ∧
          e.replayed ∈ w'.db.events ∧ RetryCycle cfg w' e₀.id [] e.replayed) ∧
      ∀ k k', k ≤ k' → cfg.delayBound k ≤ cfg.delayBound k' := by
  obtain ⟨since', hsince', hcycle⟩ := h₀.retryCycle he₀ hpending hrun
  obtain rfl : since = since' := List.append_cancel_left (hsince.symm.trans hsince')
  obtain ⟨e, he, hcycle⟩ := hcycle hfails hreplay hjitter
  have hreach : Reach cfg .empty w := by
    obtain ⟨env₀, hstart⟩ := h₀
    exact ⟨env₀, hstart.trans hrun⟩
  refine ⟨e, he, hcycle, hcycle.dlq_iff, fun i s t d event ws rest hs ht hlog hid => ?_,
    fun w' i log hstep hjournal hbranch => hcycle.again hreach he hstep hjournal hbranch,
    fun k k' hk => cfg.delayBound_mono hk⟩
  obtain ⟨heq, hleft, hdue⟩ := hcycle.claim_open hreach he hs ht hlog hid
  exact ⟨heq, fun hdlq => hleft.ne (hcycle.dlq_iff.mp hdlq), hdue⟩

end Journal

/-- In the sample, the event that has failed twice is in the dead-letter queue. -/
theorem retry_cycle_sample : letI := samplePlatform
    ∃ (w : State) (e : EventRow) (claims : List (ℕ × Log)), Reach .twice .empty w ∧ e ∈ w.db.events ∧
      RetryCycle .twice w e.id claims e ∧ claims.length = 2 ∧ e.processingStatus = .dlq := by
  let _ := samplePlatform
  obtain ⟨f⟩ := exists_failsTwice
  obtain ⟨d₁, d₁', ws₁, hlog₁⟩ := f.log₁_eq
  obtain ⟨d₂, d₂', ws₂, hlog₂⟩ := f.log₂_eq
  have hfirst : f.e₁.id = f.e.id := by rw [f.first]; rfl
  have hjitter : ∀ c ∈ [(f.i₁, f.log₁), (f.i₂, f.log₂)], ∀ input, Called f.dead c.1 (.processOne input) →
      0 ≤ input.random ∧ input.random < 1 := by
    have hinput : ∀ {i input}, Called f.dead i (.processOne ⟨sampleTime, 0⟩) →
        Called f.dead i (.processOne input) → 0 ≤ input.random ∧ input.random < 1 := by
      rintro i input ⟨s, hs, hcall⟩ ⟨s', hs', hcall'⟩
      obtain rfl : s = s' := Option.some_inj.mp (hs.symm.trans hs')
      obtain rfl : (⟨sampleTime, 0⟩ : WorkerInput) = input := by simpa using hcall.symm.trans hcall'
      norm_num
    simp only [List.forall_mem_cons, List.not_mem_nil, false_imp_iff, implies_true, and_true]
    exact ⟨fun input => hinput f.first_called, fun input => hinput f.second_called⟩
  have hwaits : f.e ∈ f.waiting.db.events := by simp [f.events]
  obtain ⟨e, he, hcycle, hdlq, -⟩ := retry_cycle f.waiting_rest.reach hwaits f.pending f.run.reachable
    f.dead_journal (by simp [hlog₁, hlog₂, failed])
    (by simp [hlog₁, hlog₂, branch?]) hjitter
  have hclaims : (claimsOf f.e.id [(f.i₁, f.log₁), (f.i₂, f.log₂)]).length = 2 := by
    simp [claimsOf, hlog₁, hlog₂, claimed?, hfirst]
  refine ⟨f.dead, e, _, f.dead_rest.reach, he, ?_, hclaims, hdlq.mpr hclaims⟩
  rw [hcycle.id_eq]
  exact hcycle

end PaymentWebhook
