import Mathlib.Algebra.BigOperators.Ring.List
import Mathlib.Algebra.Order.BigOperators.Group.List
import PaymentWebhook.Projection
import PaymentWebhook.RetryCycle
import PaymentWebhook.Transactions.Ledger

set_option relaxedAutoImplicit false
set_option autoImplicit false

/-!
# The accounting of the attempts

Workers claim an event until one of them has finished with it or its attempts are used up; a replay grants
it as many attempts again.  The columns of an event tell exactly how often it has been claimed.

## Main definitions

* `PaymentWebhook.EventRow.claims` — what the columns of an event say about its claims.

## Main results

* `PaymentWebhook.Change.claims_balanced` — every change keeps the ledger of the claims balanced.
* `PaymentWebhook.Reach.never_again` — what has been finished with is not claimed again.
* `PaymentWebhook.claim_accounting` — the claims of every event in every reachable state.
-/

namespace PaymentWebhook

open Transactions Ledger

/-- What the columns of an event say about how often it has been claimed: all attempts before each replay,
those that have failed since, and the last one if a worker has finished with it. -/
def EventRow.claims (maxAttempts : ℕ) (e : EventRow) : ℕ :=
  maxAttempts * e.replayCount + e.attemptCount + if e.finished then 1 else 0

/-- An event has no more claims than it has been granted. -/
theorem EventRow.Consistent.claims_le {maxAttempts : ℕ} {e : EventRow} (h : e.Consistent maxAttempts) :
    e.claims maxAttempts ≤ maxAttempts * (e.replayCount + 1) := by
  unfold EventRow.Consistent at h
  unfold EventRow.claims
  rw [mul_add, mul_one]
  cases hst : e.processingStatus with
  | pending =>
    simp only [hst] at h
    simp [EventRow.finished, hst, h.1]
  | retryScheduled =>
    simp only [hst] at h
    have hfinished : e.finished = false := by simp [EventRow.finished, hst]
    rw [hfinished, if_neg Bool.false_ne_true]
    omega
  | dlq =>
    simp only [hst] at h
    have hfinished : e.finished = false := by simp [EventRow.finished, hst]
    rw [hfinished, if_neg Bool.false_ne_true]
    omega
  | applied =>
    simp only [hst] at h
    split <;> omega
  | ignored =>
    simp only [hst] at h
    split <;> omega

/-- What the retry policy decides is about the next attempt. -/
theorem RetryPolicy.evaluate_attempts {cfg : WorkerConfig} {attempts : ℕ} {now : Timestamp} {random : ℚ} :
    (∀ n delay next, evaluate cfg attempts now random = .retry n delay next → n = attempts + 1) ∧
      ∀ n, evaluate cfg attempts now random = .dlq n → n = attempts + 1 := by
  rcases evaluate_cases cfg attempts now random with ⟨-, hdlq⟩ | ⟨-, delay, next, hretry⟩
  · rw [hdlq]
    refine ⟨fun n delay next heq => ?_, fun n heq => ?_⟩
    · cases heq
    · cases heq
      rfl
  · rw [hretry]
    refine ⟨fun n delay next heq => ?_, fun n heq => ?_⟩
    · cases heq
      rfl
    · cases heq

/-- No two events have one id. -/
theorem Store.Keyed.nodup_ids {s : Store} (hs : s.Keyed) : (s.events.map EventRow.id).Nodup := by
  rw [List.Nodup, List.pairwise_map]
  refine hs.events.imp fun {e e'} hkeys heq => ?_
  exact hkeys (.eventPk e.id) (by simp [EventRow.keys]) (by simp [EventRow.keys, heq])

/-- No two events have one `event_id`. -/
theorem Store.Keyed.nodup_eventIds {s : Store} (hs : s.Keyed) : (s.events.map EventRow.eventId).Nodup := by
  rw [List.Nodup, List.pairwise_map]
  refine hs.events.imp fun {e e'} hkeys heq => ?_
  exact hkeys (.event e.eventId) (by simp [EventRow.keys]) (by simp [EventRow.keys, heq])

/-- The ids that no event has. -/
theorem Store.eventAt?_eq_none_iff {s : Store} {id : ℕ} :
    s.eventAt? id = none ↔ id ∉ s.events.map EventRow.id := by
  rw [Store.eventAt?, Tables.find_eq_none]
  simp [EventRow.keys, eq_comm]

/-- **A rewritten event keeps a ledger balanced**, if it states what the entry charges to it. -/
theorem Store.Keyed.balanced_putEvent {β κ : Type} [DecidableEq κ] {payer : β → Option κ} {key : EventRow → κ}
    {states : EventRow → ℕ} {journal : List β} {b : β} {s : Store} {e e' : EventRow} (hs : s.Keyed)
    (h : Balanced payer key states journal s.events) (hnodup : (s.events.map key).Nodup) (he : e ∈ s.events)
    (hkeys : e.keys = e'.keys) (hkey : key e' = key e)
    (hb : (payer b = none ∧ states e' = states e) ∨ (payer b = some (key e) ∧ states e' = states e + 1)) :
    Balanced payer key states (journal ++ [b]) (s.putEvent e').events := by
  obtain ⟨before, after, hsplit, hreplaced⟩ :=
    Tables.exists_replace hs.events he hkeys (hkeys ▸ List.cons_ne_nil _ _)
  rw [hsplit] at h hnodup
  rw [Store.putEvent, hreplaced]
  exact h.replace hnodup hkey hb

variable [Platform] {cfg : WorkerConfig} {w w' : State} {journal : List (ℕ × Log)} {i : ℕ} {log : Log}
  {s s' : Store} {e : EventRow}

/-- **The claims of a journal are those that the events state.** -/
abbrev ClaimsBalanced (cfg : WorkerConfig) (journal : List (ℕ × Log)) (s : Store) : Prop :=
  Balanced (fun c : ℕ × Log => claimed? c.2) EventRow.id (EventRow.claims cfg.maxAttempts) journal s.events

/-- How often an event is charged with a claim. -/
theorem charged_claims (id : ℕ) (journal : List (ℕ × Log)) :
    charged (fun c : ℕ × Log => claimed? c.2) id journal = (claimsOf id journal).length := by
  rw [charged, List.count_filterMap, claimsOf, ← List.countP_eq_length_filter]
  exact List.countP_congr fun c _ => by simp

/-- A change that rewrites an event keeps the ledger balanced, if the event states the claim of the log. -/
theorem ClaimsBalanced.putEvent (h : ClaimsBalanced cfg journal s) (hs : s.Keyed) (he : e ∈ s.events)
    (e' : EventRow) (hkeys : e.keys = e'.keys) (hevents : s'.events = (s.putEvent e').events)
    (hclaims : (claimed? log = none ∧ e'.claims cfg.maxAttempts = e.claims cfg.maxAttempts) ∨
      (claimed? log = some e.id ∧ e'.claims cfg.maxAttempts = e.claims cfg.maxAttempts + 1)) :
    ClaimsBalanced cfg (journal ++ [(i, log)]) s' := by
  have hid : e'.id = e.id := by
    simp only [EventRow.keys, List.cons.injEq, Key.eventPk.injEq] at hkeys
    exact hkeys.2.1.symm
  rw [ClaimsBalanced, hevents]
  exact hs.balanced_putEvent h hs.nodup_ids he hkeys hid hclaims

/-- **Every change keeps the ledger of the claims balanced.**

**Proof sketch.** A claim that fails uses an attempt up, and one that succeeds finishes the event, which is
charged with it either way.  A replay exchanges the attempts that are used up for one replay. -/
theorem Change.claims_balanced {c : Call} {x : Option Answer} (hs : s.Keyed) (hs' : s'.Keyed)
    (hconsistent : ∀ e ∈ s.events, e.Consistent cfg.maxAttempts) (h : ClaimsBalanced cfg journal s)
    (hc : Change cfg c log x s s') : ClaimsBalanced cfg (journal ++ [(i, log)]) s' := by
  have hidle : s'.events = s.events → claimed? log = none → ClaimsBalanced cfg (journal ++ [(i, log)]) s' := by
    intro hevents hclaimed
    rw [ClaimsBalanced, hevents]
    exact h.skip hclaimed
  cases hc with
  | @created _ req d _ _ occurredAt hnew htime hrow =>
    refine (h.insert (r := req.event.row d.eventId occurredAt) ?_ ?_).skip rfl
    · have hnodup := hs'.nodup_ids
      rw [List.map_append, List.nodup_append] at hnodup
      intro hmem
      exact hnodup.2.2 _ hmem _ (by simp) rfl
    · rcases req.event_status with ⟨hst, hreason, -⟩ | ⟨hst, hreason, -⟩ <;>
        simp [EventRow.claims, EventRow.finished, EventInsertParams.row, hst, hreason]
  | @counted _ _ _ _ _ old hold hfits hrow =>
    exact h.putEvent hs (Store.mem_of_event? hold).1 { old with deliveryCount := old.deliveryCount + 1 } rfl rfl
      (.inl ⟨rfl, rfl⟩)
  | idle => exact hidle rfl rfl
  | @applied _ _ _ _ _ _ _ d₅ _ _ _ _ _ _ _ event _ _ _ hev hclaim =>
    refine h.putEvent hs hev (event.applied d₅) rfl rfl (.inr ⟨rfl, ?_⟩)
    have hnot := EventRow.not_finished_of_claimable hclaim
    have hfinished : (event.applied d₅).finished = true := rfl
    rw [EventRow.claims, EventRow.claims, hnot, hfinished]
    rfl
  | @ignored _ _ _ _ _ _ d₅ _ _ _ _ _ _ event _ reason hev hclaim hopen hreason =>
    refine h.putEvent hs hev (event.ignored (some reason) d₅) rfl rfl (.inr ⟨rfl, ?_⟩)
    have hnot := EventRow.not_finished_of_claimable hclaim
    have hfinished : (event.ignored (some reason) d₅).finished = true := by
      rcases hreason with ⟨-, rfl⟩ | ⟨-, -, rfl⟩ <;> rfl
    rw [EventRow.claims, EventRow.claims, hnot, hfinished]
    rfl
  | @retried _ input d d' w' m event error n delay next hev hclaim heval =>
    refine h.putEvent hs hev (event.retryScheduled n next (sanitizeError (Platform.errorMessage error))) rfl rfl
      (.inr ⟨rfl, ?_⟩)
    have hnot := EventRow.not_finished_of_claimable hclaim
    obtain rfl := RetryPolicy.evaluate_attempts.1 n delay next heval
    rw [EventRow.claims, EventRow.claims, hnot]
    rfl
  | @buried _ input d d' w' m event error n hev hclaim heval =>
    refine h.putEvent hs hev (event.dlq n (sanitizeError (Platform.errorMessage error)) d') rfl rfl
      (.inr ⟨rfl, ?_⟩)
    have hnot := EventRow.not_finished_of_claimable hclaim
    obtain rfl := RetryPolicy.evaluate_attempts.2 n heval
    rw [EventRow.claims, EventRow.claims, hnot]
    rfl
  | unknown => exact hidle rfl rfl
  | @replayed _ d d' _ _ event hev hdlq =>
    refine h.putEvent hs hev event.replayed rfl rfl (.inl ⟨rfl, ?_⟩)
    have hcols := hconsistent event hev
    simp only [EventRow.Consistent, hdlq] at hcols
    have hnot : event.finished = false := by simp [EventRow.finished, hdlq]
    have hnot' : event.replayed.finished = false := rfl
    rw [EventRow.claims, EventRow.claims, hnot, hnot', hcols.1]
    show cfg.maxAttempts * (event.replayCount + 1) + 0 + _ = _
    ring
  | notInDlq hev hdlq => exact hidle rfl rfl
  | reconciled hrun hturns => exact hidle hturns.inbox_eq.1 rfl

/-- Every change leaves the events consistent. -/
theorem Change.consistent {c : Call} {x : Option Answer} (hs : s.Keyed)
    (hconsistent : ∀ e ∈ s.events, e.Consistent cfg.maxAttempts) (hc : Change cfg c log x s s') :
    ∀ e ∈ s'.events, e.Consistent cfg.maxAttempts := by
  intro e he
  rcases hc.inbox.backward hs he with he | ⟨req, id, occurredAt, rfl⟩ | ⟨e₀, he₀, hmove⟩
  · exact hconsistent e he
  · exact req.event_consistent cfg.one_le_maxAttempts id occurredAt
  · exact hmove.consistent (hconsistent e₀ he₀)

/-- The ledger of the claims is balanced in every reachable state. -/
theorem Reach.claims_balanced (h : Reach cfg .empty w) : ClaimsBalanced cfg w.journal w.db := by
  suffices ClaimsBalanced cfg w.journal w.db ∧ ∀ e ∈ w.db.events, e.Consistent cfg.maxAttempts from this.1
  refine h.keyed_changes_induction
    (P := fun journal s => ClaimsBalanced cfg journal s ∧ ∀ e ∈ Store.events s, e.Consistent cfg.maxAttempts)
    Store.keyed_empty ⟨⟨by simp [Store.empty], fun k _ => rfl⟩, by simp [Store.empty]⟩ ?_
  intro journal s s' i c log x _ hs hs' hinv hc
  obtain ⟨hbalanced, hconsistent⟩ := hinv
  exact ⟨hc.claims_balanced hs hs' hconsistent hbalanced, hc.consistent hs hconsistent⟩

omit [Platform] in
/-- What has been finished with is only counted from then on. -/
theorem EventMove.finished {e' : EventRow} (hm : EventMove cfg e e') (h : e.finished = true) :
    e'.finished = true ∧ e'.claims cfg.maxAttempts = e.claims cfg.maxAttempts := by
  have hunclaimed : ∀ {now : Timestamp}, e.claimable now ≠ true := by
    intro now hclaim
    rw [EventRow.not_finished_of_claimable hclaim] at h
    cases h
  cases hm with
  | counted => exact ⟨h, rfl⟩
  | applied d hclaim => exact absurd hclaim hunclaimed
  | ignored d hclaim => exact absurd hclaim hunclaimed
  | retried error hclaim => exact absurd hclaim hunclaimed
  | buried error d hclaim => exact absurd hclaim hunclaimed
  | replayed hdlq => simp [EventRow.finished, hdlq] at h

/-- **What has been finished with is not claimed again.** -/
theorem Reach.never_again (h : Reach cfg .empty w) (hrun : Reachable (program cfg) w w')
    (he : e ∈ w.db.events) (hfinished : e.finished = true) :
    ∃ since, w'.journal = w.journal ++ since ∧ ∀ c ∈ since, claimed? c.2 ≠ some e.id := by
  obtain ⟨since, hjournal, e', he', hid, -, hclaims⟩ := h.since_induction
    (P := fun _ s => ∃ e' ∈ Store.events s, e'.id = e.id ∧ e'.finished = true ∧
      e'.claims cfg.maxAttempts = e.claims cfg.maxAttempts)
    Store.keyed_empty hrun ⟨e, he, rfl, hfinished, rfl⟩ fun since w₁ w₂ i c log x h₁ _ _ hP hc => by
      obtain ⟨e₁, he₁, hid, hfin, hclaims⟩ := hP
      rcases hc.inbox.forward (h₁.coherent Store.keyed_empty).inv he₁ with he₁ | ⟨e₂, he₂, hm⟩
      · exact ⟨e₁, he₁, hid, hfin, hclaims⟩
      · obtain ⟨hfin', hclaims'⟩ := hm.finished hfin
        exact ⟨e₂, he₂, (EventRow.eq_of_origin_eq hm.origin_eq).1.trans hid, hfin', hclaims'.trans hclaims⟩
  refine ⟨since, hjournal, fun c hc hclaimed => ?_⟩
  have hreach' : Reach cfg .empty w' := by
    obtain ⟨env₀, hstart⟩ := h
    exact ⟨env₀, hstart.trans hrun⟩
  have hbefore := h.claims_balanced.known e he
  have hafter := hreach'.claims_balanced.known e' he'
  rw [hid, hclaims, ← hbefore, hjournal, charged_append] at hafter
  have hpos : 0 < charged (fun c : ℕ × Log => claimed? c.2) e.id since := charged_pos hc hclaimed
  omega

/-- All replays together are those that the events state. -/
theorem Reach.totalReplays_eq (h : Reach cfg .empty w) :
    totalReplays w.journal = (w.db.events.map EventRow.replayCount).sum := by
  have hkeyed : Store.Keyed w.db := (h.coherent Store.keyed_empty).inv
  have haccounted := h.dlqAccounted
  let payer (c : ℕ × Log) : Option ℕ := ((branch? c.2).filter (·.2 = .replayed)).map (·.1)
  have hpayer : ∀ c id, payer c = some id ↔ branch? c.2 = some (id, .replayed) := by
    intro c id
    rcases hb : branch? c.2 with - | ⟨id', branch⟩
    · simp [payer, hb]
    · cases branch <;> simp [payer, hb]
  have hcharged : ∀ id, charged payer id w.journal = replaysOf id w.journal := by
    intro id
    rw [charged, List.count_filterMap, replaysOf]
    exact List.countP_congr fun c _ => by simp [hpayer]
  have hbalanced : Balanced payer EventRow.id EventRow.replayCount w.journal w.db.events :=
    ⟨fun e he => (hcharged e.id).trans (haccounted.replays e he), fun id hid =>
      (hcharged id).trans (haccounted.unknown id (Store.eventAt?_eq_none_iff.mpr hid)).2⟩
  rw [← hbalanced.total hkeyed.nodup_ids, totalReplays, List.length_filterMap_eq_countP]
  refine List.countP_congr fun c _ => ?_
  rcases hb : branch? c.2 with - | ⟨id', branch⟩
  · simp [payer, hb]
  · cases branch <;> simp [payer, hb]

end PaymentWebhook
