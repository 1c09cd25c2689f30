import PaymentWebhook.LifeCycle

set_option relaxedAutoImplicit false
set_option autoImplicit false

/-!
# The way of an event that fails

What the service does with an event whose business block fails: the worker schedules another attempt,
or moves the event to the dead-letter queue, from which a replay fetches it back.

## Main results

* `PaymentWebhook.Resting.retry`, `PaymentWebhook.Resting.bury` — what a worker makes of a failure.
* `PaymentWebhook.Resting.revive` — what a replay makes of an event in the dead-letter queue.
-/

namespace PaymentWebhook

open Transactions

variable [Platform] {cfg : WorkerConfig} {w : State}

section Turn

variable (h : Resting cfg w) {i : ℕ} {input : WorkerInput} {t : Draws}
  (hbegun : Begun cfg w i (.processOne input) t) {e : EventRow} (he : e ∈ w.db.events)
  (hclaim : e.claimable w.env.clock = true)
  (honly : ∀ x ∈ w.db.events, x.claimable w.env.clock = true → x = e) (error : DbError)

include h hbegun he hclaim honly

/-- **A failure is put off** in a resting world in which one event is eligible. -/
theorem Resting.retry {n delayMs : ℕ} {next : Timestamp}
    (heval : RetryPolicy.evaluate cfg e.attemptCount input.now input.random = .retry n delayMs next)
    (hfits : (e.retryScheduled n next (sanitizeError (Platform.errorMessage error))).fits = true) :
    ∃ w' d d' ws, Served cfg w w' i ∧
      w'.db = w.db.putEvent (e.retryScheduled n next (sanitizeError (Platform.errorMessage error))) ∧
      w'.journal = w.journal ++ [(i, [⟨.claim, d, some e, []⟩, ⟨.markRetryScheduled e.id n next
        (sanitizeError (Platform.errorMessage error)), d', true, ws⟩])] := by
  obtain ⟨m, hm, -⟩ := w.db.exists_fresh w.env
  let d (k : ℕ) := Draws.nth w.env.clock t.start (m + k)
  have hx : exec .claim (d 0) noSkip w.db = .ok (some e, []) := by
    simp only [exec, d, Draws.nth_now, Store.claimed_eq he hclaim honly]
  have hmark : exec (.markRetryScheduled e.id n next (sanitizeError (Platform.errorMessage error)))
      (d 5) noSkip w.db = .ok (true, [.update (.event
        (e.retryScheduled n next (sanitizeError (Platform.errorMessage error))))]) := by
    simp only [exec]
    exact updateRow_ok.mpr (.inr ⟨e, Store.Keyed.eventAt?_eq h.keyed he, hfits, rfl, rfl⟩)
  have hgoes := goes_processOne_retried cfg input t error d hx heval hmark
  obtain ⟨w', hfollows, hdb, hjournal, hsessions⟩ := h.finish hbegun (hgoes.head _)
    (by exact ⟨rfl, rfl, rfl, rfl, rfl, rfl, rfl, rfl, rfl, rfl, rfl, rfl, rfl, rfl, trivial⟩) hm
    (by simp)
  exact ⟨w', d 0, d 5, _, ⟨hfollows, _, hsessions⟩, hdb, hjournal⟩

/-- **A failure is final** in a resting world in which one event is eligible. -/
theorem Resting.bury {n : ℕ}
    (heval : RetryPolicy.evaluate cfg e.attemptCount input.now input.random = .dlq n)
    (hfits : ∀ d, (e.dlq n (sanitizeError (Platform.errorMessage error)) d).fits = true) :
    ∃ w' d d' ws, Served cfg w w' i ∧ d'.now = w.env.clock ∧
      w'.db = w.db.putEvent (e.dlq n (sanitizeError (Platform.errorMessage error)) d') ∧
      w'.journal = w.journal ++ [(i, [⟨.claim, d, some e, []⟩, ⟨.markDlq e.id n
        (sanitizeError (Platform.errorMessage error)), d', true, ws⟩])] := by
  obtain ⟨m, hm, -⟩ := w.db.exists_fresh w.env
  let d (k : ℕ) := Draws.nth w.env.clock t.start (m + k)
  have hx : exec .claim (d 0) noSkip w.db = .ok (some e, []) := by
    simp only [exec, d, Draws.nth_now, Store.claimed_eq he hclaim honly]
  have hmark : exec (.markDlq e.id n (sanitizeError (Platform.errorMessage error))) (d 5) noSkip w.db =
      .ok (true, [.update (.event (e.dlq n (sanitizeError (Platform.errorMessage error)) (d 5)))]) := by
    simp only [exec]
    exact updateRow_ok.mpr (.inr ⟨e, Store.Keyed.eventAt?_eq h.keyed he, hfits _, rfl, rfl⟩)
  have hgoes := goes_processOne_buried cfg input t error d hx heval hmark
  obtain ⟨w', hfollows, hdb, hjournal, hsessions⟩ := h.finish hbegun (hgoes.head _)
    (by exact ⟨rfl, rfl, rfl, rfl, rfl, rfl, rfl, rfl, rfl, rfl, rfl, rfl, rfl, rfl, trivial⟩) hm
    (by simp)
  exact ⟨w', d 0, d 5, _, ⟨hfollows, _, hsessions⟩, Draws.nth_now .., hdb, hjournal⟩

end Turn

/-- **An event is replayed** in a resting world. -/
theorem Resting.revive (h : Resting cfg w) {i : ℕ} {t : Draws} {e : EventRow}
    (hbegun : Begun cfg w i (.replay e.id) t) (he : e ∈ w.db.events)
    (hdlq : e.processingStatus = .dlq) (hfits : e.replayed.fits = true) :
    ∃ w' d d' ws, Served cfg w w' i ∧ w'.db = w.db.putEvent e.replayed ∧
      w'.journal = w.journal ++ [(i, [⟨.selectEvent e.id, d, some e, []⟩,
        ⟨.replayEvent e.id, d', some e.replayed, ws⟩])] := by
  obtain ⟨m, hm, -⟩ := w.db.exists_fresh w.env
  let d (k : ℕ) := Draws.nth w.env.clock t.start (m + k)
  have hat := Store.Keyed.eventAt?_eq h.keyed he
  have hselect : exec (.selectEvent e.id) (d 0) noSkip w.db = .ok (some e, []) := by
    simp only [exec, hat]
  have hupdate : exec (.replayEvent e.id) (d 1) noSkip w.db =
      .ok (some e.replayed, [.update (.event e.replayed)]) :=
    updateRow_ok.mpr (.inr ⟨e, hat, hfits, rfl, rfl⟩)
  have hlog : ReplayLog e.id [⟨.selectEvent e.id, d 0, some e, []⟩, ⟨.replayEvent e.id, d 1,
      some e.replayed, [.update (.event e.replayed)]⟩] _ := .replayed hdlq
  obtain ⟨a, -, hgoes⟩ := goes_replay (b := t) (d := d 2) hlog ⟨hselect, hupdate, trivial⟩ rfl
  obtain ⟨w', hfollows, hdb, hjournal, hsessions⟩ := h.finish hbegun (hgoes.head _)
    (by exact ⟨rfl, rfl, rfl, rfl, rfl, rfl, trivial⟩) hm (by simp)
  exact ⟨w', d 0, d 1, _, ⟨hfollows, _, hsessions⟩, hdb, hjournal⟩

omit [Platform] in
/-- An event whose failure is put off meets its checks. -/
theorem EventRow.retryScheduled_fits {e : EventRow} (he : e.fits = true) {n : ℕ} {next : Timestamp}
    {error : String} (hn : int4Fits n = true) (herror : textFits error = true) :
    (e.retryScheduled n next error).fits = true := by
  simp only [EventRow.fits, Bool.and_eq_true, and_assoc] at he
  simp only [EventRow.fits, EventRow.retryScheduled, Bool.and_eq_true, and_assoc]
  obtain ⟨h₁, h₂, h₃, h₄, h₅, h₆, -, -, h₉, h₁₀, h₁₁, h₁₂, -⟩ := he
  exact ⟨h₁, h₂, h₃, h₄, h₅, h₆, hn, herror, h₉, h₁₀, h₁₁, h₁₂, rfl⟩

omit [Platform] in
/-- An event in the dead-letter queue meets its checks. -/
theorem EventRow.dlq_fits {e : EventRow} (he : e.fits = true) {n : ℕ} {error : String} {d : Draws}
    (hn : int4Fits n = true) (herror : textFits error = true) : (e.dlq n error d).fits = true := by
  simp only [EventRow.fits, Bool.and_eq_true, and_assoc] at he
  simp only [EventRow.fits, EventRow.dlq, Bool.and_eq_true, and_assoc]
  obtain ⟨h₁, h₂, h₃, h₄, h₅, h₆, -, -, h₉, h₁₀, h₁₁, h₁₂, -⟩ := he
  exact ⟨h₁, h₂, h₃, h₄, h₅, h₆, hn, herror, h₉, h₁₀, h₁₁, h₁₂, rfl⟩

omit [Platform] in
/-- An event that is replayed meets its checks. -/
theorem EventRow.replayed_fits {e : EventRow} (he : e.fits = true)
    (hcount : int4Fits (e.replayCount + 1) = true) : e.replayed.fits = true := by
  simp only [EventRow.fits, Bool.and_eq_true, and_assoc] at he
  simp only [EventRow.fits, EventRow.replayed, Bool.and_eq_true, and_assoc]
  obtain ⟨h₁, h₂, h₃, h₄, h₅, h₆, -, -, h₉, h₁₀, -, h₁₂, -⟩ := he
  exact ⟨h₁, h₂, h₃, h₄, h₅, h₆, rfl, rfl, h₉, h₁₀, by simpa using hcount, h₁₂, rfl⟩

omit [Platform] in
/-- The only event is rewritten. -/
theorem Store.events_putEvent_singleton {s : Store} {e e' : EventRow} (h : s.events = [e])
    (hkeys : e.keys = e'.keys) : (s.putEvent e').events = [e'] := by
  simp [Store.putEvent, Tables.replace, h, hkeys]

end PaymentWebhook
