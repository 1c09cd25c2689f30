import PaymentWebhook.Consumption

set_option relaxedAutoImplicit false
set_option autoImplicit false

/-!
# The business effect of an event happens once

An event is redelivered, retried, replayed, and its worker may die at any statement or never hear
of its own commit.  The history of the orders and the journal of commits show that its effect
happens once if it is applied or skipped by a worker, and not at all before that.

## Main definitions

* `PaymentWebhook.Store.historyOf` — the history rows of an event.
* `PaymentWebhook.updatesOf` — the updates of orders committed for an event.
* `PaymentWebhook.ExactlyOnce` — the invariant.

## Main results

* `PaymentWebhook.Change.exactlyOnce` — every change keeps the invariant.
* `PaymentWebhook.business_effect_exactly_once` — exactly-once effect in every reachable state.
-/

namespace PaymentWebhook

open Transactions

/-! ## The traces of an event -/

/-- The history rows of an event. -/
def Store.historyOf (s : Store) (eventId : String) : List HistoryRow :=
  s.history.filter (·.eventId = some eventId)

/-- The outcomes that the history shows of an event. -/
def EventRow.outcomes (e : EventRow) : List HistoryOutcome :=
  match e.processingStatus with
  | .applied => [.applied]
  | .ignored => if e.outcomeReason = some .staleTimestamp then [] else [.ignored]
  | _ => []

/-- The event status that an outcome corresponds to. -/
def HistoryOutcome.processingStatus? : HistoryOutcome → Option ProcessingStatus
  | applied => some .applied
  | ignored => some .ignored
  | reconciled => none

section Logs

variable [Platform]

/-- The event that a worker's transaction has claimed. -/
def claimedEvent? : Log → Option EventRow
  | ⟨.claim, _, some event, _⟩ :: _ => some event
  | _ => none

/-- The order that a statement of webhook processing has updated. -/
def updatedOrder? (e : Entry postgres) : Option String :=
  match e with
  | ⟨.applyToOrder id _ _ _ _, _, true, _⟩ => some id
  | _ => none

/-- The orders that a transaction of webhook processing has updated. -/
def orderUpdates (log : Log) : List String := log.filterMap updatedOrder?

/-- The updates of orders that webhook processing has committed for an event. -/
def updatesOf (eventId : String) (journal : List (ℕ × Log)) : List String :=
  journal.flatMap fun c =>
    if (claimedEvent? c.2).any (·.eventId = eventId) then orderUpdates c.2 else []

end Logs

section HistoryOf

variable {s : Store} {eventId : String}

theorem historyOf_addHistory (h : HistoryRow) :
    (s.addHistory h).historyOf eventId =
      s.historyOf eventId ++ if h.eventId = some eventId then [h] else [] := by
  rw [Store.historyOf, Store.historyOf, Store.addHistory_history, List.filter_append]
  by_cases hh : h.eventId = some eventId <;> simp [hh]

theorem historyOf_eq_nil :
    s.historyOf eventId = [] ↔ ∀ h ∈ s.history, h.eventId ≠ some eventId := by
  simp [Store.historyOf, List.filter_eq_nil_iff]

end HistoryOf

/-- A claimable event has left no trace. -/
theorem EventRow.outcomes_of_claimable {e : EventRow} {now : Timestamp}
    (h : e.claimable now = true) : e.outcomes = [] ∧ e.processingStatus ≠ .applied := by
  unfold EventRow.claimable at h
  cases hst : e.processingStatus <;> simp [hst, EventRow.outcomes] at h ⊢

variable [Platform]

theorem updatesOf_append (eventId : String) (journal : List (ℕ × Log)) (i : ℕ) (log : Log) :
    updatesOf eventId (journal ++ [(i, log)]) = updatesOf eventId journal ++
      if (claimedEvent? log).any (·.eventId = eventId) then orderUpdates log else [] := by
  simp [updatesOf]

/-- A reconciliation makes no update of webhook processing. -/
theorem Turns.orderUpdates_eq {orders : List ProviderOrder} {t t' : Tally} {log : Log}
    {s s' : Store} (h : Turns orders t log t' s s') : orderUpdates log = [] := by
  induction h with
  | nil => rfl
  | cons hs hturn htail ih =>
    rw [orderUpdates, List.filterMap_append, ← orderUpdates, ← orderUpdates, ih]
    cases hturn <;> simp [orderUpdates, updatedOrder?]

theorem DetailsLog.orderUpdates_eq {runId : ℕ} {details : List ReconciliationDetail} {log : Log}
    (h : DetailsLog runId details log) : orderUpdates log = [] := by
  induction h with
  | nil => rfl
  | cons htail ih => simpa [orderUpdates, updatedOrder?] using ih

/-- A reconciliation leaves the history of the events alone. -/
theorem Turns.historyOf_eq {orders : List ProviderOrder} {t t' : Tally} {log : Log}
    {s s' : Store} (h : Turns orders t log t' s s') (eventId : String) :
    s'.historyOf eventId = s.historyOf eventId := by
  induction h with
  | nil => rfl
  | cons hs hturn htail ih =>
    rw [ih]
    cases hturn with
    | kept => rfl
    | repaired hopen hclass hamount =>
      rw [historyOf_addHistory]
      simp [repairHistory, Store.historyOf]

/-! ## The invariant -/

/-- **Exactly once**: the history of an event and the updates committed for it are what its row
says, and only events have either. -/
structure ExactlyOnce (journal : List (ℕ × Log)) (s : Store) : Prop where
  outcomes : ∀ e ∈ s.events, (s.historyOf e.eventId).map HistoryRow.outcome = e.outcomes
  updates : ∀ e ∈ s.events, updatesOf e.eventId journal =
    if e.processingStatus = .applied then [e.orderId] else []
  historyEvent : ∀ h ∈ s.history, ∀ eventId, h.eventId = some eventId →
    ∃ e ∈ s.events, e.eventId = eventId
  claimed : ∀ c ∈ journal, orderUpdates c.2 ≠ [] → ∃ event, claimedEvent? c.2 = some event ∧
    ∃ e ∈ s.events, e.eventId = event.eventId

section Changes

variable {cfg : WorkerConfig} {journal : List (ℕ × Log)} {s s' : Store} {i : ℕ} {log : Log}

/-- A transaction without updates of orders keeps the journal's part of the invariant. -/
theorem updatesOf_append_of_nil {eventId : String} (h : orderUpdates log = []) :
    updatesOf eventId (journal ++ [(i, log)]) = updatesOf eventId journal := by
  rw [updatesOf_append, h]
  split <;> simp

/-- An event that nothing is known of has left no trace. -/
theorem ExactlyOnce.of_unknown (h : ExactlyOnce journal s) {eventId : String}
    (hnew : s.event? eventId = none) :
    s.historyOf eventId = [] ∧ updatesOf eventId journal = [] := by
  have hno := Store.event?_eq_none.mp hnew
  refine ⟨historyOf_eq_nil.mpr fun row hrow hid => ?_, ?_⟩
  · obtain ⟨e, he, heid⟩ := h.historyEvent row hrow eventId hid
    exact hno e he heid
  · refine List.flatMap_eq_nil_iff.mpr fun c hc => ?_
    split
    · rename_i hclaim
      by_contra hne
      obtain ⟨event, hevent, e, he, heid⟩ := h.claimed c hc hne
      rw [hevent] at hclaim
      exact hno e he (by simpa [heid] using hclaim)
    · rfl

/-- A rewritten event whose trace stays what it was: the invariant is kept. -/
theorem ExactlyOnce.rewrite (h : ExactlyOnce journal s) (hs : s.Keyed) {e e' : EventRow}
    (he : e ∈ s.events) (hkeys : e.keys = e'.keys) (horder : e'.orderId = e.orderId)
    (hout : e'.outcomes = e.outcomes)
    (happ : e'.processingStatus = .applied ↔ e.processingStatus = .applied)
    (hlog : orderUpdates log = []) : ExactlyOnce (journal ++ [(i, log)]) (s.putEvent e') := by
  have hid : e'.eventId = e.eventId := by
    have hhead := congrArg List.head? hkeys
    simpa [EventRow.keys, eq_comm] using hhead
  have hmem : ∀ id, (∃ x ∈ s.events, x.eventId = id) → ∃ x ∈ (s.putEvent e').events, x.eventId = id := by
    rintro id ⟨x, hx, rfl⟩
    by_cases hxe : x = e
    · exact ⟨e', (Store.mem_putEvent hs he hkeys).mpr (.inl rfl), by rw [hid, hxe]⟩
    · exact ⟨x, (Store.mem_putEvent hs he hkeys).mpr (.inr ⟨hx, hxe⟩), rfl⟩
  refine ⟨?_, ?_, fun row hrow id hrid => hmem id (h.historyEvent row hrow id hrid),
    fun c hc hne => ?_⟩
  · refine Store.forall_putEvent hs he hkeys ?_ fun x hx _ => h.outcomes x hx
    rw [hid, hout]
    exact h.outcomes e he
  · refine Store.forall_putEvent hs he hkeys ?_ fun x hx _ => ?_
    · rw [updatesOf_append_of_nil hlog, hid, h.updates e he, horder]
      simp only [happ]
    · rw [updatesOf_append_of_nil hlog]
      exact h.updates x hx
  · rcases List.mem_append.mp hc with hc | hc
    · obtain ⟨event, hevent, hex⟩ := h.claimed c hc hne
      exact ⟨event, hevent, hmem _ hex⟩
    · obtain rfl := List.mem_singleton.mp hc
      exact absurd hlog hne

omit [Platform] in
/-- The events that are known stay known when one is rewritten. -/
theorem exists_putEvent (hs : s.Keyed) {e e' : EventRow} (he : e ∈ s.events)
    (hkeys : e.keys = e'.keys) (hid : e'.eventId = e.eventId) {id : String}
    (h : ∃ x ∈ s.events, x.eventId = id) : ∃ x ∈ (s.putEvent e').events, x.eventId = id := by
  obtain ⟨x, hx, rfl⟩ := h
  by_cases hxe : x = e
  · exact ⟨e', (Store.mem_putEvent hs he hkeys).mpr (.inl rfl), by rw [hid, hxe]⟩
  · exact ⟨x, (Store.mem_putEvent hs he hkeys).mpr (.inr ⟨hx, hxe⟩), rfl⟩

/-- A worker that finishes with an event writes its trace: the invariant is kept. -/
theorem ExactlyOnce.finish (h : ExactlyOnce journal s) (hs : s.Keyed) {e e' : EventRow}
    {now : Timestamp} {o : OrderRow} {row : HistoryRow} (he : e ∈ s.events)
    (hclaim : e.claimable now = true) (hkeys : e.keys = e'.keys)
    (hid : e'.eventId = e.eventId) (hrow : row.eventId = some e.eventId)
    (hout : e'.outcomes = [row.outcome]) (hclaimed : claimedEvent? log = some e)
    (hup : orderUpdates log = if e'.processingStatus = .applied then [e'.orderId] else []) :
    ExactlyOnce (journal ++ [(i, log)]) (((s.putOrder o).addHistory row).putEvent e') := by
  obtain ⟨hnone, hnot⟩ := EventRow.outcomes_of_claimable hclaim
  have hhistory : ∀ id, (((s.putOrder o).addHistory row).putEvent e').historyOf id =
      s.historyOf id ++ if row.eventId = some id then [row] else [] :=
    fun id => historyOf_addHistory (s := s.putOrder o) row
  have hnil : s.historyOf e.eventId = [] := by
    have hout := h.outcomes e he
    rwa [hnone, List.map_eq_nil_iff] at hout
  refine ⟨?_, ?_, fun r hr id hrid => ?_, fun c hc hne => ?_⟩
  · refine Store.forall_putEvent hs he hkeys ?_ fun x hx hne => ?_
    · rw [hhistory, hid, if_pos hrow, hnil, hout]
      rfl
    · have hother : row.eventId ≠ some x.eventId := by
        rw [hrow]
        exact fun heq => hne (Option.some.inj heq).symm
      rw [hhistory, if_neg hother, List.append_nil]
      exact h.outcomes x hx
  · refine Store.forall_putEvent hs he hkeys ?_ fun x hx hne => ?_
    · have hupd := h.updates e he
      rw [if_neg hnot] at hupd
      rw [updatesOf_append, hclaimed, hid, hupd, hup]
      simp
    · have hother : ¬ (some e).any (fun event => event.eventId = x.eventId) = true := by
        simpa using Ne.symm hne
      rw [updatesOf_append, hclaimed, if_neg hother, List.append_nil]
      exact h.updates x hx
  · rcases List.mem_append.mp hr with hr | hr
    · exact exists_putEvent hs he hkeys hid (h.historyEvent r hr id hrid)
    · obtain rfl := List.mem_singleton.mp hr
      obtain rfl : e.eventId = id := Option.some.inj (hrow.symm.trans hrid)
      exact exists_putEvent hs he hkeys hid ⟨e, he, rfl⟩
  · rcases List.mem_append.mp hc with hc | hc
    · obtain ⟨event, hevent, hex⟩ := h.claimed c hc hne
      exact ⟨event, hevent, exists_putEvent hs he hkeys hid hex⟩
    · obtain rfl := List.mem_singleton.mp hc
      exact ⟨e, hclaimed, exists_putEvent hs he hkeys hid ⟨e, he, rfl⟩⟩

/-- A transaction that writes no event, no history and no order keeps the invariant. -/
theorem ExactlyOnce.idle (h : ExactlyOnce journal s) (hlog : orderUpdates log = []) :
    ExactlyOnce (journal ++ [(i, log)]) s where
  outcomes := h.outcomes
  updates := fun e he => by
    rw [updatesOf_append_of_nil hlog]
    exact h.updates e he
  historyEvent := h.historyEvent
  claimed := fun c hc hne => by
    rcases List.mem_append.mp hc with hc | hc
    · exact h.claimed c hc hne
    · obtain rfl := List.mem_singleton.mp hc
      exact absurd hlog hne

/-- The invariant speaks of the events and of their history only. -/
theorem ExactlyOnce.congr (h : ExactlyOnce journal s) (he : s'.events = s.events)
    (hh : ∀ id, s'.historyOf id = s.historyOf id) : ExactlyOnce journal s' where
  outcomes := fun e hmem => by
    rw [hh]
    exact h.outcomes e (he ▸ hmem)
  updates := fun e hmem => h.updates e (he ▸ hmem)
  historyEvent := fun row hrow id hid => by
    have hmem : row ∈ s'.historyOf id := List.mem_filter.mpr ⟨hrow, by simp [hid]⟩
    rw [hh] at hmem
    rw [he]
    exact h.historyEvent row (List.mem_filter.mp hmem).1 id hid
  claimed := fun c hc hne => by
    rw [he]
    exact h.claimed c hc hne

/-- **Every change keeps the invariant.**

**Proof sketch.** Only a worker that finishes with an event writes to its history or to its order,
and the event was claimable, so that it had no trace before.  The other changes rewrite event
rows without changing what their trace should be, or concern no event. -/
theorem Change.exactlyOnce {c : Call} {x : Option Answer} (hs : s.Keyed)
    (h : ExactlyOnce journal s) (hc : Change cfg c log x s s') :
    ExactlyOnce (journal ++ [(i, log)]) s' := by
  cases hc with
  | @created _ req d w row occurredAt hnew htime hrow =>
    obtain ⟨hnil, hupd⟩ := h.of_unknown hnew
    set e := req.event.row d.eventId occurredAt with he
    have hid : e.eventId = req.rawBody.json.eventId := rfl
    have hfresh : e.outcomes = [] ∧ e.processingStatus ≠ .applied := by
      rcases req.event_status with ⟨hst, -, -⟩ | ⟨hst, hreason, -⟩
      · simp [he, EventInsertParams.row, EventRow.outcomes, hst]
      · simp [he, EventInsertParams.row, EventRow.outcomes, hst, hreason]
    have h' : ExactlyOnce (journal ++ [(i, [⟨.upsertAndDeliver req.event req.delivery, d, row, w⟩])]) s :=
      h.idle rfl
    refine ⟨fun x hx => ?_, fun x hx => ?_, fun r hr id hrid => ?_, fun c hc hne => ?_⟩
    · rcases List.mem_append.mp hx with hx | hx
      · exact h.outcomes x hx
      · obtain rfl := List.mem_singleton.mp hx
        rw [hfresh.1, hid]
        exact List.map_eq_nil_iff.mpr hnil
    · rcases List.mem_append.mp hx with hx | hx
      · exact h'.updates x hx
      · obtain rfl := List.mem_singleton.mp hx
        rw [updatesOf_append_of_nil (by rfl), if_neg hfresh.2, hid, hupd]
    · obtain ⟨y, hy, hyid⟩ := h.historyEvent r hr id hrid
      exact ⟨y, List.mem_append.mpr (.inl hy), hyid⟩
    · obtain ⟨event, hevent, y, hy, hyid⟩ := h'.claimed c hc hne
      exact ⟨event, hevent, y, List.mem_append.mpr (.inl hy), hyid⟩
  | @counted _ req d w row old hold hfits hrow =>
    have hlog : orderUpdates [⟨.upsertAndDeliver req.event req.delivery, d, row, w⟩] = [] := rfl
    have h' : ExactlyOnce (journal ++ [(i, _)])
        (s.putEvent { old with deliveryCount := old.deliveryCount + 1 }) :=
      h.rewrite hs (Store.mem_of_event? hold).1 rfl rfl rfl Iff.rfl hlog
    exact h'.congr rfl fun _ => rfl
  | idle => exact h.idle rfl
  | applied hev hclaim hopen hmap hseq hamount =>
    exact h.finish hs hev hclaim rfl rfl rfl rfl rfl rfl
  | ignored hev hclaim hopen hreason =>
    refine h.finish hs hev hclaim rfl rfl rfl ?_ rfl rfl
    rcases hreason with ⟨-, rfl⟩ | ⟨-, -, rfl⟩ <;> rfl
  | retried hev hclaim heval =>
    obtain ⟨hnone, hnot⟩ := EventRow.outcomes_of_claimable hclaim
    exact h.rewrite hs hev rfl rfl (by rw [hnone]; rfl) (by simp [EventRow.retryScheduled, hnot]) rfl
  | buried hev hclaim heval =>
    obtain ⟨hnone, hnot⟩ := EventRow.outcomes_of_claimable hclaim
    exact h.rewrite hs hev rfl rfl (by rw [hnone]; rfl) (by simp [EventRow.dlq, hnot]) rfl
  | unknown => exact h.idle rfl
  | replayed hev hdlq =>
    refine h.rewrite hs hev rfl rfl ?_ (by simp [EventRow.replayed, hdlq]) rfl
    simp [EventRow.outcomes, EventRow.replayed, hdlq]
  | notInDlq hev hdlq => exact h.idle rfl
  | reconciled hrun hturns hdetails hrows =>
    refine (h.idle ?_).congr hturns.inbox_eq.1 hturns.historyOf_eq
    have hloop := hturns.orderUpdates_eq
    have hdet := hdetails.orderUpdates_eq
    simp only [orderUpdates, List.filterMap_cons, List.filterMap_append] at hloop hdet ⊢
    rw [hloop, hdet]
    rfl

end Changes

/-! ## The unique index -/

section Index

variable {s : Store}

/-- Statements on orders write no history. -/
theorem history_install_of_orders {log : Log} (hlog : ∀ e ∈ log, OrderStatement e.stmt)
    (h : Redoes log s) : (install (E := postgres) s log).history = s.history := by
  have hnone : log.filterMap insertedHistory? = [] := by
    refine List.filterMap_eq_nil_iff.mpr fun e he => ?_
    have hstmt := hlog e he
    obtain ⟨q, d, rows, ws⟩ := e
    cases q <;> first | rfl | cases hstmt
  rw [history_install h, hnone, List.append_nil]

/-- What an insertion of a history row that the index rejects has found. -/
theorem exec_insertHistory_rejected {v : HistoryValues} {d : Draws} {skip : Key → Bool}
    {eventId : String}
    (h : exec (.insertHistory v) d skip s = .error (.uniqueViolation (.historyEvent eventId))) :
    v.eventId = some eventId ∧ s.historyOf eventId ≠ [] := by
  simp only [exec] at h
  split at h
  · rename_i st hst
    simp only [Store.insertRow, Store.insertable] at h
    split at h
    · simp [Except.map] at h
    · split at h
      · rename_i k hk
        obtain rfl : k = .historyEvent eventId := by simpa [Except.map] using h
        have hmem := List.mem_of_find?_eq_some hk
        have hlook := List.find?_some hk
        simp only [Row.keys, HistoryRow.keys, HistoryValues.row, List.mem_cons, reduceCtorEq,
          List.mem_map, Option.mem_toList, Key.historyEvent.injEq, exists_eq_right, false_or] at hmem
        refine ⟨hmem, fun hnil => ?_⟩
        simp only [Store.look, Option.isSome_map] at hlook
        obtain ⟨row, hrow⟩ := Option.isSome_iff_exists.mp hlook
        obtain ⟨hrow, hkey⟩ := Tables.mem_of_find hrow
        refine historyOf_eq_nil.mp hnil row hrow ?_
        simpa [HistoryRow.keys] using hkey
      · split at h <;> simp [Except.map] at h
  · cases h

end Index

/-! ## Every reachable state -/

variable {cfg : WorkerConfig} {w : State}

/-- The invariant holds in every reachable state. -/
theorem Reach.exactlyOnce (h : Reach cfg .empty w) : ExactlyOnce w.journal w.db := by
  refine h.changes_induction (P := ExactlyOnce) Store.keyed_empty ?_ fun _ _ _ _ _ _ _ _ hs hP hc =>
    hc.exactlyOnce hs hP
  exact ⟨by simp [Store.empty], by simp [Store.empty], by simp [Store.empty], by simp⟩

/-- A worker about to write the history of an event finds none. -/
theorem Reach.no_history (h : Reach cfg .empty w) {i : ℕ} {s : Session postgres Call Answer}
    {v : HistoryValues} {ok : Unit → Prog postgres Answer} {failed : DbError → Prog postgres Answer}
    {t : Tx postgres} {eventId : String} (hs : w.sessions i = some s)
    (hp : s.prog = .ask (.run (Stmt.insertHistory v)) ok failed) (ht : s.conn.tx = some t)
    (hv : v.eventId = some eventId) : Store.historyOf (t.view w.db) eventId = [] := by
  have hwp := h.wp hs
  rw [hp] at hwp
  obtain ⟨event, d, w', log, hlog, hid, horder⟩ := hwp.1.history v eventId rfl hv t ht
  have hredo := ((h.coherent Store.keyed_empty).sound i s t hs ht).redoes
  rw [hlog] at hredo
  obtain ⟨hev, hclaim, rfl, hrest⟩ := redoes_claim hredo
  have hview : (t.view w.db).history = Store.history w.db := by
    rw [Tx.view, hlog]
    show (install (E := postgres) w.db log).history = _
    exact history_install_of_orders horder hrest
  have hout := h.exactlyOnce.outcomes event hev
  rw [(EventRow.outcomes_of_claimable hclaim).1, List.map_eq_nil_iff, hid] at hout
  rw [Store.historyOf, hview]
  exact hout

/-- **Exactly-once business effect.** -/
theorem business_effect_exactly_once (h : Reach cfg .empty w) :
    (∀ e ∈ w.db.events,
      (e.processingStatus = .applied ∨
          e.processingStatus = .ignored ∧ e.outcomeReason ≠ some .staleTimestamp →
        ∃ row, w.db.historyOf e.eventId = [row] ∧
          row.outcome.processingStatus? = some e.processingStatus) ∧
      (e.processingStatus = .pending ∨ e.processingStatus = .retryScheduled ∨
          e.processingStatus = .dlq ∨
          e.processingStatus = .ignored ∧ e.outcomeReason = some .staleTimestamp →
        w.db.historyOf e.eventId = []) ∧
      (e.processingStatus = .applied → updatesOf e.eventId w.journal = [e.orderId]) ∧
      (e.processingStatus ≠ .applied → updatesOf e.eventId w.journal = [])) ∧
    (∀ eventId, w.db.event? eventId = none →
      w.db.historyOf eventId = [] ∧ updatesOf eventId w.journal = []) ∧
    (∀ c ∈ w.journal, orderUpdates c.2 ≠ [] → ∃ event, claimedEvent? c.2 = some event) ∧
    (∀ i s v ok failed t d skip eventId, w.sessions i = some s →
      s.prog = .ask (.run (Stmt.insertHistory v)) ok failed → s.conn.tx = some t →
      exec (.insertHistory v) d skip (t.view w.db) ≠
        .error (.uniqueViolation (.historyEvent eventId))) := by
  have hinv := h.exactlyOnce
  refine ⟨fun e he => ⟨fun hst => ?_, fun hst => ?_, fun hst => ?_, fun hst => ?_⟩,
    fun eventId => hinv.of_unknown, fun c hc hne => ?_, ?_⟩
  · have hout := hinv.outcomes e he
    have hone : e.outcomes = [.applied] ∧ e.processingStatus = .applied ∨
        e.outcomes = [.ignored] ∧ e.processingStatus = .ignored := by
      rcases hst with hst | ⟨hst, hreason⟩
      · exact .inl ⟨by simp [EventRow.outcomes, hst], hst⟩
      · exact .inr ⟨by simp [EventRow.outcomes, hst, hreason], hst⟩
    rcases hone with ⟨hone, hst⟩ | ⟨hone, hst⟩
    all_goals
      rw [hone] at hout
      obtain ⟨row, hrow, hout⟩ := List.map_eq_singleton_iff.mp hout
      exact ⟨row, hrow, by rw [hout, hst]; rfl⟩
  · have hnil : e.outcomes = [] := by
      rcases hst with hst | hst | hst | ⟨hst, hreason⟩
      · simp [EventRow.outcomes, hst]
      · simp [EventRow.outcomes, hst]
      · simp [EventRow.outcomes, hst]
      · simp [EventRow.outcomes, hst, hreason]
    have hout := hinv.outcomes e he
    rwa [hnil, List.map_eq_nil_iff] at hout
  · have hupd := hinv.updates e he
    rwa [if_pos hst] at hupd
  · have hupd := hinv.updates e he
    rwa [if_neg hst] at hupd
  · obtain ⟨event, hevent, -⟩ := hinv.claimed c hc hne
    exact ⟨event, hevent⟩
  · intro i s v ok failed t d skip eventId hs hp ht hx
    obtain ⟨hv, hne⟩ := exec_insertHistory_rejected hx
    exact hne (h.no_history hs hp ht hv)

omit [Platform] in
/-- In the sample, the event has one history row and one update of its order. -/
theorem business_effect_sample : letI := samplePlatform
    ∃ w : State, Reach .default .empty w ∧
      (∃ row, w.db.historyOf "evt_1" = [row] ∧ row.outcome.processingStatus? = some .applied) ∧
      ∃ orderId, updatesOf "evt_1" w.journal = [orderId] := by
  let _ := samplePlatform
  obtain ⟨w, e, o, hrest, hevents, hid, happlied, -⟩ := exists_applied_sample
  obtain ⟨hevent, -⟩ := business_effect_exactly_once hrest.reach
  obtain ⟨hrow, -, hupd, -⟩ := hevent e (by simp [hevents])
  rw [hid, happlied] at hrow hupd
  exact ⟨w, hrest.reach, hrow (.inl rfl), e.orderId, hupd rfl⟩

end PaymentWebhook
