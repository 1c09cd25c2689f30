import PaymentWebhook.Deliveries
import PaymentWebhook.Entries
import PaymentWebhook.ExactlyOnce

set_option relaxedAutoImplicit false
set_option autoImplicit false

/-!
# What moved an order

The last sequence of an order is not a number of its own: an event that was applied, or an entry of
a snapshot that was repaired, has left it there.  The one exception is the default of a new row,
which is also a sequence that an event may have.

## Main definitions

* `PaymentWebhook.Store.Accounts` — what a history row is about.
* `PaymentWebhook.Store.Overtaken` — an event comes too late.

## Main results

* `PaymentWebhook.Reach.accounts` — every history row is about an event or a repair.
* `PaymentWebhook.Reach.moved` — what has moved an order to where it stands.
* `PaymentWebhook.stale_sequence_sound_iff` — when `STALE_SEQUENCE` tells the truth.
-/

namespace PaymentWebhook

open Transactions

/-! ## What the history is about -/

/-- **What a history row is about**: an event that a worker has finished with, or a repair. -/
inductive Store.Accounts (s : Store) (r : HistoryRow) : Prop where
  | event {e : EventRow} (he : e ∈ s.events) (horder : e.orderId = r.orderId)
      (hseq : e.sequence = r.sequence)
      (hout : r.outcome = .ignored ∨ r.outcome = .applied ∧ e.processingStatus = .applied)
  | repair {d : DetailRow} (hd : d ∈ s.details) (horder : d.orderId = r.orderId)
      (hseq : d.providerSequence = r.sequence) (hact : d.action = .repaired)

section Moves

variable {cfg : WorkerConfig} {e e' : EventRow}

/-- A move keeps the order and the sequence of an event, and leaves it applied. -/
theorem EventMove.keeps (h : EventMove cfg e e') : e'.eventId = e.eventId ∧
    e'.orderId = e.orderId ∧ e'.sequence = e.sequence ∧
    (e.processingStatus = .applied → e'.processingStatus = .applied) := by
  refine ⟨(congrArg EventRow.eventId h.origin_eq :), (congrArg EventRow.orderId h.origin_eq :),
    (congrArg EventRow.sequence h.origin_eq :), fun happlied => ?_⟩
  rcases h.next with hsame | hnext
  · rw [hsame, happlied]
  · rw [happlied] at hnext
    exact hnext.elim

/-- Of an event that has been ignored only the deliveries are counted. -/
theorem EventMove.reason_eq (h : EventMove cfg e e') (hi : e.processingStatus = .ignored) :
    e'.outcomeReason = e.outcomeReason := by
  have hclaim : ∀ now, e.claimable now = false := by
    intro now
    simp [EventRow.claimable, hi]
  cases h with
  | counted => rfl
  | replayed hdlq => simp [hi] at hdlq
  | applied d hc => simp [hclaim] at hc
  | ignored d hc => simp [hclaim] at hc
  | retried error hc => simp [hclaim] at hc
  | buried error d hc => simp [hclaim] at hc

end Moves

section Changes

variable [Platform] {cfg : WorkerConfig} {s s' : Store}

/-- What a row is about stays. -/
theorem Store.Accounts.change {c : Call} {log : Log} {x : Option Answer} (hs : s.Keyed)
    (hc : Change cfg c log x s s') {r : HistoryRow} (h : s.Accounts r) : s'.Accounts r := by
  cases h with
  | @event e he horder hseq hout =>
    rcases hc.inbox.forward hs he with he' | ⟨e', he', hm⟩
    · exact .event he' horder hseq hout
    · obtain ⟨-, horder', hseq', happlied⟩ := hm.keeps
      exact .event he' (horder'.trans horder) (hseq'.trans hseq)
        (hout.imp_right fun h => ⟨h.1, happlied h.2⟩)
  | repair hd horder hseq hact => exact .repair (hc.details.1 _ hd) horder hseq hact

omit [Platform] in
/-- A run is accounted for in its details. -/
theorem RunSpec.accounts {orders : List ProviderOrder} {r : ReconciliationRunResult}
    (h : RunSpec orders s r s') : ∀ row ∈ s'.history, row ∈ s.history ∨ s'.Accounts row := by
  obtain ⟨xs, hxs, hhistory, hdetails⟩ := h.entries
  obtain ⟨rows, hrows, hrecords⟩ := h.persisted
  intro row hrow
  rw [hhistory] at hrow
  refine (List.mem_append.mp hrow).imp_right fun hrow => ?_
  obtain ⟨x, hx, hwritten⟩ := List.mem_flatMap.mp hrow
  obtain ⟨o, -, hspec, -⟩ := exists_of_forall₂ hxs.flip hx
  have hrepaired := hspec.repaired_of_written hwritten
  obtain ⟨row', heq, hrepairs⟩ := hrepaired.written
  obtain rfl : row = row' := by simpa [heq] using hwritten
  have hdetail : x.detail ∈ r.details := hdetails ▸ List.mem_map_of_mem hx
  obtain ⟨d, hd, hrecord⟩ := exists_of_forall₂ hrecords hdetail
  rw [hrepaired.detail] at hrecord
  exact .repair (hrows ▸ List.mem_append.mpr (.inr hd)) (hrecord.orderId.trans hrepairs.orderId.symm)
    (hrecord.providerSequence.trans hrepairs.sequence.symm) hrecord.action

/-- Every run that is committed meets its specification. -/
theorem Change.exists_run {snapshot : ValidSnapshot} {log : Log} {x : Option Answer}
    (hc : Change cfg (.reconcile snapshot) log x s s') : ∃ r, RunSpec snapshot.orders s r s' := by
  obtain ⟨r, rfl⟩ : ∃ r, x = some (.reconciled r) := by
    cases hc
    exact ⟨_, rfl⟩
  exact ⟨r, hc.runSpec⟩

/-- **Every change accounts for the history it writes.** -/
theorem Change.accounts {c : Call} {log : Log} {x : Option Answer} (hs : s.Keyed)
    (h : ∀ r ∈ s.history, s.Accounts r) (hc : Change cfg c log x s s') :
    ∀ r ∈ s'.history, s'.Accounts r := by
  have hold : ∀ r ∈ s.history, s'.Accounts r := fun r hr => (h r hr).change hs hc
  -- the row that a worker writes when it finishes with an event
  have hfinish : ∀ {o : OrderRow} {e e' : EventRow} {row : HistoryRow}, e ∈ s.events →
      s' = ((s.putOrder o).addHistory row).putEvent e' → e.keys = e'.keys →
      e'.orderId = row.orderId → e'.sequence = row.sequence →
      (row.outcome = .ignored ∨ row.outcome = .applied ∧ e'.processingStatus = .applied) →
      ∀ r ∈ s'.history, s'.Accounts r := by
    intro o e e' row he hs' hkeys horder hseq hout r hr
    have hmem : e' ∈ s'.events := by
      rw [hs']
      exact (Store.mem_putEvent hs he hkeys).mpr (.inl rfl)
    have hhistory : s'.history = s.history ++ [row] := by rw [hs']; rfl
    rw [hhistory] at hr
    rcases List.mem_append.mp hr with hr | hr
    · exact hold r hr
    · obtain rfl := List.mem_singleton.mp hr
      exact .event hmem horder hseq hout
  by_cases hreconcile : ∃ snapshot, c = .reconcile snapshot
  · obtain ⟨snapshot, rfl⟩ := hreconcile
    obtain ⟨r, hspec⟩ := hc.exists_run
    exact fun row hrow => (hspec.accounts row hrow).elim (hold row) id
  · cases hc with
    | applied hev hclaim hopen hmap hseq hamount =>
      exact hfinish hev rfl rfl rfl rfl (.inr ⟨rfl, rfl⟩)
    | ignored hev hclaim hopen hreason => exact hfinish hev rfl rfl rfl rfl (.inl rfl)
    | reconciled hrun hturns hdetails hrows => exact absurd ⟨_, rfl⟩ hreconcile
    | _ => exact hold

end Changes

section Reachable

variable [Platform] {cfg : WorkerConfig} {w w' : State}

/-- **Every history row is about an event or a repair.** -/
theorem Reach.accounts (h : Reach cfg .empty w) : ∀ r ∈ w.db.history, w.db.Accounts r :=
  h.changes_induction (P := fun _ s => ∀ r ∈ Store.history s, Store.Accounts s r) Store.keyed_empty
    (by simp [Store.empty]) fun _ _ _ _ _ _ _ _ hs hP hc => hc.accounts hs hP

/-- **What has moved an order** to where it stands, if it has been moved at all. -/
theorem Reach.moved (h : Reach cfg .empty w) {id : String} {o : OrderRow}
    (ho : w.db.order? id = some o) (hne : o.lastSequence ≠ 0) :
    (∃ e ∈ w.db.events, e.orderId = id ∧ e.processingStatus = .applied ∧
      e.sequence = o.lastSequence) ∨
    ∃ d ∈ w.db.details, d.orderId = id ∧ d.action = .repaired ∧
      d.providerSequence = o.lastSequence := by
  obtain ⟨-, haudited⟩ := (h.audited id).present o ho
  have hmoved : (effects (w.db.trail id)).Nonempty := by
    by_contra hno
    exact hne (haudited.none_effective (Set.not_nonempty_iff_eq_empty.mp hno))
  obtain ⟨⟨r, hr, heffective, hseq⟩, -⟩ := haudited.greatest hmoved
  obtain ⟨hmem, hid⟩ := List.mem_filter.mp hr
  obtain rfl : r.orderId = id := by simpa using hid
  cases h.accounts r hmem with
  | @event e he horder hseq' hout =>
    rcases hout with hignored | ⟨-, happlied⟩
    · simp [HistoryRow.effective, hignored] at heffective
    · exact .inl ⟨e, he, horder, happlied, hseq'.trans hseq⟩
  | @repair d hd horder hseq' hact => exact .inr ⟨d, hd, horder, hact, hseq'.trans hseq⟩

/-! ## Events that come too late -/

omit [Platform] in
/-- **The event comes too late**: another event of its order with at least its sequence has been
applied, or an entry with at least its sequence has repaired its order. -/
def Store.Overtaken (s : Store) (e : EventRow) : Prop :=
  (∃ x ∈ s.events, x.eventId ≠ e.eventId ∧ x.orderId = e.orderId ∧
    x.processingStatus = .applied ∧ e.sequence ≤ x.sequence) ∨
  ∃ d ∈ s.details, d.orderId = e.orderId ∧ d.action = .repaired ∧ e.sequence ≤ d.providerSequence

/-- The step from `w` to `w'` marks the event `STALE_SEQUENCE`. -/
def MarksStale (w w' : State) (e : EventRow) : Prop :=
  e ∈ w.db.events ∧ e.processingStatus ≠ .ignored ∧ ∃ e' ∈ w'.db.events, e'.eventId = e.eventId ∧
    e'.processingStatus = .ignored ∧ e'.outcomeReason = some .staleSequence

omit [Platform] in
/-- The row with the `event_id` of an event, after an event has been rewritten. -/
theorem Store.mem_putEvent_same {s : Store} (hs : s.Keyed) {e₀ e₁ e e' : EventRow}
    (he₀ : e₀ ∈ s.events) (hkeys : e₀.keys = e₁.keys) (he : e ∈ s.events)
    (he' : e' ∈ (s.putEvent e₁).events) (hid : e'.eventId = e.eventId) :
    e' = e ∨ (e = e₀ ∧ e' = e₁) := by
  rcases (Store.mem_putEvent hs he₀ hkeys).mp he' with rfl | ⟨hmem, -⟩
  · have hkey : Key.event e.eventId ∈ e₀.keys := by
      rw [hkeys, ← hid]
      simp [EventRow.keys]
    exact .inr ⟨hs.events.eq_of_mem he he₀ (by simp [EventRow.keys]) hkey, rfl⟩
  · exact .inl (hs.eq_of_eventId he hmem hid)

omit [Platform] in
/-- The store after a worker has applied the event `e` to the order row `o`. -/
structure AppliedTo (s s' : Store) (e e' : EventRow) (o : OrderRow) : Prop where
  after : ∃ status amount d₃ d₄ d₅, mapEventToStatus e.eventType = some (.known status) ∧
    numericParam (e.payload.data.bind PaymentWebhookData.amount) = .ok amount ∧
    e' = e.applied d₅ ∧ s' = ((s.putOrder (o.applied status e.sequence amount
      (e.payload.data.bind PaymentWebhookData.currency) d₃)).addHistory
      (eventHistory e o.status status .applied none d₄)).putEvent (e.applied d₅)
  sequence : o.lastSequence < e.sequence

/-- **A change that finishes with an event** has opened its order, and applies the event or leaves it
out. -/
theorem Change.finish {c : Call} {log : Log} {x : Option Answer} {s s' : Store} {e e' : EventRow}
    (hs : s.Keyed) (hc : Change cfg c log x s s') (he : e ∈ s.events) (hold : e.finished = false)
    (he' : e' ∈ s'.events) (hid : e'.eventId = e.eventId) (hnew : e'.finished = true) :
    ∃ d isNew o, OpenedOrder s e.orderId d isNew o ∧
      (AppliedTo s s' e e' o ∨
        (e'.processingStatus = .ignored ∧
          (e'.outcomeReason = some .staleSequence → e.sequence ≤ o.lastSequence))) := by
  have hmoved : ∀ {e₀ e₁ : EventRow}, e₀ ∈ s.events → e' ∈ (s.putEvent e₁).events →
      e₀.keys = e₁.keys → e = e₀ ∧ e' = e₁ := by
    intro e₀ e₁ he₀ hmem hkeys
    refine (Store.mem_putEvent_same hs he₀ hkeys he hmem hid).resolve_left ?_
    rintro rfl
    rw [hold] at hnew
    cases hnew
  have hkept : e' ∉ s.events := by
    intro hmem
    obtain rfl := hs.eq_of_eventId he hmem hid
    rw [hold] at hnew
    cases hnew
  cases hc with
  | @created _ req d _ _ occurredAt hfresh htime hrow =>
    rcases List.mem_append.mp he' with hmem | hmem
    · exact absurd hmem hkept
    · obtain rfl := List.mem_singleton.mp hmem
      exact absurd hid (Store.event?_eq_none.mp hfresh e he).symm
  | counted hfound hfits hrow =>
    obtain ⟨rfl, rfl⟩ := hmoved (Store.mem_of_event? hfound).1 he' rfl
    exact absurd (hold.symm.trans hnew) (by simp)
  | applied hev hclaim hopen hmap hseq hamount =>
    obtain ⟨rfl, rfl⟩ := hmoved hev he' rfl
    exact ⟨_, _, _, hopen, .inl ⟨⟨_, _, _, _, _, hmap, hamount, rfl, rfl⟩, hseq⟩⟩
  | ignored hev hclaim hopen hwhy =>
    obtain ⟨rfl, rfl⟩ := hmoved hev he' rfl
    refine ⟨_, _, _, hopen, .inr ⟨rfl, fun hreason => ?_⟩⟩
    have hreason' := Option.some.inj hreason
    rcases hwhy with ⟨-, rfl⟩ | ⟨-, hle, -⟩
    · cases hreason'
    · exact hle
  | retried hev hclaim heval =>
    obtain ⟨rfl, rfl⟩ := hmoved hev he' rfl
    cases hnew
  | buried hev hclaim heval =>
    obtain ⟨rfl, rfl⟩ := hmoved hev he' rfl
    cases hnew
  | replayed hev hdlq =>
    obtain ⟨rfl, rfl⟩ := hmoved hev he' rfl
    cases hnew
  | reconciled hrun hturns hdetails hrows => exact absurd (hturns.inbox_eq.1 ▸ he') hkept
  | _ => exact absurd he' hkept

/-- A step that marks an event stale has found its order at its sequence or beyond. -/
theorem MarksStale.opened {e : EventRow} (h : Reach cfg .empty w)
    (hstep : Step (program cfg) w w') (hstale : MarksStale w w' e) :
    e.processingStatus ≠ .applied ∧
      ∃ d isNew o, OpenedOrder w.db e.orderId d isNew o ∧ e.sequence ≤ o.lastSequence := by
  obtain ⟨he, hnot, e', he', hid, hignored, hreason⟩ := hstale
  have hs : Store.Keyed w.db := (h.coherent Store.keyed_empty).inv
  rcases h.step_commits Store.keyed_empty hstep with ⟨hdb, -⟩ | ⟨i, s, log, x, -, hlog, hredo, hdb, -⟩
  · rw [hdb] at he'
    obtain rfl := hs.eq_of_eventId he he' hid
    exact absurd hignored hnot
  have hc : Change cfg s.call log x w.db (install (E := postgres) w.db log) :=
    change_of_redoes hs hlog hredo
  rw [← hdb] at hc
  have hs' : Store.Keyed w'.db := ((h.step hstep).coherent Store.keyed_empty).inv
  have happlied : e.processingStatus ≠ .applied := by
    intro happlied
    rcases hc.inbox.forward hs he with hmem | ⟨e₁, he₁, hm⟩
    · obtain rfl := hs'.eq_of_eventId hmem he' hid
      exact hnot hignored
    · obtain ⟨hid₁, -, -, hkeeps⟩ := hm.keeps
      obtain rfl := hs'.eq_of_eventId he₁ he' (hid.trans hid₁.symm)
      exact absurd (hkeeps happlied) (by simp [hignored])
  have hold : e.finished = false := by simp [EventRow.finished, happlied, hnot]
  have hnew : e'.finished = true := by simp [EventRow.finished, hignored, hreason]
  obtain ⟨d, isNew, o, hopen, happ | ⟨-, hle⟩⟩ := hc.finish hs he hold he' hid hnew
  · obtain ⟨⟨_, _, _, _, _, _, _, rfl, _⟩, _⟩ := happ
    cases hignored
  · exact ⟨happlied, d, isNew, o, hopen, hle hreason⟩

/-- **An event with a positive sequence that is marked stale comes too late.** -/
theorem MarksStale.overtaken {e : EventRow} (h : Reach cfg .empty w)
    (hstep : Step (program cfg) w w') (hstale : MarksStale w w' e) (hpos : 1 ≤ e.sequence) :
    w.db.Overtaken e := by
  obtain ⟨hnot, d, isNew, o, hopen, hle⟩ := hstale.opened h hstep
  cases hopen with
  | fresh hno =>
    have hzero : (defaultOrder e.orderId d).lastSequence = 0 := rfl
    omega
  | found hfound =>
    rcases h.moved hfound (by omega) with ⟨x, hx, horder, happlied, hseq⟩ | ⟨y, hy, horder, hact, hseq⟩
    · refine .inl ⟨x, hx, fun hid => ?_, horder, happlied, by omega⟩
      have hs : Store.Keyed w.db := (h.coherent Store.keyed_empty).inv
      obtain rfl := hs.eq_of_eventId hstale.1 hx hid
      exact hnot happlied
    · exact .inr ⟨y, hy, horder, hact, by omega⟩

/-- A body that has been ingested can be stored. -/
theorem Reach.storable (h : Reach cfg .empty w) {b : RawBody} (hb : Ingested w b) : b.Storable := by
  obtain ⟨i, req, d, row, ws, rfl, hmem⟩ := hb
  obtain ⟨skip, s, hx⟩ := h.executed hmem _ (List.mem_singleton.mpr rfl)
  replace hx : exec (.upsertAndDeliver req.event req.delivery) d skip s = .ok (row, ws) := hx
  obtain ⟨occurredAt, e, w₁, htime, hjson, hupsert, -, -, -⟩ := upsertAndDeliver_ok.mp hx
  have hfits := (upsert_ok.mp hupsert).1
  simp only [EventRow.fits, Bool.and_eq_true, and_assoc] at hfits
  obtain ⟨hid, horder, htype, hseq, hpos, -⟩ := hfits
  exact ⟨Option.isSome_iff_exists.mpr ⟨occurredAt, htime⟩, hjson, hid, horder, htype, hseq,
    of_decide_eq_true hpos⟩

/-- The details stay. -/
theorem Reach.details_forever (h : Reach cfg .empty w) (hrun : Reachable (program cfg) w w') :
    ∀ d ∈ w.db.details, d ∈ w'.db.details := by
  suffices Reach cfg .empty w' ∧ ∀ d ∈ w.db.details, d ∈ w'.db.details from this.2
  induction hrun with
  | refl => exact ⟨h, fun d hd => hd⟩
  | @step w₁ w₂ hrun hstep ih =>
    obtain ⟨hreach, hkept⟩ := ih
    refine ⟨hreach.step hstep, fun d hd => ?_⟩
    rcases hreach.step_commits Store.keyed_empty hstep with
      ⟨hdb, -⟩ | ⟨i, s, log, x, -, hlog, hredo, hdb, -⟩
    · rw [hdb]
      exact hkept d hd
    · have hs : Store.Keyed w₁.db := (hreach.coherent Store.keyed_empty).inv
      rw [hdb]
      exact (change_of_redoes hs hlog hredo).details.1 d (hkept d hd)

/-- The columns of an event repeat its payload. -/
theorem Reach.columns_eq (h : Reach cfg .empty w) : ∀ e ∈ w.db.events,
    e.eventId = e.payload.eventId ∧ e.orderId = e.payload.orderId ∧
      e.eventType = e.payload.eventType ∧ e.sequence = e.payload.sequence := by
  refine h.events_induction (fun req id occurredAt => ⟨rfl, rfl, rfl, rfl⟩) fun e e' he hm => ?_
  have horigin := hm.origin_eq
  simp only [EventRow.origin, EventRow.mk.injEq] at horigin
  obtain ⟨-, hid, horder, htype, hseq, -, hpayload, -⟩ := horigin
  rwa [hid, horder, htype, hseq, hpayload]

/-- An event that is there is the same event later. -/
theorem Reach.same_event (h : Reach cfg .empty w) (hrun : Reachable (program cfg) w w')
    {e e' : EventRow} (he : e ∈ w.db.events) (he' : e' ∈ w'.db.events)
    (hid : e'.eventId = e.eventId) : e'.origin = e.origin := by
  obtain ⟨hreach, hforever⟩ := h.origin_forever hrun
  obtain ⟨x, hx, horigin⟩ := hforever e he
  have hx' : x.eventId = e.eventId := (EventRow.eq_of_origin_eq horigin).2.1
  have hs : Store.Keyed w'.db := (hreach.coherent Store.keyed_empty).inv
  rw [hs.eq_of_eventId hx he' (hid.trans hx'.symm), horigin]

/-- A run that marks an event stale has a step that does. -/
theorem Reach.exists_marksStale (h : Reach cfg .empty w) (hrun : Reachable (program cfg) w w')
    {e e' : EventRow} (he : e ∈ w.db.events) (hnot : e.processingStatus ≠ .ignored)
    (he' : e' ∈ w'.db.events) (hid : e'.eventId = e.eventId) (hignored : e'.processingStatus = .ignored)
    (hreason : e'.outcomeReason = some .staleSequence) :
    ∃ w₁ w₂ e₁, Reachable (program cfg) w w₁ ∧ Step (program cfg) w₁ w₂ ∧
      Reachable (program cfg) w₂ w' ∧ e₁.origin = e.origin ∧ MarksStale w₁ w₂ e₁ := by
  have hs : Store.Keyed w.db := (h.coherent Store.keyed_empty).inv
  obtain ⟨w₁, w₂, hrun₁, hstep, hrun₂, hbefore, e₂, he₂, hid₂, hignored₂, hreason₂⟩ :=
    hrun.crossing (P := fun w => ∃ x ∈ Store.events w.db, x.eventId = e.eventId ∧
      x.processingStatus = .ignored ∧ x.outcomeReason = some .staleSequence)
      (fun ⟨x, hx, hx', hxi, _⟩ => hnot (hs.eq_of_eventId he hx hx' ▸ hxi))
      ⟨e', he', hid, hignored, hreason⟩
  obtain ⟨hreach₁, hforever⟩ := h.origin_forever hrun₁
  obtain ⟨e₁, he₁, horigin⟩ := hforever e he
  have hid₁ : e₁.eventId = e.eventId := (EventRow.eq_of_origin_eq horigin).2.1
  refine ⟨w₁, w₂, e₁, hrun₁, hstep, hrun₂, horigin, he₁, fun hi => ?_, e₂, he₂,
    hid₂.trans hid₁.symm, hignored₂, hreason₂⟩
  -- if it was ignored before the step, then for the same reason
  refine hbefore ⟨e₁, he₁, hid₁, hi, ?_⟩
  have hs₂ : Store.Keyed w₂.db := ((hreach₁.step hstep).coherent Store.keyed_empty).inv
  rcases hreach₁.step_event hstep he₁ with hsame | ⟨e₃, he₃, hm⟩
  · rwa [hs₂.eq_of_eventId hsame he₂ (hid₂.trans hid₁.symm)] at hreason₂
  · have hid₃ : e₃.eventId = e.eventId := hm.keeps.1.trans hid₁
    rwa [hs₂.eq_of_eventId he₃ he₂ (hid₂.trans hid₃.symm), hm.reason_eq hi] at hreason₂

/-- **A first event with the sequence of a new order is marked stale**, although nothing has
happened before.

**Proof sketch.** The event is ingested into the empty store, and a worker makes its turn.  In the
end it is the only event, it has been ignored, and there are no details; so there was no other
event and no detail at the step that marked it. -/
theorem exists_first_stale (cfg : WorkerConfig) {b : RawBody} {status : OrderStatus}
    (hb : b.Storable) (hmap : mapEventToStatus b.json.eventType = some (.known status))
    (hzero : b.json.sequence ≤ 0) :
    ∃ w w' e, Reach cfg .empty w ∧ Step (program cfg) w w' ∧ Ingested w b ∧ e.payload = b.json ∧
      MarksStale w w' e ∧ ¬ w.db.Overtaken e := by
  obtain ⟨now, hrecent⟩ := b.exists_recent
  have hstart := Resting.start cfg ⟨now, 0, 0, 0, 0, 0⟩
  obtain ⟨w₁, e, i, t, hcont, -, hstaged, hbegun, -⟩ :=
    hstart.stage_turn hb hrecent (by rfl) ⟨0, 0⟩
  have hreach₁ := hcont.rest.reach
  have hseq : ∀ d isNew o, OpenedOrder .empty b.json.orderId d isNew o →
      b.json.sequence ≤ o.lastSequence := by
    rintro d isNew o (ho | ho)
    · exact hzero
    · cases ho
  obtain ⟨w₂, e', ⟨hfollows, -⟩, hconsumed, hignored, hreason, -⟩ := hstaged.ignore hcont.rest hbegun
    (by intro x hx; cases hx) (by intro r hr; cases hr) hmap hseq
  have hevents : Store.events w₂.db = [e'] := hconsumed.events
  have hdetails : Store.details w₂.db = [] := hconsumed.details
  have hnot : e.processingStatus ≠ .ignored := by simp [hstaged.awaits.pending]
  have hid : e'.eventId = e.eventId := hconsumed.eventId.trans hstaged.awaits.eventId.symm
  obtain ⟨w₃, w₄, e₃, hrun₃, hstep, hrun₄, horigin, hstale⟩ := hreach₁.exists_marksStale
    hfollows.run.reachable hstaged.mem hnot (by simp [hevents]) hid hignored hreason
  obtain ⟨hreach₃, -⟩ := hreach₁.origin_forever hrun₃
  have hrest : Reachable (program cfg) w₃ w₂ := (Reachable.refl.step hstep).trans hrun₄
  refine ⟨w₃, w₄, e₃, hreach₃, hstep, hstaged.ingested.mono hrun₃, ?_, hstale, ?_⟩
  · exact (congrArg EventRow.payload horigin :).trans hstaged.awaits.payload
  · rintro (⟨x, hx, hne, -, happlied, -⟩ | ⟨d, hd, -⟩)
    · obtain ⟨x', hx', -, hid', -⟩ := hreach₃.final hrest hx
      rw [hevents, List.mem_singleton] at hx'
      subst hx'
      refine hne (hid'.symm.trans (hid.trans ?_))
      exact (congrArg EventRow.eventId horigin :).symm
    · have := hreach₃.details_forever hrest d hd
      simp [hdetails] at this

/-- **When `STALE_SEQUENCE` tells the truth**: an accepted event that is marked stale always comes
too late exactly if its sequence is not the one a new order starts with, or PostgreSQL does not
accept it in the first place. -/
theorem stale_sequence_sound_iff (cfg : WorkerConfig) {b : RawBody}
    (hb : PaymentWebhookDto.accepts b.json = true) :
    (∀ w w' e, Reach cfg .empty w → Step (program cfg) w w' → Ingested w b → e.payload = b.json →
      MarksStale w w' e → w.db.Overtaken e) ↔ (b.Storable → 1 ≤ b.json.sequence) := by
  have haccepted := PaymentWebhookDto.accepts_iff.mp hb
  constructor
  · intro hsound hstorable
    by_contra hzero
    obtain ⟨status, hmap⟩ := PaymentWebhookDto.map_of_mem_allowed haccepted.eventType
    obtain ⟨w, w', e, h, hstep, hingested, hpayload, hstale, hnot⟩ :=
      exists_first_stale cfg hstorable hmap (by omega)
    exact hnot (hsound w w' e h hstep hingested hpayload hstale)
  · intro hpos w w' e h hstep hingested hpayload hstale
    refine hstale.overtaken h hstep ?_
    rw [(h.columns_eq e hstale.1).2.2.2, hpayload]
    exact hpos (h.storable hingested)

omit [Platform] in
theorem pendingBody_storable : @RawBody.Storable samplePlatform pendingBody :=
  let _ := samplePlatform
  ⟨rfl, rfl, by decide, by decide, by decide, by decide, by decide⟩

omit [Platform] in
/-- The authorization is never marked stale without reason. -/
theorem stale_sequence_sample : letI := samplePlatform
    PaymentWebhookDto.accepts authorizedBody.json = true ∧
      ∀ (w w' : State) e, Reach .default .empty w → Step (program .default) w w' →
        Ingested w authorizedBody → e.payload = authorizedBody.json → MarksStale w w' e →
        w.db.Overtaken e := by
  let _ := samplePlatform
  exact ⟨authorizedBody_accepts,
    (stale_sequence_sound_iff .default authorizedBody_accepts).mpr fun _ => by decide⟩

omit [Platform] in
/-- **The first event of an order whose events are numbered from zero is dropped as stale.** -/
theorem first_event_dropped : letI := samplePlatform
    PaymentWebhookDto.accepts pendingBody.json = true ∧
      ∃ (w w' : State) (e : EventRow), Reach .default .empty w ∧ Step (program .default) w w' ∧
        Ingested w pendingBody ∧ e.payload = pendingBody.json ∧ MarksStale w w' e ∧
        ¬ w.db.Overtaken e := by
  let _ := samplePlatform
  have hmap : mapEventToStatus pendingBody.json.eventType = some (.known .pending) := by decide
  exact ⟨pendingBody_accepts, exists_first_stale .default pendingBody_storable hmap (by decide)⟩

end Reachable

end PaymentWebhook
