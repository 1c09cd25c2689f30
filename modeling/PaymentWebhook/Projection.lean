import PaymentWebhook.Consumption
import PaymentWebhook.LifeCycle
import PaymentWebhook.Registers.LastWriter

set_option relaxedAutoImplicit false
set_option autoImplicit false

/-!
# The projection of an order

The status and the last sequence of an order are a last-writer-wins register: workers write to it
weakly, reconciliations strongly.  In every reachable state it holds what the events that workers
have finished with and the snapshot entries that reconciliations have handled determine, in
whatever order that happened.

## Main definitions

* `PaymentWebhook.Store.inputs` — what has been consumed for an order.
* `PaymentWebhook.Projected` — the register holds what its inputs determine.

## Main results

* `PaymentWebhook.Change.projected` — every change keeps the projection.
* `PaymentWebhook.order_projection` — the projection does not depend on the order of processing.
-/

namespace PaymentWebhook

open Transactions

/-! ## Inputs -/

/-- What an event or a snapshot entry writes to its order. -/
abbrev OrderWrite := LastWriter.Write OrderStatus ℤ

/-- A worker has finished with the event. -/
def EventRow.finished (e : EventRow) : Bool :=
  e.processingStatus = .applied ||
    (e.processingStatus = .ignored && e.outcomeReason ≠ some .staleTimestamp)

/-- What an event of a known type writes to its order once a worker has finished with it. -/
def EventRow.input? (e : EventRow) : Option OrderWrite :=
  match e.finished, mapEventToStatus e.eventType with
  | true, some (.known status) => some ⟨status, e.sequence, false⟩
  | _, _ => none

/-- What a snapshot entry writes to its order. -/
def ProviderOrder.input (o : ProviderOrder) : OrderWrite := ⟨o.status, o.sequence, true⟩

/-- The snapshot entry that a detail is about. -/
def DetailRow.input (d : DetailRow) : OrderWrite := ⟨d.providerStatus, d.providerSequence, true⟩

/-- The snapshot entry that a detail is about. -/
def ReconciliationDetail.input (d : ReconciliationDetail) : OrderWrite :=
  ⟨d.providerStatus, d.providerSequence, true⟩

/-- What workers and reconciliations have consumed for an order. -/
def Store.inputs (s : Store) (id : String) : Set OrderWrite :=
  {i | (∃ e ∈ s.events, e.orderId = id ∧ e.input? = some i) ∨
    ∃ d ∈ s.details, d.orderId = id ∧ d.input = i}

/-- What a reconciliation has handled so far for an order. -/
def Tally.inputs (t : Tally) (id : String) : Set OrderWrite :=
  {i | ∃ d ∈ t.details, d.orderId = id ∧ d.input = i}

/-- The register that a new order starts with. -/
def newOrder : LastWriter.Register OrderStatus ℤ := ⟨.pending, 0⟩

/-- The register of an order. -/
def OrderRow.register (r : OrderRow) : LastWriter.Register OrderStatus ℤ := ⟨r.status, r.lastSequence⟩

/-- **The row of an order holds what its inputs determine.** -/
structure Projected (I : Set OrderWrite) (row : Option OrderRow) : Prop where
  absent : row = none → I = ∅
  present : ∀ r, row = some r → LastWriter.Holds newOrder I r.register

/-! ## Inputs after a change -/

section Inputs

variable {s s' : Store} {e e' : EventRow}

theorem EventRow.input?_of_not_finished (h : e.finished = false) : e.input? = none := by
  simp [EventRow.input?, h]

theorem EventRow.not_finished_of_claimable {now : Timestamp} (h : e.claimable now = true) :
    e.finished = false := by
  unfold EventRow.claimable at h
  cases hst : e.processingStatus <;> simp [hst, EventRow.finished] at h ⊢

/-- What the events of an order give, of those that give anything. -/
def Store.gathered {β : Type} (g : EventRow → Option β) (s : Store) (id : String) : Set β :=
  {i | ∃ e ∈ s.events, e.orderId = id ∧ g e = some i}

section Gathered

variable {β : Type} {g : EventRow → Option β}

/-- An event that has just been inserted, and gives nothing. -/
theorem gathered_append (he : s'.events = s.events ++ [e]) (hnew : g e = none) (id : String) :
    s'.gathered g id = s.gathered g id := by
  ext i
  rw [Store.gathered, Store.gathered, he]
  constructor
  · rintro ⟨x, hmem, hid, hi⟩
    rcases List.mem_append.mp hmem with hmem | hmem
    · exact ⟨x, hmem, hid, hi⟩
    · rw [List.mem_singleton.mp hmem, hnew] at hi
      cases hi
  · rintro ⟨x, hmem, hid, hi⟩
    exact ⟨x, List.mem_append.mpr (.inl hmem), hid, hi⟩

/-- An event that has been rewritten, and gives what it gave. -/
theorem gathered_putEvent (hs : s.Keyed) (he : e ∈ s.events) (hkeys : e.keys = e'.keys)
    (horder : e'.orderId = e.orderId) (hsame : g e' = g e) (id : String) :
    (s.putEvent e').gathered g id = s.gathered g id := by
  have hmem : ∀ {x}, x ∈ (s.putEvent e').events ↔ x = e' ∨ x ∈ s.events ∧ x ≠ e :=
    Store.mem_putEvent hs he hkeys
  ext i
  constructor
  · rintro ⟨x, hx, hid, hi⟩
    rcases hmem.mp hx with rfl | ⟨hx, -⟩
    · exact ⟨e, he, horder ▸ hid, hsame ▸ hi⟩
    · exact ⟨x, hx, hid, hi⟩
  · rintro ⟨x, hx, hid, hi⟩
    by_cases hxe : x = e
    · subst hxe
      exact ⟨e', hmem.mpr (.inl rfl), horder ▸ hid, hsame ▸ hi⟩
    · exact ⟨x, hmem.mpr (.inr ⟨hx, hxe⟩), hid, hi⟩

/-- An event that has been rewritten, and gives something now. -/
theorem gathered_putEvent_new (hs : s.Keyed) (he : e ∈ s.events) (hkeys : e.keys = e'.keys)
    (horder : e'.orderId = e.orderId) (hold : g e = none) {i : β} (hnew : g e' = some i)
    (id : String) : (s.putEvent e').gathered g id =
      if id = e.orderId then insert i (s.gathered g id) else s.gathered g id := by
  have hmem : ∀ {x}, x ∈ (s.putEvent e').events ↔ x = e' ∨ x ∈ s.events ∧ x ≠ e :=
    Store.mem_putEvent hs he hkeys
  have hiff : ∀ j, j ∈ (s.putEvent e').gathered g id ↔
      (e.orderId = id ∧ i = j) ∨ j ∈ s.gathered g id := by
    intro j
    constructor
    · rintro ⟨x, hx, hid, hj⟩
      rcases hmem.mp hx with rfl | ⟨hx, -⟩
      · exact .inl ⟨horder ▸ hid, Option.some.inj (hnew.symm.trans hj)⟩
      · exact .inr ⟨x, hx, hid, hj⟩
    · rintro (⟨hid, rfl⟩ | ⟨x, hx, hid, hj⟩)
      · exact ⟨e', hmem.mpr (.inl rfl), horder ▸ hid, hnew⟩
      · refine ⟨x, hmem.mpr (.inr ⟨hx, ?_⟩), hid, hj⟩
        rintro rfl
        rw [hold] at hj
        cases hj
  ext j
  rw [hiff j]
  by_cases hid : id = e.orderId
  · rw [if_pos hid, Set.mem_insert_iff]
    exact or_congr_left ⟨fun h => h.2.symm, fun h => ⟨hid.symm, h.symm⟩⟩
  · rw [if_neg hid]
    exact ⟨fun h => h.resolve_left fun h => hid h.1.symm, .inr⟩

end Gathered

/-- The inputs of a store are those of its events and those of its details. -/
theorem Store.inputs_eq (s : Store) (id : String) : s.inputs id =
    s.gathered EventRow.input? id ∪ {i | ∃ d ∈ s.details, d.orderId = id ∧ d.input = i} := rfl

/-- The inputs of a store are those of its events and details. -/
theorem Store.inputs_congr (he : s'.events = s.events) (hd : s'.details = s.details) (id : String) :
    s'.inputs id = s.inputs id := by
  rw [Store.inputs, Store.inputs, he, hd]

/-- Rewriting an event keeps the inputs if it keeps what the event writes. -/
theorem inputs_putEvent (hs : s.Keyed) (he : e ∈ s.events) (hkeys : e.keys = e'.keys)
    (horder : e'.orderId = e.orderId) (hinput : e'.input? = e.input?) (id : String) :
    (s.putEvent e').inputs id = s.inputs id := by
  rw [Store.inputs_eq, gathered_putEvent hs he hkeys horder hinput, Store.inputs_eq]
  rfl

/-- Rewriting an event that nobody has finished with keeps the inputs if it stays so. -/
theorem inputs_putEvent_unfinished (hs : s.Keyed) (he : e ∈ s.events) (hold : e.finished = false)
    (hnew : e'.finished = false) (hkeys : e.keys = e'.keys) (horder : e'.orderId = e.orderId)
    (id : String) : (s.putEvent e').inputs id = s.inputs id := by
  refine inputs_putEvent hs he hkeys horder ?_ id
  rw [EventRow.input?_of_not_finished hold, EventRow.input?_of_not_finished hnew]

/-- Finishing with an event of a known type adds what it writes to the inputs of its order. -/
theorem inputs_putEvent_finish (hs : s.Keyed) (he : e ∈ s.events) (hkeys : e.keys = e'.keys)
    (horder : e'.orderId = e.orderId) (hold : e.input? = none) {i : OrderWrite}
    (hnew : e'.input? = some i) (id : String) :
    (s.putEvent e').inputs id = if id = e.orderId then insert i (s.inputs id) else s.inputs id := by
  rw [Store.inputs_eq, gathered_putEvent_new hs he hkeys horder hold hnew, Store.inputs_eq]
  by_cases hid : id = e.orderId
  · rw [if_pos hid, if_pos hid, Set.insert_union]
    rfl
  · rw [if_neg hid, if_neg hid]
    rfl

/-- What a turn of a reconciliation adds to the inputs. -/
theorem Tally.inputs_push (t : Tally) (o : ProviderOrder) (row : OrderRow) (isNew : Bool)
    (id : String) : (t.push (detailOf o row isNew)).inputs id =
      if id = o.id then insert o.input (t.inputs id) else t.inputs id := by
  have hiff : ∀ j, j ∈ (t.push (detailOf o row isNew)).inputs id ↔
      (o.id = id ∧ o.input = j) ∨ j ∈ t.inputs id := by
    intro j
    simp only [Tally.inputs, Tally.push, List.mem_append, List.mem_singleton, Set.mem_ofPred_eq]
    constructor
    · rintro ⟨d, hd | rfl, hid, hj⟩
      · exact .inr ⟨d, hd, hid, hj⟩
      · exact .inl ⟨hid, hj⟩
    · rintro (⟨hid, hj⟩ | ⟨d, hd, hid, hj⟩)
      · exact ⟨_, .inr rfl, hid, hj⟩
      · exact ⟨d, .inl hd, hid, hj⟩
  ext j
  rw [hiff j]
  by_cases hid : id = o.id
  · rw [if_pos hid, Set.mem_insert_iff]
    exact or_congr_left ⟨fun h => h.2.symm, fun h => ⟨hid.symm, h.symm⟩⟩
  · rw [if_neg hid]
    exact ⟨fun h => h.resolve_left fun h => hid h.1.symm, .inr⟩

/-- The rows of the details have the inputs of the details. -/
theorem inputs_details {runId : ℕ} {details : List ReconciliationDetail} {rows : List DetailRow}
    (h : List.Forall₂ (fun detail r => ∃ d, r = (detailValues runId detail).row d) details rows)
    (id : String) (i : OrderWrite) :
    (∃ r ∈ rows, r.orderId = id ∧ r.input = i) ↔ ∃ d ∈ details, d.orderId = id ∧ d.input = i := by
  induction h with
  | nil => simp
  | cons hr _ ih =>
    obtain ⟨d, rfl⟩ := hr
    simp only [List.exists_mem_cons_iff]
    exact or_congr Iff.rfl ih

end Inputs

/-! ## Keeping the projection -/

section Projected

variable {I : Set OrderWrite} {row : Option OrderRow}

/-- The order that a transaction has locked holds what the inputs determine. -/
theorem Projected.opened {s : Store} {id : String} {d : Draws} {isNew : Bool} {order : OrderRow}
    (h : Projected I (s.order? id)) (hopen : OpenedOrder s id d isNew order) :
    LastWriter.Holds newOrder I order.register := by
  cases hopen with
  | fresh hno =>
    rw [h.absent hno]
    exact LastWriter.Holds.empty newOrder
  | found ho => exact h.present order ho

theorem Projected.congr {I' : Set OrderWrite} {row' : Option OrderRow} (h : Projected I row)
    (hI : I' = I) (hrow : row' = row) : Projected I' row' := by
  rw [hI, hrow]
  exact h

theorem Projected.of_holds {r : OrderRow} (h : LastWriter.Holds newOrder I r.register) :
    Projected I (some r) :=
  ⟨by simp, fun r' hr' => Option.some.inj hr' ▸ h⟩

/-- What an order may be classified as. -/
theorem classify_cases (o : ProviderOrder) (row : OrderRow) :
    (o.sequence < row.lastSequence ∧ classify o row = .staleProviderSnapshot) ∨
    (row.matches o = true ∧ row.lastSequence = o.sequence ∧ row.status = o.status ∧
      classify o row = .alreadyOk) ∨
    (row.lastSequence ≤ o.sequence ∧ row.matches o = false ∧ classify o row = .repaired) := by
  unfold classify
  by_cases hlt : o.sequence < row.lastSequence
  · exact .inl ⟨hlt, if_pos hlt⟩
  · rw [if_neg hlt]
    by_cases hm : row.matches o = true
    · have hm' := hm
      simp only [OrderRow.matches, Bool.and_eq_true, decide_eq_true_iff] at hm'
      exact .inr (.inl ⟨hm, hm'.1.1.2, hm'.1.1.1, if_pos hm⟩)
    · exact .inr (.inr ⟨not_lt.mp hlt, by simpa using hm, if_neg hm⟩)

/-- **A turn of a reconciliation keeps the projection.** -/
theorem Turn.projected [Platform] {o : ProviderOrder} {t t' : Tally} {log : Log} {s s' : Store}
    {J : String → Set OrderWrite} (hs : s.Keyed) (hturn : Turn o t log t' s s')
    (h : ∀ id, Projected (J id ∪ t.inputs id) (s.order? id)) :
    ∀ id, Projected (J id ∪ t'.inputs id) (s'.order? id) := by
  intro id
  cases hturn with
  | @kept _ d₁ _ _ _ isNew row hopen hclass =>
    rw [Tally.inputs_push, Store.order?_putOrder hs, hopen.id_eq]
    by_cases hid : id = o.id
    · subst hid
      have hrow := (h o.id).opened hopen
      rw [if_pos rfl, if_pos rfl, Set.union_insert]
      refine .of_holds ?_
      rcases classify_cases o row with ⟨hlt, -⟩ | ⟨-, hseq, hst, -⟩ | ⟨-, -, hrep⟩
      · exact hrow.skip (.inl hlt)
      · have hover := hrow.overwrite (i := o.input) hseq.le (.inr rfl)
        rwa [ProviderOrder.input, ← hseq, ← hst] at hover ⊢
      · exact absurd hrep hclass
    · rw [if_neg hid, if_neg hid]
      exact h id
  | @repaired _ d₁ _ d₃ _ _ _ _ _ isNew row amount hopen hclass hamount =>
    rw [Tally.inputs_push, Store.addHistory_order?, Store.order?_putOrder hs]
    have hid' : (row.reconciled o.status o.sequence (some amount) (some o.currency) d₃).id = o.id :=
      hopen.id_eq
    rw [hid']
    by_cases hid : id = o.id
    · subst hid
      have hrow := (h o.id).opened hopen
      rw [if_pos rfl, if_pos rfl, Set.union_insert]
      refine .of_holds ?_
      rcases classify_cases o row with ⟨-, hst⟩ | ⟨-, -, -, hok⟩ | ⟨hle, -, -⟩
      · rw [hst] at hclass
        cases hclass
      · rw [hok] at hclass
        cases hclass
      · exact hrow.overwrite (i := o.input) hle (.inr rfl)
    · rw [if_neg hid, if_neg hid]
      exact h id

/-- The loop of a reconciliation keeps the projection. -/
theorem Turns.projected [Platform] {orders : List ProviderOrder} {t t' : Tally} {log : Log}
    {s s' : Store} {J : String → Set OrderWrite} (hturns : Turns orders t log t' s s')
    (h : ∀ id, Projected (J id ∪ t.inputs id) (s.order? id)) :
    ∀ id, Projected (J id ∪ t'.inputs id) (s'.order? id) := by
  induction hturns with
  | nil => exact h
  | cons hs hturn htail ih => exact ih (hturn.projected hs h)

/-- **Every change keeps the projection.** -/
theorem Change.projected [Platform] {cfg : WorkerConfig} {c : Call} {log : Log} {x : Option Answer}
    {s s' : Store} (hs : s.Keyed) (h : ∀ id, Projected (s.inputs id) (s.order? id))
    (hc : Change cfg c log x s s') : ∀ id, Projected (s'.inputs id) (s'.order? id) := by
  intro id
  cases hc with
  | @created _ req d w row occurredAt hnew htime hrow =>
    have hinput : (req.event.row d.eventId occurredAt).input? = none := by
      refine EventRow.input?_of_not_finished ?_
      rcases req.event_status with ⟨hst, -, -⟩ | ⟨hst, hreason, -⟩
      · simp [EventRow.finished, EventInsertParams.row, hst]
      · simp [EventRow.finished, EventInsertParams.row, hst, hreason]
    have hinputs : ∀ s' : Store, s'.events = s.events ++ [req.event.row d.eventId occurredAt] →
        s'.details = s.details → s'.inputs id = s.inputs id := by
      intro s' he hd
      rw [Store.inputs_eq, gathered_append he hinput, hd, Store.inputs_eq]
    exact (h id).congr (hinputs _ rfl rfl) rfl
  | @counted _ req d w row old hold hfits hrow =>
    have hinputs : (s.putEvent { old with deliveryCount := old.deliveryCount + 1 }).inputs id =
        s.inputs id :=
      inputs_putEvent hs (Store.mem_of_event? hold).1 (by rfl) (by rfl) (by rfl) id
    exact (h id).congr hinputs rfl
  | idle => exact h id
  | @applied _ _ d d₁ _ d₃ d₄ d₅ _ _ _ _ _ _ _ event order status amount hev hclaim hopen hmap hseq =>
    have hnot := EventRow.input?_of_not_finished (EventRow.not_finished_of_claimable hclaim)
    have hnew : (event.applied d₅).input? = some ⟨status, event.sequence, false⟩ := by
      simp [EventRow.input?, EventRow.finished, EventRow.applied, hmap]
    have hkeys : event.keys = (event.applied d₅).keys := rfl
    have hinputs := inputs_putEvent_finish hs hev hkeys rfl hnot hnew id
    refine Projected.congr ?_ hinputs rfl
    rw [Store.putEvent_order?, Store.addHistory_order?, Store.order?_putOrder hs]
    have hid' : (order.applied status event.sequence amount
      (event.payload.data.bind PaymentWebhookData.currency) d₃).id = event.orderId := hopen.id_eq
    rw [hid']
    by_cases hid : id = event.orderId
    · subst hid
      rw [if_pos rfl, if_pos rfl]
      refine .of_holds (((h event.orderId).opened hopen).overwrite
        (i := ⟨status, event.sequence, false⟩) hseq.le (.inl hseq))
    · rw [if_neg hid, if_neg hid]
      exact h id
  | @ignored _ _ d d₁ _ d₄ d₅ _ _ _ _ _ _ event order reason hev hclaim hopen hreason =>
    have hnot := EventRow.input?_of_not_finished (EventRow.not_finished_of_claimable hclaim)
    have hrow : ∀ I, LastWriter.Holds newOrder I order.register →
        ∀ id, id = event.orderId → Projected I ((s.putOrder order).order? id) := by
      rintro I hI id rfl
      rw [Store.order?_putOrder hs, if_pos hopen.id_eq.symm]
      exact .of_holds hI
    have hother : id ≠ event.orderId → (s.putOrder order).order? id = s.order? id := fun hid => by
      rw [Store.order?_putOrder hs, hopen.id_eq, if_neg hid]
    have hopened := (h event.orderId).opened hopen
    cases hinput : (event.ignored (some reason) d₅).input? with
    | none =>
      have hinputs : (s.putEvent (event.ignored (some reason) d₅)).inputs id = s.inputs id :=
        inputs_putEvent hs hev (by rfl) (by rfl) (hinput.trans hnot.symm) id
      refine Projected.congr ?_ hinputs rfl
      by_cases hid : id = event.orderId
      · exact hrow _ (hid ▸ hopened) id hid
      · exact (hother hid).symm ▸ h id
    | some i =>
      have hkeys : event.keys = (event.ignored (some reason) d₅).keys := rfl
      have hinputs := inputs_putEvent_finish hs hev hkeys rfl hnot hinput id
      have hstale : i.stamp ≤ order.lastSequence ∧ i.strong = false := by
        unfold EventRow.input? at hinput
        split at hinput
        · rename_i st _ hmap
          replace hmap : mapEventToStatus event.eventType = some (.known st) := hmap
          obtain rfl : (⟨st, event.sequence, false⟩ : OrderWrite) = i := Option.some.inj hinput
          rcases hreason with ⟨hnone, -⟩ | ⟨-, hle, -⟩
          · rw [hnone] at hmap
            cases hmap
          · exact ⟨hle, rfl⟩
        · cases hinput
      refine Projected.congr ?_ hinputs rfl
      by_cases hid : id = event.orderId
      · rw [if_pos hid]
        exact hrow _ ((hid ▸ hopened).skip (.inr hstale)) id hid
      · rw [if_neg hid]
        exact (hother hid).symm ▸ h id
  | retried hev hclaim heval =>
    have hnot := EventRow.not_finished_of_claimable hclaim
    exact (h id).congr
      (inputs_putEvent_unfinished hs hev hnot (by rfl) (by rfl) (by rfl) id) rfl
  | buried hev hclaim heval =>
    have hnot := EventRow.not_finished_of_claimable hclaim
    exact (h id).congr
      (inputs_putEvent_unfinished hs hev hnot (by rfl) (by rfl) (by rfl) id) rfl
  | unknown => exact h id
  | replayed hev hdlq =>
    refine (h id).congr
      (inputs_putEvent_unfinished hs hev ?_ (by rfl) (by rfl) (by rfl) id) rfl
    simp [EventRow.finished, hdlq]
  | notInDlq hev hdlq => exact h id
  | @reconciled _ s₁ snapshot d₁ d₂ d₃ w₁ w₂ w₃ t loop details rows hrun hturns hdetails hrows =>
    have hempty : ∀ id, s.inputs id ∪ Tally.empty.inputs id = s.inputs id := by
      simp [Tally.inputs, Tally.empty]
    have hfinal := hturns.projected (J := s.inputs) (fun id => (h id).congr (hempty id) rfl) id
    refine hfinal.congr ?_ rfl
    ext i
    simp only [Store.inputs, hturns.inbox_eq.1, hturns.details_eq, Set.mem_union, Set.mem_ofPred_eq,
      List.mem_append, or_and_right, exists_or, inputs_details hrows, or_assoc]
    rfl

end Projected

/-! ## The entries that reconciliations have handled -/

section Recorded

variable [Platform] {orders : List ProviderOrder} {t t' : Tally} {log : Log}

/-- The loop of a reconciliation makes a detail of every entry. -/
theorem LoopLog.recorded (h : LoopLog orders t log t') :
    (∀ d ∈ t.details, d ∈ t'.details) ∧
      ∀ o ∈ orders, ∃ d ∈ t'.details, d.orderId = o.id ∧ d.input = o.input := by
  induction h with
  | nil => exact ⟨fun d hd => hd, by simp⟩
  | @cons o orders t t' t'' turn log hturn htail ih =>
    have hpush : ∃ row isNew, t' = t.push (detailOf o row isNew) := by
      cases hturn with
      | kept h => exact ⟨_, _, rfl⟩
      | repaired h => exact ⟨_, _, rfl⟩
    obtain ⟨row, isNew, rfl⟩ := hpush
    refine ⟨fun d hd => ih.1 d (List.mem_append.mpr (.inl hd)), fun o' ho' => ?_⟩
    rcases List.mem_cons.mp ho' with rfl | ho'
    · exact ⟨_, ih.1 _ (List.mem_append.mpr (.inr (List.mem_singleton.mpr rfl))), rfl, rfl⟩
    · exact ih.2 o' ho'

/-- The statements that write the details. -/
theorem DetailsLog.stmt_iff {runId : ℕ} {details : List ReconciliationDetail}
    (h : DetailsLog runId details log) (v : DetailValues) :
    (∃ e ∈ log, e.stmt = .insertDetail v) ↔ ∃ d ∈ details, v = detailValues runId d := by
  induction h with
  | nil => simp
  | cons htail ih =>
    simp only [List.exists_mem_cons_iff, ih, Stmt.insertDetail.injEq]
    exact or_congr_left eq_comm

/-- The loop over the snapshot writes no detail. -/
theorem Turns.stmt_ne {s s' : Store} (h : Turns orders t log t' s s') (v : DetailValues) :
    ∀ e ∈ log, e.stmt ≠ .insertDetail v := by
  induction h with
  | nil => simp
  | cons hs hturn htail ih =>
    intro e he
    rcases List.mem_append.mp he with he | he
    · cases hturn with
      | kept hopen hclass =>
        simp only [List.mem_cons, List.not_mem_nil, or_false] at he
        rcases he with rfl | rfl <;> simp
      | repaired hopen hclass hamount =>
        simp only [List.mem_cons, List.not_mem_nil, or_false] at he
        rcases he with rfl | rfl | rfl | rfl <;> simp
    · exact ih e he

/-- A reconciliation writes a detail of every entry. -/
theorem ReconciliationLog.recorded {x : Option ReconciliationRunResult}
    (h : ReconciliationLog orders log x) :
    ∀ o ∈ orders, ∃ v, (∃ e ∈ log, e.stmt = .insertDetail v) ∧ v.orderId = o.id ∧
      v.providerStatus = o.status ∧ v.providerSequence = o.sequence := by
  intro o ho
  obtain ⟨hloop, hdetails⟩ := h
  rename_i run _ t loop details
  obtain ⟨d, hd, hid, hinput⟩ := hloop.recorded.2 o ho
  obtain ⟨e, he, hstmt⟩ := (hdetails.stmt_iff (detailValues run.id d)).mpr ⟨d, hd, rfl⟩
  refine ⟨_, ⟨e, by simp [he], hstmt⟩, hid, ?_, ?_⟩
  · exact congrArg LastWriter.Write.value hinput
  · exact congrArg LastWriter.Write.stamp hinput

omit [Platform] in
/-- Lists related element by element. -/
theorem exists_of_forall₂ {α β : Type} {P : α → β → Prop} {as : List α} {bs : List β}
    (h : List.Forall₂ P as bs) {a : α} (ha : a ∈ as) : ∃ b ∈ bs, P a b := by
  induction h with
  | nil => cases ha
  | @cons a' b as bs hab _ ih =>
    rcases List.mem_cons.mp ha with rfl | ha
    · exact ⟨b, by simp, hab⟩
    · obtain ⟨b', hb', hP⟩ := ih ha
      exact ⟨b', by simp [hb'], hP⟩

omit [Platform] in
/-- Every detail has its row. -/
theorem row_of_detail {runId : ℕ} {details : List ReconciliationDetail} {rows : List DetailRow}
    (h : List.Forall₂ (fun detail r => ∃ d, r = (detailValues runId detail).row d) details rows)
    {detail : ReconciliationDetail} (hmem : detail ∈ details) :
    ∃ d, (detailValues runId detail).row d ∈ rows := by
  obtain ⟨r, hr, d, rfl⟩ := exists_of_forall₂ h hmem
  exact ⟨d, hr⟩

/-- Details are written by reconciliations, and stay. -/
theorem Change.details {cfg : WorkerConfig} {c : Call} {x : Option Answer} {s s' : Store}
    (h : Change cfg c log x s s') : (∀ r ∈ s.details, r ∈ s'.details) ∧
      ∀ v, (∃ e ∈ log, e.stmt = .insertDetail v) → ∃ d, DetailValues.row v d ∈ s'.details := by
  cases h with
  | @reconciled _ s₁ snapshot d₁ d₂ d₃ _ _ _ t loop details rows hrun hturns hdetails hrows =>
    have hkept := hturns.details_eq
    refine ⟨fun r hr => List.mem_append.mpr (.inl (hkept ▸ hr)), fun v => ?_⟩
    rintro ⟨e, he, hstmt⟩
    have hmem : e ∈ details := by
      simp only [List.mem_cons, List.mem_append, List.not_mem_nil, or_false] at he
      rcases he with rfl | rfl | (he | he) | rfl
      · cases hstmt
      · cases hstmt
      · exact absurd hstmt (hturns.stmt_ne v e he)
      · exact he
      · cases hstmt
    obtain ⟨detail, hdetail, rfl⟩ := (hdetails.stmt_iff v).mp ⟨e, hmem, hstmt⟩
    obtain ⟨d, hd⟩ := row_of_detail hrows hdetail
    exact ⟨d, List.mem_append.mpr (.inr hd)⟩
  | _ =>
    refine ⟨fun r hr => hr, fun v => ?_⟩
    rintro ⟨e, he, hstmt⟩
    simp only [List.mem_cons, List.not_mem_nil, or_false] at he
    rcases he with rfl | rfl | rfl | rfl | rfl | rfl <;> cases hstmt

end Recorded

/-! ## Every reachable state -/

variable [Platform] {cfg : WorkerConfig} {w : State}

/-- In every reachable state the orders hold what their inputs determine. -/
theorem Reach.projected (h : Reach cfg .empty w) (id : String) :
    Projected (w.db.inputs id) (w.db.order? id) := by
  refine h.changes_induction (P := fun _ s => ∀ id, Projected (Store.inputs s id) (s.order? id))
    Store.keyed_empty (fun id => ⟨fun _ => ?_, ?_⟩) (fun _ _ _ _ _ _ _ _ hs hP hc =>
      hc.projected hs hP) id
  · ext i
    simp [Store.inputs, Store.empty]
  · simp [Store.order?, Store.empty]

/-- The entries of a committed reconciliation are among the inputs. -/
theorem Reach.inputs_of_reconcile (h : Reach cfg .empty w) {i : ℕ}
    {s : Session postgres Call Answer} {snapshot : ValidSnapshot} (hs : w.sessions i = some s)
    (hcall : s.call = .reconcile snapshot) (hc : w.commitsOf i ≠ []) :
    ∀ o ∈ snapshot.orders, o.input ∈ w.db.inputs o.id := by
  have hinv : ∀ c ∈ w.journal, ∀ v, (∃ e ∈ c.2, e.stmt = Stmt.insertDetail v) →
      ∃ d, v.row d ∈ Store.details w.db := by
    refine h.changes_induction (P := fun journal s => ∀ c ∈ journal, ∀ v,
      (∃ e ∈ c.2, e.stmt = Stmt.insertDetail v) → ∃ d, v.row d ∈ Store.details s)
      Store.keyed_empty (by simp) fun journal s s' j call log x hcall hs hP hchange c hmem v hv => ?_
    rcases List.mem_append.mp hmem with hmem | hmem
    · obtain ⟨d, hd⟩ := hP c hmem v hv
      exact ⟨d, hchange.details.1 _ hd⟩
    · obtain rfl := List.mem_singleton.mp hmem
      exact hchange.details.2 v hv
  intro o ho
  rcases h.settled Store.keyed_empty hs with hnil | ⟨log, x, hl, hx⟩
  · exact absurd hnil hc
  · rw [hcall] at hx
    cases hx with
    | reconcile hlog =>
      obtain ⟨v, hv, hid, hst, hseq⟩ := hlog.recorded o ho
      have hmem : log ∈ w.commitsOf i := by simp [hl]
      have hjournal : (i, log) ∈ w.journal := by simpa [World.commitsOf] using hmem
      obtain ⟨d, hd⟩ := hinv _ hjournal v hv
      refine .inr ⟨_, hd, hid, ?_⟩
      simp [DetailRow.input, DetailValues.row, ProviderOrder.input, hst, hseq]

/-- **The projection of an order does not depend on the order of processing.** -/
theorem order_projection (h : Reach cfg .empty w) (id : String) :
    (w.db.order? id = none → w.db.inputs id = ∅) ∧
    (∀ r, w.db.order? id = some r →
      IsGreatest (insert 0 (LastWriter.Write.stamp '' w.db.inputs id)) r.lastSequence ∧
      (1 ≤ r.lastSequence → LastWriter.Consistent (w.db.inputs id) →
        (∃ i ∈ w.db.inputs id, i.stamp = r.lastSequence) ∧
        ∀ i ∈ w.db.inputs id, i.stamp = r.lastSequence → r.status = i.value)) ∧
    -- what the inputs are
    (∀ e ∈ w.db.events, e.finished = true → ∀ status,
      mapEventToStatus e.eventType = some (.known status) →
        ⟨status, e.sequence, false⟩ ∈ w.db.inputs e.orderId) ∧
    (∀ i s snapshot, w.sessions i = some s → s.call = .reconcile snapshot → w.commitsOf i ≠ [] →
      ∀ o ∈ snapshot.orders, ⟨o.status, o.sequence, true⟩ ∈ w.db.inputs o.id) ∧
    -- two runs that have consumed the same
    (∀ cfg' w', Reach cfg' .empty w' → w'.db.inputs id = w.db.inputs id →
      LastWriter.Consistent (w.db.inputs id) → ∀ r r', w.db.order? id = some r →
        w'.db.order? id = some r' → r.status = r'.status ∧ r.lastSequence = r'.lastSequence) := by
  have hproj := h.projected id
  refine ⟨hproj.absent, fun r hr => ?_, fun e he hfin status hmap => ?_,
    fun i s snapshot hs hcall hc => h.inputs_of_reconcile hs hcall hc,
    fun cfg' w' h' hsame hcons r r' hr hr' => ?_⟩
  · have hholds := hproj.present r hr
    refine ⟨hholds.greatest, fun hone hcons => ⟨?_, fun i hi hstamp => ?_⟩⟩
    · refine hholds.attained.resolve_left fun hzero => ?_
      replace hzero : r.lastSequence = 0 := hzero
      omega
    · have hpos : newOrder.stamp < i.stamp := by
        rw [hstamp]
        exact Int.lt_of_add_one_le hone
      exact hholds.value hcons i hi hstamp (.inl hpos)
  · refine .inl ⟨e, he, rfl, ?_⟩
    simp [EventRow.input?, hfin, hmap]
  · have hholds := hproj.present r hr
    have hholds' := (h'.projected id).present r' hr'
    rw [hsame] at hholds'
    have heq := hholds.unique hcons hholds'
    exact ⟨congrArg LastWriter.Register.value heq, congrArg LastWriter.Register.stamp heq⟩

omit [Platform] in
/-- In the sample, the order stands where its greatest input has put it. -/
theorem order_projection_sample : letI := samplePlatform
    ∃ (w : State) (o : OrderRow), Reach .default .empty w ∧ w.db.order? "ord_1" = some o ∧
      o.lastSequence = 1 ∧
      IsGreatest (insert 0 (LastWriter.Write.stamp '' w.db.inputs "ord_1")) 1 := by
  let _ := samplePlatform
  obtain ⟨w, e, o, hrest, -, -, -, ho, hseq⟩ := exists_applied_sample
  obtain ⟨-, hrow, -⟩ := order_projection hrest.reach "ord_1"
  exact ⟨w, o, hrest.reach, ho, hseq, hseq ▸ (hrow o ho).1⟩

end PaymentWebhook
