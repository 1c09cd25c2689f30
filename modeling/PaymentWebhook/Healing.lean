import PaymentWebhook.Agreement

set_option relaxedAutoImplicit false
set_option autoImplicit false

/-!
# Lost webhooks

What the reconciliation is for: webhooks get lost, come late or end in the dead-letter queue, and the orders get to
where the provider has them all the same.

## Main definitions

* `PaymentWebhook.Call.Within`, `PaymentWebhook.Store.Within` — a call, a store with nothing newer than a snapshot.
* `PaymentWebhook.Store.Stands` — the orders stand as a snapshot says.

## Main results

* `PaymentWebhook.Reach.stands` — after a reconciliation the orders stand, whatever else goes on.
* `PaymentWebhook.lost_webhooks_healed` — so they do in any run with the webhooks of the simulator.
-/

namespace PaymentWebhook

open Transactions Generator

/-- **A call that tells nothing newer** than the entries. -/
def Call.Within (orders : List ProviderOrder) : Call → Prop
  | .ingest req => ∀ o ∈ orders, o.id = req.rawBody.json.orderId → req.rawBody.json.sequence ≤ o.sequence
  | .processOne _ => True
  | .replay _ => True
  | .reconcile snapshot => snapshot.orders = orders

/-- **The store has nothing newer** than the entries. -/
structure Store.Within (s : Store) (orders : List ProviderOrder) : Prop where
  events : ∀ e ∈ s.events, ∀ o ∈ orders, o.id = e.orderId → e.sequence ≤ o.sequence
  orders : ∀ o ∈ orders, ∀ row, s.order? o.id = some row → row.lastSequence ≤ o.sequence

/-- **The orders stand as the entries say.** -/
def Store.Stands (s : Store) (orders : List ProviderOrder) : Prop :=
  ∀ o ∈ orders, ∃ row, s.order? o.id = some row ∧ row.Agrees o

section Orders

variable {s s' : Store} {orders : List ProviderOrder} {r : ReconciliationRunResult}

/-- **A run over entries that nothing is newer than** leaves the orders as they say. -/
theorem RunSpec.stands (h : RunSpec orders s r s') (hwithin : s.Within orders) : s'.Stands orders := by
  obtain ⟨xs, hxs, -, -⟩ := h.entries
  intro o ho
  obtain ⟨x, -, hspec, hrow⟩ := exists_of_forall₂ hxs ho
  refine ⟨x.row, hrow, ?_⟩
  cases hbefore : s.order? o.id with
  | none => exact (hspec.absent hbefore).agrees
  | some row =>
    by_cases hagrees : row.Agrees o
    · obtain rfl := hspec.alreadyOk row hbefore hagrees
      exact hagrees
    · exact (hspec.repaired row hbefore (hwithin.orders o ho row hbefore) hagrees).agrees

/-- Orders that stand as the entries say have nothing newer. -/
theorem Store.Stands.within (h : s.Stands orders) : ∀ o ∈ orders, ∀ row, s.order? o.id = some row →
    row.lastSequence ≤ o.sequence := by
  intro o ho row hrow
  obtain ⟨row', hrow', hagrees⟩ := h o ho
  obtain rfl := Option.some.inj (hrow'.symm.trans hrow)
  exact hagrees.sequence.le

end Orders

variable [Platform] {cfg : WorkerConfig} {w w' : State}

section Change

variable {s s' : Store} {orders : List ProviderOrder} {c : Call} {log : Log} {x : Option Answer}

/-- **A change brings no order beyond the entries.** -/
theorem Change.orders_within (hs : s.Keyed) (hnonneg : ∀ o ∈ orders, 0 ≤ o.sequence) (hcall : c.Within orders)
    (h : s.Within orders) (hc : Change cfg c log x s s') :
    ∀ o ∈ orders, ∀ row, s'.order? o.id = some row → row.lastSequence ≤ o.sequence := by
  have hput : ∀ {order : OrderRow}, (∀ o ∈ orders, o.id = order.id → order.lastSequence ≤ o.sequence) →
      ∀ o ∈ orders, ∀ row, (s.putOrder order).order? o.id = some row → row.lastSequence ≤ o.sequence := by
    intro order horder o ho row hrow
    rw [Store.order?_putOrder hs] at hrow
    split_ifs at hrow with hid
    · obtain rfl := Option.some.inj hrow
      exact horder o ho hid
    · exact h.orders o ho row hrow
  have hchange := hc
  cases hc with
  | @applied _ _ _ _ _ _ _ _ _ _ _ _ _ isNew _ event order _ _ hev _ hopen =>
    refine hput fun o ho hid => ?_
    exact h.events event hev o ho (hid.trans hopen.id_eq)
  | @ignored _ _ _ _ _ _ _ _ _ _ _ isNew _ event order _ _ _ hopen =>
    refine hput fun o ho hid => ?_
    cases hopen with
    | fresh => exact hnonneg o ho
    | found hfound => exact h.orders o ho order (by rw [hid, (Store.mem_of_order? hfound).2]; exact hfound)
  | reconciled =>
    subst hcall
    exact (hchange.runSpec.stands h).within
  | _ => exact h.orders

/-- **Orders that stand are not changed any more.** -/
theorem Change.stands (hs : s.Keyed) (hcall : c.Within orders) (h : s.Within orders) (hstands : s.Stands orders)
    (hc : Change cfg c log x s s') : s'.Stands orders := by
  have hput : ∀ {order : OrderRow}, (∀ o ∈ orders, o.id = order.id → order.Agrees o) →
      (s.putOrder order).Stands orders := by
    intro order horder o ho
    rw [Store.order?_putOrder hs]
    split_ifs with hid
    · exact ⟨order, rfl, horder o ho hid⟩
    · exact hstands o ho
  have hopened : ∀ {id : String} {d : Draws} {isNew : Bool} {order : OrderRow}, OpenedOrder s id d isNew order →
      ∀ o ∈ orders, o.id = order.id → order.Agrees o := by
    intro id d isNew order hopen o ho hid
    obtain ⟨row, hrow, hagrees⟩ := hstands o ho
    rw [hid, hopen.id_eq] at hrow
    rwa [hopen.eq_found hrow]
  have hchange := hc
  cases hc with
  | @applied _ _ _ _ _ _ _ _ _ _ _ _ _ isNew _ event order _ _ hev _ hopen _ hseq =>
    refine hput fun o ho hid => absurd hseq (not_lt.mpr ?_)
    calc event.sequence ≤ o.sequence := h.events event hev o ho (hid.trans hopen.id_eq)
      _ = order.lastSequence := (hopened hopen o ho hid).sequence.symm
  | ignored _ _ hopen => exact hput (hopened hopen)
  | reconciled =>
    subst hcall
    exact hchange.runSpec.stands h
  | _ => exact hstands

end Change

/-! ## Runs -/

section Run

variable {orders : List ProviderOrder}

/-- An event has come with a call. -/
theorem Reach.event_called (h : Reach cfg .empty w) {e : EventRow} (he : e ∈ w.db.events) :
    ∃ i req, Called w i (.ingest req) ∧ e.orderId = req.rawBody.json.orderId ∧
      e.sequence = req.rawBody.json.sequence := by
  obtain ⟨first, rest, hreceipts, haccount⟩ := h.accounted.known e he
  obtain ⟨occurredAt, -, horigin⟩ := haccount.origin
  have hmem : first ∈ receiptsOf e.eventId w.journal := hreceipts ▸ List.mem_cons_self
  obtain ⟨⟨i, log⟩, hlog, hfirst⟩ := List.mem_filterMap.mp (List.mem_filter.mp hmem).1
  obtain ⟨c, x, hcalled, hcommit⟩ := h.journal_call Store.keyed_empty hlog
  obtain ⟨req, rfl⟩ := hcommit.ingest_of_receipt hfirst
  have hevent : first.event = req.event := by
    cases hcommit with
    | ingest hingest =>
      cases hingest
      exact (congrArg Receipt.event (Option.some.inj hfirst)).symm
  rw [hevent] at horigin
  exact ⟨i, req, hcalled, (congrArg EventRow.orderId horigin :), (congrArg EventRow.sequence horigin :)⟩

/-- **Nothing newer than the entries gets into the store.** -/
theorem Reach.within (h : Reach cfg .empty w) (hnonneg : ∀ o ∈ orders, 0 ≤ o.sequence)
    (hcalls : ∀ i c, Called w i c → c.Within orders) : Store.Within w.db orders := by
  have hevents : ∀ {v}, Reach cfg .empty v → (∀ i c, Called v i c → c.Within orders) →
      ∀ e ∈ v.db.events, ∀ o ∈ orders, o.id = e.orderId → e.sequence ≤ o.sequence := by
    intro v hv hcalls e he o ho hid
    obtain ⟨i, req, hcalled, horder, hsequence⟩ := hv.event_called he
    rw [hsequence]
    exact hcalls i _ hcalled o ho (hid.trans horder)
  refine ⟨hevents h hcalls, ?_⟩
  obtain ⟨env₀, hrun⟩ := h
  induction hrun with
  | refl =>
    intro o ho row hrow
    cases hrow
  | @step w₁ w₂ hrun hstep ih =>
    have h₁ : Reach cfg .empty w₁ := ⟨env₀, hrun⟩
    have hcalls₁ : ∀ i c, Called w₁ i c → c.Within orders := fun i c hcall => hcalls i c (hcall.step hstep)
    have hwithin : Store.Within w₁.db orders := ⟨hevents h₁ hcalls₁, ih hcalls₁⟩
    rcases h₁.step_change Store.keyed_empty hstep with ⟨hdb, -⟩ | ⟨i, s, t, x, hs, -, hc, -⟩
    · rw [hdb]
      exact hwithin.orders
    · exact hc.orders_within (h₁.coherent Store.keyed_empty).inv hnonneg (hcalls₁ i s.call ⟨s, hs, rfl⟩) hwithin

/-- **Orders that stand keep standing.** -/
theorem Reach.stands (h : Reach cfg .empty w) (hnonneg : ∀ o ∈ orders, 0 ≤ o.sequence)
    (hrun : Reachable (program cfg) w w') (hcalls : ∀ i c, Called w' i c → c.Within orders)
    (hstands : Store.Stands w.db orders) : Store.Stands w'.db orders := by
  obtain ⟨env₀, hstart⟩ := h
  induction hrun with
  | refl => exact hstands
  | @step w₁ w₂ hrun hstep ih =>
    have h₁ : Reach cfg .empty w₁ := ⟨env₀, hstart.trans hrun⟩
    have hcalls₁ : ∀ i c, Called w₁ i c → c.Within orders := fun i c hcall => hcalls i c (hcall.step hstep)
    rcases h₁.step_change Store.keyed_empty hstep with ⟨hdb, -⟩ | ⟨i, s, t, x, hs, -, hc, -⟩
    · rw [hdb]
      exact ih hcalls₁
    · exact hc.stands (h₁.coherent Store.keyed_empty).inv (hcalls₁ i s.call ⟨s, hs, rfl⟩)
        (h₁.within hnonneg hcalls₁) (ih hcalls₁)

/-- **After a reconciliation the orders stand as its snapshot says**, if nothing newer is told. -/
theorem Reach.reconciled_stands (h : Reach cfg .empty w) (hnonneg : ∀ o ∈ orders, 0 ≤ o.sequence)
    (hcalls : ∀ i c, Called w i c → c.Within orders) {i : ℕ} {s : Session postgres Call Answer}
    {r : ReconciliationRunResult} (hs : w.sessions i = some s) (hp : s.prog = .done (.reconciled r)) :
    Store.Stands w.db orders := by
  obtain ⟨log, -, hcommit⟩ := h.answered Store.keyed_empty hs hp
  obtain ⟨snapshot, hcall⟩ := hcommit.call_of_reconciled
  obtain ⟨env₀, hstart⟩ := h
  obtain ⟨w₁, w₂, log, hrun₁, hstep, hrun₂, hc⟩ :=
    Reach.effect Store.keyed_empty ⟨env₀, .refl⟩ hstart rfl hs hp
  have h₁ : Reach cfg .empty w₁ := ⟨env₀, hrun₁⟩
  have hwithin := h₁.within hnonneg fun j c hcalled => hcalls j c ((hcalled.step hstep).run hrun₂)
  have hsame : snapshot.orders = orders := by
    have hours := hcalls i s.call ⟨s, hs, rfl⟩
    rwa [hcall] at hours
  rw [hcall] at hc
  have hstands := hc.runSpec.stands (hsame ▸ hwithin)
  exact Reach.stands (h₁.step hstep) hnonneg hrun₂ hcalls (hsame ▸ hstands)

end Run

/-! ## The webhooks of the simulator -/

section Webhooks

variable {rt : Runtime} {opts : GenerateOptions}

omit [Platform] in
/-- Every webhook, the forged ones included, is about the order and the sequence of one of the base events. -/
theorem exists_base_of_mem_allEvents {e : GeneratedEvent} (he : e ∈ (generate rt opts).allEvents) :
    ∃ src ∈ trimmedBase rt opts (createRng opts.seed),
      e.payload.orderId = src.orderId ∧ e.payload.sequence = src.sequence := by
  have ht := traffic rt opts (createRng_inUnit opts.seed)
  have hbase : ∀ src ∈ trimmedBase rt opts (createRng opts.seed), src.payload.orderId = src.orderId ∧
      src.payload.sequence = src.sequence := fun src hsrc =>
    have hsound := (ht.sound src (List.mem_append_left _ hsrc)).1
    ⟨hsound.orderId, hsound.sequence⟩
  rcases List.mem_append.mp he with he | he
  · rcases List.mem_append.mp he with he | he
    · rcases List.mem_append.mp he with he | he
      · exact ⟨e, he, hbase e he⟩
      · obtain ⟨src, hsrc, rfl⟩ := ht.copies e he
        exact ⟨src, hsrc, hbase src hsrc⟩
    · obtain ⟨i, hi, rfl⟩ := List.mem_mapIdx.mp he
      have hsrc := mem_of_mem_drawSources (List.getElem_mem hi)
      obtain ⟨horder, hsequence⟩ := hbase _ hsrc
      exact ⟨_, hsrc, horder, hsequence⟩
  · obtain ⟨i, hi, rfl⟩ := List.mem_mapIdx.mp he
    have hsrc := mem_of_mem_drawSources (List.getElem_mem hi)
    obtain ⟨horder, hsequence⟩ := hbase _ hsrc
    exact ⟨_, hsrc, horder, hsequence⟩

omit [Platform] in
/-- No webhook is newer than the snapshot of its run. -/
theorem sequence_le_providerOrders {e : GeneratedEvent} (he : e ∈ (generate rt opts).allEvents) {o : ProviderOrder}
    (ho : o ∈ (generate rt opts).providerOrders.orders) (hid : o.id = e.payload.orderId) :
    e.payload.sequence ≤ o.sequence := by
  obtain ⟨src, hsrc, horder, hsequence⟩ := exists_base_of_mem_allEvents he
  obtain ⟨⟨id, state⟩, hentry, rfl⟩ := List.mem_map.mp ho
  obtain ⟨b, -, -, rfl, hle⟩ := exists_of_mem_finalStates hentry
  rw [hsequence]
  exact hle src hsrc (horder.symm.trans hid.symm)

omit [Platform] in
/-- An order that stands as the snapshot says is as the oracle expects it. -/
theorem state_of_stands {s : Store} (hstands : s.Stands (generate rt opts).providerOrders.orders)
    {entry : String × ExpectedState} (hentry : entry ∈ (generate rt opts).expectedStates) :
    ∃ row, s.order? entry.1 = some row ∧ row.state? = some entry.2 := by
  obtain ⟨row, hrow, hagrees⟩ := hstands _ (List.mem_map_of_mem hentry)
  refine ⟨row, hrow, ?_⟩
  have ht := traffic rt opts (createRng_inUnit opts.seed)
  obtain ⟨b, hb, -, hstate, -⟩ := exists_of_mem_finalStates hentry
  obtain ⟨cents, currency, hfits, -, hdata⟩ := (ht.sound b (List.mem_append_left _ hb)).1.money
  have hamount : row.amount = numericIn entry.2.amount := hagrees.amount
  have hcurrency : row.currency = some entry.2.currency := hagrees.currency
  have hstatus : row.status = entry.2.status := hagrees.status
  have hsequence : row.lastSequence = entry.2.lastSequence := hagrees.sequence
  rw [← hstate] at hamount hcurrency hstatus hsequence ⊢
  simp only [GeneratedEvent.state, hdata, Option.bind_some, Option.getD_some, numericIn_numericText hfits]
    at hamount hcurrency hstatus hsequence
  simp [OrderRow.state?, GeneratedEvent.state, hdata, hamount, hcurrency, hstatus, hsequence]

/-- **Lost webhooks are healed.**  Whatever part of the webhooks of a run of the simulator has reached the service,
however often and in whichever order, and whatever the workers have made of it: as soon as a reconciliation with the
snapshot of the run has been answered, and from then on, every order is as the simulator expects it. -/
theorem lost_webhooks_healed (rt : Runtime) (opts : GenerateOptions) (h : Reach cfg .empty w)
    (hcalls : ∀ i c, Called w i c → (∃ p : Posting, p.event ∈ (generate rt opts).allEvents ∧ c = .ingest p.request) ∨
      (∃ input, c = .processOne input) ∨ (∃ id, c = .replay id) ∨
      ∃ snapshot, c = .reconcile snapshot ∧ snapshot.orders = (generate rt opts).providerOrders.orders)
    {i : ℕ} {s : Session postgres Call Answer} {r : ReconciliationRunResult} (hs : w.sessions i = some s)
    (hp : s.prog = .done (.reconciled r)) :
    ∀ entry ∈ (generate rt opts).expectedStates, ∃ row, w.db.order? entry.1 = some row ∧ row.state? = some entry.2 := by
  have hwithin : ∀ i c, Called w i c → c.Within (generate rt opts).providerOrders.orders := by
    intro i c hcalled
    rcases hcalls i c hcalled with ⟨p, hevent, rfl⟩ | ⟨input, rfl⟩ | ⟨id, rfl⟩ | ⟨snapshot, rfl, horders⟩
    · exact fun o ho hid => sequence_le_providerOrders hevent ho hid
    · trivial
    · trivial
    · exact horders
  have hnonneg : ∀ o ∈ (generate rt opts).providerOrders.orders, 0 ≤ o.sequence := by
    intro o ho
    obtain ⟨entry, hentry, rfl⟩ := List.mem_map.mp ho
    obtain ⟨b, hb, -, hstate, -⟩ := exists_of_mem_finalStates hentry
    have hpos := ((traffic rt opts (createRng_inUnit opts.seed)).sound b (List.mem_append_left _ hb)).1.positive
    show 0 ≤ entry.2.lastSequence
    rw [← hstate]
    exact le_trans (by decide) hpos
  intro entry hentry
  exact state_of_stands (h.reconciled_stands hnonneg hwithin hs hp) hentry

end Webhooks

omit [Platform] in
/-- In the sample, the only webhook is lost, and the reconciliation makes its order. -/
theorem lost_webhooks_healed_sample : letI := samplePlatform
    ∃ w : State, Reach .default .empty w ∧ w.db.events = [] ∧
      ∃ entry ∈ (generate sampleRuntime sampleRun).expectedStates, ∃ row,
        w.db.order? entry.1 = some row ∧ row.state? = some entry.2 := by
  let _ := samplePlatform
  obtain ⟨snapshot, horders, -, hstorable⟩ := exists_sampleSnapshot
  obtain ⟨w₁, i, b, hcont, -, hbegun, -, hdb, -, hothers⟩ :=
    (Resting.start .default ⟨0, 0, 0, 0, 0, 0⟩).begin (.reconcile snapshot)
  obtain ⟨w₂, log, r, s, hfollows, hsessions, hcall, hdone, -, hc, -⟩ :=
    hcont.rest.reconcile_answered hbegun hstorable
  have hs : w₂.sessions i = some s := by rw [hsessions, Function.update_self]
  have hcalls : ∀ j c, Called w₂ j c → (∃ p : Posting, p.event ∈ (generate sampleRuntime sampleRun).allEvents ∧
      c = .ingest p.request) ∨ (∃ input, c = .processOne input) ∨ (∃ id, c = .replay id) ∨
      ∃ snapshot, c = .reconcile snapshot ∧
        snapshot.orders = (generate sampleRuntime sampleRun).providerOrders.orders := by
    rintro j c ⟨s', hs', rfl⟩
    by_cases hj : j = i
    · subst hj
      obtain rfl := Option.some.inj (hs'.symm.trans hs)
      exact .inr (.inr (.inr ⟨snapshot, hcall, horders⟩))
    · rw [hsessions, Function.update_of_ne hj, hothers j hj] at hs'
      cases hs'
  obtain ⟨state, hstates⟩ := expectedStates_one sampleRuntime sampleRun rfl (by norm_num [sampleRun])
  have hentry : (identifier sampleRun.runId "-order-" 6 1, state) ∈
      (generate sampleRuntime sampleRun).expectedStates := hstates ▸ List.mem_singleton.mpr rfl
  refine ⟨w₂, hfollows.rest.reach, ?_, _, hentry,
    lost_webhooks_healed sampleRuntime sampleRun hfollows.rest.reach hcalls hs hdone _ hentry⟩
  rw [hc.runSpec.events, hdb]
  rfl

end PaymentWebhook
