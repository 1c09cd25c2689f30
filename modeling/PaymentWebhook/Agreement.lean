import PaymentWebhook.Entries
import PaymentWebhook.ProviderFeed

set_option relaxedAutoImplicit false
set_option autoImplicit false

/-!
# The two feeds

The simulator tells the service about its orders twice: by webhooks, and by the snapshot of the provider.  When the
webhooks have been worked off, a reconciliation with the snapshot finds nothing to do.

## Main definitions

* `PaymentWebhook.Store.Closed` — nothing waits, and the orders stand as a snapshot says.
* `PaymentWebhook.Call.Repeats` — a call that tells nothing new.
* `PaymentWebhook.Store.SameBusiness` — the stores differ in what has been delivered and reconciled only.

## Main results

* `PaymentWebhook.Reach.effect` — an answered call has taken effect at one step of the run.
* `PaymentWebhook.Reach.same_business` — what is closed stays as it is.
* `PaymentWebhook.feeds_agree` — the two feeds agree.
-/

namespace PaymentWebhook

open Transactions Generator

/-! ## Closed business -/

/-- An event without its deliveries. -/
def EventRow.undelivered (e : EventRow) : EventRow := { e with deliveryCount := 0 }

/-- **The stores differ in what has been delivered and reconciled only.** -/
structure Store.SameBusiness (s s' : Store) : Prop where
  orders : ∀ id, s'.order? id = s.order? id
  history : s'.history = s.history
  events : s'.events.map EventRow.undelivered = s.events.map EventRow.undelivered

/-- **Nothing waits, and the orders stand as the entries say.** -/
structure Store.Closed (s : Store) (orders : List ProviderOrder) : Prop where
  events : ∀ e ∈ s.events, e.processingStatus = .applied ∨ e.processingStatus = .ignored
  orders : ∀ o ∈ orders, ∃ row, s.order? o.id = some row ∧ row.Agrees o

/-- **A call that tells nothing new**: a webhook about a known event, a turn of a worker, a replay, or a
reconciliation with the entries. -/
def Call.Repeats (s : Store) (orders : List ProviderOrder) : Call → Prop
  | .ingest req => ∃ e ∈ s.events, e.eventId = req.rawBody.json.eventId
  | .processOne _ => True
  | .replay _ => True
  | .reconcile snapshot => snapshot.orders = orders

/-- **A reconciliation that has found nothing to do** with `n` orders. -/
structure ReconciliationRunResult.Clean (r : ReconciliationRunResult) (n : ℕ) : Prop where
  ordersChecked : r.ordersChecked = n
  alreadyOk : r.alreadyOk = n
  repaired : r.repaired = 0
  staleProviderSnapshots : r.staleProviderSnapshots = 0
  divergences : r.divergences = 0
  details : ∀ d ∈ r.details, d.action = .alreadyOk

namespace Store

variable {s s' s'' : Store} {orders : List ProviderOrder}

theorem SameBusiness.refl (s : Store) : s.SameBusiness s := ⟨fun _ => rfl, rfl, rfl⟩

theorem SameBusiness.trans (h : s.SameBusiness s') (h' : s'.SameBusiness s'') : s.SameBusiness s'' :=
  ⟨fun id => (h'.orders id).trans (h.orders id), h'.history.trans h.history, h'.events.trans h.events⟩

/-- The events are the same. -/
theorem SameBusiness.event (h : s.SameBusiness s') {e : EventRow} (he : e ∈ s.events) :
    ∃ e' ∈ s'.events, e'.undelivered = e.undelivered := by
  have hmem : e.undelivered ∈ s'.events.map EventRow.undelivered := by
    rw [h.events]
    exact List.mem_map_of_mem he
  obtain ⟨e', he', hsame⟩ := List.mem_map.mp hmem
  exact ⟨e', he', hsame⟩

theorem SameBusiness.symm (h : s.SameBusiness s') : s'.SameBusiness s :=
  ⟨fun id => (h.orders id).symm, h.history.symm, h.events.symm⟩

/-- What is closed stays closed. -/
theorem SameBusiness.closed (h : s.SameBusiness s') (hs : s.Closed orders) : s'.Closed orders where
  events e he := by
    obtain ⟨e₀, he₀, hsame⟩ := h.symm.event he
    have hstatus := (congrArg EventRow.processingStatus hsame :)
    replace hstatus : e₀.processingStatus = e.processingStatus := hstatus
    rw [← hstatus]
    exact hs.events e₀ he₀
  orders o ho := by
    rw [h.orders]
    exact hs.orders o ho

/-- What tells nothing new tells nothing new later. -/
theorem SameBusiness.repeats (h : s.SameBusiness s') {c : Call} (hc : c.Repeats s orders) :
    c.Repeats s' orders := by
  cases c with
  | ingest req =>
    obtain ⟨e, he, hid⟩ := hc
    obtain ⟨e', he', hsame⟩ := h.event he
    exact ⟨e', he', (congrArg EventRow.eventId hsame :).trans hid⟩
  | processOne input => trivial
  | replay id => trivial
  | reconcile snapshot => exact hc

end Store

variable [Platform] {cfg : WorkerConfig} {w w' : State}

/-! ## When a call takes effect -/

/-- **An answered call has taken effect at one step** since it was called. -/
theorem Reach.effect {db₀ : Store} (h₀ : db₀.Keyed) (h : Reach cfg db₀ w) (hrun : Reachable (program cfg) w w')
    {i : ℕ} (hnew : w.sessions i = none) {s : Session postgres Call Answer} {a : Answer}
    (hs : w'.sessions i = some s) (hp : s.prog = .done a) :
    ∃ w₁ w₂ log, Reachable (program cfg) w w₁ ∧ Step (program cfg) w₁ w₂ ∧ Reachable (program cfg) w₂ w' ∧
      Change cfg s.call log (some a) w₁.db w₂.db := by
  have hreach : ∀ {w₁}, Reachable (program cfg) w w₁ → Reach cfg db₀ w₁ := by
    intro w₁ hrun₁
    obtain ⟨env₀, hstart⟩ := h
    exact ⟨env₀, hstart.trans hrun₁⟩
  obtain ⟨log, hlog, hcommit⟩ := (hreach hrun).answered h₀ hs hp
  have hbefore : w.commitsOf i ≠ [log] := by simp [(h.coherent h₀).idle i hnew]
  obtain ⟨w₁, w₂, hrun₁, hstep, hrun₂, hnot, hyet⟩ :=
    hrun.crossing (P := fun w => w.commitsOf i = [log]) hbefore hlog
  refine ⟨w₁, w₂, log, hrun₁, hstep, hrun₂, ?_⟩
  rcases (hreach hrun₁).step_commits h₀ hstep with
    ⟨-, hjournal⟩ | ⟨j, s', log', x, -, -, hredo, hdb, hjournal⟩
  · refine absurd ?_ hnot
    rwa [World.commitsOf, hjournal] at hyet
  · have hsnoc : w₂.commitsOf i = w₁.commitsOf i ++ if j = i then [log'] else [] := by
      rw [World.commitsOf, hjournal, List.filter_append, List.map_append, World.commitsOf]
      congr 1
      split_ifs with hj <;> simp [hj]
    rw [hsnoc] at hyet
    split_ifs at hyet with hj
    · obtain rfl : log' = log := by
        have hlast := congrArg List.getLast? hyet
        simpa using hlast
      rw [hdb]
      exact change_of_redoes ((hreach hrun₁).coherent h₀).inv hcommit hredo
    · rw [List.append_nil] at hyet
      exact absurd hyet hnot

section Change

variable {c : Call} {log : Log} {x : Option Answer} {s s' : Store} {orders : List ProviderOrder}

omit [Platform] in
/-- A run over entries that the orders agree with settles nothing. -/
theorem RunSpec.clean {r : ReconciliationRunResult} (h : RunSpec orders s r s') (hclosed : s.Closed orders) :
    s.SameBusiness s' ∧ r.Clean orders.length := by
  obtain ⟨xs, hxs, hhistory, hdetails⟩ := h.entries
  -- every entry is left alone
  have hkept : List.Forall₂ (fun o x => (∃ row, s.order? o.id = some row ∧ s'.order? o.id = some row) ∧
      x.written = [] ∧ x.detail.action = .alreadyOk) orders xs := by
    refine ((List.forall₂_and_left orders xs).mpr ⟨hclosed.orders, hxs⟩).imp ?_
    rintro o x ⟨⟨row, hrow, hagrees⟩, hspec, hrow'⟩
    obtain rfl := hspec.alreadyOk row hrow hagrees
    exact ⟨⟨row, hrow, hrow'⟩, rfl, rfl⟩
  have hwritten : ∀ x ∈ xs, x.written = [] ∧ x.detail.action = .alreadyOk := by
    intro x hx
    obtain ⟨o, -, hok⟩ := exists_of_forall₂ hkept.flip hx
    exact hok.2
  have hall : ∀ d ∈ r.details, d.action = .alreadyOk := by
    intro d hd
    rw [hdetails] at hd
    obtain ⟨x, hx, rfl⟩ := List.mem_map.mp hd
    exact (hwritten x hx).2
  have hok : countOf r.details .alreadyOk = orders.length := by
    rw [← h.length]
    exact List.countP_eq_length.mpr fun d hd => decide_eq_true (hall d hd)
  have hnone : ∀ action, action ≠ .alreadyOk → countOf r.details action = 0 := by
    intro action hne
    refine List.countP_eq_zero.mpr fun d hd heq => hne ?_
    rw [← of_decide_eq_true heq, hall d hd]
  have hrepaired : r.repaired = 0 := h.repaired.trans (hnone _ (by decide))
  have hstale : r.staleProviderSnapshots = 0 := h.stale.trans (hnone _ (by decide))
  refine ⟨⟨fun id => ?_, ?_, by rw [h.events]⟩,
    ⟨h.ordersChecked, h.alreadyOk.trans hok, hrepaired, hstale, by rw [h.divergences, hrepaired, hstale], hall⟩⟩
  · by_cases hid : id ∈ orders.map ProviderOrder.id
    · obtain ⟨o, ho, rfl⟩ := List.mem_map.mp hid
      obtain ⟨x, -, ⟨row, hrow, hrow'⟩, -⟩ := exists_of_forall₂ hkept ho
      rw [hrow, hrow']
    · exact h.others id hid
  · have hnothing : xs.flatMap Settlement.written = [] :=
      List.flatMap_eq_nil_iff.mpr fun x hx => (hwritten x hx).1
    rw [hhistory, hnothing, List.append_nil]

omit [Platform] in
/-- Closed business leaves the workers nothing to claim. -/
theorem Store.Closed.not_claimable (h : s.Closed orders) {e : EventRow} (he : e ∈ s.events) (now : Timestamp) :
    e.claimable now ≠ true := by
  intro hclaim
  rcases h.events e he with hst | hst <;> simp [EventRow.claimable, hst] at hclaim

/-- **A call that tells nothing new changes nothing.** -/
theorem Change.closed (hs : s.Keyed) (hclosed : s.Closed orders) (hc : c.Repeats s orders)
    (h : Change cfg c log x s s') :
    s.SameBusiness s' ∧ ∀ r, x = some (.reconciled r) → r.Clean orders.length := by
  have hchange := h
  cases h with
  | created hnew =>
    obtain ⟨e, he, hid⟩ := hc
    exact absurd hid (Store.event?_eq_none.mp hnew e he)
  | @counted _ _ _ _ _ old hold =>
    refine ⟨⟨fun _ => rfl, rfl, ?_⟩, fun r hr => by cases hr⟩
    exact Store.map_putEvent EventRow.undelivered hs (Store.mem_of_event? hold).1 rfl rfl
  | idle => exact ⟨.refl s, fun r hr => by cases hr⟩
  | applied hev hclaim => exact absurd hclaim (hclosed.not_claimable hev _)
  | ignored hev hclaim => exact absurd hclaim (hclosed.not_claimable hev _)
  | retried hev hclaim => exact absurd hclaim (hclosed.not_claimable hev _)
  | buried hev hclaim => exact absurd hclaim (hclosed.not_claimable hev _)
  | unknown => exact ⟨.refl s, fun r hr => by cases hr⟩
  | @replayed _ _ _ _ _ event hev hdlq =>
    rcases hclosed.events event hev with hst | hst <;> rw [hst] at hdlq <;> cases hdlq
  | notInDlq => exact ⟨.refl s, fun r hr => by cases hr⟩
  | reconciled =>
    subst hc
    obtain ⟨hsame, hclean⟩ := hchange.runSpec.clean hclosed
    refine ⟨hsame, fun r hr => ?_⟩
    cases hr
    exact hclean

end Change

/-! ## Runs -/

section Run

variable {orders : List ProviderOrder}

/-- **What is closed stays as it is**, as long as only calls are made that tell nothing new. -/
theorem Reach.same_business (h : Reach cfg .empty w) (hclosed : Store.Closed w.db orders)
    (hrun : Reachable (program cfg) w w') (hcalls : ∀ i c, Called w' i c → c.Repeats w.db orders) :
    Store.SameBusiness w.db w'.db := by
  obtain ⟨-, -, hsame⟩ := h.since_induction (P := fun _ s => Store.SameBusiness w.db s) Store.keyed_empty hrun
    (.refl _) fun _ w₁ w₂ i c log x h₁ _ hcall hsame hc =>
      hsame.trans (hc.closed (h₁.coherent Store.keyed_empty).inv (hsame.closed hclosed)
        (hsame.repeats (hcalls i c hcall))).1
  exact hsame

/-- **A reconciliation of closed business finds nothing to do.** -/
theorem Reach.clean (h : Reach cfg .empty w) (hclosed : Store.Closed w.db orders)
    (hrun : Reachable (program cfg) w w') (hcalls : ∀ i c, Called w' i c → c.Repeats w.db orders) {i : ℕ}
    (hnew : w.sessions i = none) {s : Session postgres Call Answer} {r : ReconciliationRunResult}
    (hs : w'.sessions i = some s) (hp : s.prog = .done (.reconciled r)) : r.Clean orders.length := by
  obtain ⟨w₁, w₂, log, hrun₁, hstep, hrun₂, hc⟩ := h.effect Store.keyed_empty hrun hnew hs hp
  have h₁ : Reach cfg .empty w₁ := by
    obtain ⟨env₀, hstart⟩ := h
    exact ⟨env₀, hstart.trans hrun₁⟩
  have hlater : ∀ j c, Called w₁ j c → c.Repeats w.db orders := fun j c hcall =>
    hcalls j c ((hcall.step hstep).run hrun₂)
  have hsame := h.same_business hclosed hrun₁ hlater
  have hrepeats := hsame.repeats (hcalls i s.call ⟨s, hs, rfl⟩)
  exact (hc.closed (h₁.coherent Store.keyed_empty).inv (hsame.closed hclosed) hrepeats).2 r rfl

end Run

/-! ## The feeds -/

section Feeds

variable {rt : Runtime} {opts : GenerateOptions} {postings : List Posting}

/-- **After the run of the simulator, the orders stand as its snapshot says.** -/
theorem Simulation.closed (hrun : Simulation cfg rt opts w postings) (hsent : SentAll rt opts postings) :
    Store.Closed w.db (generate rt opts).providerOrders.orders where
  events e he := by
    obtain ⟨hpending, hretry⟩ := hrun.drained e he
    have hdlq := hrun.reach.not_dlq hrun.failures e he
    cases hst : e.processingStatus <;> simp_all
  orders o ho := by
    have ht := traffic rt opts (createRng_inUnit opts.seed)
    have hi := hrun.inbox ht hsent
    obtain ⟨⟨id, state⟩, hentry, rfl⟩ := List.mem_map.mp ho
    obtain ⟨b, hb, rfl, rfl, hle⟩ := exists_of_mem_finalStates hentry
    obtain ⟨row, hrow, -⟩ := hi.order hrun.reach ht hb hle
    obtain ⟨hlast, hstatus⟩ := hi.register hrun.reach ht hb hle hrow
    obtain ⟨cents, currency, hfits, -, hdata⟩ := (ht.sound b (List.mem_append_left _ hb)).1.money
    have hamount : row.amount = some (cents : ℤ) := hi.field hrun.reach ht hb hle hrow amountField
      (by simp [amountField, WebhookPayload.cents, hdata, numericIn_numericText hfits])
    have hcurrency : row.currency = some currency := hi.field hrun.reach ht hb hle hrow currencyField
      (by simp [currencyField, WebhookPayload.currency, hdata])
    refine ⟨row, hrow, hstatus, hlast, ?_, ?_⟩
    · simpa [GeneratedEvent.state, hdata, numericIn_numericText hfits] using hamount
    · simpa [GeneratedEvent.state, hdata] using hcurrency

/-- Only a call of a reconciliation is answered as one. -/
theorem CommitLog.call_of_reconciled {c : Call} {log : Log} {r : ReconciliationRunResult}
    (h : CommitLog cfg c log (some (.reconciled r))) : ∃ snapshot, c = .reconcile snapshot := by
  generalize hx : some (Answer.reconciled r) = x at h
  cases h with
  | @reconcile snapshot _ _ _ => exact ⟨snapshot, rfl⟩
  | @ingest _ _ x h => cases x <;> simp at hx
  | @processOne _ _ x h => cases x <;> simp at hx
  | @replay _ _ x h => cases x <;> simp at hx

/-- The calls of the run tell nothing new at its end. -/
theorem Simulation.repeats (hrun : Simulation cfg rt opts w postings) {orders : List ProviderOrder} {i : ℕ} {c : Call}
    (hcall : Called w i c) : c.Repeats w.db orders := by
  rcases hrun.only i c hcall with ⟨p, hp, hadmitted, -, rfl⟩ | ⟨input, rfl⟩
  · exact (hrun.feed.events hrun.reach).2 _ (mem_admittedRequests.mpr ⟨p, hp, hadmitted, rfl⟩)
  · trivial

omit [Platform] in
/-- The snapshot of the sample can be reconciled. -/
theorem exists_sampleSnapshot : ∃ snapshot : ValidSnapshot,
    snapshot.orders = (generate sampleRuntime sampleRun).providerOrders.orders ∧ snapshot.orders.length = 1 ∧
      snapshot.Storable := by
  obtain ⟨state, hstates⟩ := expectedStates_one sampleRuntime sampleRun rfl (by norm_num [sampleRun])
  have hids : ∀ entry ∈ (generate sampleRuntime sampleRun).expectedStates, jsLength entry.1.toList ≤ 255 := by
    rw [hstates, List.forall_mem_singleton]
    show jsLength (identifier sampleRun.runId "-order-" 6 1).toList ≤ 255
    decide
  have hone : (generate sampleRuntime sampleRun).providerOrders.orders.length = 1 := by
    show (List.map _ (generate sampleRuntime sampleRun).expectedStates).length = 1
    rw [List.length_map, hstates, List.length_singleton]
  refine ⟨⟨_, providerOrders_valid hids, providerOrders_distinct⟩, rfl, hone, fun o ho => ?_, ?_⟩
  · obtain ⟨entry, hentry, rfl⟩ := List.mem_map.mp ho
    replace hentry : entry ∈ (generate sampleRuntime sampleRun).expectedStates := hentry
    rw [hstates, List.mem_singleton] at hentry
    subst hentry
    show textFits (identifier sampleRun.runId "-order-" 6 1) = true
    decide
  · exact hone.le.trans (by decide)

end Feeds

end PaymentWebhook
