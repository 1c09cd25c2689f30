import PaymentWebhook.Queries
import PaymentWebhook.Transactions.Work
import PaymentWebhook.SnapshotRuns
import PaymentWebhook.Trail

set_option relaxedAutoImplicit false
set_option autoImplicit false

/-!
# Timestamps and commits

`now()` is the time at which the transaction began, `clock_timestamp()` that of the statement.  A worker
stamps `orders.updated_at` with the second while it has the row locked, a reconciliation with the
first; `order_status_history.changed_at` is always the first.  The order of the begins is not that of the
commits, so that the stamps taken from it can go back although the clock does not.

## Main definitions

* `PaymentWebhook.clockWork` — what the stamps have to do with the clock.
* `PaymentWebhook.Commits` — a step commits an open transaction.
* `PaymentWebhook.HistoryInTurn`, `PaymentWebhook.RepairsInTurn` — no transaction that began earlier is
  overtaken.

## Main results

* `PaymentWebhook.served_history_causal` — when the served history of an order is in causal order.
* `PaymentWebhook.updated_at_monotone_iff` — when `orders.updated_at` does not go back.
-/

namespace PaymentWebhook

open Transactions

variable [Platform] {cfg : WorkerConfig} {w w' : State}

/-! ## Stamps of rows -/

/-- An order has not been updated after the time `t`. -/
def Row.Past (t : Timestamp) : Row → Prop
  | .order o => o.updatedAt ≤ t
  | _ => True

section Past

variable {s : Store} {d : Draws} {t u : Timestamp} {ws : List Write}

omit [Platform] in
theorem Row.Past.mono {r : Row} (h : r.Past t) (hle : t ≤ u) : r.Past u := by
  cases r with
  | order o => exact le_trans (b := t) h hle
  | _ => trivial

omit [Platform] in
/-- The row that an insertion writes. -/
theorem past_insertRow {α : Type} {r : Row} {a x : α} (h : s.insertRow r a = .ok (x, ws))
    (hr : r.Past t) : ∀ w ∈ ws, w.row.Past t := by
  obtain ⟨-, -, rfl⟩ := insertRow_ok.mp h
  intro w hw
  rw [List.mem_singleton.mp hw]
  exact hr

omit [Platform] in
/-- The row that an update writes. -/
theorem past_updateRow {α ρ : Type} {mk : ρ → Row} {f : ρ → ρ} {found : ρ → α} {missing x : α}
    {o : Option ρ} (h : updateRow mk f found missing o = .ok (x, ws)) (hf : ∀ r, (mk (f r)).Past t) :
    ∀ w ∈ ws, w.row.Past t := by
  rcases updateRow_ok.mp h with ⟨-, -, rfl⟩ | ⟨r, -, -, -, rfl⟩
  · simp
  · intro w hw
    rw [List.mem_singleton.mp hw]
    exact hf r

/-- **A statement stamps an order with a time that has passed.** -/
theorem exec_past {q : Stmt} {skip : Key → Bool} {rows : q.Rows} (hnow : d.now ≤ t)
    (hstart : d.start ≤ t) (h : exec q d skip s = .ok (rows, ws)) : ∀ w ∈ ws, w.row.Past t := by
  have hnone : ws = [] → ∀ w ∈ ws, w.row.Past t := by
    rintro rfl w hw
    cases hw
  cases q with
  | upsertAndDeliver p b =>
    obtain ⟨occurredAt, evt, w, -, -, hup, -, -, rfl⟩ := upsertAndDeliver_ok.mp h
    intro w' hw'
    simp only [List.mem_cons, List.not_mem_nil, or_false] at hw'
    rcases hw' with rfl | rfl
    · obtain ⟨-, ⟨-, -, -, rfl⟩ | ⟨old, -, -, -, rfl⟩⟩ := upsert_ok.mp hup <;> trivial
    · trivial
  | claim =>
    obtain ⟨-, hws⟩ : _ ∧ ws = [] := by simpa [exec, eq_comm] using h
    exact hnone hws
  | insertOrder id =>
    simp only [exec] at h
    split at h
    · cases h
    · split at h
      · obtain ⟨-, hws⟩ : _ ∧ ws = [] := by simpa [eq_comm] using h
        exact hnone hws
      · exact past_insertRow h hstart
  | selectOrder id =>
    obtain ⟨-, hws⟩ : _ ∧ ws = [] := by simpa [exec, eq_comm] using h
    exact hnone hws
  | applyToOrder id status seq amount currency =>
    simp only [exec] at h
    split at h
    · exact past_updateRow h (fun _ => hnow)
    · cases h
  | insertHistory v =>
    obtain ⟨st, -, rfl⟩ := exec_insertHistory h
    simp [Write.row, Row.Past]
  | selectEvent id =>
    obtain ⟨-, hws⟩ : _ ∧ ws = [] := by simpa [exec, eq_comm] using h
    exact hnone hws
  | advisoryLock =>
    have hws : ws = [] := by simpa [exec, eq_comm] using h
    exact hnone hws
  | insertRun => exact past_insertRow h trivial
  | reconcileOrder id status seq amount currency =>
    simp only [exec] at h
    split at h
    · exact past_updateRow h (fun _ => hstart)
    · cases h
  | insertDetail v => exact past_insertRow h trivial
  | markApplied id =>
    simp only [exec] at h
    exact past_updateRow h (fun _ => trivial)
  | markIgnored id reason =>
    simp only [exec] at h
    exact past_updateRow h (fun _ => trivial)
  | markDlq id n error =>
    simp only [exec] at h
    exact past_updateRow h (fun _ => trivial)
  | markRetryScheduled id n next error =>
    simp only [exec] at h
    exact past_updateRow h (fun _ => trivial)
  | replayEvent id => exact past_updateRow h (fun _ => trivial)
  | completeRun id checked divergences repaired => exact past_updateRow h (fun _ => trivial)

end Past

/-! ## Stamps of transactions -/

/-- The statement stamps the order with the time of the statement. -/
def Stmt.Applies (q : Stmt) (id : String) : Prop :=
  ∃ status seq amount currency, q = .applyToOrder id status seq amount currency

/-- The statement stamps the order with the time at which its transaction began. -/
def Stmt.Repairs (q : Stmt) (id : String) : Prop :=
  ∃ status seq amount currency, q = .reconcileOrder id status seq amount currency

/-- **What the clock says about an open transaction**: its statements have the time of its begin, none
of its stamps lies in the future, and what it applies to an order is not older than the committed
row. -/
structure Timely (env : Env) (s : Store) (b : Draws) (log : Log) : Prop where
  begun : b.start ≤ env.clock
  start : ∀ e ∈ log, e.draws.start = b.start
  executed : Executed log
  past : Wrote (Row.Past env.clock) log
  applies : ∀ e ∈ log, ∀ id, e.stmt.Applies id → ∀ o, s.order? id = some o → o.updatedAt ≤ e.draws.now

/-- **The stamps and the clock**: no committed order has been updated in the future, and the open
transactions are timely. -/
def clockWork : Work (E := postgres) locality fun env env' => env.clock ≤ env'.clock where
  Done := fun env s _ => Store.All (Row.Past env.clock) s
  Open := fun env s _ b log => Timely env s b log
  done_mono := fun hle h k r hk => (h k r hk).mono hle
  open_mono := fun hle h => ⟨h.begun.trans hle, h.start, h.executed,
    fun e he w hw => (h.past e he w hw).mono hle, h.applies⟩
  opened := fun _ hdraw => by
    refine ⟨?_, by simp, by simp [Executed], by simp [Wrote], by simp⟩
    rw [hdraw.start, hdraw.clock]
    rfl
  initial := fun h hp => ⟨h.begun, fun e he => h.start e (hp.subset he),
    fun e he => h.executed e (hp.subset he), fun e he => h.past e (hp.subset he),
    fun e he => h.applies e (hp.subset he)⟩
  push := by
    intro env env' db journal b log q d skip rows ws hs hdone h hredo hdraw hx
    have hnow : d.now ≤ env'.clock := by rw [hdraw.now, hdraw.clock]
    have hbegun : b.start ≤ env'.clock := hdraw.clock ▸ h.begun
    have hstart : d.start = b.start := hdraw.start
    refine ⟨hbegun, ?_, ?_, ?_, ?_⟩
    all_goals
      intro e he
      rcases List.mem_append.mp he with he | he
    · exact h.start e he
    · rw [List.mem_singleton.mp he]
      exact hstart
    · exact h.executed e he
    · rw [List.mem_singleton.mp he]
      exact ⟨skip, _, hx⟩
    · exact fun w hw => (h.past e he w hw).mono hdraw.clock.ge
    · rw [List.mem_singleton.mp he]
      exact exec_past hnow (hstart ▸ hbegun) hx
    · exact h.applies e he
    · rw [List.mem_singleton.mp he]
      intro id _ o ho
      have hpast : o.updatedAt ≤ env.clock := hdone (.order id) (.order o) (by simp [Store.look, ho])
      exact hpast.trans hdraw.now.ge
  commit := fun hs hdone h hredo => Store.All.install hdone hs hredo h.past
  frame := by
    intro env db journal b b' log log' hs hdone h h' hredo hredo' hdisjoint
    refine ⟨h.begun, h.start, h.executed, h.past, fun e he id hid o ho => h.applies e he id hid o ?_⟩
    -- the order is locked, so the other transaction has not written it
    have hkey : Key.order id ∈ e.keys := by
      obtain ⟨q, d, rows, ws⟩ := e
      obtain ⟨status, seq, amount, currency, rfl⟩ := hid
      simp [Entry.keys, Stmt.locks]
    have hagree := locality.agree_install (K := fun k => k = Key.order id) hs
      (fun e' he' k hk hkid => hdisjoint e' he' k hk e he (hkid ▸ hkey)) hredo'
    rw [← ho]
    exact order?_congr (hagree _ rfl)

/-- The step commits the open transaction `t` of session `i`. -/
def Commits (w w' : State) (i : ℕ) (t : Tx postgres) : Prop :=
  ∃ s, w.sessions i = some s ∧ s.conn.tx = some t ∧ w'.journal = w.journal ++ [(i, t.log)]

/-- The stamps of a world whose clock has never run backwards. -/
theorem ReachForward.clock (h : ReachForward cfg .empty w) : clockWork.Holds w := by
  obtain ⟨env₀, hrun⟩ := h
  exact clockWork.holds_along (fun hdraw => hdraw.clock.ge) (fun _ _ hforward _ => hforward)
    Store.keyed_empty Store.all_empty hrun

/-- A transaction that is committed is timely. -/
theorem Commits.timely {i : ℕ} {t : Tx postgres} (hc : Commits w w' i t)
    (h : ReachForward cfg .empty w) : Timely w.env w.db t.begun t.log := by
  obtain ⟨s, hs, ht, -⟩ := hc
  exact h.clock.opened i s t hs ht

/-- What a step commits can be redone on the committed store. -/
theorem Commits.redoes {i : ℕ} {t : Tx postgres} (hc : Commits w w' i t) (h : Reach cfg .empty w)
    (hstep : Step (program cfg) w w') :
    Redoes t.log w.db ∧ w'.db = install (E := postgres) w.db t.log ∧ ∃ s x, w.sessions i = some s ∧
      s.conn.tx = some t ∧ Change cfg s.call t.log x w.db w'.db := by
  obtain ⟨s, hs, ht, hjournal⟩ := hc
  rcases h.step_commits_open Store.keyed_empty hstep with
    ⟨-, hsame⟩ | ⟨j, s', t', x, hs', ht', hlog, hredo, hdb, hjournal'⟩
  · rw [hsame] at hjournal
    simp at hjournal
  · obtain ⟨rfl, hlogs⟩ : j = i ∧ t'.log = t.log := by simpa [hjournal] using hjournal'.symm
    obtain rfl : s' = s := Option.some.inj (hs'.symm.trans hs)
    obtain rfl : t' = t := Option.some.inj (ht'.symm.trans ht)
    refine ⟨hredo, hdb, s', x, hs, ht, ?_⟩
    rw [hdb]
    exact change_of_redoes (h.coherent Store.keyed_empty).inv hlog hredo

/-! ## A call that is overtaken -/

section Overtaken

/-- A call has begun, and a worker that began later has applied the authorization of an order. -/
structure Overtaken (cfg : WorkerConfig) (w : State) (i : ℕ) (c : Call) (b : Draws) (o : OrderRow)
    (r : HistoryRow) : Prop where
  rest : Resting cfg w
  begun : Begun cfg w i c b
  start : b.start = sampleTime
  clock : w.env.clock = sampleTime + 1
  drained : w.db.Drained
  fresh : w.db.event? "evt_2" = none
  order : w.db.order? "ord_1" = some o
  status : o.status = .authorized
  lastSequence : o.lastSequence = 1
  updatedAt : o.updatedAt = sampleTime + 1
  history : w.db.history = [r]
  eventId : r.eventId = some "evt_1"
  changedAt : r.changedAt = sampleTime + 1

omit [Platform] in
/-- Every call can be overtaken. -/
theorem exists_overtaken (cfg : WorkerConfig) (c : Call) : letI := samplePlatform
    ∃ w i b o r, Overtaken cfg w i c b o r := by
  let _ := samplePlatform
  have hmap : mapEventToStatus authorizedBody.json.eventType = some (.known .authorized) := by decide
  obtain ⟨w₁, i, b, hbegin, -, hbegun, hstart, hdb, -, -⟩ :=
    (Resting.start cfg ⟨sampleTime, 0, 0, 0, 0, 0⟩).begin c
  have hlater : w₁.env.clock ≤ sampleTime + 1 := by
    rw [hbegin.clock]
    decide
  obtain ⟨hrest, -⟩ := hbegin.rest.later hlater
  have hempty : w₁.db = Store.empty := hdb
  obtain ⟨w, e, hcont, hconsumed, happlied, d, d₃, isNew, o, hopen, hd₃, horder, r, hr, hchanged,
    hhistory⟩ := hrest.consume_applied authorizedBody_storable rfl
      (by simp only [hempty]; rfl) (by simp only [hempty]; intro e he; cases he)
      (by simp only [hempty]; intro r hr; cases hr) hmap authorizedBody_applicable
      (fun d isNew o ho => by
        simp only [hempty] at ho
        rw [ho.eq_default rfl]
        exact zero_lt_one)
  simp only [hempty] at hopen hhistory
  obtain rfl := hopen.eq_default rfl
  have hevents : w.db.events = [e] := by
    rw [hconsumed.events]
    simp only [hempty]
    rfl
  obtain ⟨ok, failed, hp, hs⟩ := hbegun
  refine ⟨w, i, b, _, r, hcont.rest, ⟨ok, failed, hp, hcont.kept i _ hs⟩, hstart, hcont.clock, ?_, ?_,
    horder, rfl, rfl, hd₃, hhistory, hr, hchanged⟩
  · intro x hx now
    rw [hevents] at hx
    rw [List.mem_singleton.mp hx]
    simp [EventRow.claimable, happlied]
  · refine Store.event?_eq_none.mpr fun x hx => ?_
    rw [hevents] at hx
    rw [List.mem_singleton.mp hx, hconsumed.eventId]
    decide

end Overtaken

/-! ## The history of an order -/

section History

/-- **No history out of turn**: a transaction that commits history rows of an order began no earlier
than the transactions that wrote the rows that are committed. -/
def HistoryInTurn (w w' : State) : Prop :=
  ∀ i t, Commits w w' i t → ∀ e ∈ t.log, ∀ v, e.stmt = .insertHistory v →
    ∀ r ∈ w.db.trail v.orderId, r.changedAt ≤ t.begun.start

/-- **Causal order**: each entry starts where the one before has ended, and the last one ends in the
status of the order. -/
structure OrderDetail.Causal (d : OrderDetail) : Prop where
  chain : d.statusChanges.IsChain fun a b => b.previousStatus = some a.newStatus
  last : d.statusChanges.getLast?.map StatusChangeRow.newStatus = some d.order.status

/-- The history row that an executed statement has inserted, and the statement. -/
theorem insertedHistory_cases {e : Entry postgres} {r : HistoryRow} (hx : e.Executed)
    (h : insertedHistory? e = some r) :
    ∃ v, e.stmt = .insertHistory v ∧ r.orderId = v.orderId ∧ r.changedAt = e.draws.start := by
  obtain ⟨q, d, rows, ws⟩ := e
  obtain ⟨skip, s, hx⟩ := hx
  cases q with
  | insertHistory v =>
    replace hx : exec (.insertHistory v) d skip s = .ok (rows, ws) := hx
    obtain ⟨st, -, rfl⟩ := exec_insertHistory hx
    obtain rfl : v.row st d = r := by simpa [insertedHistory?] using h
    exact ⟨v, rfl, rfl, rfl⟩
  | _ => simp [insertedHistory?] at h

/-- An executed statement that inserts history has inserted a row. -/
theorem insertedHistory_isSome {e : Entry postgres} {v : HistoryValues} (hx : e.Executed)
    (hv : e.stmt = .insertHistory v) : ∃ r, insertedHistory? e = some r := by
  obtain ⟨q, d, rows, ws⟩ := e
  obtain ⟨skip, s, hx⟩ := hx
  obtain rfl : q = .insertHistory v := hv
  replace hx : exec (.insertHistory v) d skip s = .ok (rows, ws) := hx
  obtain ⟨st, -, rfl⟩ := exec_insertHistory hx
  exact ⟨_, rfl⟩

/-- A step keeps the history of every order in the order of its stamps, if it commits none out of
turn. -/
theorem trail_sorted_step (h : ReachForward cfg .empty w) (hstep : Step (program cfg) w w')
    (hturn : HistoryInTurn w w')
    (hsorted : ∀ id, (w.db.trail id).Pairwise fun a b => a.changedAt ≤ b.changedAt) (id : String) :
    (w'.db.trail id).Pairwise fun a b => a.changedAt ≤ b.changedAt := by
  rcases h.reach.step_commits_open Store.keyed_empty hstep with
    ⟨hdb, -⟩ | ⟨i, s, t, x, hs, ht, -, hredo, hdb, hjournal⟩
  · rw [hdb]
    exact hsorted id
  · have hc : Commits w w' i t := ⟨s, hs, ht, hjournal⟩
    have htimely := hc.timely h
    have hnew : ∀ r ∈ (t.log.filterMap insertedHistory?).filter (·.orderId = id),
        r.changedAt = t.begun.start ∧ ∀ r' ∈ w.db.trail id, r'.changedAt ≤ t.begun.start := by
      intro r hr
      obtain ⟨hmem, hid⟩ := List.mem_filter.mp hr
      obtain ⟨e, he, hrow⟩ := List.mem_filterMap.mp hmem
      obtain ⟨v, hv, horder, hchanged⟩ := insertedHistory_cases (htimely.executed e he) hrow
      have hvid : v.orderId = id := horder ▸ of_decide_eq_true hid
      exact ⟨hchanged.trans (htimely.start e he), hvid ▸ hturn i t hc e he v hv⟩
    have htrail : w'.db.trail id =
        w.db.trail id ++ (t.log.filterMap insertedHistory?).filter (·.orderId = id) := by
      rw [hdb, Store.trail, history_install hredo, List.filter_append]
      rfl
    rw [htrail]
    refine List.pairwise_append.mpr ⟨hsorted id, ?_, fun a ha b hb => ?_⟩
    · refine List.Pairwise.imp_of_mem (fun {a b} ha hb _ => ?_) (List.pairwise_of_forall fun _ _ => trivial)
      rw [(hnew a ha).1, (hnew b hb).1]
    · rw [(hnew b hb).1]
      exact (hnew b hb).2 a ha

/-- A run that leaves one history row at most has committed none out of turn. -/
theorem historyInTurn_of_length {env₀ : Env}
    (h : Along Forward (program cfg) (World.start .empty env₀) w) (hlength : w.db.history.length ≤ 1) :
    Along (fun w w' => Forward w w' ∧ HistoryInTurn w w') (program cfg) (World.start .empty env₀) w := by
  induction h with
  | refl => exact .refl
  | @step w w' hrun hstep hforward ih =>
    have hreach : ReachForward cfg .empty w := ⟨env₀, hrun⟩
    have hturn : ∀ i t, Commits w w' i t → w.db.history.length +
        (t.log.filterMap insertedHistory?).length ≤ 1 := by
      intro i t hc
      obtain ⟨hredo, hdb, -⟩ := hc.redoes hreach.reach hstep
      rw [hdb, history_install hredo, List.length_append] at hlength
      exact hlength
    have hle : w.db.history.length ≤ 1 := by
      rcases hreach.reach.step_commits_open Store.keyed_empty hstep with
        ⟨hdb, -⟩ | ⟨i, s, t, x, hs, ht, -, -, -, hjournal⟩
      · rwa [hdb] at hlength
      · exact (Nat.le_add_right _ _).trans (hturn i t ⟨s, hs, ht, hjournal⟩)
    refine (ih hle).step hstep ⟨hforward, fun i t hc e he v hv r hr => ?_⟩
    have hone := hturn i t hc
    have hnew : (t.log.filterMap insertedHistory?) ≠ [] := by
      obtain ⟨row, hrow⟩ := insertedHistory_isSome ((hc.timely hreach).executed e he) hv
      exact List.ne_nil_of_mem (List.mem_filterMap.mpr ⟨e, he, hrow⟩)
    have hold := List.length_pos_of_mem (List.mem_of_mem_filter hr)
    have hpos := List.length_pos_iff.mpr hnew
    omega

end History

/-! ## The time of the last update -/

section UpdatedAt

omit [Platform] in
/-- An order that is repaired is touched. -/
theorem Stmt.Repairs.touched [Platform] {e : Entry postgres} {id : String} (h : e.stmt.Repairs id) :
    touchedOrder? e = some id := by
  obtain ⟨q, d, rows, ws⟩ := e
  obtain ⟨status, seq, amount, currency, rfl⟩ := h
  rfl

/-- **What a reconciliation makes of the row of an order**: it leaves it alone, or stamps it with the
time at which it began. -/
inductive Restamped (log : Log) (id : String) (o : OrderRow) : OrderRow → Prop where
  | kept (hnone : ∀ e ∈ log, ¬ e.stmt.Repairs id) : Restamped log id o o
  | repaired {o' : OrderRow} {e : Entry postgres} (he : e ∈ log) (hrepairs : e.stmt.Repairs id)
      (hstamp : o'.updatedAt = e.draws.start) : Restamped log id o o'

variable {s s' : Store} {id : String} {o : OrderRow} {log : Log}

/-- A turn of a reconciliation leaves an order alone, or stamps it. -/
theorem Turn.restamped {p : ProviderOrder} {t t' : Tally} (hs : s.Keyed) (h : Turn p t log t' s s')
    (ho : s.order? id = some o) : ∃ o', s'.order? id = some o' ∧ Restamped log id o o' := by
  cases h with
  | @kept _ d₁ d₂ w₁ w₂ isNew row hopen hclass =>
    refine ⟨o, ?_, .kept (by simp [Stmt.Repairs])⟩
    rw [Store.order?_putOrder hs, hopen.id_eq]
    split
    next hid =>
      rw [hopen.eq_found (hid ▸ ho)]
    next => exact ho
  | @repaired _ d₁ d₂ d₃ d₄ w₁ w₂ w₃ w₄ isNew row amount hopen hclass hamount =>
    have hput : (row.reconciled p.status p.sequence (some amount) (some p.currency) d₃).id = p.id :=
      hopen.id_eq
    rw [Store.addHistory_order?, Store.order?_putOrder hs, hput]
    by_cases hid : id = p.id
    · subst hid
      rw [if_pos rfl]
      exact ⟨_, rfl, .repaired (e := ⟨.reconcileOrder p.id p.status p.sequence (some p.amount)
        (some p.currency), d₃, true, w₃⟩) (by simp) ⟨_, _, _, _, rfl⟩ rfl⟩
    · rw [if_neg hid]
      exact ⟨o, ho, .kept (by simp [Stmt.Repairs, Ne.symm hid])⟩

/-- The loop of a reconciliation leaves an order alone, or stamps it. -/
theorem Turns.restamped {orders : List ProviderOrder} {t t' : Tally} (h : Turns orders t log t' s s')
    (ho : s.order? id = some o) : ∃ o', s'.order? id = some o' ∧ Restamped log id o o' := by
  induction h generalizing o with
  | nil => exact ⟨o, ho, .kept (by simp)⟩
  | @cons p orders t₀ t₁ t₂ turn log s s₁ s₂ hs hturn htail ih =>
    obtain ⟨o₁, ho₁, h₁⟩ := hturn.restamped hs ho
    obtain ⟨o₂, ho₂, h₂⟩ := ih ho₁
    refine ⟨o₂, ho₂, ?_⟩
    cases h₂ with
    | kept hlog =>
      cases h₁ with
      | kept hturn => exact .kept fun e he => (List.mem_append.mp he).elim (hturn e) (hlog e)
      | repaired he hrepairs hstamp => exact .repaired (List.mem_append_left _ he) hrepairs hstamp
    | repaired he hrepairs hstamp => exact .repaired (List.mem_append_right _ he) hrepairs hstamp

/-- **What a change makes of the row of an order**: a worker stamps it with the time of its statement, a
reconciliation with the time at which it began. -/
theorem Change.restamped {c : Call} {x : Option Answer} (hs : s.Keyed) (h : Change cfg c log x s s')
    (ho : s.order? id = some o) : ∃ o', s'.order? id = some o' ∧ (Restamped log id o o' ∨
      (∃ input, c = .processOne input) ∧ (∀ e ∈ log, ¬ e.stmt.Repairs id) ∧
        ∃ e ∈ log, e.stmt.Applies id ∧ o'.updatedAt = e.draws.now) := by
  cases h with
  | @applied _ _ d d₁ d₂ d₃ d₄ d₅ w₁ w₂ w₃ w₄ w₅ isNew m₅ event order status amount hev hclaim hopen
      hmap hseq hamount =>
    have hput : (order.applied status event.sequence amount
      (event.payload.data.bind PaymentWebhookData.currency) d₃).id = event.orderId := hopen.id_eq
    rw [Store.putEvent_order?, Store.addHistory_order?, Store.order?_putOrder hs, hput]
    have hnone : ∀ e ∈ ([⟨.claim, d, some event, []⟩, ⟨.insertOrder event.orderId, d₁, isNew, w₁⟩,
        ⟨.selectOrder event.orderId, d₂, some order, w₂⟩,
        ⟨.applyToOrder event.orderId (.known status) event.sequence
          (event.payload.data.bind PaymentWebhookData.amount)
          (event.payload.data.bind PaymentWebhookData.currency), d₃, true, w₃⟩,
        ⟨.insertHistory (historyValues event order.status (.known status) .applied none), d₄, (), w₄⟩,
        ⟨.markApplied event.id, d₅, m₅, w₅⟩] : Log), ¬ e.stmt.Repairs id := by
      simp [Stmt.Repairs]
    by_cases hid : id = event.orderId
    · subst hid
      rw [if_pos rfl]
      exact ⟨_, rfl, .inr ⟨⟨_, rfl⟩, hnone, ⟨.applyToOrder event.orderId (.known status) event.sequence
        (event.payload.data.bind PaymentWebhookData.amount)
        (event.payload.data.bind PaymentWebhookData.currency), d₃, true, w₃⟩, by simp,
        ⟨_, _, _, _, rfl⟩, rfl⟩⟩
    · rw [if_neg hid]
      exact ⟨o, ho, .inl (.kept hnone)⟩
  | @ignored _ _ d d₁ d₂ d₄ d₅ w₁ w₂ w₄ w₅ isNew m₅ event order reason hev hclaim hopen hreason =>
    refine ⟨o, ?_, .inl (.kept (by simp [Stmt.Repairs]))⟩
    rw [Store.putEvent_order?, Store.addHistory_order?, Store.order?_putOrder hs, hopen.id_eq]
    split
    next hid => rw [hopen.eq_found (hid ▸ ho)]
    next => exact ho
  | @reconciled _ s₁ snapshot d₁ d₂ d₃ w₁ w₂ w₃ t loop details rows hrun hturns hdetails hrows =>
    obtain ⟨o', ho', hstamp⟩ := hturns.restamped ho
    refine ⟨o', ho', .inl ?_⟩
    have hrest : ∀ e ∈ details, ¬ e.stmt.Repairs id := by
      rintro e he hrepairs
      exact hdetails.untouched id e he hrepairs.touched
    cases hstamp with
    | kept hnone =>
      refine .kept fun e he => ?_
      simp only [List.mem_cons, List.mem_append, List.not_mem_nil, or_false] at he
      rcases he with rfl | rfl | (he | he) | rfl
      · simp [Stmt.Repairs]
      · simp [Stmt.Repairs]
      · exact hnone e he
      · exact hrest e he
      · simp [Stmt.Repairs]
    | repaired he hrepairs hstamp => exact .repaired (by simp [he]) hrepairs hstamp
  | _ => exact ⟨o, ho, .inl (.kept (by simp [Stmt.Repairs]))⟩

/-- **No repair out of turn**: a reconciliation that commits an update of an order began no earlier than
the committed row was updated. -/
def RepairsInTurn (w w' : State) : Prop :=
  ∀ i t, Commits w w' i t → ∀ e ∈ t.log, ∀ id, e.stmt.Repairs id →
    ∀ o, w.db.order? id = some o → o.updatedAt ≤ t.begun.start

/-- **`orders.updated_at` does not go back** from one world to the other. -/
def UpdatesForward (w w' : State) : Prop :=
  ∀ id o, w.db.order? id = some o → ∃ o', w'.db.order? id = some o' ∧ o.updatedAt ≤ o'.updatedAt

/-- **A step takes no `updated_at` back** exactly if it repairs no order out of turn. -/
theorem updatesForward_iff (h : ReachForward cfg .empty w) (hstep : Step (program cfg) w w') :
    UpdatesForward w w' ↔ RepairsInTurn w w' := by
  have hs : w.db.Keyed := (h.reach.coherent Store.keyed_empty).inv
  constructor
  · intro hforward i t hc e he id hrepairs o ho
    obtain ⟨-, -, s, x, -, -, hchange⟩ := hc.redoes h.reach hstep
    have htimely := hc.timely h
    obtain ⟨o₁, ho₁, hle⟩ := hforward id o ho
    obtain ⟨o', ho', hstamp | ⟨-, hnone, -⟩⟩ := hchange.restamped hs ho
    · obtain rfl : o₁ = o' := Option.some.inj (ho₁.symm.trans ho')
      cases hstamp with
      | kept hnone => exact absurd hrepairs (hnone e he)
      | @repaired _ e' he' hrepairs' hstamp => rwa [hstamp, htimely.start e' he'] at hle
    · exact absurd hrepairs (hnone e he)
  · intro hturn id o ho
    rcases h.reach.step_change Store.keyed_empty hstep with
      ⟨hdb, -⟩ | ⟨i, s, t, x, hsession, htx, hchange, hjournal⟩
    · exact ⟨o, hdb ▸ ho, le_rfl⟩
    · have hc : Commits w w' i t := ⟨s, hsession, htx, hjournal⟩
      have htimely := hc.timely h
      obtain ⟨o', ho', hstamp | ⟨-, -, e, he, happlies, hstamp⟩⟩ := hchange.restamped hs ho
      · refine ⟨o', ho', ?_⟩
        cases hstamp with
        | kept => exact le_rfl
        | @repaired _ e he hrepairs hstamp =>
          rw [hstamp, htimely.start e he]
          exact hturn i t hc e he id hrepairs o ho
      · refine ⟨o', ho', ?_⟩
        rw [hstamp]
        exact htimely.applies e he id happlies o ho

/-- **`orders.updated_at` goes back** in no run whose steps repair no order out of turn, and in every
step that does.

**Proof sketch.** A worker stamps a row that it has locked with the time of its statement, which is not
before the row was updated (`clockWork`).  A reconciliation stamps it with the time at which it
began, about which only the condition says anything. -/
theorem updated_at_monotone_iff (h : ReachForward cfg .empty w) :
    (∀ w', Along (fun a b => Forward a b ∧ RepairsInTurn a b) (program cfg) w w' →
      UpdatesForward w w') ∧
    ∀ w', Step (program cfg) w w' → Forward w w' → (UpdatesForward w w' ↔ RepairsInTurn w w') := by
  refine ⟨fun w' hrun => ?_, fun w' hstep _ => updatesForward_iff h hstep⟩
  suffices ReachForward cfg .empty w' ∧ UpdatesForward w w' from this.2
  induction hrun with
  | refl => exact ⟨h, fun id o ho => ⟨o, ho, le_rfl⟩⟩
  | @step w₁ w₂ hrun hstep hC ih =>
    obtain ⟨h₁, hforward⟩ := ih
    obtain ⟨env₀, hfrom⟩ := h₁
    refine ⟨⟨env₀, hfrom.step hstep hC.1⟩, fun id o ho => ?_⟩
    obtain ⟨o₁, ho₁, hle₁⟩ := hforward id o ho
    obtain ⟨o₂, ho₂, hle₂⟩ := (updatesForward_iff ⟨env₀, hfrom⟩ hstep).mpr hC.2 id o₁ ho₁
    exact ⟨o₂, ho₂, hle₁.trans hle₂⟩

omit [Platform] in
/-- In the sample, no run without repairs out of turn takes back the time at which the order was
updated. -/
theorem updated_at_sample : letI := samplePlatform
    ∃ (w : State) (o : OrderRow), ReachForward .default .empty w ∧ w.db.order? "ord_1" = some o ∧
      (∀ w', Along (fun a b => Forward a b ∧ RepairsInTurn a b) (program .default) w w' →
        UpdatesForward w w') ∧
      ∀ w', Step (program .default) w w' → Forward w w' → (UpdatesForward w w' ↔ RepairsInTurn w w') := by
  let _ := samplePlatform
  obtain ⟨w, i, b, o, r, h⟩ := exists_overtaken .default (.processOne ⟨0, 0⟩)
  exact ⟨w, o, h.rest.run, h.order, updated_at_monotone_iff h.rest.run⟩

omit [Platform] in
/-- **`orders.updated_at` can go back.**  A reconciliation begins, a worker that begins later applies the
authorization, and then the reconciliation repairs the order. -/
theorem updated_at_goes_back : letI := samplePlatform
    ∃ (w w' : State) (o o' : OrderRow), ReachForward .default .empty w ∧
      Along Forward (program .default) w w' ∧ w.db.order? "ord_1" = some o ∧
      w'.db.order? "ord_1" = some o' ∧ o'.updatedAt < o.updatedAt := by
  let _ := samplePlatform
  obtain ⟨w, i, b, o, r, h⟩ := exists_overtaken .default (.reconcile sampleOrders)
  obtain ⟨w', log, answer, s, hfollows, -, -, -, hchange, hstart⟩ :=
    h.rest.reconcile h.begun sampleOrders_storable
  obtain ⟨o', ho', hstamp | ⟨⟨input, hcall⟩, -⟩⟩ := hchange.restamped h.rest.keyed h.order
  · refine ⟨w, w', o, o', h.rest.run, hfollows.run, h.order, ho', ?_⟩
    cases hstamp with
    | kept =>
      -- the entry is newer than the row, which is not reconciled
      obtain ⟨⟨row, hrow, hclass⟩, -⟩ := hchange.reconciles (List.mem_singleton.mpr rfl)
      obtain rfl : o = row := Option.some.inj (ho'.symm.trans hrow)
      have hle := sequence_le_of_classify hclass
      rw [h.lastSequence] at hle
      exact absurd hle (by decide)
    | @repaired _ e he hrepairs hstamp =>
      rw [hstamp, hstart e he, h.start, h.updatedAt]
      decide
  · cases hcall

end UpdatedAt

end PaymentWebhook
