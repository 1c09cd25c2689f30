import Mathlib.Data.List.Chain
import PaymentWebhook.Consumption
import PaymentWebhook.Projection
import PaymentWebhook.Transactions.Stamps

set_option relaxedAutoImplicit false
set_option autoImplicit false

/-!
# The audit trail of an order

The history rows of an order, by increasing id, tell how its status came about: each starts where
the one before has ended, the last one ends in the status of the order, and the sequences of the
rows that took effect only grow.

## Main definitions

* `PaymentWebhook.Store.trail` — the history rows of an order.
* `PaymentWebhook.Audited` — a trail accounts for the status and the sequence of an order.
* `PaymentWebhook.historyStamping` — ids of history rows are drawn under the lock of the order.

## Main results

* `PaymentWebhook.Change.audited` — every change keeps the trails.
* `PaymentWebhook.Reach.trail_ascending` — the order of insertion is the order of the ids.
* `PaymentWebhook.audit_trail_is_a_chain` — the audit trail of every order is a chain.
-/

namespace PaymentWebhook

open Transactions

/-! ## Trails -/

/-- The history rows of an order. -/
def Store.trail (s : Store) (id : String) : List HistoryRow := s.history.filter (·.orderId = id)

/-- The row took effect on the order. -/
def HistoryRow.effective (h : HistoryRow) : Bool := h.outcome ≠ .ignored

/-- The sequences of the rows of a trail that took effect. -/
def effects (trail : List HistoryRow) : Set ℤ :=
  {n | ∃ h ∈ trail, h.effective = true ∧ h.sequence = n}

/-- **A trail accounts for an order** that started with the defaults. -/
structure Audited (status : OrderStatus) (lastSequence : ℤ) (trail : List HistoryRow) : Prop where
  first : ∀ h ∈ trail.head?, h.previousStatus = some .pending ∨ h.previousStatus = none
  chain : trail.IsChain fun a b => b.previousStatus = some a.newStatus
  ignored : ∀ h ∈ trail, h.outcome = .ignored → h.previousStatus = some h.newStatus
  status : (trail.getLast?.map HistoryRow.newStatus).getD .pending = status
  none_effective : effects trail = ∅ → lastSequence = 0
  greatest : (effects trail).Nonempty → IsGreatest (effects trail) lastSequence
  nonneg : 0 ≤ lastSequence
  ascending : trail.Pairwise fun a b => a.effective = true →
    (b.outcome = .applied → a.sequence < b.sequence) ∧
    (b.outcome = .reconciled → a.sequence ≤ b.sequence)

section Trails

variable {s : Store} {status : OrderStatus} {lastSequence : ℤ} {trail : List HistoryRow}
  {h : HistoryRow}

@[simp] theorem trail_addHistory (h : HistoryRow) (id : String) :
    (s.addHistory h).trail id = s.trail id ++ if h.orderId = id then [h] else [] := by
  rw [Store.trail, Store.trail, Store.addHistory_history, List.filter_append]
  by_cases hid : h.orderId = id <;> simp [hid]

@[simp] theorem trail_putOrder (o : OrderRow) (id : String) :
    (s.putOrder o).trail id = s.trail id := rfl

@[simp] theorem trail_putEvent (e : EventRow) (id : String) :
    (s.putEvent e).trail id = s.trail id := rfl

/-- A new order has the empty trail. -/
theorem Audited.nil : Audited .pending 0 [] where
  first := by simp
  chain := List.isChain_nil
  ignored := by simp
  status := rfl
  none_effective := fun _ => rfl
  greatest := by simp [effects]
  nonneg := le_refl 0
  ascending := List.Pairwise.nil

/-- Rows that took effect have sequences up to the last one. -/
theorem Audited.sequence_le (ha : Audited status lastSequence trail) {a : HistoryRow}
    (hmem : a ∈ trail) (heff : a.effective = true) : a.sequence ≤ lastSequence :=
  (ha.greatest ⟨_, a, hmem, heff, rfl⟩).2 ⟨a, hmem, heff, rfl⟩

theorem effects_append (trail : List HistoryRow) (h : HistoryRow) :
    effects (trail ++ [h]) = if h.effective = true then insert h.sequence (effects trail)
      else effects trail := by
  ext n
  by_cases heff : h.effective = true
  · rw [if_pos heff]
    simp only [effects, List.mem_append, List.mem_singleton, Set.mem_insert_iff,
      Set.mem_ofPred_eq, or_and_right, exists_or, exists_eq_left, heff, true_and]
    rw [or_comm, eq_comm]
  · simp [effects, heff, or_and_right, exists_or]

/-- The links of a trail that a row is added to. -/
theorem Audited.link (ha : Audited status lastSequence trail)
    (hprev : h.previousStatus = some status ∨ (trail = [] ∧ h.previousStatus = none)) :
    (∀ x ∈ (trail ++ [h]).head?, x.previousStatus = some .pending ∨ x.previousStatus = none) ∧
      (trail ++ [h]).IsChain fun a b => b.previousStatus = some a.newStatus := by
  rcases List.eq_nil_or_concat trail with rfl | ⟨init, last, rfl⟩
  · have hstatus : OrderStatus.pending = status := by simpa using ha.status
    subst hstatus
    refine ⟨?_, by simp⟩
    intro x hx
    obtain rfl : h = x := by simpa using hx
    exact hprev.imp_right And.right
  · have hstatus : last.newStatus = status := by simpa using ha.status
    refine ⟨fun x hx => ha.first x ?_, List.isChain_append.mpr ⟨ha.chain, by simp, ?_⟩⟩
    · cases init <;> simpa using hx
    · intro a hmem b hb
      obtain rfl : last = a := by simpa using hmem
      obtain rfl : h = b := by simpa using hb
      rw [hstatus]
      exact hprev.resolve_right fun hnil => by simp at hnil

/-- **A row that changes nothing** keeps the trail. -/
theorem Audited.ignore (ha : Audited status lastSequence trail) (hout : h.outcome = .ignored)
    (hprev : h.previousStatus = some status) (hnew : h.newStatus = status) :
    Audited status lastSequence (trail ++ [h]) := by
  obtain ⟨hfirst, hchain⟩ := ha.link (.inl hprev)
  have heff : h.effective = false := by simp [HistoryRow.effective, hout]
  have hsame : effects (trail ++ [h]) = effects trail := by rw [effects_append, heff]; rfl
  refine ⟨hfirst, hchain, fun x hx hxout => ?_, by simp [hnew], hsame ▸ ha.none_effective,
    hsame ▸ ha.greatest, ha.nonneg, ?_⟩
  · rcases List.mem_append.mp hx with hx | hx
    · exact ha.ignored x hx hxout
    · rw [List.mem_singleton.mp hx, hprev, hnew]
  · refine List.pairwise_append.mpr ⟨ha.ascending, by simp, fun a _ b hb _ => ?_⟩
    rw [List.mem_singleton.mp hb, hout]
    exact ⟨by simp, by simp⟩

/-- **A row that takes effect** moves the order, and its sequence becomes the last one. -/
theorem Audited.effect (ha : Audited status lastSequence trail) (hout : h.outcome ≠ .ignored)
    (hprev : h.previousStatus = some status ∨ (trail = [] ∧ h.previousStatus = none))
    (hle : lastSequence ≤ h.sequence) (hlt : h.outcome = .applied → lastSequence < h.sequence) :
    Audited h.newStatus h.sequence (trail ++ [h]) := by
  obtain ⟨hfirst, hchain⟩ := ha.link hprev
  have heff : h.effective = true := by simp [HistoryRow.effective, hout]
  have hins : effects (trail ++ [h]) = insert h.sequence (effects trail) := by
    rw [effects_append, if_pos heff]
  refine ⟨hfirst, hchain, fun x hx hxout => ?_, by simp, fun hempty => ?_, fun _ => ?_,
    ha.nonneg.trans hle, ?_⟩
  · rcases List.mem_append.mp hx with hx | hx
    · exact ha.ignored x hx hxout
    · rw [List.mem_singleton.mp hx] at hxout
      exact absurd hxout hout
  · rw [hins] at hempty
    exact absurd hempty (Set.insert_nonempty _ _).ne_empty
  · rw [hins]
    refine ⟨Set.mem_insert _ _, fun n hn => ?_⟩
    rcases Set.mem_insert_iff.mp hn with rfl | ⟨a, hmem, haeff, rfl⟩
    · exact le_refl _
    · exact (ha.sequence_le hmem haeff).trans hle
  · refine List.pairwise_append.mpr ⟨ha.ascending, by simp, fun a hmem b hb haeff => ?_⟩
    rw [List.mem_singleton.mp hb]
    have hseq := ha.sequence_le hmem haeff
    exact ⟨fun hb => hseq.trans_lt (hlt hb), fun _ => hseq.trans hle⟩

end Trails

/-! ## Keeping the trails -/

/-- The trail of an order accounts for its row; an order that does not exist has none. -/
structure TrailOf (trail : List HistoryRow) (row : Option OrderRow) : Prop where
  absent : row = none → trail = []
  present : ∀ r, row = some r → trail ≠ [] ∧ Audited r.status r.lastSequence trail

section Changes

variable {s s' : Store}

/-- The trail of the order that a transaction has locked accounts for it. -/
theorem TrailOf.opened {id : String} {d : Draws} {isNew : Bool} {order : OrderRow}
    (h : TrailOf (s.trail id) (s.order? id)) (hopen : OpenedOrder s id d isNew order) :
    Audited order.status order.lastSequence (s.trail id) ∧ (isNew = true ↔ s.trail id = []) := by
  cases hopen with
  | fresh hno =>
    have hnil := h.absent hno
    rw [hnil]
    exact ⟨Audited.nil, by simp⟩
  | found ho =>
    obtain ⟨hne, ha⟩ := h.present order ho
    exact ⟨ha, by simp [hne]⟩

theorem TrailOf.of_audited {trail : List HistoryRow} {r : OrderRow} (hne : trail ≠ [])
    (h : Audited r.status r.lastSequence trail) : TrailOf trail (some r) :=
  ⟨by simp, fun r' hr' => Option.some.inj hr' ▸ ⟨hne, h⟩⟩

/-- Writing an order and its history row concerns no other order. -/
theorem TrailOf.write (hs : s.Keyed) (h : ∀ id, TrailOf (s.trail id) (s.order? id)) {r : OrderRow}
    {row : HistoryRow} (hid : row.orderId = r.id)
    (ha : Audited r.status r.lastSequence (s.trail r.id ++ [row])) :
    ∀ id, TrailOf (((s.putOrder r).addHistory row).trail id)
      (((s.putOrder r).addHistory row).order? id) := by
  intro id
  rw [trail_addHistory, trail_putOrder, Store.addHistory_order?, Store.order?_putOrder hs, hid]
  by_cases hr : id = r.id
  · rw [if_pos hr, if_pos hr.symm, hr]
    exact .of_audited (by simp) ha
  · rw [if_neg hr, if_neg (Ne.symm hr), List.append_nil]
    exact h id

/-- A new order differs from every entry of a valid snapshot: it has no currency. -/
theorem classify_default {o : ProviderOrder} (ho : o.Valid) (d : Draws) :
    classify o (defaultOrder o.id d) = .repaired := by
  rcases classify_cases o (defaultOrder o.id d) with ⟨hlt, -⟩ | ⟨hm, -⟩ | ⟨-, -, h⟩
  · exact absurd hlt (not_lt.mpr ho.sequence_nonneg)
  · simp [OrderRow.matches, defaultOrder] at hm
  · exact h

variable [Platform]

/-- **A turn of a reconciliation keeps the trails.** -/
theorem Turn.audited {o : ProviderOrder} {t t' : Tally} {log : Log} (ho : o.Valid) (hs : s.Keyed)
    (hturn : Turn o t log t' s s') (h : ∀ id, TrailOf (s.trail id) (s.order? id)) :
    ∀ id, TrailOf (s'.trail id) (s'.order? id) := by
  cases hturn with
  | @kept _ d₁ _ _ _ isNew row hopen hclass =>
    cases hopen with
    | fresh hno => exact absurd (classify_default ho d₁) hclass
    | found hfound =>
      have hself : s.putOrder row = s := Store.putOrder_self hs (by
        rw [(Store.mem_of_order? hfound).2]
        exact hfound)
      rw [hself]
      exact h
  | @repaired _ d₁ _ d₃ d₄ _ _ _ _ isNew row amount hopen hclass hamount =>
    obtain ⟨ha, hnew⟩ := (h o.id).opened hopen
    have hid : (row.reconciled o.status o.sequence (some amount) (some o.currency) d₃).id = o.id :=
      hopen.id_eq
    refine TrailOf.write hs h hid.symm ?_
    rw [hid]
    refine ha.effect (h := repairHistory o (if isNew then none else some row.status) d₄)
      (by simp [repairHistory]) ?_ ?_ (by simp [repairHistory])
    · cases isNew with
      | true => exact .inr ⟨hnew.mp rfl, rfl⟩
      | false => exact .inl rfl
    · rcases classify_cases o row with ⟨-, hst⟩ | ⟨-, -, -, hok⟩ | ⟨hle, -, -⟩
      · rw [hst] at hclass
        cases hclass
      · rw [hok] at hclass
        cases hclass
      · exact hle

/-- The loop of a reconciliation keeps the trails. -/
theorem Turns.audited {orders : List ProviderOrder} {t t' : Tally} {log : Log}
    (hturns : Turns orders t log t' s s') (hvalid : ∀ o ∈ orders, o.Valid)
    (h : ∀ id, TrailOf (s.trail id) (s.order? id)) :
    ∀ id, TrailOf (s'.trail id) (s'.order? id) := by
  induction hturns with
  | nil => exact h
  | cons hs hturn htail ih =>
    exact ih (fun o ho => hvalid o (by simp [ho])) (hturn.audited (hvalid _ (by simp)) hs h)

/-- **Every change keeps the trails.** -/
theorem Change.audited {cfg : WorkerConfig} {c : Call} {log : Log} {x : Option Answer}
    (hs : s.Keyed) (h : ∀ id, TrailOf (s.trail id) (s.order? id)) (hc : Change cfg c log x s s') :
    ∀ id, TrailOf (s'.trail id) (s'.order? id) := by
  cases hc with
  | @applied _ _ d d₁ _ d₃ d₄ d₅ _ _ _ _ _ isNew _ event order status amount hev hclaim hopen hmap
      hseq =>
    obtain ⟨ha, -⟩ := (h event.orderId).opened hopen
    have hid : (order.applied status event.sequence amount
      (event.payload.data.bind PaymentWebhookData.currency) d₃).id = event.orderId := hopen.id_eq
    refine TrailOf.write hs h hid.symm ?_
    rw [hid]
    exact ha.effect (h := eventHistory event order.status status .applied none d₄)
      (by simp [eventHistory]) (.inl rfl) hseq.le fun _ => hseq
  | @ignored _ _ d d₁ _ d₄ d₅ _ _ _ _ isNew _ event order reason hev hclaim hopen hreason =>
    obtain ⟨ha, -⟩ := (h event.orderId).opened hopen
    refine TrailOf.write hs h hopen.id_eq.symm ?_
    rw [hopen.id_eq]
    exact ha.ignore (h := eventHistory event order.status order.status .ignored (some reason) d₄)
      rfl rfl rfl
  | @reconciled _ s₁ snapshot d₁ d₂ d₃ _ _ _ t loop details rows hrun hturns hdetails hrows =>
    exact hturns.audited snapshot.valid h
  | _ => exact h

/-- In every reachable state the trails account for the orders. -/
theorem Reach.audited {cfg : WorkerConfig} {w : State} (h : Reach cfg .empty w) (id : String) :
    TrailOf (w.db.trail id) (w.db.order? id) := by
  refine h.changes_induction (P := fun _ s => ∀ id, TrailOf (Store.trail s id) (s.order? id))
    Store.keyed_empty (fun id => ⟨fun _ => rfl, ?_⟩) (fun _ _ _ _ _ _ _ _ hs hP hc =>
      hc.audited hs hP) id
  simp [Store.order?, Store.empty]

end Changes

/-! ## Ids are drawn under the lock of the order -/

section Ids

variable [Platform]

/-- What an insertion of history has inserted. -/
theorem exec_insertHistory {s : Store} {v : HistoryValues} {d : Draws} {skip : Key → Bool}
    {w : List Write} (h : exec (.insertHistory v) d skip s = .ok ((), w)) :
    ∃ st, v.newStatus = .known st ∧ w = [.insert (.history (v.row st d))] := by
  simp only [exec] at h
  split at h
  · rename_i st hst
    obtain ⟨-, -, rfl⟩ := insertRow_ok.mp h
    exact ⟨st, hst, rfl⟩
  · cases h

/-- **The ids of history rows**, drawn while the row of the order is locked. -/
def historyStamping : Stamping postgres where
  next := Env.nextHistoryId
  stamp? := fun e => (insertedHistory? e).map fun h => (.order h.orderId, h.id)
  fresh := by
    intro env env' begun d q skip s rows ws k n hdraw hx hstamp
    replace hx : exec q d skip s = .ok (rows, ws) := hx
    obtain ⟨row, hrow, heq⟩ := Option.map_eq_some_iff.mp hstamp
    cases q with
    | insertHistory v =>
      obtain ⟨st, hst, rfl⟩ := exec_insertHistory hx
      obtain rfl : v.row st d = row := by simpa [insertedHistory?] using hrow
      obtain ⟨rfl, rfl⟩ := Prod.mk.inj heq
      exact ⟨hdraw.historyId.1, hdraw.historyId.2, by simp [Stmt.locks, HistoryValues.row]⟩
    | _ => simp [insertedHistory?] at hrow
  next_draw := fun hdraw => (hdraw.historyId.1.trans_lt hdraw.historyId.2).le
  next_pass := fun h => by rw [h]

/-- The history is what the journal has inserted. -/
theorem Reach.history_eq {cfg : WorkerConfig} {w : State} (h : Reach cfg .empty w) :
    Store.history w.db = w.logs.flatten.filterMap insertedHistory? := by
  obtain ⟨env₀, h⟩ := h
  obtain ⟨hredo, hdb⟩ := h.history (L := locality) Store.keyed_empty
  rw [hdb, history_install hredo]
  rfl

/-- **The order of insertion is the order of the ids**, within an order. -/
theorem Reach.trail_ascending {cfg : WorkerConfig} {w : State} (h : Reach cfg .empty w)
    (id : String) : (w.db.trail id).Pairwise fun a b => a.id < b.id := by
  have hstamps : Stamping.Ascending (historyStamping.stamps w.logs.flatten) := by
    obtain ⟨env₀, h⟩ := h
    exact h.ascending (L := locality) historyStamping Store.keyed_empty
  have hmap : historyStamping.stamps w.logs.flatten =
      (Store.history w.db).map fun h => (Key.order h.orderId, h.id) := by
    rw [h.history_eq, List.map_filterMap]
    rfl
  rw [hmap, Stamping.Ascending, List.pairwise_map] at hstamps
  refine List.Pairwise.imp_of_mem (fun {a b} ha hb hab => ?_) (hstamps.filter _)
  have hida : a.orderId = id := by simpa using (List.mem_filter.mp ha).2
  have hidb : b.orderId = id := by simpa using (List.mem_filter.mp hb).2
  exact hab (by rw [hida, hidb])

end Ids

/-! ## Who writes a row without previous status -/

section Writers

variable [Platform] {log : Log} {row : HistoryRow}

/-- The order that an `INSERT … ON CONFLICT DO NOTHING` has created. -/
def createdOrder? : Entry postgres → Option String
  | ⟨.insertOrder id, _, true, _⟩ => some id
  | _ => none

/-- The log has inserted the history row. -/
def WroteHistory (log : Log) (row : HistoryRow) : Prop := ∃ e ∈ log, insertedHistory? e = some row

/-- The log has created the order. -/
def CreatedOrder (log : Log) (id : String) : Prop := ∃ e ∈ log, createdOrder? e = some id

/-- Every statement of the log has been executed. -/
def Executed (log : Log) : Prop := ∀ e ∈ log, e.Executed

theorem wroteHistory_append {log' : Log} :
    WroteHistory (log ++ log') row ↔ WroteHistory log row ∨ WroteHistory log' row := by
  simp only [WroteHistory, List.mem_append, or_and_right, exists_or]

theorem createdOrder_append {log' : Log} {id : String} :
    CreatedOrder (log ++ log') id ↔ CreatedOrder log id ∨ CreatedOrder log' id := by
  simp only [CreatedOrder, List.mem_append, or_and_right, exists_or]

/-- The row that an executed insertion of history has inserted. -/
theorem row_of_insertHistory {v : HistoryValues} {d : Draws} {w : List Write}
    (hv : Entry.Executed (E := postgres) ⟨.insertHistory v, d, (), w⟩)
    (h : insertedHistory? ⟨.insertHistory v, d, (), w⟩ = some row) :
    row.orderId = v.orderId ∧ row.previousStatus = v.previousStatus := by
  obtain ⟨skip, s, hx⟩ := hv
  replace hx : exec (.insertHistory v) d skip s = .ok ((), w) := hx
  obtain ⟨st, -, rfl⟩ := exec_insertHistory hx
  obtain rfl : v.row st d = row := by simpa [insertedHistory?] using h
  exact ⟨rfl, rfl⟩

/-- A turn creates no other order, and its history row has no previous status exactly if the turn
has created the order. -/
theorem TurnLog.writes {o : ProviderOrder} {t t' : Tally} (h : TurnLog o t log t')
    (hx : Executed log) :
    (∀ id, CreatedOrder log id → id = o.id) ∧
    ∀ row, WroteHistory log row → row.orderId = o.id ∧
      (row.previousStatus = none ↔ CreatedOrder log o.id) := by
  have hopen : ∀ {isNew : Bool} {d : Draws} {w : List Write} {id : String} {rest : Log},
      (∀ e ∈ rest, createdOrder? e = none) →
      (CreatedOrder (⟨.insertOrder o.id, d, isNew, w⟩ :: rest) id ↔ isNew = true ∧ id = o.id) := by
    intro isNew d w id rest hrest
    have hnone : ¬ ∃ e ∈ rest, createdOrder? e = some id := by
      rintro ⟨e, he, hc⟩
      rw [hrest e he] at hc
      cases hc
    simp only [CreatedOrder, List.exists_mem_cons_iff, or_iff_left hnone]
    cases isNew <;> simp [createdOrder?, eq_comm]
  cases h with
  | kept hclass =>
    refine ⟨fun id hc => ((hopen (by simp [createdOrder?])).mp hc).2, fun row hw => ?_⟩
    simp [WroteHistory, insertedHistory?] at hw
  | @repaired d₁ d₂ d₃ d₄ w₁ w₂ w₃ w₄ isNew m₃ order hclass =>
    refine ⟨fun id hc => ((hopen (by simp [createdOrder?])).mp hc).2, fun row hw => ?_⟩
    obtain ⟨e, he, hrow⟩ := hw
    have hs := hx e he
    simp only [List.mem_cons, List.not_mem_nil, or_false] at he
    rcases he with rfl | rfl | rfl | rfl
    · simp [insertedHistory?] at hrow
    · simp [insertedHistory?] at hrow
    · simp [insertedHistory?] at hrow
    · obtain ⟨hid, hprev⟩ := row_of_insertHistory hs hrow
      refine ⟨hid, ?_⟩
      rw [hopen (by simp [createdOrder?]), hprev]
      cases isNew <;> simp [repairValues]

/-- The loop over a snapshot whose ids are distinct: a history row has no previous status exactly
if the loop has created its order. -/
theorem LoopLog.writes {orders : List ProviderOrder} {t t' : Tally} (h : LoopLog orders t log t')
    (hd : (orders.map ProviderOrder.id).Nodup) (hx : Executed log) :
    (∀ id, CreatedOrder log id → id ∈ orders.map ProviderOrder.id) ∧
    ∀ row, WroteHistory log row → row.orderId ∈ orders.map ProviderOrder.id ∧
      (row.previousStatus = none ↔ CreatedOrder log row.orderId) := by
  induction h with
  | nil => simp [CreatedOrder, WroteHistory]
  | @cons o orders t t' t'' turn log hturn htail ih =>
    obtain ⟨hnot, hd⟩ := List.nodup_cons.mp hd
    obtain ⟨hturn1, hturn2⟩ := hturn.writes fun e he => hx e (List.mem_append.mpr (.inl he))
    obtain ⟨ih1, ih2⟩ := ih hd fun e he => hx e (List.mem_append.mpr (.inr he))
    refine ⟨fun id hc => ?_, fun row hw => ?_⟩
    · rcases createdOrder_append.mp hc with hc | hc
      · exact List.mem_cons.mpr (.inl (hturn1 id hc))
      · exact List.mem_cons.mpr (.inr (ih1 id hc))
    · rw [createdOrder_append]
      rcases wroteHistory_append.mp hw with hw | hw
      · obtain ⟨hid, hiff⟩ := hturn2 row hw
        rw [hid]
        refine ⟨List.mem_cons.mpr (.inl rfl), hiff.trans (or_iff_left fun hc => ?_).symm⟩
        exact hnot (ih1 _ hc)
      · obtain ⟨hid, hiff⟩ := ih2 row hw
        refine ⟨List.mem_cons.mpr (.inr hid), hiff.trans (or_iff_right fun hc => ?_).symm⟩
        exact hnot (hturn1 _ hc ▸ hid)

/-- The statements that write the details neither write history nor create orders. -/
theorem DetailsLog.writes {runId : ℕ} {details : List ReconciliationDetail}
    (h : DetailsLog runId details log) :
    (∀ id, ¬ CreatedOrder log id) ∧ ∀ row, ¬ WroteHistory log row := by
  induction h with
  | nil => simp [CreatedOrder, WroteHistory]
  | cons htail ih =>
    refine ⟨fun id hc => ?_, fun row hw => ?_⟩
    · obtain ⟨e, he, hc⟩ := hc
      rcases List.mem_cons.mp he with rfl | he
      · simp [createdOrder?] at hc
      · exact ih.1 id ⟨e, he, hc⟩
    · obtain ⟨e, he, hw⟩ := hw
      rcases List.mem_cons.mp he with rfl | he
      · simp [insertedHistory?] at hw
      · exact ih.2 row ⟨e, he, hw⟩

/-- A history row of a reconciliation has no previous status exactly if the reconciliation has
created the order. -/
theorem ReconciliationLog.writes {snapshot : ValidSnapshot} {x : Option ReconciliationRunResult}
    (h : ReconciliationLog snapshot.orders log x) (hx : Executed log) (hw : WroteHistory log row) :
    row.previousStatus = none ↔ CreatedOrder log row.orderId := by
  obtain @⟨d₁, d₂, d₃, w₁, w₂, w₃, run, finished, t, loop, details, hloop, hdetails⟩ := h
  have hstart : ∀ log' : Log, (⟨.advisoryLock, d₁, (), w₁⟩ : Entry postgres) ::
      ⟨.insertRun, d₂, run, w₂⟩ :: log' =
      [⟨.advisoryLock, d₁, (), w₁⟩, ⟨.insertRun, d₂, run, w₂⟩] ++ log' := fun _ => rfl
  rw [hstart] at hw hx ⊢
  obtain ⟨hd1, hd2⟩ := hdetails.writes
  have hwl : WroteHistory loop row := by
    simp only [wroteHistory_append] at hw
    rcases hw with hw | (hw | hw) | hw
    · simp [WroteHistory, insertedHistory?] at hw
    · exact hw
    · exact absurd hw (hd2 row)
    · simp [WroteHistory, insertedHistory?] at hw
  have hfirst : ¬ CreatedOrder [⟨.advisoryLock, d₁, (), w₁⟩, ⟨.insertRun, d₂, run, w₂⟩]
      row.orderId := by simp [CreatedOrder, createdOrder?]
  have hlast : ¬ CreatedOrder [⟨.completeRun run.id snapshot.orders.length
      (t.repaired + t.staleProviderSnapshots) t.repaired, d₃, finished, w₃⟩] row.orderId := by
    simp [CreatedOrder, createdOrder?]
  simp only [createdOrder_append, hfirst, hd1, hlast, false_or, or_false]
  exact ((hloop.writes snapshot.distinct fun e he => hx e (by simp [he])).2 row hwl).2

/-- **A history row has no previous status exactly if it was written by the reconciliation that has
created the order.** -/
theorem CommitLog.writes {cfg : WorkerConfig} {c : Call} {x : Option Answer}
    (h : CommitLog cfg c log x) (hx : Executed log) (hw : WroteHistory log row) :
    row.previousStatus = none ↔
      (∃ snapshot, c = .reconcile snapshot) ∧ CreatedOrder log row.orderId := by
  have hno : (∀ e ∈ log, ∀ v, e.stmt = Stmt.insertHistory v → v.previousStatus.isSome) →
      row.previousStatus ≠ none := by
    intro hall hnone
    obtain ⟨⟨q, d, rows, w⟩, he, hrow⟩ := hw
    have hs := hx _ he
    cases q with
    | insertHistory v =>
      have hsome := hall _ he v rfl
      rw [← (row_of_insertHistory hs hrow).2, hnone] at hsome
      cases hsome
    | _ => simp [insertedHistory?] at hrow
  cases h with
  | reconcile h =>
    rw [h.writes hx hw]
    exact ⟨fun hc => ⟨⟨_, rfl⟩, hc⟩, And.right⟩
  | ingest h =>
    obtain ⟨⟩ := h
    simp [WroteHistory, insertedHistory?] at hw
  | replay h => cases h <;> simp [WroteHistory, insertedHistory?] at hw
  | processOne h =>
    refine ⟨fun hnone => absurd hnone (hno ?_), fun hc => ?_⟩
    · cases h with
      | done hb => cases hb <;> simp [historyValues]
      | _ => simp
    · obtain ⟨⟨snapshot, hcall⟩, -⟩ := hc
      cases hcall

end Writers

/-! ## Every reachable state -/

section Reachable

variable [Platform] {cfg : WorkerConfig} {w : State}

/-- The statements of the journal have been executed. -/
theorem Reach.executed (h : Reach cfg .empty w) {i : ℕ} {log : Log} (hmem : (i, log) ∈ w.journal) :
    Executed log := by
  obtain ⟨env₀, h⟩ := h
  have hlog : log ∈ w.logs := List.mem_map.mpr ⟨_, hmem, rfl⟩
  exact fun e he => h.executed (L := locality) Store.keyed_empty e
    (List.mem_flatten.mpr ⟨log, hlog, he⟩)

/-- Every history row was written by a committed transaction. -/
theorem Reach.writer (h : Reach cfg .empty w) {row : HistoryRow} (hrow : row ∈ w.db.history) :
    ∃ i log, (i, log) ∈ w.journal ∧ WroteHistory log row := by
  rw [h.history_eq] at hrow
  obtain ⟨e, he, hw⟩ := List.mem_filterMap.mp hrow
  obtain ⟨log, hlog, he⟩ := List.mem_flatten.mp he
  obtain ⟨⟨i, log⟩, hmem, rfl⟩ := List.mem_map.mp hlog
  exact ⟨i, log, hmem, e, he, hw⟩

/-- **The audit trail is a chain.** -/
theorem audit_trail_is_a_chain (h : Reach cfg .empty w) : ∀ r ∈ w.db.orders,
    (w.db.trail r.id).Pairwise (fun a b => a.id < b.id) ∧
    ∃ h₁ hs, w.db.trail r.id = h₁ :: hs ∧
      (h₁.previousStatus = some .pending ∨ h₁.previousStatus = none) ∧
      (∃ i s log, (i, log) ∈ w.journal ∧ w.sessions i = some s ∧ WroteHistory log h₁) ∧
      (∀ i s log, (i, log) ∈ w.journal → w.sessions i = some s → WroteHistory log h₁ →
        (h₁.previousStatus = none ↔
          (∃ snapshot, s.call = .reconcile snapshot) ∧ CreatedOrder log r.id)) ∧
      (h₁ :: hs).IsChain (fun a b => b.previousStatus = some a.newStatus) ∧
      (∀ a ∈ h₁ :: hs, a.outcome = .ignored → a.previousStatus = some a.newStatus) ∧
      (∃ hn, (h₁ :: hs).getLast? = some hn ∧ r.status = hn.newStatus) ∧
      (effects (h₁ :: hs) = ∅ → r.lastSequence = 0) ∧
      ((effects (h₁ :: hs)).Nonempty → IsGreatest (effects (h₁ :: hs)) r.lastSequence) ∧
      (h₁ :: hs).Pairwise (fun a b => a.effective = true →
        (b.outcome = .applied → a.sequence < b.sequence) ∧
        (b.outcome = .reconciled → a.sequence ≤ b.sequence)) := by
  intro r hr
  refine ⟨h.trail_ascending r.id, ?_⟩
  have hkeyed : Store.Keyed w.db := (h.coherent Store.keyed_empty).inv
  obtain ⟨hne, ha⟩ := (h.audited r.id).present r (hkeyed.order?_eq hr)
  obtain ⟨h₁, hs, heq⟩ := List.exists_cons_of_ne_nil hne
  rw [heq] at ha
  have hmem : h₁ ∈ w.db.trail r.id := by simp [heq]
  obtain ⟨hmem, hid⟩ := List.mem_filter.mp hmem
  refine ⟨h₁, hs, heq, ha.first h₁ rfl, ?_, fun i s log hj hsess hw => ?_, ha.chain, ha.ignored, ?_,
    ha.none_effective, ha.greatest, ha.ascending⟩
  · obtain ⟨i, log, hj, hw⟩ := h.writer hmem
    obtain ⟨_, x, ⟨s, hsess, rfl⟩, -⟩ := h.journal_call Store.keyed_empty hj
    exact ⟨i, s, log, hj, hsess, hw⟩
  · obtain ⟨_, x, ⟨s', hsess', rfl⟩, hlog⟩ := h.journal_call Store.keyed_empty hj
    obtain rfl : s = s' := Option.some.inj (hsess.symm.trans hsess')
    have hid' : h₁.orderId = r.id := by simpa using hid
    rw [← hid']
    exact hlog.writes (h.executed hj) hw
  · refine ⟨(h₁ :: hs).getLast (by simp), List.getLast?_eq_some_getLast _, ?_⟩
    have hstatus := ha.status
    rw [List.getLast?_eq_some_getLast (by simp)] at hstatus
    exact hstatus.symm

end Reachable

/-- In the sample, the order has a trail, which begins at the default of its status. -/
theorem audit_trail_sample : letI := samplePlatform
    ∃ w : State, Reach .default .empty w ∧ ∃ h₁ hs, w.db.trail "ord_1" = h₁ :: hs ∧
      (h₁.previousStatus = some .pending ∨ h₁.previousStatus = none) := by
  let _ := samplePlatform
  obtain ⟨w, e, o, hrest, -, -, -, ho, -⟩ := exists_applied_sample
  obtain ⟨ho, hid⟩ := Store.mem_of_order? ho
  obtain ⟨-, h₁, hs, htrail, hfirst, -⟩ := audit_trail_is_a_chain hrest.reach o ho
  exact ⟨w, hrest.reach, h₁, hs, hid ▸ htrail, hfirst⟩

end PaymentWebhook
