import PaymentWebhook.Origins
import PaymentWebhook.SnapshotRuns
import PaymentWebhook.Transactions.Ledger

set_option relaxedAutoImplicit false
set_option autoImplicit false

/-!
# The books of the reconciliations

A reconciliation leaves a row of its run, a row of every entry it has looked at and a row of history for
every order it has repaired.  The three tables tell one story.

## Main definitions

* `PaymentWebhook.DetailRow.chargedTo` — the run that an entry is charged to.
* `PaymentWebhook.DetailRow.record`, `PaymentWebhook.HistoryRow.record` — what the two tables say about a
  repair.
* `PaymentWebhook.Store.Books` — the books are kept.

## Main results

* `PaymentWebhook.RunSpec.books`, `PaymentWebhook.Reach.books` — every run keeps the books.
* `PaymentWebhook.reconciliation_books` — what the tables of every reachable state say.
-/

namespace PaymentWebhook

open Transactions Ledger

/-- The run that an entry is charged to, if its action is among those that are counted. -/
def DetailRow.chargedTo (counts : ReconciliationAction → Bool) (d : DetailRow) : Option ℕ :=
  if counts d.action then some d.runId else none

/-- What the details say about a repair. -/
def DetailRow.record (d : DetailRow) : String × Option OrderStatus × OrderStatus × ℤ :=
  (d.orderId, d.localStatus, d.providerStatus, d.providerSequence)

/-- What the history says about a repair. -/
def HistoryRow.record (r : HistoryRow) : String × Option OrderStatus × OrderStatus × ℤ :=
  (r.orderId, r.previousStatus, r.newStatus, r.sequence)

/-- The details of a run with one of the actions that are counted. -/
theorem charged_chargedTo (counts : ReconciliationAction → Bool) (id : ℕ) (details : List DetailRow) :
    charged (DetailRow.chargedTo counts) id details =
      details.countP fun d => decide (d.runId = id) && counts d.action := by
  rw [charged, List.count_filterMap]
  refine List.countP_congr fun d _ => ?_
  unfold DetailRow.chargedTo
  cases counts d.action <;> simp

/-- **The books are kept.** -/
structure Store.Books (s : Store) : Prop where
  completed : ∀ run ∈ s.runs, run.status = .completed ∧ run.finishedAt.isSome
  checked : Balanced (DetailRow.chargedTo fun _ => true) RunRow.id RunRow.ordersChecked s.details s.runs
  repaired : Balanced (DetailRow.chargedTo (· = .repaired)) RunRow.id RunRow.repaired s.details s.runs
  divergent : Balanced (DetailRow.chargedTo (· ≠ .alreadyOk)) RunRow.id RunRow.divergences s.details s.runs
  -- a run looks at an order once
  distinct : ∀ id, ((s.details.filter (·.runId = id)).map DetailRow.orderId).Nodup
  -- what has been repaired is in the history, in the same order
  repairs : (s.history.filter (·.outcome = .reconciled)).map HistoryRow.record =
    (s.details.filter (·.action = .repaired)).map DetailRow.record

theorem Store.books_empty : Store.empty.Books where
  completed := by simp [Store.empty]
  checked := ⟨by simp [Store.empty], fun _ _ => rfl⟩
  repaired := ⟨by simp [Store.empty], fun _ _ => rfl⟩
  divergent := ⟨by simp [Store.empty], fun _ _ => rfl⟩
  distinct _ := List.nodup_nil
  repairs := rfl

variable {s s' : Store}

/-- The books depend on the runs, the details and the repairs in the history. -/
theorem Store.Books.congr (h : s.Books) (hruns : s'.runs = s.runs) (hdetails : s'.details = s.details)
    (hhistory : s'.history.filter (·.outcome = .reconciled) = s.history.filter (·.outcome = .reconciled)) :
    s'.Books where
  completed := hruns ▸ h.completed
  checked := by rw [hruns, hdetails]; exact h.checked
  repaired := by rw [hruns, hdetails]; exact h.repaired
  divergent := by rw [hruns, hdetails]; exact h.divergent
  distinct := hdetails ▸ h.distinct
  repairs := by rw [hhistory, hdetails]; exact h.repairs

/-- The rows of a run repeat its details. -/
theorem records_count {runId : ℕ} {details : List ReconciliationDetail} {rows : List DetailRow}
    (h : List.Forall₂ (fun d row => DetailRow.Records row runId d) details rows)
    (counts : ReconciliationAction → Bool) :
    charged (DetailRow.chargedTo counts) runId rows = details.countP fun d => counts d.action := by
  rw [charged_chargedTo]
  induction h with
  | nil => rfl
  | @cons d row details rows hrow _ ih =>
    rw [List.countP_cons, List.countP_cons, ih, hrow.runId, hrow.action, decide_eq_true rfl, Bool.true_and]

/-- The rows of a run are about the orders of its entries. -/
theorem records_orderIds {runId : ℕ} {details : List ReconciliationDetail} {rows : List DetailRow}
    (h : List.Forall₂ (fun d row => DetailRow.Records row runId d) details rows) :
    rows.map DetailRow.orderId = details.map ReconciliationDetail.orderId := by
  induction h with
  | nil => rfl
  | cons hrow _ ih => rw [List.map_cons, List.map_cons, ih, hrow.orderId]

/-- A repair is recorded in the history as in its detail; what is kept is not recorded. -/
theorem EntrySpec.record {o : ProviderOrder} {before : Option OrderRow} {x : Settlement} {runId : ℕ}
    {row : DetailRow} (h : EntrySpec o before x) (hrow : row.Records runId x.detail) :
    (x.written.filter (·.outcome = .reconciled)).map HistoryRow.record =
      ([row].filter (·.action = .repaired)).map DetailRow.record := by
  have hrepaired : Repaired o before x →
      (x.written.filter (·.outcome = .reconciled)).map HistoryRow.record =
        ([row].filter (·.action = .repaired)).map DetailRow.record := by
    intro hx
    obtain ⟨r, hwritten, hr⟩ := hx.written
    rw [hx.detail] at hrow
    have haction : row.action = .repaired := hrow.action
    rw [hwritten, List.filter_singleton, List.filter_singleton, hr.outcome, haction]
    simp only [decide_true, cond_true, List.map_singleton, HistoryRow.record, DetailRow.record,
      hrow.orderId, hrow.localStatus, hrow.providerStatus, hrow.providerSequence, hr.orderId,
      hr.previousStatus, hr.newStatus, hr.sequence, ProviderOrder.detail]
  have hkept : ∀ {old : OrderRow} {action : ReconciliationAction}, action ≠ .repaired →
      x = ⟨o.detail before action, old, []⟩ →
      (x.written.filter (·.outcome = .reconciled)).map HistoryRow.record =
        ([row].filter (·.action = .repaired)).map DetailRow.record := by
    intro old action hne hx
    have haction : row.action = action := by rw [hrow.action, hx, ProviderOrder.detail]
    rw [hx, List.filter_singleton, haction, decide_eq_false hne]
    rfl
  cases before with
  | none => exact hrepaired (h.absent rfl)
  | some old =>
    by_cases hlt : o.sequence < old.lastSequence
    · exact hkept (by decide) (h.stale old rfl hlt)
    · by_cases hagrees : old.Agrees o
      · exact hkept (by decide) (h.alreadyOk old rfl hagrees)
      · exact hrepaired (h.repaired old rfl (not_lt.mp hlt) hagrees)

/-- The repairs of a run, entry by entry. -/
theorem records_repairs {runId : ℕ} {before : String → Option OrderRow} {orders : List ProviderOrder}
    {xs : List Settlement} {rows : List DetailRow}
    (hxs : List.Forall₂ (fun o x => EntrySpec o (before o.id) x) orders xs)
    (hrows : List.Forall₂ (fun x row => DetailRow.Records row runId x.detail) xs rows) :
    ((xs.flatMap Settlement.written).filter (·.outcome = .reconciled)).map HistoryRow.record =
      (rows.filter (·.action = .repaired)).map DetailRow.record := by
  induction hxs generalizing rows with
  | nil =>
    cases hrows
    rfl
  | @cons o x orders xs hx _ ih =>
    cases hrows with
    | @cons _ row _ rows hrow hrows =>
      rw [List.flatMap_cons, List.filter_append, List.map_append, hx.record hrow, ih hrows, ← List.map_append,
        ← List.filter_append, List.singleton_append]

/-- The details of a run that settles the entries of a snapshot. -/
theorem RunSpec.orderIds {orders : List ProviderOrder} {r : ReconciliationRunResult}
    (h : RunSpec orders s r s') :
    r.details.map ReconciliationDetail.orderId = orders.map ProviderOrder.id := by
  obtain ⟨xs, hxs, -, hdetails⟩ := h.entries
  rw [hdetails]
  clear hdetails h
  induction hxs with
  | nil => rfl
  | cons hx _ ih =>
    rw [List.map_cons, List.map_cons, List.map_cons, ih, hx.1.detail_orderId]

/-- **A run keeps the books.** -/
theorem RunSpec.books {orders : List ProviderOrder} {r : ReconciliationRunResult}
    (hdistinct : (orders.map ProviderOrder.id).Nodup) (hb : s.Books) (h : RunSpec orders s r s') :
    s'.Books := by
  obtain ⟨hfresh, run, hruns, hid, hstatus, hchecked, hdivergences, hrepaired, -, -, hfinished⟩ := h.run
  obtain ⟨rows, hdetails, hrecords⟩ := h.persisted
  obtain ⟨xs, hxs, hhistory, hr⟩ := h.entries
  have hnew : run.id ∉ s.runs.map RunRow.id := by
    intro hmem
    obtain ⟨old, hold, heq⟩ := List.mem_map.mp hmem
    exact Tables.find_eq_none.mp hfresh old hold (by simp [RunRow.keys, heq, hid])
  have howner : ∀ row ∈ rows, row.runId = run.id := by
    intro row hrow
    obtain ⟨d, -, hrecord⟩ := exists_of_forall₂ hrecords.flip hrow
    exact hrecord.runId.trans hid.symm
  have hcharged : ∀ counts, ∀ row ∈ rows, ∀ k ∈ DetailRow.chargedTo counts row, k = run.id := by
    intro counts row hrow k hk
    unfold DetailRow.chargedTo at hk
    split at hk
    · rw [← Option.some.inj hk, howner row hrow]
    · cases hk
  have hnone : run.id ∉ s.details.map DetailRow.runId := by
    intro hmem
    obtain ⟨d, hd, hdrun⟩ := List.mem_map.mp hmem
    have hcharge : DetailRow.chargedTo (fun _ => true) d = some run.id := by
      rw [DetailRow.chargedTo, if_pos rfl, hdrun]
    have hpos := charged_pos hd hcharge
    exact absurd (hb.checked.unknown run.id hnew) hpos.ne'
  have hcount : ∀ counts, charged (DetailRow.chargedTo counts) run.id rows =
      r.details.countP fun d => counts d.action := by
    intro counts
    rw [hid]
    exact records_count hrecords counts
  refine { completed := ?_, checked := ?_, repaired := ?_, divergent := ?_, distinct := ?_, repairs := ?_ }
  · rw [hruns]
    refine List.forall_mem_append.mpr ⟨hb.completed, List.forall_mem_singleton.mpr ⟨hstatus, ?_⟩⟩
    exact hfinished
  · rw [hruns, hdetails]
    refine hb.checked.post hnew (hcharged _) ?_
    rw [hcount, hchecked, h.ordersChecked, ← h.length]
    exact (List.countP_eq_length.mpr fun _ _ => rfl).symm
  · rw [hruns, hdetails]
    refine hb.repaired.post hnew (hcharged _) ?_
    rw [hcount, hrepaired, h.repaired]
    rfl
  · rw [hruns, hdetails]
    refine hb.divergent.post hnew (hcharged _) ?_
    have htotal := h.total
    have hsplit := r.details.length_eq_countP_add_countP fun d => decide (d.action = .alreadyOk)
    have hok := h.alreadyOk
    rw [countOf] at hok
    have hne : r.details.countP (fun d => decide (d.action ≠ .alreadyOk)) =
        r.details.countP fun d => decide ¬ decide (d.action = .alreadyOk) = true := by simp
    rw [hcount, hdivergences, h.divergences, hne]
    rw [h.length, ← h.ordersChecked] at hsplit
    omega
  · intro id
    rw [hdetails, List.filter_append, List.map_append]
    by_cases hrun : id = run.id
    · have hold : s.details.filter (·.runId = id) = [] := by
        refine List.filter_eq_nil_iff.mpr fun d hd hdid => hnone ?_
        exact List.mem_map.mpr ⟨d, hd, (of_decide_eq_true hdid).trans hrun⟩
      have hall : rows.filter (·.runId = id) = rows :=
        List.filter_eq_self.mpr fun row hrow => decide_eq_true ((howner row hrow).trans hrun.symm)
      rw [hold, hall, List.map_nil, List.nil_append, records_orderIds hrecords, h.orderIds]
      exact hdistinct
    · have hnil : rows.filter (·.runId = id) = [] := by
        refine List.filter_eq_nil_iff.mpr fun row hrow hrowid => hrun ?_
        exact (of_decide_eq_true hrowid).symm.trans (howner row hrow)
      rw [hnil, List.map_nil, List.append_nil]
      exact hb.distinct id
  · have hspecs : List.Forall₂ (fun o x => EntrySpec o (s.order? o.id) x) _ xs := hxs.imp fun _ _ hx => hx.1
    have hrepairs := records_repairs hspecs (List.forall₂_map_left_iff.mp (hr ▸ hrecords))
    rw [hhistory, hdetails, List.filter_append, List.map_append, hb.repairs, hrepairs, ← List.map_append,
      ← List.filter_append]

section Reachable

variable [Platform] {cfg : WorkerConfig} {w w' : State}

/-- **Every change keeps the books.** -/
theorem Change.books {c : Call} {log : Log} {x : Option Answer} (hb : s.Books)
    (hc : Change cfg c log x s s') : s'.Books := by
  have hskip : ∀ {row : HistoryRow}, row.outcome ≠ .reconciled → s'.history = s.history ++ [row] →
      s'.history.filter (·.outcome = .reconciled) = s.history.filter (·.outcome = .reconciled) := by
    intro row hrow hhistory
    rw [hhistory, List.filter_append, List.filter_singleton, decide_eq_false hrow]
    exact List.append_nil _
  by_cases hreconcile : ∃ snapshot, c = .reconcile snapshot
  · obtain ⟨snapshot, rfl⟩ := hreconcile
    obtain ⟨r, hspec⟩ := hc.exists_run
    exact hspec.books snapshot.distinct hb
  · cases hc with
    | applied => exact hb.congr rfl rfl (hskip (by simp [eventHistory]) rfl)
    | ignored => exact hb.congr rfl rfl (hskip (by simp [eventHistory]) rfl)
    | reconciled => exact absurd ⟨_, rfl⟩ hreconcile
    | _ => exact hb.congr rfl rfl rfl

/-- The books are kept in every reachable state. -/
theorem Reach.books (h : Reach cfg .empty w) : w.db.Books :=
  h.changes_induction (P := fun _ s => Store.Books s) Store.keyed_empty Store.books_empty
    fun _ _ _ _ _ _ _ _ _ hb hc => hc.books hb

end Reachable

end PaymentWebhook
