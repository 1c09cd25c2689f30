import Mathlib.Data.List.Forall2
import PaymentWebhook.Atomicity
import PaymentWebhook.Serializability
import PaymentWebhook.Trail
import PaymentWebhook.Projection
import PaymentWebhook.Repairs

set_option relaxedAutoImplicit false
set_option autoImplicit false

/-!
# A run of a reconciliation, entry by entry

The loop over a snapshot handles every entry against the row that the order had before the run,
because the ids of the entries are distinct: no entry sees what the run did for another one.

## Main definitions

* `PaymentWebhook.Settles` — what is done about an entry: the detail, the row the order is left
  with, and the history rows that are written.
* `PaymentWebhook.OrderRow.Agrees` — the row says what the entry says, the amounts compared as
  numbers.
* `PaymentWebhook.EntrySpec`, `PaymentWebhook.RunSpec` — the specifications of an entry and of a
  run.

## Main results

* `PaymentWebhook.Turns.settles` — the loop settles every entry against the store before the run.
* `PaymentWebhook.Change.runSpec` — every run that is committed meets the specification.
-/

namespace PaymentWebhook

open Transactions

/-! ## What is done about an entry -/

/-- What is done about an entry: the detail, the row its order is left with, and the history. -/
structure Settlement where
  detail : ReconciliationDetail
  row : OrderRow
  written : List HistoryRow

/-- **What a run does about an entry**, `before` being the row of its order. -/
inductive Settles (o : ProviderOrder) (before : Option OrderRow) : Settlement → Prop where
  | kept {row : OrderRow} (h : before = some row) (hclass : classify o row ≠ .repaired) :
      Settles o before ⟨detailOf o row false, row, []⟩
  | repaired {row : OrderRow} {amount : ℤ} {d d' : Draws} (h : before = some row)
      (hclass : classify o row = .repaired) (hamount : numericIn o.amount = some amount) :
      Settles o before ⟨detailOf o row false,
        row.reconciled o.status o.sequence (some amount) (some o.currency) d,
        [repairHistory o (some row.status) d']⟩
  | created {amount : ℤ} {d₀ d d' : Draws} (h : before = none)
      (hamount : numericIn o.amount = some amount) :
      Settles o before ⟨detailOf o (defaultOrder o.id d₀) true,
        (defaultOrder o.id d₀).reconciled o.status o.sequence (some amount) (some o.currency) d,
        [repairHistory o none d']⟩

section Turns

variable [Platform] {o : ProviderOrder} {t t' : Tally} {log : Log} {s s' : Store}

/-- **A turn settles its entry**, and leaves the other orders alone. -/
theorem Turn.settles (ho : o.Valid) (hs : s.Keyed) (h : Turn o t log t' s s') :
    ∃ x : Settlement, Settles o (s.order? o.id) x ∧ t' = t.push x.detail ∧
      s'.order? o.id = some x.row ∧ s'.history = s.history ++ x.written ∧
      ∀ id, id ≠ o.id → s'.order? id = s.order? id := by
  cases h with
  | @kept _ d₁ _ _ _ isNew row hopen hclass =>
    cases hopen with
    | fresh hno => exact absurd (classify_default ho d₁) hclass
    | found hfound =>
      have hself : s.putOrder row = s :=
        Store.putOrder_self hs (by rw [(Store.mem_of_order? hfound).2, hfound])
      rw [hself]
      exact ⟨_, .kept hfound hclass, rfl, hfound, by simp, fun _ _ => rfl⟩
  | @repaired _ d₁ _ d₃ d₄ _ _ _ _ isNew row amount hopen hclass hamount =>
    have hid : (row.reconciled o.status o.sequence (some amount) (some o.currency) d₃).id = o.id :=
      hopen.id_eq
    have horder : ∀ id, ((s.putOrder (row.reconciled o.status o.sequence (some amount)
        (some o.currency) d₃)).addHistory (repairHistory o (if isNew then none else some row.status)
        d₄)).order? id = if id = o.id then
          some (row.reconciled o.status o.sequence (some amount) (some o.currency) d₃)
        else s.order? id := by
      intro id
      rw [Store.addHistory_order?, Store.order?_putOrder hs, hid]
    refine ⟨⟨detailOf o row isNew, _, [repairHistory o (if isNew then none else some row.status) d₄]⟩,
      ?_, rfl, by rw [horder, if_pos rfl], rfl, fun id hne => by rw [horder, if_neg hne]⟩
    cases hopen with
    | fresh hno => exact .created hno hamount
    | found hfound => exact .repaired hfound hclass hamount

/-- **The loop settles every entry** against the store before the run: it pushes one detail for each,
in their order, and writes the history in their order. -/
theorem Turns.settles {orders : List ProviderOrder} (h : Turns orders t log t' s s')
    (hvalid : ∀ o ∈ orders, o.Valid) (hd : (orders.map ProviderOrder.id).Nodup) :
    ∃ xs : List Settlement, t' = (xs.map Settlement.detail).foldl Tally.push t ∧
      s'.history = s.history ++ xs.flatMap Settlement.written ∧
      (∀ id, id ∉ orders.map ProviderOrder.id → s'.order? id = s.order? id) ∧
      List.Forall₂ (fun o x => s'.order? o.id = some x.row ∧ Settles o (s.order? o.id) x) orders xs := by
  induction h with
  | nil => exact ⟨[], rfl, by simp, fun _ _ => rfl, .nil⟩
  | @cons o orders t t' t'' turn log s s' s'' hs hturn htail ih =>
    obtain ⟨hnot, hd⟩ := List.nodup_cons.mp hd
    obtain ⟨x, hsettles, rfl, hrow, hhistory, hother⟩ := hturn.settles (hvalid o (by simp)) hs
    obtain ⟨xs, rfl, hhistory', hother', hall⟩ := ih (fun o ho => hvalid o (by simp [ho])) hd
    have hne : ∀ o' ∈ orders, o'.id ≠ o.id := by
      rintro o' ho' heq
      exact hnot (List.mem_map.mpr ⟨o', ho', heq⟩)
    refine ⟨x :: xs, rfl, by simp [hhistory', hhistory], fun id hid => ?_, .cons ⟨?_, hsettles⟩ ?_⟩
    · rw [List.map_cons, List.mem_cons, not_or] at hid
      rw [hother' id hid.2, hother id hid.1]
    · rw [hother' o.id hnot, hrow]
    · refine ((List.forall₂_and_left orders xs).mpr ⟨hne, hall⟩).imp fun o' x' ho' => ⟨ho'.2.1, ?_⟩
      rw [← hother o'.id ho'.1]
      exact ho'.2.2

end Turns

/-! ## The specification of an entry -/

/-- The row says what the entry says, the amounts compared as numbers. -/
structure OrderRow.Agrees (row : OrderRow) (o : ProviderOrder) : Prop where
  status : row.status = o.status
  sequence : row.lastSequence = o.sequence
  amount : row.amount = numericIn o.amount
  currency : row.currency = some o.currency

/-- The history row of a repair from the status `previous`. -/
structure HistoryRow.Repairs (h : HistoryRow) (o : ProviderOrder) (previous : Option OrderStatus) :
    Prop where
  orderId : h.orderId = o.id
  eventId : h.eventId = none
  sequence : h.sequence = o.sequence
  previousStatus : h.previousStatus = previous
  newStatus : h.newStatus = o.status
  outcome : h.outcome = .reconciled
  outcomeReason : h.outcomeReason = some .providerSourceOfTruth
  source : h.source = .reconciliation

/-- The detail of an entry that was found with the row `before`. -/
def ProviderOrder.detail (o : ProviderOrder) (before : Option OrderRow)
    (action : ReconciliationAction) : ReconciliationDetail where
  orderId := o.id
  localStatus := before.map OrderRow.status
  localSequence := before.map OrderRow.lastSequence
  providerStatus := o.status
  providerSequence := o.sequence
  action := action

/-- A repair: the row agrees with the entry afterwards, and one history row has been written. -/
structure Repaired (o : ProviderOrder) (before : Option OrderRow) (x : Settlement) : Prop where
  detail : x.detail = o.detail before .repaired
  id : x.row.id = o.id
  agrees : x.row.Agrees o
  createdAt : ∀ row, before = some row → x.row.createdAt = row.createdAt
  written : ∃ h, x.written = [h] ∧ h.Repairs o (before.map OrderRow.status)

/-- **The specification of an entry**, `before` being the row of its order before the run. -/
structure EntrySpec (o : ProviderOrder) (before : Option OrderRow) (x : Settlement) : Prop where
  absent : before = none → Repaired o none x
  stale : ∀ row, before = some row → o.sequence < row.lastSequence →
    x = ⟨o.detail before .staleProviderSnapshot, row, []⟩
  alreadyOk : ∀ row, before = some row → row.Agrees o → x = ⟨o.detail before .alreadyOk, row, []⟩
  repaired : ∀ row, before = some row → row.lastSequence ≤ o.sequence → ¬ row.Agrees o →
    Repaired o before x

section EntrySpec

variable {o : ProviderOrder}

/-- Case B of the program is agreement. -/
theorem OrderRow.matches_iff (ho : o.Valid) (row : OrderRow) :
    row.matches o = true ↔ row.Agrees o := by
  simp only [OrderRow.matches, Bool.and_eq_true, decide_eq_true_eq,
    normalizeAmount_eq_iff ho.amount]
  constructor
  · rintro ⟨⟨⟨h1, h2⟩, h3⟩, h4⟩
    exact ⟨h1, h2, h3, h4⟩
  · intro h
    exact ⟨⟨⟨h.1, h.2⟩, h.3⟩, h.4⟩

/-- A row that has been repaired agrees with the entry. -/
theorem OrderRow.agrees_reconciled (row : OrderRow) {amount : ℤ}
    (h : numericIn o.amount = some amount) (d : Draws) :
    (row.reconciled o.status o.sequence (some amount) (some o.currency) d).Agrees o :=
  ⟨rfl, rfl, h.symm, rfl⟩

theorem repairHistory_repairs (o : ProviderOrder) (previous : Option OrderStatus) (d : Draws) :
    (repairHistory o previous d).Repairs o previous :=
  ⟨rfl, rfl, rfl, rfl, rfl, rfl, rfl, rfl⟩

/-- **What is done about an entry meets its specification.** -/
theorem Settles.spec {before : Option OrderRow} {x : Settlement} (ho : o.Valid)
    (hid : ∀ row, before = some row → row.id = o.id) (h : Settles o before x) :
    EntrySpec o before x := by
  cases h with
  | @kept row h hclass =>
    subst h
    have hdetail : ∀ a, classify o row = a → detailOf o row false = o.detail (some row) a := by
      rintro a rfl
      simp [detailOf, ProviderOrder.detail]
    rcases classify_cases o row with ⟨hlt, hc⟩ | ⟨hm, hseq, -, hc⟩ | ⟨-, -, hc⟩
    · refine ⟨nofun, fun row' hrow _ => ?_, fun row' hrow hagrees => ?_, fun row' hrow hle => ?_⟩
      · cases hrow
        rw [hdetail _ hc]
      · cases hrow
        exact absurd hagrees.sequence (by omega)
      · cases hrow
        omega
    · have hagrees := (row.matches_iff ho).mp hm
      refine ⟨nofun, fun row' hrow hlt => ?_, fun row' hrow _ => ?_, fun row' hrow _ hne => ?_⟩
      · cases hrow
        omega
      · cases hrow
        rw [hdetail _ hc]
      · cases hrow
        exact absurd hagrees hne
    · exact absurd hc hclass
  | @repaired row amount d d' h hclass hamount =>
    subst h
    rcases classify_cases o row with ⟨-, hc⟩ | ⟨-, -, -, hc⟩ | ⟨hle, hm, -⟩
    · rw [hc] at hclass
      cases hclass
    · rw [hc] at hclass
      cases hclass
    · have hne : ¬ row.Agrees o := fun hagrees => by
        rw [(row.matches_iff ho).mpr hagrees] at hm
        cases hm
      refine ⟨nofun, fun row' hrow hlt => ?_, fun row' hrow hagrees => ?_, fun row' hrow _ _ => ?_⟩
      · cases hrow
        omega
      · cases hrow
        exact absurd hagrees hne
      · cases hrow
        exact ⟨by simp [detailOf, ProviderOrder.detail, hclass], hid row rfl,
          row.agrees_reconciled hamount d, fun row' hrow => by cases hrow; rfl, _, rfl,
          repairHistory_repairs o _ d'⟩
  | @created amount d₀ d d' h hamount =>
    subst h
    refine ⟨fun _ => ?_, nofun, nofun, nofun⟩
    exact ⟨by simp [detailOf, ProviderOrder.detail, classify_default ho d₀], rfl,
      OrderRow.agrees_reconciled _ hamount d, nofun, _, rfl, repairHistory_repairs o _ d'⟩

/-- An entry is kept, or it repairs its order. -/
theorem EntrySpec.cases {before : Option OrderRow} {x : Settlement} (h : EntrySpec o before x) :
    (∃ row action, before = some row ∧ x = ⟨o.detail before action, row, []⟩) ∨
    ((∀ row, before = some row → row.lastSequence ≤ o.sequence) ∧ Repaired o before x) := by
  cases before with
  | none => exact .inr ⟨nofun, h.absent rfl⟩
  | some row =>
    by_cases hlt : o.sequence < row.lastSequence
    · exact .inl ⟨row, _, rfl, h.stale row rfl hlt⟩
    · by_cases hagrees : row.Agrees o
      · exact .inl ⟨row, _, rfl, h.alreadyOk row rfl hagrees⟩
      · refine .inr ⟨fun row' hrow => ?_, h.repaired row rfl (not_lt.mp hlt) hagrees⟩
        obtain rfl := Option.some.inj hrow
        exact not_lt.mp hlt

/-- No entry takes an order back. -/
theorem EntrySpec.sequence_le {row : OrderRow} {x : Settlement} (h : EntrySpec o (some row) x) :
    row.lastSequence ≤ x.row.lastSequence := by
  rcases h.cases with ⟨row', action, hrow, rfl⟩ | ⟨hle, hrepaired⟩
  · obtain rfl := Option.some.inj hrow
    exact le_rfl
  · rw [hrepaired.agrees.sequence]
    exact hle row rfl

/-- Only repairs write history. -/
theorem EntrySpec.repaired_of_written {before : Option OrderRow} {x : Settlement}
    (h : EntrySpec o before x) {r : HistoryRow} (hr : r ∈ x.written) : Repaired o before x := by
  rcases h.cases with ⟨row, action, -, rfl⟩ | ⟨-, hrepaired⟩
  · cases hr
  · exact hrepaired

/-- The detail of an entry is about its order. -/
theorem EntrySpec.detail_orderId {before : Option OrderRow} {x : Settlement}
    (h : EntrySpec o before x) : x.detail.orderId = o.id := by
  rcases h.cases with ⟨row, action, -, rfl⟩ | ⟨-, hrepaired⟩
  · rfl
  · rw [hrepaired.detail]
    rfl

end EntrySpec

/-! ## Counters -/

/-- How many of the details have the action. -/
def countOf (details : List ReconciliationDetail) (action : ReconciliationAction) : ℕ :=
  details.countP (·.action = action)

/-- The counters of the loop count its details. -/
structure Tally.Counts (t : Tally) : Prop where
  repaired : t.repaired = countOf t.details .repaired
  alreadyOk : t.alreadyOk = countOf t.details .alreadyOk
  stale : t.staleProviderSnapshots = countOf t.details .staleProviderSnapshot

theorem Tally.Counts.empty : Tally.empty.Counts := ⟨rfl, rfl, rfl⟩

theorem Tally.Counts.push {t : Tally} (h : t.Counts) (d : ReconciliationDetail) :
    (t.push d).Counts := by
  obtain ⟨h1, h2, h3⟩ := h
  refine ⟨?_, ?_, ?_⟩ <;>
    simp only [Tally.push, countOf, List.countP_append, List.countP_singleton,
      decide_eq_true_eq] at h1 h2 h3 ⊢ <;>
    split <;> omega

/-- Pushing details one after the other. -/
theorem Tally.foldl_push (details : List ReconciliationDetail) {t : Tally} (h : t.Counts) :
    (details.foldl Tally.push t).details = t.details ++ details ∧
      (details.foldl Tally.push t).Counts := by
  induction details generalizing t with
  | nil => exact ⟨by simp, h⟩
  | cons d details ih =>
    obtain ⟨hd, hc⟩ := ih (h.push d)
    exact ⟨hd.trans (by simp [Tally.push]), hc⟩

/-- Every detail is counted once. -/
theorem length_eq_counts (details : List ReconciliationDetail) :
    details.length = countOf details .repaired + countOf details .alreadyOk +
      countOf details .staleProviderSnapshot := by
  induction details with
  | nil => rfl
  | cons d details ih =>
    simp only [countOf, List.countP_cons, List.length_cons, decide_eq_true_eq] at ih ⊢
    cases d.action <;> simp <;> omega

/-! ## The specification of a run -/

/-- The row of a detail, in the run `runId`. -/
structure DetailRow.Records (r : DetailRow) (runId : ℕ) (d : ReconciliationDetail) : Prop where
  runId : r.runId = runId
  orderId : r.orderId = d.orderId
  localStatus : r.localStatus = d.localStatus
  localSequence : r.localSequence = d.localSequence
  providerStatus : r.providerStatus = d.providerStatus
  providerSequence : r.providerSequence = d.providerSequence
  action : r.action = d.action
  repairedAt : r.repairedAt.isSome ↔ d.action = .repaired

/-- **The specification of a run** over a snapshot that takes the store from `s` to `s'` and returns
`r`. -/
structure RunSpec (orders : List ProviderOrder) (s : Store) (r : ReconciliationRunResult)
    (s' : Store) : Prop where
  -- every entry is settled against the row its order had before the run
  entries : ∃ xs : List Settlement,
    List.Forall₂ (fun o x => EntrySpec o (s.order? o.id) x ∧ s'.order? o.id = some x.row) orders xs ∧
      s'.history = s.history ++ xs.flatMap Settlement.written ∧ r.details = xs.map Settlement.detail
  monotone : ∀ id row, s.order? id = some row →
    ∃ row', s'.order? id = some row' ∧ row.lastSequence ≤ row'.lastSequence
  others : ∀ id, id ∉ orders.map ProviderOrder.id → s'.order? id = s.order? id
  events : s'.events = s.events
  deliveries : s'.deliveries = s.deliveries
  -- what is returned is recorded
  persisted : ∃ rows, s'.details = s.details ++ rows ∧
    List.Forall₂ (fun d row => DetailRow.Records row r.runId d) r.details rows
  run : s.run? r.runId = none ∧ ∃ row, s'.runs = s.runs ++ [row] ∧ row.id = r.runId ∧
    row.status = .completed ∧ row.ordersChecked = r.ordersChecked ∧
    row.divergences = r.divergences ∧ row.repaired = r.repaired ∧ row.startedAt = r.startedAt ∧
    row.finishedAt = r.finishedAt ∧ row.finishedAt.isSome
  status : r.status = .completed
  ordersChecked : r.ordersChecked = orders.length
  length : r.details.length = orders.length
  repaired : r.repaired = countOf r.details .repaired
  alreadyOk : r.alreadyOk = countOf r.details .alreadyOk
  stale : r.staleProviderSnapshots = countOf r.details .staleProviderSnapshot
  divergences : r.divergences = r.repaired + r.staleProviderSnapshots
  total : r.ordersChecked = r.repaired + r.alreadyOk + r.staleProviderSnapshots

/-- A run leaves a detail of every entry. -/
theorem RunSpec.exists_detail {orders : List ProviderOrder} {r : ReconciliationRunResult}
    {s s' : Store} (h : RunSpec orders s r s') {o : ProviderOrder} (ho : o ∈ orders) :
    ∃ d ∈ s'.details, d.orderId = o.id := by
  obtain ⟨xs, hxs, -, hdetails⟩ := h.entries
  obtain ⟨rows, hrows, hrecords⟩ := h.persisted
  obtain ⟨x, hx, hspec, -⟩ := exists_of_forall₂ hxs ho
  have hmem : x.detail ∈ r.details := hdetails ▸ List.mem_map_of_mem hx
  obtain ⟨d, hd, hrecord⟩ := exists_of_forall₂ hrecords hmem
  exact ⟨d, hrows ▸ List.mem_append.mpr (.inr hd), hrecord.orderId.trans hspec.detail_orderId⟩

section Run

variable [Platform] {cfg : WorkerConfig} {snapshot : ValidSnapshot} {log : Log} {s s' : Store}

omit [Platform] in
theorem detailValues_records (runId : ℕ) (d : ReconciliationDetail) (draws : Draws) :
    ((detailValues runId d).row draws).Records runId d :=
  ⟨rfl, rfl, rfl, rfl, rfl, rfl, rfl, by
    by_cases h : d.action = .repaired <;> simp [DetailValues.row, detailValues, h]⟩

omit [Platform] in
/-- Completing the run that has just been inserted. -/
theorem complete_run {d : Draws} {row : RunRow} (h : s.run? d.runId = none) (hid : row.id = d.runId) :
    Tables.replace RunRow.keys row (s.runs ++ [runningRun d]) = s.runs ++ [row] := by
  have hne : ∀ x ∈ s.runs, x.keys ≠ row.keys := by
    intro x hx heq
    refine Tables.find_eq_none.mp h x hx ?_
    rw [heq, RunRow.keys, hid]
    exact List.mem_singleton.mpr rfl
  have hlast : Tables.replace RunRow.keys row [runningRun d] = [row] := by
    simp [Tables.replace, RunRow.keys, runningRun, hid]
  rw [Tables.replace, List.map_append]
  exact congrArg₂ (· ++ ·) (Tables.replace_of_forall_ne hne) hlast

/-- **A committed run meets the specification.** -/
theorem Change.runSpec {r : ReconciliationRunResult}
    (h : Change cfg (.reconcile snapshot) log (some (.reconciled r)) s s') :
    RunSpec snapshot.orders s r s' := by
  generalize hx : some (Answer.reconciled r) = x at h
  cases h with
  | @reconciled _ s₁ _ d₁ d₂ d₃ _ _ _ t loop details rows hrun hturns hdetails hrows =>
  obtain rfl : r = _ := by simpa using hx
  obtain ⟨xs, rfl, hhistory, hothers, hall⟩ := hturns.settles snapshot.valid snapshot.distinct
  obtain ⟨hd, hcounts⟩ := Tally.foldl_push (xs.map Settlement.detail) Tally.Counts.empty
  replace hd : _ = xs.map Settlement.detail := hd
  have hspec : List.Forall₂ (fun o x => EntrySpec o (s.order? o.id) x ∧ s₁.order? o.id = some x.row)
      snapshot.orders xs :=
    ((List.forall₂_and_left snapshot.orders xs).mpr ⟨snapshot.valid, hall⟩).imp
      fun o x ⟨ho, hrow, hx⟩ => ⟨hx.spec ho fun row h => (Store.mem_of_order? h).2, hrow⟩
  have hlength : xs.length = snapshot.orders.length := hspec.length_eq.symm
  have htotal := length_eq_counts (xs.map Settlement.detail)
  rw [List.length_map, hlength] at htotal
  have hruns : ∀ row : RunRow, row.id = d₂.runId →
      Tables.replace RunRow.keys row s₁.runs = s.runs ++ [row] := fun row hid => by
    rw [hturns.runs_eq]
    exact complete_run hrun hid
  obtain ⟨hc1, hc2, hc3⟩ := hcounts
  rw [hd] at hc1 hc2 hc3
  exact {
    entries := ⟨xs, hspec, hhistory, hd⟩
    monotone := fun id row hrow => by
      by_cases hid : id ∈ snapshot.orders.map ProviderOrder.id
      · obtain ⟨o, ho, rfl⟩ := List.mem_map.mp hid
        obtain ⟨x, -, hx, hrow'⟩ := exists_of_forall₂ hspec ho
        rw [hrow] at hx
        exact ⟨x.row, hrow', hx.sequence_le⟩
      · exact ⟨row, (hothers id hid).trans hrow, le_rfl⟩
    others := hothers
    events := hturns.inbox_eq.1
    deliveries := hturns.inbox_eq.2
    persisted := ⟨rows, by rw [hturns.details_eq], hrows.imp fun d row ⟨draws, hrow⟩ => by
      rw [hrow]
      exact detailValues_records _ d draws⟩
    run := ⟨hrun, _, hruns _ rfl, rfl, rfl, rfl, rfl, rfl, rfl, rfl, rfl⟩
    status := rfl
    ordersChecked := rfl
    length := by
      show List.length _ = _
      simp only [runResult, hd, List.length_map, hlength]
    repaired := by simp only [runResult, hc1, hd]
    alreadyOk := by simp only [runResult, hc2, hd]
    stale := by simp only [runResult, hc3, hd]
    divergences := rfl
    total := by
      simp only [runResult, hc1, hc2, hc3]
      exact htotal }

end Run

end PaymentWebhook
