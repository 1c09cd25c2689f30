import Mathlib.Data.List.Nodup
import Mathlib.Data.List.Pairwise
import PaymentWebhook.Projection

set_option relaxedAutoImplicit false
set_option autoImplicit false

/-!
# Repairs happen once

Reconciling a snapshot again changes nothing: once a run has handled an entry of the snapshot, the
row of the order is at least as new as the entry, or equal to it, and it stays so.  The money is
written as text, stored as a `NUMERIC(12,2)` and read back as text, so this rests on
`normalizeAmount_numericText`.

## Main definitions

* `PaymentWebhook.Reconciled` — the entry would not be repaired.
* `PaymentWebhook.Classified`, `PaymentWebhook.Untouched` — what a committed run says of an order,
  and that it leaves the order alone.

## Main results

* `PaymentWebhook.Turn.reconciles` — an entry that has been handled is reconciled.
* `PaymentWebhook.Change.keeps_reconciled` — it stays so.
* `PaymentWebhook.Reach.reconciled` — so a later run repairs nothing of it.
-/

namespace PaymentWebhook

open Transactions

/-! ## Reconciled entries -/

/-- The order is there, and would not be repaired. -/
def Reconciled (o : ProviderOrder) (s : Store) : Prop :=
  ∃ row, s.order? o.id = some row ∧ classify o row ≠ .repaired

/-- A row that is not repaired is at least as new as the entry. -/
theorem sequence_le_of_classify {o : ProviderOrder} {row : OrderRow}
    (h : classify o row ≠ .repaired) : o.sequence ≤ row.lastSequence := by
  rcases classify_cases o row with ⟨hlt, -⟩ | ⟨-, hseq, -⟩ | ⟨-, -, hrep⟩
  · exact hlt.le
  · exact hseq.ge
  · exact absurd hrep h

/-- A newer row is not repaired. -/
theorem classify_of_lt {o : ProviderOrder} {row : OrderRow} (h : o.sequence < row.lastSequence) :
    classify o row ≠ .repaired := by
  simp [classify, h]

/-- A row that has just been repaired matches the entry. -/
theorem classify_reconciled {o : ProviderOrder} (ho : o.Valid) {row : OrderRow} {amount : ℤ}
    (hamount : numericIn o.amount = some amount) (d : Draws) :
    classify o (row.reconciled o.status o.sequence (some amount) (some o.currency) d) =
      .alreadyOk := by
  obtain ⟨c, hc, -, hnorm, hnorm'⟩ := normalizeAmount_numericText ho.amount
  obtain rfl : c = amount := Option.some.inj (hc.symm.trans hamount)
  simp [classify, OrderRow.reconciled, OrderRow.matches, hnorm, hnorm']

section Turns

variable [Platform] {o o' : ProviderOrder} {t t' : Tally} {log : Log} {s s' : Store}

/-- The order that a statement updates, or writes history for. -/
def touchedOrder? : Entry postgres → Option String
  | ⟨.applyToOrder id _ _ _ _, _, _, _⟩ => some id
  | ⟨.reconcileOrder id _ _ _ _, _, _, _⟩ => some id
  | ⟨.insertHistory v, _, _, _⟩ => some v.orderId
  | _ => none

/-- The log neither updates the order nor writes history for it. -/
def Untouched (log : Log) (id : String) : Prop := ∀ e ∈ log, touchedOrder? e ≠ some id

theorem untouched_append {log' : Log} {id : String} :
    Untouched (log ++ log') id ↔ Untouched log id ∧ Untouched log' id := by
  simp only [Untouched, List.mem_append, or_imp, forall_and]

theorem DetailsLog.untouched {runId : ℕ} {details : List ReconciliationDetail}
    (h : DetailsLog runId details log) (id : String) : Untouched log id := by
  induction h with
  | nil => simp [Untouched]
  | cons htail ih => simpa [Untouched, touchedOrder?] using ih

/-- The details say of the order that it was not repaired. -/
def Tally.Spares (t : Tally) (id : String) : Prop :=
  ∀ d ∈ t.details, d.orderId = id → d.action ≠ .repaired

/-- **An entry that has been handled is reconciled.** -/
theorem Turn.reconciles (ho : o.Valid) (hs : s.Keyed) (h : Turn o t log t' s s') :
    Reconciled o s' := by
  cases h with
  | @kept _ d₁ _ _ _ isNew row hopen hclass =>
    refine ⟨row, ?_, hclass⟩
    rw [Store.order?_putOrder hs, if_pos hopen.id_eq.symm]
  | @repaired _ d₁ _ d₃ _ _ _ _ _ isNew row amount hopen hclass hamount =>
    refine ⟨row.reconciled o.status o.sequence (some amount) (some o.currency) d₃, ?_, ?_⟩
    · rw [Store.addHistory_order?, Store.order?_putOrder hs]
      exact if_pos hopen.id_eq.symm
    · rw [classify_reconciled ho hamount]
      simp

/-- A turn about another order. -/
theorem Turn.other (hs : s.Keyed) (h : Turn o' t log t' s s') (hne : o'.id ≠ o.id) :
    s'.order? o.id = s.order? o.id ∧ Untouched log o.id ∧ (t.Spares o.id → t'.Spares o.id) := by
  have hspares : ∀ row isNew, t.Spares o.id → (t.push (detailOf o' row isNew)).Spares o.id := by
    intro row isNew ht d hd hid
    rcases List.mem_append.mp hd with hd | hd
    · exact ht d hd hid
    · rw [List.mem_singleton.mp hd] at hid
      exact absurd hid hne
  cases h with
  | @kept _ d₁ _ _ _ isNew row hopen hclass =>
    refine ⟨?_, by simp [Untouched, touchedOrder?], hspares row isNew⟩
    rw [Store.order?_putOrder hs, hopen.id_eq, if_neg (Ne.symm hne)]
  | @repaired _ d₁ _ d₃ _ _ _ _ _ isNew row amount hopen hclass hamount =>
    refine ⟨?_, by simp [Untouched, touchedOrder?, repairValues, hne], hspares row isNew⟩
    have hid : (row.reconciled o'.status o'.sequence (some amount) (some o'.currency) d₃).id = o'.id :=
      hopen.id_eq
    rw [Store.addHistory_order?, Store.order?_putOrder hs, hid, if_neg (Ne.symm hne)]

/-- **A turn about an entry that is reconciled changes nothing.** -/
theorem Turn.again (hs : s.Keyed) (h : Turn o t log t' s s') (hr : Reconciled o s) :
    s' = s ∧ Untouched log o.id ∧ (t.Spares o.id → t'.Spares o.id) := by
  obtain ⟨row₀, hrow₀, hclass₀⟩ := hr
  have hfound : ∀ {isNew row d}, OpenedOrder s o.id d isNew row → row = row₀ := by
    intro isNew row d hopen
    cases hopen with
    | fresh hno => rw [hno] at hrow₀; cases hrow₀
    | found ho => exact Option.some.inj (ho.symm.trans hrow₀)
  cases h with
  | @kept _ d₁ _ _ _ isNew row hopen hclass =>
    obtain rfl := hfound hopen
    refine ⟨Store.putOrder_self hs ?_, by simp [Untouched, touchedOrder?], fun ht d hd hid => ?_⟩
    · rw [hopen.id_eq]
      exact hrow₀
    · rcases List.mem_append.mp hd with hd | hd
      · exact ht d hd hid
      · rw [List.mem_singleton.mp hd]
        exact hclass
  | repaired hopen hclass hamount =>
    obtain rfl := hfound hopen
    exact absurd hclass hclass₀

/-- The loop over a snapshot in which the id names the entry keeps it reconciled, and does not
touch the order. -/
theorem Turns.keeps {orders : List ProviderOrder} (h : Turns orders t log t' s s')
    (hid : ∀ o' ∈ orders, o'.id = o.id → o' = o) (hr : Reconciled o s) :
    Reconciled o s' ∧ Untouched log o.id ∧ (t.Spares o.id → t'.Spares o.id) := by
  induction h with
  | nil => exact ⟨hr, by simp [Untouched], id⟩
  | @cons o' orders t t' t'' turn log s s' s'' hs hturn htail ih =>
    have hstep : Reconciled o s' ∧ Untouched turn o.id ∧ (t.Spares o.id → t'.Spares o.id) := by
      by_cases heq : o'.id = o.id
      · obtain rfl := hid o' (by simp) heq
        obtain ⟨rfl, h2, h3⟩ := hturn.again hs hr
        exact ⟨hr, h2, h3⟩
      · obtain ⟨h1, h2, h3⟩ := hturn.other hs heq
        exact ⟨by rw [Reconciled, h1]; exact hr, h2, h3⟩
    obtain ⟨hr', hu, ht⟩ := hstep
    obtain ⟨ih1, ih2, ih3⟩ := ih (fun o'' ho'' => hid o'' (by simp [ho''])) hr'
    exact ⟨ih1, untouched_append.mpr ⟨hu, ih2⟩, fun h => ih3 (ht h)⟩

/-- The loop over a snapshot reconciles its entries. -/
theorem Turns.reconciles {orders : List ProviderOrder} (h : Turns orders t log t' s s')
    (hvalid : ∀ o ∈ orders, o.Valid) (hd : (orders.map ProviderOrder.id).Nodup)
    (ho : o ∈ orders) : Reconciled o s' := by
  induction h with
  | nil => cases ho
  | @cons o' orders t t' t'' turn log s s' s'' hs hturn htail ih =>
    obtain ⟨hnot, hd⟩ := List.nodup_cons.mp hd
    rcases List.mem_cons.mp ho with rfl | ho
    · refine (htail.keeps (fun o'' ho'' heq => ?_) (hturn.reconciles (hvalid _ (by simp)) hs)).1
      exact absurd (List.mem_map.mpr ⟨o'', ho'', heq⟩) hnot
    · exact ih (fun o ho => hvalid o (by simp [ho])) hd ho

end Turns

/-! ## Whole runs -/

section Changes

variable [Platform] {cfg : WorkerConfig} {c : Call} {log : Log} {x : Option Answer} {s s' : Store}
  {o : ProviderOrder} {S : ValidSnapshot}

/-- The run has recorded the classification of an order. -/
def Classified (log : Log) (id : String) (action : ReconciliationAction) : Prop :=
  ∃ e ∈ log, ∃ v, e.stmt = .insertDetail v ∧ v.orderId = id ∧ v.action = action

omit [Platform] in
/-- An id names one entry of a valid snapshot. -/
theorem ValidSnapshot.eq_of_id (ho : o ∈ S.orders) : ∀ o' ∈ S.orders, o'.id = o.id → o' = o :=
  fun _ ho' heq => List.inj_on_of_nodup_map S.distinct ho' ho heq

/-- What a run has recorded is what its loop has found. -/
theorem classified_iff {orders : List ProviderOrder} {t t' : Tally} {loop details : Log}
    {e₁ e₂ e₃ : Entry postgres} {runId : ℕ} (hturns : Turns orders t loop t' s s')
    (hdetails : DetailsLog runId t'.details details) (h₁ : ∀ v, e₁.stmt ≠ Stmt.insertDetail v)
    (h₂ : ∀ v, e₂.stmt ≠ Stmt.insertDetail v) (h₃ : ∀ v, e₃.stmt ≠ Stmt.insertDetail v)
    {id : String} {a : ReconciliationAction} :
    Classified (e₁ :: e₂ :: (loop ++ details ++ [e₃])) id a ↔
      ∃ d ∈ t'.details, d.orderId = id ∧ d.action = a := by
  constructor
  · rintro ⟨e, he, v, hstmt, rfl, rfl⟩
    have hmem : e ∈ details := by
      simp only [List.mem_cons, List.mem_append, List.not_mem_nil, or_false] at he
      rcases he with rfl | rfl | (he | he) | rfl
      · exact absurd hstmt (h₁ v)
      · exact absurd hstmt (h₂ v)
      · exact absurd hstmt (hturns.stmt_ne v e he)
      · exact he
      · exact absurd hstmt (h₃ v)
    obtain ⟨d, hd, rfl⟩ := (hdetails.stmt_iff v).mp ⟨e, hmem, hstmt⟩
    exact ⟨d, hd, rfl, rfl⟩
  · rintro ⟨d, hd, rfl, rfl⟩
    obtain ⟨e, he, hstmt⟩ := (hdetails.stmt_iff (detailValues runId d)).mpr ⟨d, hd, rfl⟩
    exact ⟨e, by simp [he], _, hstmt, rfl, rfl⟩

/-- A run of the snapshot reconciles its entries, and records a classification of each. -/
theorem Change.reconciles {snapshot : ValidSnapshot}
    (hc : Change cfg (.reconcile snapshot) log x s s') (ho : o ∈ snapshot.orders) :
    Reconciled o s' ∧ ∃ a, Classified log o.id a := by
  cases hc with
  | @reconciled _ s₁ _ d₁ d₂ d₃ _ _ _ t loop details rows hrun hturns hdetails hrows =>
    refine ⟨hturns.reconciles snapshot.valid snapshot.distinct ho, ?_⟩
    obtain ⟨d, hd, hid, -⟩ := hturns.loopLog.recorded.2 o ho
    exact ⟨d.action, (classified_iff hturns hdetails (by simp) (by simp) (by simp)).mpr
      ⟨d, hd, hid, rfl⟩⟩

/-- **A reconciled entry stays so**, and no later run of the snapshot touches its order. -/
theorem Change.keeps_reconciled (hs : s.Keyed) (hc : Change cfg c log x s s')
    (hS : ∀ snapshot, c = .reconcile snapshot → snapshot.orders = S.orders) (ho : o ∈ S.orders)
    (hr : Reconciled o s) : Reconciled o s' ∧ ∀ snapshot, c = .reconcile snapshot →
      Untouched log o.id ∧ ∀ a, Classified log o.id a → a ≠ .repaired := by
  cases hc with
  | @applied _ _ d d₁ _ d₃ d₄ d₅ _ _ _ _ _ isNew _ event order status amount hev hclaim hopen hmap
      hseq =>
    refine ⟨?_, by simp⟩
    have hid' : (order.applied status event.sequence amount
      (event.payload.data.bind PaymentWebhookData.currency) d₃).id = event.orderId := hopen.id_eq
    rw [Reconciled, Store.putEvent_order?, Store.addHistory_order?, Store.order?_putOrder hs, hid']
    by_cases hid : o.id = event.orderId
    · rw [if_pos hid]
      refine ⟨_, rfl, classify_of_lt ?_⟩
      obtain ⟨row, hrow, hclass⟩ := hr
      cases hopen with
      | fresh hno =>
        rw [hid, hno] at hrow
        cases hrow
      | found hfound =>
        rw [hid] at hrow
        obtain rfl : order = row := Option.some.inj (hfound.symm.trans hrow)
        exact (sequence_le_of_classify hclass).trans_lt hseq
    · rw [if_neg hid]
      exact hr
  | @ignored _ _ d d₁ _ d₄ d₅ _ _ _ _ isNew _ event order reason hev hclaim hopen hreason =>
    refine ⟨?_, by simp⟩
    rw [Reconciled, Store.putEvent_order?, Store.addHistory_order?, Store.order?_putOrder hs,
      hopen.id_eq]
    by_cases hid : o.id = event.orderId
    · rw [if_pos hid]
      obtain ⟨row, hrow, hclass⟩ := hr
      cases hopen with
      | fresh hno =>
        rw [hid, hno] at hrow
        cases hrow
      | found hfound =>
        rw [hid] at hrow
        obtain rfl : order = row := Option.some.inj (hfound.symm.trans hrow)
        exact ⟨order, rfl, hclass⟩
    · rw [if_neg hid]
      exact hr
  | @reconciled _ s₁ snapshot d₁ d₂ d₃ _ _ _ t loop details rows hrun hturns hdetails hrows =>
    have hid : ∀ o' ∈ snapshot.orders, o'.id = o.id → o' = o := by
      rw [hS snapshot rfl]
      exact S.eq_of_id ho
    obtain ⟨hr', hu, ht⟩ := hturns.keeps hid hr
    refine ⟨hr', fun _ _ => ⟨?_, fun a ha => ?_⟩⟩
    · have hdet := hdetails.untouched o.id
      intro e he
      simp only [List.mem_cons, List.mem_append, List.not_mem_nil, or_false] at he
      rcases he with rfl | rfl | (he | he) | rfl
      · simp [touchedOrder?]
      · simp [touchedOrder?]
      · exact hu e he
      · exact hdet e he
      · simp [touchedOrder?]
    · obtain ⟨d, hd, hid, rfl⟩ :=
        (classified_iff hturns hdetails (by simp) (by simp) (by simp)).mp ha
      exact ht (by simp [Tally.Spares, Tally.empty]) d hd hid
  | _ => exact ⟨hr, by simp⟩

end Changes

/-! ## Every run of the system -/

section Reachable

variable [Platform] {cfg : WorkerConfig} {db₀ : Store} {w : State} {S : ValidSnapshot}

/-- Session `i` runs a reconciliation. -/
def Reconciles (w : State) (i : ℕ) : Prop := ∃ snapshot, Called w i (.reconcile snapshot)

/-- What a run that is committed after another one says of an order, and does to it. -/
structure RepairsNothing (log : Log) (id : String) : Prop where
  untouched : Untouched log id
  action : ∀ a, Classified log id a → a = .alreadyOk ∨ a = .staleProviderSnapshot

/-- The committed runs of a snapshot have reconciled its entries; of two runs the later one has
repaired nothing. -/
theorem Reach.reconciled (h₀ : db₀.Keyed) (h : Reach cfg db₀ w)
    (hS : ∀ i snapshot, Called w i (.reconcile snapshot) → snapshot.orders = S.orders)
    {o : ProviderOrder} (ho : o ∈ S.orders) :
    (∀ c ∈ w.journal, Reconciles w c.1 → Reconciled o w.db ∧ ∃ a, Classified c.2 o.id a) ∧
      w.journal.Pairwise fun c c' => Reconciles w c.1 → Reconciles w c'.1 →
        RepairsNothing c'.2 o.id := by
  refine h.changes_induction (P := fun journal s =>
    (∀ c ∈ journal, Reconciles w c.1 → Reconciled o s ∧ ∃ a, Classified c.2 o.id a) ∧
      journal.Pairwise fun c c' => Reconciles w c.1 → Reconciles w c'.1 →
        RepairsNothing c'.2 o.id) h₀ (by simp) ?_
  intro journal s s' i c log x hcall hs hP hchange
  have hcalls : ∀ snapshot, c = .reconcile snapshot → snapshot.orders = S.orders := by
    rintro snapshot rfl
    exact hS i snapshot hcall
  have hself : Reconciles w i → ∃ snapshot, c = .reconcile snapshot := by
    rintro ⟨snapshot, sess, hsess, hsnapshot⟩
    obtain ⟨sess', hsess', rfl⟩ := hcall
    obtain rfl : sess = sess' := Option.some.inj (hsess.symm.trans hsess')
    exact ⟨snapshot, hsnapshot⟩
  refine ⟨fun c' hc' hrec => ?_, List.pairwise_append.mpr ⟨hP.2, by simp, fun c' hc' c'' hc'' => ?_⟩⟩
  · rcases List.mem_append.mp hc' with hc' | hc'
    · obtain ⟨hr, ha⟩ := hP.1 c' hc' hrec
      exact ⟨(hchange.keeps_reconciled hs hcalls ho hr).1, ha⟩
    · obtain rfl := List.mem_singleton.mp hc'
      obtain ⟨snapshot, rfl⟩ := hself hrec
      exact hchange.reconciles ((hcalls snapshot rfl).symm ▸ ho)
  · intro hrec hrec'
    obtain rfl := List.mem_singleton.mp hc''
    obtain ⟨snapshot, hsnapshot⟩ := hself hrec'
    obtain ⟨hu, ha⟩ := (hchange.keeps_reconciled hs hcalls ho (hP.1 c' hc' hrec).1).2 snapshot
      hsnapshot
    refine ⟨hu, fun a hclass => ?_⟩
    have hne := ha a hclass
    cases a with
    | repaired => exact absurd rfl hne
    | alreadyOk => exact .inl rfl
    | staleProviderSnapshot => exact .inr rfl

/-- Only a reconciliation answers as one. -/
theorem CommitLog.of_reconciled {c : Call} {log : Log} {r : ReconciliationRunResult}
    (h : CommitLog cfg c log (some (.reconciled r))) :
    ∃ snapshot x, ReconciliationLog snapshot log x ∧ x = some r := by
  generalize hx : some (Answer.reconciled r) = x at h
  cases h with
  | @reconcile snapshot _ x h =>
    obtain ⟨r', rfl, hr⟩ := Option.map_eq_some_iff.mp hx.symm
    obtain rfl : r' = r := by simpa using hr
    exact ⟨_, _, h, rfl⟩
  | @ingest _ _ x h => cases x <;> simp at hx
  | @processOne _ _ x h => cases x <;> simp at hx
  | @replay _ _ x h => cases x <;> simp at hx

/-- The details that a run answers are what it has recorded. -/
theorem Reach.classified_answer (h₀ : db₀.Keyed) (h : Reach cfg db₀ w) {i : ℕ}
    {s : Session postgres Call Answer} {r : ReconciliationRunResult} (hs : w.sessions i = some s)
    (hp : s.prog = .done (.reconciled r)) : ∃ log, w.commitsOf i = [log] ∧
      ∀ d ∈ r.details, Classified log d.orderId d.action := by
  obtain ⟨log, hl, hlog⟩ := h.answered h₀ hs hp
  refine ⟨log, hl, fun d hd => ?_⟩
  obtain ⟨snapshot, x, hx, hr⟩ := hlog.of_reconciled
  obtain @⟨d₁, d₂, d₃, w₁, w₂, w₃, run, finished, t, loop, details, hloop, hdetails⟩ := hx
  obtain ⟨finished, rfl, rfl⟩ := Option.map_eq_some_iff.mp hr
  obtain ⟨e, he, hstmt⟩ := (hdetails.stmt_iff (detailValues run.id d)).mpr ⟨d, hd, rfl⟩
  exact ⟨e, by simp [he], _, hstmt, rfl, rfl⟩

end Reachable

end PaymentWebhook
