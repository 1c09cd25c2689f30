import PaymentWebhook.Consumption
import PaymentWebhook.Entries
import PaymentWebhook.Identities
import PaymentWebhook.Requests

set_option relaxedAutoImplicit false
set_option autoImplicit false

/-!
# What PostgreSQL accepts of a snapshot

The checks of `validate` against the columns that a reconciliation writes.  An accepted entry meets
all of them but one: its id may contain U+0000, which no text column holds.

## Main definitions

* `PaymentWebhook.Stmt.Accepted` — PostgreSQL executes the statement.
* `PaymentWebhook.ProviderOrder.Storable` — the id can be stored.
* `PaymentWebhook.ValidSnapshot.Storable` — all of them can, and the entries can be counted.

## Main results

* `PaymentWebhook.ReconciliationAsks.accepted` — every statement of a reconciliation of a storable
  snapshot is accepted.
-/

namespace PaymentWebhook

open Transactions

/-! ## Storable snapshots -/

/-- PostgreSQL can store the id. -/
def ProviderOrder.Storable (o : ProviderOrder) : Prop := textFits o.id = true

/-- **A storable snapshot**: all ids can be stored, and an `INTEGER` counts the entries. -/
structure ValidSnapshot.Storable (snapshot : ValidSnapshot) : Prop where
  orders : ∀ o ∈ snapshot.orders, o.Storable
  length : snapshot.orders.length ≤ 2147483647

section Columns

/-- A text has no more characters than code units. -/
theorem length_le_jsLength (s : List Char) : s.length ≤ jsLength s := by
  induction s with
  | nil => exact le_rfl
  | cons c s ih =>
    have hunits : 1 ≤ utf16Units c := by
      unfold utf16Units
      split <;> omega
    simp only [jsLength, List.map_cons, List.sum_cons, List.length_cons] at ih ⊢
    omega

variable {o : ProviderOrder}

/-- The length of an accepted id is right for its columns. -/
theorem ProviderOrder.Valid.id_fits_iff (h : o.Valid) : varcharFits 255 o.id = true ↔ o.Storable := by
  have hlength : o.id.length ≤ 255 := by
    have := length_le_jsLength o.id.toList
    have hid := h.id_length
    rw [String.length_toList] at this
    omega
  simp [varcharFits, hlength, ProviderOrder.Storable]

theorem ProviderOrder.Valid.sequence_fits (h : o.Valid) : int4Fits o.sequence = true := by
  have := h.sequence_nonneg
  have := h.sequence_le
  simp only [int4Fits, Bool.and_eq_true, decide_eq_true_iff]
  omega

/-- An accepted amount is a `NUMERIC(12,2)`. -/
theorem ProviderOrder.Valid.amount_fits (h : o.Valid) :
    ∃ amount, numericIn o.amount = some amount ∧ numericFits amount = true :=
  let ⟨amount, hin, hfits, _⟩ := normalizeAmount_numericText h.amount
  ⟨amount, hin, hfits⟩

/-- An accepted currency is a `VARCHAR(3)`. -/
theorem ProviderOrder.Valid.currency_fits (h : o.Valid) : varcharFits 3 o.currency = true := by
  have hcurrency := h.currency
  simp only [currencyRegex, Bool.and_eq_true, decide_eq_true_iff, List.all_eq_true] at hcurrency
  obtain ⟨hlength, hletters⟩ := hcurrency
  rw [String.length_toList] at hlength
  simp only [varcharFits, textFits, hlength, le_refl, decide_true, Bool.true_and, List.all_eq_true,
    decide_eq_true_iff]
  intro c hc hzero
  subst hzero
  exact absurd (hletters _ hc) (by decide)

end Columns

/-! ## Statements that are accepted -/

/-- **PostgreSQL executes the statement**: it meets all constraints. -/
def Stmt.Accepted [Platform] (q : Stmt) (d : Draws) (s : Store) : Prop :=
  ∀ skip, ∃ rows ws, exec q d skip s = .ok (rows, ws)

section Accepted

variable [Platform] {s : Store} {d : Draws} {o : ProviderOrder}

omit [Platform] in
/-- An insertion that meets the constraints. -/
theorem insertRow_accepted {α : Type} {r : Row} {rows : α} (hfits : r.fits = true)
    (hfree : ∀ k ∈ r.keys, s.look k = none) (hrefs : ∀ k ∈ r.refs, (s.look k).isSome) :
    ∃ rows' ws, s.insertRow r rows = .ok (rows', ws) :=
  ⟨rows, _, insertRow_ok.mpr ⟨insertable_ok.mpr ⟨hfits, hfree, hrefs⟩, rfl, rfl⟩⟩

omit [Platform] in
/-- An update whose new row meets the checks. -/
theorem updateRow_accepted {α ρ : Type} {mk : ρ → Row} {f : ρ → ρ} {found : ρ → α} {missing : α}
    {r : Option ρ} (h : ∀ x, r = some x → (mk (f x)).fits = true) :
    ∃ rows ws, updateRow mk f found missing r = .ok (rows, ws) := by
  cases r with
  | none => exact ⟨missing, [], rfl⟩
  | some x => exact ⟨_, _, updateRow_ok.mpr (.inr ⟨x, rfl, h x rfl, rfl, rfl⟩)⟩

theorem accepted_insertRun {env : Env} (hgiven : s.All (Row.Given env)) (hnew : d.New env) :
    Stmt.insertRun.Accepted d s := by
  refine fun skip => insertRow_accepted rfl (fun k hk => ?_) (by simp [Row.refs])
  obtain rfl : k = .run d.runId := by simpa [Row.keys, RunRow.keys, runningRun] using hk
  exact hgiven.look_drawn hnew (by simp [Draws.keys])

theorem accepted_insertOrder {id : String} (hid : varcharFits 255 id = true) :
    (Stmt.insertOrder id).Accepted d s := by
  intro skip
  have hfits : (defaultOrder id d).fits = true := by
    simp [OrderRow.fits, defaultOrder, hid, int4Fits]
  simp only [exec, hfits, Bool.true_eq_false, if_false]
  cases ho : s.order? id with
  | some o => exact ⟨false, [], rfl⟩
  | none =>
    refine insertRow_accepted hfits ?_ (by simp [Row.refs])
    simpa [Row.keys, OrderRow.keys, Store.look, defaultOrder] using ho

theorem accepted_reconcileOrder (ho : o.Valid) (hs : s.Fits) :
    (Stmt.reconcileOrder o.id o.status o.sequence (some o.amount) (some o.currency)).Accepted d s := by
  intro skip
  obtain ⟨amount, hin, hamount⟩ := ho.amount_fits
  simp only [exec, numericParam, hin]
  refine updateRow_accepted fun row hrow => ?_
  have hfits := hs.order hrow
  simp only [OrderRow.fits, Bool.and_eq_true] at hfits
  simp [Row.fits, OrderRow.fits, OrderRow.reconciled, hfits.1.1.1.1, ho.sequence_fits,
    ho.sequence_nonneg, hamount, ho.currency_fits]

theorem accepted_insertHistory {env : Env} {previous : Option OrderStatus} (ho : o.Valid)
    (hstorable : o.Storable) (horder : (s.order? o.id).isSome) (hgiven : s.All (Row.Given env))
    (hnew : d.New env) : (Stmt.insertHistory (repairValues o previous)).Accepted d s := by
  intro skip
  simp only [exec, repairValues]
  refine insertRow_accepted ?_ (fun k hk => ?_) ?_
  · simp [Row.fits, HistoryRow.fits, HistoryValues.row, ho.id_fits_iff.mpr hstorable, ho.sequence_fits]
  · obtain rfl : k = .history d.historyId := by
      simpa [Row.keys, HistoryRow.keys, HistoryValues.row] using hk
    exact hgiven.look_drawn hnew (by simp [Draws.keys])
  · simpa [Row.refs, HistoryValues.row, Store.look] using horder

theorem accepted_insertDetail {env : Env} {v : DetailValues} (hid : varcharFits 255 v.orderId = true)
    (hlocal : v.localSequence.all int4Fits = true) (hprovider : int4Fits v.providerSequence = true)
    (hrun : (s.run? v.runId).isSome) (hgiven : s.All (Row.Given env)) (hnew : d.New env) :
    (Stmt.insertDetail v).Accepted d s := by
  refine fun skip => insertRow_accepted ?_ (fun k hk => ?_) ?_
  · simp [Row.fits, DetailRow.fits, DetailValues.row, hid, hlocal, hprovider]
  · obtain rfl : k = .detail d.detailId := by
      simpa [Row.keys, DetailRow.keys, DetailValues.row] using hk
    exact hgiven.look_drawn hnew (by simp [Draws.keys])
  · simpa [Row.refs, DetailValues.row, Store.look] using hrun

theorem accepted_completeRun {id ordersChecked divergences repaired : ℕ}
    (hchecked : ordersChecked ≤ 2147483647) (hdivergences : divergences ≤ 2147483647)
    (hrepaired : repaired ≤ 2147483647) :
    (Stmt.completeRun id ordersChecked divergences repaired).Accepted d s := by
  refine fun skip => updateRow_accepted fun row _ => ?_
  have hint : ∀ n : ℕ, n ≤ 2147483647 → int4Fits n = true := by
    intro n hn
    simp only [int4Fits, Bool.and_eq_true, decide_eq_true_iff]
    omega
  simp [Row.fits, RunRow.fits, RunRow.complete, hint, hchecked, hdivergences, hrepaired]

end Accepted

/-! ## Every statement of a reconciliation is accepted -/

section Asked

variable [Platform] {db : Store} {log : Log} {q : Stmt} {d : Draws} {env : Env} {o : ProviderOrder}

/-- **The statements of a turn are accepted.** -/
theorem TurnAsks.accepted (h : TurnAsks o log q) (ho : o.Valid) (hstorable : o.Storable)
    (hs : db.Keyed) (hfits : db.Fits) (hr : Redoes (E := postgres) log db)
    (hgiven : Store.All (Row.Given env) (install (E := postgres) db log)) (hnew : d.New env) :
    q.Accepted d (install (E := postgres) db log) := by
  cases h with
  | insertOrder => exact accepted_insertOrder (ho.id_fits_iff.mpr hstorable)
  | selectOrder => exact fun skip => ⟨_, _, rfl⟩
  | reconcileOrder => exact accepted_reconcileOrder ho (hfits.install hs hr)
  | @insertHistory d₁ d₂ d₃ w₁ w₂ w₃ isNew m₃ row previous =>
    refine accepted_insertHistory ho hstorable ?_ hgiven hnew
    -- the order has been opened, and updated
    obtain ⟨hopen, hrest, he⟩ := redoes_openOrder hs hr
    have hrow : (db.putOrder row).order? o.id = some row := by
      rw [Store.order?_putOrder hs, if_pos hopen.id_eq.symm]
    obtain ⟨amount, -, -, hput⟩ := redoes_reconcileOrder hrow hrest.1
    rw [he]
    show ((w₃.foldl Store.apply (db.putOrder row)).order? o.id).isSome
    rw [hput, Store.order?_putOrder (hs.putOrder row), if_pos]
    · rfl
    · exact hopen.id_eq.symm

omit [Platform] in
/-- A detail can be stored. -/
theorem detailOf_fits (ho : o.Valid) (hstorable : o.Storable) {row : OrderRow} (hrow : row.fits = true)
    (isNew : Bool) : varcharFits 255 (detailOf o row isNew).orderId = true ∧
      (detailOf o row isNew).localSequence.all int4Fits = true ∧
      int4Fits (detailOf o row isNew).providerSequence = true := by
  simp only [OrderRow.fits, Bool.and_eq_true] at hrow
  refine ⟨ho.id_fits_iff.mpr hstorable, ?_, ho.sequence_fits⟩
  simp only [detailOf]
  split
  · rfl
  · exact hrow.1.1.1.2

variable {snapshot : ValidSnapshot} {t : Tally}

/-- **What the loop has counted**: one detail for each entry, all of which can be stored. -/
theorem tally_of_redoes (hstorable : ∀ o ∈ snapshot.orders, o.Storable) (hs : db.Keyed) (hfits : db.Fits)
    (h : LoopLog snapshot.orders Tally.empty log t) (hr : Redoes (E := postgres) log db) :
    t.details.length = snapshot.orders.length ∧ t.Counts ∧
      ∀ x ∈ t.details, varcharFits 255 x.orderId = true ∧ x.localSequence.all int4Fits = true ∧
        int4Fits x.providerSequence = true := by
  obtain ⟨xs, rfl, -, -, hxs⟩ :=
    (turns_of_redoes h hs hr).settles snapshot.valid snapshot.distinct
  obtain ⟨hdetails, hcounts⟩ := Tally.foldl_push (xs.map Settlement.detail) Tally.Counts.empty
  rw [Tally.empty, List.nil_append] at hdetails
  refine ⟨by rw [Tally.empty, hdetails, List.length_map, hxs.length_eq], hcounts, fun x hx => ?_⟩
  rw [Tally.empty, hdetails] at hx
  obtain ⟨y, hy, rfl⟩ := List.mem_map.mp hx
  obtain ⟨o, ho, -, hsettles⟩ := exists_of_forall₂ hxs.flip hy
  have hvalid := snapshot.valid o ho
  have hid := hstorable o ho
  cases hsettles with
  | kept hbefore _ => exact detailOf_fits hvalid hid (hfits.order hbefore) false
  | repaired hbefore _ _ => exact detailOf_fits hvalid hid (hfits.order hbefore) false
  | created _ _ =>
    refine detailOf_fits hvalid hid ?_ true
    simp [OrderRow.fits, defaultOrder, hvalid.id_fits_iff.mpr hid, int4Fits]

/-- The run that a reconciliation has inserted is there until its end. -/
theorem run?_of_redoes {s : Store} {runId : ℕ} {details : List ReconciliationDetail} {log' : Log}
    {orders : List ProviderOrder} {t : Tally} (hs : s.Keyed) (h : LoopLog orders Tally.empty log t)
    (hdetails : DetailsLog runId details log') (hr : Redoes (E := postgres) (log ++ log') s) :
    Store.runs (install (E := postgres) s (log ++ log')) = s.runs := by
  obtain ⟨hloop, htail⟩ := (redoes_append _ _ _).mp hr
  obtain ⟨rows, -, he⟩ := redoes_details hdetails htail
  rw [install_append, he]
  exact (turns_of_redoes h hs hloop).runs_eq

/-- **The statements of a reconciliation are accepted**, if the ids can be stored and the last
statement can count the entries. -/
theorem ReconciliationAsks.accepted (h : ReconciliationAsks snapshot.orders log q)
    (hstorable : ∀ o ∈ snapshot.orders, o.Storable)
    (hlength : (∃ runId n m r, q = .completeRun runId n m r) → snapshot.orders.length ≤ 2147483647)
    (hs : db.Keyed) (hfits : db.Fits)
    (hr : Redoes (E := postgres) log db)
    (hgiven : Store.All (Row.Given env) (install (E := postgres) db log)) (hnew : d.New env) :
    q.Accepted d (install (E := postgres) db log) := by
  have hopening : ∀ {d₁ d₂ : Draws} {w₁ w₂ : List Write} {run : RunRow} {log : Log},
      Redoes (E := postgres) (⟨.advisoryLock, d₁, (), w₁⟩ :: ⟨.insertRun, d₂, run, w₂⟩ :: log) db →
      ({ db with runs := db.runs ++ [runningRun d₂] } : Store).Fits := by
    intro d₁ d₂ w₁ w₂ run log hr
    have hopened : Redoes (E := postgres)
        [⟨.advisoryLock, d₁, (), w₁⟩, ⟨.insertRun, d₂, run, w₂⟩] db := ⟨hr.1, hr.2.1, trivial⟩
    have hfits' := hfits.install hs hopened
    obtain ⟨rfl, -, -, -, he⟩ := redoes_opening hs hopened
    rw [he] at hfits'
    exact hfits'
  cases h with
  | advisoryLock => exact fun skip => ⟨_, _, rfl⟩
  | insertRun => exact accepted_insertRun hgiven hnew
  | @turn d₁ d₂ w₁ w₂ run past future o t loop part _ horders hloop hq =>
    have ho : o ∈ snapshot.orders := by simp [horders]
    obtain ⟨rfl, -, hkeyed, hrest, he⟩ := redoes_opening hs hr
    obtain ⟨hloop', hpart⟩ := (redoes_append _ _ _).mp hrest
    rw [he, install_append] at hgiven ⊢
    exact hq.accepted (snapshot.valid o ho) (hstorable o ho)
      (locality.inv_install hkeyed hloop') ((hopening hr).install hkeyed hloop') hpart hgiven hnew
  | @insertDetail d₁ d₂ w₁ w₂ run t loop details past future detail hloop hsplit hdetails =>
    obtain ⟨rfl, hrun, hkeyed, hrest, he⟩ := redoes_opening hs hr
    obtain ⟨-, -, hcolumns⟩ := tally_of_redoes hstorable hkeyed (hopening hr) hloop
      ((redoes_append _ _ _).mp hrest).1
    obtain ⟨hid, hlocal, hprovider⟩ := hcolumns detail (by simp [hsplit])
    rw [he] at hgiven ⊢
    refine accepted_insertDetail hid hlocal hprovider ?_ hgiven hnew
    have hfound := run?_opening hrun (run?_of_redoes hkeyed hloop hdetails hrest)
    exact Option.isSome_iff_exists.mpr ⟨_, hfound⟩
  | @completeRun d₁ d₂ w₁ w₂ run t loop details hloop hdetails =>
    obtain ⟨rfl, -, hkeyed, hrest, he⟩ := redoes_opening hs hr
    obtain ⟨hdetails', hcounts, -⟩ := tally_of_redoes hstorable hkeyed (hopening hr) hloop
      ((redoes_append _ _ _).mp hrest).1
    have htotal := length_eq_counts t.details
    have hbound := hlength ⟨_, _, _, _, rfl⟩
    have hrepaired := hcounts.repaired
    have hstale := hcounts.stale
    exact accepted_completeRun hbound (by omega) (by omega)

end Asked

end PaymentWebhook
