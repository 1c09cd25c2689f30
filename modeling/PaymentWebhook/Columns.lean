import PaymentWebhook.System

set_option relaxedAutoImplicit false
set_option autoImplicit false

/-!
# Column domains

Every stored row meets the domains and checks of its columns: a statement writes no other row.

## Main definitions

* `PaymentWebhook.Store.All` — all rows of a store have a property.
* `PaymentWebhook.Store.Fits` — all rows of a store meet the checks of their columns.

## Main results

* `PaymentWebhook.exec_fits` — a statement writes only rows that meet them.
* `PaymentWebhook.Reach.fits` — so do all rows of a reachable store.
-/

namespace PaymentWebhook

open Transactions

/-- All rows of the store have a property. -/
def Store.All (P : Row → Prop) (s : Store) : Prop := ∀ k r, s.look k = some r → P r

/-- All rows of the store meet the checks of their columns. -/
def Store.Fits (s : Store) : Prop := s.All fun r => r.fits = true

section Writes

variable {P : Row → Prop} {s : Store} {w : Write} {ws : List Write}

/-- In the empty store all rows have every property. -/
theorem Store.all_empty : Store.empty.All P := by
  intro k r h
  cases k <;> simp [Store.look, Store.empty, Store.event?, Store.eventAt?, Store.order?, Store.run?] at h

/-- Writing a row that has the property. -/
theorem Store.All.apply (h : s.All P) (hs : s.Keyed) (hw : s.Admits w) (hP : P w.row) :
    (s.apply w).All P := by
  intro k r hk
  rw [Store.look_apply hs hw] at hk
  split at hk
  · obtain rfl := Option.some.inj hk
    exact hP
  · exact h k r hk

/-- Writing rows that have the property. -/
theorem Store.All.applyAll (h : s.All P) (hs : s.Keyed) (hws : s.AdmitsAll ws)
    (hP : ∀ w ∈ ws, P w.row) : (ws.foldl Store.apply s).All P := by
  induction ws generalizing s with
  | nil => exact h
  | cons w ws ih =>
    exact ih (h.apply hs hws.1 (hP w (.head _))) (hs.apply hws.1) hws.2
      fun w' hw' => hP w' (.tail _ hw')

/-- An order that is found meets its checks. -/
theorem Store.Fits.order (h : s.Fits) {id : String} {o : OrderRow} (ho : s.order? id = some o) :
    o.fits = true :=
  h (.order id) (.order o) (by simp [Store.look, ho])

/-- An insertion writes a row that meets its checks. -/
theorem fits_insertRow {α : Type} {r : Row} {a x : α} (h : s.insertRow r a = .ok (x, ws)) :
    ∀ w ∈ ws, w.row.fits = true := by
  obtain ⟨hi, -, rfl⟩ := insertRow_ok.mp h
  simpa [Write.row] using (insertable_ok.mp hi).1

/-- An update writes a row that meets its checks. -/
theorem fits_updateRow {α ρ : Type} {mk : ρ → Row} {f : ρ → ρ} {found : ρ → α} {missing x : α}
    {o : Option ρ} (h : updateRow mk f found missing o = .ok (x, ws)) :
    ∀ w ∈ ws, w.row.fits = true := by
  obtain ⟨-, -, rfl⟩ | ⟨r, -, hfits, -, rfl⟩ := updateRow_ok.mp h
  · simp
  · simpa [Write.row] using hfits

end Writes

variable [Platform] {s : Store} {ws : List Write}

/-- **A statement writes only rows that meet the checks of their columns.** -/
theorem exec_fits {q : Stmt} {d : Draws} {skip : Key → Bool} {rows : q.Rows}
    (h : exec q d skip s = .ok (rows, ws)) : ∀ w ∈ ws, w.row.fits = true := by
  cases q with
  | upsertAndDeliver p b =>
    obtain ⟨occurredAt, evt, w, -, -, hu, -, hi, rfl⟩ := upsertAndDeliver_ok.mp h
    have hdelivery := (insertable_ok.mp hi).1
    obtain ⟨hrow, ⟨-, -, -, rfl⟩ | ⟨old, -, -, hevt, rfl⟩⟩ := upsert_ok.mp hu
    · simpa [Write.row] using ⟨hrow, hdelivery⟩
    · simpa [Write.row] using ⟨hevt, hdelivery⟩
  | claim =>
    obtain ⟨-, rfl⟩ : _ ∧ ws = [] := by simpa [exec, eq_comm] using h
    simp
  | insertOrder id =>
    simp only [exec] at h
    split at h
    · cases h
    · split at h
      · obtain ⟨-, rfl⟩ : _ ∧ ws = [] := by simpa [eq_comm] using h
        simp
      · exact fits_insertRow h
  | selectOrder id =>
    obtain ⟨-, rfl⟩ : _ ∧ ws = [] := by simpa [exec, eq_comm] using h
    simp
  | applyToOrder id status seq amount currency =>
    simp only [exec] at h
    split at h
    · exact fits_updateRow h
    · cases h
  | insertHistory v =>
    simp only [exec] at h
    split at h
    · exact fits_insertRow h
    · cases h
  | selectEvent id =>
    obtain ⟨-, rfl⟩ : _ ∧ ws = [] := by simpa [exec, eq_comm] using h
    simp
  | advisoryLock =>
    obtain rfl : ws = [] := by simpa [exec, eq_comm] using h
    simp
  | insertRun => exact fits_insertRow h
  | reconcileOrder id status seq amount currency =>
    simp only [exec] at h
    split at h
    · exact fits_updateRow h
    · cases h
  | insertDetail v => exact fits_insertRow h
  | markApplied id =>
    simp only [exec] at h
    exact fits_updateRow h
  | markIgnored id reason =>
    simp only [exec] at h
    exact fits_updateRow h
  | markDlq id n error =>
    simp only [exec] at h
    exact fits_updateRow h
  | markRetryScheduled id n next error =>
    simp only [exec] at h
    exact fits_updateRow h
  | replayEvent id => exact fits_updateRow h
  | completeRun id checked divergences repaired => exact fits_updateRow h

/-- Installing a log that has written rows with the property only. -/
theorem Store.All.install {P : Row → Prop} {log : Log} (h : s.All P) (hs : s.Keyed)
    (hr : Redoes (E := postgres) log s) (hP : ∀ e ∈ log, ∀ w ∈ e.writes, P (Write.row w)) :
    (install (E := postgres) s log : Store).All P := by
  induction log generalizing s with
  | nil => exact h
  | cons e log ih =>
    refine ih ?_ (locality.inv_entry hs hr.1) hr.2 fun e' he' => hP e' (.tail _ he')
    rcases hr.1 with ⟨-, hw⟩ | ⟨skip, hx⟩
    · simpa [hw] using h
    · exact h.applyAll hs (exec_admits hs hx) (hP e (.head _))

/-- A log that can be redone has written only rows that meet the checks. -/
theorem fits_redoes {log : Log} (hr : Redoes (E := postgres) log s) :
    ∀ e ∈ log, ∀ w ∈ e.writes, (Write.row w).fits = true := by
  induction log generalizing s with
  | nil => simp
  | cons e log ih =>
    intro e' he' w hw
    rcases List.mem_cons.mp he' with rfl | he'
    · rcases hr.1 with ⟨-, hnone⟩ | ⟨skip, hx⟩
      · rw [hnone] at hw
        cases hw
      · exact exec_fits hx w hw
    · exact ih hr.2 e' he' w hw

/-- Redoing a log keeps the checks. -/
theorem Store.Fits.install {log : Log} (h : s.Fits) (hs : s.Keyed)
    (hr : Redoes (E := postgres) log s) : (install (E := postgres) s log : Store).Fits :=
  Store.All.install h hs hr (fits_redoes hr)

/-- **All rows of a reachable store meet the checks of their columns.** -/
theorem Reach.fits {cfg : WorkerConfig} {w : State} (h : Reach cfg .empty w) : w.db.Fits :=
  h.commits_induction (P := fun _ db => db.Fits) Store.keyed_empty Store.all_empty
    fun _ _ _ _ _ _ _ hdb hfits _ hredo => hfits.install hdb hredo

end PaymentWebhook
