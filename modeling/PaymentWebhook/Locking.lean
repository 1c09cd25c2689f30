import PaymentWebhook.Statements

set_option relaxedAutoImplicit false
set_option autoImplicit false

/-!
# The statements are local to the rows they lock

The library reduces serializability of the interleaved system to one property of the statement
language: a statement reads and writes only what it locks.  Here it is shown for the SQL
statements of the service.

## Main definitions

* `PaymentWebhook.locality` — the statements are local to the keys they lock.

## Main results

* `PaymentWebhook.exec_admits` — what a statement writes meets the unique constraints.
* `PaymentWebhook.exec_transfer` — a statement gives the same answer on a store that agrees on
  the keys it locks.
-/

namespace PaymentWebhook

open Transactions

/-! ## Inversion of insertions and updates -/

/-- An admitted insertion: the row fits, its keys are free and its references are there. -/
theorem insertable_ok {s : Store} {r : Row} :
    s.insertable r = .ok () ↔ r.fits = true ∧ (∀ k ∈ r.keys, s.look k = none) ∧
      ∀ k ∈ r.refs, (s.look k).isSome := by
  unfold Store.insertable
  split
  · rename_i h
    simp [h]
  · rename_i h
    simp only [Bool.not_eq_false] at h
    split
    · rename_i k hk
      have hmem := List.mem_of_find?_eq_some hk
      have hsome := List.find?_some hk
      simp only [reduceCtorEq, false_iff, not_and]
      rintro - hfree
      rw [hfree k hmem] at hsome
      simp at hsome
    · rename_i hnone
      simp only [List.find?_eq_none, Bool.not_eq_true, Option.isSome_eq_false_iff,
        Option.isNone_iff_eq_none] at hnone
      by_cases href : r.refs.all (fun k => (s.look k).isSome) = true
      · simp only [href, if_true, true_iff]
        exact ⟨h, hnone, fun k hk => List.all_eq_true.mp href k hk⟩
      · simp only [href, Bool.false_eq_true, if_false, reduceCtorEq, false_iff, not_and]
        exact fun _ _ hall => href (List.all_eq_true.mpr hall)

theorem insertRow_ok {α : Type} {s : Store} {r : Row} {a x : α} {ws : List Write} :
    s.insertRow r a = .ok (x, ws) ↔ s.insertable r = .ok () ∧ x = a ∧ ws = [.insert r] := by
  unfold Store.insertRow
  cases s.insertable r with
  | error e => simp [Except.map]
  | ok u => simp [Except.map, eq_comm]

theorem updateRow_ok {α ρ : Type} {mk : ρ → Row} {f : ρ → ρ} {found : ρ → α} {missing x : α}
    {o : Option ρ} {ws : List Write} :
    updateRow mk f found missing o = .ok (x, ws) ↔
      (o = none ∧ x = missing ∧ ws = []) ∨
      ∃ r, o = some r ∧ (mk (f r)).fits = true ∧ x = found (f r) ∧ ws = [.update (mk (f r))] := by
  cases o with
  | none =>
    simp only [updateRow, Except.ok.injEq, Prod.mk.injEq, true_and, reduceCtorEq, false_and,
      exists_false, or_false]
    exact ⟨fun h => ⟨h.1.symm, h.2.symm⟩, fun h => ⟨h.1.symm, h.2.symm⟩⟩
  | some r =>
    simp only [updateRow, reduceCtorEq, false_and, false_or, Option.some.injEq, exists_eq_left']
    split
    · rename_i h
      simp only [Except.ok.injEq, Prod.mk.injEq, h, true_and]
      exact ⟨fun h => ⟨h.1.symm, h.2.symm⟩, fun h => ⟨h.1.symm, h.2.symm⟩⟩
    · rename_i h
      simp [h]

/-! ## What is written meets the unique constraints -/

section Admits

variable {s : Store}

theorem Store.mem_of_event? {e : EventRow} {eid : String} (h : s.event? eid = some e) :
    e ∈ s.events ∧ e.eventId = eid := by
  obtain ⟨h1, h2⟩ := Tables.mem_of_find h
  exact ⟨h1, by simpa [EventRow.keys, eq_comm] using h2⟩

theorem Store.mem_of_eventAt? {e : EventRow} {n : ℕ} (h : s.eventAt? n = some e) :
    e ∈ s.events ∧ e.id = n := by
  obtain ⟨h1, h2⟩ := Tables.mem_of_find h
  exact ⟨h1, by simpa [EventRow.keys, eq_comm] using h2⟩

theorem Store.mem_of_order? {o : OrderRow} {oid : String} (h : s.order? oid = some o) :
    o ∈ s.orders ∧ o.id = oid := by
  obtain ⟨h1, h2⟩ := Tables.mem_of_find h
  exact ⟨h1, by simpa [OrderRow.keys, eq_comm] using h2⟩

theorem Store.mem_of_run? {r : RunRow} {n : ℕ} (h : s.run? n = some r) :
    r ∈ s.runs ∧ r.id = n := by
  obtain ⟨h1, h2⟩ := Tables.mem_of_find h
  exact ⟨h1, by simpa [RunRow.keys, eq_comm] using h2⟩

theorem Store.Keyed.event?_eq (hs : s.Keyed) {e : EventRow} (he : e ∈ s.events) :
    s.event? e.eventId = some e := hs.events.find_eq he (by simp [EventRow.keys])

theorem Store.Keyed.eventAt?_eq (hs : s.Keyed) {e : EventRow} (he : e ∈ s.events) :
    s.eventAt? e.id = some e := hs.events.find_eq he (by simp [EventRow.keys])

theorem Store.Keyed.order?_eq (hs : s.Keyed) {o : OrderRow} (ho : o ∈ s.orders) :
    s.order? o.id = some o := hs.orders.find_eq ho (by simp [OrderRow.keys])

theorem Store.Keyed.run?_eq (hs : s.Keyed) {r : RunRow} (hr : r ∈ s.runs) :
    s.run? r.id = some r := hs.runs.find_eq hr (by simp [RunRow.keys])

theorem admits_updateEvent (hs : s.Keyed) {e e' : EventRow} (he : e ∈ s.events)
    (hk : e'.keys = e.keys) : s.Admits (.update (.event e')) := by
  refine ⟨.event e, hk.symm, ?_⟩
  rw [Row.keys, hk]
  simp [EventRow.keys, Store.look, hs.event?_eq he, hs.eventAt?_eq he]

theorem admits_updateOrder (hs : s.Keyed) {o o' : OrderRow} (ho : o ∈ s.orders)
    (hk : o'.keys = o.keys) : s.Admits (.update (.order o')) := by
  refine ⟨.order o, hk.symm, ?_⟩
  rw [Row.keys, hk]
  simp [OrderRow.keys, Store.look, hs.order?_eq ho]

theorem admits_updateRun (hs : s.Keyed) {r r' : RunRow} (hr : r ∈ s.runs)
    (hk : r'.keys = r.keys) : s.Admits (.update (.run r')) := by
  refine ⟨.run r, hk.symm, ?_⟩
  rw [Row.keys, hk]
  simp [RunRow.keys, Store.look, hs.run?_eq hr]

/-- Inserting a row whose constraints have been checked. -/
theorem admitsAll_insertRow {α : Type} {r : Row} {a x : α} {ws : List Write}
    (h : s.insertRow r a = .ok (x, ws)) : s.AdmitsAll ws := by
  obtain ⟨hi, -, rfl⟩ := insertRow_ok.mp h
  exact ⟨(insertable_ok.mp hi).2.1, trivial⟩

theorem admitsAll_updateEvent (hs : s.Keyed) {α : Type} {f : EventRow → EventRow}
    {found : EventRow → α} {missing x : α} {n : ℕ} {ws : List Write}
    (hf : ∀ e, (f e).keys = e.keys)
    (h : updateRow .event f found missing (s.eventAt? n) = .ok (x, ws)) : s.AdmitsAll ws := by
  obtain ⟨-, -, rfl⟩ | ⟨e, he, -, -, rfl⟩ := updateRow_ok.mp h
  · trivial
  · exact ⟨admits_updateEvent hs (Store.mem_of_eventAt? he).1 (hf e), trivial⟩

theorem admitsAll_updateOrder (hs : s.Keyed) {α : Type} {f : OrderRow → OrderRow}
    {found : OrderRow → α} {missing x : α} {oid : String} {ws : List Write}
    (hf : ∀ o, (f o).keys = o.keys)
    (h : updateRow .order f found missing (s.order? oid) = .ok (x, ws)) : s.AdmitsAll ws := by
  obtain ⟨-, -, rfl⟩ | ⟨o, ho, -, -, rfl⟩ := updateRow_ok.mp h
  · trivial
  · exact ⟨admits_updateOrder hs (Store.mem_of_order? ho).1 (hf o), trivial⟩

/-- What the CTE `evt` does: it inserts the proposed row, or counts a delivery of the row that
has its `event_id`. -/
theorem upsert_ok {row evt : EventRow} {w : Write} :
    upsert s row = .ok (evt, w) ↔ row.fits = true ∧
      ((s.event? row.eventId = none ∧ s.insertable (.event row) = .ok () ∧ evt = row ∧
          w = .insert (.event row)) ∨
        ∃ old, s.event? row.eventId = some old ∧
          evt = { old with deliveryCount := old.deliveryCount + 1 } ∧ evt.fits = true ∧
          w = .update (.event evt)) := by
  unfold upsert
  by_cases hfit : row.fits = true
  · simp only [hfit, Bool.true_eq_false, if_false, true_and]
    cases he : s.event? row.eventId with
    | none =>
      cases hi : s.insertable (.event row) with
      | error e => simp [Except.map]
      | ok u =>
        simp only [Except.map, Except.ok.injEq, Prod.mk.injEq, true_and, reduceCtorEq, false_and,
          exists_false, or_false]
        exact ⟨fun h => ⟨h.1.symm, h.2.symm⟩, fun h => ⟨h.1.symm, h.2.symm⟩⟩
    | some old =>
      simp only [reduceCtorEq, false_and, false_or, Option.some.injEq, exists_eq_left']
      by_cases h : ({ old with deliveryCount := old.deliveryCount + 1 } : EventRow).fits = true
      · simp only [h, if_true, Except.ok.injEq, Prod.mk.injEq]
        constructor
        · rintro ⟨rfl, rfl⟩
          exact ⟨rfl, h, rfl⟩
        · rintro ⟨rfl, -, rfl⟩
          exact ⟨rfl, rfl⟩
      · simp only [h, Bool.false_eq_true, if_false, reduceCtorEq, false_iff]
        rintro ⟨rfl, h', -⟩
        exact h h'
  · simp [hfit]

/-- What `UPSERT_AND_DELIVER_SQL` does: the CTE `evt`, and one delivery row classified by what
it returned. -/
theorem upsertAndDeliver_ok [Platform] {p : EventInsertParams} {b : DeliveryBaseParams} {d : Draws}
    {rows : CteRow} {ws : List Write} :
    upsertAndDeliver p b d s = .ok (rows, ws) ↔
      ∃ occurredAt evt w, Platform.timestamptzIn p.occurredAt = some occurredAt ∧
        Platform.jsonbIn p.payload.bytes = true ∧
        upsert s (p.row d.eventId occurredAt) = .ok (evt, w) ∧
        rows = ⟨evt.id, evt.deliveryCount, evt.payloadHash, evt.processingStatus,
          deliveryResult evt.deliveryCount (p.processingStatus = .ignored) evt.payloadHash
            p.payloadHash⟩ ∧
        s.insertable (.delivery (b.row d rows.deliveryResult)) = .ok () ∧
        ws = [w, .insert (.delivery (b.row d rows.deliveryResult))] := by
  unfold upsertAndDeliver
  cases ht : Platform.timestamptzIn p.occurredAt with
  | none => simp
  | some occurredAt =>
    by_cases hj : Platform.jsonbIn p.payload.bytes = true
    · simp only [hj, Bool.true_eq_false, if_false, Option.some.injEq, true_and]
      cases hu : upsert s (p.row d.eventId occurredAt) with
      | error e => simp [hu]
      | ok x =>
        obtain ⟨evt, w⟩ := x
        simp only [Store.insertRow]
        constructor
        · intro h
          refine ⟨occurredAt, evt, w, rfl, hu, ?_⟩
          revert h
          cases hi : s.insertable (.delivery (b.row d (deliveryResult evt.deliveryCount
              (p.processingStatus = .ignored) evt.payloadHash p.payloadHash))) with
          | error e => simp [Except.map]
          | ok u =>
            simp only [Except.map, Except.ok.injEq, Prod.mk.injEq]
            rintro ⟨rfl, rfl⟩
            exact ⟨rfl, hi, rfl⟩
        · rintro ⟨_, evt', w', rfl, hu', rfl, hi, rfl⟩
          rw [hu] at hu'
          obtain ⟨rfl, rfl⟩ : evt = evt' ∧ w = w' := by simpa using hu'
          simp only at hi
          rw [hi]
          rfl
    · simp [hj]

/-- **What a statement writes meets the unique constraints.** -/
theorem exec_admits [Platform] (hs : s.Keyed) {q : Stmt} {d : Draws} {skip : Key → Bool}
    {rows : q.Rows} {ws : List Write} (h : exec q d skip s = .ok (rows, ws)) :
    s.AdmitsAll ws := by
  cases q with
  | upsertAndDeliver p b =>
    obtain ⟨occurredAt, evt, w, -, -, hu, -, hi, rfl⟩ := upsertAndDeliver_ok.mp h
    have hd := (insertable_ok.mp hi).2.1
    obtain ⟨-, ⟨-, hie, -, rfl⟩ | ⟨old, ho, rfl, -, rfl⟩⟩ := upsert_ok.mp hu
    · have hw : s.Admits (.insert (.event _)) := (insertable_ok.mp hie).2.1
      refine ⟨hw, fun k hk => ?_, trivial⟩
      rw [Store.look_apply hs hw, hd k hk, if_neg]
      simp only [Row.keys, DeliveryRow.keys, List.mem_singleton] at hk
      subst hk
      simp [Write.row, Row.keys, EventRow.keys]
    · have hw := admits_updateEvent hs (Store.mem_of_event? ho).1
        (show ({ old with deliveryCount := old.deliveryCount + 1 } : EventRow).keys = old.keys
          from rfl)
      refine ⟨hw, fun k hk => ?_, trivial⟩
      rw [Store.look_apply hs hw, hd k hk, if_neg]
      simp only [Row.keys, DeliveryRow.keys, List.mem_singleton] at hk
      subst hk
      simp [Write.row, Row.keys, EventRow.keys]
  | claim =>
    obtain ⟨-, rfl⟩ : _ ∧ ws = [] := by simpa [exec, eq_comm] using h
    trivial
  | insertOrder id =>
    simp only [exec] at h
    split at h
    · cases h
    · cases ho : s.order? id with
      | some o =>
        rw [ho] at h
        obtain ⟨-, rfl⟩ : _ ∧ ws = [] := by simpa [eq_comm] using h
        trivial
      | none =>
        rw [ho] at h
        exact admitsAll_insertRow h
  | selectOrder id =>
    obtain ⟨-, rfl⟩ : _ ∧ ws = [] := by simpa [exec, eq_comm] using h
    trivial
  | applyToOrder id status seq amount currency =>
    simp only [exec] at h
    split at h
    · exact admitsAll_updateOrder hs (f := (·.applied _ seq _ currency d)) (fun _ => rfl) h
    · cases h
  | insertHistory v =>
    simp only [exec] at h
    split at h
    · exact admitsAll_insertRow h
    · cases h
  | markApplied id =>
    simp only [exec] at h
    exact admitsAll_updateEvent hs (f := (·.applied d)) (fun _ => rfl) h
  | markIgnored id reason =>
    simp only [exec] at h
    exact admitsAll_updateEvent hs (f := (·.ignored reason d)) (fun _ => rfl) h
  | markDlq id n error =>
    simp only [exec] at h
    exact admitsAll_updateEvent hs (f := (·.dlq n error d)) (fun _ => rfl) h
  | markRetryScheduled id n next error =>
    simp only [exec] at h
    exact admitsAll_updateEvent hs (f := (·.retryScheduled n next error)) (fun _ => rfl) h
  | selectEvent id =>
    obtain ⟨-, rfl⟩ : _ ∧ ws = [] := by simpa [exec, eq_comm] using h
    trivial
  | replayEvent id =>
    simp only [exec] at h
    exact admitsAll_updateEvent hs (f := (·.replayed)) (fun _ => rfl) h
  | advisoryLock =>
    obtain rfl : ws = [] := by simpa [exec, eq_comm] using h
    trivial
  | insertRun => exact admitsAll_insertRow h
  | reconcileOrder id status seq amount currency =>
    simp only [exec] at h
    split at h
    · exact admitsAll_updateOrder hs (f := (·.reconciled status seq _ currency d)) (fun _ => rfl) h
    · cases h
  | insertDetail v => exact admitsAll_insertRow h
  | completeRun id checked divergences repaired =>
    obtain ⟨-, -, rfl⟩ | ⟨r, hr, -, -, rfl⟩ := updateRow_ok.mp h
    · trivial
    · exact ⟨admits_updateRun hs (Store.mem_of_run? hr).1 rfl, trivial⟩

end Admits

/-! ## The same answer on a store that agrees on the locked keys -/

section Transfer

variable {s s' : Store}

theorem event?_congr {e : String} (h : s.look (.event e) = s'.look (.event e)) :
    s.event? e = s'.event? e :=
  Option.map_injective (fun _ _ h => by injection h) h

theorem eventAt?_congr {n : ℕ} (h : s.look (.eventPk n) = s'.look (.eventPk n)) :
    s.eventAt? n = s'.eventAt? n :=
  Option.map_injective (fun _ _ h => by injection h) h

theorem order?_congr {o : String} (h : s.look (.order o) = s'.look (.order o)) :
    s.order? o = s'.order? o :=
  Option.map_injective (fun _ _ h => by injection h) h

theorem run?_congr {n : ℕ} (h : s.look (.run n) = s'.look (.run n)) : s.run? n = s'.run? n :=
  Option.map_injective (fun _ _ h => by injection h) h

theorem insertable_congr {r : Row} (hk : ∀ k ∈ r.keys, s.look k = s'.look k)
    (hr : ∀ k ∈ r.refs, s.look k = s'.look k) (h : s.insertable r = .ok ()) :
    s'.insertable r = .ok () := by
  obtain ⟨h1, h2, h3⟩ := insertable_ok.mp h
  exact insertable_ok.mpr
    ⟨h1, fun k hk' => hk k hk' ▸ h2 k hk', fun k hk' => hr k hk' ▸ h3 k hk'⟩

theorem insertRow_congr {α : Type} {r : Row} {a x : α} {ws : List Write}
    (hk : ∀ w ∈ ws, ∀ k ∈ w.row.keys, s.look k = s'.look k)
    (hr : ∀ k ∈ r.refs, s.look k = s'.look k) (h : s.insertRow r a = .ok (x, ws)) :
    s'.insertRow r a = .ok (x, ws) := by
  obtain ⟨hi, rfl, rfl⟩ := insertRow_ok.mp h
  exact insertRow_ok.mpr ⟨insertable_congr (hk (.insert r) (by simp)) hr hi, rfl, rfl⟩

/-- What the worker claims is eligible, not locked, and has the least `id` of all such rows. -/
theorem Store.claimed_some {now : Timestamp} {skip : Key → Bool} {e : EventRow}
    (h : s.claimed now skip = some e) : e ∈ s.events ∧ e.claimable now = true ∧
      (∀ k ∈ e.keys, skip k = false) ∧
      ∀ e' ∈ s.events, e'.claimable now = true → (∀ k ∈ e'.keys, skip k = false) → e.id ≤ e'.id := by
  have hm := List.argmin_mem h
  simp only [List.mem_filter, Bool.and_eq_true, Bool.not_eq_true', List.any_eq_false,
    Bool.not_eq_true] at hm
  refine ⟨hm.1, hm.2.1, hm.2.2, fun e' he' hc hskip => ?_⟩
  refine List.le_of_mem_argmin ?_ h
  simp only [List.mem_filter, Bool.and_eq_true, Bool.not_eq_true', List.any_eq_false,
    Bool.not_eq_true]
  exact ⟨he', hc, hskip⟩

/-- The worker claims nothing only when every eligible row is locked. -/
theorem Store.claimed_none {now : Timestamp} {skip : Key → Bool}
    (h : s.claimed now skip = none) {e : EventRow} (he : e ∈ s.events)
    (hc : e.claimable now = true) : ∃ k ∈ e.keys, skip k = true := by
  by_contra hno
  have hnil := List.argmin_eq_none.mp h
  have hmem : e ∈ s.events.filter fun e => e.claimable now && !e.keys.any skip := by
    simp only [List.mem_filter, Bool.and_eq_true, Bool.not_eq_true', List.any_eq_false,
      Bool.not_eq_true]
    exact ⟨he, hc, fun k hk => by simpa using fun hs => hno ⟨k, hk, hs⟩⟩
  rw [hnil] at hmem
  cases hmem

/-- An eligible row is the one claimed when all others are passed over. -/
theorem Store.claimed_only (hs : s.Keyed) {now : Timestamp} {e : EventRow} (he : e ∈ s.events)
    (hc : e.claimable now = true) : s.claimed now (fun k => k ∉ e.keys) = some e := by
  cases h : s.claimed now (fun k => k ∉ e.keys) with
  | none =>
    obtain ⟨k, hk, hk'⟩ := Store.claimed_none h he hc
    simp [hk] at hk'
  | some e' =>
    obtain ⟨he', -, hk, -⟩ := Store.claimed_some h
    have hmem : Key.event e'.eventId ∈ e'.keys := by simp [EventRow.keys]
    have hmem' := hk _ hmem
    simp only [decide_not, Bool.not_eq_false', decide_eq_true_iff] at hmem'
    rw [hs.events.eq_of_mem he' he hmem hmem']

/-- **The same answer on a store that agrees on the locked keys**, unless the answer is that there
was no row. -/
theorem exec_transfer [Platform] (hs : s.Keyed) (hs' : s'.Keyed) {q : Stmt} {d : Draws} {skip : Key → Bool}
    {rows : q.Rows} {ws : List Write}
    (hq : ∀ k ∈ q.locks rows, s.look k = s'.look k)
    (hw : ∀ w ∈ ws, ∀ k ∈ w.row.keys, s.look k = s'.look k)
    (h : exec q d skip s = .ok (rows, ws)) :
    (q.misses rows = true ∧ ws = []) ∨ ∃ skip', exec q d skip' s' = .ok (rows, ws) := by
  cases q with
  | upsertAndDeliver p b =>
    right
    refine ⟨skip, ?_⟩
    obtain ⟨occurredAt, evt, w, h1, h2, hu, h3, hi, rfl⟩ := upsertAndDeliver_ok.mp h
    refine upsertAndDeliver_ok.mpr ⟨occurredAt, evt, w, h1, h2, ?_, h3,
      insertable_congr (hw (.insert (.delivery _)) (by simp)) (by simp [Row.refs]) hi, rfl⟩
    obtain ⟨hfit, ⟨hn, hie, rfl, rfl⟩ | ⟨old, ho, rfl, hfit', rfl⟩⟩ := upsert_ok.mp hu
    · have hk := hw (.insert (.event (p.row d.eventId occurredAt))) (by simp)
      have he := event?_congr (hk (.event p.eventId)
        (by simp [Write.row, Row.keys, EventRow.keys, EventInsertParams.row]))
      exact upsert_ok.mpr ⟨hfit, .inl ⟨he ▸ hn, insertable_congr hk (by simp [Row.refs]) hie,
        rfl, rfl⟩⟩
    · have hk := hw (.update (.event { old with deliveryCount := old.deliveryCount + 1 })) (by simp)
      have he := event?_congr (hk (.event old.eventId) (by simp [Write.row, Row.keys, EventRow.keys]))
      obtain ⟨-, hid⟩ := Store.mem_of_event? ho
      exact upsert_ok.mpr ⟨hfit, .inr ⟨old, by rw [← hid, ← he, hid, ho], rfl, hfit', rfl⟩⟩
  | claim =>
    obtain ⟨rfl, rfl⟩ : rows = s.claimed d.now skip ∧ ws = [] := by simpa [exec, eq_comm] using h
    cases hc : s.claimed d.now skip with
    | none => exact .inl ⟨rfl, rfl⟩
    | some e =>
      right
      rw [hc] at hq
      obtain ⟨he, hcl, -, -⟩ := Store.claimed_some hc
      have hlook := event?_congr (hq (.event e.eventId) (by simp [Stmt.locks, EventRow.keys]))
      rw [hs.event?_eq he] at hlook
      have he' := (Store.mem_of_event? hlook.symm).1
      exact ⟨_, by rw [exec, Store.claimed_only hs' he' hcl]⟩
  | insertOrder id =>
    simp only [exec] at h
    split at h
    · cases h
    · rename_i hfit
      cases ho : s.order? id with
      | some o =>
        rw [ho] at h
        obtain ⟨rfl, rfl⟩ : rows = false ∧ ws = [] := by simpa [eq_comm] using h
        exact .inl ⟨rfl, rfl⟩
      | none =>
        right
        rw [ho] at h
        obtain ⟨-, rfl, rfl⟩ := insertRow_ok.mp h
        refine ⟨skip, ?_⟩
        have ho' := order?_congr (hw (.insert (.order (defaultOrder id d))) (by simp) (.order id)
          (by simp [Write.row, Row.keys, OrderRow.keys, defaultOrder]))
        simp only [exec, hfit, ← ho', ho]
        exact insertRow_congr hw (by simp [Row.refs]) h
  | selectOrder id =>
    obtain ⟨rfl, rfl⟩ : rows = s.order? id ∧ ws = [] := by simpa [exec, eq_comm] using h
    cases ho : s.order? id with
    | none => exact .inl ⟨rfl, rfl⟩
    | some o =>
      right
      rw [ho] at hq
      exact ⟨skip, by rw [exec, ← order?_congr (hq (.order id) (by simp [Stmt.locks])), ho]⟩
  | applyToOrder id status seq amount currency =>
    right
    refine ⟨skip, ?_⟩
    simp only [exec] at h ⊢
    rw [← order?_congr (hq _ (by simp [Stmt.locks]))]
    exact h
  | insertHistory v =>
    right
    refine ⟨skip, ?_⟩
    simp only [exec] at h ⊢
    split at h
    · exact insertRow_congr hw hq h
    · cases h
  | markApplied id =>
    right
    refine ⟨skip, ?_⟩
    simp only [exec] at h ⊢
    rw [← eventAt?_congr (hq _ (by simp [Stmt.locks]))]
    exact h
  | markIgnored id reason =>
    right
    refine ⟨skip, ?_⟩
    simp only [exec] at h ⊢
    rw [← eventAt?_congr (hq _ (by simp [Stmt.locks]))]
    exact h
  | markDlq id n error =>
    right
    refine ⟨skip, ?_⟩
    simp only [exec] at h ⊢
    rw [← eventAt?_congr (hq _ (by simp [Stmt.locks]))]
    exact h
  | markRetryScheduled id n next error =>
    right
    refine ⟨skip, ?_⟩
    simp only [exec] at h ⊢
    rw [← eventAt?_congr (hq _ (by simp [Stmt.locks]))]
    exact h
  | selectEvent id =>
    obtain ⟨rfl, rfl⟩ : rows = s.eventAt? id ∧ ws = [] := by simpa [exec, eq_comm] using h
    cases he : s.eventAt? id with
    | none => exact .inl ⟨rfl, rfl⟩
    | some e =>
      right
      obtain ⟨-, rfl⟩ := Store.mem_of_eventAt? he
      rw [he] at hq
      exact ⟨skip, by
        rw [exec, ← eventAt?_congr (hq (.eventPk e.id) (by simp [Stmt.locks, EventRow.keys])), he]⟩
  | replayEvent id =>
    right
    refine ⟨skip, ?_⟩
    simp only [exec] at h ⊢
    rw [← eventAt?_congr (hq _ (by simp [Stmt.locks]))]
    exact h
  | advisoryLock => exact .inr ⟨skip, h⟩
  | insertRun => exact .inr ⟨skip, insertRow_congr hw (by simp [Row.refs]) h⟩
  | reconcileOrder id status seq amount currency =>
    right
    refine ⟨skip, ?_⟩
    simp only [exec] at h ⊢
    rw [← order?_congr (hq _ (by simp [Stmt.locks]))]
    exact h
  | insertDetail v => exact .inr ⟨skip, insertRow_congr hw hq h⟩
  | completeRun id checked divergences repaired =>
    right
    refine ⟨skip, ?_⟩
    simp only [exec] at h ⊢
    rw [← run?_congr (hq _ (by simp [Stmt.locks]))]
    exact h

end Transfer

/-! ## The locality of the engine -/

/-- **The statements are local to the keys they lock.** -/
def locality [Platform] : Locality postgres where
  Inv := Store.Keyed
  Agree := fun K s s' => ∀ k, K k → Store.look s k = Store.look s' k
  refl := fun _ _ _ _ => rfl
  trans := fun h h' k hk => (h k hk).trans (h' k hk)
  inv := fun hs h => Store.Keyed.applyAll hs (exec_admits hs h)
  transfer := by
    intro K q d skip s s' rows ws hs hs' hK ha h
    have hq : ∀ k ∈ Stmt.locks q rows, Store.look s k = Store.look s' k := fun k hk =>
      ha k (hK k (List.mem_append.mpr (.inl hk)))
    have hw : ∀ w ∈ ws, ∀ k ∈ (Write.row w).keys, Store.look s k = Store.look s' k := fun w hw k hk =>
      ha k (hK k (List.mem_append.mpr (.inr (List.mem_flatMap.mpr ⟨w, hw, hk⟩))))
    have hadm := exec_admits hs h
    rcases exec_transfer hs hs' hq hw h with ⟨hm, rfl⟩ | ⟨skip', h'⟩
    · exact ⟨.inl ⟨hm, rfl⟩, ha⟩
    · exact ⟨.inr ⟨skip', h'⟩, fun k hk =>
        Store.look_applyAll_congr hs hs' hadm (exec_admits hs' h') (ha k hk)⟩
  frame := by
    intro K q d skip s rows ws hs hK h k hk
    refine (Store.look_applyAll_of_notMem hs (exec_admits hs h) fun w hw hkw => ?_).symm
    exact hK k (List.mem_append.mpr (.inr (List.mem_flatMap.mpr ⟨w, hw, hkw⟩))) hk

end PaymentWebhook
