import PaymentWebhook.SnapshotRuns

set_option relaxedAutoImplicit false
set_option autoImplicit false

/-!
# What the checks admit

The checks on what comes from outside, against the columns that it ends up in.  They were written
for the sizes of the columns; what they leave out is that no text column holds U+0000.

## Main definitions

* `PaymentWebhook.ProviderOrder.Copies` — an entry has the values of the JSON it was read from.
* `PaymentWebhook.Reconcilable` — no reconciliation of a snapshot violates a constraint.

## Main results

* `PaymentWebhook.snapshot_admissible_iff` — which accepted snapshots are reconcilable.
-/

namespace PaymentWebhook

open Transactions

/-! ## Snapshots -/

/-- An entry has the values of the JSON it was read from. -/
structure ProviderOrder.Copies (o : ProviderOrder) (raw : Json) : Prop where
  id : raw.get? "id" = some (.str o.id)
  status : ∃ text, raw.get? "status" = some (.str text) ∧ validStatus text = some o.status
  sequence : raw.get? "sequence" = some (.num o.sequence)
  amount : raw.get? "amount" = some (.str o.amount)
  currency : raw.get? "currency" = some (.str o.currency)
  updatedAt : raw.get? "updated_at" = some (.str o.updatedAt)

section Copies

variable [Platform]

/-- What `isValidIsoDate` accepts. -/
theorem isValidIsoDate_eq {value : Option Json} {text : String} (h : isValidIsoDate value = some text) :
    value = some (.str text) := by
  unfold isValidIsoDate at h
  split at h
  · split at h
    · rw [Option.some_inj.mp h]
    · cases h
  · cases h

/-- An accepted entry has the values of the JSON it was read from. -/
theorem validateOrder_copies {index : ℕ} {seenIds : List String} {raw : Json} {o : ProviderOrder}
    (h : validateOrder index seenIds raw = .ok o) : o.Copies raw := by
  unfold validateOrder at h
  split at h
  · cases h
  split at h
  next id hid =>
    split at h
    · cases h
    split at h
    · cases h
    split at h
    · cases h
    next status hstatus =>
    split at h
    next q hq =>
      split at h
      · cases h
      next hden =>
      split at h
      next amount hamount =>
        split at h
        · cases h
        split at h
        next currency hcurrency =>
          split at h
          · cases h
          split at h
          · cases h
          next updatedAt hupdated =>
          split at h
          · cases h
          obtain rfl := Except.ok.inj h
          refine ⟨hid, ?_, ?_, hamount, hcurrency, isValidIsoDate_eq hupdated⟩
          · obtain ⟨value, hvalue, htext⟩ := Option.bind_eq_some_iff.mp hstatus
            cases value with
            | str text => exact ⟨text, hvalue, htext⟩
            | _ => cases htext
          · have hq' : ((q.num : ℤ) : ℚ) = q :=
              Rat.coe_int_num_of_den_eq_one (not_not.mp (not_or.mp hden).1)
            rw [hq, hq']
        · cases h
      · cases h
    · cases h
  · cases h

/-- The loop reads one entry from each element, in their order. -/
theorem validateOrders_copies {index : ℕ} {validated orders : List ProviderOrder} {raws : List Json}
    (h : validateOrders index validated raws = .ok orders) :
    ∃ new, orders = validated ++ new ∧ List.Forall₂ ProviderOrder.Copies new raws := by
  induction raws generalizing index validated with
  | nil =>
    obtain rfl := Except.ok.inj h
    exact ⟨[], by simp, .nil⟩
  | cons raw raws ih =>
    unfold validateOrders at h
    split at h
    · cases h
    · rename_i o ho
      obtain ⟨new, rfl, hnew⟩ := ih h
      exact ⟨o :: new, by simp, .cons (validateOrder_copies ho) hnew⟩

/-- **What `validate` returns has the values of the body**, in their order. -/
theorem validate_copies {body : Json} {s : ProviderSnapshot} (h : validate body = .ok s) :
    ∃ raws, body.get? "orders" = some (.arr raws) ∧ List.Forall₂ ProviderOrder.Copies s.orders raws := by
  unfold validate at h
  split at h
  · cases h
  split at h
  · cases h
  split at h
  · rename_i raws hraws
    split at h
    · cases h
    · rename_i orders horders
      obtain rfl := Except.ok.inj h
      obtain ⟨new, rfl, hnew⟩ := validateOrders_copies horders
      exact ⟨raws, hraws, hnew⟩
  · cases h

/-- The valid snapshot that `validate` has accepted. -/
def ValidSnapshot.ofAccepted {body : Json} {s : ProviderSnapshot} (h : validate body = .ok s) :
    ValidSnapshot :=
  ⟨s.orders, (validate_valid h).1, (validate_valid h).2⟩

end Copies

section Reconcilable

variable [Platform] {cfg : WorkerConfig} {snapshot : ValidSnapshot}

/-- **No reconciliation of the snapshot violates a constraint**: in every reachable world PostgreSQL
accepts the statement that it is about to execute. -/
def Reconcilable (cfg : WorkerConfig) (snapshot : ValidSnapshot) : Prop :=
  ∀ (w : State) (i : ℕ) (s : Session postgres Call Answer) (t : Tx postgres) (q : Stmt),
    Reach cfg .empty w → w.Pending i s t q → s.call = .reconcile snapshot →
      ∀ (d : Draws) (env : Env), w.env.Draw (some t.begun) d env → q.Accepted d (t.view w.db)

/-- A storable snapshot is reconcilable. -/
theorem ValidSnapshot.Storable.reconcilable (h : snapshot.Storable) : Reconcilable cfg snapshot := by
  intro w i s t q hreach hpending hcall d env hdraw
  have hco := hreach.coherent Store.keyed_empty
  have hredo := (hco.sound i s t hpending.session hpending.tx).redoes
  obtain ⟨ok, failed, hp⟩ := hpending.prog
  have hasks := hreach.asks hpending.session hp hpending.tx
  rw [hcall] at hasks
  cases hasks with
  | reconcile hasks =>
    refine hasks.accepted h.orders (fun _ => h.length) hco.inv hreach.fits hredo ?_ hdraw.new
    exact Store.All.install hreach.given.done hco.inv hredo
      (hreach.given.opened i s t hpending.session hpending.tx)

/-- The ids of a reconcilable snapshot can be stored.

**Proof sketch.** Otherwise a reconciliation gets to the first entry whose id cannot, and its
insertion is refused. -/
theorem Reconcilable.orders (h : Reconcilable cfg snapshot) : ∀ o ∈ snapshot.orders, o.Storable := by
  by_contra hno
  push Not at hno
  obtain ⟨o₁, ho₁, hbad₁⟩ := hno
  obtain ⟨o, hfind⟩ : ∃ o, snapshot.orders.find? (fun o => !textFits o.id) = some o := by
    rw [← Option.isSome_iff_exists, List.find?_isSome]
    exact ⟨o₁, ho₁, by simpa [ProviderOrder.Storable] using hbad₁⟩
  obtain ⟨hbad, past, future, hsplit, hpast⟩ := List.find?_eq_some_iff_append.mp hfind
  have hvalid : ∀ o ∈ past, o.Valid := fun o ho => snapshot.valid o (by simp [hsplit, ho])
  have hstorable : ∀ o ∈ past, o.Storable := fun o ho => by
    simpa [ProviderOrder.Storable] using hpast o ho
  obtain ⟨w₁, i, b, hcont, -, hbegun, -⟩ :=
    (Resting.start cfg ⟨0, 0, 0, 0, 0, 0⟩).begin (.reconcile snapshot)
  obtain ⟨n, hn, hready⟩ := hcont.rest.reach.ready
  obtain ⟨d₁, d₂, u₁, u₂, run, hopening⟩ :=
    (hready n le_rfl).opens w₁.env.clock b.start
  obtain ⟨loop, t, hloop, hruns⟩ := hopening.ready.loop hvalid hstorable Tally.empty
  have hall := hopening.append hruns
  obtain ⟨p, ok, failed, rfl, hgoes⟩ := goes_to_turn o future hloop hall.ran
  rw [← hsplit] at hgoes
  obtain ⟨w', s, t', hreach, hpending, hcall, hview⟩ := hcont.rest.stop hbegun hn hall hgoes
  obtain ⟨d, env, hdraw⟩ := w'.env.exists_draw (some t'.begun)
  obtain ⟨rows, ws, hx⟩ := h w' i s t' _ hreach hpending hcall d env hdraw noSkip
  have hfits : (defaultOrder o.id d).fits = false := by
    simp only [Bool.not_eq_true'] at hbad
    simp [OrderRow.fits, defaultOrder, varcharFits, hbad]
  simp [exec, hfits] at hx

/-- The entries of a reconcilable snapshot can be counted. -/
theorem Reconcilable.length (h : Reconcilable cfg snapshot) : snapshot.orders.length ≤ 2147483647 := by
  have hstorable := h.orders
  obtain ⟨w₁, i, b, hcont, -, hbegun, -⟩ :=
    (Resting.start cfg ⟨0, 0, 0, 0, 0, 0⟩).begin (.reconcile snapshot)
  obtain ⟨n, hn, hready⟩ := hcont.rest.reach.ready
  obtain ⟨d₁, d₂, u₁, u₂, run, loop, details, t, hloop, hdetails, hruns⟩ :=
    (hready n le_rfl).reconciling hstorable w₁.env.clock b.start
  obtain ⟨p, ok, failed, rfl, hgoes⟩ := goes_to_end hloop hdetails hruns.ran
  obtain ⟨w', s, t', hreach, hpending, hcall, hview⟩ := hcont.rest.stop hbegun hn hruns hgoes
  obtain ⟨d, env, hdraw⟩ := w'.env.exists_draw (some t'.begun)
  obtain ⟨rows, ws, hx⟩ := h w' i s t' _ hreach hpending hcall d env hdraw noSkip
  rw [hview] at hx
  obtain ⟨rfl, hnone, hkeyed, hrest, he⟩ := redoes_opening hcont.rest.keyed hruns.ran.redoes
  have hfound := run?_opening hnone (run?_of_redoes hkeyed hloop hdetails hrest)
  replace he : install (E := postgres) w₁.db (opening d₁ d₂ u₁ u₂ (runningRun d₂) ++ (loop ++ details)) =
      _ := he
  rw [he] at hx
  obtain ⟨habsent, -, -⟩ | ⟨row, -, hfits, -, -⟩ := updateRow_ok.mp hx
  · exact absurd (hfound.symm.trans habsent) (by simp)
  · simp only [Row.fits, RunRow.fits, RunRow.complete, int4Fits, Bool.and_eq_true] at hfits
    have hle := of_decide_eq_true hfits.1.1.2
    omega

/-- **A snapshot is reconcilable if it can be stored.** -/
theorem reconcilable_iff : Reconcilable cfg snapshot ↔ snapshot.Storable :=
  ⟨fun h => ⟨h.orders, h.length⟩, fun h => h.reconcilable⟩

/-- **Which accepted snapshots are reconcilable**: the entries have distinct ids and the values of the
body, in its order, in any case; a reconciliation of them violates no constraint if and only if no
id contains U+0000 and an `INTEGER` counts them. -/
theorem snapshot_admissible_iff (cfg : WorkerConfig) {body : Json} {s : ProviderSnapshot}
    (h : validate body = .ok s) :
    ((s.orders.map ProviderOrder.id).Nodup ∧
      (∃ raws, body.get? "orders" = some (.arr raws) ∧
        List.Forall₂ ProviderOrder.Copies s.orders raws) ∧
      Reconcilable cfg (.ofAccepted h)) ↔
    (∀ o ∈ s.orders, textFits o.id = true) ∧ s.orders.length ≤ 2147483647 := by
  have hiff : Reconcilable cfg (.ofAccepted h) ↔ (ValidSnapshot.ofAccepted h).Storable :=
    reconcilable_iff
  rw [hiff]
  exact ⟨fun ⟨_, _, hstorable⟩ => ⟨hstorable.orders, hstorable.length⟩,
    fun ⟨horders, hlength⟩ => ⟨(validate_valid h).2, validate_copies h, horders, hlength⟩⟩

end Reconcilable

/-! ## A sample -/

/-- A response of the provider with one order. -/
def snapshotBody (id : String) : Json :=
  .obj [("generated_at", .str "2026-01-15T10:00:00.000Z"),
    ("orders", .arr [.obj [("id", .str id), ("status", .str "captured"), ("sequence", .num 3),
      ("amount", .str "10.50"), ("currency", .str "USD"),
      ("updated_at", .str "2026-01-15T10:00:00.000Z")]])]

/-- What is read from it. -/
def sampleSnapshot (id : String) : ProviderSnapshot where
  generatedAt := "2026-01-15T10:00:00.000Z"
  orders := [⟨id, .captured, 3, "10.50", "USD", "2026-01-15T10:00:00.000Z"⟩]

theorem snapshot_admissible_iff_sample : letI := samplePlatform
    ∃ h : validate (snapshotBody "ord_1") = .ok (sampleSnapshot "ord_1"),
      Reconcilable .default (.ofAccepted h) := by
  let _ := samplePlatform
  have h : validate (snapshotBody "ord_1") = .ok (sampleSnapshot "ord_1") := by rfl
  exact ⟨h, ((snapshot_admissible_iff .default h).mpr ⟨by decide, by decide⟩).2.2⟩

/-- An accepted id that contains U+0000. -/
theorem unstorable_snapshot : letI := samplePlatform
    ∃ h : validate (snapshotBody "ord\x001") = .ok (sampleSnapshot "ord\x001"),
      ¬ Reconcilable .default (.ofAccepted h) := by
  let _ := samplePlatform
  have h : validate (snapshotBody "ord\x001") = .ok (sampleSnapshot "ord\x001") := by rfl
  refine ⟨h, fun hreconcilable => ?_⟩
  have hstorable := hreconcilable.orders _ (List.mem_singleton.mpr rfl)
  unfold ProviderOrder.Storable at hstorable
  exact absurd hstorable (by decide)

end PaymentWebhook
