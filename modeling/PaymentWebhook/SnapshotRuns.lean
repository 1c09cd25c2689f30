import PaymentWebhook.Snapshots
import PaymentWebhook.Transactions.Waiting

set_option relaxedAutoImplicit false
set_option autoImplicit false

/-!
# Runs of reconciliations

A reconciliation of a storable snapshot can be run to its end in a resting world.

## Main definitions

* `PaymentWebhook.Store.Ready` — a store in which the numbers from `n` on are free.
* `PaymentWebhook.Runs` — a log that is executed with consecutive numbers.

## Main results

* `PaymentWebhook.Store.Ready.loop`, `PaymentWebhook.Store.Ready.reconciliation` — the statements of
  a reconciliation, executed one after the other.
* `PaymentWebhook.reconciliation_run` — the specification of a run that nobody disturbs.
* `PaymentWebhook.Resting.reconcile` — a reconciliation is made on its own.
* `PaymentWebhook.reconciliation_repairs_once` — every order of a snapshot is repaired at most once.
-/

namespace PaymentWebhook

open Transactions

/-- All numbers below `n` have been given out. -/
def Env.upTo (n : ℕ) : Env := ⟨0, n, n, n, n, n⟩

/-- **A store in which the numbers from `n` on are free.** -/
structure Store.Ready (s : Store) (n : ℕ) : Prop where
  keyed : s.Keyed
  fits : s.Fits
  given : s.All (Row.Given (Env.upTo n))

/-- The draw of the number `n` is new. -/
theorem Draws.nth_new (now start : Timestamp) (n : ℕ) : (Draws.nth now start n).New (Env.upTo n) :=
  ⟨le_rfl, le_rfl, le_rfl, le_rfl, le_rfl⟩

variable [Platform] {now start : Timestamp} {n : ℕ} {s : Store} {log log' : Log} {q : Stmt}

/-- A statement uses up one number. -/
theorem Store.Ready.executed (h : s.Ready n) {rows : q.Rows} {ws : List Write}
    (hx : exec q (Draws.nth now start n) noSkip s = .ok (rows, ws)) :
    (ws.foldl Store.apply s).Ready (n + 1) := by
  have hadmits := exec_admits h.keyed hx
  have hdraw : Env.Draw ⟨now, n, n, n, n, n⟩ (some (Draws.nth now start n))
      (Draws.nth now start n) ⟨now, n + 1, n + 1, n + 1, n + 1, n + 1⟩ :=
    ⟨rfl, rfl, by simp [Draws.nth], by simp [Draws.nth], by simp [Draws.nth], by simp [Draws.nth],
      by simp [Draws.nth], rfl⟩
  have hgiven : s.All (Row.Given ⟨now, n, n, n, n, n⟩) := h.given
  have hwrites := exec_given h.keyed hgiven hdraw hx
  refine ⟨h.keyed.applyAll hadmits, h.fits.applyAll h.keyed hadmits (exec_fits hx), ?_⟩
  have hle : (Env.upTo n).Le (Env.upTo (n + 1)) := by constructor <;> simp [Env.upTo]
  exact Store.All.applyAll (fun k r hk => (h.given k r hk).mono hle) h.keyed hadmits hwrites

/-- When the statements of a numbered log say that their transaction began. -/
theorem NumberedLog.start_eq (h : NumberedLog now start n log) :
    ∀ e ∈ log, e.draws.start = start := by
  induction log generalizing n with
  | nil => simp
  | cons e log ih =>
    refine List.forall_mem_cons.mpr ⟨?_, ih h.2⟩
    rw [h.1]
    rfl

/-- **A log that is executed with consecutive numbers**, from `n` on. -/
structure Runs (now start : Timestamp) (n : ℕ) (s : Store) (log : Log) : Prop where
  ran : Ran log s
  numbered : NumberedLog now start n log
  ready : Store.Ready (install (E := postgres) s log) (n + log.length)

/-- A log that has been executed can be redone. -/
theorem Ran.redoes (h : Ran log s) : Redoes (E := postgres) log s := by
  induction log generalizing s with
  | nil => trivial
  | cons e log ih => exact ⟨.inr ⟨noSkip, h.1⟩, ih h.2⟩

theorem Runs.nil (h : s.Ready n) : Runs now start n s [] := ⟨trivial, trivial, h⟩

theorem Runs.append (h : Runs now start n s log)
    (h' : Runs now start (n + log.length) (install (E := postgres) s log) log') :
    Runs now start n s (log ++ log') where
  ran := ran_append.mpr ⟨h.ran, h'.ran⟩
  numbered := numberedLog_append.mpr ⟨h.numbered, h'.numbered⟩
  ready := by
    rw [install_append, List.length_append, ← Nat.add_assoc]
    exact h'.ready

/-- One more statement. -/
theorem Runs.snoc (h : Runs now start n s log) {rows : q.Rows} {ws : List Write}
    (hx : exec q (Draws.nth now start (n + log.length)) noSkip (install (E := postgres) s log) =
      .ok (rows, ws)) :
    Runs now start n s (log ++ [⟨q, Draws.nth now start (n + log.length), rows, ws⟩]) :=
  h.append ⟨⟨hx, trivial⟩, ⟨rfl, trivial⟩, h.ready.executed hx⟩

/-- One more statement that is accepted. -/
theorem Runs.accepted (h : Runs now start n s log)
    (hq : q.Accepted (Draws.nth now start (n + log.length)) (install (E := postgres) s log)) :
    ∃ d rows ws, Runs now start n s (log ++ [⟨q, d, rows, ws⟩]) := by
  obtain ⟨rows, ws, hx⟩ := hq noSkip
  exact ⟨_, rows, ws, h.snoc hx⟩

section Loops

variable {o : ProviderOrder} {t : Tally}

/-- A turn of the loop can be run. -/
theorem Store.Ready.turn (h : s.Ready n) (ho : o.Valid) (hstorable : o.Storable) (t : Tally) :
    ∃ log t', TurnLog o t log t' ∧ Runs now start n s log := by
  have haccepted : ∀ {log : Log} {q : Stmt}, Runs now start n s log → TurnAsks o log q →
      ∃ d rows ws, Runs now start n s (log ++ [⟨q, d, rows, ws⟩]) := fun hruns hasks =>
    hruns.accepted (hasks.accepted ho hstorable h.keyed h.fits hruns.ran.redoes hruns.ready.given
      (Draws.nth_new _ _ _))
  obtain ⟨d₁, isNew, w₁, h₁⟩ := haccepted (.nil h) .insertOrder
  obtain ⟨row, hrow⟩ := order?_of_insertOrder h₁.ran.1
  have hx : exec (.selectOrder o.id) (Draws.nth now start (n + 1)) noSkip
      (install (E := postgres) s [⟨.insertOrder o.id, d₁, isNew, w₁⟩]) = .ok (some row, []) := by
    rw [← hrow]
    rfl
  have h₂ := h₁.snoc hx
  by_cases hclass : classify o row = .repaired
  · obtain ⟨d₃, m₃, w₃, h₃⟩ := haccepted h₂ .reconcileOrder
    obtain ⟨d₄, u, w₄, h₄⟩ := haccepted h₃
      (@TurnAsks.insertHistory _ _ _ _ _ _ _ _ _ _ _ (if isNew then none else some row.status))
    exact ⟨_, _, .repaired hclass, h₄⟩
  · exact ⟨_, _, .kept hclass, h₂⟩

/-- The loop can be run. -/
theorem Store.Ready.loop {orders : List ProviderOrder} (h : s.Ready n) (ho : ∀ o ∈ orders, o.Valid)
    (hstorable : ∀ o ∈ orders, o.Storable) (t : Tally) :
    ∃ log t', LoopLog orders t log t' ∧ Runs now start n s log := by
  induction orders generalizing n s t with
  | nil => exact ⟨[], t, .nil t, .nil h⟩
  | cons o orders ih =>
    obtain ⟨turn, t₁, hturn, h₁⟩ := h.turn (ho o (by simp)) (hstorable o (by simp)) t
    obtain ⟨log, t', hloop, h₂⟩ := ih h₁.ready (fun o' ho' => ho o' (by simp [ho']))
      (fun o' ho' => hstorable o' (by simp [ho'])) t₁
    exact ⟨_, t', .cons hturn hloop, h₁.append h₂⟩

variable {snapshot : ValidSnapshot} {d₁ d₂ : Draws} {w₁ w₂ : List Write} {run : RunRow} {loop : Log}

/-- What a reconciliation has executed before its loops can be run. -/
theorem Store.Ready.opens (h : s.Ready n) (now start : Timestamp) :
    ∃ d₁ d₂ w₁ w₂ run, Runs now start n s (opening d₁ d₂ w₁ w₂ run) := by
  have hnil : Runs now start n s [] := .nil h
  have h₁ := hnil.snoc (q := Stmt.advisoryLock) rfl
  obtain ⟨d₂, run, w₂, h₂⟩ := h₁.accepted (accepted_insertRun h₁.ready.given (Draws.nth_new _ _ _))
  exact ⟨_, d₂, _, w₂, run, h₂⟩

/-- The loop that writes the details can be run. -/
theorem Store.Ready.details (h : s.Ready n) (hstorable : ∀ o ∈ snapshot.orders, o.Storable)
    (hloop : LoopLog snapshot.orders Tally.empty loop t) :
    ∀ (future past : List ReconciliationDetail) (details : Log), t.details = past ++ future →
      DetailsLog run.id past details →
      Runs now start n s (opening d₁ d₂ w₁ w₂ run ++ (loop ++ details)) →
      ∃ details, DetailsLog run.id t.details details ∧
        Runs now start n s (opening d₁ d₂ w₁ w₂ run ++ (loop ++ details)) := by
  intro future
  induction future with
  | nil =>
    intro past details hsplit hdetails hruns
    rw [List.append_nil] at hsplit
    exact ⟨details, hsplit ▸ hdetails, hruns⟩
  | cons detail future ih =>
    intro past details hsplit hdetails hruns
    have hasks : ReconciliationAsks snapshot.orders
        (⟨.advisoryLock, d₁, (), w₁⟩ :: ⟨.insertRun, d₂, run, w₂⟩ :: (loop ++ details))
        (.insertDetail (detailValues run.id detail)) := .insertDetail hloop hsplit hdetails
    obtain ⟨d, u, w, hnext⟩ := hruns.accepted (hasks.accepted hstorable (by simp) h.keyed h.fits
      hruns.ran.redoes hruns.ready.given (Draws.nth_new _ _ _))
    refine ih (past ++ [detail]) (details ++ [⟨.insertDetail (detailValues run.id detail), d, (), w⟩]) (by simp [hsplit]) hdetails.snoc ?_
    simpa using hnext

/-- **What a reconciliation executes can be run up to its last statement.** -/
theorem Store.Ready.reconciling (h : s.Ready n) (hstorable : ∀ o ∈ snapshot.orders, o.Storable)
    (now start : Timestamp) :
    ∃ d₁ d₂ w₁ w₂ run loop details t, LoopLog snapshot.orders Tally.empty loop t ∧
      DetailsLog run.id t.details details ∧
      Runs now start n s (opening d₁ d₂ w₁ w₂ run ++ (loop ++ details)) := by
  obtain ⟨d₁, d₂, w₁, w₂, run, hopening⟩ := h.opens now start
  obtain ⟨loop, t, hloop, hruns⟩ := hopening.ready.loop snapshot.valid hstorable Tally.empty
  obtain ⟨details, hdetails, hruns⟩ := h.details hstorable hloop t.details [] [] rfl .nil
    (by simpa using hopening.append hruns)
  exact ⟨d₁, d₂, w₁, w₂, run, loop, details, t, hloop, hdetails, hruns⟩

/-- **What a reconciliation executes can be run to its end.** -/
theorem Store.Ready.reconciliation (h : s.Ready n) (hstorable : snapshot.Storable)
    (now start : Timestamp) :
    ∃ log r, ReconciliationLog snapshot.orders log (some r) ∧ Runs now start n s log := by
  obtain ⟨d₁, d₂, w₁, w₂, run, loop, details, t, hloop, hdetails, hruns⟩ :=
    h.reconciling hstorable.orders now start
  have hasks : ReconciliationAsks snapshot.orders
      (⟨.advisoryLock, d₁, (), w₁⟩ :: ⟨.insertRun, d₂, run, w₂⟩ :: (loop ++ details))
      (.completeRun run.id snapshot.orders.length (t.repaired + t.staleProviderSnapshots) t.repaired) :=
    .completeRun hloop hdetails
  obtain ⟨d₃, finished, w₃, hend⟩ := hruns.accepted (hasks.accepted hstorable.orders
    (fun _ => hstorable.length) h.keyed h.fits hruns.ran.redoes hruns.ready.given
    (Draws.nth_new _ _ _))
  rw [List.append_assoc] at hend
  have hlog : ReconciliationLog snapshot.orders (⟨.advisoryLock, d₁, (), w₁⟩ ::
      ⟨.insertRun, d₂, run, w₂⟩ :: (loop ++ details ++ [⟨.completeRun run.id snapshot.orders.length
        (t.repaired + t.staleProviderSnapshots) t.repaired, d₃, finished, w₃⟩]))
      (finished.map (runResult snapshot.orders run t)) := .completed hloop hdetails
  -- the run has been found again
  have hchange : Change .default (.reconcile snapshot) _ _ s _ :=
    change_reconcile h.keyed hlog hend.ran.redoes
  obtain ⟨answer, hanswer⟩ := Option.isSome_iff_exists.mp hchange.isSome
  cases finished with
  | none => cases hanswer
  | some row => exact ⟨_, _, hlog, hend⟩

end Loops

/-! ## Runs that nobody disturbs -/

section Run

variable {snapshot : ValidSnapshot}

/-- A run of a reconciliation that nobody disturbs meets its specification, or leaves no trace. -/
theorem runSpec_of_call (snapshot : ValidSnapshot) (hs : s.Keyed) (mv : ℕ → Move postgres) :
    ∀ o s' c, (executeReconciliation snapshot.orders).call mv s = (o, s', c) →
      (∀ r, o = .returned r → RunSpec snapshot.orders s r s') ∧
      ((∀ r, o ≠ .returned r) →
        s' = s ∨ .commit ∈ c.rejected ∧ ∃ r, RunSpec snapshot.orders s r s') := by
  intro o s' c hcall
  have hends := Prog.call_wp mv _ s (Prog.wp_rely (fun _ _ _ => trivial) _ _
    (wp_executeReconciliation snapshot.orders))
  obtain ⟨logs, hlogs, hredo, hstore⟩ :=
    (executeReconciliation snapshot.orders).run_redoes mv 0 s Conn.fresh (by simp)
  replace hcall : (executeReconciliation snapshot.orders).run mv 0 s Conn.fresh = (o, s', c) := hcall
  replace hends : Prog.Ends _ _ ((executeReconciliation snapshot.orders).run mv 0 s Conn.fresh).1
    ((executeReconciliation snapshot.orders).run mv 0 s Conn.fresh).2.2 := hends
  rw [hcall] at hlogs hstore hends
  obtain rfl : c.commits = logs := by simpa using hlogs
  replace hstore : s' = install (E := postgres) s c.commits.flatten := hstore
  have hspec : ∀ log x, c.commits = [log] → ReconciliationLog snapshot.orders log x →
      ∃ r, x = some r ∧ RunSpec snapshot.orders s r s' := by
    intro log x hl hx
    rw [hl, List.flatten_singleton] at hredo hstore
    have hchange : Change .default _ _ _ _ _ := change_reconcile hs hx hredo
    rw [← hstore] at hchange
    obtain ⟨a, ha⟩ := Option.isSome_iff_exists.mp hchange.isSome
    obtain ⟨r, rfl, rfl⟩ := Option.map_eq_some_iff.mp ha
    exact ⟨r, rfl, hchange.runSpec⟩
  rcases ends_commits hends with ⟨a, log, rfl, hl, hx⟩ | ⟨hne, hnil | ⟨log, x, hl, hx, hmem⟩⟩
  · obtain ⟨r, hr, hrun⟩ := hspec log (some a) hl hx
    obtain rfl : a = r := by simpa using hr
    refine ⟨fun r hr => ?_, fun h => absurd rfl (h a)⟩
    obtain rfl : a = r := by simpa using hr
    exact hrun
  · refine ⟨fun r hr => absurd hr (hne r), fun _ => .inl ?_⟩
    rw [hstore, hnil]
    rfl
  · obtain ⟨r, rfl, hrun⟩ := hspec log x hl hx
    exact ⟨fun r' hr' => absurd hr' (hne r'), fun _ => .inr ⟨hmem.resolve_left (by simp), r, hrun⟩⟩

/-- A reconciliation of a storable snapshot can be run to its end. -/
theorem Store.Ready.returns (h : s.Ready n) (hstorable : snapshot.Storable) :
    ∃ mv r s' c, (executeReconciliation snapshot.orders).call mv s = (.returned r, s', c) := by
  obtain ⟨log, r, hlog, hruns⟩ := h.reconciliation hstorable 0 0
  obtain ⟨a, -, hgoes⟩ := goes_executeReconciliation (b := Draws.nth 0 0 n) (d := Draws.nth 0 0 n) hlog
    hruns.ran rfl
  let ms := answered none (Draws.nth 0 0 n) noSkip :: (requests (Draws.nth 0 0 n) log ++
    [answered (some (Draws.nth 0 0 n)) (Draws.nth 0 0 n) noSkip])
  refine ⟨fun k => ((ms[k]?).getD (answered none (Draws.nth 0 0 n) noSkip)).2, a, _, _,
    hgoes.call_eq _ fun k y hy => ?_⟩
  simp only [ms, hy, Option.getD_some]

omit [Platform] in
/-- The empty store is ready for every number. -/
theorem Store.ready_empty (n : ℕ) : Store.empty.Ready n :=
  ⟨Store.keyed_empty, Store.all_empty, Store.all_empty⟩

end Run

/-- A snapshot with one order. -/
def sampleOrders : ValidSnapshot where
  orders := [⟨"ord_1", .captured, 3, "10.50", "USD", "2026-01-15T10:00:00.000Z"⟩]
  valid := by
    intro o ho
    rw [List.mem_singleton.mp ho]
    exact ⟨by decide, by decide, by decide, by decide, by decide, by decide⟩
  distinct := by decide

omit [Platform] in
theorem sampleOrders_storable : sampleOrders.Storable :=
  ⟨by simp [sampleOrders, ProviderOrder.Storable, textFits], by decide⟩

section Resting

variable {cfg : WorkerConfig} {w : State} {i : ℕ} {b : Draws} {snapshot : ValidSnapshot}

/-- In a reachable world there are numbers that are free. -/
theorem Reach.ready (h : Reach cfg .empty w) : ∃ n, w.env.Below n ∧ ∀ m, n ≤ m → w.db.Ready m := by
  obtain ⟨n, hn, -⟩ := w.db.exists_fresh w.env
  refine ⟨n, hn, fun m hm => ⟨(h.coherent Store.keyed_empty).inv, h.fits, fun k r hk => ?_⟩⟩
  refine (h.given.done k r hk).mono ?_
  exact ⟨hn.event.trans hm, hn.delivery.trans hm, hn.history.trans hm, hn.run.trans hm,
    hn.detail.trans hm⟩

/-- **A reconciliation is made on its own** in a resting world, if its snapshot can be stored. -/
theorem Resting.reconcile_answered (h : Resting cfg w) (hbegun : Begun cfg w i (.reconcile snapshot) b)
    (hstorable : snapshot.Storable) :
    ∃ w' log r s, Follows cfg w w' ∧ w'.sessions = Function.update w.sessions i (some s) ∧
      s.call = .reconcile snapshot ∧ s.prog = .done (.reconciled r) ∧ w'.journal = w.journal ++ [(i, log)] ∧
      Change cfg (.reconcile snapshot) log (some (.reconciled r)) w.db w'.db ∧
      ∀ e ∈ log, e.draws.start = b.start := by
  obtain ⟨n, hn, hready⟩ := h.reach.ready
  obtain ⟨log, r, hlog, hruns⟩ := (hready n le_rfl).reconciliation hstorable
    w.env.clock b.start
  obtain ⟨a, ha, hgoes⟩ := goes_executeReconciliation (b := b)
    (d := Draws.nth w.env.clock b.start (n + log.length)) hlog hruns.ran rfl
  obtain rfl := Option.some.inj ha
  have hnumbered : Numbered w.env.clock n (requests b log ++
      [answered (some b) (Draws.nth w.env.clock b.start (n + log.length)) noSkip]) := by
    refine numbered_append.mpr ⟨numbered_requests hruns.numbered, ?_, rfl, trivial⟩
    rw [length_requests]
    rfl
  obtain ⟨w', hfollows, hdb, hjournal, hsessions⟩ :=
    h.finish hbegun (hgoes.head _) hnumbered hn (by simp)
  refine ⟨w', log, r, _, hfollows, hsessions, rfl, rfl, hjournal, ?_, hruns.numbered.start_eq⟩
  rw [hdb]
  exact change_reconcile h.keyed hlog hruns.ran.redoes

/-- **A reconciliation is made on its own**, whatever it answers. -/
theorem Resting.reconcile (h : Resting cfg w) (hbegun : Begun cfg w i (.reconcile snapshot) b)
    (hstorable : snapshot.Storable) :
    ∃ w' log r s, Follows cfg w w' ∧ w'.sessions = Function.update w.sessions i (some s) ∧
      s.call = .reconcile snapshot ∧ w'.journal = w.journal ++ [(i, log)] ∧
      Change cfg (.reconcile snapshot) log (some (.reconciled r)) w.db w'.db ∧
      ∀ e ∈ log, e.draws.start = b.start := by
  obtain ⟨w', log, r, s, hfollows, hsessions, hcall, -, hrest⟩ := h.reconcile_answered hbegun hstorable
  exact ⟨w', log, r, s, hfollows, hsessions, hcall, hrest⟩

/-- The loop over a snapshot in two parts. -/
theorem reconcileOrders_append (past future : List ProviderOrder) (t : Tally) :
    reconcileOrders (past ++ future) t = reconcileOrders past t >>= reconcileOrders future := by
  induction past generalizing t with
  | nil => rfl
  | cons o past ih =>
    refine Eq.trans ?_ (Prog.bind_assoc _ _ _).symm
    exact congrArg (reconcileOrder o t >>= ·) (funext ih)

/-- **A reconciliation is stopped on its way** in a resting world, when it is about to execute a
statement. -/
theorem Resting.stop {q : Stmt} {ok : q.Rows → Prog postgres ReconciliationRunResult}
    {failed : DbError → Prog postgres ReconciliationRunResult} {n : ℕ} {log : Log} (h : Resting cfg w)
    (hbegun : Begun cfg w i (.reconcile snapshot) b) (hn : w.env.Below n)
    (hruns : Runs w.env.clock b.start n w.db log)
    (hgoes : (executeReconciliation snapshot.orders).Goes (answered none b noSkip :: requests b log)
      w.db Conn.fresh (.ask (.run q) ok failed) w.db ⟨some ⟨b, log, none, false⟩, [], []⟩) :
    ∃ w' s t, Reach cfg .empty w' ∧ w'.Pending i s t q ∧ s.call = .reconcile snapshot ∧
      t.view w'.db = install (E := postgres) w.db log := by
  obtain ⟨ok₀, failed₀, hp, hs⟩ := hbegun
  have hall : (program cfg (.reconcile snapshot)).Goes _ _ _ _ _ _ :=
    hgoes.head fun r => pure (Answer.reconciled r)
  rw [hp] at hall
  have htail := hall.tail rfl
  obtain ⟨env', hdrawn, -⟩ := drawn_of_numbered hn (numbered_requests hruns.numbered)
  have hdraw : ∀ (env : Env) (begun : Option Draws) (d : Draws) (env' : Env),
      Env.Draw env begun d env' → env.clock ≤ env'.clock := fun _ _ _ _ hd => hd.clock.ge
  obtain ⟨w', new, hrun, hdb, -, -, -, hsessions⟩ :=
    htail.along (program cfg) hdraw hs rfl (h.quiet.not_heldFrom i) hdrawn
  obtain ⟨env₀, hreach⟩ := h.run
  have hforward : Along Forward (program cfg) w w' := hrun
  let left : Prog postgres Answer := .ask (.run q) ok failed >>= fun r => pure (.reconciled r)
  refine ⟨w', ⟨.reconcile snapshot, left, ⟨some ⟨b, log, none, false⟩, [], []⟩⟩, ⟨b, log, none, false⟩,
    ⟨env₀, (hreach.trans hforward).reachable⟩, ⟨?_, ⟨_, _, rfl⟩, rfl⟩, rfl, ?_⟩
  · rw [hsessions, Function.update_self]
  · rw [hdb]
    rfl

section Again

variable {db₀ : Store} {S : ValidSnapshot}

/-- Two runs of one snapshot, one after the other. -/
theorem exists_two_runs (cfg : WorkerConfig) (hstorable : S.Storable) :
    ∃ (w : State) (i j : ℕ) (log log' : Log), Reach cfg .empty w ∧ i ≠ j ∧
      w.journal = [(i, log), (j, log')] ∧ Called w i (.reconcile S) ∧ Called w j (.reconcile S) ∧
      ∀ k s, w.sessions k = some s → s.call = .reconcile S := by
  obtain ⟨w₁, i, b, hcont₁, -, hbegun₁, -, -, hjournal₁, hothers₁⟩ :=
    (Resting.start cfg ⟨0, 0, 0, 0, 0, 0⟩).begin (.reconcile S)
  obtain ⟨w₂, log, r, s, hfollows₂, hsessions₂, hs, hjournal₂, -⟩ :=
    hcont₁.rest.reconcile hbegun₁ hstorable
  obtain ⟨w₃, j, b', hcont₃, hfree, hbegun₃, -, -, hjournal₃, hothers₃⟩ :=
    hfollows₂.rest.begin (.reconcile S)
  obtain ⟨w₄, log', r', s', hfollows₄, hsessions₄, hs', hjournal₄, -⟩ :=
    hcont₃.rest.reconcile hbegun₃ hstorable
  have hij : i ≠ j := by
    rintro rfl
    rw [hsessions₂, Function.update_self] at hfree
    cases hfree
  have hi : w₄.sessions i = some s := by
    rw [hsessions₄, Function.update_of_ne hij, hothers₃ i hij, hsessions₂, Function.update_self]
  have hj : w₄.sessions j = some s' := by rw [hsessions₄, Function.update_self]
  refine ⟨w₄, i, j, log, log', hfollows₄.rest.reach, hij, ?_, ⟨s, hi, hs⟩, ⟨s', hj, hs'⟩, fun k x hk => ?_⟩
  · rw [hjournal₄, hjournal₃, hjournal₂, hjournal₁]
    rfl
  · by_cases hkj : k = j
    · subst hkj
      rw [hj, Option.some_inj] at hk
      rw [← hk, hs']
    by_cases hki : k = i
    · subst hki
      rw [hi, Option.some_inj] at hk
      rw [← hk, hs]
    · rw [hsessions₄, Function.update_of_ne hkj, hothers₃ k hkj, hsessions₂, Function.update_of_ne hki,
        hothers₁ k hki] at hk
      cases hk

end Again

/-! ## On the way -/

section Partial

variable {s : Store} {d₁ d₂ : Draws} {w₁ w₂ : List Write} {run : RunRow} {t : Tally} {loop : Log}

/-- A reconciliation goes through the first part of its snapshot. -/
theorem goes_to_turn {past : List ProviderOrder} (o : ProviderOrder) (future : List ProviderOrder)
    (h : LoopLog past Tally.empty loop t) (hr : Ran (opening d₁ d₂ w₁ w₂ run ++ loop) s) :
    ∃ p ok failed, p = .ask (.run (.insertOrder o.id)) ok failed ∧
      (executeReconciliation (past ++ o :: future)).Goes
        (answered none b noSkip :: requests b (opening d₁ d₂ w₁ w₂ run ++ loop)) s Conn.fresh p s
        ⟨some ⟨b, opening d₁ d₂ w₁ w₂ run ++ loop, none, false⟩, [], []⟩ := by
  obtain ⟨h₁, h₂, hr⟩ := hr
  replace hr : Ran loop (install (E := postgres) s (opening d₁ d₂ w₁ w₂ run)) := hr
  refine ⟨Prog.guarded ?p, ?ok, ?failed, ?heq, .transaction (goes_sql h₁ (goes_sql h₂ ?hbody))⟩
  case hbody =>
    rw [reconcileOrders_append, Prog.bind_assoc]
    show Prog.Goes _ (requests b loop) _ _ _ _ _
    rw [← List.append_nil (requests b loop)]
    refine (goes_reconcileOrders h hr).bind ?_
    exact .refl _ _ _
  case heq => rfl

/-- A reconciliation goes up to its last statement. -/
theorem goes_to_end {orders : List ProviderOrder} {details : Log}
    (h : LoopLog orders Tally.empty loop t) (hdetails : DetailsLog run.id t.details details)
    (hr : Ran (opening d₁ d₂ w₁ w₂ run ++ (loop ++ details)) s) :
    ∃ p ok failed, p = .ask (.run (.completeRun run.id orders.length
        (t.repaired + t.staleProviderSnapshots) t.repaired)) ok failed ∧
      (executeReconciliation orders).Goes
        (answered none b noSkip :: requests b (opening d₁ d₂ w₁ w₂ run ++ (loop ++ details))) s
        Conn.fresh p s
        ⟨some ⟨b, opening d₁ d₂ w₁ w₂ run ++ (loop ++ details), none, false⟩, [], []⟩ := by
  obtain ⟨h₁, h₂, hr⟩ := hr
  replace hr : Ran (loop ++ details) (install (E := postgres) s (opening d₁ d₂ w₁ w₂ run)) := hr
  obtain ⟨hr₁, hr₂⟩ := ran_append.mp hr
  refine ⟨Prog.guarded ?p, ?ok, ?failed, ?heq, .transaction (goes_sql h₁ (goes_sql h₂ ?hbody))⟩
  case hbody =>
    have hend : (insertDetails run.id t.details).Goes (requests b details) s
        ⟨some ⟨b, opening d₁ d₂ w₁ w₂ run ++ loop, none, false⟩, [], []⟩ (.done ()) s
        ⟨some ⟨b, opening d₁ d₂ w₁ w₂ run ++ loop ++ details, none, false⟩, [], []⟩ :=
      goes_insertDetails hdetails (by rw [install_append]; exact hr₂)
    show Prog.Goes _ (requests b (loop ++ details)) _ _ _ _ _
    rw [requests_append, ← List.append_nil (requests b details)]
    rw [List.append_assoc] at hend
    refine (goes_reconcileOrders h hr₁).bind ?_
    refine hend.bind ?_
    exact .refl _ _ _
  case heq => rfl

end Partial

end Resting

end PaymentWebhook
