import PaymentWebhook.Transactions.Interleaving

set_option relaxedAutoImplicit false
set_option autoImplicit false

/-!
# Invariants of the work in progress

What is known of the committed store of an interleaved system depends on what is known of the open
transactions, whose logs are still to be installed.  An invariant of both is kept by every run if
it is kept by the four things that can happen to a log: it is begun, cut back, extended by an
executed statement, and committed, by its own session or past the others.

## Main definitions

* `Transactions.Work` — an invariant of what is committed and what is open.
* `Transactions.Work.Holds` — it holds of a world.

## Main results

* `Transactions.Work.holds_along` — it holds of all worlds of a run.
-/

namespace Transactions

variable {E : Engine} {κ ρ : Type}

/-- **An invariant of the work in progress**: `Done` of the environment, the committed store and the
committed statements; `Open`, of the same and of what an open transaction has drawn at its begin
and executed.  `R` says how the environment moves. -/
structure Work (L : Locality E) (R : E.Env → E.Env → Prop) where
  Done : E.Env → E.Store → List (Entry E) → Prop
  Open : E.Env → E.Store → List (Entry E) → E.Draws → List (Entry E) → Prop
  done_mono : ∀ {env env' db journal}, R env env' → Done env db journal → Done env' db journal
  open_mono : ∀ {env env' db journal b log}, R env env' → Open env db journal b log →
    Open env' db journal b log
  opened : ∀ {env env' db journal d}, Done env db journal → E.draw env none d env' →
    Open env' db journal d []
  initial : ∀ {env db journal b log log'}, Open env db journal b log → log' <+: log →
    Open env db journal b log'
  push : ∀ {env env' db journal b log q d skip rows ws}, L.Inv db → Done env db journal →
    Open env db journal b log → Redoes log db → E.draw env (some b) d env' →
    E.exec q d skip (install db log) = .ok (rows, ws) →
    Open env' db journal b (log ++ [⟨q, d, rows, ws⟩])
  commit : ∀ {env db journal b log}, L.Inv db → Done env db journal → Open env db journal b log →
    Redoes log db → Done env (install db log) (journal ++ log)
  frame : ∀ {env db journal b b' log log'}, L.Inv db → Done env db journal →
    Open env db journal b log → Open env db journal b' log' → Redoes log db → Redoes log' db →
    (∀ e ∈ log', ∀ k ∈ e.keys, ∀ e' ∈ log, k ∉ e'.keys) →
    Open env (install db log') (journal ++ log') b log

namespace Work

variable {L : Locality E} {R : E.Env → E.Env → Prop} (W : Work L R)

/-- The invariant holds of a world. -/
structure Holds (w : World E κ ρ) : Prop where
  done : W.Done w.env w.db w.logs.flatten
  opened : ∀ i s t, w.sessions i = some s → s.conn.tx = some t →
    W.Open w.env w.db w.logs.flatten t.begun t.log

end Work

/-- What becomes of the transaction of a connection: it is gone, has just been opened, or has been
cut back or extended by the executed statement. -/
theorem respond_tx {db : E.Store} {tx : Option (Tx E)} (d : E.Draws) (skip : E.Key → Bool)
    (fate : Fate E) (r : Request E) (h : ∀ t, tx = some t → t.Sound db) {t' : Tx E}
    (ht' : (respond db tx d skip fate r).tx = some t') :
    (tx = none ∧ t'.begun = d ∧ t'.log = []) ∨
    ∃ t, tx = some t ∧ t'.begun = t.begun ∧ (t'.log <+: t.log ∨
      ∃ q rows ws, r = .run q ∧ E.exec q d skip (install db t.log) = .ok (rows, ws) ∧
        t'.log = t.log ++ [⟨q, d, rows, ws⟩]) := by
  have hkept : ∀ t₀ : Tx E, tx = some t₀ → (respond db tx d skip fate r).tx = some t' →
      t'.begun = t₀.begun := by
    rintro ⟨b, log, saved, ab⟩ rfl ht
    have hserve : ∀ t', (serve db (some ⟨b, log, saved, ab⟩) d skip r).tx = some t' → t'.begun = b := by
      intro t' ht
      rcases r with _ | _ | _ | _ | _ | _ | q <;> rcases saved with _ | saved <;> cases ab <;>
        simp only [serve, refuse, Option.map_some, Option.getD_some, Option.some_inj, reduceCtorEq] at ht
      all_goals first
        | (subst ht; rfl)
        | (split at ht <;> (rw [Option.some_inj] at ht; subst ht; rfl))
    rcases fate with _ | e | ⟨e, _ | _⟩ | ⟨_ | _⟩ <;> simp only [respond, reduceCtorEq] at ht
    · exact hserve t' ht
    · cases r <;> simp only [afterError, Option.map_some, Option.some_inj, reduceCtorEq] at ht <;>
        (subst ht; rfl)
  cases htx : tx with
  | some t =>
    refine .inr ⟨t, rfl, hkept t htx ht', ?_⟩
    have hlog := respond_log d skip fate r h
    rw [ht', htx] at hlog
    exact hlog
  | none =>
    subst htx
    left
    rcases fate with _ | e | ⟨e, _ | _⟩ | ⟨_ | _⟩ <;> simp only [respond, reduceCtorEq] at ht'
    · cases r <;> simp only [serve, refuse, Option.map_none, Option.getD_none, Option.some_inj,
        reduceCtorEq] at ht'
      subst ht'
      exact ⟨rfl, rfl, rfl⟩
    · cases r <;> simp [afterError] at ht'

namespace Work

variable {L : Locality E} {R : E.Env → E.Env → Prop} {W : Work L R} {program : κ → Prog E ρ}
  {w w' : World E κ ρ}

/-- Replacing a session by one that has nothing open keeps the invariant. -/
theorem Holds.setSession (h : W.Holds w) (i : ℕ) (s : Session E κ ρ) (htx : s.conn.tx = none) :
    W.Holds (w.setSession i s) := by
  refine ⟨h.done, fun j s' t hs' ht => ?_⟩
  by_cases hj : j = i
  · subst hj
    rw [World.setSession_self, Option.some_inj] at hs'
    subst hs'
    rw [htx] at ht
    cases ht
  · rw [World.setSession_of_ne w s hj] at hs'
    exact h.opened j s' t hs' ht

/-- The environment has moved. -/
theorem Holds.env (h : W.Holds w) {env : E.Env} (hR : R w.env env) :
    W.Holds { w with env := env } :=
  ⟨W.done_mono hR h.done, fun i s t hs ht => W.open_mono hR (h.opened i s t hs ht)⟩

/-- **One request keeps the invariant.**

**Proof sketch.** The log of the session that moves is cut back or extended, or has been committed;
in the last case every other open log locks other rows. -/
theorem Holds.serve (h : W.Holds w) (hco : Coherent L w) {i : ℕ} {s : Session E κ ρ} {r : Request E}
    (ok : r.Reply → Prog E ρ) (failed : E.Err → Prog E ρ) {d : E.Draws} {skip : E.Key → Bool}
    {fate : Fate E} {env : E.Env} (hs : w.sessions i = some s)
    (hdraw : E.draw w.env (s.conn.tx.map Tx.begun) d env) (hR : R w.env env) :
    W.Holds (w.serve i s ok failed (respond w.db s.conn.tx d skip fate r) env) := by
  have hsound : ∀ t, s.conn.tx = some t → t.Sound w.db := fun t ht => hco.sound i s t hs ht
  have hstore := respond_store w.db s.conn.tx d skip fate r
  have htx : ∀ t', (respond w.db s.conn.tx d skip fate r).tx = some t' →
      W.Open env w.db w.logs.flatten t'.begun t'.log := by
    intro t' ht'
    rcases respond_tx d skip fate r hsound ht' with ⟨hnone, hbegun, hlog⟩ | ⟨t, ht, hbegun, hlog⟩
    · rw [hnone] at hdraw
      rw [hbegun, hlog]
      exact W.opened h.done hdraw
    · have hopen := h.opened i s t hs ht
      rw [hbegun]
      rcases hlog with hp | ⟨q, rows, ws, -, hx, hlog⟩
      · exact W.open_mono hR (W.initial hopen hp)
      · rw [ht] at hdraw
        rw [hlog]
        exact W.push hco.inv h.done hopen (hsound t ht).redoes hdraw hx
  set served := respond w.db s.conn.tx d skip fate r with hserved
  have hlogs : (w.serve i s ok failed served env).logs.flatten =
      w.logs.flatten ++ served.commits.flatten := by
    simp [World.logs, World.serve, Function.comp_def]
  rcases hstore with ⟨hdb, hc⟩ | ⟨-, t₀, ht₀, -, hdb, hc, hnone⟩
  · rw [hc, List.flatten_nil, List.append_nil] at hlogs
    refine ⟨?_, fun j s' t hs' ht => ?_⟩
    · rw [hlogs]
      show W.Done env served.store _
      rw [hdb]
      exact W.done_mono hR h.done
    · rw [hlogs]
      show W.Open env served.store _ _ _
      rw [hdb]
      by_cases hj : j = i
      · subst hj
        simp only [World.serve, Function.update_self, Option.some_inj] at hs'
        subst hs'
        exact htx t ht
      · simp only [World.serve, Function.update_of_ne hj] at hs'
        exact W.open_mono hR (h.opened j s' t hs' ht)
  · rw [hc, List.flatten_singleton] at hlogs
    have hopen₀ := h.opened i s t₀ hs ht₀
    have hredo₀ := (hsound t₀ ht₀).redoes
    refine ⟨?_, fun j s' t hs' ht => ?_⟩
    · rw [hlogs]
      show W.Done env served.store _
      rw [hdb]
      exact W.done_mono hR (W.commit hco.inv h.done hopen₀ hredo₀)
    · rw [hlogs]
      show W.Open env served.store _ _ _
      rw [hdb]
      by_cases hj : j = i
      · subst hj
        simp only [World.serve, Function.update_self, Option.some_inj] at hs'
        subst hs'
        rw [Conn.after_tx, hnone] at ht
        cases ht
      · simp only [World.serve, Function.update_of_ne hj] at hs'
        refine W.open_mono hR (W.frame hco.inv h.done (h.opened j s' t hs' ht) hopen₀
          (hco.sound j s' t hs' ht).redoes hredo₀ fun e he k hk e' he' hk' => ?_)
        exact hco.locks i j k (Ne.symm hj) ⟨s, t₀, hs, ht₀, List.mem_flatMap.mpr ⟨e, he, hk⟩⟩
          ⟨s', t, hs', ht, List.mem_flatMap.mpr ⟨e', he', hk'⟩⟩

/-- **The invariant holds of all worlds of a run**, if it holds of the store the run starts with. -/
theorem holds_along (W : Work L R) {C : World E κ ρ → World E κ ρ → Prop}
    (hR : ∀ {env begun d env'}, E.draw env begun d env' → R env env')
    (hC : ∀ w w' : World E κ ρ, C w w' → E.pass w.env w'.env → R w.env w'.env) {db₀ : E.Store} {env₀ : E.Env}
    (h₀ : L.Inv db₀) (hstart : W.Done env₀ db₀ []) (h : Along C program (World.start db₀ env₀) w) :
    W.Holds w := by
  induction h with
  | refl => exact ⟨hstart, by simp [World.start]⟩
  | @step w w' hrun hstep hc ih =>
    have hco := hrun.reachable.coherent (Coherent.start h₀ env₀)
    cases hstep with
    | call i c hfree => exact ih.setSession i _ rfl
    | serve i s r ok failed d skip fate env hs hp hdraw hskip hgrant =>
      exact ih.serve hco ok failed hs hdraw (hR hdraw)
    | hangUp i s hs hend => exact ih.setSession i _ rfl
    | pass env henv => exact ih.env (hC _ _ hc henv)

/-- The invariant holds of all reachable worlds. -/
theorem holds_reachable (W : Work L R)
    (hR : ∀ {env begun d env'}, E.draw env begun d env' → R env env')
    (hpass : ∀ {env env'}, E.pass env env' → R env env') {db₀ : E.Store} {env₀ : E.Env}
    (h₀ : L.Inv db₀) (hstart : W.Done env₀ db₀ [])
    (h : Reachable program (World.start db₀ env₀) w) : W.Holds w :=
  W.holds_along hR (fun _ _ _ => hpass) h₀ hstart h.along

end Work

end Transactions
