import PaymentWebhook.Changes
import PaymentWebhook.Feeds
import PaymentWebhook.SnapshotRuns

set_option relaxedAutoImplicit false
set_option autoImplicit false

/-!
# Linearizability

A call of the service takes effect at one place of the journal: after everything that had been committed before
the call was made, and before everything that is committed after it has been answered.  What it answers is what
happens at this place.

## Main definitions

* `PaymentWebhook.storeOf` — the store that a journal leaves.
* `PaymentWebhook.Linearized` — a call has its place in the journal.

## Main results

* `PaymentWebhook.Reach.linearized` — every call that has committed has.
* `PaymentWebhook.calls_linearizable` — calls that do not overlap take effect in the order in which they are made.
-/

namespace PaymentWebhook

open Transactions

/-- What two prefixes of a list have to do with each other: `l` ends before `x`, or goes beyond it. -/
theorem ends_before_or_beyond {α : Type} {l before after : List α} {x : α} (h : l <+: before ++ x :: after) :
    l <+: before ∨ before ++ [x] <+: l := by
  have hx : before ++ [x] <+: before ++ x :: after := ⟨after, by simp⟩
  rcases Nat.lt_or_ge before.length l.length with hlt | hge
  · exact .inr (List.prefix_of_prefix_length_le hx h (by rw [List.length_append]; exact hlt))
  · exact .inl (List.prefix_of_prefix_length_le h (List.prefix_append _ _) hge)

variable [Platform]

/-- **The store that a journal leaves**, if it has been empty in the beginning. -/
def storeOf (journal : List (ℕ × Log)) : Store := install (E := postgres) .empty (journal.map Prod.snd).flatten

variable {cfg : WorkerConfig} {w : State}

/-- **The call of session `i` takes effect after the journal `before`**, by the log `log`; `x` is what it answers,
if it answers. -/
structure Linearized (cfg : WorkerConfig) (w : State) (i : ℕ) (c : Call) (x : Option Answer)
    (before : List (ℕ × Log)) (log : Log) : Prop where
  place : before ++ [(i, log)] <+: w.journal
  once : w.commitsOf i = [log]
  effect : Change cfg c log x (storeOf before) (storeOf (before ++ [(i, log)]))
  called : ∀ v, Reach cfg .empty v → Reachable (program cfg) v w → v.sessions i = none → v.journal <+: before
  answered : ∀ v s b, Reach cfg .empty v → Reachable (program cfg) v w → v.sessions i = some s → s.prog = .done b →
    before ++ [(i, log)] <+: v.journal

/-- The store is what the journal leaves. -/
theorem Reach.db_eq (h : Reach cfg .empty w) : w.db = storeOf w.journal := by
  obtain ⟨env₀, hrun⟩ := h
  exact (hrun.history (L := locality) Store.keyed_empty).2

/-- **A call that has committed has its place in the journal.** -/
theorem Reach.linearized (h : Reach cfg .empty w) {i : ℕ} {c : Call} {log : Log} {x : Option Answer}
    (hlog : w.commitsOf i = [log]) (hcommit : CommitLog cfg c log x) :
    ∃ before, Linearized cfg w i c x before log := by
  have hmem : (i, log) ∈ w.journal := mem_journal_of_commitsOf hlog
  obtain ⟨before, after, hsplit⟩ := List.append_of_mem hmem
  have hplace : before ++ [(i, log)] <+: w.journal := ⟨after, by rw [hsplit]; simp⟩
  -- there is no other place
  have hnot : ∀ log', (i, log') ∉ before := by
    intro log' hbefore
    have hnodup := h.nodup_journal
    rw [hsplit, List.map_append, List.map_cons] at hnodup
    exact List.disjoint_of_nodup_append hnodup (List.mem_map_of_mem hbefore) List.mem_cons_self
  refine ⟨before, hplace, hlog, ?_, fun v hv hrun hnone => ?_, fun v s' b hv hrun hs' hp' => ?_⟩
  · obtain ⟨env₀, hstart⟩ := h
    obtain ⟨hredo, -⟩ := hstart.history (L := locality) Store.keyed_empty
    rw [World.logs, hsplit, List.map_append, List.flatten_append, redoes_append, List.map_cons, List.flatten_cons,
      redoes_append] at hredo
    have hkeyed : Store.Keyed (storeOf before) := locality.inv_install Store.keyed_empty hredo.1
    have heffect := change_of_redoes hkeyed hcommit hredo.2.1
    rwa [storeOf, ← install_append, ← storeOf, show (before.map Prod.snd).flatten ++ log =
      ((before ++ [(i, log)]).map Prod.snd).flatten by simp, ← storeOf] at heffect
  · have hgrows := hrun.journal_grows
    rw [hsplit] at hgrows
    refine (ends_before_or_beyond hgrows).resolve_right fun hyet => ?_
    have hidle := (hv.coherent Store.keyed_empty).idle i hnone
    have hmem : log ∈ v.commitsOf i := v.mem_commitsOf.mpr (hyet.subset (by simp))
    rw [hidle] at hmem
    cases hmem
  · have hgrows := hrun.journal_grows
    rw [hsplit] at hgrows
    refine (ends_before_or_beyond hgrows).resolve_left fun hbefore => ?_
    obtain ⟨log', hlog', -⟩ := hv.answered Store.keyed_empty hs' hp'
    have hmem' : (i, log') ∈ v.journal := mem_journal_of_commitsOf hlog'
    exact hnot log' (hbefore.subset hmem')

/-- A call that is made when another one has been answered takes effect after it. -/
theorem Linearized.precedes {i j : ℕ} {c c' : Call} {x x' : Option Answer} {before before' : List (ℕ × Log)}
    {log log' : Log} (h : Linearized cfg w i c x before log) (h' : Linearized cfg w j c' x' before' log')
    {v : State} (hv : Reach cfg .empty v) (hrun : Reachable (program cfg) v w) {s : Session postgres Call Answer}
    {a : Answer} (hs : v.sessions i = some s) (hp : s.prog = .done a) (hj : v.sessions j = none) :
    before ++ [(i, log)] <+: before' :=
  (h.answered v s a hv hrun hs hp).trans (h'.called v hv hrun hj)

/-- **The service is linearizable.**  The store is what the journal leaves.  An answered call has taken effect once,
at a place of the journal between its call and its answer, and its answer is what happens there; another call has
taken effect at most once.  Calls that do not overlap take effect in the order in which they are made. -/
theorem calls_linearizable (h : Reach cfg .empty w) :
    w.db = storeOf w.journal ∧
      (∀ i s a, w.sessions i = some s → s.prog = .done a →
        ∃ before log, Linearized cfg w i s.call (some a) before log) ∧
      (∀ i s, w.sessions i = some s →
        w.commitsOf i = [] ∨ ∃ before log x, Linearized cfg w i s.call x before log) ∧
      ∀ i j c c' x x' before before' log log', Linearized cfg w i c x before log →
        Linearized cfg w j c' x' before' log' →
        ∀ v s a, Reach cfg .empty v → Reachable (program cfg) v w → v.sessions i = some s → s.prog = .done a →
          v.sessions j = none → before ++ [(i, log)] <+: before' := by
  refine ⟨h.db_eq, fun i s a hs hp => ?_, fun i s hs => ?_, ?_⟩
  · obtain ⟨log, hlog, hcommit⟩ := h.answered Store.keyed_empty hs hp
    obtain ⟨before, hplace⟩ := h.linearized hlog hcommit
    exact ⟨before, log, hplace⟩
  · refine (h.settled Store.keyed_empty hs).imp_right ?_
    rintro ⟨log, x, hlog, hcommit⟩
    obtain ⟨before, hplace⟩ := h.linearized hlog hcommit
    exact ⟨before, log, x, hplace⟩
  · intro i j c c' x x' before before' log log' hi hj v s a hv hrun hs hp hnone
    exact hi.precedes hj hv hrun hs hp hnone

omit [Platform] in
/-- In the sample, the snapshot is reconciled twice, one time after the other. -/
theorem calls_linearizable_sample : letI := samplePlatform
    ∃ (w : State) (i j : ℕ) (r r' : ReconciliationRunResult) (before before' : List (ℕ × Log)) (log log' : Log),
      Reach .default .empty w ∧ i ≠ j ∧ w.db = storeOf w.journal ∧
      Linearized .default w i (.reconcile sampleOrders) (some (.reconciled r)) before log ∧
      Linearized .default w j (.reconcile sampleOrders) (some (.reconciled r')) before' log' ∧
      before ++ [(i, log)] <+: before' := by
  let _ := samplePlatform
  obtain ⟨w₁, i, b, hcont, -, hbegun, -⟩ :=
    (Resting.start .default ⟨0, 0, 0, 0, 0, 0⟩).begin (.reconcile sampleOrders)
  obtain ⟨w₂, -, r, s, hfollows, hsessions, hcall, hdone, -⟩ :=
    hcont.rest.reconcile_answered hbegun sampleOrders_storable
  obtain ⟨w₃, j, b', hcont', hnone, hbegun', -⟩ := hfollows.rest.begin (.reconcile sampleOrders)
  obtain ⟨w₄, -, r', s', hfollows', hsessions', hcall', hdone', -⟩ :=
    hcont'.rest.reconcile_answered hbegun' sampleOrders_storable
  have hs : w₂.sessions i = some s := by rw [hsessions, Function.update_self]
  have hij : i ≠ j := by
    rintro rfl
    rw [hs] at hnone
    cases hnone
  have hi : w₄.sessions i = some s := by
    rw [hsessions', Function.update_of_ne hij, hcont'.kept i s hs]
  have hj : w₄.sessions j = some s' := by rw [hsessions', Function.update_self]
  obtain ⟨hdb, hanswered, -, horder⟩ := calls_linearizable hfollows'.rest.reach
  obtain ⟨before, log, hlin⟩ := hanswered i s _ hi hdone
  obtain ⟨before', log', hlin'⟩ := hanswered j s' _ hj hdone'
  rw [hcall] at hlin
  rw [hcall'] at hlin'
  have hrun := hcont'.run.reachable.trans hfollows'.run.reachable
  exact ⟨w₄, i, j, r, r', before, before', log, log', hfollows'.rest.reach, hij, hdb, hlin, hlin',
    horder i j _ _ _ _ _ _ _ _ hlin hlin' w₂ s _ hfollows.rest.reach hrun hs hdone hnone⟩

end PaymentWebhook
