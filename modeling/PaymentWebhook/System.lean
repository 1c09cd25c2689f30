import PaymentWebhook.Locking
import PaymentWebhook.Logs

set_option relaxedAutoImplicit false
set_option autoImplicit false

/-!
# The system

The service as a whole: any number of webhook requests, workers, replays and reconciliations, each
on a connection of its own, one SQL statement at a time, with faults and process deaths at any
statement.

## Main definitions

* `PaymentWebhook.Call`, `PaymentWebhook.program` — the calls and their programs.
* `PaymentWebhook.Reach` — the worlds the system can reach.
* `PaymentWebhook.CommitLog` — the logs a call can commit.

## Main results

* `PaymentWebhook.Reach.step_commits` — a step commits nothing, or one log of the call that
  makes it.
* `PaymentWebhook.Reach.commits_induction` — induction over the commits of a run.
-/

namespace PaymentWebhook

open Transactions

/-- A call of the service. -/
inductive Call where
  | ingest (req : WebhookRequest)
  | processOne (input : WorkerInput)
  | replay (id : ℕ)
  | reconcile (snapshot : ValidSnapshot)

/-- The answer of a call. -/
inductive Answer where
  | ingested (r : IngestionResult)
  | processed (r : ProcessOneResult)
  | replayed (r : Option ReplayResult)
  | reconciled (r : ReconciliationRunResult)

variable [Platform]

/-- The program of a call. -/
def program (cfg : WorkerConfig) : Call → Prog postgres Answer
  | .ingest req => ingest req >>= fun r => pure (.ingested r)
  | .processOne input => processOne cfg input >>= fun r => pure (.processed r)
  | .replay id => replay id >>= fun r => pure (.replayed r)
  | .reconcile snapshot => executeReconciliation snapshot.orders >>= fun r => pure (.reconciled r)

/-- The state of the system. -/
abbrev State := World postgres Call Answer

/-- The system has come from `db₀` to `w`. -/
def Reach (cfg : WorkerConfig) (db₀ : Store) (w : State) : Prop :=
  ∃ env₀ : Env, Reachable (program cfg) (World.start db₀ env₀) w

/-- The clock does not run backwards. -/
def Forward (w w' : State) : Prop := w.env.clock ≤ w'.env.clock

/-- The system has come from `db₀` to `w` while the clock never ran backwards. -/
def ReachForward (cfg : WorkerConfig) (db₀ : Store) (w : State) : Prop :=
  ∃ env₀ : Env, Along Forward (program cfg) (World.start db₀ env₀) w

/-- A run whose clock never runs backwards is a run. -/
theorem ReachForward.reach {cfg : WorkerConfig} {db₀ : Store} {w : State}
    (h : ReachForward cfg db₀ w) : Reach cfg db₀ w :=
  let ⟨env₀, hrun⟩ := h
  ⟨env₀, hrun.reachable⟩

/-- **The logs a call can commit**, with its answer; `none` if the call throws although it has
committed. -/
inductive CommitLog (cfg : WorkerConfig) : Call → Log → Option Answer → Prop where
  | ingest {req : WebhookRequest} {log : Log} {x : Option IngestionResult}
      (h : IngestLog req log x) : CommitLog cfg (.ingest req) log (x.map .ingested)
  | processOne {input : WorkerInput} {log : Log} {x : Option ProcessOneResult}
      (h : WorkerLog cfg input log x) : CommitLog cfg (.processOne input) log (x.map .processed)
  | replay {id : ℕ} {log : Log} {x : Option (Option ReplayResult)} (h : ReplayLog id log x) :
      CommitLog cfg (.replay id) log (x.map .replayed)
  | reconcile {snapshot : ValidSnapshot} {log : Log} {x : Option ReconciliationRunResult}
      (h : ReconciliationLog snapshot.orders log x) :
      CommitLog cfg (.reconcile snapshot) log (x.map .reconciled)

section Programs

variable {α : Type} {S : Log → Option α → Prop} {T : Log → Option Answer → Prop}

variable {g : α → Answer} (hST : ∀ log x, S log x → T log (x.map g))

include hST

/-- A call is as settled as its procedure. -/
theorem Settled.map {c : Conn postgres} (hc : Settled S c) : Settled T c := by
  refine hc.imp_right ?_
  rintro ⟨log, x, hl, hx, hx'⟩
  exact ⟨log, x.map g, hl, hST log x hx, hx'.imp_left fun h => by rw [h]; rfl⟩

/-- A call is as careful as its procedure. -/
theorem Careful.map {r : Request postgres} {c : Conn postgres} (hc : Careful S r c) :
    Careful T r c where
  settled := hc.settled.map hST
  fresh := hc.fresh
  commit := fun hr t ht ha =>
    let ⟨x, hx⟩ := hc.commit hr t ht ha
    ⟨x.map g, hST _ x hx⟩
  history := hc.history

/-- Wrapping the answer of a procedure. -/
theorem wp_wrap {p : Prog postgres α}
    (hp : p.wp Rely.any (Careful S) (Truthful S) Conn.fresh) :
    (p >>= fun a => pure (g a)).wp Rely.any (Careful T) (Truthful T) Conn.fresh := by
  refine Prog.wp_bind _ _ _ (Prog.wp_mono (fun x c hx => ?_) _ _
    (Prog.wp_imp (fun r c hc => hc.map hST) _ _ hp))
  cases x with
  | ok a =>
    obtain ⟨log, hl, ha⟩ := hx
    exact ⟨log, hl, hST _ _ ha⟩
  | error e => exact Settled.map hST hx

omit hST

/-- **Every call is careful and truthful.** -/
theorem wp_program (cfg : WorkerConfig) (c : Call) :
    (program cfg c).wp Rely.any (Careful (CommitLog cfg c)) (Truthful (CommitLog cfg c)) Conn.fresh := by
  cases c with
  | ingest req => exact wp_wrap (fun _ _ => .ingest) (wp_ingest req)
  | processOne input => exact wp_wrap (fun _ _ => .processOne) (wp_processOne cfg input)
  | replay id => exact wp_wrap (fun _ _ => .replay) (wp_replay id)
  | reconcile snapshot =>
    exact wp_wrap (fun _ _ => .reconcile) (wp_executeReconciliation snapshot.orders)

end Programs

/-! ## Runs of the system -/

variable {cfg : WorkerConfig} {db₀ : Store} {w w' : State}

/-- A reachable world is coherent. -/
theorem Reach.coherent (h₀ : db₀.Keyed) (h : Reach cfg db₀ w) : Coherent locality w := by
  obtain ⟨env₀, h⟩ := h
  exact h.coherent (Coherent.start (L := locality) h₀ env₀)

/-- Every session of a reachable world is where its program can be. -/
theorem Reach.wp (h : Reach cfg db₀ w) {i : ℕ} {s : Session postgres Call Answer}
    (hs : w.sessions i = some s) :
    s.prog.wp Rely.any (Careful (CommitLog cfg s.call)) (Truthful (CommitLog cfg s.call)) s.conn := by
  obtain ⟨env₀, h⟩ := h
  refine h.wp (A := fun c => Careful (CommitLog cfg c)) (Q := fun c => Truthful (CommitLog cfg c))
    (wp_program cfg) (fun c x cn hx => ?_) i s hs
  cases x <;> exact hx

/-- A session has committed nothing, or one log of its call. -/
theorem Reach.settled (h₀ : db₀.Keyed) (h : Reach cfg db₀ w) {i : ℕ}
    {s : Session postgres Call Answer} (hs : w.sessions i = some s) :
    w.commitsOf i = [] ∨ ∃ log x, w.commitsOf i = [log] ∧ CommitLog cfg s.call log x := by
  rw [(h.coherent h₀).commits i s hs]
  have hwp := h.wp hs
  cases hp : s.prog with
  | done a =>
    rw [hp] at hwp
    obtain ⟨log, hl, hx⟩ := hwp
    exact .inr ⟨log, _, hl, hx⟩
  | fail e =>
    rw [hp] at hwp
    exact hwp.imp_right fun ⟨log, x, hl, hx, _⟩ => ⟨log, x, hl, hx⟩
  | ask r ok failed =>
    rw [hp] at hwp
    exact hwp.1.settled.imp_right fun ⟨log, x, hl, hx, _⟩ => ⟨log, x, hl, hx⟩

/-- A session whose call has answered has committed the log that the answer is about. -/
theorem Reach.answered (h₀ : db₀.Keyed) (h : Reach cfg db₀ w) {i : ℕ}
    {s : Session postgres Call Answer} {a : Answer} (hs : w.sessions i = some s)
    (hp : s.prog = .done a) : ∃ log, w.commitsOf i = [log] ∧ CommitLog cfg s.call log (some a) := by
  rw [(h.coherent h₀).commits i s hs]
  have hwp := h.wp hs
  rw [hp] at hwp
  exact hwp

/-- **What a step commits**: nothing, or the log of an open transaction, which is one of its call. -/
theorem Reach.step_commits_open (h₀ : db₀.Keyed) (h : Reach cfg db₀ w)
    (hstep : Step (program cfg) w w') :
    (w'.db = w.db ∧ w'.journal = w.journal) ∨
    ∃ i s t x, w.sessions i = some s ∧ s.conn.tx = some t ∧ CommitLog cfg s.call t.log x ∧
      Redoes t.log w.db ∧ w'.db = install w.db t.log ∧ w'.journal = w.journal ++ [(i, t.log)] := by
  have hcommits := hstep.commits_open (A := fun c => Careful (CommitLog cfg c))
    (S := fun c log => ∃ x, CommitLog cfg c log x) (h.coherent h₀)
    (fun i s hs => ⟨_, h.wp hs⟩) fun c cn t hA ht ha => hA.commit rfl t ht ha
  refine hcommits.imp_right ?_
  rintro ⟨i, s, t, hs, ht, ⟨x, hx⟩, h1, h2, h3⟩
  exact ⟨i, s, t, x, hs, ht, hx, h1, h2, h3⟩

/-- What a step commits is nothing, or one log of the call that makes it. -/
theorem Reach.step_commits (h₀ : db₀.Keyed) (h : Reach cfg db₀ w)
    (hstep : Step (program cfg) w w') :
    (w'.db = w.db ∧ w'.journal = w.journal) ∨
    ∃ i s log x, w.sessions i = some s ∧ CommitLog cfg s.call log x ∧ Redoes log w.db ∧
      w'.db = install w.db log ∧ w'.journal = w.journal ++ [(i, log)] := by
  refine (h.step_commits_open h₀ hstep).imp_right ?_
  rintro ⟨i, s, t, x, hs, -, hx, h1, h2, h3⟩
  exact ⟨i, s, t.log, x, hs, hx, h1, h2, h3⟩

/-- A step keeps a world reachable. -/
theorem Reach.step (h : Reach cfg db₀ w) (hstep : Step (program cfg) w w') : Reach cfg db₀ w' := by
  obtain ⟨env₀, h⟩ := h
  exact ⟨env₀, h.step hstep⟩

/-- Session `i` makes the call `c`. -/
def Called (w : State) (i : ℕ) (c : Call) : Prop := ∃ s, w.sessions i = some s ∧ s.call = c

/-- A session keeps its call. -/
theorem Called.step {i : ℕ} {c : Call} (h : Called w i c) (hstep : Step (program cfg) w w') :
    Called w' i c := by
  obtain ⟨s, hs, rfl⟩ := h
  exact hstep.call_eq hs

theorem Called.run {i : ℕ} {c : Call} (h : Called w i c) (hrun : Reachable (program cfg) w w') :
    Called w' i c := by
  induction hrun with
  | refl => exact h
  | step _ hstep ih => exact ih.step hstep

/-- **Induction over the commits of a run.** -/
theorem Reach.commits_induction {P : List (ℕ × Log) → Store → Prop} (h₀ : db₀.Keyed)
    (hnil : P [] db₀)
    (hcommit : ∀ journal db i c log x, Called w i c → db.Keyed → P journal db →
      CommitLog cfg c log x → Redoes (E := postgres) log db →
      P (journal ++ [(i, log)]) (install (E := postgres) db log))
    (h : Reach cfg db₀ w) : P w.journal w.db := by
  obtain ⟨env₀, h⟩ := h
  induction h with
  | refl => exact hnil
  | @step w w' hr hstep ih =>
    have hP := ih fun journal db i c log x hcall => hcommit journal db i c log x (hcall.step hstep)
    rcases Reach.step_commits h₀ ⟨env₀, hr⟩ hstep with
      ⟨h1, h2⟩ | ⟨i, s, log, x, hs, hlog, hredo, h1, h2⟩
    · rwa [h1, h2]
    · rw [h1, h2]
      have hcall : Called w i s.call := ⟨s, hs, rfl⟩
      exact hcommit _ _ i s.call log x (hcall.step hstep) (Reach.coherent h₀ ⟨env₀, hr⟩).inv hP hlog
        hredo

/-- A log of the journal is one of the call of its session. -/
theorem Reach.journal_call (h₀ : db₀.Keyed) (h : Reach cfg db₀ w) {i : ℕ} {log : Log}
    (hmem : (i, log) ∈ w.journal) : ∃ c x, Called w i c ∧ CommitLog cfg c log x := by
  refine h.commits_induction (P := fun journal _ => ∀ i log, (i, log) ∈ journal →
    ∃ c x, Called w i c ∧ CommitLog cfg c log x) h₀ (by simp) ?_ i log hmem
  intro journal db j c log' x hcall hdb hP hlog hredo i log hmem
  rcases List.mem_append.mp hmem with hmem | hmem
  · exact hP i log hmem
  · obtain ⟨rfl, rfl⟩ := Prod.mk.inj (List.mem_singleton.mp hmem)
    exact ⟨c, x, hcall, hlog⟩

end PaymentWebhook
