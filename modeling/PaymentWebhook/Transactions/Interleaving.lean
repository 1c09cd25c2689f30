import Mathlib.Logic.Function.Basic
import PaymentWebhook.Transactions.Serial

set_option relaxedAutoImplicit false
set_option autoImplicit false

/-!
# Interleaved sessions

Any number of calls run at the same time, each on a connection of its own, against one
committed store.  A step of the world is one request of one session; a statement is answered
only when no other session holds a lock it takes, so a session that has to wait simply does
not move.  The journal records every commit, in order: who committed and which log.

## Main definitions

* `Transactions.World`, `Transactions.Step`, `Transactions.Reachable` — the interleaved system.
* `Transactions.Disciplined` — the part of the locking discipline that all statements keep.
* `Transactions.Coherent` — the invariant of the locking discipline.

## Main results

* `Transactions.Reachable.coherent` — the open transactions of a reachable world hold disjoint
  locks and can all be redone on the committed store.
* `Transactions.Reachable.history` — **commit-order serializability**: the committed store is
  what the journal gives when its logs are redone one after the other.
* `Transactions.Reachable.executed` — every statement of the journal has been executed.
* `Transactions.Reachable.wp` — every session is where the weakest precondition of its program
  says it can be.
-/

namespace Transactions

variable {E : Engine} {κ ρ : Type}

/-- A call in progress: which call it is, what is left of its program, and its connection. -/
structure Session (E : Engine) (κ ρ : Type) where
  call : κ
  prog : Prog E ρ
  conn : Conn E

/-- The committed store, what the connections share outside it, the sessions, and the journal
of commits (oldest first). -/
structure World (E : Engine) (κ ρ : Type) where
  db : E.Store
  env : E.Env
  sessions : ℕ → Option (Session E κ ρ)
  journal : List (ℕ × List (Entry E))

/-- A world in which nothing has been called yet. -/
def World.start (db : E.Store) (env : E.Env) : World E κ ρ := ⟨db, env, fun _ => none, []⟩

namespace World

variable (w : World E κ ρ)

/-- Session `i` holds the lock `k`. -/
def Holds (i : ℕ) (k : E.Key) : Prop :=
  ∃ s t, w.sessions i = some s ∧ s.conn.tx = some t ∧ k ∈ t.locks

/-- Some session other than `i` holds the lock `k`. -/
def HeldFrom (i : ℕ) (k : E.Key) : Prop := ∃ j, j ≠ i ∧ w.Holds j k

/-- The logs of the journal, oldest first. -/
def logs : List (List (Entry E)) := w.journal.map (·.2)

/-- The logs session `i` has committed. -/
def commitsOf (i : ℕ) : List (List (Entry E)) :=
  (w.journal.filter (fun c => c.1 = i)).map (·.2)

/-- The logs of a session are its entries of the journal. -/
theorem mem_commitsOf {i : ℕ} {log : List (Entry E)} : log ∈ w.commitsOf i ↔ (i, log) ∈ w.journal := by
  simp only [commitsOf, List.mem_map, List.mem_filter, decide_eq_true_eq]
  constructor
  · rintro ⟨⟨j, log'⟩, ⟨hmem, rfl⟩, rfl⟩
    exact hmem
  · exact fun hmem => ⟨_, ⟨hmem, rfl⟩, rfl⟩

/-- The world with session `i` replaced. -/
def setSession (i : ℕ) (s : Session E κ ρ) : World E κ ρ :=
  { w with sessions := Function.update w.sessions i (some s) }

/-- The world after the request of session `i` has been served: the committed store, the
environment, the session, the journal. -/
def serve (i : ℕ) (s : Session E κ ρ) {r : Request E} (ok : r.Reply → Prog E ρ)
    (failed : E.Err → Prog E ρ) (served : Served E r) (env : E.Env) : World E κ ρ where
  db := served.store
  env := env
  sessions := Function.update w.sessions i (some
    { s with
      prog := match served.reply with
        | .ok x => ok x
        | .error e => failed e
      conn := s.conn.after served })
  journal := w.journal ++ served.commits.map (fun log => (i, log))

end World

/-- **One step of the interleaved system**, for the programs of the calls.

* `call`: a client makes a new call.
* `serve`: the next request of session `i` meets its fate.  The rows a `SKIP LOCKED` scan
  passes over are those locked by other sessions, and the request has had to wait until no
  other session holds a lock it takes.  A process that died makes no further request: its
  session is not scheduled any more.
* `hangUp`: the server ends what a finished call has left open on its connection.
* `pass`: time passes. -/
inductive Step (program : κ → Prog E ρ) : World E κ ρ → World E κ ρ → Prop where
  | call (w : World E κ ρ) (i : ℕ) (c : κ) (hfree : w.sessions i = none) :
      Step program w (w.setSession i ⟨c, program c, Conn.fresh⟩)
  | serve (w : World E κ ρ) (i : ℕ) (s : Session E κ ρ) (r : Request E)
      (ok : r.Reply → Prog E ρ) (failed : E.Err → Prog E ρ) (d : E.Draws) (skip : E.Key → Bool)
      (fate : Fate E) (env : E.Env)
      (hs : w.sessions i = some s) (hp : s.prog = .ask r ok failed)
      (hdraw : E.draw w.env (s.conn.tx.map Tx.begun) d env)
      (hskip : ∀ k, skip k = true ↔ w.HeldFrom i k)
      (hgrant : ∀ t, (respond w.db s.conn.tx d skip fate r).tx = some t →
        ∀ k ∈ t.locks, ¬ w.HeldFrom i k) :
      Step program w (w.serve i s ok failed (respond w.db s.conn.tx d skip fate r) env)
  | hangUp (w : World E κ ρ) (i : ℕ) (s : Session E κ ρ) (hs : w.sessions i = some s)
      (hend : (∃ a, s.prog = .done a) ∨ ∃ e, s.prog = .fail e) :
      Step program w (w.setSession i { s with conn := { s.conn with tx := none } })
  | pass (w : World E κ ρ) (env : E.Env) (h : E.pass w.env env) :
      Step program w { w with env := env }

/-- The worlds reachable from a given one. -/
inductive Reachable (program : κ → Prog E ρ) (w₀ : World E κ ρ) : World E κ ρ → Prop where
  | refl : Reachable program w₀ w₀
  | step {w w' : World E κ ρ} : Reachable program w₀ w → Step program w w' →
      Reachable program w₀ w'

/-- The worlds reached by steps that all meet a condition. -/
inductive Along (C : World E κ ρ → World E κ ρ → Prop) (program : κ → Prog E ρ)
    (w₀ : World E κ ρ) : World E κ ρ → Prop where
  | refl : Along C program w₀ w₀
  | step {w w' : World E κ ρ} : Along C program w₀ w → Step program w w' → C w w' →
      Along C program w₀ w'

/-! ## The locking discipline -/

/-- **What every world keeps**, whatever the statements do: no lock is held twice, and every session
knows what it has committed. -/
structure Disciplined (w : World E κ ρ) : Prop where
  locks : ∀ i j k, i ≠ j → w.Holds i k → ¬ w.Holds j k
  commits : ∀ i s, w.sessions i = some s → w.commitsOf i = s.conn.commits
  idle : ∀ i, w.sessions i = none → w.commitsOf i = []

/-- **The invariant of the locking discipline**: the committed store keeps the invariant of the
statement language, every open transaction is sound against it, no lock is held twice, and
every session knows what it has committed. -/
structure Coherent (L : Locality E) (w : World E κ ρ) : Prop where
  inv : L.Inv w.db
  sound : ∀ i s t, w.sessions i = some s → s.conn.tx = some t → t.Sound w.db
  locks : ∀ i j k, i ≠ j → w.Holds i k → ¬ w.Holds j k
  commits : ∀ i s, w.sessions i = some s → w.commitsOf i = s.conn.commits
  idle : ∀ i, w.sessions i = none → w.commitsOf i = []

variable {program : κ → Prog E ρ} {L : Locality E}

/-- A coherent world is disciplined. -/
theorem Coherent.disciplined {w : World E κ ρ} (h : Coherent L w) : Disciplined w :=
  ⟨h.locks, h.commits, h.idle⟩

/-- A world in which nothing has been called is disciplined. -/
theorem Disciplined.start (db : E.Store) (env : E.Env) :
    Disciplined (World.start db env : World E κ ρ) where
  locks := by simp [World.start, World.Holds]
  commits := by simp [World.start]
  idle := by simp [World.start, World.commitsOf]

/-- A world in which nothing has been called is coherent. -/
theorem Coherent.start {db : E.Store} (h : L.Inv db) (env : E.Env) :
    Coherent L (World.start db env : World E κ ρ) :=
  have hstart : Disciplined (World.start db env : World E κ ρ) := .start db env
  ⟨h, by simp [World.start], hstart.locks, hstart.commits, hstart.idle⟩

@[simp] theorem World.setSession_self (w : World E κ ρ) (i : ℕ) (s : Session E κ ρ) :
    (w.setSession i s).sessions i = some s := by simp [World.setSession]

theorem World.setSession_of_ne (w : World E κ ρ) {i j : ℕ} (s : Session E κ ρ) (h : j ≠ i) :
    (w.setSession i s).sessions j = w.sessions j := by simp [World.setSession, h]

/-- Replacing a session by one that holds no lock and has made the same commits keeps a world
disciplined. -/
theorem Disciplined.setSession {w : World E κ ρ} (h : Disciplined w) (i : ℕ) (s : Session E κ ρ)
    (htx : s.conn.tx = none) (hc : w.commitsOf i = s.conn.commits) :
    Disciplined (w.setSession i s) := by
  have hholds : ∀ j k, (w.setSession i s).Holds j k → j ≠ i ∧ w.Holds j k := by
    rintro j k ⟨s', t, hs', ht, hk⟩
    by_cases hj : j = i
    · subst hj
      rw [World.setSession_self, Option.some_inj] at hs'
      subst hs'
      rw [htx] at ht
      cases ht
    · rw [World.setSession_of_ne w s hj] at hs'
      exact ⟨hj, s', t, hs', ht, hk⟩
  refine ⟨fun j j' k hne h1 h2 => ?_, fun j s' hs' => ?_, fun j hj => ?_⟩
  · exact h.locks j j' k hne (hholds j k h1).2 (hholds j' k h2).2
  · by_cases hj : j = i
    · subst hj
      rw [World.setSession_self, Option.some_inj] at hs'
      subst hs'
      exact hc
    · rw [World.setSession_of_ne w s hj] at hs'
      exact h.commits j s' hs'
  · have hji : j ≠ i := by
      rintro rfl
      rw [World.setSession_self] at hj
      cases hj
    rw [World.setSession_of_ne w s hji] at hj
    exact h.idle j hj

/-- Replacing a session by one that holds no lock and has made the same commits keeps a world
coherent. -/
theorem Coherent.setSession {w : World E κ ρ} (h : Coherent L w) (i : ℕ) (s : Session E κ ρ)
    (htx : s.conn.tx = none) (hc : w.commitsOf i = s.conn.commits) :
    Coherent L (w.setSession i s) := by
  have hset := h.disciplined.setSession i s htx hc
  refine ⟨h.inv, fun j s' t hs' ht => ?_, hset.locks, hset.commits, hset.idle⟩
  by_cases hj : j = i
  · subst hj
    rw [World.setSession_self, Option.some_inj] at hs'
    subst hs'
    rw [htx] at ht
    cases ht
  · rw [World.setSession_of_ne w s hj] at hs'
    exact h.sound j s' t hs' ht

/-- **One request keeps a world disciplined**: it is served only when its locks are free. -/
theorem Disciplined.serve {w : World E κ ρ} (h : Disciplined w) {i : ℕ} {s : Session E κ ρ}
    {r : Request E} (ok : r.Reply → Prog E ρ) (failed : E.Err → Prog E ρ) (served : Served E r)
    (env : E.Env) (hs : w.sessions i = some s)
    (hgrant : ∀ t, served.tx = some t → ∀ k ∈ t.locks, ¬ w.HeldFrom i k) :
    Disciplined (w.serve i s ok failed served env) := by
  set w' := w.serve i s ok failed served env with hw'
  have hself : w'.sessions i = some
      { s with
        prog := match served.reply with
          | .ok x => ok x
          | .error e => failed e
        conn := s.conn.after served } := by simp [hw', World.serve]
  have hother : ∀ j, j ≠ i → w'.sessions j = w.sessions j := by
    intro j hj
    simp [hw', World.serve, hj]
  have hholds_self : ∀ k, w'.Holds i k → ¬ w.HeldFrom i k := by
    rintro k ⟨s', t, hs', ht, hk⟩
    rw [hself, Option.some_inj] at hs'
    subst hs'
    exact hgrant t ht k hk
  have hholds_other : ∀ j k, j ≠ i → (w'.Holds j k ↔ w.Holds j k) := by
    intro j k hj
    simp only [World.Holds, hother j hj]
  have hcommits : ∀ j, w'.commitsOf j =
      w.commitsOf j ++ (if j = i then served.commits else []) := by
    intro j
    have hfilter : ∀ logs : List (List (Entry E)),
        ((logs.map fun log => (i, log)).filter (fun c => c.1 = j)).map (·.2) =
          if j = i then logs else [] := by
      intro logs
      by_cases hj : j = i
      · subst hj
        simp [List.filter_map, Function.comp_def]
      · have hij : i ≠ j := fun e => hj e.symm
        simp [hj, List.filter_map, Function.comp_def, hij]
    simp only [World.commitsOf, hw', World.serve, List.filter_append, List.map_append, hfilter]
  refine ⟨fun j j' k hne h1 h2 => ?_, fun j s' hs' => ?_, fun j hj => ?_⟩
  · by_cases hj : j = i
    · subst hj
      have hj' : j' ≠ j := Ne.symm hne
      exact hholds_self k h1 ⟨j', hj', (hholds_other j' k hj').mp h2⟩
    · by_cases hj' : j' = i
      · subst hj'
        exact hholds_self k h2 ⟨j, hj, (hholds_other j k hj).mp h1⟩
      · exact h.locks j j' k hne ((hholds_other j k hj).mp h1) ((hholds_other j' k hj').mp h2)
  · rw [hcommits]
    by_cases hj : j = i
    · subst hj
      rw [hself, Option.some_inj] at hs'
      subst hs'
      simp [h.commits j s hs]
    · rw [hother j hj] at hs'
      simp [hj, h.commits j s' hs']
  · have hji : j ≠ i := by
      rintro rfl
      rw [hself] at hj
      cases hj
    rw [hother j hji] at hj
    simp [hcommits, hji, h.idle j hj]

/-- Every step keeps a world disciplined. -/
theorem Disciplined.step {w w' : World E κ ρ} (h : Disciplined w) (hstep : Step program w w') :
    Disciplined w' := by
  cases hstep with
  | call i c hfree => exact h.setSession i _ rfl (h.idle i hfree)
  | serve i s r ok failed d skip fate env hs hp hdraw hskip hgrant =>
    exact h.serve ok failed _ env hs hgrant
  | hangUp i s hs hend => exact h.setSession i _ rfl (h.commits i s hs)
  | pass env henv => exact ⟨h.locks, h.commits, h.idle⟩

/-- **Reachable worlds are disciplined.** -/
theorem Reachable.disciplined {db₀ : E.Store} {env₀ : E.Env} {w : World E κ ρ}
    (h : Reachable program (World.start db₀ env₀) w) : Disciplined w := by
  induction h with
  | refl => exact Disciplined.start db₀ env₀
  | step _ hstep ih => exact ih.step hstep

/-- What a served request commits can be redone on the committed store, and installing it gives
the new one. -/
theorem respond_redoes {db : E.Store} {tx : Option (Tx E)} (d : E.Draws) (skip : E.Key → Bool)
    (fate : Fate E) (r : Request E) (h : ∀ t, tx = some t → t.Sound db) :
    Redoes (respond db tx d skip fate r).commits.flatten db ∧
      (respond db tx d skip fate r).store =
        install db (respond db tx d skip fate r).commits.flatten := by
  rcases respond_store db tx d skip fate r with ⟨h1, h2⟩ | ⟨-, t, ht, -, h1, h2, -⟩
  · rw [h1, h2]
    exact ⟨trivial, rfl⟩
  · rw [h1, h2]
    simpa using (h t ht).redoes

/-- **One request keeps a world coherent.**

**Proof sketch.** The session that moves stays sound by `respond_sound`, or has just committed
and holds nothing.  Another session is untouched; if the first one committed, the locks of the
two are disjoint, so the log of the other can still be redone (`Locality.redoes_install`).
Locks stay disjoint because a request is served only when its locks are free. -/
theorem Coherent.serve {w : World E κ ρ} (h : Coherent L w) {i : ℕ} {s : Session E κ ρ}
    {r : Request E} (ok : r.Reply → Prog E ρ) (failed : E.Err → Prog E ρ) {d : E.Draws}
    {skip : E.Key → Bool} {fate : Fate E} (env : E.Env) (hs : w.sessions i = some s)
    (hgrant : ∀ t, (respond w.db s.conn.tx d skip fate r).tx = some t →
      ∀ k ∈ t.locks, ¬ w.HeldFrom i k) :
    Coherent L (w.serve i s ok failed (respond w.db s.conn.tx d skip fate r) env) := by
  have htx : ∀ t, s.conn.tx = some t → t.Sound w.db := fun t ht => h.sound i s t hs ht
  have hstore := respond_store w.db s.conn.tx d skip fate r
  have hredo := respond_redoes d skip fate r htx
  have hnew := respond_sound d skip fate r htx
  have hdisciplined := h.disciplined.serve ok failed _ env hs hgrant
  set served := respond w.db s.conn.tx d skip fate r with hserved
  set w' := w.serve i s ok failed served env with hw'
  refine ⟨?_, fun j s' t hs' ht => ?_, hdisciplined.locks, hdisciplined.commits, hdisciplined.idle⟩
  · show L.Inv served.store
    rw [hredo.2]
    exact L.inv_install h.inv hredo.1
  · show t.Sound served.store
    by_cases hj : j = i
    · subst hj
      simp only [hw', World.serve, Function.update_self, Option.some_inj] at hs'
      subst hs'
      rcases hstore with ⟨h1, -⟩ | ⟨-, -, -, -, -, -, h1⟩
      · rw [h1]
        exact hnew t ht
      · rw [Conn.after_tx, h1] at ht
        cases ht
    · simp only [hw', World.serve, Function.update_of_ne hj] at hs'
      have hst := h.sound j s' t hs' ht
      rcases hstore with ⟨h1, -⟩ | ⟨-, t₀, ht₀, -, h1, -, -⟩
      · rwa [h1]
      · rw [h1]
        refine ⟨L.redoes_install h.inv (fun e he k hk e' he' hk' => ?_)
          (htx t₀ ht₀).redoes hst.redoes, hst.saved⟩
        have hi : w.Holds i k := ⟨s, t₀, hs, ht₀, List.mem_flatMap.mpr ⟨e, he, hk⟩⟩
        exact h.locks i j k (Ne.symm hj) hi
          ⟨s', t, hs', ht, List.mem_flatMap.mpr ⟨e', he', hk'⟩⟩

/-- Every step keeps a world coherent. -/
theorem Coherent.step {w w' : World E κ ρ} (h : Coherent L w) (hstep : Step program w w') :
    Coherent L w' := by
  cases hstep with
  | call i c hfree => exact h.setSession i _ rfl (h.idle i hfree)
  | serve i s r ok failed d skip fate env hs hp hdraw hskip hgrant =>
    exact h.serve ok failed env hs hgrant
  | hangUp i s hs hend => exact h.setSession i _ rfl (h.commits i s hs)
  | pass env henv => exact ⟨h.inv, h.sound, h.locks, h.commits, h.idle⟩

/-- **Coherence of reachable worlds.** -/
theorem Reachable.coherent {w₀ w : World E κ ρ} (h₀ : Coherent L w₀)
    (h : Reachable program w₀ w) : Coherent L w := by
  induction h with
  | refl => exact h₀
  | step _ hstep ih => exact ih.step hstep

/-! ## The journal is a serial history -/

/-- **Commit-order serializability**: the logs of the journal, redone one after the other from
the store the system started with, give the committed store.

**Proof sketch.** Induction on the run.  Only a commit changes the store, and its log can be
redone on the store it commits into because the world is coherent. -/
theorem Reachable.history {db₀ : E.Store} (h₀ : L.Inv db₀) {env₀ : E.Env} {w : World E κ ρ}
    (h : Reachable program (World.start db₀ env₀) w) :
    Redoes w.logs.flatten db₀ ∧ w.db = install db₀ w.logs.flatten := by
  induction h with
  | refl => exact ⟨trivial, rfl⟩
  | @step w w' hr hstep ih =>
    have hco := hr.coherent (Coherent.start h₀ env₀)
    cases hstep with
    | call i c hfree => exact ih
    | serve i s r ok failed d skip fate env hs hp hdraw hskip hgrant =>
      have hredo := respond_redoes d skip fate r fun t ht => hco.sound i s t hs ht
      have hlogs : (w.serve i s ok failed (respond w.db s.conn.tx d skip fate r) env).logs =
          w.logs ++ (respond w.db s.conn.tx d skip fate r).commits := by
        simp [World.logs, World.serve, Function.comp_def]
      rw [hlogs, List.flatten_append, redoes_append, install_append, ← ih.2]
      exact ⟨⟨ih.1, hredo.1⟩, hredo.2⟩
    | hangUp i s hs hend => exact ih
    | pass env henv => exact ih

section Along

variable {C C' : World E κ ρ → World E κ ρ → Prop} {w₀ w w' : World E κ ρ}

/-- What is reached under a condition is reached. -/
theorem Along.reachable (h : Along C program w₀ w) : Reachable program w₀ w := by
  induction h with
  | refl => exact .refl
  | step _ hstep _ ih => exact ih.step hstep

/-- A run is a run under no condition. -/
theorem Reachable.along (h : Reachable program w₀ w) : Along (fun _ _ => True) program w₀ w := by
  induction h with
  | refl => exact .refl
  | step _ hstep ih => exact ih.step hstep trivial

theorem Reachable.trans (h : Reachable program w₀ w) (h' : Reachable program w w') :
    Reachable program w₀ w' := by
  induction h' with
  | refl => exact h
  | step _ hstep ih => exact ih.step hstep

/-- What does not hold at the beginning of a run and holds at its end comes about in some step. -/
theorem Reachable.crossing {P : World E κ ρ → Prop} (h : Reachable program w₀ w) (h₀ : ¬ P w₀)
    (hw : P w) : ∃ w₁ w₂, Reachable program w₀ w₁ ∧ Step program w₁ w₂ ∧ Reachable program w₂ w ∧
      ¬ P w₁ ∧ P w₂ := by
  induction h with
  | refl => exact absurd hw h₀
  | @step w w' hrun hstep ih =>
    by_cases hmid : P w
    · obtain ⟨w₁, w₂, hrun₁, hcross, hrun₂, hnot, hP⟩ := ih hmid
      exact ⟨w₁, w₂, hrun₁, hcross, hrun₂.step hstep, hnot, hP⟩
    · exact ⟨w, w', hrun, hstep, .refl, hmid, hw⟩

/-- A weaker condition reaches as much. -/
theorem Along.imp (hC : ∀ a b, C a b → C' a b) (h : Along C program w₀ w) : Along C' program w₀ w := by
  induction h with
  | refl => exact .refl
  | step _ hstep hc ih => exact ih.step hstep (hC _ _ hc)

/-- Runs under a condition can be put together. -/
theorem Along.trans (h : Along C program w₀ w) (h' : Along C program w w') :
    Along C program w₀ w' := by
  induction h' with
  | refl => exact h
  | step _ hstep hc ih => exact ih.step hstep hc

end Along

/-- The journal only grows. -/
theorem Reachable.journal_grows {w w' : World E κ ρ} (h : Reachable program w w') :
    w.journal <+: w'.journal := by
  induction h with
  | refl => exact List.prefix_refl _
  | step _ hstep ih =>
    refine ih.trans ?_
    cases hstep with
    | serve i s r ok failed d skip fate env hs hp hdraw hskip hgrant => exact List.prefix_append _ _
    | _ => exact List.prefix_refl _

/-- The statements of the journal have been executed.

**Proof sketch.** Induction on the run, for the logs of the open transactions as well: a request cuts
the log of its session back or extends it by the statement it has executed (`respond_log`). -/
theorem Reachable.executed {db₀ : E.Store} (h₀ : L.Inv db₀) {env₀ : E.Env} {w : World E κ ρ}
    (h : Reachable program (World.start db₀ env₀) w) : ∀ e ∈ w.logs.flatten, e.Executed := by
  suffices hinv : (∀ e ∈ w.logs.flatten, e.Executed) ∧
      ∀ i s, w.sessions i = some s → ∀ e ∈ openLog s.conn.tx, e.Executed from hinv.1
  induction h with
  | refl => exact ⟨by simp [World.start, World.logs], by simp [World.start]⟩
  | @step w w' hr hstep ih =>
    have hco := hr.coherent (Coherent.start h₀ env₀)
    have hset : ∀ i s, s.conn.tx = none → ∀ j s', (w.setSession i s).sessions j = some s' →
        ∀ e ∈ openLog s'.conn.tx, e.Executed := by
      intro i s htx j s' hs'
      by_cases hj : j = i
      · subst hj
        rw [World.setSession_self, Option.some_inj] at hs'
        subst hs'
        simp [htx]
      · rw [World.setSession_of_ne w s hj] at hs'
        exact ih.2 j s' hs'
    cases hstep with
    | call i c hfree => exact ⟨ih.1, hset i _ rfl⟩
    | serve i s r ok failed d skip fate env hs hp hdraw hskip hgrant =>
      have hlog := respond_log d skip fate r fun t ht => hco.sound i s t hs ht
      have hlogs : (w.serve i s ok failed (respond w.db s.conn.tx d skip fate r) env).logs =
          w.logs ++ (respond w.db s.conn.tx d skip fate r).commits := by
        simp [World.logs, World.serve, Function.comp_def]
      refine ⟨fun e he => ?_, fun j s' hs' e he => ?_⟩
      · rw [hlogs, List.flatten_append] at he
        rcases List.mem_append.mp he with he | he
        · exact ih.1 e he
        · rcases respond_store w.db s.conn.tx d skip fate r with ⟨-, hc⟩ | ⟨-, t, ht, -, -, hc, -⟩
          · simp [hc] at he
          · refine ih.2 i s hs e ?_
            rw [ht]
            simpa [hc] using he
      · by_cases hj : j = i
        · subst hj
          simp only [World.serve, Function.update_self, Option.some_inj] at hs'
          subst hs'
          rcases hlog with hp | ⟨q, rows, ws, -, hx, heq⟩
          · exact ih.2 j s hs e (hp.subset he)
          · replace he : e ∈ openLog (respond w.db s.conn.tx d skip fate r).tx := he
            rw [heq] at he
            rcases List.mem_append.mp he with he | he
            · exact ih.2 j s hs e he
            · rw [List.mem_singleton.mp he]
              exact ⟨skip, _, hx⟩
        · simp only [World.serve, Function.update_of_ne hj] at hs'
          exact ih.2 j s' hs' e he
    | hangUp i s hs hend => exact ⟨ih.1, hset i _ rfl⟩
    | pass env henv => exact ih

/-! ## Sessions are where their programs say -/

/-- **Programs inside the interleaved system**: if the programs satisfy their weakest
preconditions from a fresh connection, every session of a reachable world satisfies the
weakest precondition of what is left of its program.  The postconditions must not depend on
what a finished call has left open. -/
theorem Reachable.wp {A : κ → Assertion E} {Q : κ → Post E ρ} {db₀ : E.Store} {env₀ : E.Env}
    (hprog : ∀ c, (program c).wp Rely.any (A c) (Q c) Conn.fresh)
    (hQ : ∀ c x cn, Q c x cn → Q c x { cn with tx := none })
    {w : World E κ ρ} (h : Reachable program (World.start db₀ env₀) w) :
    ∀ i s, w.sessions i = some s → s.prog.wp Rely.any (A s.call) (Q s.call) s.conn := by
  induction h with
  | refl => simp [World.start]
  | @step w w' hr hstep ih =>
    intro j s' hs'
    cases hstep with
    | call i c hfree =>
      by_cases hj : j = i
      · subst hj
        rw [World.setSession_self, Option.some_inj] at hs'
        subst hs'
        exact hprog c
      · rw [World.setSession_of_ne w _ hj] at hs'
        exact ih j s' hs'
    | serve i s r ok failed d skip fate env hs hp hdraw hskip hgrant =>
      by_cases hj : j = i
      · subst hj
        simp only [World.serve, Function.update_self, Option.some_inj] at hs'
        subst hs'
        have hwp := ih j s hs
        rw [hp] at hwp
        have hk := hwp.2 w.db d skip fate trivial
        revert hk
        cases (respond w.db s.conn.tx d skip fate r).reply <;> exact id
      · simp only [World.serve, Function.update_of_ne hj] at hs'
        exact ih j s' hs'
    | hangUp i s hs hend =>
      by_cases hj : j = i
      · subst hj
        rw [World.setSession_self, Option.some_inj] at hs'
        subst hs'
        have hwp := ih j s hs
        rcases hend with ⟨a, ha⟩ | ⟨e, he⟩
        · rw [ha] at hwp ⊢
          exact hQ _ _ _ hwp
        · rw [he] at hwp ⊢
          exact hQ _ _ _ hwp
      · rw [World.setSession_of_ne w _ hj] at hs'
        exact ih j s' hs'
    | pass env henv => exact ih j s' hs'

/-! ## Induction over the commits of a run -/

/-- **What one step commits**: nothing, or the log of an open transaction, which its program allows
and which can be redone on the committed store. -/
theorem Step.commits_open {A : κ → Assertion E} {S : κ → List (Entry E) → Prop} {w w' : World E κ ρ}
    (hco : Coherent L w) (hwp : ∀ i s, w.sessions i = some s → ∃ Q, s.prog.wp Rely.any (A s.call) Q s.conn)
    (hA : ∀ c cn t, A c .commit cn → cn.tx = some t → t.aborted = false → S c t.log)
    (hstep : Step program w w') :
    (w'.db = w.db ∧ w'.journal = w.journal) ∨
    ∃ i s t, w.sessions i = some s ∧ s.conn.tx = some t ∧ S s.call t.log ∧ Redoes t.log w.db ∧
      w'.db = install w.db t.log ∧ w'.journal = w.journal ++ [(i, t.log)] := by
  cases hstep with
  | call i c hfree => exact .inl ⟨rfl, rfl⟩
  | serve i s r ok failed d skip fate env hs hp hdraw hskip hgrant =>
    rcases respond_store w.db s.conn.tx d skip fate r with
      ⟨h1, h2⟩ | ⟨hr, t, ht, hab, h1, h2, -⟩
    · exact .inl ⟨h1, by simp [World.serve, h2]⟩
    · obtain ⟨Q, hQ⟩ := hwp i s hs
      rw [hp] at hQ
      have hreq := hQ.1
      rw [hr] at hreq
      exact .inr ⟨i, s, t, hs, ht, hA _ _ _ hreq ht hab, (hco.sound i s t hs ht).redoes, h1,
        by simp [World.serve, h2]⟩
  | hangUp i s hs hend => exact .inl ⟨rfl, rfl⟩
  | pass env henv => exact .inl ⟨rfl, rfl⟩

/-- A step keeps the call of every session. -/
theorem Step.call_eq {w w' : World E κ ρ} (hstep : Step program w w') {i : ℕ}
    {s : Session E κ ρ} (hs : w.sessions i = some s) :
    ∃ s', w'.sessions i = some s' ∧ s'.call = s.call := by
  cases hstep with
  | call j c hfree =>
    have hij : i ≠ j := by
      rintro rfl
      rw [hfree] at hs
      cases hs
    exact ⟨s, by rw [World.setSession_of_ne w _ hij, hs], rfl⟩
  | serve j sj r ok failed d skip fate env hsj hp hdraw hskip hgrant =>
    by_cases hij : i = j
    · subst hij
      rw [hsj, Option.some_inj] at hs
      subst hs
      exact ⟨_, Function.update_self .., rfl⟩
    · exact ⟨s, by simp [World.serve, hij, hs], rfl⟩
  | hangUp j sj hsj hend =>
    by_cases hij : i = j
    · subst hij
      rw [hsj, Option.some_inj] at hs
      subst hs
      exact ⟨_, World.setSession_self w i _, rfl⟩
    · exact ⟨s, by rw [World.setSession_of_ne w _ hij, hs], rfl⟩
  | pass env henv => exact ⟨s, hs, rfl⟩

end Transactions
