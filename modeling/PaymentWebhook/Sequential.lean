import PaymentWebhook.Calls

set_option relaxedAutoImplicit false
set_option autoImplicit false

/-!
# One call after another

Runs of the system in which at most one call holds locks at a time.  In a world that rests, a call
can open its transaction, and a call that can go on on its own does, after which the world rests
again.  The clock does not run backwards in these runs: it stands still, or is put forward.

## Main definitions

* `PaymentWebhook.Numbered` — the moves of a call at one time, drawing consecutive numbers.
* `PaymentWebhook.Resting` — a world that has been reached, in which nobody holds a lock.
* `PaymentWebhook.Begun` — a session has opened the transaction of its call.

## Main results

* `PaymentWebhook.Store.exists_fresh` — there are numbers left to draw.
* `PaymentWebhook.Resting.begin`, `PaymentWebhook.Resting.finish` — a call is made on its own.
-/

namespace PaymentWebhook

open Transactions

/-! ## Numbers to draw -/

/-- The draw of the number `n` at the time `now`, in a transaction opened at the time `start`. -/
def Draws.nth (now start : Timestamp) (n : ℕ) : Draws := ⟨now, start, n, n, n, n, n⟩

@[simp] theorem Draws.nth_now (now start : Timestamp) (n : ℕ) : (Draws.nth now start n).now = now :=
  rfl

@[simp] theorem Draws.nth_start (now start : Timestamp) (n : ℕ) :
    (Draws.nth now start n).start = start := rfl

/-- The identity columns have given no number from `n` on. -/
structure Env.Below (env : Env) (n : ℕ) : Prop where
  event : env.nextEventId ≤ n
  delivery : env.nextDeliveryId ≤ n
  history : env.nextHistoryId ≤ n
  run : env.nextRunId ≤ n
  detail : env.nextDetailId ≤ n

/-- The number `n` is the `id` of no row. -/
structure Store.Fresh (s : Store) (n : ℕ) : Prop where
  event : s.look (.eventPk n) = none
  delivery : s.look (.delivery n) = none
  history : s.look (.history n) = none
  run : s.look (.run n) = none
  detail : s.look (.detail n) = none

/-- Finitely many rows have finitely many numbers. -/
theorem exists_above {ρ : Type} (f : ρ → ℕ) (t : List ρ) : ∃ m, ∀ r ∈ t, f r < m := by
  induction t with
  | nil => exact ⟨0, by simp⟩
  | cons r t ih =>
    obtain ⟨m, hm⟩ := ih
    refine ⟨max m (f r + 1), ?_⟩
    rintro x (_ | ⟨_, hx⟩)
    · omega
    · have := hm x hx
      omega

/-- From some number on, all numbers are fresh. -/
theorem Store.exists_fresh (s : Store) (env : Env) : ∃ n, env.Below n ∧ ∀ m, n ≤ m → s.Fresh m := by
  obtain ⟨e, he⟩ := exists_above EventRow.id s.events
  obtain ⟨d, hd⟩ := exists_above DeliveryRow.id s.deliveries
  obtain ⟨h, hh⟩ := exists_above HistoryRow.id s.history
  obtain ⟨r, hr⟩ := exists_above RunRow.id s.runs
  obtain ⟨t, ht⟩ := exists_above DetailRow.id s.details
  refine ⟨e + d + h + r + t + env.nextEventId + env.nextDeliveryId + env.nextHistoryId +
    env.nextRunId + env.nextDetailId, ⟨by omega, by omega, by omega, by omega, by omega⟩,
    fun m hm => ⟨?_, ?_, ?_, ?_, ?_⟩⟩
  · rw [Store.look, Option.map_eq_none_iff, Store.eventAt?, Tables.find_eq_none]
    intro x hx hk
    have hlt := he x hx
    obtain rfl : m = x.id := by simpa [EventRow.keys] using hk
    omega
  · rw [Store.look, Option.map_eq_none_iff, Tables.find_eq_none]
    intro x hx hk
    have hlt := hd x hx
    obtain rfl : m = x.id := by simpa [DeliveryRow.keys] using hk
    omega
  · rw [Store.look, Option.map_eq_none_iff, Tables.find_eq_none]
    intro x hx hk
    have hlt := hh x hx
    obtain rfl : m = x.id := by simpa [HistoryRow.keys] using hk
    omega
  · rw [Store.look, Option.map_eq_none_iff, Store.run?, Tables.find_eq_none]
    intro x hx hk
    have hlt := hr x hx
    obtain rfl : m = x.id := by simpa [RunRow.keys] using hk
    omega
  · rw [Store.look, Option.map_eq_none_iff, Tables.find_eq_none]
    intro x hx hk
    have hlt := ht x hx
    obtain rfl : m = x.id := by simpa [DetailRow.keys] using hk
    omega

variable [Platform]

/-- The moves of a call at the time `now`, drawing consecutive numbers from `n` on, and skipping no
row. -/
def Numbered (now : Timestamp) : ℕ → Trace postgres → Prop
  | _, [] => True
  | n, y :: ms => y.2.draws = Draws.nth now ((y.1.map Draws.start).getD now) n ∧
      y.2.skip = noSkip ∧ Numbered now (n + 1) ms

theorem numbered_append {now : Timestamp} {ms ms' : Trace postgres} {n : ℕ} :
    Numbered now n (ms ++ ms') ↔ Numbered now n ms ∧ Numbered now (n + ms.length) ms' := by
  induction ms generalizing n with
  | nil => simp [Numbered]
  | cons y ms ih =>
    have hlen : n + (ms.length + 1) = n + 1 + ms.length := by omega
    simp only [List.cons_append, Numbered, ih, List.length_cons, hlen, and_assoc]

/-- The statements of a log have drawn consecutive numbers. -/
def NumberedLog (now start : Timestamp) : ℕ → Log → Prop
  | _, [] => True
  | n, e :: log => e.draws = Draws.nth now start n ∧ NumberedLog now start (n + 1) log

theorem numberedLog_append {now start : Timestamp} {log log' : Log} {n : ℕ} :
    NumberedLog now start n (log ++ log') ↔
      NumberedLog now start n log ∧ NumberedLog now start (n + log.length) log' := by
  induction log generalizing n with
  | nil => simp [NumberedLog]
  | cons e log ih =>
    have hlen : n + (log.length + 1) = n + 1 + log.length := by omega
    simp only [List.cons_append, NumberedLog, ih, List.length_cons, hlen, and_assoc]

theorem numbered_requests {now : Timestamp} {b : Draws} {log : Log} {n : ℕ}
    (h : NumberedLog now b.start n log) : Numbered now n (requests b log) := by
  induction log generalizing n with
  | nil => trivial
  | cons e log ih => exact ⟨h.1, rfl, ih h.2⟩

/-- The environment can supply consecutive numbers. -/
theorem drawn_of_numbered {ms : Trace postgres} :
    ∀ {n : ℕ} {env : Env}, env.Below n → Numbered env.clock n ms →
      ∃ env', Drawn ms env env' ∧ env'.clock = env.clock := by
  induction ms with
  | nil => exact fun _ _ => ⟨_, rfl, rfl⟩
  | cons y ms ih =>
    intro n env hn h
    obtain ⟨hd, hskip, h⟩ := h
    let env₁ : Env := ⟨env.clock, n + 1, n + 1, n + 1, n + 1, n + 1⟩
    have hlt : n < n + 1 := Nat.lt_succ_self n
    have hdraw : Env.Draw env y.1 y.2.draws env₁ := by
      rw [hd]
      exact ⟨rfl, rfl, ⟨hn.event, hlt⟩, ⟨hn.delivery, hlt⟩, ⟨hn.history, hlt⟩, ⟨hn.run, hlt⟩,
        ⟨hn.detail, hlt⟩, rfl⟩
    have hbelow : env₁.Below (n + 1) := ⟨le_rfl, le_rfl, le_rfl, le_rfl, le_rfl⟩
    obtain ⟨env', hrest, hclock⟩ := ih hbelow h
    exact ⟨env', ⟨hskip, env₁, hdraw, hrest⟩, hclock⟩

/-! ## Resting worlds -/

/-- **A resting world**: it has been reached with a clock that never ran backwards, nobody holds a
lock, and there have been finitely many calls. -/
structure Resting (cfg : WorkerConfig) (w : State) : Prop where
  run : ReachForward cfg .empty w
  quiet : w.Quiet
  free : ∃ n, ∀ i, n ≤ i → w.sessions i = none

/-- A resting world that has been reached from another one, at the same time. -/
structure Follows (cfg : WorkerConfig) (w w' : State) : Prop where
  rest : Resting cfg w'
  run : Along Forward (program cfg) w w'
  clock : w'.env.clock = w.env.clock

/-- What follows when new calls only have been made. -/
structure Continues (cfg : WorkerConfig) (w w' : State) : Prop extends Follows cfg w w' where
  kept : ∀ j s, w.sessions j = some s → w'.sessions j = some s

variable {cfg : WorkerConfig} {w w' w'' : State} {n i : ℕ} {c : Call} {b : Draws}

/-- A resting world is reachable. -/
theorem Resting.reach (h : Resting cfg w) : Reach cfg .empty w := h.run.reach

/-- The rows of a resting world have their keys for themselves. -/
theorem Resting.keyed (h : Resting cfg w) : w.db.Keyed := (h.reach.coherent Store.keyed_empty).inv

theorem Follows.trans (h : Follows cfg w w') (h' : Follows cfg w' w'') : Follows cfg w w'' :=
  ⟨h'.rest, h.run.trans h'.run, h'.clock.trans h.clock⟩

theorem Continues.trans (h : Continues cfg w w') (h' : Continues cfg w' w'') : Continues cfg w w'' :=
  ⟨h.toFollows.trans h'.toFollows, fun j s hs => h'.kept j s (h.kept j s hs)⟩

/-- A new call that has gone on is a new call. -/
theorem Continues.finish (h : Continues cfg w w') (hi : w.sessions i = none)
    (h' : Follows cfg w' w'') {s : Session postgres Call Answer}
    (hs : w''.sessions = Function.update w'.sessions i (some s)) : Continues cfg w w'' := by
  refine ⟨h.toFollows.trans h', fun j s' hs' => ?_⟩
  have hj : j ≠ i := by
    rintro rfl
    rw [hi] at hs'
    cases hs'
  rw [hs, Function.update_of_ne hj]
  exact h.kept j s' hs'

/-- The other sessions are those of before. -/
theorem update_sessions {f g : ℕ → Option (Session postgres Call Answer)}
    (h : ∀ j, j ≠ i → f j = g j) (s : Option (Session postgres Call Answer)) :
    Function.update f i s = Function.update g i s := by
  funext j
  by_cases hj : j = i
  · rw [hj, Function.update_self, Function.update_self]
  · rw [Function.update_of_ne hj, Function.update_of_ne hj, h j hj]

/-- The world in which nothing has been called rests. -/
theorem Resting.start (cfg : WorkerConfig) (env : Env) : Resting cfg (World.start .empty env) where
  run := ⟨env, .refl⟩
  quiet := by simp [World.Quiet, World.Holds, World.start]
  free := ⟨0, fun _ _ => rfl⟩

/-- Time passes. -/
theorem Resting.later (h : Resting cfg w) {t : Timestamp} (ht : w.env.clock ≤ t) :
    Resting cfg { w with env := { w.env with clock := t } } ∧
      Along Forward (program cfg) w { w with env := { w.env with clock := t } } := by
  have hrun : Along Forward (program cfg) w { w with env := { w.env with clock := t } } :=
    Along.refl.step (.pass w _ rfl) ht
  obtain ⟨env₀, hreach⟩ := h.run
  exact ⟨⟨⟨env₀, hreach.trans hrun⟩, h.quiet, h.free⟩, hrun⟩

/-- **A session goes on on its own** in a resting world, which then rests again. -/
theorem Resting.resume (h : Resting cfg w) {p p' : Prog postgres Answer} {conn c' : Conn postgres}
    {ms : Trace postgres} {db' : Store} (hs : w.sessions i = some ⟨c, p, conn⟩)
    (hgoes : p.Goes ms w.db conn p' db' c') (hms : Numbered w.env.clock n ms) (hn : w.env.Below n)
    (hlocks : ∀ t, c'.tx = some t → t.locks = []) :
    ∃ w' new, Follows cfg w w' ∧ w'.db = db' ∧ c'.commits = conn.commits ++ new ∧
      w'.journal = w.journal ++ new.map (fun log => (i, log)) ∧
      w'.sessions = Function.update w.sessions i (some ⟨c, p', c'⟩) := by
  obtain ⟨m, hfree⟩ := h.free
  obtain ⟨env₀, hreach⟩ := h.run
  obtain ⟨env', hdrawn, hclock⟩ := drawn_of_numbered hn hms
  have hdraw : ∀ (env : Env) (begun : Option Draws) (d : Draws) (env' : Env),
      Env.Draw env begun d env' → env.clock ≤ env'.clock := fun _ _ _ _ hd => hd.clock.ge
  obtain ⟨w', new, hrun, hdb, henv, hnew, hjournal, hsessions⟩ :=
    hgoes.along (program cfg) hdraw hs rfl (h.quiet.not_heldFrom i) hdrawn
  have hforward : Along Forward (program cfg) w w' := hrun
  refine ⟨w', new, ⟨⟨⟨env₀, hreach.trans hforward⟩, ?_, m, fun j hj => ?_⟩, hforward, ?_⟩, hdb, hnew,
    hjournal, hsessions⟩
  · rintro j k ⟨s, t, hs', ht, hk⟩
    rw [hsessions] at hs'
    by_cases hj : j = i
    · subst hj
      rw [Function.update_self, Option.some_inj] at hs'
      subst hs'
      simp [hlocks t ht] at hk
    · rw [Function.update_of_ne hj] at hs'
      exact h.quiet j k ⟨s, t, hs', ht, hk⟩
  · have hji : j ≠ i := by
      rintro rfl
      rw [hfree j hj] at hs
      cases hs
    rw [hsessions, Function.update_of_ne hji, hfree j hj]
  · rw [henv, hclock]

/-- Session `i` has opened the transaction of its call, and has made no other request. -/
def Begun (cfg : WorkerConfig) (w : State) (i : ℕ) (c : Call) (b : Draws) : Prop :=
  ∃ ok failed, program cfg c = .ask .begin ok failed ∧
    w.sessions i = some ⟨c, ok (), ⟨some (Tx.opened b), [], []⟩⟩

/-- A session that has begun is a session. -/
theorem Begun.called (h : Begun cfg w i c b) : Called w i c :=
  let ⟨_, _, _, hs⟩ := h
  ⟨_, hs, rfl⟩

/-- **A call is begun** in a resting world. -/
theorem Resting.begin (h : Resting cfg w) (c : Call) :
    ∃ w' i b, Continues cfg w w' ∧ w.sessions i = none ∧ Begun cfg w' i c b ∧
      b.start = w.env.clock ∧ w'.db = w.db ∧ w'.journal = w.journal ∧
      ∀ j, j ≠ i → w'.sessions j = w.sessions j := by
  obtain ⟨m, hfree⟩ := h.free
  obtain ⟨env₀, hreach⟩ := h.run
  obtain ⟨n, hn, -⟩ := w.db.exists_fresh w.env
  obtain ⟨ok, failed, hp⟩ : ∃ ok failed, program cfg c = .ask .begin ok failed := by
    cases c <;> exact ⟨_, _, rfl⟩
  let w₁ : State := w.setSession m ⟨c, program cfg c, Conn.fresh⟩
  have hcall : Along Forward (program cfg) w w₁ := Along.refl.step (.call w m c (hfree m le_rfl)) le_rfl
  have hquiet : w₁.Quiet := by
    rintro j k ⟨s, t, hs, ht, hk⟩
    by_cases hj : j = m
    · subst hj
      rw [World.setSession_self, Option.some_inj] at hs
      subst hs
      cases ht
    · rw [World.setSession_of_ne w _ hj] at hs
      exact h.quiet j k ⟨s, t, hs, ht, hk⟩
  have hrest : Resting cfg w₁ := by
    refine ⟨⟨env₀, hreach.trans hcall⟩, hquiet, m + 1, fun j hj => ?_⟩
    rw [World.setSession_of_ne w _ (by omega)]
    exact hfree j (by omega)
  let b := Draws.nth w.env.clock w.env.clock n
  have hgoes : (Prog.ask (E := postgres) .begin ok failed).Goes [answered none b noSkip] w.db
      Conn.fresh (ok ()) w.db ⟨some (Tx.opened b), [], []⟩ :=
    .answered rfl rfl (.refl _ _ _)
  have hs : w₁.sessions m = some ⟨c, .ask .begin ok failed, Conn.fresh⟩ := by
    rw [World.setSession_self, hp]
  have hlocks : ∀ t, (some (Tx.opened b) : Option (Tx postgres)) = some t → t.locks = [] := by
    rintro t ⟨⟩
    rfl
  obtain ⟨w', new, hfollows, hdb, hnew, hjournal, hsessions⟩ :=
    hrest.resume hs hgoes ⟨rfl, rfl, trivial⟩ hn hlocks
  obtain rfl : new = [] := by simpa using hnew.symm
  have hjournal' : w'.journal = w₁.journal := by simpa using hjournal
  refine ⟨w', m, b, ⟨⟨hfollows.rest, hcall.trans hfollows.run, hfollows.clock⟩, fun j s hj => ?_⟩,
    hfree m le_rfl, ⟨ok, failed, hp, ?_⟩, rfl, hdb, hjournal', fun j hj => ?_⟩
  · have hne : j ≠ m := by
      rintro rfl
      rw [hfree j le_rfl] at hj
      cases hj
    rw [hsessions, Function.update_of_ne hne, World.setSession_of_ne w _ hne, hj]
  · rw [hsessions, Function.update_self]
  · rw [hsessions, Function.update_of_ne hj, World.setSession_of_ne w _ hj]

/-- **A call that has begun goes on on its own** in a resting world. -/
theorem Resting.finish (h : Resting cfg w) (hi : Begun cfg w i c b) {ms : Trace postgres}
    {p' : Prog postgres Answer} {db' : Store} {c' : Conn postgres}
    (hgoes : (program cfg c).Goes (answered none b noSkip :: ms) w.db Conn.fresh p' db' c')
    (hms : Numbered w.env.clock n ms) (hn : w.env.Below n)
    (hlocks : ∀ t, c'.tx = some t → t.locks = []) :
    ∃ w', Follows cfg w w' ∧ w'.db = db' ∧
      w'.journal = w.journal ++ c'.commits.map (fun log => (i, log)) ∧
      w'.sessions = Function.update w.sessions i (some ⟨c, p', c'⟩) := by
  obtain ⟨ok, failed, hp, hs⟩ := hi
  rw [hp] at hgoes
  have htail : (ok ()).Goes ms w.db ⟨some (Tx.opened b), [], []⟩ p' db' c' := by
    exact hgoes.tail rfl
  obtain ⟨w', new, hfollows, hdb, hnew, hjournal, hsessions⟩ := h.resume hs htail hms hn hlocks
  obtain rfl : c'.commits = new := hnew
  exact ⟨w', hfollows, hdb, hjournal, hsessions⟩

end PaymentWebhook
