import PaymentWebhook.Transactions.Interleaving

set_option relaxedAutoImplicit false
set_option autoImplicit false

/-!
# Calls on their own

A call that nobody interferes with, as a judgement: the program makes certain moves, from one
store and connection to another, after which some of it is left.  There is one rule for each
construct, so that a run of a procedure is put together from the answers of its statements.

## Main definitions

* `Transactions.Prog.Goes` — the judgement.
* `Transactions.Drawn` — the environment can supply what a sequence of moves draws.

## Main results

* `Transactions.Prog.Goes.call_eq` — the judgement is a run of `Prog.call`.
* `Transactions.Prog.Goes.along` — a call can go on on its own in the interleaved system while the
  other sessions hold no locks.
-/

namespace Transactions

variable {E : Engine} {α β : Type}

/-- The moves of a call, each with what its transaction had drawn when it was opened. -/
abbrev Trace (E : Engine) := List (Option E.Draws × Move E)

namespace Prog

/-- **A program on its own**: `p.Goes ms db c p' db' c'` says that `p` makes the moves `ms`, takes
the committed store from `db` to `db'` and the connection from `c` to `c'`, and that `p'` is left
of it. -/
inductive Goes : Prog E α → Trace E → E.Store → Conn E → Prog E α → E.Store → Conn E → Prop where
  | refl (p : Prog E α) (db : E.Store) (c : Conn E) : Goes p [] db c p db c
  | ok {r : Request E} {ok : r.Reply → Prog E α} {failed : E.Err → Prog E α} {m : Move E}
      {ms : Trace E} {db db' : E.Store} {c c' : Conn E} {p' : Prog E α} {a : r.Reply}
      (hlive : m.fate.dies = false)
      (hreply : (respond db c.tx m.draws m.skip m.fate r).reply = .ok a)
      (h : Goes (ok a) ms (respond db c.tx m.draws m.skip m.fate r).store
        (c.after (respond db c.tx m.draws m.skip m.fate r)) p' db' c') :
      Goes (.ask r ok failed) ((c.tx.map Tx.begun, m) :: ms) db c p' db' c'
  | error {r : Request E} {ok : r.Reply → Prog E α} {failed : E.Err → Prog E α} {m : Move E}
      {ms : Trace E} {db db' : E.Store} {c c' : Conn E} {p' : Prog E α} {e : E.Err}
      (hlive : m.fate.dies = false)
      (hreply : (respond db c.tx m.draws m.skip m.fate r).reply = .error e)
      (h : Goes (failed e) ms (respond db c.tx m.draws m.skip m.fate r).store
        (c.after (respond db c.tx m.draws m.skip m.fate r)) p' db' c') :
      Goes (.ask r ok failed) ((c.tx.map Tx.begun, m) :: ms) db c p' db' c'

namespace Goes

variable {ms ms' : Trace E} {db db' db'' : E.Store} {c c' c'' : Conn E}

/-! ## Rules of the combinators -/

/-- Going on. -/
theorem trans {p p' p'' : Prog E α} (h : p.Goes ms db c p' db' c')
    (h' : p'.Goes ms' db' c' p'' db'' c'') : p.Goes (ms ++ ms') db c p'' db'' c'' := by
  induction h with
  | refl p db c => exact h'
  | ok hlive hreply h ih => exact .ok hlive hreply (ih h')
  | error hlive hreply h ih => exact .error hlive hreply (ih h')

/-- The first part of a sequence. -/
theorem head {p p' : Prog E α} (f : α → Prog E β) (h : p.Goes ms db c p' db' c') :
    (p >>= f).Goes ms db c (p' >>= f) db' c' := by
  induction h with
  | refl p db c => exact .refl _ db c
  | ok hlive hreply h ih => exact .ok hlive hreply ih
  | error hlive hreply h ih => exact .error hlive hreply ih

/-- Sequencing. -/
theorem bind {p : Prog E α} {f : α → Prog E β} {a : α} {q : Prog E β}
    (h : p.Goes ms db c (.done a) db' c') (hf : (f a).Goes ms' db' c' q db'' c'') :
    (p >>= f).Goes (ms ++ ms') db c q db'' c'' :=
  (h.head f).trans hf

/-- `try`. -/
theorem attempt {p p' : Prog E α} (h : p.Goes ms db c p' db' c') :
    (attempt p).Goes ms db c (attempt p') db' c' := by
  induction h with
  | refl p db c => exact .refl _ db c
  | ok hlive hreply h ih => exact .ok hlive hreply ih
  | error hlive hreply h ih => exact .error hlive hreply ih

/-- What comes after a first request that has been answered. -/
theorem tail {r : Request E} {ok : r.Reply → Prog E α} {failed : E.Err → Prog E α}
    {y : Option E.Draws × Move E} {p' : Prog E α} {a : r.Reply}
    (h : (ask r ok failed).Goes (y :: ms) db c p' db' c')
    (hreply : (respond db c.tx y.2.draws y.2.skip y.2.fate r).reply = .ok a) :
    (ok a).Goes ms (respond db c.tx y.2.draws y.2.skip y.2.fate r).store
      (c.after (respond db c.tx y.2.draws y.2.skip y.2.fate r)) p' db' c' := by
  cases h with
  | ok hlive hok h =>
    obtain rfl := Except.ok.inj (hok.symm.trans hreply)
    exact h
  | error hlive herror h => cases herror.symm.trans hreply

/-! ## Rules of the requests -/

variable {b d : E.Draws} {skip : E.Key → Bool} {log l : List (Entry E)}
  {saved : Option (List (Entry E))} {ab : Bool} {cs : List (List (Entry E))} {rj : List (Request E)}
  {f : Unit → Prog E β} {q' : Prog E β}

/-- A request that the server answers. -/
theorem answered {r : Request E} {f : r.Reply → Prog E β} {failed : E.Err → Prog E β}
    {begun : Option E.Draws} {a : r.Reply}
    {db₁ : E.Store} {tx₁ : Option (Tx E)} {cs₁ : List (List (Entry E))}
    (hbegun : c.tx.map Tx.begun = begun) (hs : serve db c.tx d skip r = ⟨db₁, tx₁, cs₁, .ok a⟩)
    (h : (f a).Goes ms db₁ ⟨tx₁, c.commits ++ cs₁, c.rejected⟩ q' db' c') :
    (ask r f failed).Goes ((begun, ⟨d, skip, .answered⟩) :: ms) db c q' db' c' := by
  subst hbegun
  have hr : respond db c.tx d skip .answered r = ⟨db₁, tx₁, cs₁, .ok a⟩ := hs
  refine .ok rfl ?_ (a := a) ?_
  · rw [hr]
  · rw [hr]
    exact h

/-- `BEGIN`. -/
theorem begin (h : (f ()).Goes ms db ⟨some (Tx.opened d), cs, rj⟩ q' db' c') :
    (request .begin >>= f).Goes ((none, ⟨d, skip, .answered⟩) :: ms) db ⟨none, cs, rj⟩ q' db' c' := by
  show (ask .begin f .fail).Goes _ _ _ _ _ _
  exact answered rfl rfl (by rwa [List.append_nil])

/-- `SAVEPOINT`. -/
theorem savepoint (h : (f ()).Goes ms db ⟨some ⟨b, log, some log, false⟩, cs, rj⟩ q' db' c') :
    (request .savepoint >>= f).Goes ((some b, ⟨d, skip, .answered⟩) :: ms) db
      ⟨some ⟨b, log, saved, false⟩, cs, rj⟩ q' db' c' := by
  show (ask .savepoint f .fail).Goes _ _ _ _ _ _
  exact answered rfl rfl (by rwa [List.append_nil])

/-- `ROLLBACK TO SAVEPOINT`. -/
theorem rollbackTo (h : (f ()).Goes ms db ⟨some ⟨b, l, some l, false⟩, cs, rj⟩ q' db' c') :
    (request .rollbackTo >>= f).Goes ((some b, ⟨d, skip, .answered⟩) :: ms) db
      ⟨some ⟨b, log, some l, ab⟩, cs, rj⟩ q' db' c' := by
  show (ask .rollbackTo f .fail).Goes _ _ _ _ _ _
  exact answered rfl rfl (by rwa [List.append_nil])

/-- `RELEASE SAVEPOINT`. -/
theorem release (h : (f ()).Goes ms db ⟨some ⟨b, log, none, false⟩, cs, rj⟩ q' db' c') :
    (request .release >>= f).Goes ((some b, ⟨d, skip, .answered⟩) :: ms) db
      ⟨some ⟨b, log, some l, false⟩, cs, rj⟩ q' db' c' := by
  show (ask .release f .fail).Goes _ _ _ _ _ _
  exact answered rfl rfl (by rwa [List.append_nil])

/-- `COMMIT`. -/
theorem commit (h : (f ()).Goes ms (install db log) ⟨none, cs ++ [log], rj⟩ q' db' c') :
    (request .commit >>= f).Goes ((some b, ⟨d, skip, .answered⟩) :: ms) db
      ⟨some ⟨b, log, saved, false⟩, cs, rj⟩ q' db' c' := by
  show (ask .commit f .fail).Goes _ _ _ _ _ _
  exact answered rfl rfl h

/-- A statement that succeeds. -/
theorem query {q : E.Stmt} {f : E.Rows q → Prog E β} {rows : E.Rows q} {ws : List E.Write}
    (hx : E.exec q d skip (install db log) = .ok (rows, ws))
    (h : (f rows).Goes ms db ⟨some ⟨b, log ++ [⟨q, d, rows, ws⟩], saved, false⟩, cs, rj⟩ q' db' c') :
    (Prog.query q >>= f).Goes ((some b, ⟨d, skip, .answered⟩) :: ms) db
      ⟨some ⟨b, log, saved, false⟩, cs, rj⟩ q' db' c' := by
  have hs : serve db (some ⟨b, log, saved, false⟩) d skip (.run q) =
      ⟨db, some ⟨b, log ++ [⟨q, d, rows, ws⟩], saved, false⟩, [], .ok rows⟩ := by
    simp only [serve, hx]
  show (ask (.run q) f .fail).Goes _ _ _ _ _ _
  exact answered rfl hs (by rwa [List.append_nil])

/-- A statement that the server rejects. -/
theorem rejected {q : E.Stmt} {f : E.Rows q → Prog E β} {e : E.Err} :
    (Prog.query q >>= f).Goes [(some b, ⟨d, skip, .rejected e⟩)] db
      ⟨some ⟨b, log, saved, false⟩, cs, rj⟩ (.fail e) db
      ⟨some ⟨b, log, saved, true⟩, cs, rj ++ [.run q]⟩ := by
  show (ask (.run q) f .fail).Goes _ _ _ _ _ _
  refine .error (m := ⟨d, skip, .rejected e⟩) (c := ⟨some ⟨b, log, saved, false⟩, cs, rj⟩)
    (e := e) rfl rfl ?_
  have h := Goes.refl (.fail e : Prog E β) db ⟨some ⟨b, log, saved, true⟩, cs, rj ++ [.run q]⟩
  simpa [respond, afterError, Conn.after, Tx.abort] using h

end Goes

/-- What is left of a transaction whose body has `p` left. -/
def guarded (p : Prog E α) : Prog E α := do
  match ← attempt p with
  | .ok a => pure a
  | .error e =>
    let _ ← attempt (request .rollback)
    fail e

@[simp] theorem guarded_done (a : α) : guarded (.done a : Prog E α) = .done a := rfl

namespace Goes

variable {ms : Trace E} {db db' : E.Store} {c' : Conn E} {d : E.Draws} {skip : E.Key → Bool}
  {cs : List (List (Entry E))} {rj : List (Request E)}

/-- The frame of a transaction, while its body goes on. -/
theorem transaction {body p' : Prog E α}
    (h : body.Goes ms db ⟨some (Tx.opened d), cs, rj⟩ p' db' c') :
    (Prog.transaction body).Goes ((none, ⟨d, skip, .answered⟩) :: ms) db ⟨none, cs, rj⟩ (guarded p')
      db' c' :=
  (attempt (begin (f := fun _ => body) h)).head _

/-- The frame of a transaction whose body returns. -/
theorem transaction_done {body : Prog E α} {a : α}
    (h : body.Goes ms db ⟨some (Tx.opened d), cs, rj⟩ (.done a) db' c') :
    (Prog.transaction body).Goes ((none, ⟨d, skip, .answered⟩) :: ms) db ⟨none, cs, rj⟩ (.done a)
      db' c' :=
  transaction h

/-! ## The run of the judgement -/

variable {c : Conn E}

/-- The judgement is the run under its moves. -/
theorem run_eq {p : Prog E α} {a : α} (h : p.Goes ms db c (.done a) db' c') :
    ∀ (mv : ℕ → Move E) (k : ℕ), (∀ n y, ms[n]? = some y → mv (k + n) = y.2) →
      p.run mv k db c = (.returned a, db', c') := by
  generalize hp : Prog.done a = p' at h
  induction h with
  | refl p db c =>
    subst hp
    exact fun _ _ _ => rfl
  | @ok r ok failed m ms db db' c c' p' a hlive hreply h ih =>
    intro mv k hmv
    have hm : mv k = m := hmv 0 _ rfl
    have hrest := ih hp mv (k + 1) fun n y hy => by
      rw [Nat.add_right_comm]
      exact hmv (n + 1) y hy
    simp only [run, hm, hlive, hreply]
    exact hrest
  | @error r ok failed m ms db db' c c' p' e hlive hreply h ih =>
    intro mv k hmv
    have hm : mv k = m := hmv 0 _ rfl
    have hrest := ih hp mv (k + 1) fun n y hy => by
      rw [Nat.add_right_comm]
      exact hmv (n + 1) y hy
    simp only [run, hm, hlive, hreply]
    exact hrest

/-- **The judgement is a call on its own**, under a schedule that begins with its moves. -/
theorem call_eq {p : Prog E α} {a : α} (h : p.Goes ms db Conn.fresh (.done a) db' c')
    (mv : ℕ → Move E) (hmv : ∀ n y, ms[n]? = some y → mv n = y.2) :
    p.call mv db = (.returned a, db', c') :=
  h.run_eq mv 0 fun n y hy => by rw [Nat.zero_add]; exact hmv n y hy

end Goes

end Prog

/-! ## In the interleaved system -/

section Lifting

variable {κ ρ : Type} (program : κ → Prog E ρ)

/-- The environment can supply what the moves draw, nobody else holding a lock. -/
def Drawn : Trace E → E.Env → E.Env → Prop
  | [], env, env' => env' = env
  | y :: ms, env, env' =>
    y.2.skip = (fun _ => false) ∧ ∃ env₁, E.draw env y.1 y.2.draws env₁ ∧ Drawn ms env₁ env'

/-- No session holds a lock. -/
def World.Quiet (w : World E κ ρ) : Prop := ∀ j k, ¬ w.Holds j k

theorem World.Quiet.not_heldFrom {w : World E κ ρ} (h : w.Quiet) (i : ℕ) (k : E.Key) :
    ¬ w.HeldFrom i k :=
  fun ⟨j, _, hj⟩ => h j k hj

/-- **A call on its own inside the interleaved system**: while nobody else holds a lock, the session
makes the moves of its program one by one.  The environment changes by what they draw only.

**Proof sketch.** Induction on the judgement.  Each move is a step: its draws are supplied, and no
lock is in the way because no other session holds one. -/
theorem Prog.Goes.along {p p' : Prog E ρ} {ms : Trace E} {db db' : E.Store} {c c' : Conn E}
    {R : E.Env → E.Env → Prop} (hR : ∀ env begun d env', E.draw env begun d env' → R env env')
    (h : p.Goes ms db c p' db' c') :
    ∀ {w : World E κ ρ} {i : ℕ} {k : κ} {env' : E.Env}, w.sessions i = some ⟨k, p, c⟩ →
      w.db = db → (∀ key, ¬ w.HeldFrom i key) → Drawn ms w.env env' →
      ∃ w' new, Along (fun a b => R a.env b.env) program w w' ∧ w'.db = db' ∧ w'.env = env' ∧
        c'.commits = c.commits ++ new ∧ w'.journal = w.journal ++ new.map (fun log => (i, log)) ∧
        w'.sessions = Function.update w.sessions i (some ⟨k, p', c'⟩) := by
  have hserve : ∀ {w : World E κ ρ} {i : ℕ} {k : κ} {r : Request E} {ok : r.Reply → Prog E ρ}
      {failed : E.Err → Prog E ρ} {m : Move E} {c : Conn E} {env₁ : E.Env},
      w.sessions i = some ⟨k, .ask r ok failed, c⟩ → (∀ key, ¬ w.HeldFrom i key) →
      m.skip = (fun _ => false) → E.draw w.env (c.tx.map Tx.begun) m.draws env₁ →
      Step program w (w.serve i ⟨k, .ask r ok failed, c⟩ ok failed
        (respond w.db c.tx m.draws m.skip m.fate r) env₁) := by
    intro w i k r ok failed m c env₁ hs hq hskip hdraw
    refine .serve w i _ r ok failed m.draws m.skip m.fate env₁ hs rfl hdraw (fun key => ?_) ?_
    · rw [hskip]
      exact ⟨nofun, fun hheld => absurd hheld (hq key)⟩
    · exact fun _ _ key _ => hq key
  have hquiet : ∀ {w : World E κ ρ} {i : ℕ} {s : Session E κ ρ} {r : Request E}
      {ok : r.Reply → Prog E ρ} {failed : E.Err → Prog E ρ} {served : Served E r} {env₁ : E.Env},
      (∀ key, ¬ w.HeldFrom i key) → ∀ key, ¬ (w.serve i s ok failed served env₁).HeldFrom i key := by
    rintro w i s r ok failed served env₁ hq key ⟨j, hj, s', t, hs', ht, hk⟩
    refine hq key ⟨j, hj, s', t, ?_, ht, hk⟩
    simpa [World.serve, hj] using hs'
  induction h with
  | refl p db c =>
    rintro w i k env' hs rfl hq rfl
    exact ⟨w, [], .refl, rfl, rfl, by simp, by simp, (Function.update_eq_self_iff.mpr hs.symm).symm⟩
  | @ok r ok failed m ms db db' c c' p' a hlive hreply h ih =>
    rintro w i k env' hs rfl hq ⟨hskip, env₁, hdraw, hd⟩
    have hstep := hserve hs hq hskip hdraw
    obtain ⟨w', new, hr, h1, h2, h3, h4, h5⟩ := ih (k := k)
      (w := w.serve i ⟨k, .ask r ok failed, c⟩ ok failed
        (respond w.db c.tx m.draws m.skip m.fate r) env₁)
      (by simp only [World.serve, Function.update_self, hreply]) rfl (hquiet hq) hd
    refine ⟨w', (respond w.db c.tx m.draws m.skip m.fate r).commits ++ new,
      (Along.refl.step hstep (hR _ _ _ _ hdraw)).trans hr, h1, h2, by simp [h3],
      by simp [h4, World.serve], ?_⟩
    rw [h5]
    simp [World.serve]
  | @error r ok failed m ms db db' c c' p' e hlive hreply h ih =>
    rintro w i k env' hs rfl hq ⟨hskip, env₁, hdraw, hd⟩
    have hstep := hserve hs hq hskip hdraw
    obtain ⟨w', new, hr, h1, h2, h3, h4, h5⟩ := ih (k := k)
      (w := w.serve i ⟨k, .ask r ok failed, c⟩ ok failed
        (respond w.db c.tx m.draws m.skip m.fate r) env₁)
      (by simp only [World.serve, Function.update_self, hreply]) rfl (hquiet hq) hd
    refine ⟨w', (respond w.db c.tx m.draws m.skip m.fate r).commits ++ new,
      (Along.refl.step hstep (hR _ _ _ _ hdraw)).trans hr, h1, h2, by simp [h3],
      by simp [h4, World.serve], ?_⟩
    rw [h5]
    simp [World.serve]

end Lifting

end Transactions
