import PaymentWebhook.Transactions.Program

set_option relaxedAutoImplicit false
set_option autoImplicit false

/-!
# Weakest preconditions for client programs

A program is verified against a server that may fail any request, and that answers as on *some*
store: which one, a client does not know while other connections commit.  What is known of the store
is the *rely* `R`, for a call on its own that the store stays what it is.  `Prog.wp R A Q` is the
weakest precondition of a program for the postcondition `Q`, with an assertion `A` that has to hold
at every request it makes.  What it establishes about the logs a call commits is used twice: for a
call on its own (`Prog.run_wp`) and for a call interleaved with others.

## Main definitions

* `Transactions.Prog.wp` — the weakest precondition.
* `Transactions.Prog.Unwinds` — what is left to show when the body of a transaction throws.

## Main results

* `Transactions.Prog.wp_bind`, `Transactions.Prog.wp_attempt` — the structural rules.
* `Transactions.Prog.wp_query`, `Transactions.Prog.wp_commit`, `Transactions.Prog.wp_savepoint`,
  … — one rule for each request.
* `Transactions.Prog.wp_transaction` — the rule of the transaction frame.
* `Transactions.Prog.run_wp` — soundness for calls on their own.
-/

namespace Transactions

variable {E : Engine} {α β : Type}

/-- An assertion on every request a program makes. -/
abbrev Assertion (E : Engine) := Request E → Conn E → Prop

/-- A postcondition: on the value returned or the error thrown. -/
abbrev Post (E : Engine) (α : Type) := Except E.Err α → Conn E → Prop

/-- What is known of the committed store when a request is served. -/
abbrev Rely (E : Engine) := Conn E → E.Store → Prop

/-- Nothing is known of the store: other connections commit. -/
def Rely.any : Rely E := fun _ _ => True

/-- Nobody else commits: the store is `db` until the call itself has committed. -/
def Rely.alone (db : E.Store) : Rely E := fun c s => c.commits = [] → s = db

/-- What a failed request leaves of a transaction: it is aborted, or gone with its
connection. -/
def Broken (t : Tx E) (tx : Option (Tx E)) : Prop := tx = none ∨ tx = some t.abort

namespace Prog

/-- **The weakest precondition** of a program: `A` holds at every request it makes and `Q` when
it ends, whatever the server answers on a store that `R` admits. -/
def wp (R : Rely E) (A : Assertion E) (Q : Post E α) : Prog E α → Conn E → Prop
  | done a, c => Q (.ok a) c
  | fail e, c => Q (.error e) c
  | ask r ok failed, c => A r c ∧ ∀ db d skip fate, R c db →
      match (respond db c.tx d skip fate r).reply with
      | .ok x => (ok x).wp R A Q (c.after (respond db c.tx d skip fate r))
      | .error e => (failed e).wp R A Q (c.after (respond db c.tx d skip fate r))

variable {R : Rely E} {A : Assertion E} {Q Q' : Post E α}

@[simp] theorem wp_done (a : α) (c : Conn E) : (done a).wp R A Q c ↔ Q (.ok a) c := Iff.rfl

@[simp] theorem wp_pure (a : α) (c : Conn E) : (pure a : Prog E α).wp R A Q c ↔ Q (.ok a) c := Iff.rfl

@[simp] theorem wp_fail (e : E.Err) (c : Conn E) :
    (fail e : Prog E α).wp R A Q c ↔ Q (.error e) c := Iff.rfl

/-- Weakest preconditions are monotone in the postcondition. -/
theorem wp_mono (h : ∀ x c, Q x c → Q' x c) :
    ∀ (p : Prog E α) (c : Conn E), p.wp R A Q c → p.wp R A Q' c
  | done a, c, hp => h _ _ hp
  | fail e, c, hp => h _ _ hp
  | ask r ok failed, c, hp => by
    refine ⟨hp.1, fun db d skip fate hR => ?_⟩
    have hk := hp.2 db d skip fate hR
    revert hk
    cases (respond db c.tx d skip fate r).reply with
    | ok x => exact wp_mono h (ok x) _
    | error e => exact wp_mono h (failed e) _

/-- Weakest preconditions are monotone in the assertion. -/
theorem wp_imp {A' : Assertion E} (h : ∀ r c, A r c → A' r c) :
    ∀ (p : Prog E α) (c : Conn E), p.wp R A Q c → p.wp R A' Q c
  | done a, c, hp => hp
  | fail e, c, hp => hp
  | ask r ok failed, c, hp => by
    refine ⟨h _ _ hp.1, fun db d skip fate hR => ?_⟩
    have hk := hp.2 db d skip fate hR
    revert hk
    cases (respond db c.tx d skip fate r).reply with
    | ok x => exact wp_imp h (ok x) _
    | error e => exact wp_imp h (failed e) _

/-- The more is known of the store, the weaker the precondition. -/
theorem wp_rely {R' : Rely E} (h : ∀ c db, R' c db → R c db) :
    ∀ (p : Prog E α) (c : Conn E), p.wp R A Q c → p.wp R' A Q c
  | done a, c, hp => hp
  | fail e, c, hp => hp
  | ask r ok failed, c, hp => by
    refine ⟨hp.1, fun db d skip fate hR => ?_⟩
    have hk := hp.2 db d skip fate (h c db hR)
    revert hk
    cases (respond db c.tx d skip fate r).reply with
    | ok x => exact wp_rely h (ok x) _
    | error e => exact wp_rely h (failed e) _

/-- Two postconditions at once. -/
theorem wp_and {A' : Assertion E} :
    ∀ (p : Prog E α) (c : Conn E), p.wp R A Q c → p.wp R A' Q' c →
      p.wp R (fun r c => A r c ∧ A' r c) (fun x c => Q x c ∧ Q' x c) c
  | done a, c, hp, hp' => ⟨hp, hp'⟩
  | fail e, c, hp, hp' => ⟨hp, hp'⟩
  | ask r ok failed, c, hp, hp' => by
    refine ⟨⟨hp.1, hp'.1⟩, fun db d skip fate hR => ?_⟩
    have hk := hp.2 db d skip fate hR
    have hk' := hp'.2 db d skip fate hR
    revert hk hk'
    cases (respond db c.tx d skip fate r).reply with
    | ok x => exact wp_and (ok x) _
    | error e => exact wp_and (failed e) _

/-- What a call was told to have failed stays in its record. -/
theorem wp_rejected {r₀ : Request E} :
    ∀ (p : Prog E α) (c : Conn E), r₀ ∈ c.rejected →
      p.wp R (fun _ c => r₀ ∈ c.rejected) (fun _ c => r₀ ∈ c.rejected) c
  | done a, c, hc => hc
  | fail e, c, hc => hc
  | ask r ok failed, c, hc => by
    refine ⟨hc, fun db d skip fate hR => ?_⟩
    cases h : (respond db c.tx d skip fate r).reply with
    | ok x => exact wp_rejected (ok x) _ (by simpa [Conn.after, h] using hc)
    | error e => exact wp_rejected (failed e) _ (by simp [Conn.after, h, hc])

/-- **Sequencing.** -/
theorem wp_bind {Q : Post E β} (f : α → Prog E β) :
    ∀ (p : Prog E α) (c : Conn E),
      p.wp R A (fun x c => match x with
        | .ok a => (f a).wp R A Q c
        | .error e => Q (.error e) c) c →
      (p >>= f).wp R A Q c
  | done a, c, hp => hp
  | fail e, c, hp => hp
  | ask r ok failed, c, hp => by
    refine ⟨hp.1, fun db d skip fate hR => ?_⟩
    have hk := hp.2 db d skip fate hR
    revert hk
    cases (respond db c.tx d skip fate r).reply with
    | ok x => exact wp_bind f (ok x) _
    | error e => exact wp_bind f (failed e) _

/-- **`try`.** -/
theorem wp_attempt {Q : Post E (Except E.Err α)} :
    ∀ (p : Prog E α) (c : Conn E),
      p.wp R A (fun x c => Q (.ok x) c) c → (attempt p).wp R A Q c
  | done a, c, hp => hp
  | fail e, c, hp => hp
  | ask r ok failed, c, hp => by
    refine ⟨hp.1, fun db d skip fate hR => ?_⟩
    have hk := hp.2 db d skip fate hR
    revert hk
    cases (respond db c.tx d skip fate r).reply with
    | ok x => exact wp_attempt (ok x) _
    | error e => exact wp_attempt (failed e) _

/-! ## One rule for each request -/

variable {b : E.Draws} {log l : List (Entry E)} {saved : Option (List (Entry E))}
  {cs : List (List (Entry E))} {rj : List (Request E)}

/-- A single request: its answer or its error is the result. -/
theorem wp_request {r : Request E} {Q : Post E r.Reply} {c : Conn E} (hA : A r c)
    (h : ∀ db d skip fate, R c db → match (respond db c.tx d skip fate r).reply with
      | .ok x => Q (.ok x) (c.after (respond db c.tx d skip fate r))
      | .error e => Q (.error e) (c.after (respond db c.tx d skip fate r))) :
    (request r).wp R A Q c := by
  refine ⟨hA, fun db d skip fate hR => ?_⟩
  have hk := h db d skip fate hR
  revert hk
  cases (respond db c.tx d skip fate r).reply <;> exact id

/-- A statement of an open transaction: it is answered as on a store that the rely admits, or it
fails. -/
theorem wp_query {q : E.Stmt} {Q : Post E (E.Rows q)}
    (hA : A (.run q) ⟨some ⟨b, log, saved, false⟩, cs, rj⟩)
    (hok : ∀ db d skip rows ws, R ⟨some ⟨b, log, saved, false⟩, cs, rj⟩ db →
      E.exec q d skip (install db log) = .ok (rows, ws) →
      Q (.ok rows) ⟨some ⟨b, log ++ [⟨q, d, rows, ws⟩], saved, false⟩, cs, rj⟩)
    (herr : ∀ e tx, Broken ⟨b, log, saved, false⟩ tx →
      Q (.error e) ⟨tx, cs, rj ++ [.run q]⟩) :
    (query q).wp R A Q ⟨some ⟨b, log, saved, false⟩, cs, rj⟩ := by
  refine wp_request (r := .run q) hA fun db d skip fate hR => ?_
  rcases fate with _ | e | ⟨e, _ | _⟩ | ⟨_ | _⟩
  · simp only [respond, serve]
    cases he : E.exec q d skip (install db log) with
    | error e => simpa [Conn.after, Tx.abort] using herr e _ (.inr rfl)
    | ok x =>
      obtain ⟨rows, ws⟩ := x
      simpa [Conn.after] using hok db d skip rows ws hR he
  · simpa [respond, Conn.after, afterError] using herr e _ (.inr rfl)
  · simpa [respond, Conn.after] using herr e _ (.inl rfl)
  · have hc := serve_store db (some ⟨b, log, saved, false⟩) d skip (.run q)
    rcases hc with ⟨-, hc⟩ | ⟨h, -⟩
    · simpa [respond, Conn.after, hc] using herr e _ (.inl rfl)
    · exact absurd h (by simp)
  · simpa [respond, Conn.after] using herr _ _ (.inl rfl)
  · have hc := serve_store db (some ⟨b, log, saved, false⟩) d skip (.run q)
    rcases hc with ⟨-, hc⟩ | ⟨h, -⟩
    · simpa [respond, Conn.after, hc] using herr _ _ (.inl rfl)
    · exact absurd h (by simp)

/-- `BEGIN` on an idle connection. -/
theorem wp_begin {Q : Post E Unit} (hA : A .begin ⟨none, cs, rj⟩)
    (hok : ∀ d, Q (.ok ()) ⟨some (Tx.opened d), cs, rj⟩)
    (herr : ∀ e, Q (.error e) ⟨none, cs, rj ++ [.begin]⟩) :
    (request .begin).wp R A Q ⟨none, cs, rj⟩ := by
  refine wp_request hA fun db d skip fate hR => ?_
  rcases fate with _ | e | ⟨e, _ | _⟩ | ⟨_ | _⟩
  · simpa [respond, serve, Conn.after] using hok d
  all_goals simpa [respond, serve, Conn.after, afterError] using herr _

/-- `SAVEPOINT` remembers the log. -/
theorem wp_savepoint {Q : Post E Unit}
    (hA : A .savepoint ⟨some ⟨b, log, saved, false⟩, cs, rj⟩)
    (hok : Q (.ok ()) ⟨some ⟨b, log, some log, false⟩, cs, rj⟩)
    (herr : ∀ e tx, Broken ⟨b, log, saved, false⟩ tx →
      Q (.error e) ⟨tx, cs, rj ++ [.savepoint]⟩) :
    (request .savepoint).wp R A Q ⟨some ⟨b, log, saved, false⟩, cs, rj⟩ := by
  refine wp_request hA fun db d skip fate hR => ?_
  rcases fate with _ | e | ⟨e, _ | _⟩ | ⟨_ | _⟩
  · simpa [respond, serve, Conn.after] using hok
  · simpa [respond, Conn.after, afterError] using herr e _ (.inr rfl)
  all_goals simpa [respond, serve, Conn.after] using herr _ _ (.inl rfl)

/-- `ROLLBACK TO SAVEPOINT`: the log is the one saved, unless the connection is gone. -/
theorem wp_rollbackTo {Q : Post E Unit} {tx : Option (Tx E)}
    (htx : tx = none ∨ ∃ ab, tx = some ⟨b, log, some l, ab⟩) (hA : A .rollbackTo ⟨tx, cs, rj⟩)
    (hok : Q (.ok ()) ⟨some ⟨b, l, some l, false⟩, cs, rj⟩)
    (herr : ∀ e tx', Q (.error e) ⟨tx', cs, rj ++ [.rollbackTo]⟩) :
    (request .rollbackTo).wp R A Q ⟨tx, cs, rj⟩ := by
  refine wp_request hA fun db d skip fate hR => ?_
  rcases htx with rfl | ⟨ab, rfl⟩
  · rcases fate with _ | e | ⟨e, _ | _⟩ | ⟨_ | _⟩
    all_goals simpa [respond, serve, refuse, Conn.after, afterError] using herr _ _
  · rcases fate with _ | e | ⟨e, _ | _⟩ | ⟨_ | _⟩
    · simpa [respond, serve, Conn.after] using hok
    all_goals simpa [respond, serve, Conn.after, afterError] using herr _ _

/-- `RELEASE SAVEPOINT` forgets the saved log. -/
theorem wp_release {Q : Post E Unit}
    (hA : A .release ⟨some ⟨b, log, some l, false⟩, cs, rj⟩)
    (hok : Q (.ok ()) ⟨some ⟨b, log, none, false⟩, cs, rj⟩)
    (herr : ∀ e tx, Broken ⟨b, log, some l, false⟩ tx →
      Q (.error e) ⟨tx, cs, rj ++ [.release]⟩) :
    (request .release).wp R A Q ⟨some ⟨b, log, some l, false⟩, cs, rj⟩ := by
  refine wp_request hA fun db d skip fate hR => ?_
  rcases fate with _ | e | ⟨e, _ | _⟩ | ⟨_ | _⟩
  · simpa [respond, serve, Conn.after] using hok
  · simpa [respond, Conn.after, afterError] using herr e _ (.inr rfl)
  all_goals simpa [respond, serve, Conn.after] using herr _ _ (.inl rfl)

/-- `COMMIT` of a healthy transaction: it takes effect and is acknowledged, or it is reported as
failed, and then the log may have been made durable all the same. -/
theorem wp_commit {Q : Post E Unit} (hA : A .commit ⟨some ⟨b, log, saved, false⟩, cs, rj⟩)
    (hok : Q (.ok ()) ⟨none, cs ++ [log], rj⟩)
    (hlost : ∀ e, Q (.error e) ⟨none, cs ++ [log], rj ++ [.commit]⟩)
    (herr : ∀ e, Q (.error e) ⟨none, cs, rj ++ [.commit]⟩) :
    (request .commit).wp R A Q ⟨some ⟨b, log, saved, false⟩, cs, rj⟩ := by
  refine wp_request hA fun db d skip fate hR => ?_
  rcases fate with _ | e | ⟨e, _ | _⟩ | ⟨_ | _⟩
  · simpa [respond, serve, Conn.after] using hok
  · simpa [respond, Conn.after, afterError] using herr e
  · simpa [respond, Conn.after] using herr e
  · simpa [respond, serve, Conn.after] using hlost e
  · simpa [respond, Conn.after] using herr _
  · simpa [respond, serve, Conn.after] using hlost _

/-- What is left to show when the body of a transaction throws `e`: the frame still issues
`ROLLBACK`, whose answer it ignores. -/
def Unwinds (A : Assertion E) (Q : Post E α) (e : E.Err) (c : Conn E) : Prop :=
  A .rollback c ∧ ∀ tx rj, (tx = none ∨ tx = c.tx.map Tx.abort) →
    (rj = c.rejected ∨ rj = c.rejected ++ [.rollback]) → Q (.error e) ⟨tx, c.commits, rj⟩

/-- `ROLLBACK` with its answer ignored, and the first error thrown again. -/
theorem wp_unwind {e : E.Err} {c : Conn E} (h : Unwinds A Q e c) :
    (attempt (request .rollback) >>= fun _ => (fail e : Prog E α)).wp R A Q c := by
  refine wp_bind _ _ _ (wp_attempt _ _ (wp_request h.1 fun db d skip fate hR => ?_))
  obtain ⟨tx, cs, rj⟩ := c
  rcases fate with _ | e' | ⟨e', _ | _⟩ | ⟨_ | _⟩
  · simpa [respond, serve, Conn.after] using h.2 none rj (.inl rfl) (.inl rfl)
  · simpa [respond, Conn.after, afterError] using h.2 _ (rj ++ [.rollback]) (.inr rfl) (.inr rfl)
  all_goals
    simpa [respond, serve, Conn.after] using h.2 none (rj ++ [.rollback]) (.inl rfl) (.inr rfl)

/-- **The transaction frame.** -/
theorem wp_transaction {body : Prog E α} (hA : A .begin ⟨none, cs, rj⟩)
    (hbegin : ∀ e, Unwinds A Q e ⟨none, cs, rj ++ [.begin]⟩)
    (hbody : ∀ d, body.wp R A (fun x c => match x with
      | .ok a => Q (.ok a) c
      | .error e => Unwinds A Q e c) ⟨some (Tx.opened d), cs, rj⟩) :
    (transaction body).wp R A Q ⟨none, cs, rj⟩ := by
  refine wp_bind _ _ _ (wp_attempt _ _ (wp_bind _ _ _ (wp_begin hA (fun d => ?_) fun e => ?_)))
  · refine wp_mono (fun x c hx => ?_) _ _ (hbody d)
    cases x with
    | ok a => exact hx
    | error e => exact wp_unwind hx
  · exact wp_unwind (hbegin e)

/-! ## Soundness for a call on its own -/

/-- How a call can end: it returns or throws as the postcondition says, or its process dies at a
request, which then has taken effect or not. -/
def Ends (A : Assertion E) (Q : Post E α) : Outcome E α → Conn E → Prop
  | .returned a, c => Q (.ok a) c
  | .threw e, c => Q (.error e) c
  | .died, c => ∃ r c₀, A r c₀ ∧ c.rejected = c₀.rejected ++ [r] ∧ (c.commits = c₀.commits ∨
      r = .commit ∧ ∃ t, c₀.tx = some t ∧ t.aborted = false ∧ c.commits = c₀.commits ++ [t.log])

/-- Endings are monotone. -/
theorem Ends.imp {A A' : Assertion E} {Q Q' : Post E α} (hA : ∀ r c, A r c → A' r c)
    (hQ : ∀ x c, Q x c → Q' x c) {o : Outcome E α} {c : Conn E} (h : Ends A Q o c) : Ends A' Q' o c := by
  cases o with
  | returned a => exact hQ _ _ h
  | threw e => exact hQ _ _ h
  | died =>
    obtain ⟨r, c₀, hr, h⟩ := h
    exact ⟨r, c₀, hA _ _ hr, h⟩

/-- A request at which the process dies counts as failed. -/
theorem rejected_of_dies {db : E.Store} {c : Conn E} (d : E.Draws) (skip : E.Key → Bool)
    (fate : Fate E) (r : Request E) (h : fate.dies = true) :
    (c.after (respond db c.tx d skip fate r)).rejected = c.rejected ++ [r] := by
  rcases fate with _ | e | ⟨e, _ | _⟩ | ⟨_ | _⟩ <;>
    simp [Fate.dies, respond, Conn.after] at h ⊢

/-- **Soundness**: a call on its own ends as its weakest precondition promises, if the rely holds
of the store throughout.

**Proof sketch.** Induction on the program.  Each request is answered by `respond`, which is
one of the answers the weakest precondition quantifies over; when the process dies instead,
`respond_store` tells what the request did. -/
theorem run_wp (mv : ℕ → Move E)
    (hR : ∀ c db d skip fate (r : Request E), R c db →
      R (c.after (respond db c.tx d skip fate r)) (respond db c.tx d skip fate r).store) :
    ∀ (p : Prog E α) (k : ℕ) (db : E.Store) (c : Conn E), R c db → p.wp R A Q c →
      Ends A Q (p.run mv k db c).1 (p.run mv k db c).2.2
  | done a, k, db, c, _, hp => hp
  | fail e, k, db, c, _, hp => hp
  | ask r ok failed, k, db, c, hc, hp => by
    have hk := hp.2 db (mv k).draws (mv k).skip (mv k).fate hc
    have hc' := hR c db (mv k).draws (mv k).skip (mv k).fate r hc
    simp only [run]
    split
    · rename_i hdies
      refine ⟨r, c, hp.1, rejected_of_dies _ _ _ r hdies, ?_⟩
      rcases respond_store db c.tx (mv k).draws (mv k).skip (mv k).fate r with
        ⟨-, h⟩ | ⟨hr, t, ht, ha, -, h, -⟩
      · exact .inl (by simp [h])
      · exact .inr ⟨hr, t, ht, ha, by simp [h]⟩
    · revert hk
      cases (respond db c.tx (mv k).draws (mv k).skip (mv k).fate r).reply with
      | ok x => exact run_wp mv hR (ok x) _ _ _ hc'
      | error e => exact run_wp mv hR (failed e) _ _ _ hc'

/-- Nobody else commits during a call on its own. -/
theorem alone_respond {db : E.Store} {c : Conn E} {s : E.Store} (d : E.Draws)
    (skip : E.Key → Bool) (fate : Fate E) (r : Request E) (h : Rely.alone db c s) :
    Rely.alone db (c.after (respond s c.tx d skip fate r)) (respond s c.tx d skip fate r).store := by
  intro hnil
  rw [Conn.after_commits, List.append_eq_nil_iff] at hnil
  rcases respond_store s c.tx d skip fate r with ⟨hs, -⟩ | ⟨-, t, -, -, -, hcommits, -⟩
  · rw [hs]
    exact h hnil.1
  · rw [hcommits] at hnil
    exact absurd hnil.2 (by simp)

/-- **Soundness** for a call on its own, of which it is known that nobody else commits. -/
theorem call_wp (mv : ℕ → Move E) (p : Prog E α) (db : E.Store)
    (hp : p.wp (Rely.alone db) A Q Conn.fresh) :
    Ends A Q (p.call mv db).1 (p.call mv db).2.2 :=
  run_wp mv (fun _ _ d skip fate r h => alone_respond d skip fate r h) p 0 db Conn.fresh
    (fun _ => rfl) hp

end Prog

end Transactions
