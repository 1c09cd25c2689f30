import PaymentWebhook.Transactions.Engine

set_option relaxedAutoImplicit false
set_option autoImplicit false

/-!
# Programs that talk to a transactional engine

A client procedure is a tree of requests: after each one it goes on with what was returned,
or with the error.  `Prog` is that tree, with the combinators of a language with exceptions,
and `Prog.run` executes it against a store that nobody else touches, under a given schedule
of faults.

## Main definitions

* `Transactions.Prog` — programs; `Prog.attempt` is `try`, `Prog.transaction` is the
  `BEGIN … catch ROLLBACK` frame.
* `Transactions.Conn` — one connection as seen by the call that uses it.
* `Transactions.Prog.run` — a call on its own.
-/

namespace Transactions

variable {E : Engine} {α β : Type}

/-- A client procedure: it returns, throws, or makes a request and goes on with the rows or
with the error. -/
inductive Prog (E : Engine) (α : Type) where
  | done (a : α)
  | fail (e : E.Err)
  | ask (r : Request E) (ok : r.Reply → Prog E α) (failed : E.Err → Prog E α)

namespace Prog

/-- Sequencing: an error skips the rest. -/
def bind : Prog E α → (α → Prog E β) → Prog E β
  | done a, f => f a
  | fail e, _ => fail e
  | ask r ok failed, f => ask r (fun x => (ok x).bind f) (fun e => (failed e).bind f)

instance : Monad (Prog E) where
  pure := done
  bind := bind

/-- Make one request; its error is thrown. -/
def request (r : Request E) : Prog E r.Reply := ask r done fail

/-- Run one statement; its error is thrown. -/
def query (q : E.Stmt) : Prog E (E.Rows q) := ask (.run q) done fail

/-- `try`: the program never throws, its error is returned. -/
def attempt : Prog E α → Prog E (Except E.Err α)
  | done a => done (.ok a)
  | fail e => done (.error e)
  | ask r ok failed => ask r (fun x => (ok x).attempt) (fun e => (failed e).attempt)

/-- The frame of a transaction: `BEGIN`, the body (which commits), and on any error a
`ROLLBACK` whose own error is swallowed before the first error is thrown again. -/
def transaction (body : Prog E α) : Prog E α := do
  match ← attempt (request .begin >>= fun _ => body) with
  | .ok a => pure a
  | .error e =>
    let _ ← attempt (request .rollback)
    fail e

@[simp] theorem bind_done (a : α) (f : α → Prog E β) : (done a >>= f) = f a := rfl

@[simp] theorem pure_bind (a : α) (f : α → Prog E β) : ((pure a : Prog E α) >>= f) = f a := rfl

@[simp] theorem bind_fail (e : E.Err) (f : α → Prog E β) : (fail e >>= f) = fail e := rfl

@[simp] theorem bind_ask (r : Request E) (ok : r.Reply → Prog E α) (failed : E.Err → Prog E α)
    (f : α → Prog E β) :
    (ask r ok failed >>= f) = ask r (fun x => ok x >>= f) (fun e => failed e >>= f) := rfl

/-- Sequencing is associative. -/
theorem bind_assoc {γ : Type} (f : α → Prog E β) (g : β → Prog E γ) :
    ∀ p : Prog E α, (p >>= f >>= g) = (p >>= fun a => f a >>= g)
  | done _ => rfl
  | fail _ => rfl
  | ask r ok failed => by
    simp only [bind_ask]
    congr 1
    · exact funext fun x => bind_assoc f g (ok x)
    · exact funext fun e => bind_assoc f g (failed e)

end Prog

/-- A connection as the call that uses it sees it: the open transaction, the logs this call
has made durable, and the requests it was told had failed. -/
structure Conn (E : Engine) where
  tx : Option (Tx E)
  commits : List (List (Entry E))
  rejected : List (Request E)

/-- A connection fresh from the pool. -/
def Conn.fresh : Conn E := ⟨none, [], []⟩

@[simp] theorem Conn.fresh_tx : (Conn.fresh : Conn E).tx = none := rfl
@[simp] theorem Conn.fresh_commits : (Conn.fresh : Conn E).commits = [] := rfl
@[simp] theorem Conn.fresh_rejected : (Conn.fresh : Conn E).rejected = [] := rfl

/-- The connection after a request. -/
def Conn.after {r : Request E} (c : Conn E) (s : Served E r) : Conn E where
  tx := s.tx
  commits := c.commits ++ s.commits
  rejected := match s.reply with
    | .ok _ => c.rejected
    | .error _ => c.rejected ++ [r]

@[simp] theorem Conn.after_tx {r : Request E} (c : Conn E) (s : Served E r) :
    (c.after s).tx = s.tx := rfl

@[simp] theorem Conn.after_commits {r : Request E} (c : Conn E) (s : Served E r) :
    (c.after s).commits = c.commits ++ s.commits := rfl

/-- How a call ends. -/
inductive Outcome (E : Engine) (α : Type) where
  | returned (a : α)
  | threw (e : E.Err)
  | died

/-- What the world does at one request of a call: the values drawn, the rows that
`SKIP LOCKED` passes over, and the fate of the request. -/
structure Move (E : Engine) where
  draws : E.Draws
  skip : E.Key → Bool
  fate : Fate E

/-- Does the client process die at this request? -/
def Fate.dies : Fate E → Bool
  | .died _ => true
  | _ => false

namespace Prog

/-- **A call on its own**: run the program against a store that no other connection changes,
the world moving by `mv k` at request number `k`.  The result is how the call ends, the
committed store and the connection. -/
def run : Prog E α → (ℕ → Move E) → ℕ → E.Store → Conn E → Outcome E α × E.Store × Conn E
  | done a, _, _, db, c => (.returned a, db, c)
  | fail e, _, _, db, c => (.threw e, db, c)
  | ask r ok failed, mv, k, db, c =>
    let s := respond db c.tx (mv k).draws (mv k).skip (mv k).fate r
    if (mv k).fate.dies then (.died, s.store, c.after s)
    else match s.reply with
      | .ok x => (ok x).run mv (k + 1) s.store (c.after s)
      | .error e => (failed e).run mv (k + 1) s.store (c.after s)

/-- A call on its own, from a fresh connection. -/
def call (p : Prog E α) (mv : ℕ → Move E) (db : E.Store) : Outcome E α × E.Store × Conn E :=
  p.run mv 0 db Conn.fresh

end Prog

end Transactions
