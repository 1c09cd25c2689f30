import Mathlib.Data.List.Basic

set_option relaxedAutoImplicit false
set_option autoImplicit false

/-!
# Transactional engines

A client of a database server talks to it one request at a time over a connection: it opens
a transaction, runs statements, sets a savepoint, rolls back to it, commits.  This file fixes
what such a server does with one request of one connection, for an arbitrary statement
language.

A statement that runs is answered with rows and leaves *writes*: the row versions it
computed.  They stay private to the connection until `COMMIT` installs them.  The statement
is evaluated on the newest committed store overlaid with the connection's own writes, which
is what a server at isolation level READ COMMITTED does.

## Main definitions

* `Transactions.Engine` — the statement language: how a statement is evaluated, which rows
  it locks, which values it draws from the environment.
* `Transactions.Tx` — an open transaction, as the list of its executed statements.
* `Transactions.respond` — the server's answer to one request, for every fate the request can
  meet (answered, rejected, connection lost before or after the effect).

## Implementation notes

A transaction keeps the list of what its statements did (`Transactions.Entry`) rather than
the overlaid store: the committed store moves under it while other connections commit.
-/

namespace Transactions

/-- A statement language and its evaluation.

`exec q d skip s` evaluates the statement `q` on the store `s`, with the values `d` it draws
from outside (clock readings, identity values); `skip` tells which rows a `SKIP LOCKED` scan
passes over.  The result is the rows returned and the row versions written, or an error.
`keys` lists the locks that a statement with this answer holds until its transaction ends or
is rolled back behind it. -/
structure Engine where
  Store : Type
  Stmt : Type
  Rows : Stmt → Type
  Write : Type
  Key : Type
  Draws : Type
  Err : Type
  /-- What the connections share outside the store: the clock and the identity sequences. -/
  Env : Type
  exec : (q : Stmt) → Draws → (Key → Bool) → Store → Except Err (Rows q × List Write)
  apply : Store → Write → Store
  keys : (q : Stmt) → Rows q → List Write → List Key
  /-- The answer says that no row was found.  Nothing is locked then, so nothing keeps such an
  answer true. -/
  misses : (q : Stmt) → Rows q → Bool
  /-- The error for a request that the state of the connection does not admit. -/
  protocolError : Err
  /-- `draw env begun d env'`: in the environment `env` a statement may draw `d`, in a
  transaction that drew `begun` when it was opened; the environment is `env'` afterwards. -/
  draw : Env → Option Draws → Draws → Env → Prop
  /-- `pass env env'`: the environment moves on by itself. -/
  pass : Env → Env → Prop

variable {E : Engine}

/-- An executed statement: what it drew, what it returned and what it wrote. -/
structure Entry (E : Engine) where
  stmt : E.Stmt
  draws : E.Draws
  rows : E.Rows stmt
  writes : List E.Write

/-- The locks an executed statement holds. -/
def Entry.keys (e : Entry E) : List E.Key := E.keys e.stmt e.rows e.writes

/-- Install the writes of a list of executed statements, in order. -/
def install (s : E.Store) (log : List (Entry E)) : E.Store :=
  log.foldl (fun s e => e.writes.foldl E.apply s) s

@[simp] theorem install_nil (s : E.Store) : install s ([] : List (Entry E)) = s := rfl

@[simp] theorem install_cons (s : E.Store) (e : Entry E) (log : List (Entry E)) :
    install s (e :: log) = install (e.writes.foldl E.apply s) log := rfl

@[simp] theorem install_append (s : E.Store) (log log' : List (Entry E)) :
    install s (log ++ log') = install (install s log) log' := by
  simp [install, List.foldl_append]

/-- An open transaction of a connection. -/
structure Tx (E : Engine) where
  /-- What was drawn when the transaction was opened. -/
  begun : E.Draws
  /-- The executed statements, oldest first. -/
  log : List (Entry E)
  /-- The log as it was when the savepoint was set. -/
  saved : Option (List (Entry E))
  /-- A statement has failed: only a rollback is accepted. -/
  aborted : Bool

namespace Tx

/-- A transaction that has just been opened. -/
def opened (d : E.Draws) : Tx E := ⟨d, [], none, false⟩

/-- The store as this transaction sees it. -/
def view (t : Tx E) (db : E.Store) : E.Store := install db t.log

/-- The transaction after one of its statements has failed. -/
def abort (t : Tx E) : Tx E := { t with aborted := true }

/-- The transaction after one more statement. -/
def push (t : Tx E) (e : Entry E) : Tx E := { t with log := t.log ++ [e] }

/-- The locks a transaction holds. -/
def locks (t : Tx E) : List E.Key := t.log.flatMap Entry.keys

@[simp] theorem opened_log (d : E.Draws) : (opened d : Tx E).log = [] := rfl
@[simp] theorem opened_saved (d : E.Draws) : (opened d : Tx E).saved = none := rfl
@[simp] theorem opened_aborted (d : E.Draws) : (opened d : Tx E).aborted = false := rfl
@[simp] theorem abort_log (t : Tx E) : t.abort.log = t.log := rfl
@[simp] theorem abort_saved (t : Tx E) : t.abort.saved = t.saved := rfl
@[simp] theorem abort_aborted (t : Tx E) : t.abort.aborted = true := rfl
@[simp] theorem push_log (t : Tx E) (e : Entry E) : (t.push e).log = t.log ++ [e] := rfl
@[simp] theorem push_saved (t : Tx E) (e : Entry E) : (t.push e).saved = t.saved := rfl
@[simp] theorem push_aborted (t : Tx E) (e : Entry E) : (t.push e).aborted = t.aborted := rfl

end Tx

/-- A request on a connection. -/
inductive Request (E : Engine) where
  | begin
  | savepoint
  | rollbackTo
  | release
  | commit
  | rollback
  | run (q : E.Stmt)

/-- What an answered request returns. -/
abbrev Request.Reply : Request E → Type
  | .run q => E.Rows q
  | _ => Unit

/-- What becomes of a request on its way: the server answers it, the server reports an error,
the connection is lost, or the client process dies; in the last two cases `took` tells whether
the server had carried the request out first. -/
inductive Fate (E : Engine) where
  | answered
  | rejected (e : E.Err)
  | lost (e : E.Err) (took : Bool)
  | died (took : Bool)

/-- What a request leaves behind: the committed store, the state of the connection, the log
it made durable (if it did), and the reply. -/
structure Served (E : Engine) (r : Request E) where
  store : E.Store
  tx : Option (Tx E)
  commits : List (List (Entry E))
  reply : Except E.Err r.Reply

/-- The reply to a request that the state of the connection does not admit. -/
def refuse (db : E.Store) (tx : Option (Tx E)) (r : Request E) : Served E r :=
  ⟨db, tx.map Tx.abort, [], .error E.protocolError⟩

/-- The server carries a request out.  `BEGIN` inside a transaction only warns; `COMMIT` of an
aborted transaction rolls it back and still reports success. -/
def serve (db : E.Store) (tx : Option (Tx E)) (d : E.Draws) (skip : E.Key → Bool) :
    (r : Request E) → Served E r
  | .begin => ⟨db, some (tx.getD (Tx.opened d)), [], .ok ()⟩
  | .savepoint =>
    match tx with
    | some ⟨b, log, _, false⟩ => ⟨db, some ⟨b, log, some log, false⟩, [], .ok ()⟩
    | _ => refuse db tx _
  | .rollbackTo =>
    match tx with
    | some ⟨b, _, some saved, _⟩ => ⟨db, some ⟨b, saved, some saved, false⟩, [], .ok ()⟩
    | _ => refuse db tx _
  | .release =>
    match tx with
    | some ⟨b, log, some _, false⟩ => ⟨db, some ⟨b, log, none, false⟩, [], .ok ()⟩
    | _ => refuse db tx _
  | .commit =>
    match tx with
    | some ⟨_, log, _, false⟩ => ⟨install db log, none, [log], .ok ()⟩
    | some ⟨_, _, _, true⟩ => ⟨db, none, [], .ok ()⟩
    | none => refuse db tx _
  | .rollback => ⟨db, none, [], .ok ()⟩
  | .run q =>
    match tx with
    | some ⟨b, log, saved, false⟩ =>
      match E.exec q d skip (install db log) with
      | .ok (rows, ws) => ⟨db, some ⟨b, log ++ [⟨q, d, rows, ws⟩], saved, false⟩, [], .ok rows⟩
      | .error e => ⟨db, some ⟨b, log, saved, true⟩, [], .error e⟩
    | _ => refuse db tx _

/-- The connection after an error report: the transaction is aborted, and gone if it was its
`COMMIT` that failed. -/
def afterError (tx : Option (Tx E)) : Request E → Option (Tx E)
  | .commit => none
  | _ => tx.map Tx.abort

/-- The server's answer to a request that meets a given fate.  A lost connection ends its
transaction; a `COMMIT` that took effect stays in effect although nobody hears of it. -/
def respond (db : E.Store) (tx : Option (Tx E)) (d : E.Draws) (skip : E.Key → Bool)
    (fate : Fate E) (r : Request E) : Served E r :=
  match fate with
  | .answered => serve db tx d skip r
  | .rejected e => ⟨db, afterError tx r, [], .error e⟩
  | .lost e true => ⟨(serve db tx d skip r).store, none, (serve db tx d skip r).commits, .error e⟩
  | .lost e false => ⟨db, none, [], .error e⟩
  | .died true =>
    ⟨(serve db tx d skip r).store, none, (serve db tx d skip r).commits, .error E.protocolError⟩
  | .died false => ⟨db, none, [], .error E.protocolError⟩

/-! ## What a request can do to the committed store -/

/-- Carrying a request out either leaves the committed store alone or commits the log of the
open transaction. -/
theorem serve_store (db : E.Store) (tx : Option (Tx E)) (d : E.Draws) (skip : E.Key → Bool)
    (r : Request E) :
    ((serve db tx d skip r).store = db ∧ (serve db tx d skip r).commits = []) ∨
    (r = .commit ∧ ∃ t, tx = some t ∧ t.aborted = false ∧
      (serve db tx d skip r).store = install db t.log ∧
      (serve db tx d skip r).commits = [t.log] ∧ (serve db tx d skip r).tx = none) := by
  cases r with
  | begin => exact .inl ⟨rfl, rfl⟩
  | savepoint => rcases tx with _ | ⟨b, log, saved, _ | _⟩ <;> exact .inl ⟨rfl, rfl⟩
  | rollbackTo => rcases tx with _ | ⟨b, log, _ | saved, ab⟩ <;> exact .inl ⟨rfl, rfl⟩
  | release => rcases tx with _ | ⟨b, log, _ | saved, _ | _⟩ <;> exact .inl ⟨rfl, rfl⟩
  | commit =>
    rcases tx with _ | ⟨b, log, saved, _ | _⟩
    · exact .inl ⟨rfl, rfl⟩
    · exact .inr ⟨rfl, ⟨b, log, saved, false⟩, rfl, rfl, rfl, rfl, rfl⟩
    · exact .inl ⟨rfl, rfl⟩
  | rollback => exact .inl ⟨rfl, rfl⟩
  | run q =>
    left
    rcases tx with _ | ⟨b, log, saved, _ | _⟩
    · exact ⟨rfl, rfl⟩
    · simp only [serve]
      split <;> exact ⟨rfl, rfl⟩
    · exact ⟨rfl, rfl⟩

/-- Whatever becomes of a request, it either leaves the committed store alone or is a `COMMIT`
that installs the log of its transaction and ends it. -/
theorem respond_store (db : E.Store) (tx : Option (Tx E)) (d : E.Draws) (skip : E.Key → Bool)
    (fate : Fate E) (r : Request E) :
    ((respond db tx d skip fate r).store = db ∧ (respond db tx d skip fate r).commits = []) ∨
    (r = .commit ∧ ∃ t, tx = some t ∧ t.aborted = false ∧
      (respond db tx d skip fate r).store = install db t.log ∧
      (respond db tx d skip fate r).commits = [t.log] ∧
      (respond db tx d skip fate r).tx = none) := by
  have hs := serve_store db tx d skip r
  rcases fate with _ | e | ⟨e, _ | _⟩ | ⟨_ | _⟩
  · exact hs
  · exact .inl ⟨rfl, rfl⟩
  · exact .inl ⟨rfl, rfl⟩
  · rcases hs with h | ⟨hr, t, ht, ha, h1, h2, -⟩
    · exact .inl h
    · exact .inr ⟨hr, t, ht, ha, h1, h2, rfl⟩
  · exact .inl ⟨rfl, rfl⟩
  · rcases hs with h | ⟨hr, t, ht, ha, h1, h2, -⟩
    · exact .inl h
    · exact .inr ⟨hr, t, ht, ha, h1, h2, rfl⟩

end Transactions
