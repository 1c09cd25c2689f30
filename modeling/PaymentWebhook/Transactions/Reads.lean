import PaymentWebhook.Transactions.Interleaving

set_option relaxedAutoImplicit false
set_option autoImplicit false

/-!
# Read-only transactions

A read-only transaction takes no locks and writes nothing, so the other sessions do not notice it;
what it answers depends on which stores its `SELECT`s see.  At isolation level REPEATABLE READ all of
them see what was committed when the first one was executed.  At READ COMMITTED each one sees what is
committed when it is executed itself.

## Main definitions

* `Transactions.Reader` — a read-only transaction.
* `Transactions.Reader.on` — its answer if all its `SELECT`s see one store.
* `Transactions.ReadsCommitted` — its answers at READ COMMITTED, while the other sessions go on.

## Main results

* `Transactions.ReadsCommitted.eq_on` — at READ COMMITTED a transaction answers as from one store if
  what happens between its `SELECT`s makes no difference to them.
-/

namespace Transactions

/-- **A read-only transaction**: `SELECT`s, one after the other. -/
inductive Reader (S ρ : Type) : Type 1 where
  | done (a : ρ)
  | select {α : Type} (q : S → α) (k : α → Reader S ρ)

namespace Reader

variable {S α β : Type}

/-- Sequencing. -/
def bind : Reader S α → (α → Reader S β) → Reader S β
  | done a, f => f a
  | select q k, f => select q fun x => bind (k x) f

instance : Monad (Reader S) where
  pure := done
  bind := bind

/-- One `SELECT`. -/
def query (q : S → α) : Reader S α := select q done

/-- **The answer if all `SELECT`s see one store**, as they do at REPEATABLE READ. -/
def on (s : S) : Reader S α → α
  | done a => a
  | select q k => on s (k (q s))

/-- The `SELECT`s cannot tell related stores apart. -/
def Respects (R : S → S → Prop) : Reader S α → Prop
  | done _ => True
  | select q k => (∀ s s', R s s' → q s' = q s) ∧ ∀ x, Respects R (k x)

/-- A transaction that cannot tell two stores apart answers the same on both. -/
theorem Respects.on_eq {R : S → S → Prop} {r : Reader S α} (h : r.Respects R) {s s' : S}
    (hR : R s s') : r.on s' = r.on s := by
  induction r with
  | done a => rfl
  | select q k ih =>
    obtain ⟨hq, hk⟩ := h
    show on s' (k (q s')) = on s (k (q s))
    rw [hq s s' hR]
    exact ih _ (hk _)

end Reader

variable {E : Engine} {κ ρ α : Type} {program : κ → Prog E ρ}

/-- **The answers at READ COMMITTED**: `ReadsCommitted C program w r a` says that `r` can answer `a` if
its next `SELECT` is executed in the world `w`.  After each `SELECT` the other sessions take steps, all
of which meet the condition `C`. -/
inductive ReadsCommitted (C : World E κ ρ → World E κ ρ → Prop) (program : κ → Prog E ρ) :
    World E κ ρ → Reader E.Store α → α → Prop where
  | done (w : World E κ ρ) (a : α) : ReadsCommitted C program w (.done a) a
  | select {w w' : World E κ ρ} {β : Type} {q : E.Store → β} {k : β → Reader E.Store α} {a : α}
      (hrun : Along C program w w') (h : ReadsCommitted C program w' (k (q w.db)) a) :
      ReadsCommitted C program w (.select q k) a

namespace ReadsCommitted

variable {C : World E κ ρ → World E κ ρ → Prop} {w : World E κ ρ} {a : α}

/-- The answer of a transaction that has no `SELECT` left. -/
theorem done_eq {b : α} (h : ReadsCommitted C program w (.done b) a) : a = b := by
  cases h
  rfl

/-- The first `SELECT` of a transaction. -/
theorem next {β : Type} {q : E.Store → β} {k : β → Reader E.Store α}
    (h : ReadsCommitted C program w (.select q k) a) :
    ∃ w', Along C program w w' ∧ ReadsCommitted C program w' (k (q w.db)) a := by
  cases h with
  | select hrun h => exact ⟨_, hrun, h⟩

/-- A transaction whose answer is made into another one. -/
theorem of_map {β : Type} {r : Reader E.Store α} {g : α → β} {b : β}
    (h : ReadsCommitted C program w (r.bind fun a => .done (g a)) b) :
    ∃ a, ReadsCommitted C program w r a ∧ b = g a := by
  induction r generalizing w with
  | done a => exact ⟨a, .done w a, h.done_eq⟩
  | select q k ih =>
    obtain ⟨w', hrun, h⟩ := h.next
    obtain ⟨a, ha, hb⟩ := ih _ h
    exact ⟨a, .select hrun ha, hb⟩

/-- **At READ COMMITTED a transaction answers as from one store** if the steps between its `SELECT`s
make no difference to them.

**Proof sketch.** Induction on the transaction.  The rest of it answers as from the store of a later
world, which it cannot tell from the first one. -/
theorem eq_on {R : E.Store → E.Store → Prop} (hrefl : ∀ s, R s s)
    (htrans : ∀ {s s' s''}, R s s' → R s' s'' → R s s'') {I : World E κ ρ → Prop}
    (hstep : ∀ {w w'}, I w → Step program w w' → C w w' → I w' ∧ R w.db w'.db) {r : Reader E.Store α}
    (hr : r.Respects R) (hI : I w) (h : ReadsCommitted C program w r a) : a = r.on w.db := by
  have hrun : ∀ {w w'}, I w → Along C program w w' → I w' ∧ R w.db w'.db := by
    intro w w' hI hrun
    induction hrun with
    | refl => exact ⟨hI, hrefl _⟩
    | step hrun hnext hC ih =>
      obtain ⟨hI', hR⟩ := ih
      obtain ⟨hI'', hR'⟩ := hstep hI' hnext hC
      exact ⟨hI'', htrans hR hR'⟩
  induction h with
  | done w a => rfl
  | @select w w' β q k a hsteps h ih =>
    obtain ⟨hI', hR⟩ := hrun hI hsteps
    rw [ih (hr.2 _) hI']
    exact (hr.2 _).on_eq hR

end ReadsCommitted

end Transactions
