import Mathlib.Order.Nat
import PaymentWebhook.Transactions.Work

set_option relaxedAutoImplicit false
set_option autoImplicit false

/-!
# Stamps drawn under a lock

A row may carry a number that its statement drew from a sequence.  Sequences are not
transactional: a transaction that drew early may commit late, so the numbers of committed rows
need not ascend in the order of the commits.  Among the rows of one lock they do, if the number
is drawn while the lock is held.

## Main definitions

* `Transactions.Stamping` — which statements carry a stamp, and for which lock.
* `Transactions.Stamping.Ascending` — the stamps of each lock ascend along a log.

## Main results

* `Transactions.Reachable.ascending` — along the journal of a reachable world the stamps of each
  lock ascend.
-/

namespace Transactions

variable {E : Engine} {κ ρ : Type}

/-! ## Stamps -/

/-- **Stamps**: `stamp?` is the number an executed statement carries and the lock it belongs to.
The number is drawn when the statement is executed, from a sequence that never goes back, and the
statement holds the lock. -/
structure Stamping (E : Engine) where
  next : E.Env → ℕ
  stamp? : Entry E → Option (E.Key × ℕ)
  fresh : ∀ {env env' begun d q skip s rows ws k n}, E.draw env begun d env' →
    E.exec q d skip s = .ok (rows, ws) → stamp? ⟨q, d, rows, ws⟩ = some (k, n) →
    next env ≤ n ∧ n < next env' ∧ k ∈ E.keys q rows ws
  next_draw : ∀ {env env' begun d}, E.draw env begun d env' → next env ≤ next env'
  next_pass : ∀ {env env'}, E.pass env env' → next env ≤ next env'

namespace Stamping

variable (S : Stamping E)

/-- The stamps along a log. -/
def stamps (log : List (Entry E)) : List (E.Key × ℕ) := log.filterMap S.stamp?

/-- The stamps of each lock ascend. -/
def Ascending (l : List (E.Key × ℕ)) : Prop := l.Pairwise fun a b => a.1 = b.1 → a.2 < b.2

@[simp] theorem stamps_nil : S.stamps [] = [] := rfl

@[simp] theorem stamps_append (log log' : List (Entry E)) :
    S.stamps (log ++ log') = S.stamps log ++ S.stamps log' := by
  simp [stamps]

/-- The stamps of a prefix are among the stamps. -/
theorem stamps_sublist {log log' : List (Entry E)} (h : log <+: log') :
    (S.stamps log).Sublist (S.stamps log') := h.sublist.filterMap _

@[simp] theorem stamps_singleton (e : Entry E) : S.stamps [e] = (S.stamp? e).toList := by
  cases h : S.stamp? e <;> simp [stamps, h]

/-- The stamps of an open transaction ascend after those of a journal, are less than `n`, and
were drawn under locks that it holds. -/
structure Pending (journal log : List (Entry E)) (n : ℕ) : Prop where
  ascending : Ascending (S.stamps journal ++ S.stamps log)
  lt : ∀ x ∈ S.stamps log, x.2 < n
  locked : ∀ e ∈ log, ∀ x, S.stamp? e = some x → x.1 ∈ e.keys

variable {S} {journal log log' : List (Entry E)} {n m : ℕ}

/-- What is behind a transaction that has been cut back. -/
theorem Pending.initial (h : S.Pending journal log n) (hp : log' <+: log) (hn : n ≤ m) :
    S.Pending journal log' m where
  ascending := h.ascending.sublist ((S.stamps_sublist hp).append_left _)
  lt := fun x hx => (h.lt x ((S.stamps_sublist hp).subset hx)).trans_le hn
  locked := fun e he => h.locked e (hp.subset he)

/-- A transaction that has just been opened. -/
theorem Pending.nil (h : Ascending (S.stamps journal)) : S.Pending journal [] n :=
  ⟨by simpa using h, by simp, by simp⟩

/-- A statement draws a stamp greater than all stamps before. -/
theorem Pending.push {env env' : E.Env} {begun : Option E.Draws} {d : E.Draws} {q : E.Stmt}
    {skip : E.Key → Bool} {s : E.Store} {rows : E.Rows q} {ws : List E.Write}
    (h : S.Pending journal log (S.next env)) (hlt : ∀ x ∈ S.stamps journal, x.2 < S.next env)
    (hdraw : E.draw env begun d env') (hx : E.exec q d skip s = .ok (rows, ws)) :
    S.Pending journal (log ++ [⟨q, d, rows, ws⟩]) (S.next env') := by
  have hnew : ∀ x ∈ S.stamps [(⟨q, d, rows, ws⟩ : Entry E)],
      S.next env ≤ x.2 ∧ x.2 < S.next env' ∧ x.1 ∈ E.keys q rows ws := by
    intro x hmem
    rw [stamps_singleton, Option.mem_toList] at hmem
    exact S.fresh hdraw hx hmem
  refine ⟨?_, fun x hmem => ?_, fun e he x hstamp => ?_⟩
  · rw [stamps_append, ← List.append_assoc]
    refine List.pairwise_append.mpr ⟨h.ascending, ?_, fun a ha b hb _ => ?_⟩
    · rw [stamps_singleton]
      cases S.stamp? (⟨q, d, rows, ws⟩ : Entry E) <;> simp
    · refine lt_of_lt_of_le ?_ (hnew b hb).1
      rcases List.mem_append.mp ha with ha | ha
      · exact hlt a ha
      · exact h.lt a ha
  · rw [stamps_append] at hmem
    rcases List.mem_append.mp hmem with hmem | hmem
    · exact (h.lt x hmem).trans_le (S.next_draw hdraw)
    · exact (hnew x hmem).2.1
  · rcases List.mem_append.mp he with he | he
    · exact h.locked e he x hstamp
    · rw [List.mem_singleton.mp he] at hstamp ⊢
      exact (S.fresh hdraw hx hstamp).2.2

/-- Another transaction has committed, under other locks. -/
theorem Pending.commit (h : S.Pending journal log n) (h' : S.Pending journal log' n)
    (hd : ∀ e ∈ log', ∀ k ∈ e.keys, ∀ e' ∈ log, k ∉ e'.keys) (hn : n ≤ m) :
    S.Pending (journal ++ log') log m where
  ascending := by
    have hkey : ∀ {l : List (Entry E)} {x}, x ∈ S.stamps l → ∃ e ∈ l, S.stamp? e = some x :=
      fun hx => List.mem_filterMap.mp hx
    obtain ⟨hj, hl, hjl⟩ := List.pairwise_append.mp h.ascending
    obtain ⟨-, hl', hjl'⟩ := List.pairwise_append.mp h'.ascending
    rw [stamps_append]
    refine List.pairwise_append.mpr ⟨h'.ascending, hl, fun a ha b hb heq => ?_⟩
    rcases List.mem_append.mp ha with ha | ha
    · exact hjl a ha b hb heq
    · obtain ⟨e, he, hstamp⟩ := hkey ha
      obtain ⟨e', he', hstamp'⟩ := hkey hb
      exact absurd (heq ▸ h.locked e' he' b hstamp') (hd e he _ (h'.locked e he a hstamp) e' he')
  lt := fun x hx => (h.lt x hx).trans_le hn
  locked := h.locked

variable (S) in
/-- **The order of the stamps**: those of the journal ascend, and those of every open transaction
after them. -/
def work (L : Locality E) : Work L fun env env' => S.next env ≤ S.next env' where
  Done := fun env _ journal =>
    Ascending (S.stamps journal) ∧ ∀ x ∈ S.stamps journal, x.2 < S.next env
  Open := fun env _ journal _ log => S.Pending journal log (S.next env)
  done_mono := fun hle h => ⟨h.1, fun x hx => (h.2 x hx).trans_le hle⟩
  open_mono := fun hle h => h.initial (List.prefix_refl _) hle
  opened := fun h _ => .nil h.1
  initial := fun h hp => h.initial hp le_rfl
  push := fun _ hdone h _ hdraw hx => h.push hdone.2 hdraw hx
  commit := fun _ hdone h _ => by
    rw [stamps_append]
    refine ⟨h.ascending, fun x hx => ?_⟩
    rcases List.mem_append.mp hx with hx | hx
    · exact hdone.2 x hx
    · exact h.lt x hx
  frame := fun _ _ h h' _ _ hd => h.commit h' hd le_rfl

end Stamping

/-- **Stamps drawn under a lock are in commit order**: along the journal of a reachable world the
stamps of each lock ascend. -/
theorem Reachable.ascending {program : κ → Prog E ρ} {L : Locality E} (S : Stamping E)
    {db₀ : E.Store} (h₀ : L.Inv db₀) {env₀ : E.Env} {w : World E κ ρ}
    (h : Reachable program (World.start db₀ env₀) w) :
    Stamping.Ascending (S.stamps w.logs.flatten) :=
  ((S.work L).holds_reachable S.next_draw S.next_pass h₀ ⟨List.Pairwise.nil, by simp⟩ h).done.1

end Transactions
