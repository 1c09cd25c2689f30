import Mathlib.Logic.Relation
import PaymentWebhook.Transactions.Interleaving

set_option relaxedAutoImplicit false
set_option autoImplicit false

/-!
# Who waits for whom

A request that would take a lock held by another session waits for that session.  Deadlocks are the
cycles of this relation.

## Main definitions

* `Transactions.World.WaitsFor` — the wait-for graph.

## Main results

* `Transactions.Coherent.waitsFor` — only statements wait, and only for locks they do not hold.
* `Transactions.cycle_next`, `Transactions.cycle_prev` — the neighbours of a session on a cycle.
-/

namespace Transactions

variable {E : Engine} {κ ρ : Type}

/-- **Session `i` waits for session `j`**: its next request, if it were served now, would leave it
with a lock that `j` holds. -/
def World.WaitsFor (w : World E κ ρ) (i j : ℕ) : Prop :=
  j ≠ i ∧ ∃ s r ok failed d env skip t k, w.sessions i = some s ∧ s.prog = .ask r ok failed ∧
    E.draw w.env (s.conn.tx.map Tx.begun) d env ∧ (∀ k, skip k = true ↔ w.HeldFrom i k) ∧
    (respond w.db s.conn.tx d skip .answered r).tx = some t ∧ k ∈ t.locks ∧ w.Holds j k

/-- The statement that session `i` is about to execute, in its open transaction `t`. -/
structure World.Pending (w : World E κ ρ) (i : ℕ) (s : Session E κ ρ) (t : Tx E) (q : E.Stmt) :
    Prop where
  session : w.sessions i = some s
  prog : ∃ ok failed, s.prog = .ask (.run q) ok failed
  tx : s.conn.tx = some t

variable {L : Locality E} {w : World E κ ρ} {i j : ℕ}

/-- **Only statements wait**, and only for locks that their transaction does not hold. -/
theorem Coherent.waitsFor (hco : Coherent L w) (h : w.WaitsFor i j) :
    ∃ s t q d env skip rows ws k, w.Pending i s t q ∧ E.draw w.env (some t.begun) d env ∧
      (∀ k, skip k = true ↔ w.HeldFrom i k) ∧ E.exec q d skip (t.view w.db) = .ok (rows, ws) ∧
      k ∈ E.keys q rows ws ∧ w.Holds j k := by
  obtain ⟨hne, s, r, ok, failed, d, env, skip, t', k, hs, hp, hdraw, hskip, ht', hk, hj⟩ := h
  have hlog := respond_log d skip .answered r fun t ht => hco.sound i s t hs ht
  rw [ht'] at hlog
  have hown : k ∉ (openLog s.conn.tx).flatMap Entry.keys := by
    intro hmem
    cases ht : s.conn.tx with
    | none =>
      rw [ht] at hmem
      simp at hmem
    | some t =>
      rw [ht] at hmem
      exact hco.locks i j k (Ne.symm hne) ⟨s, t, hs, ht, hmem⟩ hj
  rcases hlog with hinit | ⟨q, rows, ws, rfl, hx, heq⟩
  · exact absurd ((hinit.sublist.flatMap Entry.keys).subset hk) hown
  · have hkeys : k ∈ E.keys q rows ws := by
      replace heq : t'.log = _ := heq
      rw [Tx.locks, heq, List.flatMap_append, List.mem_append] at hk
      rcases hk with hk | hk
      · exact absurd hk hown
      · simpa [Entry.keys] using hk
    cases ht : s.conn.tx with
    | none =>
      rw [ht] at ht'
      exact absurd (show none = some t' from ht') (by simp)
    | some t =>
      rw [ht] at hdraw hx
      exact ⟨s, t, q, d, env, skip, rows, ws, k, ⟨hs, ⟨ok, failed, hp⟩, ht⟩, hdraw, hskip, hx, hkeys,
        hj⟩

/-- Whoever is on a cycle waits for someone on a cycle. -/
theorem cycle_next {α : Type} {W : α → α → Prop} {a : α} (h : Relation.TransGen W a a) :
    ∃ b, W a b ∧ Relation.TransGen W b b := by
  obtain ⟨b, hab, hba⟩ := Relation.TransGen.head'_iff.mp h
  exact ⟨b, hab, Relation.TransGen.tail' hba hab⟩

/-- Someone on a cycle waits for whoever is on a cycle. -/
theorem cycle_prev {α : Type} {W : α → α → Prop} {a : α} (h : Relation.TransGen W a a) :
    ∃ b, W b a ∧ Relation.TransGen W b b := by
  obtain ⟨b, hab, hba⟩ := Relation.TransGen.tail'_iff.mp h
  exact ⟨b, hba, Relation.TransGen.head' hba hab⟩

end Transactions
