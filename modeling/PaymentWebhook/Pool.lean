import Mathlib.Data.List.Basic
import Mathlib.Data.List.Perm.Basic
import Mathlib.Logic.Function.Iterate
import Mathlib.Logic.Relation
import Mathlib.Order.Nat

set_option relaxedAutoImplicit false
set_option autoImplicit false

/-!
# The concurrency pool

`runWithConcurrency` of the simulator: a few workers share the index of the next task, and each awaits one
task at a time.  The tasks are settled in any order.

## Main definitions

* `PaymentWebhook.Pool` — the variables of `runWithConcurrency` and its promise.
* `PaymentWebhook.runWithConcurrency` — the workers at their first `await`.
* `PaymentWebhook.PoolStep` — a task is settled, and its worker goes on.

## Main results

* `PaymentWebhook.Pool.Inv.step` — the invariant of the pool.
* `PaymentWebhook.runWithConcurrency_spec` — every task is called once, as many at a time as may be, and the
  promise is fulfilled with all their values.

## Implementation notes

JavaScript runs one job at a time, so that `const i = idx++` and the call of the task are one step with what
comes before them.  A task calls back by `results[i] = await tasks[i]()`.
-/

namespace PaymentWebhook

/-- Where a worker of the pool is: it awaits a task, or its promise is settled. -/
inductive PoolWorker (ε : Type) where
  | awaiting (task : ℕ)
  | returned
  | thrown (err : ε)

/-- The promise of the pool; a value that has not been stored is `none`. -/
inductive PoolPromise (α ε : Type) where
  | pending
  | fulfilled (results : List (Option α))
  | rejected (err : ε)

/-- The variables of `runWithConcurrency`, its workers and its promise, and what the tasks have come to. -/
structure Pool (α ε : Type) where
  idx : ℕ
  results : List (Option α)
  workers : List (PoolWorker ε)
  promise : PoolPromise α ε
  /-- The tasks that have been called, oldest first. -/
  called : List ℕ
  /-- The tasks that have been settled, oldest first. -/
  settled : List (ℕ × Except ε α)

/-- The task that a worker awaits. -/
def PoolWorker.task? {ε : Type} : PoolWorker ε → Option ℕ
  | awaiting task => some task
  | _ => none

/-- The worker has returned. -/
def PoolWorker.isReturned {ε : Type} : PoolWorker ε → Bool
  | returned => true
  | _ => false

/-- The worker has thrown. -/
def PoolWorker.isThrown {ε : Type} : PoolWorker ε → Bool
  | thrown _ => true
  | _ => false

/-- Why a task has been rejected. -/
def rejection? {α ε : Type} : ℕ × Except ε α → Option ε
  | (_, .error err) => some err
  | (_, .ok _) => none

namespace Pool

variable {α ε : Type} {n concurrency : ℕ} {p p' : Pool α ε}

/-- The tasks in flight. -/
def inFlight (p : Pool α ε) : List ℕ := p.workers.filterMap PoolWorker.task?

/-- The loop of a worker up to its next `await`, when there are `n` tasks. -/
def next (n : ℕ) (p : Pool α ε) : PoolWorker ε × Pool α ε :=
  if p.idx < n then
    (.awaiting p.idx, { p with idx := p.idx + 1, called := p.called ++ [p.idx] })
  else (.returned, p)

/-- A worker is started. -/
def spawn (n : ℕ) (p : Pool α ε) : Pool α ε :=
  { (p.next n).2 with workers := p.workers ++ [(p.next n).1] }

/-- `await Promise.all(workers)`: the promise is fulfilled once all workers have returned. -/
def awaitAll (p : Pool α ε) : Pool α ε :=
  match p.promise with
  | .pending => if p.workers.all PoolWorker.isReturned then { p with promise := .fulfilled p.results } else p
  | _ => p

/-- `results[i] = await tasks[i]()`. -/
def store (p : Pool α ε) (task : ℕ) (value : α) : Pool α ε :=
  { p with
    results := p.results.set task (some value)
    settled := p.settled ++ [(task, .ok value)] }

/-- The worker `k` goes on. -/
def goOn (n : ℕ) (p : Pool α ε) (k : ℕ) : Pool α ε :=
  { (p.next n).2 with workers := p.workers.set k (p.next n).1 }

/-- The worker `k` goes on with the value of its task. -/
def resume (n : ℕ) (p : Pool α ε) (k task : ℕ) (value : α) : Pool α ε :=
  ((p.store task value).goOn n k).awaitAll

/-- The worker `k` throws the error of its task. -/
def throw (p : Pool α ε) (k task : ℕ) (err : ε) : Pool α ε :=
  { p with
    workers := p.workers.set k (.thrown err)
    settled := p.settled ++ [(task, .error err)]
    promise := match p.promise with
      | .pending => .rejected err
      | settled => settled }

/-- The pool before its first worker is started. -/
def empty (n : ℕ) : Pool α ε := ⟨0, List.replicate n none, [], .pending, [], []⟩

end Pool

/-- **`runWithConcurrency`** for `n` tasks, up to its `await`. -/
def runWithConcurrency {α ε : Type} (n concurrency : ℕ) : Pool α ε :=
  ((Pool.spawn n)^[min concurrency n] (Pool.empty n)).awaitAll

/-- A task in flight is settled. -/
inductive PoolStep {α ε : Type} (n : ℕ) (p : Pool α ε) : Pool α ε → Prop where
  | fulfilled {k task : ℕ} (value : α) (h : p.workers[k]? = some (.awaiting task)) :
      PoolStep n p (p.resume n k task value)
  | rejected {k task : ℕ} (err : ε) (h : p.workers[k]? = some (.awaiting task)) :
      PoolStep n p (p.throw k task err)

/-- A run of the pool. -/
abbrev PoolRun {α ε : Type} (n concurrency : ℕ) (p : Pool α ε) : Prop :=
  Relation.ReflTransGen (PoolStep n) (runWithConcurrency n concurrency) p

namespace Pool

variable {α ε : Type} {n concurrency : ℕ} {p : Pool α ε}

/-- **What holds while `workers` wait**: the tasks have been called in the order of their indices, each is
in flight or settled, the values of those that were fulfilled are stored, and a worker has returned only
after all tasks were called. -/
structure Inv (n : ℕ) (workers : List (PoolWorker ε)) (p : Pool α ε) : Prop where
  called : p.called = List.range p.idx
  le : p.idx ≤ n
  split : (workers.filterMap PoolWorker.task? ++ p.settled.map Prod.fst).Perm (List.range p.idx)
  returned : ∀ x ∈ workers, x.isReturned = true → p.idx = n
  thrown : workers.countP PoolWorker.isThrown = (p.settled.filterMap rejection?).length
  length : p.results.length = n
  results : ∀ i v, p.results[i]? = some (some v) ↔ (i, .ok v) ∈ p.settled

/-- **What the promise says**: it is fulfilled with the values once all workers have returned, and rejected
with the first error. -/
structure Honest (p : Pool α ε) : Prop where
  pending : p.promise = .pending →
    p.settled.filterMap rejection? = [] ∧ p.workers.all PoolWorker.isReturned = false
  fulfilled : ∀ results, p.promise = .fulfilled results →
    results = p.results ∧ p.workers.all PoolWorker.isReturned = true
  rejected : ∀ err, p.promise = .rejected err → (p.settled.filterMap rejection?).head? = some err

/-! ## One worker -/

/-- A worker that goes on calls a task, or returns. -/
theorem next_eq (n : ℕ) (p : Pool α ε) :
    (p.idx < n ∧ p.next n = (.awaiting p.idx, { p with idx := p.idx + 1, called := p.called ++ [p.idx] })) ∨
      (n ≤ p.idx ∧ p.next n = (.returned, p)) := by
  unfold next
  split
  next h => exact .inl ⟨h, rfl⟩
  next h => exact .inr ⟨not_lt.mp h, rfl⟩

section Worker

variable {before after : List (PoolWorker ε)} {task : ℕ}

/-- The invariant does not depend on the order of the workers. -/
theorem Inv.perm {workers workers' : List (PoolWorker ε)} (h : p.Inv n workers)
    (hperm : workers.Perm workers') : p.Inv n workers' where
  called := h.called
  le := h.le
  split := ((hperm.filterMap _).symm.append_right _).trans h.split
  returned x hx := h.returned x (hperm.symm.subset hx)
  thrown := (hperm.countP_eq _).symm.trans h.thrown
  length := h.length
  results := h.results

/-- **A worker goes on.** -/
theorem Inv.next (h : p.Inv n (before ++ after)) :
    (p.next n).2.Inv n (before ++ (p.next n).1 :: after) := by
  suffices hfront : (p.next n).2.Inv n ((p.next n).1 :: (before ++ after)) from
    hfront.perm List.perm_middle.symm
  rcases p.next_eq n with ⟨hlt, hnext⟩ | ⟨hge, hnext⟩
  · rw [hnext]
    refine ⟨?_, hlt, ?_, fun x hx hreturned => ?_, h.thrown, h.length, h.results⟩
    · show p.called ++ [p.idx] = List.range (p.idx + 1)
      rw [h.called, List.range_succ]
    · show (p.idx :: (before ++ after).filterMap PoolWorker.task? ++ p.settled.map Prod.fst).Perm
        (List.range (p.idx + 1))
      rw [List.range_succ]
      exact (h.split.cons p.idx).trans (List.perm_append_singleton _ _).symm
    · rcases List.mem_cons.mp hx with rfl | hx
      · cases hreturned
      · have hn := h.returned x hx hreturned
        omega
  · rw [hnext]
    exact ⟨h.called, h.le, h.split, fun x hx hreturned => le_antisymm h.le hge, h.thrown, h.length, h.results⟩

/-- A task in flight has not been settled, and nobody else awaits it. -/
theorem Inv.in_flight (h : p.Inv n (before ++ .awaiting task :: after)) :
    task < n ∧ (∀ x ∈ p.settled, x.1 ≠ task) ∧
      (task :: ((before ++ after).filterMap PoolWorker.task? ++ p.settled.map Prod.fst)).Perm
        (List.range p.idx) := by
  have hperm := (h.perm List.perm_middle).split
  refine ⟨?_, fun x hx heq => ?_, hperm⟩
  · have hmem : task ∈ List.range p.idx := hperm.subset List.mem_cons_self
    exact (List.mem_range.mp hmem).trans_le h.le
  · have hnodup := hperm.nodup_iff.mpr List.nodup_range
    exact (List.nodup_cons.mp hnodup).1 (List.mem_append_right _ (heq ▸ List.mem_map_of_mem hx))

/-- What is settled comes last among what is called. -/
theorem Inv.split_settled (h : p.Inv n (before ++ .awaiting task :: after)) (outcome : Except ε α) :
    ((before ++ after).filterMap PoolWorker.task? ++ (p.settled ++ [(task, outcome)]).map Prod.fst).Perm
      (List.range p.idx) := by
  rw [List.map_append, List.map_singleton, ← List.append_assoc]
  exact (List.perm_append_singleton _ _).trans h.in_flight.2.2

/-- **A task is fulfilled.** -/
theorem Inv.fulfilled (h : p.Inv n (before ++ .awaiting task :: after)) (value : α) :
    (p.store task value).Inv n (before ++ after) := by
  obtain ⟨hlt, hnew, -⟩ := h.in_flight
  have hwithout := h.perm List.perm_middle
  refine ⟨h.called, h.le, h.split_settled (.ok value),
    fun x hx => hwithout.returned x (List.mem_cons_of_mem _ hx), ?_, by simp [store, h.length], fun i v => ?_⟩
  · show (before ++ after).countP PoolWorker.isThrown =
      ((p.settled ++ [(task, Except.ok value)]).filterMap rejection?).length
    rw [List.filterMap_append]
    exact hwithout.thrown.trans (congrArg List.length (List.append_nil _).symm)
  · show (p.results.set task (some value))[i]? = some (some v) ↔
      (i, Except.ok v) ∈ p.settled ++ [(task, Except.ok value)]
    rw [List.getElem?_set, List.mem_append, List.mem_singleton, ← h.results]
    by_cases hi : task = i
    · subst hi
      have hnot : p.results[task]? ≠ some (some v) := fun hv => hnew _ ((h.results task v).mp hv) rfl
      rw [if_pos rfl, if_pos (h.length.symm ▸ hlt)]
      simp [hnot, eq_comm]
    · rw [if_neg hi]
      simp [Ne.symm hi]

/-- **A task is rejected.** -/
theorem Inv.rejected (h : p.Inv n (before ++ .awaiting task :: after)) (k : ℕ) (err : ε) :
    (p.throw k task err).Inv n (before ++ .thrown err :: after) := by
  obtain ⟨-, hnew, -⟩ := h.in_flight
  have hwithout := h.perm List.perm_middle
  suffices hfront : (p.throw k task err).Inv n (.thrown err :: (before ++ after)) from
    hfront.perm List.perm_middle.symm
  refine ⟨h.called, h.le, h.split_settled (.error err), fun x hx hreturned => ?_, ?_, h.length, fun i v => ?_⟩
  · rcases List.mem_cons.mp hx with rfl | hx
    · cases hreturned
    · exact hwithout.returned x (List.mem_cons_of_mem _ hx) hreturned
  · show (PoolWorker.thrown err :: (before ++ after)).countP PoolWorker.isThrown =
      ((p.settled ++ [(task, Except.error err)]).filterMap rejection?).length
    rw [List.filterMap_append, List.length_append, ← hwithout.thrown, List.countP_cons_of_pos rfl,
      List.countP_cons_of_neg (by simp [PoolWorker.isThrown])]
    rfl
  · show p.results[i]? = some (some v) ↔ (i, Except.ok v) ∈ p.settled ++ [(task, Except.error err)]
    rw [h.results, List.mem_append]
    simp

end Worker

/-! ## The pool -/

/-- The invariant is about the tasks. -/
theorem Inv.congr {workers : List (PoolWorker ε)} {p' : Pool α ε} (h : p.Inv n workers)
    (heq : (p'.idx, p'.results, p'.called, p'.settled) = (p.idx, p.results, p.called, p.settled)) :
    p'.Inv n workers := by
  simp only [Prod.mk.injEq] at heq
  obtain ⟨hidx, hresults, hcalled, hsettled⟩ := heq
  constructor
  · rw [hcalled, hidx]
    exact h.called
  · rw [hidx]
    exact h.le
  · rw [hsettled, hidx]
    exact h.split
  · rw [hidx]
    exact h.returned
  · rw [hsettled]
    exact h.thrown
  · rw [hresults]
    exact h.length
  · rw [hresults, hsettled]
    exact h.results

/-- The worker `k` among the others. -/
theorem exists_set {k task : ℕ} {workers : List (PoolWorker ε)} (h : workers[k]? = some (.awaiting task)) :
    ∃ before after, workers = before ++ .awaiting task :: after ∧
      ∀ x, workers.set k x = before ++ x :: after := by
  obtain ⟨hk, hget⟩ := List.getElem?_eq_some_iff.mp h
  refine ⟨workers.take k, workers.drop (k + 1), ?_, fun x => ?_⟩
  rotate_left
  · exact List.set_eq_take_append_cons_drop.trans (if_pos hk)
  rw [← hget, List.getElem_cons_drop, List.take_append_drop]

/-- What a worker that goes on leaves alone. -/
theorem next_frame (n : ℕ) (p : Pool α ε) : (p.next n).2.results = p.results ∧
    (p.next n).2.promise = p.promise ∧ (p.next n).2.settled = p.settled := by
  rcases p.next_eq n with ⟨-, heq⟩ | ⟨-, heq⟩ <;> rw [heq] <;> exact ⟨rfl, rfl, rfl⟩

/-- Waiting for all workers changes the promise only. -/
theorem awaitAll_eq (p : Pool α ε) : ∃ promise, p.awaitAll = { p with promise := promise } := by
  unfold awaitAll
  split
  · split
    · exact ⟨_, rfl⟩
    · exact ⟨p.promise, rfl⟩
  · exact ⟨p.promise, rfl⟩

/-- The promise after waiting for all workers. -/
theorem Honest.awaitAll (hpending : p.promise = .pending → p.settled.filterMap rejection? = [])
    (hfulfilled : ∀ results, p.promise ≠ .fulfilled results)
    (hrejected : ∀ err, p.promise = .rejected err → (p.settled.filterMap rejection?).head? = some err) :
    p.awaitAll.Honest := by
  cases hp : p.promise with
  | pending =>
    by_cases hall : p.workers.all PoolWorker.isReturned = true
    · rw [show p.awaitAll = { p with promise := .fulfilled p.results } by simp [Pool.awaitAll, hp, hall]]
      refine ⟨fun h => ?_, fun results h => ?_, fun err h => ?_⟩
      · cases h
      · cases h
        exact ⟨rfl, hall⟩
      · cases h
    · rw [show p.awaitAll = p by simp [Pool.awaitAll, hp, hall]]
      exact ⟨fun _ => ⟨hpending hp, by simpa using hall⟩, fun results h => absurd h (hfulfilled results),
        hrejected⟩
  | fulfilled results => exact absurd hp (hfulfilled results)
  | rejected err =>
    rw [show p.awaitAll = p by simp [Pool.awaitAll, hp]]
    refine ⟨fun h => ?_, fun results h => absurd h (hfulfilled results), hrejected⟩
    cases hp.symm.trans h

/-- **What a run keeps.** -/
structure Sound (n size : ℕ) (p : Pool α ε) : Prop where
  inv : p.Inv n p.workers
  honest : p.Honest
  size : p.workers.length = size

/-- Waiting for all workers keeps a pool sound, whose promise has not been fulfilled. -/
theorem Sound.awaitAll {size : ℕ} (hinv : p.Inv n p.workers) (hsize : p.workers.length = size)
    (hpending : p.promise = .pending → p.settled.filterMap rejection? = [])
    (hfulfilled : ∀ results, p.promise ≠ .fulfilled results)
    (hrejected : ∀ err, p.promise = .rejected err → (p.settled.filterMap rejection?).head? = some err) :
    p.awaitAll.Sound n size := by
  have hhonest := Honest.awaitAll hpending hfulfilled hrejected
  obtain ⟨promise, heq⟩ := p.awaitAll_eq
  rw [heq] at hhonest ⊢
  exact ⟨hinv.congr rfl, hhonest, hsize⟩

/-- The pool after `k` workers have been started. -/
theorem inv_spawns (n k : ℕ) : ∃ p : Pool α ε, (spawn n)^[k] (empty n) = p ∧ p.Inv n p.workers ∧
    p.workers.length = k ∧ p.promise = .pending ∧ p.settled = [] := by
  induction k with
  | zero =>
    refine ⟨empty n, rfl,
      ⟨rfl, Nat.zero_le n, .refl _, by simp [empty], rfl, by simp [empty], fun i v => ?_⟩, rfl,
      rfl, rfl⟩
    simp [empty, List.getElem?_replicate]
  | succ k ih =>
    obtain ⟨p, heq, hinv, hlength, hpending, hsettled⟩ := ih
    have hworkers : p.Inv n (p.workers ++ []) := by rwa [List.append_nil]
    have hnext := hworkers.next
    obtain ⟨-, hpromise', hsettled'⟩ := p.next_frame n
    refine ⟨p.spawn n, by rw [Function.iterate_succ_apply', heq], hnext.congr rfl, by simp [spawn, hlength],
      hpromise'.trans hpending, hsettled'.trans hsettled⟩

/-- The pool at its first `await`. -/
theorem sound_start (n concurrency : ℕ) :
    (runWithConcurrency n concurrency : Pool α ε).Sound n (min concurrency n) := by
  obtain ⟨p, heq, hinv, hlength, hpending, hsettled⟩ := inv_spawns (α := α) (ε := ε) n (min concurrency n)
  rw [runWithConcurrency, heq]
  refine Sound.awaitAll hinv hlength (fun _ => by rw [hsettled]; rfl) (fun results h => ?_) fun err h => ?_
  · cases hpending.symm.trans h
  · cases hpending.symm.trans h

/-- **A step keeps the pool sound.** -/
theorem Sound.step {size : ℕ} {p p' : Pool α ε} (h : p.Sound n size) (hstep : PoolStep n p p') :
    p'.Sound n size := by
  have hinv := h.inv
  -- the promise has not been fulfilled: a worker has not returned
  have hrunning : ∀ {k task : ℕ}, p.workers[k]? = some (.awaiting task) →
      ∀ results, p.promise ≠ .fulfilled results := by
    intro k task hk results hp
    have hall := List.all_eq_true.mp (h.honest.fulfilled results hp).2 _ (List.mem_of_getElem? hk)
    cases hall
  cases hstep with
  | @fulfilled k task value hk =>
    obtain ⟨before, after, hworkers, hset⟩ := exists_set hk
    rw [hworkers] at hinv
    obtain ⟨-, hpromise, hsettled⟩ := (p.store task value).next_frame n
    have hrejections :
        (p.store task value).settled.filterMap rejection? = p.settled.filterMap rejection? := by
      rw [store, List.filterMap_append]
      exact List.append_nil _
    have hnext : ((p.store task value).goOn n k).Inv n ((p.store task value).goOn n k).workers := by
      show Inv n (p.workers.set k _) _
      rw [hset]
      exact (hinv.fulfilled value).next.congr rfl
    refine Sound.awaitAll hnext (by simp [goOn, store, h.size]) (fun hp => ?_) (fun results hp => ?_)
      fun err hp => ?_
    · show ((p.store task value).next n).2.settled.filterMap rejection? = []
      rw [hsettled, hrejections]
      exact (h.honest.pending (hpromise.symm.trans hp)).1
    · exact hrunning hk results (hpromise.symm.trans hp)
    · show (((p.store task value).next n).2.settled.filterMap rejection?).head? = some err
      rw [hsettled, hrejections]
      exact h.honest.rejected err (hpromise.symm.trans hp)
  | @rejected k task err hk =>
    obtain ⟨before, after, hworkers, hset⟩ := exists_set hk
    rw [hworkers] at hinv
    have hrejections : (p.throw k task err).settled.filterMap rejection? =
        p.settled.filterMap rejection? ++ [err] := by
      rw [throw, List.filterMap_append]
      rfl
    refine ⟨?_, ?_, by simp [throw, h.size]⟩
    · show Inv n (p.workers.set k (.thrown err)) _
      rw [hset]
      exact hinv.rejected k err
    · cases hp : p.promise with
      | pending =>
        have hnone := (h.honest.pending hp).1
        have hpromise : (p.throw k task err).promise = .rejected err := by simp [throw, hp]
        refine ⟨fun h' => ?_, fun results h' => ?_, fun err' h' => ?_⟩
        · cases hpromise.symm.trans h'
        · cases hpromise.symm.trans h'
        · cases hpromise.symm.trans h'
          rw [hrejections, hnone]
          rfl
      | fulfilled results => exact absurd hp (hrunning hk results)
      | rejected first =>
        have hpromise : (p.throw k task err).promise = .rejected first := by simp [throw, hp]
        refine ⟨fun h' => ?_, fun results h' => ?_, fun err' h' => ?_⟩
        · cases hpromise.symm.trans h'
        · cases hpromise.symm.trans h'
        · cases hpromise.symm.trans h'
          rw [hrejections, List.head?_append, h.honest.rejected first hp]
          rfl

/-- Every pool that is reached is sound. -/
theorem sound_run (h : PoolRun n concurrency p) : p.Sound n (min concurrency n) := by
  induction h with
  | refl => exact sound_start n concurrency
  | tail _ hstep ih => exact ih.step hstep

/-- Every worker awaits a task, has returned, or has thrown. -/
theorem length_workers (workers : List (PoolWorker ε)) : (workers.filterMap PoolWorker.task?).length +
    workers.countP PoolWorker.isReturned + workers.countP PoolWorker.isThrown = workers.length := by
  induction workers with
  | nil => rfl
  | cons x workers ih =>
    rw [List.countP_cons, List.countP_cons, List.length_cons]
    cases x with
    | awaiting task =>
      rw [List.filterMap_cons_some (show PoolWorker.task? (.awaiting task) = some task from rfl),
        List.length_cons]
      simp only [PoolWorker.isReturned, PoolWorker.isThrown, Bool.false_eq_true, if_false]
      omega
    | returned =>
      rw [List.filterMap_cons_none rfl]
      simp only [PoolWorker.isReturned, PoolWorker.isThrown, Bool.false_eq_true, if_false, if_true]
      omega
    | thrown err =>
      rw [List.filterMap_cons_none rfl]
      simp only [PoolWorker.isReturned, PoolWorker.isThrown, Bool.false_eq_true, if_false, if_true]
      omega

/-- **As many tasks are in flight as may be**: each worker that has not thrown awaits one while there are tasks
that have not been called. -/
theorem Sound.length_inFlight {size : ℕ} (h : p.Sound n size) : p.inFlight.length =
    min (size - (p.settled.filterMap rejection?).length) (n - p.settled.length) := by
  have hsplit := h.inv.split.length_eq
  have hworkers := length_workers p.workers
  have hthrown := h.inv.thrown
  have hle := h.inv.le
  rw [List.length_append, List.length_map, List.length_range] at hsplit
  rw [h.size] at hworkers
  show (p.workers.filterMap PoolWorker.task?).length = _
  by_cases hidx : p.idx = n
  · omega
  · have hnone : p.workers.countP PoolWorker.isReturned = 0 :=
      List.countP_eq_zero.mpr fun x hx hreturned => hidx (h.inv.returned x hx hreturned)
    omega

/-- When all workers have returned, all tasks have been fulfilled. -/
theorem Sound.complete (h : p.Sound n (min concurrency n)) (hconcurrency : 1 ≤ concurrency)
    (hall : p.workers.all PoolWorker.isReturned = true) :
    p.settled.filterMap rejection? = [] ∧ p.settled.length = n := by
  have hreturned : ∀ x ∈ p.workers, x = .returned := by
    intro x hx
    have hx' := List.all_eq_true.mp hall x hx
    cases x with
    | awaiting task => cases hx'
    | returned => rfl
    | thrown err => cases hx'
  have hnone : p.settled.filterMap rejection? = [] := by
    rw [← List.length_eq_zero_iff, ← h.inv.thrown, List.countP_eq_zero]
    intro x hx
    rw [hreturned x hx]
    exact Bool.false_ne_true
  have hidle : p.inFlight.length = 0 := by
    rw [List.length_eq_zero_iff, inFlight, List.filterMap_eq_nil_iff]
    intro x hx
    rw [hreturned x hx]
    rfl
  have hlength := h.length_inFlight
  have hsplit := h.inv.split.length_eq
  have hle := h.inv.le
  rw [List.length_append, List.length_map, List.length_range] at hsplit
  rw [hidle, hnone, List.length_nil] at hlength
  exact ⟨hnone, by omega⟩

/-- Of all tasks the values have been stored. -/
theorem Sound.value {size : ℕ} (h : p.Sound n size) (hnone : p.settled.filterMap rejection? = [])
    (hlength : p.settled.length = n) {i : ℕ} (hi : i < n) :
    ∃ value, p.results[i]? = some (some value) ∧ (i, .ok value) ∈ p.settled := by
  have hsplit := h.inv.split.length_eq
  have hle := h.inv.le
  rw [List.length_append, List.length_map, List.length_range] at hsplit
  have hidle : p.workers.filterMap PoolWorker.task? = [] := List.length_eq_zero_iff.mp (by omega)
  have hidx : p.idx = n := by omega
  have hperm := h.inv.split
  rw [hidle, List.nil_append, hidx] at hperm
  obtain ⟨⟨j, outcome⟩, hmem, rfl⟩ := List.mem_map.mp (hperm.symm.subset (List.mem_range.mpr hi))
  cases outcome with
  | ok value => exact ⟨value, (h.inv.results j value).mpr hmem, hmem⟩
  | error err =>
    have hrejected : err ∈ p.settled.filterMap rejection? := List.mem_filterMap.mpr ⟨_, hmem, rfl⟩
    rw [hnone] at hrejected
    cases hrejected

end Pool

variable {α ε : Type} {n concurrency : ℕ} {p : Pool α ε}

/-- **The concurrency pool.**  Whatever order the tasks are settled in, they have been called in the order of
their indices, each once; each has been settled or is in flight, and as many are in flight as may be: one for
each worker that has not thrown.  The promise is pending while there is neither an error nor a value of each
task, it is fulfilled with the value of each task at its index, and rejected with the first error. -/
theorem runWithConcurrency_spec (hconcurrency : 1 ≤ concurrency) (h : PoolRun n concurrency p) :
    p.called = List.range p.idx ∧
    (p.inFlight ++ p.settled.map Prod.fst).Perm p.called ∧
    p.inFlight.length =
      min (min concurrency n - (p.settled.filterMap rejection?).length) (n - p.settled.length) ∧
    (p.promise = .pending ↔ p.settled.filterMap rejection? = [] ∧ p.settled.length < n) ∧
    (∀ results, p.promise = .fulfilled results → results.length = n ∧
      ∀ i < n, ∃ value, results[i]? = some (some value) ∧ (i, .ok value) ∈ p.settled) ∧
    ∀ err, p.promise = .rejected err ↔ (p.settled.filterMap rejection?).head? = some err := by
  have hsound := Pool.sound_run h
  have hcalled := hsound.inv.called
  have hhonest := hsound.honest
  have hlength := hsound.length_inFlight
  refine ⟨hcalled, hcalled ▸ hsound.inv.split, hlength, ?_, fun results hp => ?_, ?_⟩
  · constructor
    · intro hp
      obtain ⟨hnone, hrunning⟩ := hhonest.pending hp
      refine ⟨hnone, ?_⟩
      by_contra hge
      -- then nothing is in flight, and all workers have returned
      have hworkers := Pool.length_workers p.workers
      have hthrown := hsound.inv.thrown
      have hsize := hsound.size
      change (p.workers.filterMap PoolWorker.task?).length = _ at hlength
      rw [hnone, List.length_nil] at hthrown hlength
      have hreturned : p.workers.countP PoolWorker.isReturned = p.workers.length := by omega
      rw [List.all_eq_true.mpr (List.countP_eq_length.mp hreturned)] at hrunning
      cases hrunning
    · rintro ⟨hnone, hlt⟩
      cases hp : p.promise with
      | pending => rfl
      | fulfilled results =>
        have hcomplete := hsound.complete hconcurrency (hhonest.fulfilled results hp).2
        omega
      | rejected err =>
        have herr := hhonest.rejected err hp
        rw [hnone] at herr
        cases herr
  · obtain ⟨rfl, hall⟩ := hhonest.fulfilled results hp
    obtain ⟨hnone, hcomplete⟩ := hsound.complete hconcurrency hall
    exact ⟨hsound.inv.length, fun i hi => hsound.value hnone hcomplete hi⟩
  · intro err
    refine ⟨hhonest.rejected err, fun herr => ?_⟩
    cases hp : p.promise with
    | pending =>
      rw [(hhonest.pending hp).1] at herr
      cases herr
    | fulfilled results =>
      rw [(hsound.complete hconcurrency (hhonest.fulfilled results hp).2).1] at herr
      cases herr
    | rejected err' =>
      have herr' := hhonest.rejected err' hp
      rw [herr] at herr'
      rw [Option.some.inj herr']

/-- Two workers settle the last two of three tasks before the first one: nothing is in flight then. -/
theorem runWithConcurrency_sample : ∃ p : Pool ℕ String, PoolRun 3 2 p ∧
    p.settled.map Prod.fst = [1, 2, 0] ∧ p.inFlight.length = 0 := by
  let p₀ : Pool ℕ String := ⟨2, [none, none, none], [.awaiting 0, .awaiting 1], .pending, [0, 1], []⟩
  let p₁ : Pool ℕ String := ⟨3, [none, some 10, none], [.awaiting 0, .awaiting 2], .pending, [0, 1, 2],
    [(1, .ok 10)]⟩
  let p₂ : Pool ℕ String := ⟨3, [none, some 10, some 20], [.awaiting 0, .returned], .pending, [0, 1, 2],
    [(1, .ok 10), (2, .ok 20)]⟩
  let p₃ : Pool ℕ String := ⟨3, [some 30, some 10, some 20], [.returned, .returned],
    .fulfilled [some 30, some 10, some 20], [0, 1, 2], [(1, .ok 10), (2, .ok 20), (0, .ok 30)]⟩
  have h₀ : runWithConcurrency 3 2 = p₀ := rfl
  have h₁ : PoolStep 3 p₀ p₁ := @PoolStep.fulfilled _ _ 3 p₀ 1 1 10 rfl
  have h₂ : PoolStep 3 p₁ p₂ := @PoolStep.fulfilled _ _ 3 p₁ 1 2 20 rfl
  have h₃ : PoolStep 3 p₂ p₃ := @PoolStep.fulfilled _ _ 3 p₂ 0 0 30 rfl
  have hrun : PoolRun 3 2 p₃ := by
    unfold PoolRun
    rw [h₀]
    exact ((Relation.ReflTransGen.single h₁).tail h₂).tail h₃
  obtain ⟨-, -, hlength, -⟩ := runWithConcurrency_spec (by decide) hrun
  exact ⟨p₃, hrun, rfl, hlength⟩

end PaymentWebhook
