import Mathlib.Data.List.Dedup
import Mathlib.Data.List.Sort
import PaymentWebhook.Chaos
import PaymentWebhook.Generator
import PaymentWebhook.OrderReads

set_option relaxedAutoImplicit false
set_option autoImplicit false

/-!
# The verdict of the simulator

After it has sent its webhooks, the simulator polls the orders until they have converged, fetches those that
have not, and exits with 0 if everything is as expected.

## Main definitions

* `PaymentWebhook.Answers` — the answers to the webhooks, classified and counted.
* `PaymentWebhook.Poller`, `PaymentWebhook.Polling` — the loop over the orders that have not converged.
* `PaymentWebhook.Totals` — the validation of the final responses.
* `PaymentWebhook.exitCode` — the verdict.

## Main results

* `PaymentWebhook.checkOrderConvergence_converged_iff` — which orders have converged.
* `PaymentWebhook.exitCode_eq_zero_iff` — the exit criteria.
* `PaymentWebhook.Totals.ofResponses_eq` — what the validation finds.

## Implementation notes

The loop ends when the time is over, which can be after any round.  What is printed is left out.
-/

namespace PaymentWebhook

open Transactions Generator

/-! ## The answers to the webhooks -/

/-- What `httpPost` comes to; `result` is that of the body, if it is an object with a text in it. -/
inductive Posted where
  | response (status : ℕ) (result : Option String) (latency : ℚ)
  | error

/-- The counters of the answers. -/
structure Answers where
  created : ℕ
  duplicateResp : ℕ
  ignoredResp : ℕ
  rejectedResp : ℕ
  http401 : ℕ
  unexpectedErrors : ℕ
  latencies : List ℚ

namespace Answers

def start : Answers := ⟨0, 0, 0, 0, 0, 0, []⟩

/-- The branches over `resultField`. -/
def classifyResult (a : Answers) : Option String → Answers
  | some "CREATED" => { a with created := a.created + 1 }
  | some "DUPLICATE" => { a with duplicateResp := a.duplicateResp + 1 }
  | some "IGNORED" => { a with ignoredResp := a.ignoredResp + 1 }
  | some "REJECTED" => { a with rejectedResp := a.rejectedResp + 1 }
  | _ => { a with unexpectedErrors := a.unexpectedErrors + 1 }

/-- What a task does with its answer. -/
def classify (a : Answers) : Posted → Answers
  | .response status result latency =>
    let a := { a with latencies := a.latencies ++ [latency] }
    if status = 401 then { a with http401 := a.http401 + 1 }
    else if status = 202 then a.classifyResult result
    else { a with unexpectedErrors := a.unexpectedErrors + 1 }
  | .error => { a with unexpectedErrors := a.unexpectedErrors + 1 }

/-- `p95`; an index behind the end gives 0. -/
def p95 (a : Answers) : ℚ :=
  let latencies := a.latencies.insertionSort (· ≤ ·)
  latencies.getD (⌈(latencies.length : ℚ) * 0.95⌉₊ - 1) 0

end Answers

/-! ## The polls -/

/-- `expectedEventsByOrder[orderId] || []`. -/
def Generator.Generated.expectedEvents (g : Generated) (orderId : String) : List String :=
  (g.expectedEventsByOrder.lookup orderId).getD []

/-- The variables of the loop. -/
structure Poller where
  pendingOrders : List String
  finalResponses : List (String × OrderDetail)

namespace Poller

def start (g : Generated) : Poller := ⟨g.expectedStates.map Prod.fst, []⟩

/-- What a task of a round does with its answer: an order, if the status is 200. -/
def observe (g : Generated) (p : Poller) (answer : String × Option OrderDetail) : Poller :=
  match answer.2, g.expectedStates.lookup answer.1 with
  | some order, some expected =>
    let conv := checkOrderConvergence order expected (g.expectedEvents answer.1)
    if conv.converged || conv.terminalFail then
      { pendingOrders := p.pendingOrders.filter (· ≠ answer.1)
        finalResponses := (answer.1, order) :: p.finalResponses }
    else p
  | _, _ => p

/-- A round, by its answers in the order in which they come in. -/
def round (g : Generated) (p : Poller) (answers : List (String × Option OrderDetail)) : Poller :=
  answers.foldl (observe g) p

/-- The turn of the loop that fetches the orders that have timed out. -/
def fetch (fetched : String → Option OrderDetail) (p : Poller) (orderId : String) : Poller :=
  if (p.finalResponses.lookup orderId).isSome then p
  else match fetched orderId with
    | some order => { p with finalResponses := (orderId, order) :: p.finalResponses }
    | none => p

/-- The loop that fetches the orders that have timed out. -/
def fetchAll (g : Generated) (fetched : String → Option OrderDetail) (p : Poller) : Poller :=
  (g.expectedStates.map Prod.fst).foldl (fetch fetched) p

end Poller

/-- **The loop over the orders that have not converged**, one round after the other; the orders that come in are
`Served`. -/
inductive Polling (g : Generated) (Served : String → OrderDetail → Prop) : Poller → Poller → Prop where
  | stop (p : Poller) : Polling g Served p p
  | round {p p' : Poller} {answers : List (String × Option OrderDetail)} (hpending : p.pendingOrders ≠ [])
      (hbatch : (answers.map Prod.fst).Perm p.pendingOrders)
      (hserved : ∀ id order, (id, some order) ∈ answers → Served id order)
      (hrest : Polling g Served (p.round g answers) p') : Polling g Served p p'

/-! ## The validation -/

/-- The totals of the validation. -/
structure Totals where
  divergences : ℕ
  totalTerminalEvents : ℕ
  totalPendingEvents : ℕ
  totalDlqEvents : ℕ
  totalLostEvents : ℕ
  deriving DecidableEq, Repr

namespace Totals

def start : Totals := ⟨0, 0, 0, 0, 0⟩

/-- The turn of the validation. -/
def validate (g : Generated) (p : Poller) (t : Totals) (entry : String × ExpectedState) : Totals :=
  let expectedEvents := g.expectedEvents entry.1
  match p.finalResponses.lookup entry.1 with
  | none =>
    { t with
      divergences := t.divergences + 1
      totalLostEvents := t.totalLostEvents + expectedEvents.length }
  | some order =>
    let conv := checkOrderConvergence order entry.2 expectedEvents
    { divergences := if conv.converged then t.divergences else t.divergences + 1
      totalTerminalEvents := t.totalTerminalEvents + conv.terminal
      totalPendingEvents := t.totalPendingEvents + conv.pending
      totalDlqEvents := t.totalDlqEvents + conv.dlq
      totalLostEvents := t.totalLostEvents + conv.lost }

/-- The validation of the final responses. -/
def ofResponses (g : Generated) (p : Poller) : Totals := g.expectedStates.foldl (validate g p) start

end Totals

/-- `uniqueBaseIds`. -/
def Generator.Generated.uniqueBaseIds (g : Generated) : ℕ :=
  (g.baseEvents.map GeneratedEvent.eventId).dedup.length

/-- **The exit code**; `chaosResult` is that of a run with `--kill-at`. -/
def exitCode (g : Generated) (a : Answers) (t : Totals) (killAt : Option ℕ) (chaosResult : Option ChaosResult) :
    ℕ :=
  let exitCode := 0
  let exitCode := if t.divergences > 0 then 1 else exitCode
  let exitCode := if a.rejectedResp > 0 then 1 else exitCode
  let exitCode := if a.unexpectedErrors > 0 then 1 else exitCode
  let exitCode := if a.created ≠ g.uniqueBaseIds then 1 else exitCode
  let exitCode := if a.duplicateResp ≠ g.stats.duplicates then 1 else exitCode
  let exitCode := if a.ignoredResp ≠ g.stats.staleTimestamps then 1 else exitCode
  let exitCode := if a.http401 ≠ g.stats.invalidSignatures then 1 else exitCode
  let exitCode := if t.totalPendingEvents > 0 then 1 else exitCode
  let exitCode := if t.totalDlqEvents > 0 then 1 else exitCode
  let exitCode := if t.totalLostEvents > 0 then 1 else exitCode
  let exitCode := if a.p95 ≥ 100 then 1 else exitCode
  if killAt = none then exitCode
  else match chaosResult with
    | none => 1
    | some r =>
      if r.killConfirmed = false then 1
      else if r.restartConfirmed = false then 1
      else exitCode

/-- **The exit criteria.** -/
theorem exitCode_eq_zero_iff {g : Generated} {a : Answers} {t : Totals} {killAt : Option ℕ}
    {chaosResult : Option ChaosResult} : exitCode g a t killAt chaosResult = 0 ↔
      (t.divergences = 0 ∧ t.totalPendingEvents = 0 ∧ t.totalDlqEvents = 0 ∧ t.totalLostEvents = 0) ∧
      (a.rejectedResp = 0 ∧ a.unexpectedErrors = 0 ∧ a.created = g.uniqueBaseIds ∧
        a.duplicateResp = g.stats.duplicates ∧ a.ignoredResp = g.stats.staleTimestamps ∧
        a.http401 = g.stats.invalidSignatures) ∧ a.p95 < 100 ∧
      (killAt = none ∨ ∃ r, chaosResult = some r ∧ r.killConfirmed = true ∧ r.restartConfirmed = true) := by
  have hstep : ∀ (P : Prop) [Decidable P] (n : ℕ), (if P then 1 else n) = 0 ↔ n = 0 ∧ ¬ P := by
    intro P _ n
    by_cases h : P <;> simp [h]
  have hcriteria : exitCode g a t none none = 0 ↔
      (t.divergences = 0 ∧ t.totalPendingEvents = 0 ∧ t.totalDlqEvents = 0 ∧ t.totalLostEvents = 0) ∧
      (a.rejectedResp = 0 ∧ a.unexpectedErrors = 0 ∧ a.created = g.uniqueBaseIds ∧
        a.duplicateResp = g.stats.duplicates ∧ a.ignoredResp = g.stats.staleTimestamps ∧
        a.http401 = g.stats.invalidSignatures) ∧ a.p95 < 100 := by
    simp only [exitCode, if_true, hstep, not_not, not_le, gt_iff_lt, not_lt, Nat.le_zero, ge_iff_le]
    tauto
  cases killAt with
  | none =>
    have hnone : exitCode g a t none chaosResult = exitCode g a t none none := rfl
    simpa only [hnone, true_or, and_true] using hcriteria
  | some n =>
    cases chaosResult with
    | none => simp [exitCode]
    | some r =>
      have hr : exitCode g a t (some n) (some r) = if r.killConfirmed = false then 1
          else if r.restartConfirmed = false then 1 else exitCode g a t none none := rfl
      rw [hr, hstep, hstep, hcriteria]
      simp only [Bool.not_eq_false, reduceCtorEq, false_or, Option.some.injEq, exists_eq_left']
      tauto

/-! ## Which orders have converged -/

section Convergence

variable {events : List OrderEventRow} {order : OrderDetail} {expected : ExpectedState} {ids : List String}

/-- The status of an event that is final. -/
def isFinal : Option ProcessingStatus → Bool
  | some .applied | some .ignored => true
  | _ => false

/-- The status of an event that a worker has to come back to. -/
def isWaiting : Option ProcessingStatus → Bool
  | some .pending | some .retryScheduled => true
  | _ => false

/-- **The loop over the expected events** counts each of them once. -/
theorem foldl_countEvent (result : ConvergenceResult) : ids.foldl (countEvent events) result =
    { converged := result.converged
      terminalFail := result.terminalFail || ids.any fun id => statusByEventId events id = some .dlq
      terminal := result.terminal + ids.countP fun id => isFinal (statusByEventId events id)
      pending := result.pending + ids.countP fun id => isWaiting (statusByEventId events id)
      dlq := result.dlq + ids.countP fun id => statusByEventId events id = some .dlq
      lost := result.lost + ids.countP fun id => statusByEventId events id = none } := by
  induction ids generalizing result with
  | nil => simp
  | cons eventId ids ih =>
    rw [List.foldl_cons, ih]
    simp only [List.any_cons, List.countP_cons, countEvent]
    cases statusByEventId events eventId with
    | none => simp [isFinal, isWaiting]; omega
    | some status => cases status <;> simp [isFinal, isWaiting] <;> omega

/-- Each event is final, waits, is in the dead-letter queue, or is lost. -/
theorem isFinal_iff (status : Option ProcessingStatus) :
    isFinal status = true ↔ ¬ isWaiting status = true ∧ status ≠ some .dlq ∧ status ≠ none := by
  cases status with
  | none => simp [isFinal]
  | some status => cases status <;> simp [isFinal, isWaiting]

/-- **Which orders have converged**: those that stand where they are expected, with all their events final. -/
theorem checkOrderConvergence_converged_iff : (checkOrderConvergence order expected ids).converged = true ↔
    stateMatch order.order expected = true ∧ ∀ id ∈ ids, isFinal (statusByEventId order.events id) = true := by
  unfold checkOrderConvergence
  split
  next hmatch => simp [hmatch]
  next hmatch =>
    simp only [foldl_countEvent, Bool.and_eq_true, decide_eq_true_eq, Nat.zero_add, List.countP_eq_zero]
    have hall : (∀ id ∈ ids, isFinal (statusByEventId order.events id) = true) ↔
        ∀ id ∈ ids, ¬ isWaiting (statusByEventId order.events id) = true ∧
          statusByEventId order.events id ≠ some .dlq ∧ statusByEventId order.events id ≠ none :=
      forall₂_congr fun id _ => isFinal_iff _
    rw [hall]
    simp only [forall_and, Ne, and_assoc]
    simp [hmatch]

/-- An order that has converged has nothing else to report. -/
theorem checkOrderConvergence_converged (h : (checkOrderConvergence order expected ids).converged = true) :
    checkOrderConvergence order expected ids = ⟨true, false, ids.length, 0, 0, 0⟩ := by
  obtain ⟨hmatch, hfinal⟩ := checkOrderConvergence_converged_iff.mp h
  have hother : ∀ id ∈ ids, ¬ isWaiting (statusByEventId order.events id) = true ∧
      statusByEventId order.events id ≠ some .dlq ∧ statusByEventId order.events id ≠ none :=
    fun id hid => (isFinal_iff _).mp (hfinal id hid)
  have hterminal : ids.countP (fun id => isFinal (statusByEventId order.events id)) = ids.length :=
    List.countP_eq_length.mpr hfinal
  have hpending : ids.countP (fun id => isWaiting (statusByEventId order.events id)) = 0 :=
    List.countP_eq_zero.mpr fun id hid => (hother id hid).1
  have hdlq : ids.countP (fun id => decide (statusByEventId order.events id = some .dlq)) = 0 :=
    List.countP_eq_zero.mpr fun id hid => by simpa using (hother id hid).2.1
  have hlost : ids.countP (fun id => decide (statusByEventId order.events id = none)) = 0 :=
    List.countP_eq_zero.mpr fun id hid => by simpa using (hother id hid).2.2
  have hany : (ids.any fun id => decide (statusByEventId order.events id = some .dlq)) = false :=
    List.any_eq_false.mpr fun id hid => by simpa using (hother id hid).2.1
  unfold checkOrderConvergence
  rw [if_neg (by simp [hmatch]), foldl_countEvent]
  simp [hterminal, hpending, hdlq, hlost, hany]

/-- **Which orders are given up**: those that have gone too far, and those with an event in the dead-letter
queue. -/
theorem checkOrderConvergence_terminalFail (h : (checkOrderConvergence order expected ids).terminalFail = true) :
    expected.lastSequence < order.order.lastSequence ∨
      ∃ id ∈ ids, statusByEventId order.events id = some .dlq := by
  unfold checkOrderConvergence at h
  split at h
  next => exact .inl (of_decide_eq_true h)
  next =>
    simp only [foldl_countEvent, Bool.false_or, List.any_eq_true, decide_eq_true_eq] at h
    exact .inr h

/-- The status that is found for an event is that of one of the rows. -/
theorem statusByEventId_some {eventId : String} {status : ProcessingStatus}
    (h : statusByEventId events eventId = some status) :
    ∃ e ∈ events, e.eventId = eventId ∧ e.processingStatus = status := by
  obtain ⟨e, he, rfl⟩ := Option.map_eq_some_iff.mp h
  have hmem := List.mem_of_find?_eq_some he
  have hid := List.find?_some he
  simp only [decide_eq_true_eq] at hid
  exact ⟨e, List.mem_reverse.mp hmem, hid.2, rfl⟩

/-- The status of an event of which there is one row. -/
theorem statusByEventId_eq {e : OrderEventRow} (he : e ∈ events) (hne : e.eventId ≠ "")
    (hone : ∀ e' ∈ events, e'.eventId = e.eventId → e'.processingStatus = e.processingStatus) :
    statusByEventId events e.eventId = some e.processingStatus := by
  have hsome : (events.reverse.find? fun x => decide (x.eventId ≠ "" ∧ x.eventId = e.eventId)).isSome := by
    rw [List.find?_isSome]
    exact ⟨e, List.mem_reverse.mpr he, by simp [hne]⟩
  obtain ⟨x, hx⟩ := Option.isSome_iff_exists.mp hsome
  have hid := List.find?_some hx
  simp only [decide_eq_true_eq] at hid
  rw [statusByEventId, hx, Option.map_some, hone x (List.mem_reverse.mp (List.mem_of_find?_eq_some hx)) hid.2]

end Convergence

/-! ## The final responses -/

section Responses

variable {g : Generated} {Served : String → OrderDetail → Prop} {p p' : Poller} {id : String} {order : OrderDetail}

/-- A response after which an order is polled no more. -/
def LastResponse (g : Generated) (Served : String → OrderDetail → Prop) (id : String) (order : OrderDetail) : Prop :=
  Served id order ∧ ∃ expected, g.expectedStates.lookup id = some expected ∧
    ((checkOrderConvergence order expected (g.expectedEvents id)).converged = true ∨
      (checkOrderConvergence order expected (g.expectedEvents id)).terminalFail = true)

/-- What an answer adds to the final responses. -/
theorem Poller.observe_lookup {answer : String × Option OrderDetail}
    (hserved : ∀ order, answer.2 = some order → Served answer.1 order)
    (h : (p.observe g answer).finalResponses.lookup id = some order) :
    p.finalResponses.lookup id = some order ∨ LastResponse g Served id order := by
  obtain ⟨id', answer⟩ := answer
  unfold Poller.observe at h
  split at h
  next order' expected hanswer hexpected =>
    dsimp only at h
    split at h
    next hconv =>
      rw [lookup_cons_ite] at h
      split at h
      next hid =>
        obtain rfl := Option.some.inj h
        obtain rfl : id = id' := hid
        refine .inr ⟨hserved order' hanswer, expected, hexpected, ?_⟩
        simpa using hconv
      next => exact .inl h
    next => exact .inl h
  next => exact .inl h

/-- **What the loop leaves** are responses after which an order is polled no more. -/
theorem Polling.lookup (h : Polling g Served p p')
    (hp : ∀ id order, p.finalResponses.lookup id = some order → LastResponse g Served id order) :
    ∀ id order, p'.finalResponses.lookup id = some order → LastResponse g Served id order := by
  induction h with
  | stop p => exact hp
  | @round p p' answers _ _ hserved _ ih =>
    refine ih ?_
    -- the answers of the round, one after the other
    have hround : ∀ (answers : List (String × Option OrderDetail)) (p : Poller),
        (∀ id order, (id, some order) ∈ answers → Served id order) →
        (∀ id order, p.finalResponses.lookup id = some order → LastResponse g Served id order) →
        ∀ id order, (p.round g answers).finalResponses.lookup id = some order → LastResponse g Served id order := by
      intro answers
      induction answers with
      | nil => exact fun p _ hp => hp
      | cons answer answers ih =>
        intro p hserved hp
        refine ih (p.observe g answer) (fun id order hmem => hserved id order (List.mem_cons_of_mem _ hmem)) ?_
        intro id order hlookup
        refine (Poller.observe_lookup (fun order hanswer => ?_) hlookup).elim (hp id order) fun hlast => hlast
        exact hserved answer.1 order (by rw [← hanswer]; exact List.mem_cons_self ..)
    exact hround answers p hserved hp

/-- **What is fetched** where no response is final. -/
theorem Poller.fetchAll_lookup (fetched : String → Option OrderDetail) (id : String) :
    (p.fetchAll g fetched).finalResponses.lookup id =
      (p.finalResponses.lookup id).or (if id ∈ g.expectedStates.map Prod.fst then fetched id else none) := by
  unfold Poller.fetchAll
  generalize g.expectedStates.map Prod.fst = ids
  induction ids generalizing p with
  | nil => simp
  | cons id' ids ih =>
    rw [List.foldl_cons, ih]
    have hfetch : (p.fetch fetched id').finalResponses.lookup id =
        (p.finalResponses.lookup id).or (if id = id' then fetched id else none) := by
      unfold Poller.fetch
      split
      next hsome =>
        by_cases hid : id = id'
        · subst hid
          obtain ⟨order, horder⟩ := Option.isSome_iff_exists.mp hsome
          rw [horder, Option.some_or]
        · rw [if_neg hid, Option.or_none]
      next hnone =>
        rw [Option.not_isSome_iff_eq_none] at hnone
        cases horder : fetched id' with
        | none =>
          by_cases hid : id = id'
          · subst hid
            simp [hnone, horder]
          · simp [hid]
        | some order =>
          by_cases hid : id = id'
          · subst hid
            simp [hnone, horder]
          · simp [lookup_cons_ite, hid]
    rw [hfetch]
    by_cases hid : id = id'
    · subst hid
      by_cases hmem : id ∈ ids <;> cases p.finalResponses.lookup id <;> cases fetched id <;> simp [hmem]
    · simp [hid]

/-- The final response for an order has converged. -/
def Poller.Converged (g : Generated) (p : Poller) (entry : String × ExpectedState) : Prop :=
  ∃ order, p.finalResponses.lookup entry.1 = some order ∧
    (checkOrderConvergence order entry.2 (g.expectedEvents entry.1)).converged = true

/-- The turn of the validation for an order that has converged, and for one that has not. -/
theorem Totals.validate_eq (t : Totals) (entry : String × ExpectedState) :
    (p.Converged g entry → t.validate g p entry =
      { t with totalTerminalEvents := t.totalTerminalEvents + (g.expectedEvents entry.1).length }) ∧
    (¬ p.Converged g entry → (t.validate g p entry).divergences = t.divergences + 1) := by
  constructor
  · rintro ⟨order, hlookup, hconv⟩
    rw [Totals.validate, hlookup]
    simp only [checkOrderConvergence_converged hconv, if_true, Nat.add_zero]
  · intro hnot
    rw [Totals.validate]
    cases hlookup : p.finalResponses.lookup entry.1 with
    | none => rfl
    | some order =>
      have hconv : ¬ (checkOrderConvergence order entry.2 (g.expectedEvents entry.1)).converged = true :=
        fun hconv => hnot ⟨order, hlookup, hconv⟩
      exact if_neg hconv

/-- **The validation** finds no divergence exactly if all orders have converged; then nothing else is wrong. -/
theorem Totals.ofResponses_eq : ((Totals.ofResponses g p).divergences = 0 ↔
      ∀ entry ∈ g.expectedStates, p.Converged g entry) ∧
    ((∀ entry ∈ g.expectedStates, p.Converged g entry) → Totals.ofResponses g p =
      ⟨0, (g.expectedStates.map fun entry => (g.expectedEvents entry.1).length).sum, 0, 0, 0⟩) := by
  suffices hfold : ∀ (entries : List (String × ExpectedState)) (t : Totals),
      let t' := entries.foldl (Totals.validate g p) t
      (t'.divergences = 0 ↔ t.divergences = 0 ∧ ∀ entry ∈ entries, p.Converged g entry) ∧
      ((∀ entry ∈ entries, p.Converged g entry) → t' =
        { t with
          totalTerminalEvents := t.totalTerminalEvents +
            (entries.map fun entry => (g.expectedEvents entry.1).length).sum }) by
    obtain ⟨hzero, hrest⟩ := hfold g.expectedStates Totals.start
    refine ⟨hzero.trans (and_iff_right rfl), fun hall => (hrest hall).trans ?_⟩
    rw [Totals.start, Nat.zero_add]
  intro entries
  induction entries with
  | nil => simp
  | cons entry entries ih =>
    intro t
    obtain ⟨hconverged, hdiverged⟩ := t.validate_eq (g := g) (p := p) entry
    obtain ⟨hzero, hrest⟩ := ih (t.validate g p entry)
    simp only [List.foldl_cons, List.forall_mem_cons] at *
    by_cases hconv : p.Converged g entry
    · rw [hconverged hconv] at hzero hrest ⊢
      refine ⟨hzero.trans (by simp [hconv]), fun hall => (hrest hall.2).trans ?_⟩
      rw [List.map_cons, List.sum_cons, Nat.add_assoc]
    · refine ⟨hzero.trans ?_, fun hall => absurd hall.1 hconv⟩
      rw [hdiverged hconv]
      simp [hconv]

end Responses

/-! ## What the service has served -/

section Service

variable [Platform]

/-- The service has served the order on its way to `w`. -/
def ServedBefore (cfg : WorkerConfig) (w : State) (id : String) (order : OrderDetail) : Prop :=
  ∃ v, Reach cfg .empty v ∧ Reachable (program cfg) v w ∧ (OrdersController.findOne id).on v.db = .ok order

omit [Platform] in
/-- The rows of a response are those of its store. -/
theorem findOne_rows {s : Store} {id : String} {order : OrderDetail}
    (h : (OrdersController.findOne id).on s = .ok order) :
    (∃ o, s.order? id = some o ∧ order.order = o.detail) ∧
      ∀ row, row ∈ order.events ↔ ∃ e ∈ s.events, e.orderId = id ∧ e.detail = row := by
  simp only [OrdersController.findOne_ok, OrdersRepository.findById_on, Option.map_eq_some_iff] at h
  obtain ⟨o, ho, rfl⟩ := h
  refine ⟨⟨o, ho, rfl⟩, fun row => ?_⟩
  simp [List.mem_insertionSort, and_assoc]

end Service

end PaymentWebhook
