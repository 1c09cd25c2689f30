import PaymentWebhook.Deliveries
import PaymentWebhook.Failures
import PaymentWebhook.Queries

set_option relaxedAutoImplicit false
set_option autoImplicit false

/-!
# The accounting of the dead-letter queue

An event is moved to the dead-letter queue by a worker and fetched back by a replay.  The journal
tells how often each has happened; `replay_count`, the status of the event and the size of the queue are
what the journal says.

## Main definitions

* `PaymentWebhook.buried?`, `PaymentWebhook.branch?` — the moves to the queue and the replays that a
  log commits.
* `PaymentWebhook.DlqAccounted` — the invariant.
* `PaymentWebhook.ReplayFrame` — what a replay leaves alone.

## Main results

* `PaymentWebhook.Change.dlqAccounted` — every change keeps the invariant.
* `PaymentWebhook.Reach.races` — of the replays of one entry the first to commit takes it.
* `PaymentWebhook.replay_accounting` — the accounts of every reachable state.
-/

namespace PaymentWebhook

open Transactions

/-! ## What the journal says -/

/-- The branches of `DlqRepository.replay` for an event that exists. -/
inductive ReplayBranch where
  | replayed | notInDlq
  deriving DecidableEq, Repr

/-- The branch that an answer is about. -/
def ReplayResult.branch : ReplayResult → ReplayBranch
  | replayed .. => .replayed
  | notInDlq .. => .notInDlq

/-- The event counts if it is in the dead-letter queue. -/
def EventRow.inDlq (e : EventRow) : ℕ := if e.processingStatus = .dlq then 1 else 0

section Journal

variable [Platform]

/-- The event that a log moves to the dead-letter queue. -/
def buried? : Log → Option ℕ
  | [_, ⟨.markDlq id _ _, _, _, _⟩] => some id
  | _ => none

/-- The event that a replay has found, and the branch it took. -/
def branch? : Log → Option (ℕ × ReplayBranch)
  | [⟨.selectEvent id, _, some _, _⟩] => some (id, .notInDlq)
  | [⟨.selectEvent id, _, some _, _⟩, ⟨.replayEvent _, _, _, _⟩] => some (id, .replayed)
  | _ => none

/-- How often an event has been moved to the dead-letter queue. -/
def dlqMoves (id : ℕ) (journal : List (ℕ × Log)) : ℕ :=
  journal.countP fun c => buried? c.2 = some id

/-- How many replays of an event have taken the branch `REPLAYED`. -/
def replaysOf (id : ℕ) (journal : List (ℕ × Log)) : ℕ :=
  journal.countP fun c => branch? c.2 = some (id, .replayed)

/-- The branches that the replays of an event have taken, oldest first. -/
def branchesOf (id : ℕ) (journal : List (ℕ × Log)) : List ReplayBranch :=
  journal.filterMap fun c => ((branch? c.2).filter (·.1 = id)).map (·.2)

/-- How often an event has been moved to the dead-letter queue. -/
def totalMoves (journal : List (ℕ × Log)) : ℕ := journal.countP fun c => (buried? c.2).isSome

/-- How many replays have taken the branch `REPLAYED`. -/
def totalReplays (journal : List (ℕ × Log)) : ℕ :=
  journal.countP fun c => (branch? c.2).any (·.2 = .replayed)

/-- **The accounts of the dead-letter queue are in order.** -/
structure DlqAccounted (journal : List (ℕ × Log)) (s : Store) : Prop where
  moves : ∀ e ∈ s.events, dlqMoves e.id journal = e.replayCount + e.inDlq
  replays : ∀ e ∈ s.events, replaysOf e.id journal = e.replayCount
  unknown : ∀ id, s.eventAt? id = none → dlqMoves id journal = 0 ∧ replaysOf id journal = 0
  total : totalMoves journal = totalReplays journal + (s.events.map EventRow.inDlq).sum

variable {journal : List (ℕ × Log)} {i : ℕ} {log : Log} {s s' : Store} {e e' : EventRow}

omit [Platform] in
/-- A claimable event is not in the dead-letter queue. -/
theorem EventRow.inDlq_of_claimable {now : Timestamp} (h : e.claimable now = true) : e.inDlq = 0 := by
  unfold EventRow.claimable at h
  unfold EventRow.inDlq
  cases hst : e.processingStatus <;> simp [hst] at h ⊢

/-! ## Keeping the accounts -/

/-- The accounts are about the events only. -/
theorem DlqAccounted.congr (h : DlqAccounted journal s) (hevents : s'.events = s.events) :
    DlqAccounted journal s' where
  moves := fun e he => h.moves e (hevents ▸ he)
  replays := fun e he => h.replays e (hevents ▸ he)
  unknown := fun id hid => h.unknown id (by rwa [Store.eventAt?, hevents] at hid)
  total := by rw [h.total, hevents]

/-- A log that neither buries nor replays keeps the accounts, if it changes nothing of them. -/
theorem DlqAccounted.skip (h : DlqAccounted journal s) (hb : buried? log = none)
    (hr : ∀ id, branch? log ≠ some (id, .replayed)) : DlqAccounted (journal ++ [(i, log)]) s where
  moves := fun e he => by simp [dlqMoves, hb, ← h.moves e he]
  replays := fun e he => by simp [replaysOf, hr, ← h.replays e he]
  unknown := fun id hid => by
    obtain ⟨hmoves, hreplays⟩ := h.unknown id hid
    rw [dlqMoves] at hmoves
    rw [replaysOf] at hreplays
    simp [dlqMoves, replaysOf, hb, hr, hmoves, hreplays]
  total := by
    have hany : (branch? log).any (·.2 = .replayed) = false := by
      cases hbranch : branch? log with
      | none => rfl
      | some x =>
        obtain ⟨id, branch⟩ := x
        cases branch with
        | replayed => exact absurd hbranch (hr id)
        | notInDlq => rfl
    have htotal := h.total
    simp only [totalMoves, totalReplays] at htotal
    simp [totalMoves, totalReplays, hb, hany, htotal]

/-- A new event has been neither buried nor replayed. -/
theorem DlqAccounted.insert (h : DlqAccounted journal s) (hs' : s'.Keyed)
    (hevents : s'.events = s.events ++ [e]) (hreplays : e.replayCount = 0) (hdlq : e.inDlq = 0) :
    DlqAccounted journal s' := by
  have hnew : s.eventAt? e.id = none := by
    have hpair := hs'.events
    rw [hevents, Tables.Keyed, List.pairwise_append] at hpair
    refine (Tables.find_eq_none).mpr fun x hx hk => ?_
    exact hpair.2.2 x hx e (by simp) _ hk (by simp [EventRow.keys])
  obtain ⟨hmoves₀, hreplays₀⟩ := h.unknown e.id hnew
  refine ⟨fun x hx => ?_, fun x hx => ?_, fun id hid => h.unknown id ?_, ?_⟩
  · rw [hevents] at hx
    rcases List.mem_append.mp hx with hx | hx
    · exact h.moves x hx
    · obtain rfl := List.mem_singleton.mp hx
      rw [hmoves₀, hreplays, hdlq]
  · rw [hevents] at hx
    rcases List.mem_append.mp hx with hx | hx
    · exact h.replays x hx
    · obtain rfl := List.mem_singleton.mp hx
      rw [hreplays₀, hreplays]
  · rw [Store.eventAt?, Tables.find_eq_none] at hid ⊢
    exact fun x hx => hid x (by simp [hevents, hx])
  · rw [h.total, hevents]
    simp [hdlq]

omit [Platform] in
/-- Which event is found at an `id` after one has been rewritten. -/
theorem Store.eventAt?_putEvent (hs : s.Keyed) (he : e ∈ s.events) (hkeys : e.keys = e'.keys) (id : ℕ) :
    (s.putEvent e').eventAt? id = if id = e.id then some e' else s.eventAt? id := by
  have hid : e'.id = e.id := by
    simp only [EventRow.keys, List.cons.injEq, Key.eventPk.injEq] at hkeys
    exact hkeys.2.1.symm
  have hfind := Tables.find_replace hs.events he hkeys (.eventPk id)
  simpa [Store.putEvent, Store.eventAt?, EventRow.keys, hid] using hfind

omit [Platform] in
/-- An event that is rewritten is found under the ids it was found under. -/
theorem eventAt?_putEvent_eq_none (hs : s.Keyed) (he : e ∈ s.events) (hkeys : e.keys = e'.keys)
    {id : ℕ} (h : (s.putEvent e').eventAt? id = none) : s.eventAt? id = none ∧ id ≠ e.id := by
  rw [Store.eventAt?_putEvent hs he hkeys] at h
  split at h
  · cases h
  next hid => exact ⟨h, hid⟩

/-- What a log adds to the moves. -/
theorem dlqMoves_append (journal : List (ℕ × Log)) (i : ℕ) {m : ℕ}
    (hm : (buried? log = none ∧ m = 0) ∨ (buried? log = some e.id ∧ m = 1)) :
    (∀ id, dlqMoves id (journal ++ [(i, log)]) = dlqMoves id journal + if id = e.id then m else 0) ∧
      totalMoves (journal ++ [(i, log)]) = totalMoves journal + m := by
  rcases hm with ⟨hb, rfl⟩ | ⟨hb, rfl⟩
  · simp [dlqMoves, totalMoves, hb]
  · simp [dlqMoves, totalMoves, hb, eq_comm]

/-- What a log adds to the replays. -/
theorem replaysOf_append (journal : List (ℕ × Log)) (i : ℕ) {r : ℕ}
    (hr : (branch? log = none ∧ r = 0) ∨ (branch? log = some (e.id, .replayed) ∧ r = 1)) :
    (∀ id, replaysOf id (journal ++ [(i, log)]) = replaysOf id journal + if id = e.id then r else 0) ∧
      totalReplays (journal ++ [(i, log)]) = totalReplays journal + r := by
  rcases hr with ⟨hb, rfl⟩ | ⟨hb, rfl⟩
  · simp [replaysOf, totalReplays, hb]
  · simp [replaysOf, totalReplays, hb, eq_comm]

/-- **A log that rewrites an event keeps the accounts** if they count what it does. -/
theorem DlqAccounted.putEvent (h : DlqAccounted journal s) (hs : s.Keyed) (he : e ∈ s.events)
    (hkeys : e.keys = e'.keys) {m r : ℕ}
    (hm : (buried? log = none ∧ m = 0) ∨ (buried? log = some e.id ∧ m = 1))
    (hr : (branch? log = none ∧ r = 0) ∨ (branch? log = some (e.id, .replayed) ∧ r = 1))
    (hmoves : e.replayCount + e.inDlq + m = e'.replayCount + e'.inDlq)
    (hreplays : e.replayCount + r = e'.replayCount) :
    DlqAccounted (journal ++ [(i, log)]) (s.putEvent e') := by
  obtain ⟨hm₁, hm₂⟩ := dlqMoves_append journal i hm
  obtain ⟨hr₁, hr₂⟩ := replaysOf_append journal i hr
  have hid : e'.id = e.id := by
    simp only [EventRow.keys, List.cons.injEq, Key.eventPk.injEq] at hkeys
    exact hkeys.2.1.symm
  have hother : ∀ x ∈ s.events, x.eventId ≠ e.eventId → x.id ≠ e.id := by
    intro x hx hne heq
    exact hne (congrArg EventRow.eventId (hs.events.eq_of_mem hx he (k := .eventPk e.id)
      (by simp [EventRow.keys, heq]) (by simp [EventRow.keys])))
  refine ⟨?_, ?_, fun id hnone => ?_, ?_⟩
  · refine Store.forall_putEvent hs he hkeys ?_ fun x hx hne => ?_
    · rw [hm₁, hid, if_pos rfl, h.moves e he, hmoves]
    · rw [hm₁, if_neg (hother x hx hne), h.moves x hx, Nat.add_zero]
  · refine Store.forall_putEvent hs he hkeys ?_ fun x hx hne => ?_
    · rw [hr₁, hid, if_pos rfl, h.replays e he, hreplays]
    · rw [hr₁, if_neg (hother x hx hne), h.replays x hx, Nat.add_zero]
  · obtain ⟨hold, hne⟩ := eventAt?_putEvent_eq_none hs he hkeys hnone
    obtain ⟨hmoves₀, hreplays₀⟩ := h.unknown id hold
    rw [hm₁, hr₁, if_neg hne, if_neg hne, hmoves₀, hreplays₀]
    exact ⟨rfl, rfl⟩
  · have hsum := Store.sum_putEvent hs he hkeys EventRow.inDlq
    have htotal := h.total
    rw [hm₂, hr₂]
    omega

/-- **Every change keeps the accounts.** -/
theorem Change.dlqAccounted {cfg : WorkerConfig} {c : Call} {x : Option Answer} (hs : s.Keyed)
    (hs' : s'.Keyed) (h : DlqAccounted journal s) (hc : Change cfg c log x s s') :
    DlqAccounted (journal ++ [(i, log)]) s' := by
  have hquiet : ∀ {e e' : EventRow}, e ∈ s.events → s'.events = (s.putEvent e').events → e.keys = e'.keys →
      buried? log = none → branch? log = none → e'.replayCount = e.replayCount → e'.inDlq = e.inDlq →
      DlqAccounted (journal ++ [(i, log)]) s' := by
    intro e e' he hevents hkeys hb hr hcount hdlq
    exact (h.putEvent hs he hkeys (.inl ⟨hb, rfl⟩) (.inl ⟨hr, rfl⟩) (by rw [hcount, hdlq, Nat.add_zero])
      hcount.symm).congr hevents
  cases hc with
  | @created _ req d _ _ occurredAt hnew htime hrow =>
    refine (h.insert hs' rfl rfl ?_).skip rfl (by simp [branch?])
    rcases req.event_status with ⟨hst, -⟩ | ⟨hst, -⟩ <;> simp [EventRow.inDlq, EventInsertParams.row, hst]
  | counted hold hfits hrow => exact hquiet (Store.mem_of_event? hold).1 rfl rfl rfl rfl rfl rfl
  | idle => exact h.skip rfl (by simp [branch?])
  | applied hev hclaim =>
    exact hquiet hev rfl rfl rfl rfl rfl (EventRow.inDlq_of_claimable hclaim).symm
  | ignored hev hclaim =>
    exact hquiet hev rfl rfl rfl rfl rfl (EventRow.inDlq_of_claimable hclaim).symm
  | retried hev hclaim heval =>
    exact hquiet hev rfl rfl rfl rfl rfl (EventRow.inDlq_of_claimable hclaim).symm
  | buried hev hclaim heval =>
    refine h.putEvent hs hev rfl (.inr ⟨rfl, rfl⟩) (.inl ⟨rfl, rfl⟩) ?_ rfl
    rw [EventRow.inDlq_of_claimable hclaim]
    rfl
  | unknown => exact h.skip rfl (by simp [branch?])
  | @replayed _ d d' w w' event hev hdlq =>
    refine h.putEvent hs hev rfl (.inl ⟨rfl, rfl⟩) (.inr ⟨rfl, rfl⟩) ?_ rfl
    simp [EventRow.inDlq, EventRow.replayed, hdlq]
  | notInDlq hev hdlq => exact h.skip rfl (by simp [branch?])
  | reconciled hrun hturns =>
    exact (h.skip rfl (by simp [branch?])).congr hturns.inbox_eq.1

/-! ## One entry of the queue -/

/-- The event is in the dead-letter queue. -/
def Store.InDlq (s : Store) (id : ℕ) : Prop :=
  ∃ e, s.eventAt? id = some e ∧ e.processingStatus = .dlq

omit [Platform] in
/-- An event that is known. -/
theorem Store.inDlq_of_mem (hs : s.Keyed) (he : e ∈ s.events) :
    s.InDlq e.id ↔ e.processingStatus = .dlq := by
  have hat := hs.eventAt?_eq he
  constructor
  · rintro ⟨e', he', hdlq⟩
    obtain rfl : e = e' := Option.some.inj (hat.symm.trans he')
    exact hdlq
  · exact fun hdlq => ⟨e, hat, hdlq⟩

omit [Platform] in
/-- Which events are in the queue after one has been rewritten. -/
theorem Store.inDlq_putEvent (hs : s.Keyed) (he : e ∈ s.events) (hkeys : e.keys = e'.keys) (id : ℕ) :
    (s.putEvent e').InDlq id ↔ if id = e.id then e'.processingStatus = .dlq else s.InDlq id := by
  unfold Store.InDlq
  rw [Store.eventAt?_putEvent hs he hkeys]
  by_cases h : id = e.id <;> simp [h]

omit [Platform] in
/-- Which events are in the queue after one has been inserted. -/
theorem Store.inDlq_insert (hs : s.Keyed) (hs' : s'.Keyed) (hevents : s'.events = s.events ++ [e])
    (hdlq : e.inDlq = 0) (id : ℕ) : s'.InDlq id ↔ s.InDlq id := by
  have hst : e.processingStatus ≠ .dlq := fun h => by simp [EventRow.inDlq, h] at hdlq
  constructor
  · rintro ⟨x, hx, hdlq⟩
    obtain ⟨hmem, rfl⟩ := Store.mem_of_eventAt? hx
    rw [hevents] at hmem
    rcases List.mem_append.mp hmem with hmem | hmem
    · exact ⟨x, hs.eventAt?_eq hmem, hdlq⟩
    · exact absurd (List.mem_singleton.mp hmem ▸ hdlq) hst
  · rintro ⟨x, hx, hdlq⟩
    obtain ⟨hmem, rfl⟩ := Store.mem_of_eventAt? hx
    exact ⟨x, hs'.eventAt?_eq (by simp [hevents, hmem]), hdlq⟩

/-- A log that moves an event to the queue is not one of a replay. -/
theorem branch?_of_buried? {id : ℕ} (h : buried? log = some id) : branch? log = none := by
  unfold buried? at h
  split at h
  · unfold branch?
    split <;> simp_all
  · cases h

/-- What a log does to one entry of the queue. -/
inductive EntryMove (id : ℕ) (log : Log) (s s' : Store) : Prop where
  | buried (hb : buried? log = some id) (hnew : s'.InDlq id)
  | replayed (hbranch : branch? log = some (id, .replayed)) (hold : s.InDlq id) (hnew : ¬ s'.InDlq id)
  | notInDlq (hbranch : branch? log = some (id, .notInDlq)) (hold : ¬ s.InDlq id) (hnew : ¬ s'.InDlq id)
  | other (hb : buried? log ≠ some id) (hbranch : ∀ branch, branch? log ≠ some (id, branch))
      (hsame : s'.InDlq id ↔ s.InDlq id)

/-- **What a change does to one entry of the queue.** -/
theorem Change.entryMove {cfg : WorkerConfig} {c : Call} {x : Option Answer} (hs : s.Keyed)
    (hs' : s'.Keyed) (hc : Change cfg c log x s s') (id : ℕ) : EntryMove id log s s' := by
  have hquiet : ∀ {e e' : EventRow}, e ∈ s.events → s'.events = (s.putEvent e').events →
      e.keys = e'.keys → buried? log = none → branch? log = none →
      (e'.processingStatus = .dlq ↔ e.processingStatus = .dlq) → EntryMove id log s s' := by
    intro e e' he hevents hkeys hb hr hdlq
    have hsame : s'.InDlq id ↔ (s.putEvent e').InDlq id := by
      rw [Store.InDlq, Store.InDlq, Store.eventAt?, Store.eventAt?, hevents]
    refine .other (by simp [hb]) (by simp [hr]) ?_
    rw [hsame, Store.inDlq_putEvent hs he hkeys]
    split
    next hid => rw [hid, Store.inDlq_of_mem hs he, hdlq]
    next => rfl
  have hclaimed : ∀ {e : EventRow} {now : Timestamp} {st : ProcessingStatus}, e.claimable now = true →
      st ≠ .dlq → (st = .dlq ↔ e.processingStatus = .dlq) := by
    intro e now st hclaim hst
    have hne : e.processingStatus ≠ .dlq := fun h => by
      simpa [EventRow.inDlq, h] using EventRow.inDlq_of_claimable hclaim
    exact ⟨fun h => absurd h hst, fun h => absurd h hne⟩
  cases hc with
  | @created _ req d _ _ occurredAt hnew htime hrow =>
    refine .other (by simp [buried?]) (by simp [branch?]) (Store.inDlq_insert hs hs' rfl ?_ id)
    rcases req.event_status with ⟨hst, -⟩ | ⟨hst, -⟩ <;> simp [EventRow.inDlq, EventInsertParams.row, hst]
  | counted hold hfits hrow => exact hquiet (Store.mem_of_event? hold).1 rfl rfl rfl rfl .rfl
  | idle => exact .other (by simp [buried?]) (by simp [branch?]) .rfl
  | applied hev hclaim => exact hquiet hev rfl rfl rfl rfl (hclaimed hclaim (by simp [EventRow.applied]))
  | ignored hev hclaim => exact hquiet hev rfl rfl rfl rfl (hclaimed hclaim (by simp [EventRow.ignored]))
  | retried hev hclaim heval =>
    exact hquiet hev rfl rfl rfl rfl (hclaimed hclaim (by simp [EventRow.retryScheduled]))
  | @buried _ _ _ d' _ _ event error n hev hclaim heval =>
    have hkeys : event.keys =
        (event.dlq n (sanitizeError (Platform.errorMessage error)) d').keys := rfl
    have hput := Store.inDlq_putEvent hs hev hkeys id
    by_cases hid : id = event.id
    · rw [if_pos hid] at hput
      exact .buried (by rw [hid]; rfl) (hput.mpr rfl)
    · rw [if_neg hid] at hput
      exact .other (by simpa [buried?, eq_comm] using hid) (by simp [branch?]) hput
  | unknown => exact .other (by simp [buried?]) (by simp [branch?]) .rfl
  | @replayed _ d d' _ _ event hev hdlq =>
    have hkeys : event.keys = event.replayed.keys := rfl
    have hput := Store.inDlq_putEvent hs hev hkeys id
    by_cases hid : id = event.id
    · rw [if_pos hid] at hput
      refine .replayed (by rw [hid]; rfl) (hid ▸ (Store.inDlq_of_mem hs hev).mpr hdlq) fun hnew => ?_
      cases hput.mp hnew
    · rw [if_neg hid] at hput
      exact .other (by simp [buried?]) (by simpa [branch?, eq_comm] using hid) hput
  | @notInDlq _ _ _ event hev hdlq =>
    by_cases hid : id = event.id
    · have hno : ¬ s.InDlq id := fun h => hdlq ((Store.inDlq_of_mem hs hev).mp (hid ▸ h))
      exact .notInDlq (by rw [hid]; rfl) hno hno
    · exact .other (by simp [buried?]) (by simpa [branch?, eq_comm] using hid) .rfl
  | reconciled hrun hturns =>
    refine .other (by simp [buried?]) (by simp [branch?]) ?_
    rw [Store.InDlq, Store.InDlq, Store.eventAt?, Store.eventAt?]
    exact iff_of_eq (by simp only [hturns.inbox_eq.1])

theorem branchesOf_append_of_eq {id : ℕ} {branch : ReplayBranch} (h : branch? log = some (id, branch)) :
    branchesOf id (journal ++ [(i, log)]) = branchesOf id journal ++ [branch] := by
  simp [branchesOf, h, Option.filter]

theorem branchesOf_append_of_ne {id : ℕ} (h : ∀ branch, branch? log ≠ some (id, branch)) :
    branchesOf id (journal ++ [(i, log)]) = branchesOf id journal := by
  have hnone : (branch? log).filter (fun b => decide (b.1 = id)) = none := by
    cases hb : branch? log with
    | none => rfl
    | some b =>
      obtain ⟨id', branch⟩ := b
      have hne : id' ≠ id := fun heq => h branch (heq ▸ hb)
      simp [Option.filter, hne]
  simp [branchesOf, hnone]

/-- **The race for one entry**: after the event has been moved to the queue no replay has found it, or
the first one that did has taken it and the others have come too late. -/
def Raced (id : ℕ) (since : List (ℕ × Log)) (s : Store) : Prop :=
  (branchesOf id since = [] ∧ s.InDlq id) ∨
    (∃ n, branchesOf id since = .replayed :: List.replicate n .notInDlq) ∧ ¬ s.InDlq id

/-- A change keeps the race for an entry, unless it moves the event to the queue again. -/
theorem Raced.step {id : ℕ} {since : List (ℕ × Log)} (h : Raced id since s)
    (hmove : EntryMove id log s s') (hb : buried? log ≠ some id) : Raced id (since ++ [(i, log)]) s' := by
  cases hmove with
  | buried hb' => exact absurd hb' hb
  | replayed hbranch hold hnew =>
    rw [Raced, branchesOf_append_of_eq hbranch]
    rcases h with ⟨hnone, -⟩ | ⟨-, hout⟩
    · exact .inr ⟨⟨0, by simp [hnone]⟩, hnew⟩
    · exact absurd hold hout
  | notInDlq hbranch hold hnew =>
    rw [Raced, branchesOf_append_of_eq hbranch]
    rcases h with ⟨-, hin⟩ | ⟨⟨n, hn⟩, -⟩
    · exact absurd hin hold
    · refine .inr ⟨⟨n + 1, ?_⟩, hnew⟩
      rw [hn, List.cons_append, ← List.replicate_succ']
  | other _ hbranch hsame =>
    rw [Raced, branchesOf_append_of_ne hbranch, hsame]
    exact h

/-- **The race for every entry of the queue.** -/
theorem Reach.raced {cfg : WorkerConfig} {w : State} (h : Reach cfg .empty w) {id : ℕ}
    {earlier since : List (ℕ × Log)} (hjournal : w.journal = earlier ++ (i, log) :: since)
    (hb : buried? log = some id) (hsince : ∀ c ∈ since, buried? c.2 ≠ some id) :
    Raced id since w.db := by
  refine h.keyed_changes_induction (P := fun journal s => ∀ earlier i log since,
    journal = earlier ++ (i, log) :: since → buried? log = some id →
    (∀ c ∈ since, buried? c.2 ≠ some id) → Raced id since s) Store.keyed_empty (by simp) ?_
    earlier i log since hjournal hb hsince
  intro journal s s' j c log' x hcall hs hs' ih hc earlier i log since hjournal hb hsince
  have hmove := hc.entryMove hs hs' id
  rcases List.eq_nil_or_concat since with rfl | ⟨since, last, rfl⟩
  · -- the last log is the one that has moved the event to the queue
    obtain ⟨-, heq⟩ := List.append_inj' hjournal rfl
    obtain ⟨rfl, rfl⟩ : j = i ∧ log' = log := by simpa using heq
    refine .inl ⟨rfl, ?_⟩
    cases hmove with
    | buried _ hnew => exact hnew
    | replayed hbranch => simp [branch?_of_buried? hb] at hbranch
    | notInDlq hbranch => simp [branch?_of_buried? hb] at hbranch
    | other hb' => exact absurd hb hb'
  · rw [List.concat_eq_append] at hjournal hsince ⊢
    rw [← List.cons_append, ← List.append_assoc] at hjournal
    obtain ⟨hold, hlast⟩ := List.append_inj' hjournal rfl
    obtain rfl : (j, log') = last := by simpa using hlast
    exact (ih earlier i log since hold hb fun c hc => hsince c (by simp [hc])).step hmove
      (hsince (j, log') (by simp))

/-- What the journal has begun with was the journal of a reachable state. -/
theorem Reach.of_prefix {cfg : WorkerConfig} {db₀ : Store} {w : State} (h₀ : db₀.Keyed)
    (h : Reach cfg db₀ w) {journal : List (ℕ × Log)} (hinit : journal <+: w.journal) :
    ∃ w', Reach cfg db₀ w' ∧ w'.journal = journal := by
  obtain ⟨env₀, hrun⟩ := h
  induction hrun with
  | refl => exact ⟨_, ⟨env₀, .refl⟩, (List.prefix_nil.mp hinit).symm⟩
  | @step w w' hrun hstep ih =>
    have hreach : Reach cfg db₀ w := ⟨env₀, hrun⟩
    rcases hreach.step_commits h₀ hstep with ⟨-, hjournal⟩ | ⟨i, s, log, x, -, -, -, -, hjournal⟩
    · exact ih (hjournal ▸ hinit)
    · rw [hjournal, List.prefix_concat_iff] at hinit
      rcases hinit with rfl | hinit
      · exact ⟨w', ⟨env₀, hrun.step hstep⟩, hjournal⟩
      · exact ih hinit

/-- **The accounts of every reachable state are in order.** -/
theorem Reach.dlqAccounted {cfg : WorkerConfig} {w : State} (h : Reach cfg .empty w) :
    DlqAccounted w.journal w.db := by
  refine h.keyed_changes_induction (P := DlqAccounted) Store.keyed_empty ?_
    fun _ _ _ _ _ _ _ _ hs hs' hP hc => hc.dlqAccounted hs hs' hP
  exact ⟨by simp [Store.empty], by simp [Store.empty], fun _ _ => ⟨rfl, rfl⟩, rfl⟩

omit [Platform] in
/-- The size of the queue is the number of the events in it. -/
theorem sum_inDlq (s : Store) :
    (s.events.map EventRow.inDlq).sum = (MetricsRepository.getMetrics.on s).webhookDlqSize := by
  show _ = s.events.countP fun e => e.processingStatus = .dlq
  induction s.events with
  | nil => rfl
  | cons e events ih =>
    rw [List.map_cons, List.sum_cons, List.countP_cons, ih, EventRow.inDlq]
    simp only [decide_eq_true_eq]
    omega

/-! ## What the calls answer -/

/-- The answer of a replay names the branch of its log. -/
theorem ReplayLog.branch?_eq {id : ℕ} {x : Option ReplayResult} (h : ReplayLog id log (some x)) :
    branch? log = x.map fun r => (id, r.branch) := by
  generalize hy : some x = y at h
  cases h with
  | missing =>
    obtain rfl := Option.some.inj hy
    rfl
  | @replayed d d' w w' event updated hdlq =>
    cases updated with
    | none => cases hy
    | some e =>
      obtain rfl := Option.some.inj hy
      rfl
  | notInDlq hdlq =>
    obtain rfl := Option.some.inj hy
    rfl

/-- A log in which a replay has found its event is one of a replay of this event. -/
theorem Change.of_branch? {cfg : WorkerConfig} {c : Call} {x : Option Answer} {id : ℕ}
    {branch : ReplayBranch} (hc : Change cfg c log x s s') (hbranch : branch? log = some (id, branch)) :
    c = .replay id := by
  cases hc with
  | @replayed _ d d' w w' event hev hdlq =>
    obtain ⟨rfl, -⟩ : event.id = id ∧ ReplayBranch.replayed = branch := by simpa [branch?] using hbranch
    rfl
  | @notInDlq _ d w event hev hdlq =>
    obtain ⟨rfl, -⟩ : event.id = id ∧ ReplayBranch.notInDlq = branch := by simpa [branch?] using hbranch
    rfl
  | _ => simp [branch?] at hbranch

variable {cfg : WorkerConfig} {w : State}

/-- Every log that counts as a replay is what a replay of the event has committed. -/
theorem Reach.replayed_by (h : Reach cfg .empty w) {id : ℕ} {branch : ReplayBranch}
    (hmem : (i, log) ∈ w.journal) (hbranch : branch? log = some (id, branch)) :
    Called w i (.replay id) ∧ w.commitsOf i = [log] := by
  have hcall : Called w i (.replay id) := by
    refine h.changes_induction (P := fun journal _ => ∀ i log, (i, log) ∈ journal →
      branch? log = some (id, branch) → Called w i (.replay id)) Store.keyed_empty (by simp) ?_ i log hmem
      hbranch
    intro journal s s' j c log' x hcall hs hP hc i log hmem hbranch
    rcases List.mem_append.mp hmem with hmem | hmem
    · exact hP i log hmem hbranch
    · obtain ⟨rfl, rfl⟩ := Prod.mk.inj (List.mem_singleton.mp hmem)
      exact hc.of_branch? hbranch ▸ hcall
  refine ⟨hcall, ?_⟩
  obtain ⟨s, hs, -⟩ := hcall
  have hlog : log ∈ w.commitsOf i :=
    List.mem_map.mpr ⟨(i, log), List.mem_filter.mpr ⟨hmem, by simp⟩, rfl⟩
  rcases h.settled Store.keyed_empty hs with hnil | ⟨log', x, hone, -⟩
  · rw [hnil] at hlog
    cases hlog
  · rw [hone, List.mem_singleton] at hlog
    rw [hone, hlog]

/-- A replay that has answered has committed one log, which its answer is about. -/
theorem Reach.replay_answered (h : Reach cfg .empty w) {s : Session postgres Call Answer} {id : ℕ}
    {a : Answer} (hs : w.sessions i = some s) (hcall : s.call = .replay id) (hp : s.prog = .done a) :
    ∃ x log, a = .replayed x ∧ w.commitsOf i = [log] ∧ branch? log = x.map fun r => (id, r.branch) := by
  obtain ⟨log, hlog, hx⟩ := h.answered Store.keyed_empty hs hp
  rw [hcall] at hx
  generalize hy : some a = y at hx
  cases hx with
  | @replay _ log x hreplay =>
    cases x with
    | none => cases hy
    | some x =>
      obtain rfl := Option.some.inj hy
      exact ⟨x, log, rfl, hlog, hreplay.branch?_eq⟩

/-- **The races for an entry of the queue**: of the replays that have found an event between two of its
moves to the queue, the first to commit has taken it and the others have come too late. -/
theorem Reach.races (h : Reach cfg .empty w) {id : ℕ} {earlier since later : List (ℕ × Log)}
    (hjournal : w.journal = earlier ++ (i, log) :: since ++ later) (hb : buried? log = some id)
    (hsince : ∀ c ∈ since, buried? c.2 ≠ some id) :
    branchesOf id since = [] ∨ ∃ n, branchesOf id since = .replayed :: List.replicate n .notInDlq := by
  obtain ⟨w', h', hjournal'⟩ := h.of_prefix Store.keyed_empty ⟨later, hjournal.symm⟩
  exact (h'.raced hjournal' hb hsince).imp And.left And.left

/-! ## What a replay leaves alone -/

/-- **A replay of the event `id`** rewrites at most this event, which keeps its delivery count, and
nothing else. -/
structure ReplayFrame (id : ℕ) (s s' : Store) : Prop where
  orders : s'.orders = s.orders
  history : s'.history = s.history
  deliveries : s'.deliveries = s.deliveries
  runs : s'.runs = s.runs
  details : s'.details = s.details
  events : s'.events = s.events ∨ ∃ e ∈ s.events, e.id = id ∧ e.processingStatus = .dlq ∧
    s'.events = (s.putEvent e.replayed).events
  others : ∀ id', id' ≠ id → s'.eventAt? id' = s.eventAt? id'
  deliveryCount : (s'.eventAt? id).map EventRow.deliveryCount = (s.eventAt? id).map EventRow.deliveryCount

/-- A replay is a `ReplayFrame`. -/
theorem Change.replayFrame {x : Option Answer} {id : ℕ} (hs : s.Keyed)
    (hc : Change cfg (.replay id) log x s s') : ReplayFrame id s s' := by
  cases hc with
  | unknown => exact ⟨rfl, rfl, rfl, rfl, rfl, .inl rfl, fun _ _ => rfl, rfl⟩
  | notInDlq hev hdlq => exact ⟨rfl, rfl, rfl, rfl, rfl, .inl rfl, fun _ _ => rfl, rfl⟩
  | @replayed _ d d' w w' event hev hdlq =>
    have hkeys : event.keys = event.replayed.keys := rfl
    refine ⟨rfl, rfl, rfl, rfl, rfl, .inr ⟨event, hev, rfl, hdlq, rfl⟩, fun id' hne => ?_, ?_⟩
    · rw [Store.eventAt?_putEvent hs hev hkeys, if_neg hne]
    · rw [Store.eventAt?_putEvent hs hev hkeys, if_pos rfl, hs.eventAt?_eq hev]
      rfl

/-- **Replay and DLQ accounting.**  In every reachable state: each event has been moved to the dead-letter
queue as often as it has been replayed, and once more if it is there; it has been replayed as often as
replays have taken the branch `REPLAYED`, each being what one call of `replay` has committed, and a call
answers with the branch of its log.  Between two moves of an event to the queue, of the replays that find
it the first takes it and the others answer `NOT_IN_DLQ`.  The size of the queue is the number of moves
less the number of replays.  A commit of a replay changes nothing but its event. -/
theorem replay_accounting (h : Reach cfg .empty w) :
    (∀ e ∈ w.db.events, dlqMoves e.id w.journal = e.replayCount + (if e.processingStatus = .dlq then 1 else 0) ∧
      replaysOf e.id w.journal = e.replayCount) ∧
    (∀ i log id branch, (i, log) ∈ w.journal → branch? log = some (id, branch) →
      Called w i (.replay id) ∧ w.commitsOf i = [log]) ∧
    (∀ i s id a, w.sessions i = some s → s.call = .replay id → s.prog = .done a →
      ∃ x log, a = .replayed x ∧ w.commitsOf i = [log] ∧ branch? log = x.map fun r => (id, r.branch)) ∧
    (∀ id earlier i log since later, w.journal = earlier ++ (i, log) :: since ++ later →
      buried? log = some id → (∀ c ∈ since, buried? c.2 ≠ some id) →
      branchesOf id since = [] ∨ ∃ n, branchesOf id since = .replayed :: List.replicate n .notInDlq) ∧
    (MetricsRepository.getMetrics.on w.db).webhookDlqSize + totalReplays w.journal = totalMoves w.journal ∧
    ∀ w' i id log, Step (program cfg) w w' → Called w' i (.replay id) →
      w'.journal = w.journal ++ [(i, log)] → ReplayFrame id w.db w'.db := by
  have hacc := h.dlqAccounted
  refine ⟨fun e he => ⟨hacc.moves e he, hacc.replays e he⟩, fun i log id branch hmem hbranch =>
    h.replayed_by hmem hbranch, fun i s id a hs hcall hp => h.replay_answered hs hcall hp,
    fun id earlier i log since later hjournal hb hsince => h.races hjournal hb hsince, ?_, ?_⟩
  · rw [hacc.total, sum_inDlq, Nat.add_comm]
  · intro w' i id log hstep hcalled hjournal
    rcases h.step_change Store.keyed_empty hstep with ⟨-, hsame⟩ | ⟨j, s, t, x, hs, ht, hc, hjournal'⟩
    · rw [hsame] at hjournal
      simp at hjournal
    · obtain ⟨rfl, rfl⟩ : i = j ∧ log = t.log := by simpa using hjournal.symm.trans hjournal'
      have hcall : s.call = .replay id := by
        obtain ⟨s', hs', hcall'⟩ := hcalled
        obtain ⟨s'', hs'', hcall''⟩ := hstep.call_eq hs
        obtain rfl := Option.some.inj (hs'.symm.trans hs'')
        rw [← hcall'', hcall']
      rw [hcall] at hc
      exact hc.replayFrame (h.coherent Store.keyed_empty).inv

end Journal

/-! ## A sample -/

/-- A configuration with two attempts. -/
def WorkerConfig.twice : WorkerConfig where
  maxAttempts := 2
  retryBaseMs := 500
  retryMaxMs := 30000
  one_le_maxAttempts := by decide
  one_le_retryBaseMs := WorkerConfig.default.one_le_retryBaseMs
  retryBaseMs_le_retryMaxMs := WorkerConfig.default.retryBaseMs_le_retryMaxMs

theorem evaluate_twice_zero : RetryPolicy.evaluate .twice 0 sampleTime 0 = .retry 1 0 sampleTime := by
  simp [RetryPolicy.evaluate, WorkerConfig.twice]
theorem evaluate_twice_one : RetryPolicy.evaluate .twice 1 sampleTime 0 = .dlq 2 := by
  simp [RetryPolicy.evaluate, WorkerConfig.twice]
/-- The message of the failures of the sample. -/
def sampleMessage : String := "value out of range"

theorem sampleMessage_sanitized : sanitizeError sampleMessage = sampleMessage := by decide

/-- **The way of an event that fails twice and is replayed**: it waits, is put off, is moved to the
dead-letter queue, and waits again. -/
structure FailsTwice [Platform] where
  waiting : State
  dead : State
  revived : State
  e : EventRow
  e₁ : EventRow
  e₂ : EventRow
  i₁ : ℕ
  i₂ : ℕ
  i₃ : ℕ
  log₁ : Log
  log₂ : Log
  log₃ : Log
  waiting_rest : Resting .twice waiting
  dead_rest : Resting .twice dead
  revived_rest : Resting .twice revived
  run : Along Forward (program .twice) waiting dead
  events : waiting.db.events = [e]
  pending : e.processingStatus = .pending
  attempts : e.attemptCount = 0
  replays : e.replayCount = 0
  first : e₁ = e.retryScheduled 1 sampleTime sampleMessage
  second : ∃ d, e₂ = e₁.dlq 2 sampleMessage d
  log₁_eq : ∃ d d' ws, log₁ = [⟨.claim, d, some e, []⟩,
    ⟨.markRetryScheduled e.id 1 sampleTime sampleMessage, d', true, ws⟩]
  log₂_eq : ∃ d d' ws, log₂ = [⟨.claim, d, some e₁, []⟩,
    ⟨.markDlq e₁.id 2 sampleMessage, d', true, ws⟩]
  log₃_eq : ∃ d d' ws, log₃ = [⟨.selectEvent e₂.id, d, some e₂, []⟩,
    ⟨.replayEvent e₂.id, d', some e₂.replayed, ws⟩]
  dead_events : dead.db.events = [e₂]
  dead_journal : dead.journal = waiting.journal ++ [(i₁, log₁), (i₂, log₂)]
  first_called : Called dead i₁ (.processOne ⟨sampleTime, 0⟩)
  second_called : Called dead i₂ (.processOne ⟨sampleTime, 0⟩)
  revived_events : revived.db.events = [e₂.replayed]
  revived_journal : revived.journal = dead.journal ++ [(i₃, log₃)]

/-- An event fails twice and is replayed. -/
theorem exists_failsTwice : letI := samplePlatform
    Nonempty FailsTwice := by
  let _ := samplePlatform
  have hstart := Resting.start .twice ⟨sampleTime, 0, 0, 0, 0, 0⟩
  have hmessage : sanitizeError (Platform.errorMessage .invalidValue) = sampleMessage :=
    sampleMessage_sanitized
  -- the event is ingested
  obtain ⟨w₀, e, r, hcont, hawaits, hdb₀, i₀, d₀, row₀, ws₀, -, -, -, -, hjournal₀⟩ :=
    hstart.ingest authorizedBody_storable authorizedBody_recent rfl
  have hevents₀ : w₀.db.events = [e] := by rw [hdb₀]; rfl
  have hclock₀ : w₀.env.clock = sampleTime := hcont.clock
  have hfits := hawaits.fits
  have hpending := hawaits.pending
  have hattempts : e.attemptCount = 0 := by
    have hconsistent := hcont.rest.reach.consistent e (by simp [hevents₀])
    simp only [EventRow.Consistent, hpending] at hconsistent
    exact hconsistent.1
  have hreplays : e.replayCount = 0 := by
    have hreplays := hcont.rest.reach.dlqAccounted.replays e (by simp [hevents₀])
    rw [← hreplays, hjournal₀]
    simp [replaysOf, branch?, World.start]
  -- the first failure
  obtain ⟨w₁, i₁, t₁, hcont₁, -, hbegun₁, -, hdb₁, hjournal₁, -⟩ :=
    hcont.rest.begin (.processOne ⟨sampleTime, 0⟩)
  have hclaim : e.claimable w₁.env.clock = true := by simp [EventRow.claimable, hpending]
  have heval₁ : RetryPolicy.evaluate .twice e.attemptCount sampleTime 0 = .retry 1 0 sampleTime := by
    rw [hattempts]
    exact evaluate_twice_zero
  obtain ⟨w₂, d₁, d₁', ws₁, ⟨hserved₁, -⟩, hdb₂, hjournal₂⟩ := hcont₁.rest.retry hbegun₁
    (by rw [hdb₁, hevents₀]; simp) hclaim (by rw [hdb₁, hevents₀]; simp) .invalidValue heval₁
    (by rw [hmessage]; exact EventRow.retryScheduled_fits hfits (by decide) (by decide))
  rw [hdb₁, hmessage] at hdb₂
  rw [hjournal₁, hmessage] at hjournal₂
  set e₁ := e.retryScheduled 1 sampleTime sampleMessage with he₁
  have hevents₂ : w₂.db.events = [e₁] := by
    rw [hdb₂]
    exact Store.events_putEvent_singleton hevents₀ rfl
  have hclock₂ : w₂.env.clock = sampleTime := hserved₁.clock.trans (hcont₁.clock.trans hclock₀)
  -- the second failure
  obtain ⟨w₃, i₂, t₂, hcont₂, -, hbegun₂, -, hdb₃, hjournal₃, -⟩ :=
    hserved₁.rest.begin (.processOne ⟨sampleTime, 0⟩)
  have hclock₃ : w₃.env.clock = sampleTime := hcont₂.clock.trans hclock₂
  have hclaim₁ : e₁.claimable w₃.env.clock = true := by
    simp [EventRow.claimable, he₁, EventRow.retryScheduled, hclock₃]
  have hfits₁ : e₁.fits = true := EventRow.retryScheduled_fits hfits (by decide) (by decide)
  obtain ⟨w₄, d₂, d₂', ws₂, ⟨hserved₂, -⟩, -, hdb₄, hjournal₄⟩ := hcont₂.rest.bury hbegun₂
    (by rw [hdb₃, hevents₂]; simp) hclaim₁ (by rw [hdb₃, hevents₂]; simp) .invalidValue
    evaluate_twice_one (fun d => by rw [hmessage]; exact EventRow.dlq_fits hfits₁ (by decide) (by decide))
  rw [hdb₃, hmessage] at hdb₄
  rw [hjournal₃, hjournal₂, hmessage] at hjournal₄
  set e₂ := e₁.dlq 2 sampleMessage d₂' with he₂
  have hevents₄ : w₄.db.events = [e₂] := by
    rw [hdb₄]
    exact Store.events_putEvent_singleton hevents₂ rfl
  -- the replay
  obtain ⟨w₅, i₃, t₃, hcont₃, -, hbegun₃, -, hdb₅, hjournal₅, -⟩ := hserved₂.rest.begin (.replay e₂.id)
  have hfits₂ : e₂.fits = true := EventRow.dlq_fits hfits₁ (by decide) (by decide)
  have hreplays₂ : e₂.replayCount = 0 := hreplays
  obtain ⟨w₆, d₃, d₃', ws₃, ⟨hserved₃, -⟩, hdb₆, hjournal₆⟩ := hcont₃.rest.revive hbegun₃
    (by rw [hdb₅, hevents₄]; simp) rfl (EventRow.replayed_fits hfits₂ (by rw [hreplays₂]; decide))
  rw [hdb₅] at hdb₆
  rw [hjournal₅] at hjournal₆
  have hsecond : w₄.journal = w₀.journal ++
      [(i₁, [⟨.claim, d₁, some e, []⟩,
        ⟨.markRetryScheduled e.id 1 sampleTime sampleMessage, d₁', true, ws₁⟩]),
      (i₂, [⟨.claim, d₂, some e₁, []⟩, ⟨.markDlq e₁.id 2 sampleMessage, d₂', true, ws₂⟩])] := by
    rw [hjournal₄, List.append_assoc, List.singleton_append]
  exact ⟨{
    waiting := w₀
    dead := w₄
    revived := w₆
    e := e
    e₁ := e₁
    e₂ := e₂
    i₁ := i₁
    i₂ := i₂
    i₃ := i₃
    log₁ := _
    log₂ := _
    log₃ := _
    waiting_rest := hcont.rest
    dead_rest := hserved₂.rest
    revived_rest := hserved₃.rest
    run := (hcont₁.run.trans hserved₁.run).trans (hcont₂.run.trans hserved₂.run)
    events := hevents₀
    pending := hpending
    attempts := hattempts
    replays := hreplays
    first := he₁
    second := ⟨d₂', he₂⟩
    log₁_eq := ⟨d₁, d₁', ws₁, rfl⟩
    log₂_eq := ⟨d₂, d₂', ws₂, rfl⟩
    log₃_eq := ⟨d₃, d₃', ws₃, rfl⟩
    dead_events := hevents₄
    dead_journal := hsecond
    first_called := hbegun₁.called.run (hserved₁.run.trans (hcont₂.run.trans hserved₂.run)).reachable
    second_called := hbegun₂.called.run hserved₂.run.reachable
    revived_events := by
      rw [hdb₆]
      exact Store.events_putEvent_singleton hevents₄ rfl
    revived_journal := hjournal₆ }⟩

/-- In the sample, the event that has been replayed had been moved to the queue once. -/
theorem replay_accounting_sample : letI := samplePlatform
    ∃ (w : State) (e : EventRow), Reach .twice .empty w ∧ w.db.events = [e] ∧
      e.processingStatus = .pending ∧ replaysOf e.id w.journal = 1 ∧ dlqMoves e.id w.journal = 1 ∧
      (MetricsRepository.getMetrics.on w.db).webhookDlqSize + totalReplays w.journal =
        totalMoves w.journal := by
  let _ := samplePlatform
  obtain ⟨f⟩ := exists_failsTwice
  have hreach := f.revived_rest.reach
  obtain ⟨hcounts, -, -, -, hsize, -⟩ := replay_accounting hreach
  obtain ⟨hmoves, hreplays⟩ := hcounts f.e₂.replayed (by simp [f.revived_events])
  have hcount : f.e₂.replayed.replayCount = 1 := by
    obtain ⟨d, hsecond⟩ := f.second
    rw [hsecond, f.first]
    exact congrArg (· + 1) f.replays
  refine ⟨f.revived, f.e₂.replayed, hreach, f.revived_events, rfl, ?_, ?_, hsize⟩
  · rw [hreplays, hcount]
  · rw [hmoves, hcount]
    rfl

end PaymentWebhook
