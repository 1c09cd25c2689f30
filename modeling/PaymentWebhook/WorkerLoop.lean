import Mathlib.Data.List.Basic
import Mathlib.Logic.Relation
import PaymentWebhook.Logging

set_option relaxedAutoImplicit false
set_option autoImplicit false

/-!
# The worker loop

`WorkerLoopService`, one job of the event loop at a time: `runLoop` starts a tick, whose promise is
followed by a `then` and a `catch`, and these start the next tick or a timer that does.  A shutdown can
be requested between any two jobs.

## Main definitions

* `PaymentWebhook.LoopState` — the fields of the service, the queue of jobs and the timers.
* `PaymentWebhook.LoopState.live` — the ticks whose outcome has not been handled.
* `PaymentWebhook.LoopStep` — what can happen next.

## Main results

* `PaymentWebhook.LoopState.Inv.step` — the invariant of the loop.
* `PaymentWebhook.worker_loop` — the loop neither dies nor forks, and a shutdown ends it.

## Implementation notes

A tick is in flight from the call of `tick` until the callback of `then` or `catch` runs.  A promise is
named by its tick: `activePromise` is the one that `catch` returns, which is fulfilled after that
callback.  Jobs run in the order in which they were queued, one for every reaction to a promise.  A timer
may fire between any two jobs here; in the event loop it waits until the queue is empty.
-/

namespace PaymentWebhook

/-! ## The service -/

/-- What becomes of a `processOne`: it is fulfilled, with its field `found`, or rejected. -/
inductive TickOutcome where
  | fulfilled (found : Bool)
  | rejected (err : Thrown)
  deriving DecidableEq, Repr

/-- A job of the event loop. -/
inductive Job where
  /-- `tick` goes on after `await processOne`. -/
  | resume (tick : ℕ) (outcome : TickOutcome)
  /-- The callback of `then`. -/
  | thenFulfilled (tick : ℕ) (found : Bool)
  /-- `then` passes a rejection on. -/
  | thenRejected (tick : ℕ) (err : Thrown)
  /-- `catch` passes a result on. -/
  | catchFulfilled (tick : ℕ)
  /-- The callback of `catch`. -/
  | catchRejected (tick : ℕ) (err : Thrown)
  /-- `onApplicationShutdown` goes on after `await this.activePromise`. -/
  | shutdownResume
  deriving DecidableEq, Repr

/-- Where `onApplicationShutdown` is. -/
inductive Shutdown where
  | notCalled
  | awaiting (tick : ℕ)
  | resuming
  | resolved
  deriving DecidableEq, Repr

structure LoopState where
  shutdownRequested : Bool
  activePromise : Option ℕ
  jobs : List Job
  /-- The delays of the timers that are armed. -/
  timers : List ℕ
  /-- The ticks whose `processOne` is in flight. -/
  processing : List ℕ
  /-- The ticks whose promise is fulfilled. -/
  fulfilled : List ℕ
  shutdown : Shutdown
  /-- The number of calls of `processOne`. -/
  started : ℕ
  /-- The errors that `worker.loop_error` lines are about. -/
  logged : List Thrown
  deriving DecidableEq, Repr

/-- The delays of `workerConfig`. -/
structure LoopDelays where
  pollIntervalMs : ℕ
  errorDelayMs : ℕ
  deriving DecidableEq, Repr

namespace LoopState

def enqueue (s : LoopState) (job : Job) : LoopState := { s with jobs := s.jobs ++ [job] }

def setTimeout (s : LoopState) (ms : ℕ) : LoopState := { s with timers := s.timers ++ [ms] }

/-- **`runLoop`**: the promise of the new tick is the active one. -/
def runLoop (s : LoopState) : LoopState :=
  if s.shutdownRequested then s
  else { s with
    activePromise := some s.started
    processing := s.processing ++ [s.started]
    started := s.started + 1 }

/-- The promise of a tick is fulfilled. -/
def fulfil (s : LoopState) (tick : ℕ) : LoopState :=
  let s := { s with fulfilled := tick :: s.fulfilled }
  if s.shutdown = .awaiting tick then { s with shutdown := .resuming }.enqueue .shutdownResume else s

/-- The callback of `then`. -/
def onFulfilled (s : LoopState) (delays : LoopDelays) (found : Bool) : LoopState :=
  let s := { s with activePromise := none }
  if s.shutdownRequested then s
  else if found then s.runLoop
  else s.setTimeout delays.pollIntervalMs

/-- The callback of `catch`. -/
def onRejected (s : LoopState) (delays : LoopDelays) (err : Thrown) : LoopState :=
  let s := { s with activePromise := none, logged := s.logged ++ [err] }
  if s.shutdownRequested then s
  else s.setTimeout delays.errorDelayMs

/-- **`onApplicationShutdown`**, up to its `await`. -/
def onApplicationShutdown (s : LoopState) : LoopState :=
  let s := { s with shutdownRequested := true }
  match s.activePromise with
  | none => { s with shutdown := .resolved }
  | some tick =>
    if tick ∈ s.fulfilled then { s with shutdown := .resuming }.enqueue .shutdownResume
    else { s with shutdown := .awaiting tick }

/-- The service before `onApplicationBootstrap`. -/
def initial : LoopState where
  shutdownRequested := false
  activePromise := none
  jobs := []
  timers := []
  processing := []
  fulfilled := []
  shutdown := .notCalled
  started := 0
  logged := []

/-- **`onApplicationBootstrap`**. -/
def onApplicationBootstrap : LoopState := initial.runLoop

end LoopState

/-- What a job does, once it has been taken from the queue. -/
def Job.run (delays : LoopDelays) (s : LoopState) : Job → LoopState
  | .resume tick (.fulfilled found) => s.enqueue (.thenFulfilled tick found)
  | .resume tick (.rejected err) => s.enqueue (.thenRejected tick err)
  | .thenFulfilled tick found => (s.onFulfilled delays found).enqueue (.catchFulfilled tick)
  | .thenRejected tick err => s.enqueue (.catchRejected tick err)
  | .catchFulfilled tick => s.fulfil tick
  | .catchRejected tick err => (s.onRejected delays err).fulfil tick
  | .shutdownResume => { s with shutdown := .resolved }

/-- **What can happen next**: a `processOne` is settled, the first job runs, a timer fires, or a
shutdown is requested. -/
inductive LoopStep (delays : LoopDelays) : LoopState → LoopState → Prop where
  | settle {s : LoopState} {tick : ℕ} (outcome : TickOutcome) (h : tick ∈ s.processing) :
      LoopStep delays s
        ({ s with processing := s.processing.erase tick }.enqueue (.resume tick outcome))
  | job {s : LoopState} {job : Job} {jobs : List Job} (h : s.jobs = job :: jobs) :
      LoopStep delays s (job.run delays { s with jobs := jobs })
  | timer {s : LoopState} {ms : ℕ} (h : ms ∈ s.timers) :
      LoopStep delays s { s with timers := s.timers.erase ms }.runLoop
  | shutdown {s : LoopState} (h : s.shutdown = .notCalled) :
      LoopStep delays s s.onApplicationShutdown

/-- A run of the loop. -/
abbrev LoopRun (delays : LoopDelays) : LoopState → LoopState → Prop :=
  Relation.ReflTransGen (LoopStep delays)

/-! ## The ticks in flight -/

/-- The tick whose outcome a job brings to its callback. -/
def Job.tick? : Job → Option ℕ
  | .resume tick _ => some tick
  | .thenFulfilled tick _ => some tick
  | .thenRejected tick _ => some tick
  | .catchRejected tick _ => some tick
  | .catchFulfilled _ => none
  | .shutdownResume => none

/-- The ticks in flight: `processOne` is, or its outcome has not reached a callback. -/
def LoopState.live (s : LoopState) : List ℕ := s.processing ++ s.jobs.filterMap Job.tick?

namespace LoopState

variable {s s' : LoopState} {tick : ℕ} {delays : LoopDelays} {job : Job}

/-- **The invariant of the loop**: a tick is in flight or a timer is armed, but not two of these, and
until a shutdown is requested the active promise is that of the tick in flight.  A shutdown awaits the
only tick that can be in flight, and goes on when none is. -/
structure Inv (s : LoopState) : Prop where
  one : s.live.length + s.timers.length ≤ 1
  running : s.shutdownRequested = false → s.live.length + s.timers.length = 1
  active : s.shutdownRequested = false → s.activePromise = s.live.head?
  called : s.shutdownRequested = false ↔ s.shutdown = .notCalled
  below : ∀ tick, tick ∈ s.live ∨ .catchFulfilled tick ∈ s.jobs ∨ tick ∈ s.fulfilled → tick < s.started
  pending : ∀ tick ∈ s.live, .catchFulfilled tick ∉ s.jobs ∧ tick ∉ s.fulfilled
  awaited : ∀ tick, s.shutdown = .awaiting tick → ∀ other ∈ s.live, other = tick
  resumes : .shutdownResume ∈ s.jobs → s.shutdown = .resuming ∨ s.shutdown = .resolved
  ended : s.shutdown = .resuming ∨ s.shutdown = .resolved → s.live = []

@[simp] theorem live_enqueue : (s.enqueue job).live = s.live ++ job.tick?.toList := by
  cases h : job.tick? <;> simp [live, enqueue, h]

/-- The tick of the first job is the only one in flight. -/
theorem Inv.of_job (h : s.Inv) {jobs : List Job} (hjobs : s.jobs = job :: jobs)
    (htick : job.tick? = some tick) :
    s.live = [tick] ∧ s.timers = [] ∧ { s with jobs := jobs }.live = [] := by
  have hone := h.one
  simp only [live, hjobs, List.filterMap_cons, htick, List.length_append, List.length_cons] at hone
  have hprocessing : s.processing = [] := List.length_eq_zero_iff.mp (by omega)
  have hrest : jobs.filterMap Job.tick? = [] := List.length_eq_zero_iff.mp (by omega)
  have htimers : s.timers = [] := List.length_eq_zero_iff.mp (by omega)
  simp [live, hjobs, htick, hprocessing, hrest, htimers]

/-- A change that keeps the ticks in flight and the fields, and queues no reaction of `catch` or of the
shutdown. -/
theorem Inv.of_same (h : s.Inv) (hlive : s'.live = s.live) (htimers : s'.timers = s.timers)
    (hfields : (s'.shutdownRequested, s'.activePromise, s'.fulfilled, s'.shutdown, s'.started) =
      (s.shutdownRequested, s.activePromise, s.fulfilled, s.shutdown, s.started))
    (hcatch : ∀ tick, .catchFulfilled tick ∈ s'.jobs → .catchFulfilled tick ∈ s.jobs)
    (hresume : .shutdownResume ∈ s'.jobs → .shutdownResume ∈ s.jobs) : s'.Inv := by
  simp only [Prod.mk.injEq] at hfields
  obtain ⟨hrequested, hactive, hfulfilled, hshutdown, hstarted⟩ := hfields
  constructor
  · rw [hlive, htimers]
    exact h.one
  · rw [hrequested, hlive, htimers]
    exact h.running
  · rw [hrequested, hactive, hlive]
    exact h.active
  · rw [hrequested, hshutdown]
    exact h.called
  · rw [hlive, hfulfilled, hstarted]
    exact fun tick htick => h.below tick (htick.imp_right (Or.imp_left (hcatch tick)))
  · rw [hlive, hfulfilled]
    exact fun tick htick => ⟨fun hc => (h.pending tick htick).1 (hcatch tick hc), (h.pending tick htick).2⟩
  · rw [hshutdown, hlive]
    exact h.awaited
  · rw [hshutdown]
    exact fun hc => h.resumes (hresume hc)
  · rw [hshutdown, hlive]
    exact h.ended

/-! ## Promises -/

/-- `catch` is about to pass on the result of a tick that is no longer in flight. -/
theorem Inv.enqueue_catchFulfilled (h : s.Inv) (hlive : tick ∉ s.live) (hlt : tick < s.started) :
    (s.enqueue (.catchFulfilled tick)).Inv := by
  have hsame : (s.enqueue (.catchFulfilled tick)).live = s.live := by simp [Job.tick?]
  constructor
  · rw [hsame]
    exact h.one
  · rw [hsame]
    exact h.running
  · rw [hsame]
    exact h.active
  · exact h.called
  · rw [hsame]
    rintro other (hother | hother | hother)
    · exact h.below other (.inl hother)
    · rcases List.mem_append.mp hother with hother | hother
      · exact h.below other (.inr (.inl hother))
      · obtain rfl : other = tick := by simpa using hother
        exact hlt
    · exact h.below other (.inr (.inr hother))
  · rw [hsame]
    refine fun other hother => ⟨fun hc => ?_, (h.pending other hother).2⟩
    rcases List.mem_append.mp hc with hc | hc
    · exact (h.pending other hother).1 hc
    · obtain rfl : other = tick := by simpa using hc
      exact hlive hother
  · rw [hsame]
    exact h.awaited
  · intro hc
    exact h.resumes (by simpa [enqueue] using hc)
  · rw [hsame]
    exact h.ended

/-- The promise of a tick that is no longer in flight is fulfilled.  If a shutdown awaits it, no tick
is in flight. -/
theorem Inv.fulfil (h : s.Inv) (hlive : tick ∉ s.live) (hlt : tick < s.started) : (s.fulfil tick).Inv := by
  have hbelow : ∀ other, other ∈ s.live ∨ .catchFulfilled other ∈ s.jobs ∨ other ∈ tick :: s.fulfilled →
      other < s.started := by
    rintro other (hother | hother | hother)
    · exact h.below other (.inl hother)
    · exact h.below other (.inr (.inl hother))
    · rcases List.mem_cons.mp hother with rfl | hother
      · exact hlt
      · exact h.below other (.inr (.inr hother))
  have hpending : ∀ other ∈ s.live, .catchFulfilled other ∉ s.jobs ∧ other ∉ tick :: s.fulfilled := by
    refine fun other hother => ⟨(h.pending other hother).1, fun hmem => ?_⟩
    rcases List.mem_cons.mp hmem with rfl | hmem
    · exact hlive hother
    · exact (h.pending other hother).2 hmem
  unfold LoopState.fulfil
  by_cases hawaited : s.shutdown = .awaiting tick
  · have hnone : s.live = [] := by
      refine List.eq_nil_iff_forall_not_mem.mpr fun other hother => ?_
      obtain rfl := h.awaited tick hawaited other hother
      exact hlive hother
    have hrequested : s.shutdownRequested = true := by
      rw [← Bool.not_eq_false, h.called, hawaited]
      simp
    have hsame : (enqueue { s with fulfilled := tick :: s.fulfilled, shutdown := .resuming }
        .shutdownResume).live = s.live := by
      rw [live_enqueue, Job.tick?, Option.toList_none, List.append_nil]
      rfl
    simp only [if_pos hawaited]
    exact
      { one := by
          rw [hsame]
          exact h.one
        running := by simp [enqueue, hrequested]
        active := by simp [enqueue, hrequested]
        called := by simp [enqueue, hrequested]
        below := by
          rw [hsame]
          simpa [enqueue] using hbelow
        pending := by
          rw [hsame]
          simpa [enqueue] using hpending
        awaited := by simp [enqueue]
        resumes := fun _ => .inl rfl
        ended := fun _ => hsame.trans hnone }
  · simp only [if_neg hawaited]
    exact
      { one := h.one
        running := h.running
        active := h.active
        called := h.called
        below := hbelow
        pending := hpending
        awaited := h.awaited
        resumes := h.resumes
        ended := h.ended }

/-! ## Callbacks -/

/-- **Between two ticks**: none is in flight, and no timer is armed. -/
structure Between (s : LoopState) : Prop where
  live : s.live = []
  timers : s.timers = []
  called : s.shutdownRequested = false ↔ s.shutdown = .notCalled
  below : ∀ tick, .catchFulfilled tick ∈ s.jobs ∨ tick ∈ s.fulfilled → tick < s.started
  resumes : .shutdownResume ∈ s.jobs → s.shutdown = .resuming ∨ s.shutdown = .resolved

/-- After a shutdown has been requested, nothing needs to follow. -/
theorem Between.inv (h : s.Between) (hrequested : s.shutdownRequested = true) : s.Inv where
  one := by simp [h.live, h.timers]
  running := by simp [hrequested]
  active := by simp [hrequested]
  called := h.called
  below := by simpa [h.live] using h.below
  pending := by simp [h.live]
  awaited := by simp [h.live]
  resumes := h.resumes
  ended := fun _ => h.live

/-- The next tick is started. -/
theorem Between.runLoop (h : s.Between) : s.runLoop.Inv := by
  unfold LoopState.runLoop
  split
  next hrequested => exact h.inv hrequested
  next hrequested =>
    have hnot : s.shutdownRequested = false := Bool.eq_false_iff.mpr hrequested
    have hjobs := List.append_eq_nil_iff.mp h.live
    have hlive : { s with
        activePromise := some s.started
        processing := s.processing ++ [s.started]
        started := s.started + 1 }.live = [s.started] := by
      simp only [LoopState.live, hjobs.1, hjobs.2]
      rfl
    have hnew : ∀ tick, .catchFulfilled tick ∈ s.jobs ∨ tick ∈ s.fulfilled → tick < s.started + 1 :=
      fun tick htick => Nat.lt_succ_of_lt (h.below tick htick)
    have hone : [s.started].length + s.timers.length = 1 := by
      rw [h.timers]
      rfl
    exact
      { one := by
          rw [hlive]
          exact hone.le
        running := by
          rw [hlive]
          exact fun _ => hone
        active := by simp [hlive]
        called := h.called
        below := by
          rintro tick (htick | htick)
          · rw [hlive, List.mem_singleton] at htick
            exact htick ▸ Nat.lt_succ_self _
          · exact hnew tick htick
        pending := by
          intro tick htick
          rw [hlive, List.mem_singleton] at htick
          subst htick
          exact ⟨fun hc => (h.below _ (.inl hc)).false, fun hc => (h.below _ (.inr hc)).false⟩
        awaited := by simp [h.called.mp hnot]
        resumes := h.resumes
        ended := by simp [h.called.mp hnot] }

/-- A timer is armed. -/
theorem Between.setTimeout (h : s.Between) (hactive : s.activePromise = none) (ms : ℕ) :
    (s.setTimeout ms).Inv := by
  have hlive : (s.setTimeout ms).live = [] := h.live
  have hone : ([] : List ℕ).length + (s.timers ++ [ms]).length = 1 := by
    rw [h.timers]
    rfl
  exact
    { one := by
        rw [hlive]
        exact hone.le
      running := by
        rw [hlive]
        exact fun _ => hone
      active := by
        rw [hlive]
        exact fun _ => hactive
      called := h.called
      below := by
        rw [hlive]
        exact fun tick htick => h.below tick (htick.resolve_left List.not_mem_nil)
      pending := by simp [hlive]
      awaited := by simp [hlive]
      resumes := h.resumes
      ended := fun _ => hlive }

/-- A change that the fields between two ticks do not show. -/
theorem Between.of_same (h : s.Between)
    (hsame : (s'.jobs, s'.timers, s'.processing, s'.fulfilled) =
      (s.jobs, s.timers, s.processing, s.fulfilled))
    (hfields : (s'.shutdownRequested, s'.shutdown, s'.started) =
      (s.shutdownRequested, s.shutdown, s.started)) : s'.Between := by
  simp only [Prod.mk.injEq] at hsame hfields
  obtain ⟨hjobs, htimers, hprocessing, hfulfilled⟩ := hsame
  obtain ⟨hrequested, hshutdown, hstarted⟩ := hfields
  constructor
  · rw [LoopState.live, hjobs, hprocessing]
    exact h.live
  · rw [htimers]
    exact h.timers
  · rw [hrequested, hshutdown]
    exact h.called
  · rw [hjobs, hfulfilled, hstarted]
    exact h.below
  · rw [hjobs, hshutdown]
    exact h.resumes

/-- **The callback of `then`.** -/
theorem Between.onFulfilled (h : s.Between) (found : Bool) : (s.onFulfilled delays found).Inv := by
  have hnone : { s with activePromise := none }.Between := h.of_same rfl rfl
  simp only [LoopState.onFulfilled]
  split
  next hrequested => exact hnone.inv hrequested
  next =>
    split
    · exact hnone.runLoop
    · exact hnone.setTimeout rfl _

/-- A tick that `then` starts is a new one. -/
theorem Between.started_le (h : s.Between) (delays : LoopDelays) (found : Bool) :
    (∀ tick ∈ (s.onFulfilled delays found).live, s.started ≤ tick) ∧
      s.started ≤ (s.onFulfilled delays found).started := by
  have hjobs := List.append_eq_nil_iff.mp h.live
  simp only [LoopState.onFulfilled, LoopState.runLoop]
  split
  next => exact ⟨by simp [LoopState.live, hjobs.1, hjobs.2], le_rfl⟩
  next =>
    split
    · exact ⟨by simp [LoopState.live, hjobs.1, hjobs.2], Nat.le_succ _⟩
    · exact ⟨by simp [LoopState.setTimeout, LoopState.live, hjobs.1, hjobs.2], le_rfl⟩

/-- **The callback of `catch`.** -/
theorem Between.onRejected (h : s.Between) (err : Thrown) : (s.onRejected delays err).Inv := by
  have hnone : { s with activePromise := none, logged := s.logged ++ [err] }.Between := h.of_same rfl rfl
  simp only [LoopState.onRejected]
  split
  next hrequested => exact hnone.inv hrequested
  next => exact hnone.setTimeout rfl _

/-! ## Steps -/

/-- What is left when the first job has been taken from the queue. -/
theorem Inv.between (h : s.Inv) {jobs : List Job} (hjobs : s.jobs = job :: jobs)
    (htick : job.tick? = some tick) : { s with jobs := jobs }.Between := by
  obtain ⟨-, htimers, hlive⟩ := h.of_job hjobs htick
  have hmem : ∀ other, other ∈ jobs → other ∈ s.jobs := fun other hother => by
    rw [hjobs]
    exact List.mem_cons_of_mem job hother
  exact
    { live := hlive
      timers := htimers
      called := h.called
      below := fun other hother => h.below other (.inr (hother.imp_left (hmem _)))
      resumes := fun hc => h.resumes (hmem _ hc) }

/-- A job that passes the outcome of a tick on to the next one. -/
theorem Inv.pass (h : s.Inv) {jobs : List Job} (hjobs : s.jobs = job :: jobs)
    (htick : job.tick? = some tick) {next : Job} (hnext : next.tick? = some tick) :
    (enqueue { s with jobs := jobs } next).Inv := by
  obtain ⟨hlive, -, hrest⟩ := h.of_job hjobs htick
  have hmem : ∀ other : Job, other.tick? = none → other ∈ jobs ++ [next] → other ∈ s.jobs := by
    intro other hother hc
    rcases List.mem_append.mp hc with hc | hc
    · rw [hjobs]
      exact List.mem_cons_of_mem job hc
    · rw [List.mem_singleton.mp hc, hnext] at hother
      cases hother
  refine h.of_same ?_ rfl rfl (fun _ => hmem _ rfl) (hmem _ rfl)
  rw [live_enqueue, hrest, hnext, hlive]
  rfl

/-- **A job keeps the invariant.** -/
theorem Inv.runJob (h : s.Inv) {jobs : List Job} (hjobs : s.jobs = job :: jobs) :
    (job.run delays { s with jobs := jobs }).Inv := by
  have hfirst : job ∈ s.jobs := by
    rw [hjobs]
    exact List.mem_cons_self
  have htail : ∀ other, other ∈ jobs → other ∈ s.jobs := fun other hother => by
    rw [hjobs]
    exact List.mem_cons_of_mem job hother
  have hrest (hnone : job.tick? = none) : { s with jobs := jobs }.live = s.live := by
    simp only [live, hjobs, List.filterMap_cons, hnone]
  have hinv (hnone : job.tick? = none) : { s with jobs := jobs }.Inv :=
    h.of_same (hrest hnone) rfl rfl (fun _ => htail _) (htail _)
  have hstarted : ∀ n, job.tick? = some n → n < s.started := fun n hn =>
    h.below n (.inl (by rw [(h.of_job hjobs hn).1]; exact List.mem_singleton_self n))
  cases job with
  | resume tick outcome =>
    cases outcome with
    | fulfilled found => exact h.pass hjobs rfl rfl
    | rejected err => exact h.pass hjobs rfl rfl
  | thenRejected tick err => exact h.pass hjobs rfl rfl
  | thenFulfilled tick found =>
    have hmid := h.between hjobs rfl
    obtain ⟨hnew, hle⟩ := hmid.started_le delays found
    have hlt := hstarted tick rfl
    refine (hmid.onFulfilled found).enqueue_catchFulfilled (fun hc => ?_) (hlt.trans_le hle)
    exact absurd (hnew tick hc) (not_le.mpr hlt)
  | catchRejected tick err =>
    have hmid := h.between hjobs rfl
    have hkept : (onRejected { s with jobs := jobs } delays err).live = [] ∧
        (onRejected { s with jobs := jobs } delays err).started = s.started := by
      unfold onRejected
      dsimp only
      split <;> exact ⟨hmid.live, rfl⟩
    refine (hmid.onRejected err).fulfil ?_ ?_
    · rw [hkept.1]
      exact List.not_mem_nil
    · rw [hkept.2]
      exact hstarted tick rfl
  | catchFulfilled tick =>
    refine (hinv rfl).fulfil (fun hc => ?_) (h.below tick (.inr (.inl hfirst)))
    rw [hrest rfl] at hc
    exact (h.pending tick hc).1 hfirst
  | shutdownResume =>
    have hended := h.ended (h.resumes hfirst)
    have hnot : s.shutdownRequested ≠ false := fun hc => by
      have hcalled := h.called.mp hc
      rcases h.resumes hfirst with hs | hs <;> simp [hs] at hcalled
    have hlive : { s with jobs := jobs, shutdown := .resolved }.live = [] := (hrest rfl).trans hended
    exact
      { one := (hinv rfl).one
        running := fun hc => absurd hc hnot
        active := fun hc => absurd hc hnot
        called := by simp [Job.run, hnot]
        below := (hinv rfl).below
        pending := (hinv rfl).pending
        awaited := by simp [Job.run]
        resumes := fun _ => .inr rfl
        ended := fun _ => hlive }

/-- **A shutdown keeps the invariant.** -/
theorem Inv.shutdown (h : s.Inv) (hnot : s.shutdown = .notCalled) : s.onApplicationShutdown.Inv := by
  have hrequested := h.called.mpr hnot
  have hresume : .shutdownResume ∉ s.jobs := fun hc => by
    have hs := h.resumes hc
    simp [hnot] at hs
  have hactive := h.active hrequested
  unfold onApplicationShutdown
  dsimp only
  cases hpromise : s.activePromise with
  | none =>
    rw [hpromise] at hactive
    have hlive : s.live = [] := List.head?_eq_none_iff.mp hactive.symm
    exact
      { one := h.one
        running := by simp
        active := by simp
        called := by simp
        below := h.below
        pending := h.pending
        awaited := by simp
        resumes := fun _ => .inr rfl
        ended := fun _ => hlive }
  | some tick =>
    rw [hpromise] at hactive
    have htick : tick ∈ s.live := List.mem_of_head? hactive.symm
    have honly : ∀ other ∈ s.live, other = tick := fun other hother => by
      have hone := h.one
      obtain ⟨first, hfirst⟩ := List.length_eq_one_iff.mp
        (le_antisymm (by omega) (List.length_pos_of_mem htick))
      rw [hfirst, List.mem_singleton] at htick hother
      rw [hother, htick]
    dsimp only
    rw [if_neg (h.pending tick htick).2]
    exact
      { one := h.one
        running := by simp
        active := by simp
        called := by simp
        below := h.below
        pending := h.pending
        awaited := by
          rintro other hother
          obtain rfl := Shutdown.awaiting.inj hother
          exact honly
        resumes := fun hc => absurd hc hresume
        ended := by simp }

/-- **A step keeps the invariant.** -/
theorem Inv.step (h : s.Inv) (hstep : LoopStep delays s s') : s'.Inv := by
  cases hstep with
  | job hjobs => exact h.runJob hjobs
  | shutdown hnot => exact h.shutdown hnot
  | @settle tick outcome htick =>
    have hone := h.one
    have hpos := List.length_pos_of_mem htick
    simp only [live, List.length_append] at hone
    obtain ⟨first, hfirst⟩ := List.length_eq_one_iff.mp (le_antisymm (by omega) hpos)
    have hjobs : s.jobs.filterMap Job.tick? = [] := List.length_eq_zero_iff.mp (by omega)
    rw [hfirst, List.mem_singleton] at htick
    subst htick
    have hmem : ∀ other : Job, other.tick? = none → other ∈ s.jobs ++ [.resume tick outcome] →
        other ∈ s.jobs := by
      intro other hother hc
      rcases List.mem_append.mp hc with hc | hc
      · exact hc
      · rw [List.mem_singleton.mp hc] at hother
        cases hother
    refine h.of_same ?_ rfl rfl (fun _ => hmem _ rfl) (hmem _ rfl)
    rw [live_enqueue]
    simp [live, hjobs, hfirst, Job.tick?]
  | @timer ms hms =>
    have hone := h.one
    have hpos := List.length_pos_of_mem hms
    have hlive : s.live = [] := List.length_eq_zero_iff.mp (by omega)
    have htimers : s.timers.erase ms = [] := by
      rw [← List.length_eq_zero_iff, List.length_erase_of_mem hms]
      omega
    have hmid : { s with timers := s.timers.erase ms }.Between :=
      { live := hlive
        timers := htimers
        called := h.called
        below := fun tick htick => h.below tick (.inr htick)
        resumes := h.resumes }
    exact hmid.runLoop

/-! ## Runs -/

/-- The bootstrap starts the first tick. -/
theorem inv_onApplicationBootstrap : onApplicationBootstrap.Inv := by
  have hinitial : initial.Between :=
    { live := rfl
      timers := rfl
      called := by decide
      below := by simp [initial]
      resumes := by simp [initial] }
  exact hinitial.runLoop

/-- Every state of a run satisfies the invariant. -/
theorem Inv.run (h : s.Inv) (hrun : LoopRun delays s s') : s'.Inv := by
  induction hrun with
  | refl => exact h
  | tail _ hstep ih => exact ih.step hstep

/-- A step after the end of the shutdown starts nothing. -/
theorem Inv.resolved_step (h : s.Inv) (hresolved : s.shutdown = .resolved) (hstep : LoopStep delays s s') :
    s'.shutdown = .resolved ∧ s'.started = s.started := by
  have hlive := h.ended (.inr hresolved)
  have hrequested : s.shutdownRequested = true := by
    rw [← Bool.not_eq_false, h.called, hresolved]
    simp
  cases hstep with
  | settle outcome htick =>
    have hmem := List.mem_append_left (s.jobs.filterMap Job.tick?) htick
    rw [show s.processing ++ s.jobs.filterMap Job.tick? = [] from hlive] at hmem
    exact absurd hmem List.not_mem_nil
  | @job job jobs hjobs =>
    have hnone : job.tick? = none := by
      cases htick : job.tick? with
      | none => rfl
      | some tick =>
        rw [(h.of_job hjobs htick).1] at hlive
        cases hlive
    cases job with
    | catchFulfilled tick =>
      have hnot : s.shutdown ≠ .awaiting tick := by simp [hresolved]
      have hrun : (LoopState.fulfil { s with jobs := jobs } tick).shutdown = s.shutdown ∧
          (LoopState.fulfil { s with jobs := jobs } tick).started = s.started := by
        unfold LoopState.fulfil
        dsimp only
        rw [if_neg hnot]
        exact ⟨rfl, rfl⟩
      exact ⟨hrun.1.trans hresolved, hrun.2⟩
    | shutdownResume => exact ⟨rfl, rfl⟩
    | _ => cases hnone
  | timer hms =>
    simp only [runLoop, hrequested, if_true]
    exact ⟨hresolved, trivial⟩
  | shutdown hnot =>
    rw [hresolved] at hnot
    cases hnot

/-- Once the shutdown has ended, nothing is in flight and nothing is started any more. -/
theorem Inv.resolved_run (h : s.Inv) (hresolved : s.shutdown = .resolved) (hrun : LoopRun delays s s') :
    s'.processing = [] ∧ s'.started = s.started := by
  have hkept : s'.shutdown = .resolved ∧ s'.started = s.started := by
    induction hrun with
    | refl => exact ⟨hresolved, rfl⟩
    | tail hinit hstep ih =>
      obtain ⟨hs, hstarted⟩ := (h.run hinit).resolved_step ih.1 hstep
      exact ⟨hs, hstarted.trans ih.2⟩
  exact ⟨(List.append_eq_nil_iff.mp ((h.run hrun).ended (.inr hkept.1))).1, hkept.2⟩

end LoopState

/-- **The worker loop** after its bootstrap, whatever becomes of each `processOne`, however long the
delays are and whenever a shutdown is requested.

* At most one `processOne` is in flight.
* Until a shutdown is requested, either one tick is in flight or one timer is armed.
* Once the shutdown has ended, no `processOne` is in flight, and none is started any more. -/
theorem worker_loop {delays : LoopDelays} {s : LoopState}
    (h : LoopRun delays .onApplicationBootstrap s) :
    s.processing.length ≤ 1 ∧
    (s.shutdownRequested = false →
      (s.live.length = 1 ∧ s.timers = []) ∨ (s.live = [] ∧ s.timers.length = 1)) ∧
    (s.shutdown = .resolved → ∀ s', LoopRun delays s s' → s'.processing = [] ∧ s'.started = s.started) := by
  have hinv := LoopState.inv_onApplicationBootstrap.run h
  have hone := hinv.one
  refine ⟨?_, fun hrequested => ?_, fun hresolved s' hrun => hinv.resolved_run hresolved hrun⟩
  · simp only [LoopState.live, List.length_append] at hone
    omega
  · have hrunning := hinv.running hrequested
    rw [← List.length_eq_zero_iff, ← List.length_eq_zero_iff]
    omega

/-- A shutdown during the first tick. -/
theorem worker_loop_sample :
    ∃ s, LoopRun ⟨50, 100⟩ .onApplicationBootstrap s ∧ s.shutdown = .resolved ∧
      (s.processing.length ≤ 1 ∧
      (s.shutdownRequested = false →
        (s.live.length = 1 ∧ s.timers = []) ∨ (s.live = [] ∧ s.timers.length = 1)) ∧
      (s.shutdown = .resolved → ∀ s', LoopRun ⟨50, 100⟩ s s' →
        s'.processing = [] ∧ s'.started = s.started)) := by
  let delays : LoopDelays := ⟨50, 100⟩
  let s₀ : LoopState := .onApplicationBootstrap
  let s₁ := s₀.onApplicationShutdown
  let s₂ := { s₁ with processing := s₁.processing.erase 0 }.enqueue (.resume 0 (.fulfilled true))
  let s₃ := Job.run delays { s₂ with jobs := [] } (.resume 0 (.fulfilled true))
  let s₄ := Job.run delays { s₃ with jobs := [] } (.thenFulfilled 0 true)
  let s₅ := Job.run delays { s₄ with jobs := [] } (.catchFulfilled 0)
  let s₆ := Job.run delays { s₅ with jobs := [] } .shutdownResume
  have h₁ : LoopStep delays s₀ s₁ := .shutdown rfl
  have h₂ : LoopStep delays s₁ s₂ := .settle (.fulfilled true) (List.mem_singleton_self 0)
  have h₃ : LoopStep delays s₂ s₃ := .job rfl
  have h₄ : LoopStep delays s₃ s₄ := .job rfl
  have h₅ : LoopStep delays s₄ s₅ := .job rfl
  have h₆ : LoopStep delays s₅ s₆ := .job rfl
  have hrun : LoopRun delays s₀ s₆ :=
    (((((Relation.ReflTransGen.single h₁).tail h₂).tail h₃).tail h₄).tail h₅).tail h₆
  exact ⟨s₆, hrun, rfl, worker_loop hrun⟩

end PaymentWebhook
