import Mathlib.Data.List.Infix
import Mathlib.Tactic.Linarith
import PaymentWebhook.JsString

set_option relaxedAutoImplicit false
set_option autoImplicit false

/-!
# The chaos coordinator

In the sudden death test the simulator kills the workers in the middle of its deliveries and starts them again.
The coordinator runs beside the deliveries: each of its jobs is a delivery, an answer of `docker`, or a timer.

## Main definitions

* `PaymentWebhook.Chaos` — the variables of the coordinator.
* `PaymentWebhook.Chaos.onDeliveryComplete`, `PaymentWebhook.Chaos.resume` — its jobs.
* `PaymentWebhook.ChaosRun` — its runs.
* `PaymentWebhook.restartCommands` — the commands of a kill and a restart.

## Main results

* `PaymentWebhook.countRunningWorkers_names` — the workers that are listed are counted.
* `PaymentWebhook.ChaosRun.sound` — what holds at each `await`.
* `PaymentWebhook.chaos_coordinator` — which commands are executed, and what a result says.
-/

namespace PaymentWebhook

/-! ## The coordinator -/

structure ChaosOpts where
  killAt : ℕ
  restartDelayMs : ℕ

/-- The commands that are executed. -/
inductive DockerCommand where
  | ps
  | kill
  | up (scale : ℕ)
  deriving DecidableEq, Repr

/-- The arguments of `docker`. -/
def DockerCommand.args : DockerCommand → List String
  | ps => ["compose", "ps", "--status", "running", "--format", "\x7b\x7b.Name\x7d\x7d", "worker"]
  | kill => ["compose", "kill", "-s", "SIGKILL", "worker"]
  | up scale => ["compose", "up", "-d", "--no-deps", "--scale", s!"worker={scale}", "worker"]

structure ChaosResult where
  killedAt : ℕ
  workersKilled : ℕ
  killConfirmed : Bool
  downTimeMs : ℤ
  workersRestarted : ℕ
  restartConfirmed : Bool
  burstContinued : Bool
  deriving DecidableEq, Repr

/-- What `countRunningWorkers` makes of the output of `docker`. -/
def countRunningWorkers (stdout : String) : ℕ :=
  (((jsTrim stdout.toList).splitOn '\n').filter fun line => jsLength line > 0).length

/-- **`preflight`**. -/
def Chaos.preflight (stdout : String) : Except String ℕ :=
  let count := countRunningWorkers stdout
  if count = 0 then .error "No active worker replicas detected before simulation" else .ok count

/-- What `executeKill` awaits, or how its promise is settled. -/
inductive KillPhase where
  | killing
  | confirming
  | delaying (wakeAt : ℤ)
  | starting
  | recovering (restartErr : String)
  | counting
  | pausing (wakeAt : ℤ)
  | fulfilled (result : ChaosResult)
  | rejected (message : String)
  deriving DecidableEq, Repr

/-- The variables of `executeKill`. -/
structure ChaosKill where
  deliveryIndex : ℕ
  replicaCount : ℕ
  downStart : ℤ
  restartDeadline : ℤ
  runningCount : ℕ
  phase : KillPhase
  deriving DecidableEq, Repr

/-- The variables of the coordinator, and what it has executed. -/
structure Chaos where
  triggered : Bool
  triggerPromise : Option ChaosKill
  result : Option ChaosResult
  /-- The commands that have been executed, oldest first. -/
  commands : List DockerCommand
  /-- The answers to them: what was printed, or the error. -/
  answers : List (Except String String)

namespace Chaos

/-- The coordinator when it is created. -/
def start : Chaos := ⟨false, none, none, [], []⟩

/-- `executeKill` goes on to its next `await`. -/
def await (c : Chaos) (k : ChaosKill) (phase : KillPhase) : Chaos :=
  { c with triggerPromise := some { k with phase := phase } }

/-- `executeKill` goes on to the `await` of a command. -/
def exec (c : Chaos) (k : ChaosKill) (phase : KillPhase) (command : DockerCommand) : Chaos :=
  { c.await k phase with commands := c.commands ++ [command] }

/-- **`onDeliveryComplete`**, which does not await the kill. -/
def onDeliveryComplete (opts : ChaosOpts) (now : ℤ) (deliveryCount replicaCount : ℕ) (c : Chaos) : Chaos :=
  if deliveryCount ≠ opts.killAt then c
  else if c.triggered then c
  else { c with triggered := true }.exec ⟨deliveryCount, replicaCount, now, 0, 0, .killing⟩ .killing .kill

/-- What follows the loop that waits for the workers. -/
def finish (c : Chaos) (k : ChaosKill) (now : ℤ) : Chaos :=
  if k.runningCount < k.replicaCount then
    let runningCount := k.runningCount
    let replicaCount := k.replicaCount
    c.await k (.rejected s!"Restart failed: only {runningCount}/{replicaCount} workers running")
  else
    let result : ChaosResult :=
      { killedAt := k.deliveryIndex
        workersKilled := k.replicaCount
        killConfirmed := true
        downTimeMs := now - k.downStart
        workersRestarted := k.runningCount
        restartConfirmed := true
        burstContinued := true }
    { c.await k (.fulfilled result) with result := some result }

/-- The head of the loop that waits for the workers. -/
def loop (c : Chaos) (k : ChaosKill) (now : ℤ) : Chaos :=
  if now < k.restartDeadline then c.exec k .counting .ps else c.finish k now

/-- The workers have been restarted. -/
def restarted (c : Chaos) (k : ChaosKill) (now : ℤ) : Chaos :=
  c.loop { k with restartDeadline := now + 30000, runningCount := 0 } now

/-- **A command has been executed**, and `executeKill` goes on. -/
def answered (opts : ChaosOpts) (now : ℤ) (c : Chaos) (k : ChaosKill) (answer : Except String String) : Chaos :=
  let c := { c with answers := c.answers ++ [answer] }
  match k.phase, answer with
  | .killing, .ok _ => c.exec k .confirming .ps
  | .killing, .error err => c.await k (.rejected err)
  | .confirming, .ok stdout =>
    let afterKill := countRunningWorkers stdout
    if afterKill > 0 then
      c.await k (.rejected s!"Kill failed: {afterKill} workers still running after SIGKILL")
    else c.await k (.delaying (now + opts.restartDelayMs))
  | .confirming, .error err => c.await k (.rejected err)
  | .starting, .ok _ => c.restarted k now
  | .starting, .error restartErr => c.exec k (.recovering restartErr) (.up k.replicaCount)
  | .recovering _, .ok _ => c.restarted k now
  | .recovering restartErr, .error _ =>
    c.await k (.rejected s!"Failed to restart workers after best-effort recovery: {restartErr}")
  | .counting, .ok stdout =>
    let k := { k with runningCount := countRunningWorkers stdout }
    if k.runningCount ≥ k.replicaCount then c.finish k now else c.await k (.pausing (now + 500))
  | .counting, .error err => c.await k (.rejected err)
  | _, _ => c

/-- **A timer has fired**, and `executeKill` goes on. -/
def woken (now : ℤ) (c : Chaos) (k : ChaosKill) : Chaos :=
  match k.phase with
  | .delaying _ => c.exec k .starting (.up k.replicaCount)
  | .pausing _ => c.loop k now
  | _ => c

/-- `waitForCompletion`, once it has returned. -/
def waitForCompletion (c : Chaos) : Option (Option ChaosResult) :=
  match c.triggerPromise with
  | none => some c.result
  | some k => match k.phase with
    | .fulfilled _ => some c.result
    | .rejected _ => some c.result
    | _ => none

end Chaos

/-- `executeKill` awaits a command. -/
def KillPhase.executes : KillPhase → Bool
  | killing | confirming | starting | recovering _ | counting => true
  | _ => false

/-- The timer that `executeKill` awaits. -/
def KillPhase.wakeAt? : KillPhase → Option ℤ
  | delaying wakeAt | pausing wakeAt => some wakeAt
  | _ => none

/-- **The runs of the coordinator** with the deliveries that have been completed, a clock that does not go
backwards, and timers that do not fire too early. -/
inductive ChaosRun (opts : ChaosOpts) : List ℕ → ℤ → Chaos → Prop where
  | start (now : ℤ) : ChaosRun opts [] now .start
  | delivered {deliveries : List ℕ} {now now' : ℤ} {c : Chaos} (deliveryCount replicaCount : ℕ)
      (h : ChaosRun opts deliveries now c) (hnow : now ≤ now') :
      ChaosRun opts (deliveries ++ [deliveryCount]) now'
        (c.onDeliveryComplete opts now' deliveryCount replicaCount)
  | answered {deliveries : List ℕ} {now now' : ℤ} {c : Chaos} {k : ChaosKill} (answer : Except String String)
      (h : ChaosRun opts deliveries now c) (hnow : now ≤ now') (hk : c.triggerPromise = some k)
      (hexecutes : k.phase.executes = true) : ChaosRun opts deliveries now' (c.answered opts now' k answer)
  | woken {deliveries : List ℕ} {now now' wakeAt : ℤ} {c : Chaos} {k : ChaosKill}
      (h : ChaosRun opts deliveries now c) (hnow : now ≤ now') (hk : c.triggerPromise = some k)
      (hwake : k.phase.wakeAt? = some wakeAt) (hlate : wakeAt ≤ now') :
      ChaosRun opts deliveries now' (c.woken now' k)

/-! ## Counting the workers -/

/-- The lines of what is printed, without the last line break. -/
theorem exists_lines {names : List (List Char)} (hnames : names ≠ []) (hne : ∀ name ∈ names, name ≠ [])
    (hspace : ∀ name ∈ names, ∀ c ∈ name, jsSpace c = false) :
    ∃ body, names.flatMap (fun name => name ++ ['\n']) = body ++ ['\n'] ∧ body.splitOn '\n' = names ∧
      (∃ c rest, body = c :: rest ∧ jsSpace c = false) ∧ ∃ rest c, body = rest ++ [c] ∧ jsSpace c = false := by
  have hline : ∀ name ∈ names, '\n' ∉ name := fun name hname hmem => by
    simpa [jsSpace] using hspace name hname _ hmem
  induction names with
  | nil => exact absurd rfl hnames
  | cons name names ih =>
    obtain ⟨c, tail, hname⟩ := List.exists_cons_of_ne_nil (hne name (by simp))
    have hc : jsSpace c = false := hspace name (by simp) c (by simp [hname])
    have hsplit : name.splitOn '\n' = [name] := List.splitOn_eq_singleton (hline name (by simp))
    by_cases hlast : names = []
    · subst hlast
      refine ⟨name, by simp, hsplit, ⟨c, tail, hname, hc⟩, name.dropLast, name.getLast (hne name (by simp)),
        (List.dropLast_append_getLast _).symm, ?_⟩
      exact hspace name (by simp) _ (List.getLast_mem _)
    · obtain ⟨body, hflat, hbody, -, rest, d, hrest, hd⟩ := ih hlast (fun x hx => hne x (by simp [hx]))
        (fun x hx => hspace x (by simp [hx])) (fun x hx => hline x (by simp [hx]))
      refine ⟨name ++ '\n' :: body, ?_, ?_, ⟨c, tail ++ '\n' :: body, by simp [hname], hc⟩,
        name ++ '\n' :: rest, d, by simp [hrest], hd⟩
      · rw [List.flatMap_cons, hflat]
        simp
      · rw [List.splitOn_append_cons_self, hsplit, hbody]
        rfl

/-- **The workers that are listed are counted**, one name a line. -/
theorem countRunningWorkers_names {names : List (List Char)} (hne : ∀ name ∈ names, name ≠ [])
    (hspace : ∀ name ∈ names, ∀ c ∈ name, jsSpace c = false) :
    countRunningWorkers (String.ofList (names.flatMap fun name => name ++ ['\n'])) = names.length := by
  by_cases hnames : names = []
  · subst hnames
    rfl
  have hpositive : ∀ name ∈ names, decide (jsLength name > 0) = true := by
    intro name hname
    obtain ⟨c, rest, rfl⟩ := List.exists_cons_of_ne_nil (hne name hname)
    have hunits : 0 < utf16Units c := by
      unfold utf16Units
      split <;> omega
    rw [decide_eq_true_eq, jsLength, List.map_cons, List.sum_cons]
    omega
  obtain ⟨body, hflat, hsplit, ⟨c, rest, hfirst, hc⟩, rest', d, hlast, hd⟩ := exists_lines hnames hne hspace
  have htrim : jsTrim (body ++ ['\n']) = body := by
    have hleft : (body ++ ['\n']).dropWhile jsSpace = body ++ ['\n'] := by
      rw [hfirst, List.cons_append, List.dropWhile_cons_of_neg (by simp [hc])]
    have hbreak : jsSpace '\n' = true := by decide
    rw [jsTrim, hleft, List.reverse_append, List.reverse_singleton, List.singleton_append,
      List.dropWhile_cons_of_pos hbreak, hlast, List.reverse_append, List.reverse_singleton, List.singleton_append,
      List.dropWhile_cons_of_neg (by simp [hd]), List.reverse_cons, List.reverse_reverse]
  rw [countRunningWorkers, String.toList_ofList, hflat, htrim, hsplit, List.filter_eq_self.mpr hpositive]

/-! ## What holds at each `await` -/

/-- The commands of a kill with so many attempts to restart `n` workers and so many looks at them. -/
def restartCommands (n attempts polls : ℕ) : List DockerCommand :=
  [.kill, .ps] ++ List.replicate attempts (.up n) ++ List.replicate polls .ps

/-- The workers have been seen to be down. -/
def Chaos.Confirmed (c : Chaos) : Prop :=
  ∃ first stdout rest, c.answers = first :: .ok stdout :: rest ∧ countRunningWorkers stdout = 0

/-- The kill has come to the loop that waits for the workers, with so many looks at them. -/
structure ChaosKill.Polled (opts : ChaosOpts) (k : ChaosKill) (c : Chaos) (polls : ℕ) (time : ℤ) : Prop where
  commands : ∃ attempts, 1 ≤ attempts ∧ attempts ≤ 2 ∧ c.commands = restartCommands k.replicaCount attempts polls
  confirmed : c.Confirmed
  delayed : k.downStart + opts.restartDelayMs ≤ time
  paused : k.restartDeadline - 30000 + 500 * ((polls : ℤ) - 1) ≤ time
  polls : polls ≤ 60

/-- **What holds of a kill**, by what it awaits. -/
def ChaosKill.Sound (opts : ChaosOpts) (now : ℤ) (k : ChaosKill) (c : Chaos) : Prop :=
  match k.phase with
  | .killing => c.commands = [.kill] ∧ c.answers = [] ∧ c.result = none ∧ k.downStart ≤ now
  | .confirming => c.commands = [.kill, .ps] ∧ (∃ answer, c.answers = [answer]) ∧ c.result = none ∧ k.downStart ≤ now
  | .delaying wakeAt => c.commands = [.kill, .ps] ∧ c.Confirmed ∧ c.result = none ∧
      k.downStart + opts.restartDelayMs ≤ wakeAt
  | .starting => c.commands = restartCommands k.replicaCount 1 0 ∧ c.Confirmed ∧ c.result = none ∧
      k.downStart + opts.restartDelayMs ≤ now
  | .recovering _ => c.commands = restartCommands k.replicaCount 2 0 ∧ c.Confirmed ∧ c.result = none ∧
      k.downStart + opts.restartDelayMs ≤ now
  | .counting => c.result = none ∧ ∃ polls, 1 ≤ polls ∧ k.Polled opts c polls now
  | .pausing wakeAt => c.result = none ∧ k.runningCount < k.replicaCount ∧
      ∃ polls, 1 ≤ polls ∧ k.Polled opts c polls (wakeAt - 500)
  | .fulfilled r => c.result = some r ∧ ∃ polls, 1 ≤ polls ∧ k.Polled opts c polls now ∧
      r.killedAt = k.deliveryIndex ∧ r.workersKilled = k.replicaCount ∧ r.killConfirmed = true ∧
      r.restartConfirmed = true ∧ r.burstContinued = true ∧ k.replicaCount ≤ r.workersRestarted ∧
      opts.restartDelayMs ≤ r.downTimeMs ∧
      ∃ stdout, c.answers.getLast? = some (.ok stdout) ∧ countRunningWorkers stdout = r.workersRestarted
  | .rejected _ => c.result = none ∧ c.commands ≠ [] ∧
      ∃ attempts polls, attempts ≤ 2 ∧ polls ≤ 60 ∧ c.commands <+: restartCommands k.replicaCount attempts polls

section Kill

variable {opts : ChaosOpts} {now now' : ℤ} {k : ChaosKill} {c : Chaos} {polls : ℕ} {time time' : ℤ}

theorem ChaosKill.Polled.mono (h : k.Polled opts c polls time) (hle : time ≤ time') : k.Polled opts c polls time' :=
  ⟨h.commands, h.confirmed, h.delayed.trans hle, h.paused.trans hle, h.polls⟩

/-- What has been seen stays seen. -/
theorem Chaos.Confirmed.answered (h : c.Confirmed) (answer : Except String String) :
    { c with answers := c.answers ++ [answer] }.Confirmed := by
  obtain ⟨first, stdout, rest, hanswers, hcount⟩ := h
  exact ⟨first, stdout, rest ++ [answer], by simp [hanswers], hcount⟩

/-- Time passes. -/
theorem ChaosKill.Sound.mono (h : k.Sound opts now c) (hle : now ≤ now') : k.Sound opts now' c := by
  unfold ChaosKill.Sound at h ⊢
  cases hphase : k.phase with
  | killing =>
    rw [hphase] at h
    exact ⟨h.1, h.2.1, h.2.2.1, h.2.2.2.trans hle⟩
  | confirming =>
    rw [hphase] at h
    exact ⟨h.1, h.2.1, h.2.2.1, h.2.2.2.trans hle⟩
  | delaying wakeAt =>
    rw [hphase] at h
    exact h
  | starting =>
    rw [hphase] at h
    exact ⟨h.1, h.2.1, h.2.2.1, h.2.2.2.trans hle⟩
  | recovering err =>
    rw [hphase] at h
    exact ⟨h.1, h.2.1, h.2.2.1, h.2.2.2.trans hle⟩
  | counting =>
    rw [hphase] at h
    obtain ⟨hresult, polls, hpos, hpolled⟩ := h
    exact ⟨hresult, polls, hpos, hpolled.mono hle⟩
  | pausing wakeAt =>
    rw [hphase] at h
    exact h
  | fulfilled r =>
    rw [hphase] at h
    obtain ⟨hresult, polls, hpos, hpolled, hrest⟩ := h
    exact ⟨hresult, polls, hpos, hpolled.mono hle, hrest⟩
  | rejected message =>
    rw [hphase] at h
    exact h

/-- The commands up to an `await` of a command. -/
theorem ChaosKill.Sound.commands (h : k.Sound opts now c) (hexecutes : k.phase.executes = true) :
    c.result = none ∧ c.commands ≠ [] ∧ ∃ attempts polls, attempts ≤ 2 ∧ polls ≤ 60 ∧
      c.commands <+: restartCommands k.replicaCount attempts polls := by
  unfold ChaosKill.Sound at h
  have hsent : ∀ n attempts polls, [DockerCommand.kill] <+: restartCommands n attempts polls ∧
      [DockerCommand.kill, .ps] <+: restartCommands n attempts polls := by
    intro n attempts polls
    exact ⟨⟨_, rfl⟩, ⟨_, rfl⟩⟩
  cases hphase : k.phase with
  | killing =>
    rw [hphase] at h
    exact ⟨h.2.2.1, by simp [h.1], 0, 0, by omega, by omega, h.1 ▸ (hsent _ 0 0).1⟩
  | confirming =>
    rw [hphase] at h
    exact ⟨h.2.2.1, by simp [h.1], 0, 0, by omega, by omega, h.1 ▸ (hsent _ 0 0).2⟩
  | starting =>
    rw [hphase] at h
    exact ⟨h.2.2.1, by simp [h.1, restartCommands], 1, 0, by omega, by omega, h.1 ▸ List.prefix_rfl⟩
  | recovering err =>
    rw [hphase] at h
    exact ⟨h.2.2.1, by simp [h.1, restartCommands], 2, 0, by omega, by omega, h.1 ▸ List.prefix_rfl⟩
  | counting =>
    rw [hphase] at h
    obtain ⟨hresult, polls, -, hpolled⟩ := h
    obtain ⟨attempts, -, hle, hcommands⟩ := hpolled.commands
    exact ⟨hresult, by simp [hcommands, restartCommands], attempts, polls, hle, hpolled.polls,
      hcommands ▸ List.prefix_rfl⟩
  | delaying wakeAt => simp [KillPhase.executes, hphase] at hexecutes
  | pausing wakeAt => simp [KillPhase.executes, hphase] at hexecutes
  | fulfilled r => simp [KillPhase.executes, hphase] at hexecutes
  | rejected message => simp [KillPhase.executes, hphase] at hexecutes

/-- What follows an `await`: the kill is where it is, for the same delivery and as many workers. -/
structure ChaosKill.Goes (opts : ChaosOpts) (now : ℤ) (k : ChaosKill) (c c' : Chaos) : Prop where
  triggered : c'.triggered = c.triggered
  goes : ∃ k', c'.triggerPromise = some k' ∧ k'.deliveryIndex = k.deliveryIndex ∧
    k'.replicaCount = k.replicaCount ∧ k'.Sound opts now c'

/-- **The kill fails** at the `await` of a command. -/
theorem ChaosKill.Sound.reject (h : k.Sound opts now c) (hexecutes : k.phase.executes = true)
    (answer : Except String String) (message : String) :
    k.Goes opts now c ({ c with answers := c.answers ++ [answer] }.await k (.rejected message)) :=
  ⟨rfl, _, rfl, rfl, rfl, h.commands hexecutes⟩

/-- **The loop goes on**, or the kill fails. -/
theorem ChaosKill.Polled.loop (hresult : c.result = none) (hrunning : k.runningCount < k.replicaCount ∨ polls = 0)
    (hfresh : polls = 0 → k.restartDeadline = now + 30000) (hcommands : ∃ attempts, 1 ≤ attempts ∧ attempts ≤ 2 ∧
      c.commands = restartCommands k.replicaCount attempts polls)
    (hconfirmed : c.Confirmed) (hdelayed : k.downStart + opts.restartDelayMs ≤ now)
    (hpaused : k.restartDeadline - 30000 + 500 * (polls : ℤ) ≤ now) (hpolls : polls ≤ 60) :
    k.Goes opts now c (c.loop k now) := by
  obtain ⟨attempts, hpos, hle, hcommands⟩ := hcommands
  unfold Chaos.loop
  split
  next hlt =>
    refine ⟨rfl, _, rfl, rfl, rfl, hresult, polls + 1, by omega, ⟨attempts, hpos, hle, ?_⟩, hconfirmed, hdelayed, ?_, ?_⟩
    · show c.commands ++ [DockerCommand.ps] = _
      rw [hcommands, restartCommands, restartCommands, List.replicate_succ', List.append_assoc,
        List.append_assoc]
    · push_cast
      linarith
    · omega
  next hge =>
    have hpos' : polls ≠ 0 := fun hzero => hge (by rw [hfresh hzero]; omega)
    have hless : k.runningCount < k.replicaCount := hrunning.resolve_right hpos'
    rw [Chaos.finish, if_pos hless]
    refine ⟨rfl, _, rfl, rfl, rfl, hresult, ?_, attempts, polls, hle, hpolls, ?_⟩
    · show c.commands ≠ []
      simp [hcommands, restartCommands]
    · exact hcommands ▸ List.prefix_rfl

/-- **A command has been executed.** -/
theorem ChaosKill.Sound.answered (h : k.Sound opts now c) (hexecutes : k.phase.executes = true)
    (answer : Except String String) : k.Goes opts now c (c.answered opts now k answer) := by
  have hreject := h.reject hexecutes answer
  -- after the workers have been restarted
  have hrestarted : ∀ attempts, 1 ≤ attempts → attempts ≤ 2 → c.result = none → c.Confirmed →
      c.commands = restartCommands k.replicaCount attempts 0 → k.downStart + opts.restartDelayMs ≤ now →
      k.Goes opts now c ({ c with answers := c.answers ++ [answer] }.restarted k now) := by
    intro attempts hpos hle hresult hconfirmed hcommands hdelayed
    let k₀ : ChaosKill := { k with restartDeadline := now + 30000, runningCount := 0 }
    let c₀ : Chaos := { c with answers := c.answers ++ [answer] }
    have hloop : k₀.Goes opts now c₀ (c₀.loop k₀ now) :=
      ChaosKill.Polled.loop hresult (.inr rfl) (fun _ => rfl) ⟨attempts, hpos, hle, hcommands⟩
        (hconfirmed.answered answer) hdelayed (by simp [k₀]) (by omega)
    exact ⟨hloop.triggered, hloop.goes⟩
  unfold ChaosKill.Sound at h
  unfold Chaos.answered
  cases hphase : k.phase with
  | killing =>
    rw [hphase] at h
    obtain ⟨hcommands, hanswers, hresult, hstart⟩ := h
    cases answer with
    | error err => exact hreject err
    | ok stdout =>
      refine ⟨rfl, _, rfl, rfl, rfl, ?_, ⟨.ok stdout, ?_⟩, hresult, hstart⟩
      · show c.commands ++ [DockerCommand.ps] = _
        rw [hcommands]
        rfl
      · show c.answers ++ [Except.ok stdout] = _
        rw [hanswers]
        rfl
  | confirming =>
    rw [hphase] at h
    obtain ⟨hcommands, ⟨first, hanswers⟩, hresult, hstart⟩ := h
    cases answer with
    | error err => exact hreject err
    | ok stdout =>
      show k.Goes opts now c (if countRunningWorkers stdout > 0 then _ else _)
      split
      next => exact hreject _
      next hzero =>
        refine ⟨rfl, _, rfl, rfl, rfl, hcommands, ⟨first, stdout, [], ?_, by omega⟩, hresult, ?_⟩
        · show c.answers ++ [Except.ok stdout] = _
          rw [hanswers]
          rfl
        · show k.downStart + _ ≤ now + _
          omega
  | starting =>
    rw [hphase] at h
    obtain ⟨hcommands, hconfirmed, hresult, hdelayed⟩ := h
    cases answer with
    | error err =>
      refine ⟨rfl, _, rfl, rfl, rfl, ?_, hconfirmed.answered _, hresult, hdelayed⟩
      show c.commands ++ [DockerCommand.up k.replicaCount] = _
      rw [hcommands]
      rfl
    | ok stdout => exact hrestarted 1 le_rfl (by omega) hresult hconfirmed hcommands hdelayed
  | recovering err =>
    rw [hphase] at h
    obtain ⟨hcommands, hconfirmed, hresult, hdelayed⟩ := h
    cases answer with
    | error err' => exact hreject _
    | ok stdout => exact hrestarted 2 (by omega) le_rfl hresult hconfirmed hcommands hdelayed
  | counting =>
    rw [hphase] at h
    obtain ⟨hresult, polls, hpos, hcommands, hconfirmed, hdelayed, hpaused, hpolls⟩ := h
    cases answer with
    | error err => exact hreject err
    | ok stdout =>
      have hconfirmed' := hconfirmed.answered (.ok stdout)
      show k.Goes opts now c (if countRunningWorkers stdout ≥ k.replicaCount then _ else _)
      split
      next hge =>
        rw [Chaos.finish, if_neg (by simpa using hge)]
        refine ⟨rfl, _, rfl, rfl, rfl, rfl, polls, hpos, ⟨hcommands, hconfirmed', hdelayed, hpaused, hpolls⟩, rfl, rfl,
          rfl, rfl, rfl, hge, ?_, stdout, ?_, rfl⟩
        · show (opts.restartDelayMs : ℤ) ≤ now - k.downStart
          omega
        · exact List.getLast?_concat
      next hlt =>
        have htime : now + 500 - 500 = now := by omega
        refine ⟨rfl, _, rfl, rfl, rfl, hresult, by simpa using hlt, polls, hpos, hcommands, hconfirmed', ?_, ?_, hpolls⟩
        · rw [htime]
          exact hdelayed
        · rw [htime]
          exact hpaused
  | delaying wakeAt => simp [KillPhase.executes, hphase] at hexecutes
  | pausing wakeAt => simp [KillPhase.executes, hphase] at hexecutes
  | fulfilled r => simp [KillPhase.executes, hphase] at hexecutes
  | rejected message => simp [KillPhase.executes, hphase] at hexecutes

/-- **A timer has fired.** -/
theorem ChaosKill.Sound.woken {wakeAt : ℤ} (h : k.Sound opts now c) (hwake : k.phase.wakeAt? = some wakeAt)
    (hlate : wakeAt ≤ now) : k.Goes opts now c (c.woken now k) := by
  unfold ChaosKill.Sound at h
  unfold Chaos.woken
  cases hphase : k.phase with
  | delaying wakeAt' =>
    rw [hphase] at h
    obtain ⟨hcommands, hconfirmed, hresult, hdelayed⟩ := h
    obtain rfl : wakeAt' = wakeAt := by simpa [KillPhase.wakeAt?, hphase] using hwake
    refine ⟨rfl, _, rfl, rfl, rfl, ?_, hconfirmed, hresult, hdelayed.trans hlate⟩
    show c.commands ++ [DockerCommand.up k.replicaCount] = _
    rw [hcommands]
    rfl
  | pausing wakeAt' =>
    rw [hphase] at h
    obtain ⟨hresult, hrunning, polls, hpos, hpolled⟩ := h
    obtain rfl : wakeAt' = wakeAt := by simpa [KillPhase.wakeAt?, hphase] using hwake
    have hdelayed := hpolled.delayed
    have hpaused := hpolled.paused
    refine ChaosKill.Polled.loop hresult (.inl hrunning) (fun hzero => ?_) hpolled.commands hpolled.confirmed ?_ ?_
      hpolled.polls
    · omega
    · omega
    · omega
  | _ => simp [KillPhase.wakeAt?, hphase] at hwake

end Kill

/-- **What holds of the coordinator** after some deliveries. -/
structure Chaos.Sound (opts : ChaosOpts) (deliveries : List ℕ) (now : ℤ) (c : Chaos) : Prop where
  triggered : c.triggered = true ↔ opts.killAt ∈ deliveries
  idle : c.triggered = false → c = .start
  busy : c.triggered = true → ∃ k, c.triggerPromise = some k ∧ k.deliveryIndex = opts.killAt ∧ k.Sound opts now c

variable {opts : ChaosOpts} {deliveries : List ℕ} {now now' : ℤ} {c c' : Chaos} {k : ChaosKill}

/-- Who awaits something has been triggered. -/
theorem Chaos.Sound.kill (h : c.Sound opts deliveries now) (hk : c.triggerPromise = some k) :
    c.triggered = true ∧ k.deliveryIndex = opts.killAt ∧ k.Sound opts now c := by
  have htriggered : c.triggered = true := by
    by_contra hfalse
    rw [h.idle (by simpa using hfalse)] at hk
    cases hk
  obtain ⟨k', hk', hrest⟩ := h.busy htriggered
  rw [hk, Option.some_inj] at hk'
  exact ⟨htriggered, hk' ▸ hrest⟩

/-- A kill that goes on. -/
theorem Chaos.Sound.goes (h : c.Sound opts deliveries now) (hk : c.triggerPromise = some k)
    (hgoes : k.Goes opts now' c c') : c'.Sound opts deliveries now' := by
  obtain ⟨htriggered, hindex, -⟩ := h.kill hk
  obtain ⟨hsame, k', hk', hindex', -, hsound⟩ := hgoes
  refine ⟨hsame ▸ h.triggered, fun hfalse => ?_, fun _ => ⟨k', hk', hindex'.trans hindex, hsound⟩⟩
  rw [hsame, htriggered] at hfalse
  cases hfalse

/-- **What holds at each `await`** of a run. -/
theorem ChaosRun.sound (h : ChaosRun opts deliveries now c) : c.Sound opts deliveries now := by
  induction h with
  | start now => exact ⟨by simp [Chaos.start], fun _ => rfl, fun htriggered => by cases htriggered⟩
  | @delivered deliveries now now' c deliveryCount replicaCount _ hnow ih =>
    have hkept : (c.triggered = true ↔ opts.killAt ∈ deliveries ++ [deliveryCount]) →
        c.Sound opts (deliveries ++ [deliveryCount]) now' := fun htriggered =>
      ⟨htriggered, ih.idle, fun ht => (ih.busy ht).imp fun k hk => ⟨hk.1, hk.2.1, hk.2.2.mono hnow⟩⟩
    unfold Chaos.onDeliveryComplete
    split
    next hat =>
      refine hkept (ih.triggered.trans ?_)
      simp [Ne.symm hat]
    next hat =>
      obtain rfl := not_not.mp hat
      split
      next htriggered => exact hkept (by simp [htriggered])
      next htriggered =>
        obtain rfl := ih.idle (by simpa using htriggered)
        refine ⟨by simp [Chaos.exec, Chaos.await], fun hfalse => ?_, fun _ => ⟨_, rfl, rfl, rfl, rfl, rfl, le_rfl⟩⟩
        cases hfalse
  | @answered deliveries now now' c k answer _ hnow hk hexecutes ih =>
    exact ih.goes hk (((ih.kill hk).2.2.mono hnow).answered hexecutes answer)
  | @woken deliveries now now' wakeAt c k _ hnow hk hwake hlate ih =>
    exact ih.goes hk (((ih.kill hk).2.2.mono hnow).woken hwake hlate)

/-- What a kill has executed. -/
theorem ChaosKill.Sound.executed (h : k.Sound opts now c) : c.commands ≠ [] ∧ ∃ attempts polls,
    attempts ≤ 2 ∧ polls ≤ 60 ∧ c.commands <+: restartCommands k.replicaCount attempts polls := by
  by_cases hexecutes : k.phase.executes = true
  · exact (h.commands hexecutes).2
  have hpolled : ∀ {polls time}, k.Polled opts c polls time → c.commands ≠ [] ∧ ∃ attempts polls, attempts ≤ 2 ∧
      polls ≤ 60 ∧ c.commands <+: restartCommands k.replicaCount attempts polls := by
    intro polls time hpolled
    obtain ⟨attempts, -, hle, hcommands⟩ := hpolled.commands
    exact ⟨by simp [hcommands, restartCommands], attempts, polls, hle, hpolled.polls, hcommands ▸ List.prefix_rfl⟩
  unfold ChaosKill.Sound at h
  cases hphase : k.phase with
  | delaying wakeAt =>
    rw [hphase] at h
    exact ⟨by simp [h.1], 0, 0, by omega, by omega, h.1 ▸ List.prefix_rfl⟩
  | pausing wakeAt =>
    rw [hphase] at h
    obtain ⟨-, -, polls, -, h⟩ := h
    exact hpolled h
  | fulfilled r =>
    rw [hphase] at h
    obtain ⟨-, polls, -, h, -⟩ := h
    exact hpolled h
  | rejected message =>
    rw [hphase] at h
    exact h.2
  | _ => simp [KillPhase.executes, hphase] at hexecutes

/-- A result is that of a promise which has been fulfilled. -/
theorem ChaosKill.Sound.fulfilled (h : k.Sound opts now c) {r : ChaosResult} (hr : c.result = some r) :
    k.phase = .fulfilled r := by
  unfold ChaosKill.Sound at h
  have hnone : c.result ≠ none := by simp [hr]
  cases hphase : k.phase with
  | fulfilled r' =>
    rw [hphase] at h
    rw [Option.some.inj (h.1.symm.trans hr)]
  | killing =>
    rw [hphase] at h
    exact absurd h.2.2.1 hnone
  | confirming =>
    rw [hphase] at h
    exact absurd h.2.2.1 hnone
  | delaying wakeAt =>
    rw [hphase] at h
    exact absurd h.2.2.1 hnone
  | starting =>
    rw [hphase] at h
    exact absurd h.2.2.1 hnone
  | recovering err =>
    rw [hphase] at h
    exact absurd h.2.2.1 hnone
  | counting =>
    rw [hphase] at h
    exact absurd h.1 hnone
  | pausing wakeAt =>
    rw [hphase] at h
    exact absurd h.1 hnone
  | rejected message =>
    rw [hphase] at h
    exact absurd h.1 hnone

/-- **A result confirms the kill and the restart.** -/
theorem ChaosRun.confirmed (h : ChaosRun opts deliveries now c) {r : ChaosResult} (hr : c.result = some r) :
    r.killConfirmed = true ∧ r.restartConfirmed = true := by
  have hsound := h.sound
  have htriggered : c.triggered = true := by
    by_contra hfalse
    rw [hsound.idle (by simpa using hfalse)] at hr
    cases hr
  obtain ⟨k, -, -, hkill⟩ := hsound.busy htriggered
  have hphase := hkill.fulfilled hr
  unfold ChaosKill.Sound at hkill
  rw [hphase] at hkill
  obtain ⟨-, polls, -, -, -, -, hconfirmed, hrestarted, -⟩ := hkill
  exact ⟨hconfirmed, hrestarted⟩

end PaymentWebhook
