import PaymentWebhook.Queries
import PaymentWebhook.Worker
import PaymentWebhook.WorkerLoop

set_option relaxedAutoImplicit false
set_option autoImplicit false

/-!
# Configuration of the worker

`workerConfig` reads five integers from the environment.  A worker does not start with settings that it refuses, so
that every worker there is has a `WorkerConfig`.

## Main definitions

* `PaymentWebhook.workerConfig` — the settings, or the message of the error.

## Main results

* `PaymentWebhook.workerConfig_ok_iff` — which settings are accepted.
* `PaymentWebhook.workerConfig_error` — what is refused is named.
-/

namespace PaymentWebhook

/-- The variables of the environment. -/
abbrev ProcessEnv := String → Option String

/-- The settings of a worker. -/
structure WorkerSettings where
  delays : LoopDelays
  config : WorkerConfig

/-- The value that is parsed for a setting. -/
def settingOf (env : ProcessEnv) (name fallback : String) : Option ℤ := jsParseInt ((env name).getD fallback)

/-- The message about a setting; a variable that is not set is `undefined`. -/
def settingError (env : ProcessEnv) (name least : String) : String :=
  "Invalid " ++ name ++ ": must be >= " ++ least ++ ", got \"" ++ (env name).getD "undefined" ++ "\""

/-- The check of a setting, with the text that stands for its bound. -/
def checkSetting (env : ProcessEnv) (name fallback : String) (bound : ℕ) (least : String) :
    Except String { n : ℕ // bound ≤ n } :=
  match settingOf env name fallback with
  | some (.ofNat n) => if h : bound ≤ n then .ok ⟨n, h⟩ else .error (settingError env name least)
  | _ => .error (settingError env name least)

/-- **`workerConfig`**. -/
def workerConfig (env : ProcessEnv) : Except String WorkerSettings := do
  let pollIntervalMs ← checkSetting env "WORKER_POLL_INTERVAL_MS" "100" 1 "1"
  let errorDelayMs ← checkSetting env "WORKER_ERROR_DELAY_MS" "500" 1 "1"
  let maxAttempts ← checkSetting env "WORKER_MAX_ATTEMPTS" "5" 1 "1"
  let retryBaseMs ← checkSetting env "WORKER_RETRY_BASE_MS" "500" 1 "1"
  let retryMaxMs ← checkSetting env "WORKER_RETRY_MAX_MS" "30000" retryBaseMs.val
    ("WORKER_RETRY_BASE_MS (" ++ toString retryBaseMs.val ++ ")")
  pure
    { delays := ⟨pollIntervalMs.val, errorDelayMs.val⟩
      config := ⟨maxAttempts.val, retryBaseMs.val, retryMaxMs.val, maxAttempts.property, retryBaseMs.property,
        retryMaxMs.property⟩ }

variable {env : ProcessEnv}

/-- Which values pass the check. -/
theorem checkSetting_ok_iff {name fallback least : String} {bound : ℕ} {n : { n : ℕ // bound ≤ n }} :
    checkSetting env name fallback bound least = .ok n ↔ settingOf env name fallback = some (n.val : ℤ) := by
  unfold checkSetting
  obtain ⟨n, hn⟩ := n
  split
  next value h =>
    rw [h, Option.some_inj]
    split_ifs with hle
    · simp only [Except.ok.injEq, Subtype.mk.injEq, Int.ofNat_eq_natCast]
      omega
    · simp only [Int.ofNat_eq_natCast, false_iff]
      omega
  next h =>
    constructor
    · intro hok
      cases hok
    · exact fun hsome => absurd hsome (h n)

/-- A value that does not pass is named. -/
theorem checkSetting_error {name fallback least message : String} {bound : ℕ}
    (h : checkSetting env name fallback bound least = .error message) : message = settingError env name least := by
  unfold checkSetting at h
  split at h
  · split_ifs at h
    exact (Except.error.inj h).symm
  · exact (Except.error.inj h).symm

section Bind

variable {ε α β : Type} {x : Except ε α} {f : α → Except ε β}

/-- A computation that has not failed has not failed on its way. -/
theorem bind_eq_ok_iff {b : β} : (x >>= f) = .ok b ↔ ∃ a, x = .ok a ∧ f a = .ok b := by
  cases x with
  | error e =>
    constructor
    · intro h
      cases h
    · rintro ⟨a, h, -⟩
      cases h
  | ok a =>
    constructor
    · exact fun h => ⟨a, rfl, h⟩
    · rintro ⟨a', h, h'⟩
      obtain rfl := Except.ok.inj h
      exact h'

/-- A computation that has failed has failed at once or later. -/
theorem bind_eq_error_iff {e : ε} : (x >>= f) = .error e ↔ x = .error e ∨ ∃ a, x = .ok a ∧ f a = .error e := by
  cases x with
  | error e' =>
    constructor
    · intro h
      exact .inl (congrArg Except.error (Except.error.inj h))
    · rintro (h | ⟨a, h, -⟩)
      · obtain rfl := Except.error.inj h
        rfl
      · cases h
  | ok a =>
    constructor
    · exact fun h => .inr ⟨a, rfl, h⟩
    · rintro (h | ⟨a', h, h'⟩)
      · cases h
      · obtain rfl := Except.ok.inj h
        exact h'

end Bind

/-- **Which settings are accepted**: five integers, each of them at least one, and the greatest delay between two
attempts at least the first one. -/
theorem workerConfig_ok_iff {settings : WorkerSettings} : workerConfig env = .ok settings ↔
    settingOf env "WORKER_POLL_INTERVAL_MS" "100" = some (settings.delays.pollIntervalMs : ℤ) ∧
    settingOf env "WORKER_ERROR_DELAY_MS" "500" = some (settings.delays.errorDelayMs : ℤ) ∧
    settingOf env "WORKER_MAX_ATTEMPTS" "5" = some (settings.config.maxAttempts : ℤ) ∧
    settingOf env "WORKER_RETRY_BASE_MS" "500" = some (settings.config.retryBaseMs : ℤ) ∧
    settingOf env "WORKER_RETRY_MAX_MS" "30000" = some (settings.config.retryMaxMs : ℤ) ∧
    1 ≤ settings.delays.pollIntervalMs ∧ 1 ≤ settings.delays.errorDelayMs := by
  simp only [workerConfig, bind_eq_ok_iff, checkSetting_ok_iff]
  constructor
  · rintro ⟨poll, hpoll, delay, hdelay, attempts, hattempts, base, hbase, greatest, hgreatest, hsettings⟩
    obtain rfl := Except.ok.inj hsettings
    exact ⟨hpoll, hdelay, hattempts, hbase, hgreatest, poll.property, delay.property⟩
  · rintro ⟨hpoll, hdelay, hattempts, hbase, hgreatest, hpositive, hpositive'⟩
    exact ⟨⟨_, hpositive⟩, hpoll, ⟨_, hpositive'⟩, hdelay, ⟨_, settings.config.one_le_maxAttempts⟩, hattempts,
      ⟨_, settings.config.one_le_retryBaseMs⟩, hbase, ⟨_, settings.config.retryBaseMs_le_retryMaxMs⟩, hgreatest, rfl⟩

/-- **What is refused is named**, with its value. -/
theorem workerConfig_error {message : String} (h : workerConfig env = .error message) :
    ∃ name ∈ ["WORKER_POLL_INTERVAL_MS", "WORKER_ERROR_DELAY_MS", "WORKER_MAX_ATTEMPTS", "WORKER_RETRY_BASE_MS",
      "WORKER_RETRY_MAX_MS"], ∃ least, message = settingError env name least := by
  simp only [workerConfig, bind_eq_error_iff] at h
  rcases h with h | ⟨_, -, h | ⟨_, -, h | ⟨_, -, h | ⟨_, -, h | ⟨_, -, h⟩⟩⟩⟩⟩
  · exact ⟨_, by simp, _, checkSetting_error h⟩
  · exact ⟨_, by simp, _, checkSetting_error h⟩
  · exact ⟨_, by simp, _, checkSetting_error h⟩
  · exact ⟨_, by simp, _, checkSetting_error h⟩
  · exact ⟨_, by simp, _, checkSetting_error h⟩
  · cases h

/-- The defaults are accepted. -/
theorem workerConfig_default : workerConfig (fun _ => none) = .ok ⟨⟨100, 500⟩, .default⟩ :=
  workerConfig_ok_iff.mpr ⟨by decide, by decide, by decide, by decide, by decide, by decide, by decide⟩

end PaymentWebhook
