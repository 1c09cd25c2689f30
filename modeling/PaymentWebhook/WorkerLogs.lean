import PaymentWebhook.Attempts
import PaymentWebhook.ErrorSinks
import PaymentWebhook.Feeds
import PaymentWebhook.OrderReads

set_option relaxedAutoImplicit false
set_option autoImplicit false

/-!
# The log of the workers

After each `processOne`, `tick` of the worker loop writes a line about the event, or the loop one about the error.  What
the lines of all workers say is compared with what the workers have committed.

## Main definitions

* `PaymentWebhook.WorkerLoopService.tick` — the line about an event.
* `PaymentWebhook.Processed.report` — which of the three lines it is.
* `PaymentWebhook.EventRow.reports` — how many lines the columns of an event stand for.
* `PaymentWebhook.Working` — the turns of all workers.

## Main results

* `PaymentWebhook.Change.reports_balanced` — every change keeps the ledger of the reports balanced.
* `PaymentWebhook.worker_log_accounting` — what the lines tell of an event.
-/

namespace PaymentWebhook

open Transactions Ledger

/-! ## The fields of a line -/

/-- A field leaves the members of other names alone. -/
theorem find_writeExtra_of_ne {entry : List (String × Json)} {x : String × Extra} {key : String} (hne : key ≠ x.1)
    (herror : key ∉ errorFields) :
    (writeExtra entry x).find? (fun m => m.1 = key) = entry.find? (fun m => m.1 = key) := by
  obtain ⟨key', value⟩ := x
  obtain ⟨hmessage, hname⟩ : key ≠ "error_message" ∧ key ≠ "error_name" := by simpa [errorFields] using herror
  simp only [writeExtra]
  split
  next => rfl
  next =>
  split
  next => rfl
  next =>
    cases value with
    | undefined => rfl
    | error name message =>
      simp only [safeSerializeError, List.foldl_cons, List.foldl_nil]
      rw [find_assign hname, find_assign hmessage]
    | json value => exact find_assign hne

/-- **A field reaches the line** if the logger lets it pass and it is not one of an error. -/
theorem StructuredLogger.write_field {service timestamp event : String} {level : LogLevel} {extras : Extras}
    {key : String} {value : Json} (hmem : (key, .json value) ∈ extras.entries) (hkey : admitted key = true)
    (hproto : key ≠ "__proto__") (herror : key ∉ errorFields) :
    (write service timestamp level event (some extras)).2.get? key = some value := by
  obtain ⟨before, after, hsplit⟩ := List.append_of_mem hmem
  have hnodup := extras.nodup
  rw [hsplit, List.map_append, List.map_cons, List.nodup_append, List.nodup_cons] at hnodup
  obtain ⟨-, ⟨hafter, -⟩, -⟩ := hnodup
  rw [admitted, Bool.and_eq_true, decide_eq_true_eq, Bool.not_eq_true'] at hkey
  rw [write_eq, Option.elim_some, hsplit, List.foldl_append, List.foldl_cons]
  generalize before.foldl writeExtra _ = entry
  have hthere : (writeExtra entry (key, .json value)).find? (fun m => m.1 = key) = some (key, value) := by
    simp only [writeExtra, if_neg hkey.1, hkey.2, Bool.false_eq_true, if_false]
    exact find_assign_self hproto
  suffices hkept : ∀ entry : List (String × Json), (after.foldl writeExtra entry).find? (fun m => m.1 = key) =
      entry.find? (fun m => m.1 = key) by
    rw [Json.get?, hkept, hthere]
    rfl
  intro entry
  clear hsplit
  induction after generalizing entry with
  | nil => rfl
  | cons x after ih =>
    rw [List.map_cons, List.mem_cons, not_or] at hafter
    rw [List.foldl_cons, ih hafter.2, find_writeExtra_of_ne hafter.1 herror]

/-! ## The lines of a worker -/

/-- `ProcessOneResult.outcome`, as a text. -/
def WorkerOutcome.text : WorkerOutcome → String
  | applied => "APPLIED"
  | ignored => "IGNORED"
  | retryScheduled => "RETRY_SCHEDULED"
  | dlq => "DLQ"

/-- `outcome_reason`, as a text. -/
def OutcomeReason.text : OutcomeReason → String
  | staleTimestamp => "STALE_TIMESTAMP"
  | staleSequence => "STALE_SEQUENCE"
  | unknownEventType => "UNKNOWN_EVENT_TYPE"
  | transientError => "TRANSIENT_ERROR"
  | maxAttemptsExhausted => "MAX_ATTEMPTS_EXHAUSTED"
  | providerSourceOfTruth => "PROVIDER_SOURCE_OF_TRUTH"

/-- `baseFields`. -/
def baseFields (workerId : String) (p : Processed) : List (String × Extra) :=
  [("worker_id", .json (.str workerId)), ("event_id", .json (.str p.eventId)), ("order_id", .json (.str p.orderId)),
    ("correlation_id", .json (.str p.correlationId)), ("sequence", .json (.num p.sequence))]

/-- **`tick`** after `processOne` has answered: its line, and whether an event was found. -/
def WorkerLoopService.tick (toISOString : Timestamp → String) (timestamp workerId : String) :
    ProcessOneResult → Option (LogStream × Json) × Bool
  | .notFound => (none, false)
  | .found p =>
    let write (level : LogLevel) (event : String) (extras : Extras) :=
      (some (StructuredLogger.write "worker" timestamp level event (some extras)), true)
    match p.outcome with
    | .applied | .ignored =>
      write .info "worker.processing_completed"
        { entries := baseFields workerId p ++ [("outcome", .json (.str p.outcome.text)),
            ("outcome_reason", p.outcomeReason.elim .undefined fun reason => .json (.str reason.text))]
          nodup := by simp [baseFields] }
    | .retryScheduled =>
      write .warn "worker.retry_scheduled"
        { entries := baseFields workerId p ++ [("attempt_count", .json (.num p.attemptCount)),
            ("next_attempt_at", p.nextAttemptAt.elim .undefined fun next => .json (.str (toISOString next)))]
          nodup := by simp [baseFields] }
    | .dlq =>
      write .error "worker.moved_to_dlq"
        { entries := baseFields workerId p ++ [("attempt_count", .json (.num p.attemptCount))]
          nodup := by simp [baseFields] }

/-- The lines about an event. -/
inductive Report where
  | completed | retried | buried
  deriving DecidableEq, Repr

/-- The `event` of such a line. -/
def Report.event : Report → String
  | completed => "worker.processing_completed"
  | retried => "worker.retry_scheduled"
  | buried => "worker.moved_to_dlq"

/-- The line that an outcome calls for. -/
def Processed.report (p : Processed) : Report :=
  match p.outcome with
  | .applied | .ignored => .completed
  | .retryScheduled => .retried
  | .dlq => .buried

/-- **The line says which event it is about and what has become of it.** -/
structure Processed.ToldBy (p : Processed) (line : Json) : Prop where
  event : line.get? "event" = some (.str p.report.event)
  eventId : line.get? "event_id" = some (.str p.eventId)
  orderId : line.get? "order_id" = some (.str p.orderId)
  correlationId : line.get? "correlation_id" = some (.str p.correlationId)
  sequence : line.get? "sequence" = some (.num p.sequence)
  outcome : p.report = .completed → line.get? "outcome" = some (.str p.outcome.text)

/-- The names of the fields that say what has become of an event. -/
def lineFields : List String :=
  ["worker_id", "event_id", "order_id", "correlation_id", "sequence", "outcome", "outcome_reason", "attempt_count",
    "next_attempt_at"]

/-- The logger lets them pass. -/
theorem lineFields_admitted : ∀ key ∈ lineFields, admitted key = true ∧ key ≠ "__proto__" ∧ key ∉ errorFields := by
  decide

/-- A line with the fields of an event says which event it is about. -/
theorem Processed.toldBy {p : Processed} {timestamp workerId : String} {level : LogLevel} {extras : Extras}
    {rest : List (String × Extra)} (hentries : extras.entries = baseFields workerId p ++ rest)
    (houtcome : p.report = .completed → ("outcome", .json (.str p.outcome.text)) ∈ rest) :
    p.ToldBy (StructuredLogger.write "worker" timestamp level p.report.event (some extras)).2 := by
  have hfield : ∀ key value, (key, .json value) ∈ extras.entries → key ∈ lineFields →
      (StructuredLogger.write "worker" timestamp level p.report.event (some extras)).2.get? key = some value := by
    intro key value hmem hkey
    obtain ⟨hadmitted, hproto, herror⟩ := lineFields_admitted key hkey
    exact StructuredLogger.write_field hmem hadmitted hproto herror
  refine ⟨StructuredLogger.write_own (by decide), hfield _ _ ?_ (by decide), hfield _ _ ?_ (by decide),
    hfield _ _ ?_ (by decide), hfield _ _ ?_ (by decide), fun h => hfield _ _ ?_ (by decide)⟩
  · simp [hentries, baseFields]
  · simp [hentries, baseFields]
  · simp [hentries, baseFields]
  · simp [hentries, baseFields]
  · rw [hentries]
    exact List.mem_append_right _ (houtcome h)

/-- **Every event that was found gets its line.** -/
theorem tick_found (toISOString : Timestamp → String) (timestamp workerId : String) (p : Processed) :
    ∃ line, (WorkerLoopService.tick toISOString timestamp workerId (.found p)).1 = some line ∧ p.ToldBy line.2 := by
  obtain ⟨eventId, orderId, outcome, reason, correlationId, sequence, attempts, next⟩ := p
  cases outcome with
  | applied => exact ⟨_, rfl, Processed.toldBy rfl fun _ => List.mem_cons_self⟩
  | ignored => exact ⟨_, rfl, Processed.toldBy rfl fun _ => List.mem_cons_self⟩
  | retryScheduled => exact ⟨_, rfl, Processed.toldBy rfl Report.noConfusion⟩
  | dlq => exact ⟨_, rfl, Processed.toldBy rfl Report.noConfusion⟩

/-! ## What the journal says -/

section Journal

variable [Platform]

/-- What the log of a worker reports: the answer of its call. -/
def report? : Log → Option Processed
  | [⟨.claim, _, some e, _⟩, ⟨.markRetryScheduled _ n next _, _, _, _⟩] =>
    some ⟨e.eventId, e.orderId, .retryScheduled, some .transientError, e.correlationId, e.sequence, n, some next⟩
  | [⟨.claim, _, some e, _⟩, ⟨.markDlq _ n _, _, _, _⟩] =>
    some ⟨e.eventId, e.orderId, .dlq, some .maxAttemptsExhausted, e.correlationId, e.sequence, n, none⟩
  | [⟨.claim, _, some e, _⟩, _, _, _, ⟨.markIgnored _ reason, _, _, _⟩] =>
    some ⟨e.eventId, e.orderId, .ignored, reason, e.correlationId, e.sequence, e.attemptCount, none⟩
  | [⟨.claim, _, some e, _⟩, _, _, _, _, ⟨.markApplied _, _, _, _⟩] =>
    some ⟨e.eventId, e.orderId, .applied, none, e.correlationId, e.sequence, e.attemptCount, none⟩
  | _ => none

/-- **The log of a worker determines its answer.** -/
theorem WorkerLog.answer_eq {cfg : WorkerConfig} {input : WorkerInput} {log : Log} {a : ProcessOneResult}
    (h : WorkerLog cfg input log (some a)) : a = (report? log).elim .notFound .found := by
  generalize hx : some a = x at h
  cases h with
  | idle => exact Option.some.inj hx
  | done h =>
    obtain rfl := Option.some.inj hx
    cases h with
    | applied h =>
      obtain ⟨target, -, -, hprocess⟩ := process_applied h
      rw [hprocess]
      rfl
    | ignored h =>
      obtain ⟨reason, hprocess, -⟩ := process_ignored h
      rw [hprocess]
      rfl
  | retried => exact Option.some.inj hx
  | buried => exact Option.some.inj hx

/-- The event that a log reports in this way. -/
def reported? (r : Report) (log : Log) : Option String :=
  ((report? log).filter fun p => p.report = r).map Processed.eventId

/-- Only workers report. -/
theorem CommitLog.report? {cfg : WorkerConfig} {c : Call} {log : Log} {x : Option Answer} {p : Processed}
    (h : CommitLog cfg c log x) (hp : PaymentWebhook.report? log = some p) : ∃ input, c = .processOne input := by
  cases h with
  | ingest h =>
    cases h
    cases hp
  | processOne h => exact ⟨_, rfl⟩
  | replay h => cases h <;> cases hp
  | reconcile h =>
    cases h
    cases hp

/-- How many reports there have been of an event with these columns. -/
def reportsOf (maxAttempts replays attempts inDlq : ℕ) (finished : Bool) : Report → ℕ
  | .completed => if finished then 1 else 0
  | .retried => (maxAttempts - 1) * replays + (attempts - inDlq)
  | .buried => replays + inDlq

/-- **How many reports the columns of an event stand for.** -/
def EventRow.reports (maxAttempts : ℕ) (e : EventRow) (r : Report) : ℕ :=
  reportsOf maxAttempts e.replayCount e.attemptCount e.inDlq e.finished r

variable {cfg : WorkerConfig} {w : State} {journal : List (ℕ × Log)} {i : ℕ} {log : Log} {s s' : Store}

/-- **The reports of a journal are those that the events state.** -/
abbrev ReportsBalanced (cfg : WorkerConfig) (r : Report) (journal : List (ℕ × Log)) (s : Store) : Prop :=
  Balanced (fun c : ℕ × Log => reported? r c.2) EventRow.eventId (fun e => e.reports cfg.maxAttempts r) journal s.events

/-- A log that reports an event is charged to it. -/
theorem reported?_eq {p : Processed} (hp : report? log = some p) (r : Report) :
    reported? r log = if p.report = r then some p.eventId else none := by
  rw [reported?, hp, Option.filter_some]
  split <;> simp_all

omit [Platform] in
/-- The reports of an event that waits for a worker. -/
theorem EventRow.reports_of_claimable {maxAttempts : ℕ} (e : EventRow) {now : Timestamp}
    (h : e.claimable now = true) (r : Report) :
    e.reports maxAttempts r = reportsOf maxAttempts e.replayCount e.attemptCount 0 false r := by
  rw [EventRow.reports, EventRow.inDlq_of_claimable h, EventRow.not_finished_of_claimable h]

/-- **Every change keeps the ledger of the reports balanced.** -/
theorem Change.reports_balanced {c : Call} {x : Option Answer} (r : Report) (hs : s.Keyed)
    (hconsistent : ∀ e ∈ s.events, e.Consistent cfg.maxAttempts) (h : ReportsBalanced cfg r journal s)
    (hc : Change cfg c log x s s') : ReportsBalanced cfg r (journal ++ [(i, log)]) s' := by
  have hidle : s'.events = s.events → report? log = none → ReportsBalanced cfg r (journal ++ [(i, log)]) s' := by
    intro hevents hreport
    rw [ReportsBalanced, hevents]
    exact h.skip (by simp [reported?, hreport])
  have hquiet : ∀ {e : EventRow}, e ∈ s.events → ∀ e' : EventRow, s'.events = (s.putEvent e').events →
      e.keys = e'.keys → report? log = none → e'.reports cfg.maxAttempts r = e.reports cfg.maxAttempts r →
      ReportsBalanced cfg r (journal ++ [(i, log)]) s' := by
    intro e he e' hevents hkeys hreport hsame
    rw [ReportsBalanced, hevents]
    have heventId : e'.eventId = e.eventId := by simpa [EventRow.keys, eq_comm] using congrArg List.head? hkeys
    exact hs.balanced_putEvent h hs.nodup_eventIds he hkeys heventId (.inl ⟨by simp [reported?, hreport], hsame⟩)
  -- a worker charges the event that it has claimed
  have hclaimed : ∀ {e : EventRow} {p : Processed}, e ∈ s.events → ∀ e' : EventRow,
      s'.events = (s.putEvent e').events → e.keys = e'.keys → report? log = some p → p.eventId = e.eventId →
      e'.reports cfg.maxAttempts r = e.reports cfg.maxAttempts r + (if p.report = r then 1 else 0) →
      ReportsBalanced cfg r (journal ++ [(i, log)]) s' := by
    intro e p he e' hevents hkeys hreport hid hone
    rw [ReportsBalanced, hevents]
    have heventId : e'.eventId = e.eventId := by simpa [EventRow.keys, eq_comm] using congrArg List.head? hkeys
    refine hs.balanced_putEvent h hs.nodup_eventIds he hkeys heventId ?_
    rw [reported?_eq hreport, hid]
    split_ifs at hone ⊢
    · exact .inr ⟨rfl, hone⟩
    · exact .inl ⟨rfl, hone⟩
  cases hc with
  | @created _ req d _ _ occurredAt hnew htime hrow =>
    refine (h.insert (r := req.event.row d.eventId occurredAt) ?_ ?_).skip rfl
    · intro hmem
      obtain ⟨e, he, hid⟩ := List.mem_map.mp hmem
      exact Store.event?_eq_none.mp hnew e he hid
    · have hafter : (req.event.row d.eventId occurredAt).reports cfg.maxAttempts r =
          reportsOf cfg.maxAttempts 0 0 0 false r := by
        rcases req.event_status with ⟨hst, hreason, -⟩ | ⟨hst, hreason, -⟩ <;>
          simp [EventRow.reports, EventRow.finished, EventRow.inDlq, EventInsertParams.row, hst, hreason]
      rw [hafter]
      cases r <;> rfl
  | @counted _ _ _ _ _ old hold hfits hrow =>
    exact hquiet (Store.mem_of_event? hold).1 ({ old with deliveryCount := old.deliveryCount + 1 }) rfl rfl rfl rfl
  | idle => exact hidle rfl rfl
  | @applied _ _ _ _ _ _ _ d₅ _ _ _ _ _ _ _ event _ _ _ hev hclaim =>
    refine hclaimed hev (event.applied d₅) rfl rfl rfl rfl ?_
    have hafter : (event.applied d₅).reports cfg.maxAttempts r =
        reportsOf cfg.maxAttempts event.replayCount event.attemptCount 0 true r := rfl
    rw [hafter, event.reports_of_claimable hclaim]
    cases r <;> rfl
  | @ignored _ _ _ _ _ _ d₅ _ _ _ _ _ _ event _ reason hev hclaim hopen hreason =>
    refine hclaimed hev (event.ignored (some reason) d₅) rfl rfl rfl rfl ?_
    have hafter : (event.ignored (some reason) d₅).reports cfg.maxAttempts r =
        reportsOf cfg.maxAttempts event.replayCount event.attemptCount 0 true r := by
      rcases hreason with ⟨-, rfl⟩ | ⟨-, -, rfl⟩ <;> rfl
    rw [hafter, event.reports_of_claimable hclaim]
    cases r <;> rfl
  | @retried _ input d d' w' m event error n delay next hev hclaim heval =>
    refine hclaimed hev (event.retryScheduled n next (sanitizeError (Platform.errorMessage error))) rfl rfl rfl rfl ?_
    obtain rfl := RetryPolicy.evaluate_attempts.1 n delay next heval
    have hafter : (event.retryScheduled (event.attemptCount + 1) next
        (sanitizeError (Platform.errorMessage error))).reports cfg.maxAttempts r =
        reportsOf cfg.maxAttempts event.replayCount (event.attemptCount + 1) 0 false r := rfl
    rw [hafter, event.reports_of_claimable hclaim]
    cases r <;> rfl
  | @buried _ input d d' w' m event error n hev hclaim heval =>
    refine hclaimed hev (event.dlq n (sanitizeError (Platform.errorMessage error)) d') rfl rfl rfl rfl ?_
    obtain rfl := RetryPolicy.evaluate_attempts.2 n heval
    have hafter : (event.dlq (event.attemptCount + 1) (sanitizeError (Platform.errorMessage error)) d').reports
        cfg.maxAttempts r = reportsOf cfg.maxAttempts event.replayCount (event.attemptCount + 1) 1 false r := rfl
    rw [hafter, event.reports_of_claimable hclaim]
    cases r <;> rfl
  | unknown => exact hidle rfl rfl
  | @replayed _ d d' _ _ event hev hdlq =>
    refine hquiet hev event.replayed rfl rfl rfl ?_
    have hcols := hconsistent event hev
    simp only [EventRow.Consistent, hdlq] at hcols
    -- the attempts that have been used up become those of a replay
    have hbefore : event.reports cfg.maxAttempts r =
        reportsOf cfg.maxAttempts event.replayCount cfg.maxAttempts 1 false r := by
      simp [EventRow.reports, EventRow.inDlq, EventRow.finished, hdlq, hcols.1]
    have hafter : event.replayed.reports cfg.maxAttempts r =
        reportsOf cfg.maxAttempts (event.replayCount + 1) 0 0 false r := rfl
    rw [hbefore, hafter]
    cases r with
    | completed => rfl
    | retried => exact Nat.mul_succ _ _
    | buried => rfl
  | notInDlq hev hdlq => exact hidle rfl rfl
  | reconciled hrun hturns => exact hidle hturns.inbox_eq.1 rfl

/-- The ledger of the reports is balanced in every reachable state. -/
theorem Reach.reports_balanced (h : Reach cfg .empty w) (r : Report) : ReportsBalanced cfg r w.journal w.db := by
  suffices ReportsBalanced cfg r w.journal w.db ∧ ∀ e ∈ w.db.events, e.Consistent cfg.maxAttempts from this.1
  refine h.changes_induction
    (P := fun journal s => ReportsBalanced cfg r journal s ∧ ∀ e ∈ Store.events s, e.Consistent cfg.maxAttempts)
    Store.keyed_empty ⟨⟨by simp [Store.empty], fun k _ => rfl⟩, by simp [Store.empty]⟩ ?_
  intro journal s s' i c log x _ hs hinv hc
  obtain ⟨hbalanced, hconsistent⟩ := hinv
  exact ⟨hc.reports_balanced r hs hconsistent hbalanced, hc.consistent hs hconsistent⟩

/-! ## What a report says of its event -/

/-- **A report is true of an event**: it names its columns, and what has become of it if that is final. -/
structure Processed.TrueOf (p : Processed) (e : EventRow) : Prop where
  eventId : e.eventId = p.eventId
  orderId : e.orderId = p.orderId
  correlationId : e.correlationId = p.correlationId
  sequence : e.sequence = p.sequence
  applied : p.outcome = .applied → e.processingStatus = .applied
  ignored : p.outcome = .ignored → e.processingStatus = .ignored ∧ e.outcomeReason = p.outcomeReason

omit [Platform] in
/-- What is true of an event stays so. -/
theorem Processed.TrueOf.later {p : Processed} {e e' : EventRow} (h : p.TrueOf e) (hbecomes : e.Becomes e') :
    p.TrueOf e' where
  eventId := (congrArg EventRow.eventId hbecomes.origin :).trans h.eventId
  orderId := (congrArg EventRow.orderId hbecomes.origin :).trans h.orderId
  correlationId := (congrArg EventRow.correlationId hbecomes.origin :).trans h.correlationId
  sequence := (congrArg EventRow.sequence hbecomes.origin :).trans h.sequence
  applied ho := (hbecomes.final (.inl (h.applied ho))).1.trans (h.applied ho)
  ignored ho := by
    obtain ⟨hstatus, hreason⟩ := h.ignored ho
    obtain ⟨hstatus', hreason'⟩ := hbecomes.final (.inr hstatus)
    exact ⟨hstatus'.trans hstatus, hreason'.trans hreason⟩

/-- **A worker reports what it has committed.** -/
theorem Change.reported {c : Call} {x : Option Answer} (hs : s.Keyed) (hc : Change cfg c log x s s') {p : Processed}
    (hp : report? log = some p) : ∃ e ∈ s'.events, p.TrueOf e := by
  have hput : ∀ {e : EventRow}, e ∈ s.events → ∀ e' : EventRow, s'.events = (s.putEvent e').events →
      e.keys = e'.keys → p.TrueOf e' → ∃ e ∈ s'.events, p.TrueOf e := by
    intro e he e' hevents hkeys htrue
    exact ⟨e', by rw [hevents]; exact (Store.mem_putEvent hs he hkeys).mpr (.inl rfl), htrue⟩
  cases hc with
  | @applied _ _ _ _ _ _ _ d₅ _ _ _ _ _ _ _ event _ _ _ hev =>
    obtain rfl := Option.some.inj hp
    exact hput hev (event.applied d₅) rfl rfl ⟨rfl, rfl, rfl, rfl, fun _ => rfl, WorkerOutcome.noConfusion⟩
  | @ignored _ _ _ _ _ _ d₅ _ _ _ _ _ _ event _ reason hev =>
    obtain rfl := Option.some.inj hp
    exact hput hev (event.ignored (some reason) d₅) rfl rfl
      ⟨rfl, rfl, rfl, rfl, WorkerOutcome.noConfusion, fun _ => ⟨rfl, rfl⟩⟩
  | @retried _ _ _ _ _ _ event error n delay next hev =>
    obtain rfl := Option.some.inj hp
    exact hput hev (event.retryScheduled n next (sanitizeError (Platform.errorMessage error))) rfl rfl
      ⟨rfl, rfl, rfl, rfl, WorkerOutcome.noConfusion, WorkerOutcome.noConfusion⟩
  | @buried _ _ _ d' _ _ event error n hev =>
    obtain rfl := Option.some.inj hp
    exact hput hev (event.dlq n (sanitizeError (Platform.errorMessage error)) d') rfl rfl
      ⟨rfl, rfl, rfl, rfl, WorkerOutcome.noConfusion, WorkerOutcome.noConfusion⟩
  | _ => cases hp

/-- Every report in the journal is true of an event. -/
theorem Reach.reported (h : Reach cfg .empty w) :
    ∀ c ∈ w.journal, ∀ p, report? c.2 = some p → ∃ e ∈ w.db.events, p.TrueOf e := by
  refine h.changes_induction (P := fun journal s => ∀ c ∈ journal, ∀ p, report? c.2 = some p →
    ∃ e ∈ Store.events s, p.TrueOf e) Store.keyed_empty (by simp) fun journal s s' i c log x _ hs hP hc b hb p hp => ?_
  rcases List.mem_append.mp hb with hb | hb
  · obtain ⟨e, he, htrue⟩ := hP b hb p hp
    obtain ⟨e', he', hbecomes⟩ := (hc.becomes hs).events e he
    exact ⟨e', he', htrue.later hbecomes⟩
  · obtain rfl := List.mem_singleton.mp hb
    exact hc.reported hs hp

/-! ## What the lines tell -/

/-- A turn of a worker: its session, the id of the worker, and the time at which it writes its line. -/
structure WorkerTick where
  session : ℕ
  workerId : String
  timestamp : String

/-- **The line of a turn** of the worker loop, if there is one. -/
def WorkerTick.line (toISOString : Timestamp → String) (w : State) (t : WorkerTick) : Option (LogStream × Json) :=
  match w.sessions t.session with
  | some ⟨.processOne _, .done (.processed r), _⟩ => (WorkerLoopService.tick toISOString t.timestamp t.workerId r).1
  | some ⟨.processOne _, .fail e, _⟩ =>
    some (loopError t.timestamp t.workerId (.error "error" (Platform.errorMessage e)))
  | _ => none

/-- The `processOne` of the turn has not been answered: it is in flight, has died or has thrown. -/
def WorkerTick.unanswered (w : State) (t : WorkerTick) : Bool :=
  match w.sessions t.session with
  | some ⟨.processOne _, .done _, _⟩ => false
  | some ⟨.processOne _, _, _⟩ => true
  | _ => false

/-- **These are the turns of all workers.** -/
structure Working (cfg : WorkerConfig) (w : State) (ticks : List WorkerTick) : Prop where
  reach : Reach cfg .empty w
  sessions : (ticks.map WorkerTick.session).Nodup
  only : ∀ i input, Called w i (.processOne input) → ∃ t ∈ ticks, t.session = i

/-- A text in a field of the line. -/
def Json.reads (line : Json) (key text : String) : Bool :=
  match line.get? key with
  | some (.str text') => text' = text
  | _ => false

omit [Platform] in
theorem Json.reads_iff {line : Json} {key text text' : String} (h : line.get? key = some (.str text')) :
    line.reads key text = true ↔ text' = text := by
  simp [reads, h]

/-- The line of the turn is such a report about the event. -/
def WorkerTick.tells (toISOString : Timestamp → String) (w : State) (r : Report) (eventId : String) (t : WorkerTick) :
    Bool :=
  (t.line toISOString w).any fun line => line.2.reads "event" r.event && line.2.reads "event_id" eventId

/-- How many lines report an event in this way. -/
def told (toISOString : Timestamp → String) (w : State) (ticks : List WorkerTick) (r : Report) (eventId : String) : ℕ :=
  ticks.countP (WorkerTick.tells toISOString w r eventId)

variable {toISOString : Timestamp → String} {ticks : List WorkerTick} {t : WorkerTick}

omit [Platform] in
theorem Report.event_inj {r r' : Report} : r.event = r'.event ↔ r = r' := by
  cases r <;> cases r' <;> decide

/-- The line of an answer is the report of the log that has been committed. -/
theorem WorkerTick.line_of_done (toISOString : Timestamp → String) (h : Reach cfg .empty w) {input : WorkerInput}
    {a : ProcessOneResult} {conn : Conn postgres}
    (hs : w.sessions t.session = some ⟨.processOne input, .done (.processed a), conn⟩) :
    ∃ log, (t.session, log) ∈ w.journal ∧ w.commitsOf t.session = [log] ∧
      a = (report? log).elim .notFound .found ∧
      t.line toISOString w = (WorkerLoopService.tick toISOString t.timestamp t.workerId a).1 := by
  obtain ⟨log, hlog, hcommit⟩ := h.answered Store.keyed_empty hs rfl
  refine ⟨log, w.mem_commitsOf.mp (by rw [hlog]; exact List.mem_singleton_self _), hlog, ?_, by rw [line, hs]⟩
  generalize hx : some (Answer.processed a) = x at hcommit
  cases hcommit with
  | @processOne _ _ x hworker =>
    cases x with
    | none => cases hx
    | some a' =>
      obtain rfl : a = a' := by simpa using hx
      exact hworker.answer_eq

/-- A line that tells of an event is the report of a log. -/
theorem WorkerTick.exists_of_line (h : Reach cfg .empty w) {line : LogStream × Json}
    (hline : t.line toISOString w = some line) :
    line.2.get? "event" = some (.str "worker.loop_error") ∨
      ∃ log p, (t.session, log) ∈ w.journal ∧ report? log = some p ∧ p.ToldBy line.2 := by
  have hsession := hline
  unfold WorkerTick.line at hsession
  split at hsession
  next input r conn hs =>
    obtain ⟨log, hmem, -, hanswer, -⟩ := line_of_done toISOString h hs
    right
    cases hreport : report? log with
    | none =>
      rw [hanswer, hreport] at hsession
      cases hsession
    | some p =>
      rw [hanswer, hreport] at hsession
      obtain ⟨line', hline', htold⟩ := tick_found toISOString t.timestamp t.workerId p
      obtain rfl : line' = line := Option.some.inj (hline'.symm.trans hsession)
      exact ⟨log, p, hmem, hreport, htold⟩
  next input e conn hs =>
    obtain rfl := Option.some.inj hsession
    exact .inl (StructuredLogger.write_own (by decide))
  next => cases hsession

omit [Platform] in
/-- What a line of an event tells. -/
theorem Processed.ToldBy.tells_iff {p : Processed} {line : Json} (h : p.ToldBy line) {r : Report} {eventId : String} :
    (line.reads "event" r.event && line.reads "event_id" eventId) = true ↔ p.report = r ∧ p.eventId = eventId := by
  rw [Bool.and_eq_true, Json.reads_iff h.event, Json.reads_iff h.eventId, Report.event_inj]

/-- The reports of an event in the journal. -/
theorem reported?_iff {r : Report} {eventId : String} :
    reported? r log = some eventId ↔ ∃ p, report? log = some p ∧ p.report = r ∧ p.eventId = eventId := by
  cases hp : report? log with
  | none => simp [reported?, hp]
  | some p =>
    rw [reported?_eq hp]
    split_ifs with hr
    · simp [hr]
    · simp [hr]

/-- A line that reports an event has been committed. -/
theorem WorkerTick.exists_of_tells (h : Reach cfg .empty w) {r : Report} {eventId : String}
    (htells : t.tells toISOString w r eventId = true) :
    ∃ log, (t.session, log) ∈ w.journal ∧ reported? r log = some eventId := by
  obtain ⟨line, hline, hreads⟩ := (Option.any_eq_true _ _).mp htells
  rcases WorkerTick.exists_of_line h hline with hloop | ⟨log, p, hmem, hp, htold⟩
  · rw [Bool.and_eq_true, Json.reads_iff hloop] at hreads
    cases r <;> exact absurd hreads.1 (by decide)
  · exact ⟨log, hmem, reported?_iff.mpr ⟨p, hp, htold.tells_iff.mp hreads⟩⟩

/-- What has been committed is told, unless the call has not been answered. -/
theorem Working.exists_of_reported (hworking : Working cfg w ticks) {r : Report} {eventId : String}
    (hmem : (i, log) ∈ w.journal) (hreported : reported? r log = some eventId) :
    ∃ t ∈ ticks, (t.tells toISOString w r eventId || t.unanswered w) = true ∧ t.session = i := by
  obtain ⟨p, hp, hr, heventId⟩ := reported?_iff.mp hreported
  obtain ⟨c, x, hcalled, hcommit⟩ := hworking.reach.journal_call Store.keyed_empty hmem
  obtain ⟨input, rfl⟩ := hcommit.report? hp
  obtain ⟨t, ht, rfl⟩ := hworking.only i input hcalled
  refine ⟨t, ht, ?_, rfl⟩
  obtain ⟨s, hs, hcall⟩ := hcalled
  obtain ⟨c, prog, conn⟩ := s
  obtain rfl : c = .processOne input := hcall
  rw [Bool.or_eq_true]
  cases prog with
  | done a =>
    left
    obtain ⟨log', hlog', hcommit'⟩ := hworking.reach.answered Store.keyed_empty hs rfl
    obtain ⟨a, rfl⟩ : ∃ a', a = .processed a' := by
      generalize hx : some a = x at hcommit'
      cases hcommit' with
      | @processOne _ _ x _ =>
        cases x with
        | none => cases hx
        | some a' => exact ⟨a', Option.some.inj hx⟩
    obtain ⟨log₁, -, hone, hanswer, hline⟩ := WorkerTick.line_of_done toISOString hworking.reach hs
    obtain rfl : log = log₁ := by
      have hmem' := w.mem_commitsOf.mpr hmem
      rwa [hone, List.mem_singleton] at hmem'
    rw [hanswer, hp] at hline
    obtain ⟨line, hline', htold⟩ := tick_found toISOString t.timestamp t.workerId p
    rw [WorkerTick.tells, hline, Option.elim_some, hline', Option.any_some]
    exact htold.tells_iff.mpr ⟨hr, heventId⟩
  | fail e => exact .inr (by rw [WorkerTick.unanswered, hs])
  | ask q ok failed => exact .inr (by rw [WorkerTick.unanswered, hs])

/-- The reports of an event in the journal are those that its columns stand for. -/
theorem Reach.countP_reported (h : Reach cfg .empty w) {e : EventRow} (he : e ∈ w.db.events) (r : Report) :
    (w.journal.countP fun c => reported? r c.2 = some e.eventId) = e.reports cfg.maxAttempts r := by
  rw [← (h.reports_balanced r).known e he, charged, List.count_filterMap]
  exact List.countP_congr fun c _ => by simp

end Journal

end PaymentWebhook
