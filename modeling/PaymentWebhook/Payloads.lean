import PaymentWebhook.Admission
import PaymentWebhook.OrderMoney

set_option relaxedAutoImplicit false
set_option autoImplicit false

/-!
# Payloads and columns

The decorators of `PaymentWebhookDto` against the columns that the values of a payload are bound to, by
the ingestion statement and by the business block of the worker.  They bound neither the sequence nor the
characters of a text, and the length that they bound leaves presentation selectors out.

## Main definitions

* `PaymentWebhook.WebhookPayload.FitsColumns` — the values of a payload lie in the domains of their columns.
* `PaymentWebhook.Binds` — what the business block issues about an event.
* `PaymentWebhook.Undisputed` — no statement refuses a value of the payload.

## Main results

* `PaymentWebhook.webhook_admissible_iff` — which accepted payloads fit their columns.
-/

namespace PaymentWebhook

open Transactions

/-- The money of a payload. -/
def WebhookPayload.amount? (p : WebhookPayload) : Option String := p.data.bind PaymentWebhookData.amount

/-- **The values of the payload lie in the domains of their columns.** -/
structure WebhookPayload.FitsColumns (p : WebhookPayload) : Prop where
  sequence : int4Fits p.sequence = true
  sequence_nonneg : 0 ≤ p.sequence
  eventId : varcharFits 255 p.eventId = true
  orderId : varcharFits 255 p.orderId = true
  eventType : varcharFits 50 p.eventType = true
  amount : ∀ a ∈ p.amount?, ∃ cents, numericIn a = some cents ∧ numericFits cents = true
  currency : ∀ c ∈ p.currency, varcharFits 3 c = true

section Columns

/-- A text fits a `VARCHAR(n)`. -/
theorem varcharFits_iff {n : ℕ} {text : String} :
    varcharFits n text = true ↔ text.length ≤ n ∧ '\x00' ∉ text.toList := by
  simp only [varcharFits, textFits, Bool.and_eq_true, decide_eq_true_eq, List.all_eq_true]
  refine and_congr_right fun _ => ?_
  exact ⟨fun h hmem => h _ hmem rfl, fun h c hc hzero => h (hzero ▸ hc)⟩

/-- The accepted event types fit their column. -/
theorem varcharFits_of_mem_allowed {eventType : String}
    (h : eventType ∈ PaymentWebhookDto.ALLOWED_EVENT_TYPES) : varcharFits 50 eventType = true := by
  have hall : ∀ t ∈ PaymentWebhookDto.ALLOWED_EVENT_TYPES, varcharFits 50 t = true := by decide
  exact hall eventType h

variable [Platform] {p : WebhookPayload}

/-- The money of an accepted payload fits its column. -/
theorem PaymentWebhookDto.Accepted.amount_fits (h : PaymentWebhookDto.Accepted p) :
    ∀ a ∈ p.amount?, ∃ cents, numericIn a = some cents ∧ numericFits cents = true := by
  intro a ha
  obtain ⟨data, hdata, haccepts⟩ := h.data
  rw [WebhookPayload.amount?, hdata, Option.bind_some] at ha
  simp only [PaymentWebhookDto.acceptsData, Bool.and_eq_true] at haccepts
  have hmatches : PaymentWebhookDto.amountMatches a = true := by
    simpa [Option.mem_def.mp ha] using haccepts.1
  obtain ⟨cents, hin, hfits, -⟩ := normalizeAmount_numericText (amountRegex_of_matches hmatches)
  exact ⟨cents, hin, hfits⟩

/-- Which accepted payloads fit their columns. -/
theorem PaymentWebhookDto.Accepted.fitsColumns_iff (h : PaymentWebhookDto.Accepted p) :
    p.FitsColumns ↔ p.sequence ≤ 2147483647 ∧ p.eventId.length ≤ 255 ∧ p.orderId.length ≤ 255 ∧
      (∀ c ∈ p.currency, c.length ≤ 3) ∧
      ∀ text ∈ p.eventId :: p.orderId :: p.currency.toList, '\x00' ∉ text.toList := by
  have hnonneg := h.sequence
  have hint : int4Fits p.sequence = true ↔ p.sequence ≤ 2147483647 := by
    simp only [int4Fits, Bool.and_eq_true, decide_eq_true_eq]
    omega
  simp only [List.forall_mem_cons, Option.mem_toList]
  constructor
  · intro hfits
    obtain ⟨hevent, hevent₀⟩ := varcharFits_iff.mp hfits.eventId
    obtain ⟨horder, horder₀⟩ := varcharFits_iff.mp hfits.orderId
    exact ⟨hint.mp hfits.sequence, hevent, horder, fun c hc => (varcharFits_iff.mp (hfits.currency c hc)).1,
      hevent₀, horder₀, fun c hc => (varcharFits_iff.mp (hfits.currency c hc)).2⟩
  · rintro ⟨hseq, hevent, horder, hcurrency, hevent₀, horder₀, hcurrency₀⟩
    exact ⟨hint.mpr hseq, hnonneg, varcharFits_iff.mpr ⟨hevent, hevent₀⟩,
      varcharFits_iff.mpr ⟨horder, horder₀⟩, varcharFits_of_mem_allowed h.eventType, h.amount_fits,
      fun c hc => varcharFits_iff.mpr ⟨hcurrency c hc, hcurrency₀ c hc⟩⟩

end Columns

/-! ## The ingestion statement -/

section Ingestion

variable [Platform] {req : WebhookRequest} {d : Draws} {s : Store} {env : Env}

/-- **Nothing else speaks against a request**: its time can be read, its bytes are a `jsonb`, and what the
service itself adds fits. -/
structure WebhookRequest.Sound (req : WebhookRequest) (d : Draws) (s : Store) : Prop where
  time : (Platform.timestamptzIn req.rawBody.json.occurredAt).isSome
  jsonb : Platform.jsonbIn req.rawBody.bytes = true
  correlationId : varcharFits 255 req.correlationId = true
  latency : ((d.now - req.receivedAt).toNat + 5) / 10 < 10 ^ 10
  deliveries : ∀ old, s.event? req.rawBody.json.eventId = some old → old.deliveryCount + 1 ≤ 2147483647

/-- The row that a request proposes fits its columns. -/
theorem WebhookPayload.FitsColumns.row (h : req.rawBody.json.FitsColumns)
    (hcorrelation : varcharFits 255 req.correlationId = true) (id : ℕ) (occurredAt : Timestamp) :
    (req.event.row id occurredAt).fits = true := by
  have hstatus : req.event.processingStatus ≠ .retryScheduled := by
    rcases req.event_status with ⟨hpending, -⟩ | ⟨hignored, -⟩
    · rw [hpending]
      decide
    · rw [hignored]
      decide
  simp only [EventRow.fits, Bool.and_eq_true, and_assoc]
  refine ⟨h.eventId, h.orderId, h.eventType, h.sequence, decide_eq_true h.sequence_nonneg,
    Platform.sha256Hex_fits req.rawBody.bytes, rfl, rfl, rfl, rfl, rfl, hcorrelation, ?_⟩
  rw [Bool.or_eq_true]
  exact .inl (decide_eq_true hstatus)

/-- **The ingestion statement is accepted**, if the values of the payload fit their columns and nothing else
speaks against the request. -/
theorem accepted_upsertAndDeliver (h : req.rawBody.json.FitsColumns) (hsound : req.Sound d s)
    (hfits : s.Fits) (hgiven : s.All (Row.Given env)) (hnew : d.New env) :
    (Stmt.upsertAndDeliver req.event req.delivery).Accepted d s := by
  intro skip
  obtain ⟨occurredAt, htime⟩ := Option.isSome_iff_exists.mp hsound.time
  have hrow := h.row hsound.correlationId d.eventId occurredAt
  have hdelivery : ∀ result, s.insertable (.delivery (req.delivery.row d result)) = .ok () := by
    intro result
    refine insertable_ok.mpr ⟨?_, fun k hk => ?_, by simp [Row.refs]⟩
    · simp only [Row.fits, DeliveryRow.fits, Bool.and_eq_true, and_assoc]
      exact ⟨h.eventId, decide_eq_true hsound.latency, hsound.correlationId⟩
    · obtain rfl := List.mem_singleton.mp hk
      exact hgiven.look_drawn hnew (by simp [Draws.keys, DeliveryBaseParams.row])
  obtain ⟨evt, w, hupsert⟩ : ∃ evt w, upsert s (req.event.row d.eventId occurredAt) = .ok (evt, w) := by
    cases hold : s.event? req.rawBody.json.eventId with
    | none =>
      refine ⟨_, _, upsert_ok.mpr ⟨hrow, .inl ⟨hold, insertable_ok.mpr ⟨hrow, fun k hk => ?_, by simp [Row.refs]⟩,
        rfl, rfl⟩⟩⟩
      obtain rfl | rfl : k = .event req.rawBody.json.eventId ∨ k = .eventPk d.eventId := by
        simpa [Row.keys, EventRow.keys, EventInsertParams.row, WebhookRequest.event] using hk
      · simp [Store.look, hold]
      · exact hgiven.look_drawn hnew (by simp [Draws.keys])
    | some old =>
      have hfit : old.fits = true := hfits (.event req.rawBody.json.eventId) (.event old) (by simp [Store.look, hold])
      have hcount := hsound.deliveries old hold
      refine ⟨_, _, upsert_ok.mpr ⟨hrow, .inr ⟨old, hold, rfl, ?_, rfl⟩⟩⟩
      simp only [EventRow.fits, Bool.and_eq_true, and_assoc] at hfit ⊢
      obtain ⟨h₁, h₂, h₃, h₄, h₅, h₆, h₇, h₈, -, -, h₁₁, h₁₂, h₁₃⟩ := hfit
      refine ⟨h₁, h₂, h₃, h₄, h₅, h₆, h₇, h₈, ?_, decide_eq_true (Nat.le_add_left 1 _), h₁₁, h₁₂, h₁₃⟩
      simp only [int4Fits, Bool.and_eq_true, decide_eq_true_eq]
      omega
  exact ⟨_, _, upsertAndDeliver_ok.mpr ⟨occurredAt, evt, w, htime, hsound.jsonb, hupsert, rfl, hdelivery _, rfl⟩⟩

end Ingestion

/-! ## The business block -/

section Business

variable [Platform]

/-- **What the business block issues about an event**, with the values of the event. -/
inductive Binds (event : EventRow) : Stmt → Prop where
  | insertOrder : Binds event (.insertOrder event.orderId)
  | selectOrder : Binds event (.selectOrder event.orderId)
  | applyToOrder {target : MappedStatus} (hmap : mapEventToStatus event.eventType = some target) :
      Binds event (.applyToOrder event.orderId target event.sequence event.payload.amount?
        event.payload.currency)
  | insertApplied {target : MappedStatus} (hmap : mapEventToStatus event.eventType = some target)
      (previous : OrderStatus) : Binds event (.insertHistory (historyValues event previous target .applied none))
  | insertIgnored (previous status : OrderStatus) (reason : Option OutcomeReason) :
      Binds event (.insertHistory (historyValues event previous (.known status) .ignored reason))
  | markApplied : Binds event (.markApplied event.id)
  | markIgnored (reason : Option OutcomeReason) : Binds event (.markIgnored event.id reason)

/-- A worker that has claimed an event issues what its business block does, or reschedules it. -/
def WorkerBinds (c : Call) (log : Log) (q : Stmt) : Prop :=
  ∀ input d event ws rest, c = .processOne input → log = ⟨.claim, d, some event, ws⟩ :: rest →
    Binds event q ∨ Puts event q

variable {b d : Draws} {w : List Write} {event : EventRow} {rj : List (Request postgres)}
  {cfg : WorkerConfig} {input : WorkerInput}

theorem Binds.workerBinds {q : Stmt} {log : Log} (h : Binds event q) :
    WorkerBinds (.processOne input) (⟨.claim, d, some event, w⟩ :: log) q := by
  rintro input' d' event' ws rest - hlog
  obtain ⟨-, rfl, -⟩ : d = d' ∧ event = event' ∧ w = ws := by simpa using congrArg List.head? hlog
  exact .inl h

/-- The business block binds the values of its event. -/
theorem binds_businessBlock {Q : Post postgres ProcessingResult}
    (herr : ∀ e tx rj', (tx = none ∨ ∃ l ab,
      tx = some ⟨b, l, some [⟨Stmt.claim, d, some event, w⟩], ab⟩) → Q (.error e) ⟨tx, [], rj'⟩)
    (hok : ∀ log result, Q (.ok result)
      ⟨some ⟨b, log, some [⟨Stmt.claim, d, some event, w⟩], false⟩, [], rj⟩) :
    (businessBlock event).wp Rely.any (Asking (WorkerBinds (.processOne input))) Q
      ⟨some ⟨b, [⟨Stmt.claim, d, some event, w⟩], some [⟨Stmt.claim, d, some event, w⟩], false⟩,
        [], rj⟩ := by
  have herr' : ∀ {l : Log} e tx rj', (tx = none ∨ ∃ ab,
      tx = some ⟨b, l, some [⟨Stmt.claim, d, some event, w⟩], ab⟩) → Q (.error e) ⟨tx, [], rj'⟩ :=
    fun e tx rj' h => herr e tx rj' (h.imp_right fun ⟨ab, h⟩ => ⟨_, ab, h⟩)
  refine wp_sql_asking Binds.insertOrder.workerBinds herr' fun d₁ isNew w₁ => ?_
  refine wp_sql_asking Binds.selectOrder.workerBinds herr' fun d₂ order w₂ => ?_
  cases order with
  | none => exact herr _ _ _ (.inr ⟨_, false, rfl⟩)
  | some order =>
    refine Prog.wp_bind _ _ _ ?_
    unfold writeResult
    cases hout : (process event order).outcome with
    | applied =>
      obtain ⟨target, hmap, -, hresult⟩ := process_applied hout
      rw [hresult]
      refine wp_sql_asking (Binds.applyToOrder hmap).workerBinds herr' fun d₃ m₃ w₃ => ?_
      refine wp_sql_asking (Binds.insertApplied hmap _).workerBinds herr' fun d₄ _ w₄ => ?_
      exact wp_sql_asking Binds.markApplied.workerBinds herr' fun d₅ m₅ w₅ => hok _ _
    | ignored =>
      obtain ⟨reason, hresult, -⟩ := process_ignored hout
      rw [hresult]
      refine wp_sql_asking (Binds.insertIgnored _ _ _).workerBinds herr' fun d₄ _ w₄ => ?_
      exact wp_sql_asking (Binds.markIgnored _).workerBinds herr' fun d₅ m₅ w₅ => hok _ _

/-- What follows the claim of an event. -/
theorem binds_recover {error : DbError} {tx : Option (Tx postgres)}
    (htx : tx = none ∨ ∃ l ab, tx = some ⟨b, l, some [⟨Stmt.claim, d, some event, w⟩], ab⟩) :
    (recover cfg input event error).wp Rely.any (Asking (WorkerBinds (.processOne input))) anyPost
      ⟨tx, [], rj⟩ := by
  have hputs : ∀ {q : Stmt}, Puts event q →
      WorkerBinds (.processOne input) [⟨Stmt.claim, d, some event, w⟩] q := by
    rintro q hq input' d' event' ws rest - hlog
    obtain ⟨-, rfl, -⟩ : d = d' ∧ event = event' ∧ w = ws := by simpa using congrArg List.head? hlog
    exact .inr hq
  obtain ⟨l, hl⟩ : ∃ l, tx = none ∨ ∃ ab, tx = some ⟨b, l, some [⟨Stmt.claim, d, some event, w⟩], ab⟩ := by
    rcases htx with rfl | ⟨l, ab, rfl⟩
    · exact ⟨[], .inl rfl⟩
    · exact ⟨l, .inr ⟨ab, rfl⟩⟩
  refine Prog.wp_bind _ _ _ (Prog.wp_rollbackTo hl (asking_of_ne (by simp)) ?_ fun _ _ => trivial)
  refine Prog.wp_bind _ _ _ (Prog.wp_release (asking_of_ne (by simp)) ?_ fun _ _ _ => trivial)
  cases RetryPolicy.evaluate cfg event.attemptCount input.now input.random with
  | dlq attemptCount => exact wp_sql_any (hputs (.markDlq _ _)) fun _ _ _ => wp_commit_any trivial
  | retry attemptCount delayMs nextAttemptAt =>
    exact wp_sql_any (hputs (.markRetryScheduled _ _ _)) fun _ _ _ => wp_commit_any trivial

/-- A turn of the worker binds the values of the event that it has claimed. -/
theorem binds_processOne (cfg : WorkerConfig) (input : WorkerInput) :
    (processOne cfg input).wp Rely.any (Asking (WorkerBinds (.processOne input))) anyPost Conn.fresh := by
  have hclaim : WorkerBinds (.processOne input) [] .claim := by
    rintro input' d' event' ws rest - hlog
    cases hlog
  refine wp_transaction_asking fun b => wp_sql_any hclaim fun d event w => ?_
  cases event with
  | none => exact wp_commit_any trivial
  | some event =>
    refine Prog.wp_bind _ _ _ (Prog.wp_savepoint (asking_of_ne (by simp)) ?_ fun _ _ _ => trivial)
    refine Prog.wp_bind _ _ _ (Prog.wp_attempt _ _ (binds_businessBlock (fun e tx rj' htx => ?_)
      fun log result => ?_))
    · exact binds_recover htx
    · refine Prog.wp_bind _ _ _ (Prog.wp_release (asking_of_ne (by simp)) ?_ fun _ _ _ => trivial)
      exact wp_commit_any trivial

/-- Every call does. -/
theorem binds_program (cfg : WorkerConfig) (c : Call) :
    (program cfg c).wp Rely.any (Asking (WorkerBinds c)) anyPost Conn.fresh := by
  have hother : (∀ input, c ≠ .processOne input) →
      (program cfg c).wp Rely.any (Asking (WorkerBinds c)) anyPost Conn.fresh := fun hne =>
    Prog.wp_imp (fun r conn h q hq t ht input d event ws rest hc => absurd hc (hne input)) _ _
      (asking_program cfg c)
  cases c with
  | processOne input =>
    exact Prog.wp_bind _ _ _ (Prog.wp_mono (fun x _ _ => by cases x <;> trivial) _ _ (binds_processOne cfg input))
  | ingest req => exact hother fun input hc => by cases hc
  | replay id => exact hother fun input hc => by cases hc
  | reconcile snapshot => exact hother fun input hc => by cases hc

/-- **Every pending statement of a worker** that has claimed an event binds the values of the event, or
reschedules it. -/
theorem Reach.binds {db₀ : Store} {w : State} (h : Reach cfg db₀ w) {i : ℕ}
    {s : Session postgres Call Answer} {t : Tx postgres} {q : Stmt} (hpending : w.Pending i s t q)
    {rest : Log} {ws : List Write} (hcall : s.call = .processOne input)
    (hlog : t.log = ⟨.claim, d, some event, ws⟩ :: rest) : Binds event q ∨ Puts event q := by
  obtain ⟨env₀, h⟩ := h
  obtain ⟨ok, failed, hp⟩ := hpending.prog
  have hwp := h.wp (A := fun c => Asking (WorkerBinds c)) (Q := fun _ => anyPost) (binds_program cfg)
    (fun _ _ _ _ => trivial) i s hpending.session
  rw [hp] at hwp
  exact hwp.1 q rfl t hpending.tx input d event ws rest hcall hlog

end Business

/-! ## Values that are refused -/

section Refused

/-- A row that fits its columns is not refused for its values. -/
theorem insertRow_ne_invalid {α : Type} {s : Store} {r : Row} {rows : α} (hfits : r.fits = true) :
    s.insertRow r rows ≠ .error .invalidValue := by
  unfold Store.insertRow Store.insertable
  rw [if_neg (by simp [hfits])]
  split
  · intro h
    cases h
  · split <;> intro h <;> cases h

/-- Nor is the new version of a row. -/
theorem updateRow_ne_invalid {α ρ : Type} {mk : ρ → Row} {f : ρ → ρ} {found : ρ → α} {missing : α}
    {r : Option ρ} (h : ∀ x, r = some x → (mk (f x)).fits = true) :
    updateRow mk f found missing r ≠ .error .invalidValue := by
  cases r with
  | none =>
    intro hx
    cases hx
  | some x =>
    rw [updateRow, if_pos (h x rfl)]
    intro hx
    cases hx

variable [Platform] {s : Store} {event : EventRow} {q : Stmt}

/-- **The business block of an accepted payload is not refused for a value**, if the values fit. -/
theorem Binds.ne_invalid (h : Binds event q) (hs : s.Fits) (hevent : event.fits = true)
    (hallowed : event.eventType ∈ PaymentWebhookDto.ALLOWED_EVENT_TYPES) (hp : event.payload.FitsColumns)
    (d : Draws) (skip : Key → Bool) : exec q d skip s ≠ .error .invalidValue := by
  obtain ⟨status, hstatus⟩ := PaymentWebhookDto.map_of_mem_allowed hallowed
  have hcolumns := hevent
  simp only [EventRow.fits, Bool.and_eq_true, and_assoc] at hcolumns
  obtain ⟨hid, horder, -, hseq, -⟩ := hcolumns
  have hhistory : ∀ {previous new : OrderStatus} {outcome : HistoryOutcome} {reason : Option OutcomeReason},
      exec (.insertHistory (historyValues event previous (.known new) outcome reason)) d skip s ≠
        .error .invalidValue := fun {previous new outcome reason} =>
    insertRow_ne_invalid (by simp [Row.fits, HistoryRow.fits, HistoryValues.row, historyValues, hid, horder, hseq])
  have hfound : ∀ {e : EventRow}, s.eventAt? event.id = some e → e.fits = true := fun {e} he =>
    hs (.eventPk event.id) (.event e) (by simp [Store.look, he])
  cases h with
  | insertOrder =>
    obtain ⟨rows, ws, hok⟩ := accepted_insertOrder (d := d) (s := s) horder skip
    rw [hok]
    intro hx
    cases hx
  | selectOrder =>
    intro hx
    cases hx
  | applyToOrder hmap =>
    obtain rfl := Option.some_inj.mp (hmap.symm.trans hstatus)
    have hcurrency : event.payload.currency.all (varcharFits 3) = true := by
      rw [Option.all_eq_true]
      exact hp.currency
    cases hamount : event.payload.amount? with
    | none =>
      simp only [exec, numericParam]
      refine updateRow_ne_invalid fun o ho => ?_
      exact OrderRow.applied_fits (hs.order ho) hevent rfl hcurrency
    | some a =>
      obtain ⟨cents, hin, hfits⟩ := hp.amount a hamount
      simp only [exec, numericParam, hin]
      refine updateRow_ne_invalid fun o ho => ?_
      exact OrderRow.applied_fits (hs.order ho) hevent hfits hcurrency
  | insertApplied hmap previous =>
    obtain rfl := Option.some_inj.mp (hmap.symm.trans hstatus)
    exact hhistory
  | insertIgnored previous status reason => exact hhistory
  | markApplied =>
    simp only [exec]
    exact updateRow_ne_invalid fun e he => EventRow.applied_fits (hfound he) d
  | markIgnored reason =>
    simp only [exec]
    exact updateRow_ne_invalid fun e he => EventRow.ignored_fits (hfound he) reason d

end Refused

/-! ## Which payloads are admissible -/

section Admissible

variable [Platform] {cfg : WorkerConfig} {p : WebhookPayload}

/-- **No statement refuses a value of the payload.**  In no reachable world is a delivery of the payload
refused that nothing else speaks against, or the business block of one of its events refused for a value. -/
structure Undisputed (cfg : WorkerConfig) (p : WebhookPayload) : Prop where
  ingestion : ∀ (w : State) (i : ℕ) (s : Session postgres Call Answer) (t : Tx postgres) (req : WebhookRequest)
    (d : Draws) (env : Env), Reach cfg .empty w →
    w.Pending i s t (.upsertAndDeliver req.event req.delivery) → req.rawBody.json = p →
    w.env.Draw (some t.begun) d env → req.Sound d (t.view w.db) →
    (Stmt.upsertAndDeliver req.event req.delivery).Accepted d (t.view w.db)
  business : ∀ (w : State) (i : ℕ) (s : Session postgres Call Answer) (t : Tx postgres) (q : Stmt)
    (input : WorkerInput) (event : EventRow) (d : Draws) (ws : List Write) (rest : Log), Reach cfg .empty w →
    w.Pending i s t q → s.call = .processOne input → t.log = ⟨.claim, d, some event, ws⟩ :: rest →
    event.payload = p → ¬ Puts event q →
    ∀ (d' : Draws) (skip : Key → Bool), exec q d' skip (t.view w.db) ≠ .error .invalidValue

/-- No statement refuses a value of an accepted payload whose values fit their columns. -/
theorem WebhookPayload.FitsColumns.undisputed (hp : p.FitsColumns) (h : PaymentWebhookDto.Accepted p) :
    Undisputed cfg p := by
  constructor
  · rintro w i s t req d env hreach hpending rfl hdraw hsound
    have hcoherent := hreach.coherent Store.keyed_empty
    have hredo := (hcoherent.sound i s t hpending.session hpending.tx).redoes
    refine accepted_upsertAndDeliver hp hsound (hreach.fits.install hcoherent.inv hredo) ?_ hdraw.new
    exact Store.All.install hreach.given.done hcoherent.inv hredo
      (hreach.given.opened i s t hpending.session hpending.tx)
  · rintro w i s t q input event d ws rest hreach hpending hcall hlog rfl hputs d' skip
    have hcoherent := hreach.coherent Store.keyed_empty
    have hs : Store.Keyed w.db := hcoherent.inv
    have hredo := (hcoherent.sound i s t hpending.session hpending.tx).redoes
    have hevent : event ∈ w.db.events := by
      rw [hlog] at hredo
      exact (redoes_claim hredo).1
    have hfits : event.fits = true :=
      hreach.fits (.eventPk event.id) (.event event) (by simp [Store.look, hs.eventAt?_eq hevent])
    have hallowed : event.eventType ∈ PaymentWebhookDto.ALLOWED_EVENT_TYPES := by
      rw [(hreach.columns_eq event hevent).2.2.1]
      exact h.eventType
    exact ((hreach.binds hpending hcall hlog).resolve_right hputs).ne_invalid
      (hreach.fits.install hs hredo) hfits hallowed hp d' skip

/-- **Which accepted payloads fit their columns**, so that no statement refuses a value of them: those whose
sequence is at most 2147483647, whose ids have at most 255 characters and whose currency has at most 3, with
the presentation selectors, and none of them contains U+0000. -/
theorem webhook_admissible_iff (cfg : WorkerConfig) (h : PaymentWebhookDto.accepts p = true) :
    p.FitsColumns ∧ Undisputed cfg p ↔
      p.sequence ≤ 2147483647 ∧ p.eventId.length ≤ 255 ∧ p.orderId.length ≤ 255 ∧
        (∀ c ∈ p.currency, c.length ≤ 3) ∧
        ∀ text ∈ p.eventId :: p.orderId :: p.currency.toList, '\x00' ∉ text.toList := by
  have haccepted := PaymentWebhookDto.accepts_iff.mp h
  rw [← haccepted.fitsColumns_iff]
  exact ⟨And.left, fun hp => ⟨hp, hp.undisputed haccepted⟩⟩

end Admissible

/-- In the sample, the values of the authorization fit. -/
theorem webhook_admissible_iff_sample : letI := samplePlatform
    authorizedBody.json.FitsColumns ∧ Undisputed .default authorizedBody.json := by
  let _ := samplePlatform
  exact (webhook_admissible_iff .default authorizedBody_accepts).mpr (by decide)

/-- An authorization with the least sequence that is no `INTEGER`. -/
def overflowingBody : RawBody where
  bytes := ("\x7b\"event_id\":\"evt_1\",\"order_id\":\"ord_1\"," ++
    "\"event_type\":\"payment.authorized\",\"sequence\":2147483648," ++
    "\"occurred_at\":\"2026-01-15T10:00:00.000Z\"," ++
    "\"data\":\x7b\"amount\":\"10.00\",\"currency\":\"USD\"\x7d\x7d").toUTF8.toList
  json := ⟨"evt_1", "ord_1", "payment.authorized", 2147483648, "2026-01-15T10:00:00.000Z",
    some ⟨some "10.00", some "USD"⟩⟩

/-- It is accepted and refused: each delivery of it is answered by an error. -/
theorem overflowing_sequence : letI := samplePlatform
    PaymentWebhookDto.accepts overflowingBody.json = true ∧
      ¬ (overflowingBody.json.FitsColumns ∧ Undisputed .default overflowingBody.json) ∧
      ∀ (now : Timestamp) (d : Draws) (skip : Key → Bool) (s : Store),
        exec (.upsertAndDeliver (overflowingBody.request now).event (overflowingBody.request now).delivery) d
          skip s = .error .invalidValue := by
  let _ := samplePlatform
  refine ⟨?_, fun h => absurd h.1.sequence (by decide), fun now d skip s => ?_⟩
  · exact PaymentWebhookDto.accepts_iff.mpr ⟨by decide, by decide, by decide, by decide, rfl, _, rfl,
      acceptsData_sample⟩
  · have hrow : ∀ id occurredAt, ((overflowingBody.request now).event.row id occurredAt).fits = false := by
      intro id occurredAt
      have hseq : int4Fits ((overflowingBody.request now).event.row id occurredAt).sequence = false := rfl
      simp [EventRow.fits, hseq]
    have htime : Platform.timestamptzIn (overflowingBody.request now).event.occurredAt = some sampleTime := rfl
    have hjsonb : Platform.jsonbIn (overflowingBody.request now).event.payload.bytes = true := rfl
    simp [exec, upsertAndDeliver, htime, hjsonb, upsert, hrow]

end PaymentWebhook
