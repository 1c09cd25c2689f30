import PaymentWebhook.Simulation

set_option relaxedAutoImplicit false
set_option autoImplicit false

/-!
# The oracle of the simulator

The generator says what will come of the webhooks that it makes; the service makes that of them.  The ids may
not be longer than the service allows, and the service has to read back the times that the simulator writes.

## Main definitions

* `PaymentWebhook.ReadsBack` — the service reads back the text of a time.

## Main results

* `PaymentWebhook.oracle_agrees` — the oracle is right.
* `PaymentWebhook.exists_simulation` — a run of one webhook.
* `PaymentWebhook.oracle_disagrees_on_long_ids` — the service turns away ids that are too long.
-/

namespace PaymentWebhook

open Transactions Generator

section Service

variable [Platform] {cfg : WorkerConfig} {w : State}

/-! ## On arrival -/

/-- The service reads back the text of a time. -/
def ReadsBack (rt : Runtime) (t : ℤ) : Prop :=
  Platform.dateParse (rt.toISOString t) = some (1000 * t) ∧ Platform.isDateString (rt.toISOString t) = true

section Admission

variable {rt : Runtime} {secret : String}

omit [Platform] in
/-- A webhook that is signed passes the guard exactly if it is signed with the secret of the service. -/
theorem authentic_iff {e : GeneratedEvent} {secret' : String} (he : e.signature = sign rt secret' e.rawBody) :
    e.authentic rt secret = true ↔ rt.hmacSha256 secret' e.rawBody = rt.hmacSha256 secret e.rawBody := by
  have hiff := canActivate_hexOf rt.hmacSha256 secret e.rawBody (rt.hmacSha256 secret' e.rawBody)
  have hheader : e.signature = String.ofList (hexOf (rt.hmacSha256 secret' e.rawBody).toList) := he
  rw [← hheader] at hiff
  rw [← hiff, GeneratedEvent.authentic]
  cases WebhookSignatureGuard.canActivate rt.hmacSha256 secret (some e.rawBody) (some e.signature) <;> simp

/-- **The service accepts what the generator makes**, if its texts are short enough and its time is one. -/
theorem accepts_of_sound (hupper : ∀ c ∈ ["MXN", "USD", "EUR"], Platform.toUpperCase c = c)
    {e : GeneratedEvent} (he : Sound rt e) (heventId : PaymentWebhookDto.validatorLength e.eventId ≤ 255)
    (horderId : PaymentWebhookDto.validatorLength e.orderId ≤ 255)
    (htime : Platform.isDateString e.payload.occurredAt = true) :
    PaymentWebhookDto.accepts e.payload = true := by
  obtain ⟨cents, currency, hfits, hcurrency, hdata⟩ := he.money
  have htype : ∀ status, STATUS_TO_EVENT_TYPE status ∈ PaymentWebhookDto.ALLOWED_EVENT_TYPES := by
    intro status
    cases status <;> decide
  have hlength : ∀ c ∈ ["MXN", "USD", "EUR"], PaymentWebhookDto.validatorLength c = 3 := by decide
  refine PaymentWebhookDto.accepts_iff.mpr ⟨?_, ?_, ?_, ?_, htime, _, hdata, ?_⟩
  · rw [he.eventId]
    exact ⟨he.eventId_ne, heventId⟩
  · rw [he.orderId]
    exact ⟨he.orderId_ne, horderId⟩
  · rw [he.eventType]
    exact htype e.status
  · rw [he.sequence]
    exact le_trans (by decide) he.positive
  · simp [PaymentWebhookDto.acceptsData, amountMatches_numericText hfits, hlength currency hcurrency,
      hupper currency hcurrency]

end Admission

/-- An event that has occurred less than five minutes before it is received is not late. -/
theorem Posting.in_time {rt : Runtime} {p : Posting} {t : ℤ} (h : ReadsBack rt t)
    (htime : p.event.payload.occurredAt = rt.toISOString t) (hlt : p.receivedAt < 1000 * (t + 5 * 60 * 1000)) :
    p.request.late = false := by
  have hnot : ¬1000 * t < p.receivedAt - 1000 * STALE_THRESHOLD_MS := by
    unfold STALE_THRESHOLD_MS
    have hlt' : 1000 * (t + 5 * 60 * 1000) > p.receivedAt := hlt
    omega
  simp only [WebhookRequest.late, Posting.request, htime, h.1, isStaleEvent, Option.any_some]
  exact decide_eq_false hnot

/-- An event that has occurred more than five minutes before it is received is late. -/
theorem Posting.too_late {rt : Runtime} {p : Posting} {t : ℤ} (h : ReadsBack rt t)
    (htime : p.event.payload.occurredAt = rt.toISOString t) (hlt : 1000 * (t + 5 * 60 * 1000) < p.receivedAt) :
    p.request.late = true := by
  have hlate : 1000 * t < p.receivedAt - 1000 * STALE_THRESHOLD_MS := by
    unfold STALE_THRESHOLD_MS
    omega
  simp only [WebhookRequest.late, Posting.request, htime, h.1, isStaleEvent, Option.any_some]
  exact decide_eq_true hlate

section Oracle

variable {rt : Runtime} {opts : GenerateOptions} {postings : List Posting}
  {base duplicates invalid stale : List GeneratedEvent}
  (ht : Traffic rt opts base duplicates invalid stale)
  (hupper : ∀ c ∈ ["MXN", "USD", "EUR"], Platform.toUpperCase c = c)
  (hrecent : ∀ n : ℕ, 1 ≤ n → n ≤ opts.events → ReadsBack rt (opts.baseTimeMs + n))
  (houtdated : stale ≠ [] → ReadsBack rt (opts.baseTimeMs - 10 * 60 * 1000))

include ht hrecent houtdated

/-- The service reads back the time of each webhook. -/
theorem Generator.Traffic.readsBack {src : GeneratedEvent} (hsrc : src ∈ base ++ stale) :
    Platform.isDateString src.payload.occurredAt = true := by
  rcases List.mem_append.mp hsrc with hbase | hstale
  · obtain ⟨n, hpos, hle, htime⟩ := ht.recent src hbase
    rw [htime]
    exact (hrecent n hpos hle).2
  · rw [ht.outdated src hstale]
    exact (houtdated (List.ne_nil_of_mem hstale)).2

include hupper in
/-- The service admits what is to be stored. -/
theorem Generator.Traffic.admitted (hlength : ∀ e ∈ base ++ stale,
      PaymentWebhookDto.validatorLength e.eventId ≤ 255 ∧ PaymentWebhookDto.validatorLength e.orderId ≤ 255)
    {e : GeneratedEvent} (he : e ∈ base ++ duplicates ++ stale) : e.admitted rt opts.secret = true := by
  obtain ⟨src, hsrc, -, -, hpayload, hbody, hsignature⟩ := ht.source he
  obtain ⟨hsound, hsigned⟩ := ht.sound src hsrc
  have hauth : e.authentic rt opts.secret = true :=
    (authentic_iff (by rw [hsignature, hsigned, hbody])).mpr rfl
  have haccepts : PaymentWebhookDto.accepts src.payload = true :=
    accepts_of_sound hupper hsound (hlength src hsrc).1 (hlength src hsrc).2
      (ht.readsBack hrecent houtdated hsrc)
  rw [GeneratedEvent.admitted, hauth, hpayload, haccepts]
  rfl

include hupper in
/-- **All webhooks have been sent.** -/
theorem Simulation.sent (hs : Simulation cfg rt opts w postings)
    (hposted : (generate rt opts).allEvents = base ++ duplicates ++ invalid ++ stale)
    (hsecret : opts.secret ≠ "wrong-secret")
    (hcollision : ∀ body, rt.hmacSha256 opts.secret body = rt.hmacSha256 "wrong-secret" body →
      opts.secret = "wrong-secret")
    (hlength : ∀ e ∈ base ++ stale,
      PaymentWebhookDto.validatorLength e.eventId ≤ 255 ∧ PaymentWebhookDto.validatorLength e.orderId ≤ 255) :
    Sent rt opts.secret postings base duplicates invalid stale where
  posted := hposted ▸ hs.posted
  admitted _ he := ht.admitted hupper hrecent houtdated hlength he
  refused := by
    intro e he
    rw [← Bool.not_eq_true, authentic_iff (ht.forged e he)]
    exact fun heq => hsecret (hcollision e.rawBody heq.symm)
  inTime := by
    intro p hp src hbase hpayload
    obtain ⟨n, hpos, hle, htime⟩ := ht.recent src hbase
    refine Posting.in_time (hrecent n hpos hle) (by rw [hpayload, htime]) ((hs.window p hp).2.trans_le ?_)
    show (1000 * (opts.baseTimeMs + 5 * 60 * 1000) : ℤ) ≤ _
    omega
  tooLate := by
    intro p hp src hstale hpayload
    refine Posting.too_late (houtdated (List.ne_nil_of_mem hstale)) (by rw [hpayload, ht.outdated src hstale]) ?_
    have hwindow := (hs.window p hp).1
    omega

end Oracle

/-! ## A run of one webhook -/

/-- A turn that has not failed. -/
theorem BusinessLog.not_failed {e : EventRow} {log : Log} {result : ProcessingResult}
    (h : BusinessLog e log result) {q} : failed (q :: log) = false := by
  cases h <;> rfl

/-- **A request and a turn of a worker**, one after the other, and nothing else. -/
structure TakenIn (cfg : WorkerConfig) (req : WebhookRequest) (w : State) (i j : ℕ) : Prop where
  reach : Reach cfg .empty w
  ingested : ∃ a c, w.sessions i = some ⟨.ingest req, .done a, c⟩
  worker : ∃ input, Called w j (.processOne input)
  others : ∀ k, k ≠ i → k ≠ j → w.sessions k = none
  failures : ∀ c ∈ w.journal, failed c.2 = false
  applied : ∃ e, w.db.events = [e] ∧ e.processingStatus = .applied

/-- **The first webhook** is ingested, and a worker applies it. -/
theorem exists_takenIn (cfg : WorkerConfig) (clock : Timestamp) {b : RawBody} {cents : Option ℤ}
    {status : OrderStatus} (hb : b.Storable) (hrecent : b.Recent clock) (hmoney : b.Applicable cents)
    (hmap : mapEventToStatus b.json.eventType = some (.known status)) (hpos : 0 < b.json.sequence) :
    ∃ w i j, Resting cfg w ∧ TakenIn cfg (b.request clock) w i j := by
  have hstart := Resting.start cfg ⟨clock, 0, 0, 0, 0, 0⟩
  obtain ⟨w₁, row, r, hcont₁, hawaits, hdb₁, i, d, cte, ws, a, c, hfree, hsessions₁, hjournal₁⟩ :=
    hstart.ingest hb hrecent rfl
  obtain ⟨w₂, j, t, hcont₂, hfree₂, hbegun, -, hdb₂, hjournal₂, hothers⟩ :=
    hcont₁.rest.begin (.processOne ⟨0, 0⟩)
  have hevents₂ : w₂.db.events = [row] := by
    rw [hdb₂, hdb₁]
    rfl
  have hseq : ∀ d isNew o, OpenedOrder w₂.db row.orderId d isNew o → o.lastSequence < row.sequence := by
    intro d isNew o ho
    rw [ho.eq_default (by rw [hdb₂, hdb₁]; rfl), hawaits.sequence]
    exact hpos
  obtain ⟨w, ⟨hfollows, s, hsessions⟩, ⟨d', log, result, hlog, hjournal⟩, d₁, d₃, d₄, d₅, isNew, order, -, -,
    -, hdb⟩ := hcont₂.rest.applied hbegun (by simp [hevents₂]) hawaits (by simp [hevents₂])
      (by rw [hdb₂, hdb₁]; intro r hr; cases hr) (by rw [hawaits.eventType]; exact hmap) hmoney hseq
  have hij : i ≠ j := by
    rintro rfl
    rw [hsessions₁, Function.update_self] at hfree₂
    cases hfree₂
  refine ⟨w, i, j, hfollows.rest, hfollows.rest.reach, ⟨a, c, ?_⟩, ⟨_, hbegun.called.run hfollows.run.reachable⟩, ?_, ?_,
    row.applied d₅, ?_, rfl⟩
  · rw [hsessions, Function.update_of_ne hij, hothers i hij, hsessions₁, Function.update_self]
    rfl
  · intro k hki hkj
    rw [hsessions, Function.update_of_ne hkj, hothers k hkj, hsessions₁, Function.update_of_ne hki]
    rfl
  · rw [hjournal, hjournal₂, hjournal₁]
    intro call hcall
    simp only [World.start, List.nil_append, List.mem_append, List.mem_singleton] at hcall
    rcases hcall with rfl | rfl
    · rfl
    · exact hlog.not_failed
  · rw [hdb]
    show Tables.replace EventRow.keys (row.applied d₅) w₂.db.events = _
    rw [hevents₂]
    exact congrArg (fun x => [x]) (if_pos rfl)

/-- **A run of one webhook**, which a worker applies, and after which the system rests. -/
theorem exists_resting_simulation {rt : Runtime} {opts : GenerateOptions} {e : GeneratedEvent} (cfg : WorkerConfig)
    (clock : Timestamp) (hevents : (generate rt opts).allEvents = [e]) (hsound : Sound rt e)
    (hadmitted : e.admitted rt opts.secret = true)
    (hwindow : 1000 * (opts.baseTimeMs - 5 * 60 * 1000) < clock ∧
      clock < 1000 * (opts.baseTimeMs + 5 * 60 * 1000))
    (hb : (⟨e.rawBody, e.payload⟩ : RawBody).Storable)
    (hrecent : (⟨e.rawBody, e.payload⟩ : RawBody).Recent clock) :
    ∃ w i, Resting cfg w ∧ Simulation cfg rt opts w [⟨e, i, "", clock⟩] := by
  let b : RawBody := ⟨e.rawBody, e.payload⟩
  obtain ⟨cents, currency, hfits, hcurrency, hdata⟩ := hsound.money
  have hmoney : b.Applicable (some (cents : ℤ)) := by
    have hletters : ∀ c ∈ ["MXN", "USD", "EUR"], varcharFits 3 c = true := by decide
    refine ⟨?_, hfits, ?_⟩
    · simp [numericParam, RawBody.amount, b, hdata, numericIn_numericText hfits]
    · simpa [RawBody.currency, b, hdata] using hletters currency hcurrency
  have hmap : mapEventToStatus b.json.eventType = some (.known e.status) := by
    show mapEventToStatus e.payload.eventType = _
    rw [hsound.eventType, mapEventToStatus_type]
  obtain ⟨w, i, j, hrest, htaken⟩ := exists_takenIn cfg clock hb hrecent hmoney hmap
    (hsound.positive.trans_eq hsound.sequence.symm)
  obtain ⟨a, c, hi⟩ := htaken.ingested
  obtain ⟨delivery, -, hanswer⟩ := htaken.reach.ingest_answered hi rfl rfl
  have hcalled : Called w i (.ingest (b.request clock)) := ⟨_, hi, rfl⟩
  refine ⟨w, i, hrest, htaken.reach, by rw [hevents]; exact .refl _, ?_, ?_, by simp [hadmitted], ?_, ?_,
    htaken.failures, ?_⟩
  · simpa using hwindow
  · obtain ⟨hauth, haccepts⟩ := GeneratedEvent.authentic_of_admitted hadmitted
    simp [Posting.response, hauth, haccepts, answerOf, hi, hanswer]
  · intro p hp _
    rw [List.mem_singleton.mp hp]
    exact hcalled
  · rintro k call ⟨s, hs, rfl⟩
    by_cases hki : k = i
    · subst hki
      refine .inl ⟨_, List.mem_singleton.mpr rfl, hadmitted, rfl, ?_⟩
      rw [hi] at hs
      rw [← Option.some.inj hs]
      rfl
    · obtain rfl : k = j := by
        by_contra hkj
        rw [htaken.others k hki hkj] at hs
        cases hs
      obtain ⟨input, s', hs', hcall⟩ := htaken.worker
      rw [hs', Option.some_inj] at hs
      subst hs
      exact .inr ⟨_, hcall⟩
  · obtain ⟨row, hrow, happlied⟩ := htaken.applied
    simp [hrow, happlied]

/-- **A run of one webhook**, which a worker applies. -/
theorem exists_simulation {rt : Runtime} {opts : GenerateOptions} {e : GeneratedEvent} (cfg : WorkerConfig)
    (clock : Timestamp) (hevents : (generate rt opts).allEvents = [e]) (hsound : Sound rt e)
    (hadmitted : e.admitted rt opts.secret = true)
    (hwindow : 1000 * (opts.baseTimeMs - 5 * 60 * 1000) < clock ∧
      clock < 1000 * (opts.baseTimeMs + 5 * 60 * 1000))
    (hb : (⟨e.rawBody, e.payload⟩ : RawBody).Storable)
    (hrecent : (⟨e.rawBody, e.payload⟩ : RawBody).Recent clock) :
    ∃ w i, Simulation cfg rt opts w [⟨e, i, "", clock⟩] := by
  obtain ⟨w, i, -, hrun⟩ := exists_resting_simulation cfg clock hevents hsound hadmitted hwindow hb hrecent
  exact ⟨w, i, hrun⟩

/-! ## The oracle -/

/-- **The oracle of the generator agrees with the service.**  If the platform reads back the times of the run,
the secrets have different codes and the ids are short enough, then in every run of the simulator to its end the
answers are as many as the statistics say, the events of each order are those that are expected, and each order
stands where it is expected. -/
theorem oracle_agrees (rt : Runtime) (opts : GenerateOptions) (postings : List Posting)
    (hupper : ∀ c ∈ ["MXN", "USD", "EUR"], Platform.toUpperCase c = c)
    (hrecent : ∀ n : ℕ, 1 ≤ n → n ≤ opts.events → ReadsBack rt (opts.baseTimeMs + n))
    (houtdated : (generate rt opts).stats.staleTimestamps ≠ 0 → ReadsBack rt (opts.baseTimeMs - 10 * 60 * 1000))
    (hsecret : opts.secret ≠ "wrong-secret")
    (hcollision : ∀ body, rt.hmacSha256 opts.secret body = rt.hmacSha256 "wrong-secret" body →
      opts.secret = "wrong-secret")
    (hlength : ∀ e ∈ (generate rt opts).allEvents, e.isInvalidSignature = false →
      PaymentWebhookDto.validatorLength e.eventId ≤ 255 ∧ PaymentWebhookDto.validatorLength e.orderId ≤ 255)
    (hrun : Simulation cfg rt opts w postings) :
    let generated := generate rt opts
    let responses := postings.map (Posting.response rt opts.secret w)
    (responses.count (some (.accepted .created)) = generated.stats.base ∧
      responses.count (some (.accepted .duplicate)) = generated.stats.duplicates ∧
      responses.count (some (.accepted .ignored)) = generated.stats.staleTimestamps ∧
      responses.count (some .unauthorized) = generated.stats.invalidSignatures ∧
      responses.count (some (.accepted .rejected)) = 0 ∧ responses.count (some .badRequest) = 0) ∧
    (∀ id, ((w.db.events.filter (·.orderId = id)).map EventRow.eventId).Perm
      ((generated.expectedEventsByOrder.lookup id).getD [])) ∧
    (∀ id, (w.db.order? id).map OrderRow.state? = (generated.expectedStates.lookup id).map some) ∧
    ∀ rng, InUnit rng → (shuffle generated.allEvents rng).Perm generated.allEvents := by
  intro generated responses
  have ht := traffic rt opts (createRng_inUnit opts.seed)
  have hmem : ∀ e ∈ trimmedBase rt opts (createRng opts.seed) ++ staleEvents rt opts (createRng opts.seed),
      e ∈ (generate rt opts).allEvents := by
    intro e he
    show e ∈ _ ++ _ ++ _ ++ _
    rcases List.mem_append.mp he with he | he <;> simp [he]
  have houtdated' : staleEvents rt opts (createRng opts.seed) ≠ [] →
      ReadsBack rt (opts.baseTimeMs - 10 * 60 * 1000) := fun hne =>
    houtdated (List.length_pos_iff.mpr hne).ne'
  have hsent := hrun.sent ht hupper hrecent houtdated' rfl hsecret hcollision fun e he =>
    hlength e (hmem e he) (ht.genuine e he)
  have hinbox := hrun.inbox ht hsent
  obtain ⟨hcreated, hduplicate, hignored, hrejected, hunauthorized, hbad⟩ := hrun.count_answers ht hsent
  exact ⟨⟨hcreated, hduplicate, hignored, hunauthorized, hrejected, hbad⟩, hinbox.events hrun.reach ht,
    hinbox.states hrun.reach ht, fun rng _ => shuffle_perm _ rng⟩

end Service

/-! ## Samples -/

/-- The simulator, as far as the samples need it. -/
def sampleRuntime : Runtime where
  toISOString t := if t = 1768471200000 then "2026-01-15T10:00:00.000Z" else ""
  stringify p := ("\x7b\"event_id\":\"" ++ p.eventId ++ "\",\"event_type\":\"" ++ p.eventType ++
    "\",\"order_id\":\"" ++ p.orderId ++ "\",\"sequence\":" ++ toString p.sequence ++
    ",\"occurred_at\":\"" ++ p.occurredAt ++ "\",\"data\":\x7b\"amount\":\"" ++
    (p.data.bind PaymentWebhookData.amount).getD "" ++ "\",\"currency\":\"" ++
    (p.data.bind PaymentWebhookData.currency).getD "" ++ "\"\x7d\x7d").toUTF8.toList
  hmacSha256 secret _ :=
    if secret = "wrong-secret" then #v[109, 220, 18, 101, 217, 217, 134, 19, 234, 228, 95, 196, 34, 167, 134,
      19, 48, 237, 31, 78, 84, 153, 18, 72, 56, 47, 64, 229, 205, 51, 71, 180]
    else #v[217, 255, 131, 41, 99, 94, 90, 17, 238, 51, 38, 150, 121, 31, 63, 80, 3, 142, 8, 101, 121, 8, 60,
      181, 168, 183, 79, 208, 189, 123, 237, 245]

/-- The hash of the only body of the samples. -/
def simulatorHash : String := "739b886f0a897d9e4488d79e3e8d44883607d504d7cfc2183fcbdc76474d639b"

theorem simulatorHash_fits : varcharFits 64 simulatorHash = true := by decide

/-- The surroundings, as far as the samples need them. -/
@[reducible] def simulatorPlatform : Platform :=
  { samplePlatform with sha256Hex := fun _ => simulatorHash, sha256Hex_fits := fun _ => simulatorHash_fits }

/-- A run of one webhook. -/
def sampleRun : GenerateOptions where
  events := 1
  baseTimeMs := 1768471199999

/-- The currencies of the generator are in capitals. -/
theorem toUpperCase_sample : letI := simulatorPlatform
    ∀ c ∈ ["MXN", "USD", "EUR"], Platform.toUpperCase c = c := by
  intro c hc
  show c.toUpper = c
  simp only [List.mem_cons, List.not_mem_nil, or_false] at hc
  rcases hc with rfl | rfl | rfl <;> rw [← String.toList_inj] <;> simp [String.toUpper]

/-- The codes of the sample are different. -/
theorem collision_sample (secret : String) (h : secret ≠ "wrong-secret") (body : List UInt8) :
    sampleRuntime.hmacSha256 secret body = sampleRuntime.hmacSha256 "wrong-secret" body →
      secret = "wrong-secret" := by
  simp [sampleRuntime, h]

/-- The times of the samples are read back. -/
theorem readsBack_sample : letI := simulatorPlatform
    ∀ n : ℕ, 1 ≤ n → n ≤ 1 → ReadsBack sampleRuntime (1768471199999 + n) := by
  let _ := simulatorPlatform
  intro n hpos hle
  obtain rfl : n = 1 := by omega
  exact ⟨rfl, rfl⟩

/-- **The oracle agrees on a run of one webhook.** -/
theorem oracle_agrees_sample : letI := simulatorPlatform
    ∃ (w : State) (postings : List Posting), Simulation .default sampleRuntime sampleRun w postings ∧
      (postings.map (Posting.response sampleRuntime sampleRun.secret w)).count (some (.accepted .created)) = 1 := by
  let _ := simulatorPlatform
  obtain ⟨e, hall, hone, hzero, ht, hsequence, heventId, horderId⟩ :=
    generate_one sampleRuntime sampleRun rfl (by norm_num [sampleRun])
  have he : e ∈ [e] := List.mem_singleton.mpr rfl
  have hsound := (ht.sound e he).1
  have hlength : ∀ e' ∈ [e], PaymentWebhookDto.validatorLength e'.eventId ≤ 255 ∧
      PaymentWebhookDto.validatorLength e'.orderId ≤ 255 := by
    rw [List.forall_mem_singleton, heventId, horderId]
    decide
  have hadmitted := ht.admitted toUpperCase_sample readsBack_sample (fun hne => absurd rfl hne) hlength he
  obtain ⟨n, hpos, hle, htime⟩ := ht.recent e he
  obtain rfl : n = 1 := le_antisymm hle hpos
  have htext : e.payload.occurredAt = "2026-01-15T10:00:00.000Z" := htime
  have hstorable : (⟨e.rawBody, e.payload⟩ : RawBody).Storable := by
    refine ⟨by rw [htext]; rfl, rfl, ?_, ?_, ?_, ?_, ?_⟩
    · rw [hsound.eventId, heventId]
      decide
    · rw [hsound.orderId, horderId]
      decide
    · rw [hsound.eventType]
      cases e.status <;> decide
    · rw [hsound.sequence, hsequence]
      decide
    · rw [hsound.sequence, hsequence]
      decide
  have hrecent : (⟨e.rawBody, e.payload⟩ : RawBody).Recent sampleTime := by
    rw [RawBody.Recent, htext]
    rfl
  obtain ⟨w, i, hrun⟩ := exists_simulation .default sampleTime hall hsound hadmitted (by decide) hstorable
    hrecent
  obtain ⟨⟨hcreated, -⟩, -⟩ := oracle_agrees sampleRuntime sampleRun _ toUpperCase_sample readsBack_sample
    (fun hne => absurd hzero hne) (by decide) (collision_sample _ (by decide))
    (fun e' he' _ => hlength e' (hall ▸ he')) hrun
  exact ⟨w, _, hrun, hcreated.trans hone⟩

/-- A run with a long name. -/
def longRun : GenerateOptions where
  events := 1
  runId := String.ofList (List.replicate 512 'r')
  baseTimeMs := 1768471199999

theorem longRun_length : longRun.runId.length = 512 := by
  show (String.ofList (List.replicate 512 'r')).length = 512
  rw [String.length_ofList, List.length_replicate]

/-- **The validation turns away what is too long**: the service answers 400 where the oracle
expects that the webhook is stored. -/
theorem oracle_disagrees_on_long_ids : letI := simulatorPlatform
    ∃ (w : State) (postings : List Posting), Simulation .default sampleRuntime longRun w postings ∧
      postings.map (Posting.response sampleRuntime longRun.secret w) = [some .badRequest] ∧
      (postings.map (Posting.response sampleRuntime longRun.secret w)).count (some (.accepted .created)) ≠
        (generate sampleRuntime longRun).stats.base := by
  let _ := simulatorPlatform
  obtain ⟨e, hall, hone, -, ht, -, heventId, -⟩ :=
    generate_one sampleRuntime longRun rfl (by norm_num [longRun])
  obtain ⟨hsound, hsigned⟩ := ht.sound e (List.mem_singleton.mpr rfl)
  have hauth : e.authentic sampleRuntime longRun.secret = true := (authentic_iff hsigned).mpr rfl
  have hlong : 255 < PaymentWebhookDto.validatorLength e.payload.eventId := by
    have hlength : 512 ≤ e.payload.eventId.length := by
      rw [hsound.eventId, heventId, identifier, String.length_append, String.length_append, longRun_length]
      omega
    have hpresentation := PaymentWebhookDto.two_mul_presentationSequences_le e.payload.eventId.toList
    rw [String.length_toList] at hpresentation
    rw [PaymentWebhookDto.validatorLength]
    omega
  have hrefused : PaymentWebhookDto.accepts e.payload = false := by
    rw [← Bool.not_eq_true, PaymentWebhookDto.accepts_iff]
    exact fun haccepted => absurd haccepted.eventId.2 (not_le.mpr hlong)
  have hadmitted : e.admitted sampleRuntime longRun.secret = false := by
    rw [GeneratedEvent.admitted, hauth, hrefused]
    rfl
  have hresponse : ∀ w : State, Posting.response sampleRuntime longRun.secret w ⟨e, 0, "", sampleTime⟩ =
      some .badRequest := fun w => by simp [Posting.response, hauth, hrefused]
  refine ⟨World.start .empty ⟨sampleTime, 0, 0, 0, 0, 0⟩, [⟨e, 0, "", sampleTime⟩], ?_, ?_, ?_⟩
  · refine ⟨⟨_, .refl⟩, by rw [hall]; exact .refl _, ?_, ?_, ?_, ?_, ?_, ?_, ?_⟩
    · exact List.forall_mem_singleton.mpr (show _ < sampleTime ∧ sampleTime < _ from by decide)
    · exact List.forall_mem_singleton.mpr (by rw [hresponse]; rfl)
    · simp [hadmitted]
    · exact List.forall_mem_singleton.mpr fun h => by simp [hadmitted] at h
    · rintro i c ⟨s, hs, -⟩
      cases hs
    · intro c hc
      cases hc
    · intro row hrow
      cases hrow
  · rw [List.map_singleton, hresponse]
  · rw [List.map_singleton, hresponse]
    rw [hone]
    decide

end PaymentWebhook
