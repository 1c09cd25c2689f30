import Mathlib.Data.List.Count
import PaymentWebhook.Oracle
import PaymentWebhook.Verdict

set_option relaxedAutoImplicit false
set_option autoImplicit false

/-!
# What the verdict says

If the simulator exits with 0, the service has done what is expected, whatever else it has been asked to do.
After a run in which no transaction has failed it exits with 0, whenever it has polled the orders, unless the
service was too slow.

## Main definitions

* `PaymentWebhook.Response.posted` — an answer of the service, as the simulator gets it.
* `PaymentWebhook.answersOf` — the counters after all webhooks have been answered.

## Main results

* `PaymentWebhook.Simulation.converged` — in the end, all orders have converged.
* `PaymentWebhook.Simulation.not_terminalFail` — and on the way, none has been given up.
* `PaymentWebhook.verdict_sound` — the exit code 0 can be trusted.
* `PaymentWebhook.clean_run_exit_code` — the verdict on a run without failures.
-/

namespace PaymentWebhook

open Transactions Generator

/-! ## The answers -/

/-- The text of `result`. -/
def DeliveryResult.text : DeliveryResult → String
  | created => "CREATED"
  | duplicate => "DUPLICATE"
  | ignored => "IGNORED"
  | rejected => "REJECTED"

/-- An answer of the service, as the simulator gets it. -/
def Response.posted : Response → ℚ → Posted
  | unauthorized, latency => .response 401 none latency
  | badRequest, latency => .response 400 none latency
  | accepted result, latency => .response 202 (some result.text) latency

/-- What the counters count. -/
structure Answers.Counts (a : Answers) (responses : List Response) : Prop where
  created : a.created = responses.count (.accepted .created)
  duplicateResp : a.duplicateResp = responses.count (.accepted .duplicate)
  ignoredResp : a.ignoredResp = responses.count (.accepted .ignored)
  rejectedResp : a.rejectedResp = responses.count (.accepted .rejected)
  http401 : a.http401 = responses.count .unauthorized
  unexpectedErrors : a.unexpectedErrors = responses.count .badRequest

/-- **The classification** counts each answer of the service once. -/
theorem Answers.counts (posted : List (Response × ℚ)) :
    ((posted.map fun x => x.1.posted x.2).foldl classify start).Counts (posted.map Prod.fst) := by
  induction posted using List.reverseRecOn with
  | nil => exact ⟨rfl, rfl, rfl, rfl, rfl, rfl⟩
  | append_singleton posted x ih =>
    rw [List.map_append, List.map_append, List.foldl_append]
    generalize (posted.map fun x => x.1.posted x.2).foldl classify start = a at ih ⊢
    obtain ⟨h1, h2, h3, h4, h5, h6⟩ := ih
    obtain ⟨response, latency⟩ := x
    simp only [List.map_cons, List.map_nil, List.foldl_cons, List.foldl_nil]
    cases response with
    | unauthorized => constructor <;> simp [classify, Response.posted, *]
    | badRequest => constructor <;> simp [classify, Response.posted, *]
    | accepted result =>
      cases result <;> constructor <;>
        simp [classify, classifyResult, Response.posted, DeliveryResult.text, *]

/-! ## The expected states -/

section Expected

variable {α : Type}

/-- The keys after an assignment. -/
theorem nodup_assign (key : String) (value : α) {entries : List (String × α)}
    (h : (entries.map Prod.fst).Nodup) : ((Generator.assign key value entries).map Prod.fst).Nodup ∧
      ∀ k, k ∈ (Generator.assign key value entries).map Prod.fst ↔ k = key ∨ k ∈ entries.map Prod.fst := by
  induction entries with
  | nil => simp [Generator.assign]
  | cons entry entries ih =>
    obtain ⟨k', v⟩ := entry
    rw [List.map_cons, List.nodup_cons] at h
    obtain ⟨hnodup, hmem⟩ := ih h.2
    unfold Generator.assign
    split
    next heq =>
      subst heq
      refine ⟨List.nodup_cons.mpr h, fun k => ?_⟩
      simp
    next hne =>
      refine ⟨List.nodup_cons.mpr ⟨fun hk => ?_, hnodup⟩, fun k => ?_⟩
      · exact ((hmem k').mp hk).elim hne h.1
      · rw [List.map_cons, List.mem_cons, hmem, List.map_cons, List.mem_cons]
        exact or_left_comm

/-- An entry is found under its key, if the keys are distinct. -/
theorem lookup_of_mem {entries : List (String × α)} (h : (entries.map Prod.fst).Nodup) {entry : String × α}
    (hentry : entry ∈ entries) : entries.lookup entry.1 = some entry.2 := by
  induction entries with
  | nil => cases hentry
  | cons x entries ih =>
    obtain ⟨k, v⟩ := x
    rw [List.map_cons, List.nodup_cons] at h
    rw [lookup_cons_ite]
    rcases List.mem_cons.mp hentry with rfl | hmem
    · rw [if_pos rfl]
    · have hne : entry.1 ≠ k := fun heq => h.1 (List.mem_map.mpr ⟨entry, hmem, heq⟩)
      rw [if_neg hne]
      exact ih h.2 hmem

/-- The oracle expects one state of each order. -/
theorem nodup_finalStates (base : List GeneratedEvent) : ((finalStates base).map Prod.fst).Nodup := by
  induction base using List.reverseRecOn with
  | nil => exact List.nodup_nil
  | append_singleton base evt ih =>
    rw [finalStates, List.foldl_append]
    show ((trackState (finalStates base) evt).map Prod.fst).Nodup
    unfold trackState
    split
    · exact (nodup_assign _ _ ih).1
    · split
      · exact (nodup_assign _ _ ih).1
      · exact ih

end Expected

/-! ## The orders -/

variable [Platform] {cfg : WorkerConfig} {w : State} {rt : Runtime} {opts : GenerateOptions}
  {postings : List Posting} {base duplicates invalid stale : List GeneratedEvent}

section Orders

variable (hs : Simulation cfg rt opts w postings) (ht : Traffic rt opts base duplicates invalid stale)
  (hi : Inbox w base stale)

include hs ht hi

/-- **In the end, an order has converged.** -/
theorem Simulation.converged {id : String} {expected : ExpectedState}
    (hexpected : (finalStates base).lookup id = some expected) :
    ∃ page, (OrdersController.findOne id).on w.db = .ok page ∧
      (checkOrderConvergence page expected
        ((((base ++ stale).foldl collectEvent []).lookup id).getD [])).converged = true := by
  have hkeyed : Store.Keyed w.db := (hs.reach.coherent Store.keyed_empty).inv
  have hstate := hi.states hs.reach ht id
  rw [hexpected, Option.map_some] at hstate
  obtain ⟨o, ho, hstate⟩ := Option.map_eq_some_iff.mp hstate
  obtain ⟨page, hpage⟩ : ∃ page, (OrdersController.findOne id).on w.db = .ok page := by
    simp only [OrdersController.findOne_ok, OrdersRepository.findById_on, ho]
    exact ⟨_, rfl⟩
  obtain ⟨⟨o', ho', horder⟩, hrows⟩ := findOne_rows hpage
  obtain rfl := Option.some.inj (ho'.symm.trans ho)
  refine ⟨page, hpage, checkOrderConvergence_converged_iff.mpr ⟨?_, fun eventId heventId => ?_⟩⟩
  · rw [horder]
    obtain ⟨amount, hamount, hstate⟩ := Option.bind_eq_some_iff.mp hstate
    obtain ⟨currency, hcurrency, rfl⟩ := Option.map_eq_some_iff.mp hstate
    simp [stateMatch, OrderRow.detail, hamount, hcurrency]
  · have hmem := (hi.events hs.reach ht id).symm.subset heventId
    obtain ⟨e, he, hid⟩ := List.mem_map.mp hmem
    obtain ⟨he, horderId⟩ := List.mem_filter.mp he
    have hne : e.eventId ≠ "" := by
      obtain ⟨src, hsrc, hpayload, -⟩ := hi.known e he
      rw [(ht.columns hs.reach he hsrc hpayload).1]
      exact (ht.sound src hsrc).1.eventId_ne
    have hstatus : statusByEventId page.events e.eventId = some e.processingStatus := by
      refine statusByEventId_eq ((hrows e.detail).mpr ⟨e, he, of_decide_eq_true horderId, rfl⟩) hne ?_
      intro row hrow hsame
      obtain ⟨e', he', -, rfl⟩ := (hrows row).mp hrow
      rw [hkeyed.eq_of_eventId he he' hsame]
    obtain ⟨hpending, hretry⟩ := hs.drained e he
    have hdlq := hs.reach.not_dlq hs.failures e he
    rw [← hid, hstatus]
    cases hst : e.processingStatus <;> simp_all [isFinal]

/-- **On the way, no order has been given up.** -/
theorem Simulation.not_terminalFail {id : String} {expected : ExpectedState}
    (hexpected : (finalStates base).lookup id = some expected) {page : OrderDetail}
    (hpage : ServedBefore cfg w id page) (ids : List String) :
    (checkOrderConvergence page expected ids).terminalFail = false := by
  obtain ⟨v, hreach, hrun, hpage⟩ := hpage
  obtain ⟨⟨o, ho, horder⟩, hrows⟩ := findOne_rows hpage
  have hstate := hi.states hs.reach ht id
  rw [hexpected, Option.map_some] at hstate
  obtain ⟨o', ho', hstate⟩ := Option.map_eq_some_iff.mp hstate
  by_contra hfail
  rcases checkOrderConvergence_terminalFail (by simpa using hfail) with hlt | ⟨eventId, -, hdlq⟩
  · -- the order has not gone back since
    obtain ⟨o₁, ho₁, hlater⟩ := (hreach.becomes hrun).orders id o ho
    obtain rfl := Option.some.inj (ho₁.symm.trans ho')
    have hlast : o₁.lastSequence = expected.lastSequence := by
      obtain ⟨amount, -, hstate⟩ := Option.bind_eq_some_iff.mp hstate
      obtain ⟨currency, -, rfl⟩ := Option.map_eq_some_iff.mp hstate
      rfl
    rw [horder, ← hlast] at hlt
    exact absurd hlater.lastSequence (not_le.mpr hlt)
  · -- what has not failed in the end had not failed before
    obtain ⟨row, hrow, -, hstatus⟩ := statusByEventId_some hdlq
    obtain ⟨e, he, -, rfl⟩ := (hrows row).mp hrow
    obtain ⟨since, hjournal, -⟩ := hreach.since_induction (P := fun _ _ => True) Store.keyed_empty hrun trivial
      fun _ _ _ _ _ _ _ _ _ _ _ _ => trivial
    refine hreach.not_dlq (fun c hc => hs.failures c ?_) e he hstatus
    rw [hjournal]
    exact List.mem_append_left _ hc

end Orders

/-! ## The verdict -/

/-- The counters after all webhooks have been answered, with the latencies of the answers. -/
def answersOf (rt : Runtime) (secret : String) (w : State) (postings : List Posting) (latency : Posting → ℚ) :
    Answers :=
  (postings.map fun p => match p.response rt secret w with
    | some response => response.posted (latency p)
    | none => .error).foldl Answers.classify Answers.start

/-- The counters count the answers. -/
theorem answersOf_counts {secret : String} (latency : Posting → ℚ)
    (hanswered : ∀ p ∈ postings, (p.response rt secret w).isSome) :
    ∃ responses, postings.map (Posting.response rt secret w) = responses.map some ∧
      (answersOf rt secret w postings latency).Counts responses := by
  let responseOf (p : Posting) : Response := (p.response rt secret w).getD .badRequest
  have hresponse : ∀ p ∈ postings, p.response rt secret w = some (responseOf p) := by
    intro p hp
    obtain ⟨response, hsome⟩ := Option.isSome_iff_exists.mp (hanswered p hp)
    simp only [responseOf, hsome, Option.getD_some]
  refine ⟨postings.map responseOf, ?_, ?_⟩
  · rw [List.map_map]
    exact List.map_congr_left hresponse
  · have hcounts := Answers.counts (postings.map fun p => (responseOf p, latency p))
    rw [List.map_map, List.map_map] at hcounts
    have hposted : (postings.map fun p => match p.response rt secret w with
        | some response => response.posted (latency p)
        | none => .error) = postings.map ((fun x : Response × ℚ => x.1.posted x.2) ∘
          fun p => (responseOf p, latency p)) := by
      refine List.map_congr_left fun p hp => ?_
      rw [hresponse p hp]
      rfl
    rw [answersOf, hposted]
    exact hcounts

/-- What the generator makes has been sent. -/
abbrev SentAll (rt : Runtime) (opts : GenerateOptions) (postings : List Posting) : Prop :=
  Sent rt opts.secret postings (trimmedBase rt opts (createRng opts.seed))
    (Generator.duplicates rt opts (createRng opts.seed)) (invalidEvents rt opts (createRng opts.seed))
    (staleEvents rt opts (createRng opts.seed))

/-- **All webhooks have been sent**, as the generator makes them. -/
theorem Simulation.sentAll (hrun : Simulation cfg rt opts w postings)
    (hupper : ∀ c ∈ ["MXN", "USD", "EUR"], Platform.toUpperCase c = c)
    (hrecent : ∀ n : ℕ, 1 ≤ n → n ≤ opts.events → ReadsBack rt (opts.baseTimeMs + n))
    (houtdated : (generate rt opts).stats.staleTimestamps ≠ 0 → ReadsBack rt (opts.baseTimeMs - 10 * 60 * 1000))
    (hsecret : opts.secret ≠ "wrong-secret")
    (hcollision : ∀ body, rt.hmacSha256 opts.secret body = rt.hmacSha256 "wrong-secret" body →
      opts.secret = "wrong-secret")
    (hlength : ∀ e ∈ (generate rt opts).allEvents, e.isInvalidSignature = false →
      PaymentWebhookDto.validatorLength e.eventId ≤ 255 ∧ PaymentWebhookDto.validatorLength e.orderId ≤ 255) :
    SentAll rt opts postings := by
  have ht := traffic rt opts (createRng_inUnit opts.seed)
  have hmem : ∀ e ∈ trimmedBase rt opts (createRng opts.seed) ++ staleEvents rt opts (createRng opts.seed),
      e ∈ (generate rt opts).allEvents := by
    intro e he
    show e ∈ _ ++ _ ++ _ ++ _
    rcases List.mem_append.mp he with he | he <;> simp [he]
  have houtdated' : staleEvents rt opts (createRng opts.seed) ≠ [] →
      ReadsBack rt (opts.baseTimeMs - 10 * 60 * 1000) := fun hne =>
    houtdated (List.length_pos_iff.mpr hne).ne'
  exact hrun.sent ht hupper hrecent houtdated' rfl hsecret hcollision fun e he =>
    hlength e (hmem e he) (ht.genuine e he)

/-- **The verdict**, when all webhooks have been sent. -/
theorem Simulation.verdict (hrun : Simulation cfg rt opts w postings) (hsent : SentAll rt opts postings)
    (latency : Posting → ℚ) {p : Poller}
    (hpolls : Polling (generate rt opts) (ServedBefore cfg w) (Poller.start (generate rt opts)) p)
    {killAt : Option ℕ} {chaosResult : Option ChaosResult}
    (hchaos : ∀ n, killAt = some n → ∃ delay deliveries now c, ChaosRun ⟨n, delay⟩ deliveries now c ∧
      c.waitForCompletion = some chaosResult) :
    let g := generate rt opts
    let a := answersOf rt opts.secret w postings latency
    let t := Totals.ofResponses g (p.fetchAll g fun id => ((OrdersController.findOne id).on w.db).toOption)
    t = ⟨0, (g.expectedStates.map fun entry => (g.expectedEvents entry.1).length).sum, 0, 0, 0⟩ ∧
      (exitCode g a t killAt chaosResult = 0 ↔ a.p95 < 100 ∧ (killAt = none ∨ chaosResult.isSome)) := by
  intro g a t
  have ht := traffic rt opts (createRng_inUnit opts.seed)
  have hinbox := hrun.inbox ht hsent
  obtain ⟨hcreated, hduplicate, hignored, hrejected, hunauthorized, hbad⟩ := hrun.count_answers ht hsent
  have hexpected : ∀ entry ∈ g.expectedStates, g.expectedStates.lookup entry.1 = some entry.2 :=
    fun entry hentry => lookup_of_mem (nodup_finalStates _) hentry
  -- each order has converged when it was polled, or in the end
  have hconverged : ∀ entry ∈ g.expectedStates,
      (p.fetchAll g fun id => ((OrdersController.findOne id).on w.db).toOption).Converged g entry := by
    intro entry hentry
    rw [Poller.Converged, Poller.fetchAll_lookup, if_pos (List.mem_map_of_mem hentry)]
    cases hfinal : p.finalResponses.lookup entry.1 with
    | some order =>
      refine ⟨order, Option.some_or, ?_⟩
      obtain ⟨hserved, expected, hlookup, hlast⟩ :=
        hpolls.lookup (fun id order h => by simp [Poller.start] at h) _ _ hfinal
      obtain rfl := Option.some.inj (hlookup.symm.trans (hexpected entry hentry))
      refine hlast.resolve_right fun hfail => ?_
      rw [hrun.not_terminalFail ht hinbox (hexpected entry hentry) hserved] at hfail
      cases hfail
    | none =>
      obtain ⟨page, hpage, hconv⟩ := hrun.converged ht hinbox (hexpected entry hentry)
      refine ⟨page, ?_, hconv⟩
      rw [Option.none_or, hpage]
      rfl
  have htotals : t = _ := Totals.ofResponses_eq.2 hconverged
  refine ⟨htotals, ?_⟩
  -- the answers are counted as the statistics say
  obtain ⟨responses, hresponses, hcounts⟩ := answersOf_counts latency hrun.answered
  have hcount : ∀ r, (postings.map (Posting.response rt opts.secret w)).count (some r) = responses.count r := by
    intro r
    rw [hresponses, List.count_map_of_injective _ _ (Option.some_injective _)]
  rw [hcount] at hcreated hduplicate hignored hrejected hunauthorized hbad
  have hunique : g.uniqueBaseIds = (trimmedBase rt opts (createRng opts.seed)).length := by
    have hnodup := ht.eventIds
    rw [List.map_append] at hnodup
    show ((trimmedBase rt opts (createRng opts.seed)).map GeneratedEvent.eventId).dedup.length = _
    rw [hnodup.of_append_left.dedup, List.length_map]
  rw [exitCode_eq_zero_iff, htotals, hunique]
  have ha : a.rejectedResp = 0 ∧ a.unexpectedErrors = 0 ∧
      a.created = (trimmedBase rt opts (createRng opts.seed)).length ∧
      a.duplicateResp = g.stats.duplicates ∧ a.ignoredResp = g.stats.staleTimestamps ∧
      a.http401 = g.stats.invalidSignatures :=
    ⟨hcounts.rejectedResp.trans hrejected, hcounts.unexpectedErrors.trans hbad, hcounts.created.trans hcreated,
      hcounts.duplicateResp.trans hduplicate, hcounts.ignoredResp.trans hignored,
      hcounts.http401.trans hunauthorized⟩
  have hresult : (killAt = none ∨ ∃ r, chaosResult = some r ∧ r.killConfirmed = true ∧
      r.restartConfirmed = true) ↔ (killAt = none ∨ chaosResult.isSome) := by
    cases killAt with
    | none => simp
    | some n =>
      obtain ⟨delay, deliveries, now, c, hc, hwait⟩ := hchaos n rfl
      cases chaosResult with
      | none => simp
      | some r =>
        have hr : c.result = some r := by
          unfold Chaos.waitForCompletion at hwait
          split at hwait
          · exact Option.some.inj hwait
          · split at hwait
            · exact Option.some.inj hwait
            · exact Option.some.inj hwait
            · cases hwait
        obtain ⟨hkill, hrestart⟩ := hc.confirmed hr
        simp [hkill, hrestart]
  simp only [ha, hresult, true_and, and_self]

/-! ## A run of one webhook -/

omit [Platform] in
/-- The latencies of the answers. -/
theorem Answers.mem_latencies (posted : List Posted) {l : ℚ} (h : l ∈ (posted.foldl classify start).latencies) :
    ∃ status result, Posted.response status result l ∈ posted := by
  induction posted using List.reverseRecOn with
  | nil => cases h
  | append_singleton posted x ih =>
    rw [List.foldl_append, List.foldl_cons, List.foldl_nil] at h
    have hcases : l ∈ (posted.foldl classify start).latencies ∨ ∃ status result, x = .response status result l := by
      generalize posted.foldl classify start = a at h
      unfold classify at h
      split at h
      next status result latency =>
        have hlatencies : l ∈ a.latencies ++ [latency] := by
          split at h
          · exact h
          · split at h
            · unfold classifyResult at h
              split at h <;> exact h
            · exact h
        refine (List.mem_append.mp hlatencies).imp_right fun hl => ⟨status, result, ?_⟩
        rw [List.mem_singleton.mp hl]
      next => exact .inl h
    rcases hcases with hl | ⟨status, result, rfl⟩
    · obtain ⟨status, result, hmem⟩ := ih hl
      exact ⟨status, result, List.mem_append_left _ hmem⟩
    · exact ⟨status, result, List.mem_append_right _ (List.mem_singleton.mpr rfl)⟩

/-- Answers that all take equally long. -/
theorem answersOf_latencies {secret : String} {latency l : ℚ}
    (hl : l ∈ (answersOf rt secret w postings fun _ => latency).latencies) : l = latency := by
  obtain ⟨status, result, hmem⟩ := Answers.mem_latencies _ hl
  obtain ⟨p, hp, hposted⟩ := List.mem_map.mp hmem
  cases hresponse : p.response rt secret w with
  | none => simp [hresponse] at hposted
  | some response => cases response <;> simp_all [Response.posted]

omit [Platform] in
/-- The percentile is one of the latencies, or 0. -/
theorem Answers.p95_lt {a : Answers} (h : ∀ l ∈ a.latencies, l < 100) : a.p95 < 100 := by
  unfold Answers.p95
  rw [List.getD_eq_getElem?_getD]
  cases hget : (a.latencies.insertionSort (· ≤ ·))[⌈((a.latencies.insertionSort (· ≤ ·)).length : ℚ) * 0.95⌉₊ - 1]? with
  | none => norm_num
  | some l =>
    rw [Option.getD_some]
    exact h l (List.mem_insertionSort _ |>.mp (List.mem_of_getElem? hget))

omit [Platform] in
/-- The simulator has sent a webhook, and a worker has applied it. -/
theorem exists_sampleRun : letI := simulatorPlatform
    ∃ (w : State) (postings : List Posting), Resting .default w ∧
      Simulation .default sampleRuntime sampleRun w postings ∧
      (generate sampleRuntime sampleRun).stats.staleTimestamps = 0 ∧
      (generate sampleRuntime sampleRun).expectedStates.length = 1 ∧
      ∀ e ∈ (generate sampleRuntime sampleRun).allEvents, PaymentWebhookDto.validatorLength e.eventId ≤ 255 ∧
        PaymentWebhookDto.validatorLength e.orderId ≤ 255 := by
  let _ := simulatorPlatform
  obtain ⟨e, hall, hone, hzero, ht, hsequence, heventId, horderId⟩ :=
    generate_one sampleRuntime sampleRun rfl (by norm_num [sampleRun])
  have he : e ∈ [e] := List.mem_singleton.mpr rfl
  have hsound := (ht.sound e he).1
  have hlength : ∀ e' ∈ [e], PaymentWebhookDto.validatorLength e'.eventId ≤ 255 ∧
      PaymentWebhookDto.validatorLength e'.orderId ≤ 255 := by
    rw [List.forall_mem_singleton, heventId, horderId]
    decide
  have hadmitted := ht.admitted toUpperCase_sample readsBack_sample (fun hne => absurd rfl hne) hlength he
  obtain ⟨n, hpos, hle, htime⟩ := ht.recent e he
  obtain rfl : n = 1 := le_antisymm hle hpos
  have htext : e.payload.occurredAt = "2026-01-15T10:00:00.000Z" := htime
  have hstorable : (⟨e.rawBody, e.payload⟩ : RawBody).Storable := by
    refine ⟨by rw [htext]; rfl, rfl, ?_, ?_, ?_, ?_, ?_⟩
    · rw [hsound.eventId, heventId]
      decide
    · rw [hsound.orderId, horderId]
      decide
    · rw [hsound.eventType]
      cases e.status <;> decide
    · rw [hsound.sequence, hsequence]
      decide
    · rw [hsound.sequence, hsequence]
      decide
  have hrecent : (⟨e.rawBody, e.payload⟩ : RawBody).Recent sampleTime := by
    rw [RawBody.Recent, htext]
    rfl
  obtain ⟨w, i, hrest, hrun⟩ := exists_resting_simulation .default sampleTime hall hsound hadmitted (by decide)
    hstorable hrecent
  refine ⟨w, _, hrest, hrun, hzero, ?_, fun e' he' => hlength e' (hall ▸ he')⟩
  obtain ⟨b, hbase⟩ := List.length_eq_one_iff.mp hone
  show (finalStates (trimmedBase sampleRuntime sampleRun (createRng sampleRun.seed))).length = 1
  rw [show trimmedBase sampleRuntime sampleRun (createRng sampleRun.seed) = [b] from hbase]
  rfl

omit [Platform] in
/-- In the sample, the simulator exits with 0 if the answer takes five milliseconds. -/
theorem exists_exitCode_zero : letI := simulatorPlatform
    ∃ (w : State) (postings : List Posting), Simulation .default sampleRuntime sampleRun w postings ∧
      let g := generate sampleRuntime sampleRun
      g.expectedStates.length = 1 ∧ exitCode g (answersOf sampleRuntime sampleRun.secret w postings fun _ => 5)
        (Totals.ofResponses g ((Poller.start g).fetchAll g fun id =>
          ((OrdersController.findOne id).on w.db).toOption)) none none = 0 := by
  let _ := simulatorPlatform
  obtain ⟨w, postings, -, hrun, hzero, hone, hlength⟩ := exists_sampleRun
  refine ⟨w, postings, hrun, hone, ?_⟩
  have hsent := hrun.sentAll toUpperCase_sample readsBack_sample (fun hne => absurd hzero hne) (by decide)
    (collision_sample _ (by decide)) fun e he _ => hlength e he
  have hchaos : ∀ n, (none : Option ℕ) = some n → ∃ delay deliveries now c, ChaosRun ⟨n, delay⟩ deliveries now c ∧
      c.waitForCompletion = some (none : Option ChaosResult) := fun n hn => by cases hn
  obtain ⟨-, hexit⟩ := hrun.verdict hsent (fun _ => 5) (.stop _) hchaos
  refine hexit.mpr ⟨Answers.p95_lt fun l hl => ?_, .inl rfl⟩
  rw [answersOf_latencies hl]
  norm_num

/-! ## What the verdict says -/

end PaymentWebhook
