import Mathlib.Data.List.Nodup
import Mathlib.Data.Rat.Floor
import PaymentWebhook.Convergence
import PaymentWebhook.Signatures

set_option relaxedAutoImplicit false
set_option autoImplicit false

/-!
# The generator of test events

`generator.js` of the provider simulator: the webhooks of a run, with duplicates, forged and outdated
ones among them, and what the service is expected to make of them.

## Main definitions

* `PaymentWebhook.Generator.createRng`, `PaymentWebhook.Generator.shuffle` — random numbers, and
  the order in which the webhooks are sent.
* `PaymentWebhook.Generator.generateOrders` — the loops over orders and over their chains.
* `PaymentWebhook.Generator.generate` — the webhooks of a run, and its oracle.

## Main results

* `PaymentWebhook.Generator.shuffle_perm` — a shuffle loses nothing.
* `PaymentWebhook.Generator.createRng_inUnit` — the random numbers lie between zero and one.

## Implementation notes

A rate enters as a rational number, and so does a random number: a product of doubles that is rounded is
the product of other rational numbers.  The keys of the objects are never numerals, so that an
object lists its entries in the order in which they were first assigned.  `orderStates`, which the
program fills and does not read, is left out.
-/

namespace PaymentWebhook

namespace Generator

/-! ## Random numbers -/

/-- The next state of mulberry32. -/
def rngStep (s : BitVec 32) : BitVec 32 := s + 0x6d2b79f5#32

/-- What mulberry32 returns in the state `s`. -/
def rngValue (s : BitVec 32) : ℚ :=
  let t := (s ^^^ s >>> 15) * (1#32 ||| s)
  let t := (t + (t ^^^ t >>> 7) * (61#32 ||| t)) ^^^ t
  ((t ^^^ t >>> 14).toNat : ℚ) / 4294967296

/-- **`createRng`**: the random numbers, in the order of the calls. -/
def createRng (seed : ℤ) (n : ℕ) : ℚ := rngValue (rngStep^[n + 1] (BitVec.ofInt 32 seed))

/-- Random numbers between zero and one. -/
def InUnit (rng : ℕ → ℚ) : Prop := ∀ n, 0 ≤ rng n ∧ rng n < 1

/-- `Math.floor(rng() * n)`, at the `k`th call. -/
def randomInt (rng : ℕ → ℚ) (k n : ℕ) : ℕ := ⌊rng k * n⌋₊

variable {α : Type}

/-- `[a[i], a[j]] = [a[j], a[i]]`. -/
def swapAt (a : List α) (i j : ℕ) : List α :=
  if hi : i < a.length then
    if hj : j < a.length then (a.set i a[j]).set j a[i] else a
  else a

/-- The loop of `shuffle` from `i` down, at the `k`th call. -/
def shuffleFrom (rng : ℕ → ℚ) : ℕ → ℕ → List α → List α
  | 0, _, a => a
  | i + 1, k, a => shuffleFrom rng i (k + 1) (swapAt a (i + 1) (randomInt rng k (i + 2)))

/-- **`shuffle`**. -/
def shuffle (arr : List α) (rng : ℕ → ℚ) : List α := shuffleFrom rng (arr.length - 1) 0 arr

/-- **The generator of random numbers stays between zero and one.** -/
theorem createRng_inUnit (seed : ℤ) : InUnit (createRng seed) := by
  intro n
  unfold createRng rngValue
  refine ⟨by positivity, ?_⟩
  rw [div_lt_one (by norm_num)]
  exact_mod_cast BitVec.isLt _

/-- A random index is one of the list. -/
theorem randomInt_lt {rng : ℕ → ℚ} (h : InUnit rng) (k : ℕ) {n : ℕ} (hn : 0 < n) :
    randomInt rng k n < n := by
  obtain ⟨h₀, h₁⟩ := h k
  have hpos : (0 : ℚ) < n := by exact_mod_cast hn
  rw [randomInt, Nat.floor_lt (by positivity)]
  calc rng k * n < 1 * n := by gcongr
    _ = n := one_mul _

/-- An exchange loses nothing. -/
theorem swapAt_perm (a : List α) (i j : ℕ) : (swapAt a i j).Perm a := by
  unfold swapAt
  split_ifs with hi hj
  · exact List.set_set_perm hi hj
  · exact .refl a
  · exact .refl a

theorem shuffleFrom_perm (rng : ℕ → ℚ) : ∀ (i k : ℕ) (a : List α), (shuffleFrom rng i k a).Perm a
  | 0, _, a => .refl a
  | i + 1, k, a => (shuffleFrom_perm rng i (k + 1) _).trans (swapAt_perm a _ _)

/-- **A shuffle loses nothing.** -/
theorem shuffle_perm (arr : List α) (rng : ℕ → ℚ) : (shuffle arr rng).Perm arr :=
  shuffleFrom_perm rng _ _ arr

/-! ## Texts and objects -/

/-- `String(n).padStart(width, '0')`. -/
def padStart (width n : ℕ) : String := String.ofList (List.leftpad width '0' (Nat.toDigits 10 n))

/-- `object[key] = value`. -/
def assign (key : String) (value : α) : List (String × α) → List (String × α)
  | [] => [(key, value)]
  | (k, v) :: entries => if k = key then (k, value) :: entries else (k, v) :: assign key value entries

/-- Padding keeps the number. -/
theorem digitsValue_padStart (width n : ℕ) : digitsValue (padStart width n).toList = n := by
  have hzeros : ∀ (k : ℕ) (s : List Char), digitsValue (List.replicate k '0' ++ s) = digitsValue s := by
    intro k s
    induction k with
    | zero => rfl
    | succ k ih =>
      rw [List.replicate_succ, List.cons_append, ← ih]
      rfl
  rw [padStart, String.toList_ofList, List.leftpad, hzeros, digitsValue_toDigits]

/-- A padded number consists of digits. -/
theorem isDigit_padStart {width n : ℕ} : ∀ c ∈ (padStart width n).toList, c.isDigit = true := by
  intro c hc
  rw [padStart, String.toList_ofList, List.leftpad, List.mem_append] at hc
  rcases hc with hc | hc
  · rw [List.eq_of_mem_replicate hc]
    decide
  · exact Nat.isDigit_of_mem_toDigits (by decide) (by decide) hc

/-- **Padded numbers are different.** -/
theorem padStart_inj {width m n : ℕ} (h : padStart width m = padStart width n) : m = n := by
  rw [← digitsValue_padStart width m, h, digitsValue_padStart]

/-- Looking a key up, entry by entry. -/
theorem lookup_cons_ite (k k' : String) (v : α) (entries : List (String × α)) :
    ((k', v) :: entries).lookup k = if k = k' then some v else entries.lookup k := by
  rw [List.lookup_cons]
  by_cases h : k = k'
  · simp [h]
  · rw [if_neg h, beq_eq_false_iff_ne.mpr h]

/-- **An assignment** concerns no other key. -/
theorem lookup_assign (key : String) (value : α) (k : String) : ∀ entries : List (String × α),
    (assign key value entries).lookup k = if k = key then some value else entries.lookup k
  | [] => lookup_cons_ite k key value []
  | (k', v) :: entries => by
    unfold assign
    split_ifs with h' h h
    · subst h' h
      rw [lookup_cons_ite, if_pos rfl]
    · subst h'
      rw [lookup_cons_ite, lookup_cons_ite, if_neg h, if_neg h]
    · rw [lookup_cons_ite, if_neg fun heq => h' (heq.symm.trans h), lookup_assign key value, if_pos h]
    · rw [lookup_cons_ite, lookup_cons_ite, lookup_assign key value, if_neg h]

/-! ## Events -/

/-- `CHAINS`. -/
def CHAINS : List (List OrderStatus) :=
  [[.pending, .authorized, .captured, .refunded], [.pending, .failed], [.pending, .authorized, .failed],
    [.pending, .authorized, .captured], [.pending, .authorized], [.pending]]

/-- `STATUS_TO_EVENT_TYPE`. -/
def STATUS_TO_EVENT_TYPE : OrderStatus → String
  | .pending => "payment.pending"
  | .authorized => "payment.authorized"
  | .captured => "payment.captured"
  | .refunded => "payment.refunded"
  | .failed => "payment.failed"

/-- What the simulator uses of Node: `new Date(ms).toISOString()`, the bytes of
`JSON.stringify(payload)`, and HMAC-SHA256. -/
structure Runtime where
  toISOString : ℤ → String
  stringify : WebhookPayload → List UInt8
  hmacSha256 : String → List UInt8 → Vector UInt8 32

/-- `opts`, with the defaults of `generate`. -/
structure GenerateOptions where
  events : ℕ
  duplicateRate : ℚ := 0.2
  invalidRate : ℚ := 0.01
  staleRate : ℚ := 0.01
  seed : ℤ := 42
  secret : String := "dev-webhook-secret-change-me"
  runId : String := "run"
  baseTimeMs : ℤ

/-- A webhook of the run. -/
structure GeneratedEvent where
  eventId : String
  orderId : String
  eventType : String
  sequence : ℤ
  status : OrderStatus
  rawBody : List UInt8
  signature : String
  payload : WebhookPayload
  isBase : Bool := false
  isDuplicate : Bool := false
  isInvalidSignature : Bool := false
  isStaleTimestamp : Bool := false
  deriving DecidableEq, Repr

/-- What the program draws for an order. -/
structure OrderTerms where
  chain : List OrderStatus
  amount : String
  currency : String

section Events

variable (rt : Runtime) (opts : GenerateOptions) (rng : ℕ → ℚ)

/-- `createHmac('sha256', secret).update(rawBody).digest('hex')`. -/
def sign (secret : String) (rawBody : List UInt8) : String :=
  String.ofList (hexOf (rt.hmacSha256 secret rawBody).toList)

/-- What is drawn for an order from the `k`th call on. -/
def drawOrder (k : ℕ) : OrderTerms where
  chain := CHAINS.getD (randomInt rng k CHAINS.length) []
  amount := normalizeAmount (toString (randomInt rng (k + 1) 100000 + 100) ++ "." ++
    padStart 2 (randomInt rng (k + 2) 100))
  currency := ["MXN", "USD", "EUR"].getD (randomInt rng (k + 3) 3) ""

/-- The `orderId` of an order whose first event has the number `n`. -/
def orderIdOf (n : ℕ) : String := opts.runId ++ "-order-" ++ padStart 6 n

/-- The webhook number `counter`, about the `seq`th status of an order. -/
def baseEvent (orderId : String) (terms : OrderTerms) (status : OrderStatus) (seq counter : ℕ) :
    GeneratedEvent :=
  let payload : WebhookPayload :=
    { eventId := opts.runId ++ "-evt-" ++ padStart 8 counter
      orderId := orderId
      eventType := STATUS_TO_EVENT_TYPE status
      sequence := seq
      occurredAt := rt.toISOString (opts.baseTimeMs + counter)
      data := some ⟨some terms.amount, some terms.currency⟩ }
  let rawBody := rt.stringify payload
  { eventId := payload.eventId, orderId := orderId, eventType := payload.eventType, sequence := seq,
    status := status, rawBody := rawBody, signature := sign rt opts.secret rawBody, payload := payload,
    isBase := true }

/-- A copy of a webhook with another payload, signed with `secret`. -/
def noiseEvent (src : GeneratedEvent) (payload : WebhookPayload) (secret : String) : GeneratedEvent :=
  let noiseBody := rt.stringify payload
  { eventId := payload.eventId, orderId := src.orderId, eventType := src.eventType,
    sequence := src.sequence, status := src.status, rawBody := noiseBody,
    signature := sign rt secret noiseBody, payload := payload }

/-- An exact copy of a webhook. -/
def duplicateEvent (src : GeneratedEvent) : GeneratedEvent :=
  { src with isBase := false, isDuplicate := true }

/-- A webhook with an id of its own that is signed with the wrong secret. -/
def invalidEvent (src : GeneratedEvent) (counter : ℕ) : GeneratedEvent :=
  { noiseEvent rt src
      { src.payload with eventId := opts.runId ++ "-evt-noise-inv-" ++ padStart 8 counter }
      "wrong-secret" with
    isInvalidSignature := true }

/-- A webhook with an id of its own that occurred ten minutes before the run. -/
def staleEvent (src : GeneratedEvent) (counter : ℕ) : GeneratedEvent :=
  { noiseEvent rt src
      { src.payload with
        eventId := opts.runId ++ "-evt-noise-stale-" ++ padStart 8 counter
        occurredAt := rt.toISOString (opts.baseTimeMs - 10 * 60 * 1000) }
      opts.secret with
    isStaleTimestamp := true }

/-! ## The loops -/

/-- How far the loops have come. -/
structure Progress where
  baseEvents : List GeneratedEvent
  eventCounter : ℕ
  draws : ℕ

/-- The loop over the statuses of a chain from the index `i` on, which breaks off as soon as there are
enough webhooks. -/
def generateChain (orderId : String) (terms : OrderTerms) :
    List OrderStatus → ℕ → Progress → Progress
  | [], _, s => s
  | status :: chain, i, s =>
    if opts.events ≤ s.baseEvents.length then s
    else generateChain orderId terms chain (i + 1)
      { s with
        baseEvents := s.baseEvents ++
          [baseEvent rt opts orderId terms status (i + 1) (s.eventCounter + 1)]
        eventCounter := s.eventCounter + 1 }

/-- **The loop over orders**, which ends as soon as there are enough webhooks. -/
def generateOrders : ℕ → Progress → Progress
  | 0, s => s
  | fuel + 1, s =>
    if opts.events ≤ s.baseEvents.length then s
    else
      let terms := drawOrder rng s.draws
      generateOrders fuel
        (generateChain rt opts (orderIdOf opts (s.eventCounter + 1)) terms terms.chain 0
          { s with draws := s.draws + 4 })

/-- The loops from their beginning on.  Each turn adds a webhook. -/
def progress : Progress := generateOrders rt opts rng opts.events ⟨[], 0, 0⟩

/-- `trimmedBase`. -/
def trimmedBase : List GeneratedEvent := (progress rt opts rng).baseEvents.take opts.events

/-- `Math.floor(trimmedBase.length * rate)`. -/
def numOf (rate : ℚ) : ℕ := ⌊(trimmedBase rt opts rng).length * rate⌋₊

/-- The turns of a loop that draws a webhook from `trimmedBase` at each, from the `k`th call on. -/
def drawSources (n k : ℕ) : List GeneratedEvent :=
  (List.range n).filterMap fun i =>
    (trimmedBase rt opts rng)[randomInt rng (k + i) (trimmedBase rt opts rng).length]?

/-- `duplicates`. -/
def duplicates : List GeneratedEvent :=
  (drawSources rt opts rng (numOf rt opts rng opts.duplicateRate) (progress rt opts rng).draws).map
    duplicateEvent

/-- `invalidEvents`. -/
def invalidEvents : List GeneratedEvent :=
  let s := progress rt opts rng
  (drawSources rt opts rng (numOf rt opts rng opts.invalidRate)
    (s.draws + numOf rt opts rng opts.duplicateRate)).mapIdx fun i src =>
      invalidEvent rt opts src (s.eventCounter + i + 1)

/-- `staleEvents`. -/
def staleEvents : List GeneratedEvent :=
  let s := progress rt opts rng
  let numInvalid := numOf rt opts rng opts.invalidRate
  (drawSources rt opts rng (numOf rt opts rng opts.staleRate)
    (s.draws + numOf rt opts rng opts.duplicateRate + numInvalid)).mapIdx fun i src =>
      staleEvent rt opts src (s.eventCounter + numInvalid + i + 1)

/-- `allEvents`. -/
def allEvents : List GeneratedEvent :=
  trimmedBase rt opts rng ++ duplicates rt opts rng ++ invalidEvents rt opts rng ++ staleEvents rt opts rng

end Events

/-! ## The oracle -/

/-- What the order of a webhook looks like after it. -/
def GeneratedEvent.state (evt : GeneratedEvent) : ExpectedState where
  status := evt.status
  lastSequence := evt.sequence
  amount := (evt.payload.data.bind PaymentWebhookData.amount).getD ""
  currency := (evt.payload.data.bind PaymentWebhookData.currency).getD ""

/-- The turn of the loop over `trimmedBase` that keeps the state with the greatest sequence. -/
def trackState (states : List (String × ExpectedState)) (evt : GeneratedEvent) :
    List (String × ExpectedState) :=
  match states.lookup evt.orderId with
  | none => assign evt.orderId evt.state states
  | some state => if state.lastSequence < evt.sequence then assign evt.orderId evt.state states else states

/-- `finalStates`, which `expectedStates` repeats. -/
def finalStates (base : List GeneratedEvent) : List (String × ExpectedState) := base.foldl trackState []

/-- The turn of the loops that collect the ids of the webhooks that are stored. -/
def collectEvent (ids : List (String × List String)) (evt : GeneratedEvent) :
    List (String × List String) :=
  let known := (ids.lookup evt.orderId).getD []
  assign evt.orderId (if evt.eventId ∈ known then known else known ++ [evt.eventId]) ids

structure GeneratorStats where
  base : ℕ
  duplicates : ℕ
  invalidSignatures : ℕ
  staleTimestamps : ℕ
  total : ℕ
  orders : ℕ
  deriving DecidableEq, Repr

/-- What `generate` returns. -/
structure Generated where
  baseEvents : List GeneratedEvent
  allEvents : List GeneratedEvent
  expectedStates : List (String × ExpectedState)
  expectedEventsByOrder : List (String × List String)
  providerOrders : ProviderSnapshot
  stats : GeneratorStats

/-- **`generate`**. -/
def generate (rt : Runtime) (opts : GenerateOptions) : Generated :=
  let rng := createRng opts.seed
  let trimmedBase := trimmedBase rt opts rng
  let finalStates := finalStates trimmedBase
  let generatedAt := rt.toISOString opts.baseTimeMs
  { baseEvents := trimmedBase
    allEvents := allEvents rt opts rng
    expectedStates := finalStates
    expectedEventsByOrder := (trimmedBase ++ staleEvents rt opts rng).foldl collectEvent []
    providerOrders :=
      { generatedAt := generatedAt
        orders := finalStates.map fun (id, state) =>
          ⟨id, state.status, state.lastSequence, state.amount, state.currency, generatedAt⟩ }
    stats :=
      { base := trimmedBase.length
        duplicates := (duplicates rt opts rng).length
        invalidSignatures := (invalidEvents rt opts rng).length
        staleTimestamps := (staleEvents rt opts rng).length
        total := (allEvents rt opts rng).length
        orders := finalStates.length } }

end Generator

end PaymentWebhook
