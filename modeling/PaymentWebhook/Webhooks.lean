import PaymentWebhook.Statements

set_option relaxedAutoImplicit false
set_option autoImplicit false

/-!
# Ingestion of webhooks

The validation of a webhook body and `WebhookIngestionService.ingest`.

## Main definitions

* `PaymentWebhook.PaymentWebhookDto.accepts` — what the DTO's decorators accept.
* `PaymentWebhook.ingest` — ingestion of an accepted body.

## Implementation notes

PostgreSQL runs a statement outside a transaction block in a transaction of its own, which it
commits before it answers.  The requests `BEGIN` and `COMMIT` around the one statement stand for
that: a fault at either is a fault of the statement.
-/

namespace PaymentWebhook

open Transactions

/-! ## Validation -/

namespace PaymentWebhookDto

/-- `ALLOWED_EVENT_TYPES`. -/
def ALLOWED_EVENT_TYPES : List String :=
  ["payment.pending", "payment.authorized", "payment.captured", "payment.refunded",
    "payment.failed"]

/-- U+FE0E and U+FE0F. -/
def isVariationSelector (c : Char) : Bool := c = '\ufe0e' || c = '\ufe0f'

/-- The number of matches of `/[^\uFE0F\uFE0E][\uFE0F\uFE0E]/g`. -/
def presentationSequences : List Char → ℕ
  | c :: v :: s =>
    if !isVariationSelector c && isVariationSelector v then presentationSequences s + 1
    else presentationSequences (v :: s)
  | _ => 0

/-- At most every other character is a presentation selector that does not count. -/
theorem two_mul_presentationSequences_le (s : List Char) : 2 * presentationSequences s ≤ s.length := by
  fun_induction presentationSequences s with
  | case1 c v s _ ih =>
    simp only [List.length_cons]
    omega
  | case2 c v s _ ih =>
    simp only [List.length_cons] at ih ⊢
    omega
  | case3 => exact Nat.zero_le _

/-- The length that `@Length` and `@MaxLength` look at: code points, a character with its
presentation selector counting once. -/
def validatorLength (s : String) : ℕ := s.length - presentationSequences s.toList

/-- `/^(?:0|[1-9]\d{0,9})\.\d{2}$/`. -/
def amountMatches (s : String) : Bool :=
  let int := s.toList.takeWhile Char.isDigit
  (int = ['0'] || (int.head?.any (· ≠ '0') && int.length ≤ 10)) &&
    match s.toList.dropWhile Char.isDigit with
    | ['.', d, e] => d.isDigit && e.isDigit
    | _ => false

/-- `PaymentWebhookDataDto`. -/
def acceptsData [Platform] (data : PaymentWebhookData) : Bool :=
  data.amount.all amountMatches &&
  data.currency.all fun c => validatorLength c = 3 && Platform.toUpperCase c = c

/-- **`PaymentWebhookDto`**. -/
def accepts [Platform] (p : WebhookPayload) : Bool :=
  p.eventId ≠ "" && validatorLength p.eventId ≤ 255 &&
  p.orderId ≠ "" && validatorLength p.orderId ≤ 255 &&
  ALLOWED_EVENT_TYPES.contains p.eventType &&
  0 ≤ p.sequence &&
  Platform.isDateString p.occurredAt &&
  p.data.any acceptsData

/-- What an accepted payload is like, field by field. -/
structure Accepted [Platform] (p : WebhookPayload) : Prop where
  eventId : p.eventId ≠ "" ∧ validatorLength p.eventId ≤ 255
  orderId : p.orderId ≠ "" ∧ validatorLength p.orderId ≤ 255
  eventType : p.eventType ∈ ALLOWED_EVENT_TYPES
  sequence : 0 ≤ p.sequence
  occurredAt : Platform.isDateString p.occurredAt = true
  data : ∃ data, p.data = some data ∧ acceptsData data = true

theorem accepts_iff [Platform] {p : WebhookPayload} : accepts p = true ↔ Accepted p := by
  simp only [accepts, Bool.and_eq_true, decide_eq_true_eq, List.contains_iff_mem, Option.any_eq_true]
  constructor
  · rintro ⟨⟨⟨⟨⟨⟨⟨h₁, h₂⟩, h₃⟩, h₄⟩, h₅⟩, h₆⟩, h₇⟩, h₈⟩
    exact ⟨⟨h₁, h₂⟩, ⟨h₃, h₄⟩, h₅, h₆, h₇, h₈⟩
  · intro h
    exact ⟨⟨⟨⟨⟨⟨h.eventId, h.orderId.1⟩, h.orderId.2⟩, h.eventType⟩, h.sequence⟩, h.occurredAt⟩, h.data⟩

end PaymentWebhookDto

/-! ## Ingestion -/

/-- A webhook request, as the controller passes it on. -/
structure WebhookRequest where
  rawBody : RawBody
  correlationId : String
  receivedAt : Timestamp
  deriving DecidableEq, Repr

structure IngestionResult where
  eventId : String
  result : DeliveryResult
  message : String
  deriving DecidableEq, Repr

/-- `STALE_THRESHOLD_MS`. -/
def STALE_THRESHOLD_MS : ℤ := 5 * 60 * 1000

/-- `isStaleEvent`: every comparison with an invalid `Date` is false. -/
def isStaleEvent (occurredAt : Option Timestamp) (receivedAt : Timestamp) : Bool :=
  occurredAt.any (· < receivedAt - 1000 * STALE_THRESHOLD_MS)

variable [Platform]

/-- The parameters that `ingest` binds for the event. -/
def WebhookRequest.event (req : WebhookRequest) : EventInsertParams :=
  let isStale := isStaleEvent (Platform.dateParse req.rawBody.json.occurredAt) req.receivedAt
  { eventId := req.rawBody.json.eventId
    orderId := req.rawBody.json.orderId
    eventType := req.rawBody.json.eventType
    sequence := req.rawBody.json.sequence
    occurredAt := req.rawBody.json.occurredAt
    payload := req.rawBody
    payloadHash := Platform.sha256Hex req.rawBody.bytes
    receivedAt := req.receivedAt
    processingStatus := if isStale then .ignored else .pending
    outcomeReason := if isStale then some .staleTimestamp else none
    processedAt := if isStale then some req.receivedAt else none
    correlationId := req.correlationId }

/-- An event starts pending, or stale and finished with. -/
theorem WebhookRequest.event_status (req : WebhookRequest) :
    (req.event.processingStatus = .pending ∧ req.event.outcomeReason = none ∧
      req.event.processedAt = none) ∨
    (req.event.processingStatus = .ignored ∧ req.event.outcomeReason = some .staleTimestamp ∧
      req.event.processedAt = some req.receivedAt) := by
  unfold WebhookRequest.event
  cases isStaleEvent (Platform.dateParse req.rawBody.json.occurredAt) req.receivedAt <;> simp

/-- The parameters that `ingest` binds for the delivery. -/
def WebhookRequest.delivery (req : WebhookRequest) : DeliveryBaseParams where
  eventId := req.rawBody.json.eventId
  receivedAt := req.receivedAt
  correlationId := req.correlationId

/-- **`WebhookIngestionService.ingest`**. -/
def ingest (req : WebhookRequest) : Prog postgres IngestionResult :=
  Prog.transaction do
    let row ← sql (.upsertAndDeliver req.event req.delivery)
    Prog.request (E := postgres) .commit
    pure
      { eventId := req.rawBody.json.eventId
        result := row.deliveryResult
        message := "Webhook stored for asynchronous processing" }

end PaymentWebhook
