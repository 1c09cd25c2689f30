import PaymentWebhook.Consumption
import PaymentWebhook.ExactlyOnce

set_option relaxedAutoImplicit false
set_option autoImplicit false

/-!
# Unknown event types

What the service does with an event whose type is not a key of `EVENT_TYPE_TO_STATUS`.  It ignores the
event, except that the table is an object literal: the names of the properties that every object
inherits stand for something, which is no status.

## Main definitions

* `PaymentWebhook.Disregarded` — events of a type are ignored, and never retried or applied.

## Main results

* `PaymentWebhook.call_unknownType` — a worker that nobody disturbs ignores the event.
* `PaymentWebhook.unknown_type_ignored_iff` — which types are disregarded.

## Implementation notes

The ingestion admits the five types only, so that the events of this file come from elsewhere: they are
rows of any store that meets its constraints, not of a reachable one only.
-/

namespace PaymentWebhook

open Transactions

/-! ## The table -/

/-- The keys of `EVENT_TYPE_TO_STATUS`. -/
def EVENT_TYPE_TO_STATUS.keys : List String :=
  ["payment.pending", "payment.authorized", "payment.captured", "payment.refunded", "payment.failed"]

/-- Nothing is found for the other types, inherited properties apart. -/
theorem mapEventToStatus_eq_none {eventType : String} (h : eventType ∉ EVENT_TYPE_TO_STATUS.keys)
    (hinherited : eventType ∉ objectPrototypeKeys) : mapEventToStatus eventType = none := by
  simp only [EVENT_TYPE_TO_STATUS.keys, List.mem_cons, List.not_mem_nil, or_false, not_or] at h
  obtain ⟨h₁, h₂, h₃, h₄, h₅⟩ := h
  simp only [mapEventToStatus, if_neg h₁, if_neg h₂, if_neg h₃, if_neg h₄, if_neg h₅,
    if_neg hinherited]

/-- What is found under a type that is not inherited is a status. -/
theorem exists_known {eventType : String} (hinherited : eventType ∉ objectPrototypeKeys)
    {target : MappedStatus} (h : mapEventToStatus eventType = some target) :
    ∃ status, target = .known status := by
  by_cases hkey : eventType ∈ EVENT_TYPE_TO_STATUS.keys
  · obtain ⟨status, hstatus⟩ := PaymentWebhookDto.map_of_mem_allowed hkey
    exact ⟨status, Option.some.inj (h.symm.trans hstatus)⟩
  · rw [mapEventToStatus_eq_none hkey hinherited] at h
    cases h

/-- An inherited property is found, and is no status. -/
theorem mapEventToStatus_inherited {eventType : String} (h : eventType ∈ objectPrototypeKeys) :
    mapEventToStatus eventType = some .inherited := by
  revert eventType
  decide

/-- No key is inherited. -/
theorem not_mem_keys_of_inherited {eventType : String} (h : eventType ∈ objectPrototypeKeys) :
    eventType ∉ EVENT_TYPE_TO_STATUS.keys := by
  revert eventType
  decide

/-- The result for an event of an unknown type. -/
def unknownEventType (order : OrderRow) : ProcessingResult where
  outcome := .ignored
  outcomeReason := some .unknownEventType
  previousStatus := order.status
  newStatus := .known order.status
  newSequence := order.lastSequence
  amount := none
  currency := none

theorem process_of_none {event : EventRow} {order : OrderRow}
    (h : mapEventToStatus event.eventType = none) : process event order = unknownEventType order := by
  unfold process
  rw [h]
  rfl

/-- The new status of a type that is not inherited is a status. -/
theorem newStatus_known {event : EventRow} {order : OrderRow}
    (h : event.eventType ∉ objectPrototypeKeys) :
    ∃ status, (process event order).newStatus = .known status := by
  unfold process
  cases hmap : mapEventToStatus event.eventType with
  | none => exact ⟨order.status, rfl⟩
  | some target =>
    obtain ⟨status, rfl⟩ := exists_known h hmap
    by_cases hseq : event.sequence > order.lastSequence
    · exact ⟨status, by simp only [if_pos hseq]⟩
    · exact ⟨order.status, by simp only [if_neg hseq]⟩

variable [Platform]

/-! ## A worker that nobody disturbs -/

/-- The moves of a turn in which every request is answered and, once the event is claimed, nobody else
holds a lock. -/
def undisturbed (d : ℕ → Draws) (skip : Key → Bool) (k : ℕ) : Move postgres :=
  ⟨d k, if k = 1 then skip else noSkip, .answered⟩

/-- The requests of a log depend on what its statements have drawn. -/
theorem requests_eq_map (b : Draws) (log : Log) :
    requests b log = (log.map Entry.draws).map fun d => answered (some b) d noSkip := by
  simp [requests]

/-- The store after a worker has ignored an event of an unknown type. -/
def Store.AfterUnknown (s : Store) (e : EventRow) (s' : Store) : Prop :=
  ∃ d d₄ d₅ isNew order, OpenedOrder s e.orderId d isNew order ∧
    s' = ((s.putOrder order).addHistory
      (eventHistory e order.status order.status .ignored (some .unknownEventType) d₄)).putEvent
      (e.ignored (some .unknownEventType) d₅)

/-- **A worker that nobody disturbs ignores an event of an unknown type.** -/
theorem call_unknownType (cfg : WorkerConfig) (input : WorkerInput) {s : Store} (hs : s.Keyed)
    (hfits : s.Fits) {d : ℕ → Draws} (hnew : ∀ k, s.look (.history (d k).historyId) = none)
    {skip : Key → Bool} {e : EventRow} (hclaimed : s.claimed (d 1).now skip = some e)
    (hhistory : s.historyOf e.eventId = []) (hmap : mapEventToStatus e.eventType = none) :
    ∃ s' conn, (processOne cfg input).call (undisturbed d skip) s =
      (.returned (processed e .ignored (some .unknownEventType) e.attemptCount none), s', conn) ∧
      s.AfterUnknown e s' := by
  obtain ⟨he, -, -, -⟩ := Store.claimed_some hclaimed
  have hat := Store.Keyed.eventAt?_eq hs he
  have hefits : e.fits = true := hfits (.eventPk e.id) (.event e) (by simp [Store.look, hat])
  have hid : varcharFits 255 e.orderId = true := by
    simp only [EventRow.fits, Bool.and_eq_true, and_assoc] at hefits
    exact hefits.2.1
  -- the statements of the business block
  obtain ⟨isNew, order, w₁, hopen, hx₁, hw₁⟩ := exec_openOrder (d := d 3) hs hid
  have hfound : (s.putOrder order).order? e.orderId = some order := by
    rw [Store.order?_putOrder hs, if_pos hopen.id_eq.symm]
  have hx₂ : exec (.selectOrder e.orderId) (d 4) noSkip (s.putOrder order) = .ok (some order, []) := by
    simp only [exec, hfound]
  have hx₃ : exec (.insertHistory (historyValues e order.status (.known order.status) .ignored
      (some .unknownEventType))) (d 5) noSkip (s.putOrder order) =
      .ok ((), [.insert (.history (eventHistory e order.status order.status .ignored
        (some .unknownEventType) (d 5)))]) :=
    exec_insertEventHistory hefits (by rw [hfound]; rfl) (hnew 5) (historyOf_eq_nil.mp hhistory)
  have hx₄ : updateRow .event (·.ignored (some .unknownEventType) (d 6)) (fun _ => true) false
      (s.eventAt? e.id) = .ok (true, [.update (.event (e.ignored (some .unknownEventType) (d 6)))]) :=
    updateRow_ok.mpr (.inr ⟨e, hat, EventRow.ignored_fits hefits _ _, rfl, rfl⟩)
  obtain ⟨log, hlog, hran, hdraws⟩ : ∃ log, BusinessLog e log (unknownEventType order) ∧
      RanTo log s (((s.putOrder order).addHistory (eventHistory e order.status order.status .ignored
        (some .unknownEventType) (d 5))).putEvent (e.ignored (some .unknownEventType) (d 6))) ∧
      log.map Entry.draws = [d 3, d 4, d 5, d 6] :=
    ⟨_, .of_ignored (process_of_none hmap) rfl,
      .cons hx₁ hw₁ (.cons hx₂ rfl (.cons hx₃ rfl (.cons hx₄ rfl (.nil _)))), rfl⟩
  -- the turn, request by request
  have hclaim : exec .claim (d 1) skip s = .ok (some e, []) := by simp only [exec, hclaimed]
  have hgoes := goes_processOne_done cfg input (d 0) (d 2) (d 7) (d 8) hclaim hlog hran.1
  rw [requests_eq_map, hdraws] at hgoes
  refine ⟨_, _, hgoes.call_eq (undisturbed d skip) fun n y hy => ?_, d 3, d 5, d 6, isNew, order, hopen,
    hran.2⟩
  rcases n with _ | _ | _ | _ | _ | _ | _ | _ | _ | n
  case succ.succ.succ.succ.succ.succ.succ.succ.succ => cases hy
  all_goals
    obtain rfl := Option.some.inj hy
    rfl

/-! ## Every worker -/

variable {cfg : WorkerConfig} {w w' : State} {db₀ : Store} {log : Log} {event : EventRow} {i : ℕ}

/-- **No worker touches the order of an event of an unknown type**, in any interleaving and whatever
fails: the rows of `orders` stay as they are, and a new one has the defaults. -/
theorem Reach.orders_unknownType (h₀ : db₀.Keyed) (h : Reach cfg db₀ w) (hstep : Step (program cfg) w w')
    (hjournal : w'.journal = w.journal ++ [(i, log)]) (hclaimed : claimedEvent? log = some event)
    (hmap : mapEventToStatus event.eventType = none) (k : String) :
    w'.db.order? k = w.db.order? k ∨
      w.db.order? k = none ∧ ∃ d, w'.db.order? k = some (defaultOrder k d) := by
  have hs := (h.coherent h₀).inv
  rcases h.step_change h₀ hstep with ⟨-, hsame⟩ | ⟨j, s, t, x, -, -, hchange, hjournal'⟩
  · rw [hsame] at hjournal
    exact absurd hjournal.symm (by simp)
  · rw [hjournal'] at hjournal
    obtain ⟨-, rfl⟩ := Prod.mk.inj (List.singleton_inj.mp (List.append_cancel_left hjournal))
    revert hchange
    generalize t.log = log at hclaimed
    generalize w'.db = db', s.call = c
    intro hchange
    cases hchange with
    | applied hev _ _ hmap' =>
      obtain rfl := Option.some.inj hclaimed
      rw [hmap] at hmap'
      cases hmap'
    | ignored hev _ hopen =>
      obtain rfl := Option.some.inj hclaimed
      simp only [Store.putEvent_order?, Store.addHistory_order?, Store.order?_putOrder hs]
      split
      next hk =>
        subst hk
        rw [hopen.id_eq]
        cases hopen with
        | fresh hnone => exact .inr ⟨hnone, _, rfl⟩
        | found hfound => exact .inl hfound.symm
      next => exact .inl rfl
    | retried => exact .inl rfl
    | buried => exact .inl rfl
    | _ => cases hclaimed

/-! ## Which types are disregarded -/

/-- **Events of a type are disregarded.** -/
structure Disregarded (cfg : WorkerConfig) (eventType : String) : Prop where
  /-- They are ignored, with the status and the sequence of the order itself. -/
  result : ∀ (event : EventRow) (order : OrderRow), event.eventType = eventType →
    process event order = unknownEventType order
  /-- A worker that nobody disturbs and whose requests are answered ignores them, without a retry. -/
  ignored : ∀ (input : WorkerInput) (s : Store) (d : ℕ → Draws) (skip : Key → Bool) (event : EventRow),
    s.Keyed → s.Fits → (∀ k, s.look (.history (d k).historyId) = none) →
    s.claimed (d 1).now skip = some event → s.historyOf event.eventId = [] →
    event.eventType = eventType →
    ∃ s' conn, (processOne cfg input).call (undisturbed d skip) s =
      (.returned (processed event .ignored (some .unknownEventType) event.attemptCount none), s', conn) ∧
      s.AfterUnknown event s'
  /-- In any interleaving and whatever fails, their orders stay as they are. -/
  untouched : ∀ (db₀ : Store) (w w' : State) (i : ℕ) (log : Log) (event : EventRow) (k : String),
    db₀.Keyed → Reach cfg db₀ w → Step (program cfg) w w' → w'.journal = w.journal ++ [(i, log)] →
    claimedEvent? log = some event → event.eventType = eventType →
    w'.db.order? k = w.db.order? k ∨
      w.db.order? k = none ∧ ∃ d, w'.db.order? k = some (defaultOrder k d)

/-- Types for which nothing is found are disregarded. -/
theorem disregarded_of_none {eventType : String} (h : mapEventToStatus eventType = none) :
    Disregarded cfg eventType where
  result := by
    rintro event order rfl
    exact process_of_none h
  ignored := by
    rintro input s d skip event hs hfits hnew hclaimed hhistory rfl
    exact call_unknownType cfg input hs hfits hnew hclaimed hhistory h
  untouched := by
    rintro db₀ w w' i log event k h₀ hreach hstep hjournal hclaimed rfl
    exact hreach.orders_unknownType h₀ hstep hjournal hclaimed h k

omit [Platform] in
/-- An event of an inherited type that is newer than its order is applied, with a status that is none. -/
theorem process_inherited {event : EventRow} {order : OrderRow}
    (h : event.eventType ∈ objectPrototypeKeys) (hseq : order.lastSequence < event.sequence) :
    (process event order).outcome = .applied ∧ (process event order).newStatus = .inherited := by
  simp only [process, mapEventToStatus_inherited h, if_pos hseq, and_self]

/-- A row of the inbox with an event of the type. -/
def rowOfType (eventType : String) : EventRow where
  id := 1
  eventId := "evt_1"
  orderId := "ord_1"
  eventType := eventType
  sequence := 1
  occurredAt := 0
  payload := ⟨"evt_1", "ord_1", eventType, 1, "2026-01-15T10:00:00.000Z", none⟩
  payloadHash := ""
  receivedAt := 0
  processingStatus := .pending
  outcomeReason := none
  attemptCount := 0
  nextAttemptAt := none
  lastError := none
  processedAt := none
  deliveryCount := 1
  replayCount := 0
  correlationId := ""

/-- A new order. -/
def untouchedOrder : OrderRow := defaultOrder "ord_1" (Draws.nth 0 0 0)

/-- **Which unknown types are disregarded**, and which types are given a status that `orders` admits:
those that are not the name of an inherited property. -/
theorem unknown_type_ignored_iff (cfg : WorkerConfig) (eventType : String) :
    ((eventType ∉ EVENT_TYPE_TO_STATUS.keys → Disregarded cfg eventType) ∧
      ∀ (event : EventRow) (order : OrderRow), event.eventType = eventType →
        ∃ status, (process event order).newStatus = .known status) ↔
    eventType ∉ objectPrototypeKeys := by
  constructor
  · rintro ⟨-, hknown⟩ hinherited
    obtain ⟨status, hstatus⟩ := hknown (rowOfType eventType) untouchedOrder rfl
    have hseq : untouchedOrder.lastSequence < (rowOfType eventType).sequence := Int.one_pos
    have hnew := (process_inherited (show (rowOfType eventType).eventType ∈ _ from hinherited) hseq).2
    rw [hstatus] at hnew
    cases hnew
  · intro hinherited
    refine ⟨fun hunknown => disregarded_of_none (mapEventToStatus_eq_none hunknown hinherited), ?_⟩
    rintro event order rfl
    exact newStatus_known hinherited

omit [Platform] in
/-- An event of the type `constructor` is applied to a new order. -/
theorem constructor_type_applied :
    "constructor" ∉ EVENT_TYPE_TO_STATUS.keys ∧
      (process (rowOfType "constructor") untouchedOrder).outcome = .applied ∧
      (process (rowOfType "constructor") untouchedOrder).newStatus = .inherited := by
  decide

end PaymentWebhook
