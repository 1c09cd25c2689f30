import Mathlib.Data.List.TakeWhile
import PaymentWebhook.Acceptance
import PaymentWebhook.Admission

set_option relaxedAutoImplicit false
set_option autoImplicit false

/-!
# The snapshot of the provider

The simulator writes its snapshot to a file, the server of the provider reads the file whenever it is asked, and
the service fetches the answer and validates it.

## Main definitions

* `PaymentWebhook.ProviderSnapshot.toJson` — a snapshot as JSON.
* `PaymentWebhook.ProviderSnapshot.Admissible` — a snapshot that passes all checks.
* `PaymentWebhook.readOrders`, `PaymentWebhook.handleRequest` — the server of the provider.
* `PaymentWebhook.ProviderClient.fetchSnapshot` — its client.

## Main results

* `PaymentWebhook.validate_ok_iff` — what the client accepts, and what it reads from it.
* `PaymentWebhook.provider_round_trip` — the snapshot of the simulator arrives as it was written.
-/

namespace PaymentWebhook

open Transactions Generator

/-! ## Snapshots as JSON -/

/-- The text of a status. -/
def OrderStatus.text : OrderStatus → String
  | .pending => "pending"
  | .authorized => "authorized"
  | .captured => "captured"
  | .refunded => "refunded"
  | .failed => "failed"

def ProviderOrder.toJson (o : ProviderOrder) : Json :=
  .obj [("id", .str o.id), ("status", .str o.status.text), ("sequence", .num o.sequence),
    ("amount", .str o.amount), ("currency", .str o.currency), ("updated_at", .str o.updatedAt)]

def ProviderSnapshot.toJson (s : ProviderSnapshot) : Json :=
  .obj [("generated_at", .str s.generatedAt), ("orders", .arr (s.orders.map ProviderOrder.toJson))]

theorem validStatus_text (status : OrderStatus) : validStatus status.text = some status := by
  cases status <;> rfl

/-- An entry is read from what is written of it. -/
theorem ProviderOrder.copies_toJson (o : ProviderOrder) : o.Copies o.toJson :=
  ⟨rfl, ⟨_, rfl, validStatus_text o.status⟩, rfl, rfl, rfl, rfl⟩

/-- Nothing else can be read from it. -/
theorem ProviderOrder.Copies.eq {o o' : ProviderOrder} {raw : Json} (h : o.Copies raw) (h' : o'.Copies raw) :
    o = o' := by
  obtain ⟨status, htext, hstatus⟩ := h.status
  obtain ⟨status', htext', hstatus'⟩ := h'.status
  have hid := h.id.symm.trans h'.id
  have hstatuses := htext.symm.trans htext'
  have hsequence := h.sequence.symm.trans h'.sequence
  have hamount := h.amount.symm.trans h'.amount
  have hcurrency := h.currency.symm.trans h'.currency
  have hupdatedAt := h.updatedAt.symm.trans h'.updatedAt
  simp only [Option.some.injEq, Json.str.injEq, Json.num.injEq, Int.cast_inj] at *
  subst hstatuses
  cases o
  cases o'
  simp_all

/-! ## What the client accepts -/

section Validation

variable [Platform]

/-- A text that `isValidIsoDate` accepts. -/
def IsoDate (text : String) : Prop := jsTrim text.toList ≠ [] ∧ (Platform.dateParse text).isSome

theorem isValidIsoDate_iff {value : Option Json} {text : String} :
    isValidIsoDate value = some text ↔ value = some (.str text) ∧ IsoDate text := by
  constructor
  · intro h
    have hvalue := isValidIsoDate_eq h
    refine ⟨hvalue, ?_⟩
    rw [hvalue, isValidIsoDate] at h
    by_contra hno
    rw [if_neg (show ¬(_ ∧ _) from hno)] at h
    cases h
  · rintro ⟨rfl, h⟩
    exact if_pos h

/-- **An entry that passes all checks.** -/
structure ProviderOrder.Admissible (o : ProviderOrder) : Prop extends o.Valid where
  trimmed : jsTrim o.id.toList = o.id.toList
  updatedAt : IsoDate o.updatedAt

/-- **A snapshot that passes all checks.** -/
structure ProviderSnapshot.Admissible (s : ProviderSnapshot) : Prop where
  generatedAt : IsoDate s.generatedAt
  orders : ∀ o ∈ s.orders, o.Admissible
  distinct : (s.orders.map ProviderOrder.id).Nodup

section Order

variable {index : ℕ} {seenIds : List String} {raw : Json} {o : ProviderOrder}

/-- What is left to check of an entry whose values are valid. -/
theorem validateOrder_eq (hobject : raw.isObject = true) (hcopies : o.Copies raw) (hvalid : o.Valid) :
    validateOrder index seenIds raw =
      if o.id.toList ≠ jsTrim o.id.toList then .error (.idSpaces index)
      else (isValidIsoDate (some (.str o.updatedAt))).elim (.error (.updatedAt o.id)) fun updatedAt =>
        if o.id ∈ seenIds then .error (.duplicate o.id) else .ok { o with updatedAt := updatedAt } := by
  obtain ⟨text, htext, hstatus⟩ := hcopies.status
  have hid := not_or.mpr ⟨hvalid.id_ne, not_lt.mpr hvalid.id_length⟩
  have hsequence : ¬((o.sequence : ℚ).den ≠ 1 ∨ o.sequence < 0 ∨ o.sequence > 2147483647) := by
    simpa using ⟨hvalid.sequence_nonneg, hvalid.sequence_le⟩
  simp only [validateOrder, hobject, hcopies.id, htext, hcopies.sequence, hcopies.amount, hcopies.currency,
    hcopies.updatedAt, Option.bind_some, hstatus, hvalid.amount, hvalid.currency, Bool.true_eq_false, if_false,
    if_neg hid, if_neg hsequence, Rat.num_intCast]
  cases isValidIsoDate (some (.str o.updatedAt)) <;> rfl

/-- **Which entries are accepted.** -/
theorem validateOrder_ok_iff : validateOrder index seenIds raw = .ok o ↔
    raw.isObject = true ∧ o.Copies raw ∧ o.Admissible ∧ o.id ∉ seenIds := by
  constructor
  · intro h
    obtain ⟨hvalid, hnew⟩ := validateOrder_valid h
    have hcopies := validateOrder_copies h
    have hobject : raw.isObject = true := by
      by_contra hno
      rw [validateOrder, if_pos (by simpa using hno)] at h
      cases h
    rw [validateOrder_eq hobject hcopies hvalid] at h
    split at h
    · cases h
    next htrimmed =>
    cases hupdatedAt : isValidIsoDate (some (.str o.updatedAt)) with
    | none =>
      rw [hupdatedAt] at h
      cases h
    | some updatedAt =>
      obtain ⟨hsame, hdate⟩ := isValidIsoDate_iff.mp hupdatedAt
      rw [Option.some_inj, Json.str.injEq] at hsame
      exact ⟨hobject, hcopies, ⟨hvalid, (not_not.mp htrimmed).symm, hsame ▸ hdate⟩, hnew⟩
  · rintro ⟨hobject, hcopies, hadmissible, hnew⟩
    have hupdatedAt : isValidIsoDate (some (.str o.updatedAt)) = some o.updatedAt :=
      isValidIsoDate_iff.mpr ⟨rfl, hadmissible.updatedAt⟩
    rw [validateOrder_eq hobject hcopies hadmissible.toValid, if_neg (not_not.mpr hadmissible.trimmed.symm),
      hupdatedAt]
    exact if_neg hnew

end Order

/-- An entry that is accepted, and where it has been read. -/
def ProviderOrder.ReadFrom (o : ProviderOrder) (raw : Json) : Prop := raw.isObject = true ∧ o.Copies raw

/-- **Which lists of entries are accepted**, after those before. -/
theorem validateOrders_ok_iff {index : ℕ} {validated orders : List ProviderOrder} {raws : List Json} :
    validateOrders index validated raws = .ok orders ↔ ∃ new, orders = validated ++ new ∧
      List.Forall₂ ProviderOrder.ReadFrom new raws ∧ (∀ o ∈ new, o.Admissible) ∧
      (∀ o ∈ new, o.id ∉ validated.map ProviderOrder.id) ∧ (new.map ProviderOrder.id).Nodup := by
  induction raws generalizing index validated with
  | nil =>
    rw [validateOrders, Except.ok.injEq]
    constructor
    · rintro rfl
      exact ⟨[], (List.append_nil _).symm, .nil, by simp, by simp, List.nodup_nil⟩
    · rintro ⟨new, rfl, hread, -⟩
      cases hread
      exact (List.append_nil _).symm
  | cons raw raws ih =>
    rw [validateOrders]
    constructor
    · intro h
      split at h
      · cases h
      next o ho =>
      obtain ⟨hobject, hcopies, hadmissible, hnew⟩ := validateOrder_ok_iff.mp ho
      obtain ⟨new, rfl, hread, hall, hfresh, hnodup⟩ := ih.mp h
      simp only [List.map_append, List.map_singleton, List.mem_append, List.mem_singleton, not_or] at hfresh
      refine ⟨o :: new, by simp, .cons ⟨hobject, hcopies⟩ hread, List.forall_mem_cons.mpr ⟨hadmissible, hall⟩,
        List.forall_mem_cons.mpr ⟨hnew, fun o' ho' => (hfresh o' ho').1⟩, List.nodup_cons.mpr ⟨?_, hnodup⟩⟩
      intro hmem
      obtain ⟨o', ho', hid⟩ := List.mem_map.mp hmem
      exact (hfresh o' ho').2 hid
    · rintro ⟨new, rfl, hread, hall, hfresh, hnodup⟩
      cases hread with
      | @cons o _ new _ hfirst hread =>
        rw [List.forall_mem_cons] at hall hfresh
        rw [List.map_cons, List.nodup_cons] at hnodup
        rw [validateOrder_ok_iff.mpr ⟨hfirst.1, hfirst.2, hall.1, hfresh.1⟩]
        refine ih.mpr ⟨new, by simp, hread, hall.2, fun o' ho' => ?_, hnodup.2⟩
        simp only [List.map_append, List.map_singleton, List.mem_append, List.mem_singleton, not_or]
        exact ⟨hfresh.2 o' ho', fun hid => hnodup.1 (hid ▸ List.mem_map_of_mem ho')⟩

/-- **What the client accepts**: an admissible snapshot, with the values of the body. -/
theorem validate_ok_iff {body : Json} {s : ProviderSnapshot} : validate body = .ok s ↔
    s.Admissible ∧ body.isObject = true ∧ body.get? "generated_at" = some (.str s.generatedAt) ∧
      ∃ raws, body.get? "orders" = some (.arr raws) ∧ List.Forall₂ ProviderOrder.ReadFrom s.orders raws := by
  constructor
  · intro h
    unfold validate at h
    split at h
    · cases h
    next hobject =>
    split at h
    · cases h
    next generatedAt hgenerated =>
    split at h
    next raws hraws =>
      split at h
      · cases h
      next orders horders =>
      obtain rfl := Except.ok.inj h
      obtain ⟨hvalue, hdate⟩ := isValidIsoDate_iff.mp hgenerated
      obtain ⟨new, rfl, hread, hall, -, hnodup⟩ := validateOrders_ok_iff.mp horders
      exact ⟨⟨hdate, hall, hnodup⟩, Bool.not_eq_false _ |>.mp hobject, hvalue, raws, hraws, hread⟩
    · cases h
  · rintro ⟨hadmissible, hobject, hgenerated, raws, hraws, hread⟩
    have hdate := isValidIsoDate_iff.mpr ⟨hgenerated, hadmissible.generatedAt⟩
    have horders : validateOrders 0 [] raws = .ok s.orders :=
      validateOrders_ok_iff.mpr ⟨s.orders, rfl, hread, hadmissible.orders, by simp, hadmissible.distinct⟩
    simp only [validate, hobject, hdate, hraws, horders, Bool.true_eq_false, if_false]

/-- **A snapshot that is written is read back** exactly if it is admissible, and never as another one. -/
theorem validate_toJson_iff {s s' : ProviderSnapshot} : validate s.toJson = .ok s' ↔ s' = s ∧ s.Admissible := by
  rw [validate_ok_iff]
  constructor
  · rintro ⟨hadmissible, -, hgenerated, raws, hraws, hread⟩
    obtain rfl : s.orders.map ProviderOrder.toJson = raws := Json.arr.inj (Option.some.inj hraws)
    have hsame : s'.orders = s.orders := by
      rw [List.forall₂_map_right_iff] at hread
      rw [← List.forall₂_eq_eq_eq]
      exact hread.imp fun o' o ho => ho.2.eq o.copies_toJson
    obtain rfl : s' = s := by
      cases s
      cases s'
      simp only [ProviderSnapshot.mk.injEq]
      exact ⟨(Json.str.inj (Option.some.inj hgenerated)).symm, hsame⟩
    exact ⟨rfl, hadmissible⟩
  · rintro ⟨rfl, hadmissible⟩
    refine ⟨hadmissible, rfl, rfl, _, rfl, ?_⟩
    rw [List.forall₂_map_right_iff, List.forall₂_same]
    exact fun o _ => ⟨rfl, o.copies_toJson⟩

end Validation

/-! ## The server -/

/-- What the server and the client use of Node: `JSON.parse`, `JSON.stringify` with an indentation, and the time
of `new Date(value)`.  White space is no JSON. -/
structure NodeJson where
  parse : String → Option Json
  stringify : ℕ → Json → String
  dateOf : Option Json → Option Timestamp
  parse_blank : ∀ text, jsTrim text.toList = [] → parse text = none

/-- `provider-orders.json`, as `readFile` finds it. -/
inductive DataFile where
  | missing
  | unreadable
  | text (raw : String)

/-- What `readOrders` returns; `orders` may be `undefined`. -/
structure OrdersData where
  generatedAt : Json
  orders : Option Json

/-- What `JSON.stringify` sees of it. -/
def OrdersData.toJson (data : OrdersData) : Json :=
  .obj (("generated_at", data.generatedAt) :: data.orders.toList.map fun orders => ("orders", orders))

/-- `value ?? now`. -/
def generatedAtOr (now : String) : Option Json → Json
  | none => .str now
  | some .null => .str now
  | some value => value

/-- **`readOrders`** at the time `now`; `none` if it throws. -/
def readOrders (js : NodeJson) (now : String) : DataFile → Option OrdersData
  | .missing => some ⟨.str now, some (.arr [])⟩
  | .unreadable => none
  | .text raw =>
    if jsTrim raw.toList = [] then some ⟨.str now, some (.arr [])⟩
    else match js.parse raw with
    | none => none
    -- `null` has no properties
    | some .null => none
    | some parsed => some ⟨generatedAtOr now (parsed.get? "generated_at"), parsed.get? "orders"⟩

structure ProviderRequest where
  method : String
  pathname : String
  /-- `url.searchParams.get('updated_since')`. -/
  updatedSince : Option String
  deriving DecidableEq, Repr

structure ProviderResponse where
  status : ℕ
  body : String
  deriving DecidableEq, Repr

/-- `item => new Date(item.updated_at) > since`. -/
def updatedAfter (js : NodeJson) (since : Timestamp) (item : Json) : Bool :=
  (js.dateOf (item.get? "updated_at")).any fun t => since < t

/-- `null` among the orders. -/
def Json.isNull : Json → Bool
  | .null => true
  | _ => false

/-- `data` with `data.orders` filtered if it is an array; `none` if an order is `null`, which has no properties. -/
def filterOrders (js : NodeJson) (since : Timestamp) (data : OrdersData) : Option OrdersData :=
  match data.orders with
  | some (.arr items) =>
    if items.any Json.isNull then none
    else some { data with orders := some (.arr (items.filter (updatedAfter js since))) }
  | _ => some data

/-- The answer of the server with an error. -/
def errorResponse (js : NodeJson) (status : ℕ) (error : String) : ProviderResponse :=
  ⟨status, js.stringify 0 (.obj [("error", .str error)])⟩

/-- **The server of the provider**; `none` if the handler throws. -/
def handleRequest (js : NodeJson) (now : String) (file : DataFile) (req : ProviderRequest) :
    Option ProviderResponse :=
  if req.method = "GET" ∧ req.pathname = "/health" then
    some ⟨200, js.stringify 0 (.obj [("status", .str "ok")])⟩
  else if req.method = "GET" ∧ req.pathname = "/provider/orders" then
    match readOrders js now file with
    | none => some (errorResponse js 500 "Failed to read provider orders")
    | some data =>
      match req.updatedSince.filter (· ≠ "") with
      | none => some ⟨200, js.stringify 0 data.toJson⟩
      | some updatedSince =>
        match js.dateOf (some (.str updatedSince)) with
        | none => some (errorResponse js 400 "Invalid updated_since parameter")
        | some since => (filterOrders js since data).map fun filtered => ⟨200, js.stringify 0 filtered.toJson⟩
  else some (errorResponse js 404 "Not found")

/-! ## The client -/

/-- What `fetch` comes to. -/
inductive FetchOutcome where
  | aborted
  | failed (message : String)
  | answered (r : ProviderResponse)

/-- What `fetchSnapshot` throws: `ProviderTimeoutError`, `ProviderHttpError` or `ProviderPayloadError`. -/
inductive ProviderError where
  | timeout (message : String)
  | http (message : String) (statusCode : ℕ)
  | invalidJson (message : String)
  | payload (e : ProviderPayloadError)

/-- The request of the client. -/
def ProviderClient.request : ProviderRequest where
  method := "GET"
  pathname := "/provider/orders"
  updatedSince := none

/-- **`ProviderClient.fetchSnapshot`**, with what its request comes to. -/
def ProviderClient.fetchSnapshot [Platform] (js : NodeJson) (timeoutMs : ℕ) :
    FetchOutcome → Except ProviderError ProviderSnapshot
  | .aborted => .error (.timeout ("Provider request timed out after " ++ toString timeoutMs ++ "ms"))
  | .failed message => .error (.http ("Provider request failed: " ++ message) 0)
  | .answered r =>
    if r.status < 200 ∨ 300 ≤ r.status then
      .error (.http ("Provider returned HTTP " ++ toString r.status) r.status)
    else match js.parse r.body with
    | none => .error (.invalidJson "Provider returned invalid JSON")
    | some body => (validate body).mapError .payload

/-- What the client gets if it asks the server. -/
def fetchFrom [Platform] (js : NodeJson) (now : String) (timeoutMs : ℕ) (file : DataFile) :
    Except ProviderError ProviderSnapshot :=
  ProviderClient.fetchSnapshot js timeoutMs
    ((handleRequest js now file ProviderClient.request).elim (.failed "fetch failed") .answered)

section Fetch

variable [Platform] {js : NodeJson} {now : String} {timeoutMs : ℕ} {file : DataFile}

/-- The client validates what the server has read. -/
theorem fetchFrom_eq {data : OrdersData} (hdata : readOrders js now file = some data)
    (hjson : js.parse (js.stringify 0 data.toJson) = some data.toJson) :
    fetchFrom js now timeoutMs file = (validate data.toJson).mapError .payload := by
  have hanswer : handleRequest js now file ProviderClient.request = some ⟨200, js.stringify 0 data.toJson⟩ := by
    simp [handleRequest, ProviderClient.request, hdata]
  simp [fetchFrom, hanswer, ProviderClient.fetchSnapshot, hjson]

omit [Platform] in
/-- The server reads a snapshot from the file as it was written. -/
theorem readOrders_toJson {s : ProviderSnapshot} (hjson : js.parse (js.stringify 2 s.toJson) = some s.toJson) :
    ∃ data, readOrders js now (.text (js.stringify 2 s.toJson)) = some data ∧ data.toJson = s.toJson := by
  have hblank : jsTrim (js.stringify 2 s.toJson).toList ≠ [] := by
    intro hblank
    rw [js.parse_blank _ hblank] at hjson
    cases hjson
  rw [readOrders, if_neg hblank, hjson]
  exact ⟨_, rfl, rfl⟩

/-- **A snapshot that is written to the file is fetched** exactly if it is admissible. -/
theorem fetchFrom_toJson_iff {s s' : ProviderSnapshot}
    (hjson : ∀ indent ∈ [0, 2], js.parse (js.stringify indent s.toJson) = some s.toJson) :
    fetchFrom js now timeoutMs (.text (js.stringify 2 s.toJson)) = .ok s' ↔ s' = s ∧ s.Admissible := by
  obtain ⟨data, hdata, hsame⟩ := readOrders_toJson (hjson 2 (by decide))
  rw [fetchFrom_eq hdata (by rw [hsame, hjson 0 (by decide)]), hsame, ← validate_toJson_iff]
  cases validate s.toJson <;> simp [Except.mapError]

end Fetch

/-! ## The snapshot of the simulator -/

section Generated

variable {rt : Runtime} {opts : GenerateOptions} {base : List GeneratedEvent}

/-- An expected state is that of a webhook. -/
theorem exists_of_mem_finalStates {entry : String × ExpectedState} (hentry : entry ∈ finalStates base) :
    ∃ b ∈ base, b.orderId = entry.1 ∧ b.state = entry.2 ∧
      ∀ b' ∈ base, b'.orderId = entry.1 → b'.sequence ≤ b.sequence := by
  have hlatest := latest_finalStates base entry.1
  rw [lookup_of_mem (nodup_finalStates base) hentry] at hlatest
  generalize hstate : some entry.2 = state at hlatest
  cases hlatest with
  | absent => cases hstate
  | present hb hid hle => exact ⟨_, hb, hid, (Option.some.inj hstate).symm, hle⟩

/-- An order has at most four webhooks. -/
theorem Generator.Made.sequence_le {rng : ℕ → ℚ} {draws : ℕ → ℕ} (h : Made rt opts rng draws base)
    {e : GeneratedEvent} (he : e ∈ base) : e.sequence ≤ 4 := by
  obtain ⟨p, hp⟩ := List.getElem?_of_mem he
  obtain ⟨start, i, status, -, hstatus, rfl⟩ := h p e hp
  have hchain : (drawOrder rng (draws start)).chain.length ≤ 4 := by
    have hall : ∀ chain ∈ [] :: CHAINS, chain.length ≤ 4 := by decide
    refine hall _ ?_
    show CHAINS.getD _ [] ∈ _
    rw [List.getD_eq_getElem?_getD]
    cases hget : CHAINS[randomInt rng (draws start) CHAINS.length]? with
    | none => simp
    | some chain => exact List.mem_cons_of_mem _ (List.mem_of_getElem? hget)
  have hi := (List.getElem?_eq_some_iff.mp hstatus).1
  show ((i + 1 : ℕ) : ℤ) ≤ 4
  omega

/-- **The money, the sequences and the statuses of the snapshot are valid.** -/
theorem providerOrders_valid (hlength : ∀ entry ∈ (generate rt opts).expectedStates, jsLength entry.1.toList ≤ 255) :
    ∀ o ∈ (generate rt opts).providerOrders.orders, o.Valid := by
  intro o ho
  have hrng := createRng_inUnit opts.seed
  obtain ⟨-, -, draws, hmade⟩ := exists_made rt opts hrng
  obtain ⟨⟨id, state⟩, hentry, rfl⟩ := List.mem_map.mp ho
  have hfits := hlength _ hentry
  obtain ⟨b, hb, rfl, rfl, -⟩ := exists_of_mem_finalStates hentry
  have hsound := ((traffic rt opts hrng).sound b (List.mem_append_left _ hb)).1
  obtain ⟨cents, currency, hcents, hcurrency, hdata⟩ := hsound.money
  have hletters : ∀ c ∈ ["MXN", "USD", "EUR"], currencyRegex c = true := by decide
  have hle := hmade.sequence_le hb
  have hpos := hsound.positive
  refine ⟨hsound.orderId_ne, hfits, ?_, ?_, ?_, ?_⟩
  · show 0 ≤ b.sequence
    omega
  · show b.sequence ≤ 2147483647
    omega
  · simpa [GeneratedEvent.state, hdata] using amountRegex_of_matches (amountMatches_numericText hcents)
  · simpa [GeneratedEvent.state, hdata] using hletters currency hcurrency

/-- Each order stands in the snapshot once. -/
theorem providerOrders_distinct : ((generate rt opts).providerOrders.orders.map ProviderOrder.id).Nodup := by
  show (List.map _ (List.map _ _)).Nodup
  rw [List.map_map]
  exact nodup_finalStates _

/-- **Which snapshots of the simulator are admissible.** -/
theorem providerOrders_admissible_iff [Platform] : (generate rt opts).providerOrders.Admissible ↔
    IsoDate (rt.toISOString opts.baseTimeMs) ∧ ∀ entry ∈ (generate rt opts).expectedStates,
      jsLength entry.1.toList ≤ 255 ∧ jsTrim entry.1.toList = entry.1.toList := by
  constructor
  · intro h
    refine ⟨h.generatedAt, fun entry hentry => ?_⟩
    have horder := h.orders _ (List.mem_map_of_mem hentry)
    exact ⟨horder.id_length, horder.trimmed⟩
  · rintro ⟨hdate, hids⟩
    refine ⟨hdate, fun o ho => ?_, providerOrders_distinct⟩
    have hvalid := providerOrders_valid (fun entry hentry => (hids entry hentry).1) o ho
    obtain ⟨entry, hentry, rfl⟩ := List.mem_map.mp ho
    exact ⟨hvalid, (hids entry hentry).2, hdate⟩

/-- **The snapshot of the simulator arrives as it was written.**  What the simulator writes to the file, the server
reads and the client fetches and validates is the same snapshot, if its time is one and its ids are short enough and
have no white space around them; otherwise it is refused as a whole. -/
theorem provider_round_trip [Platform] (rt : Runtime) (opts : GenerateOptions) {js : NodeJson}
    (hjson : ∀ indent ∈ [0, 2], js.parse (js.stringify indent (generate rt opts).providerOrders.toJson) =
      some (generate rt opts).providerOrders.toJson) (now : String) (timeoutMs : ℕ) (s : ProviderSnapshot) :
    fetchFrom js now timeoutMs (.text (js.stringify 2 (generate rt opts).providerOrders.toJson)) = .ok s ↔
      s = (generate rt opts).providerOrders ∧ IsoDate (rt.toISOString opts.baseTimeMs) ∧
        ∀ entry ∈ (generate rt opts).expectedStates,
          jsLength entry.1.toList ≤ 255 ∧ jsTrim entry.1.toList = entry.1.toList := by
  rw [fetchFrom_toJson_iff hjson, providerOrders_admissible_iff]

end Generated

/-! ## A sample -/

/-- The line of a value, `depth` levels down. -/
def lineAt (indent depth : ℕ) : String :=
  if indent = 0 then "" else "\n" ++ String.ofList (List.replicate (indent * depth) ' ')

mutual

/-- `JSON.stringify` of whole numbers and of texts without escapes, `depth` levels down. -/
def stringifyAt (indent depth : ℕ) : Json → String
  | .null => "null"
  | .bool b => toString b
  | .num q => toString q.num
  | .str s => "\"" ++ s ++ "\""
  | .arr [] => "[]"
  | .arr (item :: items) =>
    "[" ++ stringifyItems indent (depth + 1) (item :: items) ++ lineAt indent depth ++ "]"
  | .obj [] => "\x7b\x7d"
  | .obj (m :: members) =>
    "\x7b" ++ stringifyMembers indent (depth + 1) (m :: members) ++ lineAt indent depth ++ "\x7d"

def stringifyItems (indent depth : ℕ) : List Json → String
  | [] => ""
  | item :: items => lineAt indent depth ++ stringifyAt indent depth item ++
    (if items.isEmpty then "" else ",") ++ stringifyItems indent depth items

def stringifyMembers (indent depth : ℕ) : List (String × Json) → String
  | [] => ""
  | (name, value) :: members => lineAt indent depth ++ "\"" ++ name ++ "\":" ++
    (if indent = 0 then "" else " ") ++ stringifyAt indent depth value ++
    (if members.isEmpty then "" else ",") ++ stringifyMembers indent depth members

end

/-- Text that starts with a brace is not blank. -/
theorem jsTrim_stringifyAt (indent : ℕ) (s : ProviderSnapshot) :
    jsTrim (stringifyAt indent 0 s.toJson).toList ≠ [] := by
  obtain ⟨rest, hrest⟩ : ∃ rest, (stringifyAt indent 0 s.toJson).toList = '\x7b' :: rest := by
    simp [ProviderSnapshot.toJson, stringifyAt]
  have hspace : jsSpace '\x7b' = false := by decide
  intro hblank
  rw [hrest, jsTrim, List.dropWhile_cons_of_neg (by simp [hspace]), List.reverse_eq_nil_iff,
    List.dropWhile_eq_nil_iff] at hblank
  have hbrace := hblank '\x7b' (by simp)
  rw [hspace] at hbrace
  cases hbrace

/-- A run of one webhook, at a time that the sample can read. -/
def feedRun : GenerateOptions where
  events := 1
  baseTimeMs := 1768471200000

/-- Node, as far as the sample needs it. -/
def feedJson : NodeJson where
  parse text :=
    if text = stringifyAt 0 0 (generate sampleRuntime feedRun).providerOrders.toJson ∨
      text = stringifyAt 2 0 (generate sampleRuntime feedRun).providerOrders.toJson then
      some (generate sampleRuntime feedRun).providerOrders.toJson
    else none
  stringify indent := stringifyAt indent 0
  dateOf value := value.bind fun
    | .str text => samplePlatform.dateParse text
    | _ => none
  parse_blank text hblank := by
    refine if_neg ?_
    rintro (rfl | rfl)
    · exact jsTrim_stringifyAt 0 _ hblank
    · exact jsTrim_stringifyAt 2 _ hblank

/-- The order of a run of one webhook. -/
theorem expectedStates_one (rt : Runtime) (opts : GenerateOptions) (hevents : opts.events = 1)
    (hrates : opts.duplicateRate < 1 ∧ opts.invalidRate < 1 ∧ opts.staleRate < 1) :
    ∃ state, (generate rt opts).expectedStates = [(identifier opts.runId "-order-" 6 1, state)] := by
  obtain ⟨e, hall, hone, -, -, -, -, horderId⟩ := generate_one rt opts hevents hrates
  obtain ⟨b, hbase⟩ := List.length_eq_one_iff.mp hone
  replace hbase : trimmedBase rt opts (createRng opts.seed) = [b] := hbase
  have hmem : b ∈ (generate rt opts).allEvents := by
    show b ∈ _ ++ _ ++ _ ++ _
    simp [hbase]
  rw [hall, List.mem_singleton] at hmem
  subst hmem
  refine ⟨b.state, ?_⟩
  show finalStates (trimmedBase rt opts (createRng opts.seed)) = _
  rw [hbase, ← horderId]
  rfl

/-- In the sample, the service fetches the order of the simulator. -/
theorem provider_round_trip_sample : letI := samplePlatform
    let g := generate sampleRuntime feedRun
    g.providerOrders.orders.length = 1 ∧
      fetchFrom feedJson "" 5000 (.text (feedJson.stringify 2 g.providerOrders.toJson)) = .ok g.providerOrders := by
  let _ := samplePlatform
  intro g
  obtain ⟨state, hstates⟩ := expectedStates_one sampleRuntime feedRun rfl (by norm_num [feedRun])
  refine ⟨?_, (provider_round_trip sampleRuntime feedRun (fun indent hindent => ?_) "" 5000 _).mpr ⟨rfl, ?_, ?_⟩⟩
  · show (List.map _ (generate sampleRuntime feedRun).expectedStates).length = 1
    rw [hstates]
    rfl
  · refine if_pos ?_
    rcases List.mem_pair.mp hindent with rfl | rfl
    · exact .inl rfl
    · exact .inr rfl
  · exact ⟨by decide, rfl⟩
  · rw [hstates, List.forall_mem_singleton]
    show jsLength (identifier feedRun.runId "-order-" 6 1).toList ≤ 255 ∧
      jsTrim (identifier feedRun.runId "-order-" 6 1).toList = (identifier feedRun.runId "-order-" 6 1).toList
    decide

end PaymentWebhook
