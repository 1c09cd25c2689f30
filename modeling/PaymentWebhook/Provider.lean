import Mathlib.Algebra.Order.Field.Rat
import Mathlib.Data.Rat.Floor
import PaymentWebhook.Schema

set_option relaxedAutoImplicit false
set_option autoImplicit false

/-!
# Provider snapshots

`ProviderClient.validate`: what a snapshot has to look like before it is reconciled.

## Main definitions

* `PaymentWebhook.Json` — the JSON values a response body can be.
* `PaymentWebhook.validate` — the checks, in the order of the source.
* `PaymentWebhook.ValidSnapshot` — the orders of an accepted snapshot.

## Main results

* `PaymentWebhook.validate_valid` — what `validate` returns is a valid snapshot.
-/

namespace PaymentWebhook

/-- A JSON value; the members of an object are listed with the winner of each name first. -/
inductive Json where
  | null
  | bool (b : Bool)
  | num (q : ℚ)
  | str (s : String)
  | arr (items : List Json)
  | obj (members : List (String × Json))

/-- `o[name]`; `none` is `undefined`. -/
def Json.get? : Json → String → Option Json
  | obj members, name => (members.find? fun m => m.1 = name).map (·.2)
  | _, _ => none

/-- `typeof value === 'object'` and not `null`. -/
def Json.isObject : Json → Bool
  | arr _ => true
  | obj _ => true
  | _ => false

structure ProviderOrder where
  id : String
  status : OrderStatus
  sequence : ℤ
  amount : String
  currency : String
  updatedAt : String
  deriving DecidableEq, Repr

structure ProviderSnapshot where
  generatedAt : String
  orders : List ProviderOrder
  deriving DecidableEq, Repr

/-- `ProviderPayloadError`, by the check that failed. -/
inductive ProviderPayloadError where
  | notAnObject
  | generatedAt
  | missingOrders
  | orderNotAnObject (index : ℕ)
  | idLength (index : ℕ)
  | idSpaces (index : ℕ)
  | status (id : String) (value : Option Json)
  | sequence (id : String) (value : Option Json)
  | amount (id : String) (value : Option Json)
  | currency (id : String) (value : Option Json)
  | updatedAt (id : String)
  | duplicate (id : String)

/-- `VALID_STATUSES`. -/
def validStatus (s : String) : Option OrderStatus :=
  if s = "pending" then some .pending
  else if s = "authorized" then some .authorized
  else if s = "captured" then some .captured
  else if s = "refunded" then some .refunded
  else if s = "failed" then some .failed
  else none

/-- `CURRENCY_REGEX`, `/^[A-Z]{3}$/`. -/
def currencyRegex (s : String) : Bool :=
  s.toList.length = 3 && s.toList.all fun c => 'A' ≤ c && c ≤ 'Z'

/-- `isValidIsoDate`. -/
def isValidIsoDate [Platform] : Option Json → Option String
  | some (.str s) =>
    if jsTrim s.toList ≠ [] ∧ (Platform.dateParse s).isSome then some s else none
  | _ => none

section Validate

variable [Platform]

/-- The checks of one order, `seenIds` being the ids before it. -/
def validateOrder (index : ℕ) (seenIds : List String) (raw : Json) :
    Except ProviderPayloadError ProviderOrder :=
  if raw.isObject = false then .error (.orderNotAnObject index)
  else match raw.get? "id" with
  | some (.str id) =>
    if id = "" ∨ jsLength id.toList > 255 then .error (.idLength index)
    else if id.toList ≠ jsTrim id.toList then .error (.idSpaces index)
    else match (raw.get? "status").bind fun | .str s => validStatus s | _ => none with
    | none => .error (.status id (raw.get? "status"))
    | some status =>
      match raw.get? "sequence" with
      | some (.num q) =>
        if q.den ≠ 1 ∨ q.num < 0 ∨ q.num > 2147483647 then
          .error (.sequence id (raw.get? "sequence"))
        else match raw.get? "amount" with
        | some (.str amount) =>
          if amountRegex amount = false then .error (.amount id (raw.get? "amount"))
          else match raw.get? "currency" with
          | some (.str currency) =>
            if currencyRegex currency = false then .error (.currency id (raw.get? "currency"))
            else match isValidIsoDate (raw.get? "updated_at") with
            | none => .error (.updatedAt id)
            | some updatedAt =>
              if id ∈ seenIds then .error (.duplicate id)
              else .ok
                { id := id
                  status := status
                  sequence := q.num
                  amount := amount
                  currency := currency
                  updatedAt := updatedAt }
          | other => .error (.currency id other)
        | other => .error (.amount id other)
      | other => .error (.sequence id other)
  | _ => .error (.idLength index)

/-- The loop over the orders, from the index `index` on; `validated` are the orders before. -/
def validateOrders : ℕ → List ProviderOrder → List Json →
    Except ProviderPayloadError (List ProviderOrder)
  | _, validated, [] => .ok validated
  | index, validated, raw :: orders =>
    match validateOrder index (validated.map ProviderOrder.id) raw with
    | .error e => .error e
    | .ok o => validateOrders (index + 1) (validated ++ [o]) orders

/-- **`ProviderClient.validate`**. -/
def validate (body : Json) : Except ProviderPayloadError ProviderSnapshot :=
  if body.isObject = false then .error .notAnObject
  else match isValidIsoDate (body.get? "generated_at") with
  | none => .error .generatedAt
  | some generatedAt =>
    match body.get? "orders" with
    | some (.arr orders) =>
      match validateOrders 0 [] orders with
      | .error e => .error e
      | .ok validated => .ok ⟨generatedAt, validated⟩
    | _ => .error .missingOrders

end Validate

/-! ## Valid snapshots -/

/-- The checks that an order of an accepted snapshot has passed. -/
structure ProviderOrder.Valid (o : ProviderOrder) : Prop where
  id_ne : o.id ≠ ""
  id_length : jsLength o.id.toList ≤ 255
  sequence_nonneg : 0 ≤ o.sequence
  sequence_le : o.sequence ≤ 2147483647
  amount : amountRegex o.amount = true
  currency : currencyRegex o.currency = true

/-- The orders of an accepted snapshot. -/
structure ValidSnapshot where
  orders : List ProviderOrder
  valid : ∀ o ∈ orders, o.Valid
  distinct : (orders.map ProviderOrder.id).Nodup

variable [Platform]

/-- An accepted order has passed the checks and is not a duplicate. -/
theorem validateOrder_valid {index : ℕ} {seenIds : List String} {raw : Json} {o : ProviderOrder}
    (h : validateOrder index seenIds raw = .ok o) : o.Valid ∧ o.id ∉ seenIds := by
  unfold validateOrder at h
  split at h
  · cases h
  split at h
  · split at h
    · cases h
    rename_i hid
    split at h
    · cases h
    split at h
    · cases h
    split at h
    · split at h
      · cases h
      rename_i hseq
      split at h
      · split at h
        · cases h
        rename_i hamount
        split at h
        · split at h
          · cases h
          rename_i hcurrency
          split at h
          · cases h
          split at h
          · cases h
          rename_i hseen
          obtain rfl := Except.ok.inj h
          obtain ⟨hid1, hid2⟩ := not_or.mp hid
          obtain ⟨-, hseq⟩ := not_or.mp hseq
          obtain ⟨hseq1, hseq2⟩ := not_or.mp hseq
          exact ⟨⟨hid1, not_lt.mp hid2, not_lt.mp hseq1, not_lt.mp hseq2,
            Bool.not_eq_false _ |>.mp hamount, Bool.not_eq_false _ |>.mp hcurrency⟩, hseen⟩
        · cases h
      · cases h
    · cases h
  · cases h

/-- The loop keeps the orders valid and their ids distinct. -/
theorem validateOrders_valid {index : ℕ} {validated orders : List ProviderOrder} {raws : List Json}
    (hv : ∀ o ∈ validated, o.Valid) (hd : (validated.map ProviderOrder.id).Nodup)
    (h : validateOrders index validated raws = .ok orders) :
    (∀ o ∈ orders, o.Valid) ∧ (orders.map ProviderOrder.id).Nodup := by
  induction raws generalizing index validated with
  | nil =>
    obtain rfl := Except.ok.inj h
    exact ⟨hv, hd⟩
  | cons raw raws ih =>
    unfold validateOrders at h
    split at h
    · cases h
    · rename_i o ho
      obtain ⟨hvalid, hnew⟩ := validateOrder_valid ho
      refine ih (fun o' ho' => ?_) ?_ h
      · rcases List.mem_append.mp ho' with ho' | ho'
        · exact hv o' ho'
        · rw [List.mem_singleton.mp ho']
          exact hvalid
      · rw [List.map_append, List.nodup_append]
        refine ⟨hd, by simp, fun a ha b hb => ?_⟩
        rw [List.map_singleton, List.mem_singleton] at hb
        rintro rfl
        exact hnew (hb ▸ ha)

/-- **What `validate` returns is a valid snapshot.** -/
theorem validate_valid {body : Json} {s : ProviderSnapshot} (h : validate body = .ok s) :
    (∀ o ∈ s.orders, o.Valid) ∧ (s.orders.map ProviderOrder.id).Nodup := by
  unfold validate at h
  split at h
  · cases h
  split at h
  · cases h
  split at h
  · split at h
    · cases h
    · rename_i hv
      obtain rfl := Except.ok.inj h
      exact validateOrders_valid (by simp) (by simp) hv
  · cases h

end PaymentWebhook
