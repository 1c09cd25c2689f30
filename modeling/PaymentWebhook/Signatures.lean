import Mathlib.Data.List.Basic

set_option relaxedAutoImplicit false
set_option autoImplicit false

/-!
# Signatures

`WebhookSignatureService.verify` and the guard in front of the webhook endpoint.

## Main definitions

* `PaymentWebhook.bufferFromHex`, `PaymentWebhook.timingSafeEqual` — what is used of Node.
* `PaymentWebhook.WebhookSignatureService.verify` — the check.
* `PaymentWebhook.WebhookSignatureGuard.canActivate` — the guard.
* `PaymentWebhook.HexDecodes` — hexadecimal notation, as a relation.

## Main results

* `PaymentWebhook.verify_accepts_iff` — which headers are accepted.

## Implementation notes

HMAC-SHA256 is a parameter: a function from a secret and bytes to 32 bytes.
-/

namespace PaymentWebhook

/-! ## Hexadecimal notation -/

/-- The value of a hexadecimal digit, in either case. -/
def hexValue? (c : Char) : Option ℕ :=
  if '0' ≤ c ∧ c ≤ '9' then some (c.toNat - 48)
  else if 'a' ≤ c ∧ c ≤ 'f' then some (c.toNat - 87)
  else if 'A' ≤ c ∧ c ≤ 'F' then some (c.toNat - 55)
  else none

/-- `[0-9a-f]`, ignoring case. -/
def isHexDigit (c : Char) : Bool :=
  ('0' ≤ c && c ≤ '9') || ('a' ≤ c && c ≤ 'f') || ('A' ≤ c && c ≤ 'F')

/-- `digest('hex')`. -/
def hexOf (bytes : List UInt8) : List Char :=
  bytes.flatMap fun b => [Nat.digitChar (b.toNat / 16), Nat.digitChar (b.toNat % 16)]

/-- `Buffer.from(text, 'hex')`: decoding stops at the first pair that is not one of digits. -/
def bufferFromHex : List Char → List UInt8
  | a :: b :: rest =>
    match hexValue? a, hexValue? b with
    | some x, some y => UInt8.ofNat (16 * x + y) :: bufferFromHex rest
    | _, _ => []
  | _ => []

/-- **Hexadecimal notation**: the text is that of the bytes, two digits each. -/
inductive HexDecodes : List Char → List UInt8 → Prop where
  | nil : HexDecodes [] []
  | cons {a b : Char} {x y : ℕ} {rest : List Char} {bytes : List UInt8} (ha : hexValue? a = some x)
      (hb : hexValue? b = some y) (h : HexDecodes rest bytes) :
      HexDecodes (a :: b :: rest) (UInt8.ofNat (16 * x + y) :: bytes)

/-! ## The check -/

/-- `timingSafeEqual`, which throws on buffers of different lengths. -/
def timingSafeEqual (a b : List UInt8) : Except String Bool :=
  if a.length ≠ b.length then .error "Input buffers must have the same byte length"
  else .ok (a = b)

/-- `'sha256='`. -/
def signaturePrefix : List Char := "sha256=".toList

variable (hmacSha256 : String → List UInt8 → Vector UInt8 32)

/-- **`WebhookSignatureService.verify`**. -/
def WebhookSignatureService.verify (secret : String) (rawBody : List UInt8)
    (signatureHeader : Option String) : Except String Bool :=
  match signatureHeader with
  | none => .ok false
  | some header =>
    if header = "" then .ok false
    else
      let hex :=
        if signaturePrefix.isPrefixOf header.toList then header.toList.drop 7 else header.toList
      -- `/^[0-9a-f]{64}$/i`
      if hex.length = 64 ∧ hex.all isHexDigit then
        let expected := hexOf (hmacSha256 secret rawBody).toList
        timingSafeEqual (bufferFromHex hex) (bufferFromHex expected)
      else .ok false

/-- **`WebhookSignatureGuard.canActivate`**: an error is the message of the
`UnauthorizedException`, or what `verify` throws. -/
def WebhookSignatureGuard.canActivate (secret : String) (rawBody : Option (List UInt8))
    (signature : Option String) : Except String Bool :=
  match rawBody with
  | none => .error "Missing raw body"
  | some rawBody =>
    match WebhookSignatureService.verify hmacSha256 secret rawBody signature with
    | .error e => .error e
    | .ok false => .error "Invalid signature"
    | .ok true => .ok true

/-! ## Encoding and decoding -/

/-- A hexadecimal digit has a value below sixteen. -/
theorem hexValue?_of_isHexDigit {c : Char} (h : isHexDigit c = true) : ∃ x, hexValue? c = some x := by
  simp only [isHexDigit, Bool.or_eq_true, Bool.and_eq_true, decide_eq_true_eq] at h
  unfold hexValue?
  split
  · exact ⟨_, rfl⟩
  · split
    · exact ⟨_, rfl⟩
    · split
      · exact ⟨_, rfl⟩
      · tauto

theorem isHexDigit_of_hexValue? {c : Char} {x : ℕ} (h : hexValue? c = some x) : isHexDigit c = true := by
  unfold hexValue? at h
  simp only [isHexDigit, Bool.or_eq_true, Bool.and_eq_true, decide_eq_true_eq]
  split at h
  · exact .inl (.inl ‹_›)
  · split at h
    · exact .inl (.inr ‹_›)
    · split at h
      · exact .inr ‹_›
      · cases h

/-- The digits of a byte have its halves for values. -/
theorem hexValue?_digitChar : ∀ n < 16, hexValue? (Nat.digitChar n) = some n := by decide

namespace HexDecodes

variable {hex : List Char} {bytes : List UInt8}

/-- A decoded text has two digits for each byte. -/
theorem digits (h : HexDecodes hex bytes) :
    hex.length = 2 * bytes.length ∧ ∀ c ∈ hex, isHexDigit c = true := by
  induction h with
  | nil => simp
  | cons ha hb _ ih =>
    obtain ⟨hlen, hall⟩ := ih
    refine ⟨by simp only [List.length_cons, hlen]; omega, fun c hc => ?_⟩
    rcases List.mem_cons.mp hc with rfl | hc
    · exact isHexDigit_of_hexValue? ha
    · rcases List.mem_cons.mp hc with rfl | hc
      · exact isHexDigit_of_hexValue? hb
      · exact hall c hc

/-- Node decodes hexadecimal notation. -/
theorem bufferFromHex_eq (h : HexDecodes hex bytes) : bufferFromHex hex = bytes := by
  induction h with
  | nil => rfl
  | cons ha hb _ ih => simp only [bufferFromHex, ha, hb, ih]

/-- An even number of digits can be decoded. -/
theorem of_digits : ∀ (n : ℕ) (hex : List Char), hex.length = 2 * n →
    (∀ c ∈ hex, isHexDigit c = true) → ∃ bytes, HexDecodes hex bytes ∧ bytes.length = n := by
  intro n
  induction n with
  | zero =>
    intro hex hlen _
    obtain rfl := List.length_eq_zero_iff.mp hlen
    exact ⟨[], .nil, rfl⟩
  | succ n ih =>
    intro hex hlen hall
    match hex, hlen, hall with
    | a :: b :: rest, hlen, hall =>
      obtain ⟨x, hx⟩ := hexValue?_of_isHexDigit (hall a (by simp))
      obtain ⟨y, hy⟩ := hexValue?_of_isHexDigit (hall b (by simp))
      obtain ⟨bytes, hrest, hbytes⟩ := ih rest (by simpa [Nat.mul_succ] using hlen)
        fun c hc => hall c (by simp [hc])
      exact ⟨_, .cons hx hy hrest, by simp [hbytes]⟩

/-- A digest in hexadecimal notation decodes to the digest. -/
theorem hexOf (bytes : List UInt8) : HexDecodes (hexOf bytes) bytes := by
  induction bytes with
  | nil => exact .nil
  | cons b bytes ih =>
    have hb := b.toNat_lt
    have hhigh := hexValue?_digitChar (b.toNat / 16) (by omega)
    have hlow := hexValue?_digitChar (b.toNat % 16) (by omega)
    have hbyte : UInt8.ofNat (16 * (b.toNat / 16) + b.toNat % 16) = b := by
      rw [Nat.div_add_mod, UInt8.ofNat_toNat]
    have hcons := HexDecodes.cons hhigh hlow ih
    rwa [hbyte] at hcons

end HexDecodes

/-! ## Which headers are accepted -/

/-- The signature that a header carries. -/
inductive Carries : String → List Char → Prop where
  | bare (hex : List Char) : Carries (String.ofList hex) hex
  | prefixed (hex : List Char) : Carries (String.ofList (signaturePrefix ++ hex)) hex

/-- A bare signature does not start with the prefix. -/
theorem isPrefixOf_of_digits {hex : List Char} (h : ∀ c ∈ hex, isHexDigit c = true) :
    signaturePrefix.isPrefixOf hex = false := by
  cases hex with
  | nil => rfl
  | cons c hex =>
    have hc := h c (by simp)
    have hne : ('s' == c) = false := by
      refine beq_eq_false_iff_ne.mpr ?_
      rintro rfl
      exact absurd hc (by decide)
    show (('s' == c) && _) = false
    rw [hne, Bool.false_and]

/-- What `verify` takes for the signature of a header is what the header carries. -/
theorem carries_iff {text : String} {hex : List Char} (hhex : ∀ c ∈ hex, isHexDigit c = true) :
    Carries text hex ↔ (if signaturePrefix.isPrefixOf text.toList then text.toList.drop 7
      else text.toList) = hex := by
  constructor
  · rintro (_ | _)
    · rw [String.toList_ofList, isPrefixOf_of_digits hhex]
      rfl
    · have hinit : signaturePrefix.isPrefixOf (signaturePrefix ++ hex) = true :=
        List.isPrefixOf_iff_prefix.mpr (List.prefix_append _ _)
      rw [String.toList_ofList, if_pos hinit]
      rfl
  · split
    next hinit =>
      rintro rfl
      obtain ⟨rest, hrest⟩ := List.isPrefixOf_iff_prefix.mp hinit
      have hdrop : text.toList.drop 7 = rest := by
        rw [← hrest]
        rfl
      have htext : text = String.ofList (signaturePrefix ++ text.toList.drop 7) := by
        rw [hdrop, hrest, String.ofList_toList]
      rw [htext, String.toList_ofList]
      exact .prefixed _
    next =>
      rintro rfl
      have hbare := Carries.bare text.toList
      rwa [String.ofList_toList] at hbare

/-- Comparing a signature of 64 digits does not throw, and tells whether it decodes to the digest. -/
theorem timingSafeEqual_digest {hex : List Char} (hlen : hex.length = 64)
    (hhex : ∀ c ∈ hex, isHexDigit c = true) (digest : Vector UInt8 32) :
    ∃ equal, timingSafeEqual (bufferFromHex hex) (bufferFromHex (hexOf digest.toList)) = .ok equal ∧
      (equal = true ↔ HexDecodes hex digest.toList) := by
  obtain ⟨bytes, hdecodes, hbytes⟩ := HexDecodes.of_digits 32 hex hlen hhex
  rw [hdecodes.bufferFromHex_eq, (HexDecodes.hexOf digest.toList).bufferFromHex_eq]
  refine ⟨decide (bytes = digest.toList), ?_, ?_⟩
  · rw [timingSafeEqual, if_neg (by simp [hbytes])]
  · rw [decide_eq_true_eq]
    constructor
    · rintro rfl
      exact hdecodes
    · intro h
      rw [← hdecodes.bufferFromHex_eq, h.bufferFromHex_eq]

/-- The guard lets pass what `verify` accepts. -/
theorem canActivate_iff {secret : String} {rawBody : List UInt8} {header : Option String}
    {accepted : Bool}
    (h : WebhookSignatureService.verify hmacSha256 secret rawBody header = .ok accepted) :
    WebhookSignatureGuard.canActivate hmacSha256 secret (some rawBody) header = .ok true ↔
      accepted = true := by
  simp only [WebhookSignatureGuard.canActivate, h]
  cases accepted <;> simp

/-- **Which digests are accepted**: a digest of the body in hexadecimal notation passes the guard exactly if
it is that under the secret. -/
theorem canActivate_hexOf (secret : String) (rawBody : List UInt8) (digest : Vector UInt8 32) :
    WebhookSignatureGuard.canActivate hmacSha256 secret (some rawBody)
      (some (String.ofList (hexOf digest.toList))) = .ok true ↔ digest = hmacSha256 secret rawBody := by
  obtain ⟨hlen, hhex⟩ := (HexDecodes.hexOf digest.toList).digits
  have hlen' : (hexOf digest.toList).length = 64 := by simpa using hlen
  have hne : String.ofList (hexOf digest.toList) ≠ "" := by
    intro heq
    have hnil := congrArg (fun text : String => text.toList.length) heq
    simp [hlen'] at hnil
  obtain ⟨equal, hequal, hiff⟩ := timingSafeEqual_digest hlen' hhex (hmacSha256 secret rawBody)
  have hverify : WebhookSignatureService.verify hmacSha256 secret rawBody
      (some (String.ofList (hexOf digest.toList))) = .ok equal := by
    simp only [WebhookSignatureService.verify, if_neg hne, String.toList_ofList,
      isPrefixOf_of_digits hhex, Bool.false_eq_true, if_false]
    rw [if_pos ⟨hlen', List.all_eq_true.mpr hhex⟩, hequal]
  rw [canActivate_iff hmacSha256 hverify, hiff]
  constructor
  · intro hdecodes
    rw [← Vector.toList_inj, ← (HexDecodes.hexOf digest.toList).bufferFromHex_eq, hdecodes.bufferFromHex_eq]
  · rintro rfl
    exact HexDecodes.hexOf _

/-- **Which headers are accepted**: `verify` does not throw, and accepts a header exactly if it is an
optional `sha256=` and 64 hexadecimal digits that decode to the HMAC of the body; and the guard lets
exactly those requests pass. -/
theorem verify_accepts_iff (secret : String) (rawBody : List UInt8) (header : Option String) :
    ∃ accepted, WebhookSignatureService.verify hmacSha256 secret rawBody header = .ok accepted ∧
      (accepted = true ↔ ∃ text hex, header = some text ∧ Carries text hex ∧ hex.length = 64 ∧
        (∀ c ∈ hex, isHexDigit c = true) ∧ HexDecodes hex (hmacSha256 secret rawBody).toList) ∧
      (WebhookSignatureGuard.canActivate hmacSha256 secret (some rawBody) header = .ok true ↔
        accepted = true) := by
  suffices hverify : ∃ accepted,
      WebhookSignatureService.verify hmacSha256 secret rawBody header = .ok accepted ∧
      (accepted = true ↔ ∃ text hex, header = some text ∧ Carries text hex ∧ hex.length = 64 ∧
        (∀ c ∈ hex, isHexDigit c = true) ∧ HexDecodes hex (hmacSha256 secret rawBody).toList) by
    obtain ⟨accepted, haccepted, hiff⟩ := hverify
    exact ⟨accepted, haccepted, hiff, canActivate_iff hmacSha256 haccepted⟩
  cases header with
  | none => exact ⟨false, rfl, by simp⟩
  | some text =>
    by_cases hempty : text = ""
    · -- the empty header carries no digits
      refine ⟨false, by simp [WebhookSignatureService.verify, hempty], ?_⟩
      simp only [Bool.false_eq_true, false_iff, not_exists, not_and]
      rintro _ hex ⟨⟩ hcarries hlen hhex
      have hnil := (carries_iff hhex).mp hcarries
      rw [hempty] at hnil
      obtain rfl : [] = hex := hnil
      cases hlen
    · simp only [WebhookSignatureService.verify, if_neg hempty]
      set signature := if signaturePrefix.isPrefixOf text.toList then text.toList.drop 7
        else text.toList with hsignature
      have hcarried : ∀ {hex}, Carries text hex → (∀ c ∈ hex, isHexDigit c = true) →
          signature = hex := fun hcarries hhex => (carries_iff hhex).mp hcarries
      by_cases hok : signature.length = 64 ∧ signature.all isHexDigit = true
      · have hhex : ∀ c ∈ signature, isHexDigit c = true := List.all_eq_true.mp hok.2
        obtain ⟨accepted, hequal, hiff⟩ := timingSafeEqual_digest hok.1 hhex (hmacSha256 secret rawBody)
        refine ⟨accepted, by rw [if_pos hok]; exact hequal, hiff.trans ⟨fun hdecodes => ?_, ?_⟩⟩
        · exact ⟨text, signature, rfl, (carries_iff hhex).mpr hsignature.symm, hok.1, hhex, hdecodes⟩
        · rintro ⟨_, hex, ⟨⟩, hcarries, -, hhex', hdecodes⟩
          rwa [hcarried hcarries hhex']
      · refine ⟨false, if_neg hok, ?_⟩
        simp only [Bool.false_eq_true, false_iff, not_exists, not_and]
        rintro _ hex ⟨⟩ hcarries hlen hhex
        refine absurd ⟨?_, ?_⟩ hok
        · rw [hcarried hcarries hhex, hlen]
        · rw [hcarried hcarries hhex]
          exact List.all_eq_true.mpr hhex

end PaymentWebhook
