import PaymentWebhook.Generator
import PaymentWebhook.OrderMoney

set_option relaxedAutoImplicit false
set_option autoImplicit false

/-!
# The generated events

What the loops of the generator have made, whatever the random numbers: each webhook has a number of its
own, and so has each order; the webhooks of an order are numbered one after the other, carry the same money,
and have the sequences of their statuses.

## Main definitions

* `PaymentWebhook.Generator.Made` — what the loops have made.

## Main results

* `PaymentWebhook.Generator.exists_made` — the loops make as many webhooks as they should.
-/

namespace PaymentWebhook

namespace Generator

variable {rt : Runtime} {opts : GenerateOptions} {rng : ℕ → ℚ}

/-! ## The loops -/

/-- **What the loops have made**: the webhook at the position `p` is about the status at the index `i` of
the order whose first webhook is at `p - i`, with what has been drawn for that order from `draws (p - i)` on. -/
def Made (rt : Runtime) (opts : GenerateOptions) (rng : ℕ → ℚ) (draws : ℕ → ℕ)
    (base : List GeneratedEvent) : Prop :=
  ∀ p e, base[p]? = some e → ∃ start i status, start + i = p ∧
    (drawOrder rng (draws start)).chain[i]? = some status ∧
    e = baseEvent rt opts (orderIdOf opts (start + 1)) (drawOrder rng (draws start)) status (i + 1) (p + 1)

/-- What is drawn for the next order concerns none of those before. -/
theorem Made.update {draws : ℕ → ℕ} {base : List GeneratedEvent} (h : Made rt opts rng draws base) (k : ℕ) :
    Made rt opts rng (Function.update draws base.length k) base := by
  intro p e hp
  obtain ⟨start, i, status, hstart, hstatus, he⟩ := h p e hp
  have hlt : p < base.length := (List.getElem?_eq_some_iff.mp hp).1
  have hne : start ≠ base.length := by omega
  refine ⟨start, i, status, hstart, ?_⟩
  rw [Function.update_of_ne hne]
  exact ⟨hstatus, he⟩

/-- One more webhook. -/
theorem Made.snoc {draws : ℕ → ℕ} {base : List GeneratedEvent} (h : Made rt opts rng draws base)
    {start i : ℕ} {status : OrderStatus} (hstart : start + i = base.length)
    (hstatus : (drawOrder rng (draws start)).chain[i]? = some status) :
    Made rt opts rng draws (base ++ [baseEvent rt opts (orderIdOf opts (start + 1))
      (drawOrder rng (draws start)) status (i + 1) (base.length + 1)]) := by
  intro p e hp
  rcases lt_trichotomy p base.length with hlt | rfl | hgt
  · rw [List.getElem?_append_left hlt] at hp
    exact h p e hp
  · rw [List.getElem?_concat_length] at hp
    exact ⟨start, i, status, hstart, hstatus, (Option.some.inj hp).symm⟩
  · rw [List.getElem?_eq_none (by simp; omega)] at hp
    cases hp

/-- **The loop over a chain**: it numbers what it makes, does not make too much, and makes something if there
is room for it. -/
theorem generateChain_made (rt : Runtime) (opts : GenerateOptions) (rng : ℕ → ℚ) (draws : ℕ → ℕ)
    (start : ℕ) : ∀ (chain : List OrderStatus) (i : ℕ) (s : Progress),
    (drawOrder rng (draws start)).chain.drop i = chain → start + i = s.baseEvents.length →
    s.eventCounter = s.baseEvents.length → s.baseEvents.length ≤ opts.events →
    Made rt opts rng draws s.baseEvents →
    ∀ s', s' = generateChain rt opts (orderIdOf opts (start + 1)) (drawOrder rng (draws start)) chain i s →
      s'.eventCounter = s'.baseEvents.length ∧ s'.baseEvents.length ≤ opts.events ∧
      Made rt opts rng draws s'.baseEvents ∧ s.baseEvents.length ≤ s'.baseEvents.length ∧
      (chain ≠ [] → s.baseEvents.length < opts.events → s.baseEvents.length < s'.baseEvents.length)
  | [], i, s, _, _, hcounter, hle, hmade, s', hs' => by
    subst hs'
    exact ⟨hcounter, hle, hmade, le_rfl, fun hne => absurd rfl hne⟩
  | status :: chain, i, s, hchain, hstart, hcounter, hle, hmade, s', hs' => by
    rw [generateChain] at hs'
    split_ifs at hs' with hfull
    · subst hs'
      exact ⟨hcounter, hle, hmade, le_rfl, fun _ hlt => absurd hfull (not_le.mpr hlt)⟩
    · have hstatus : (drawOrder rng (draws start)).chain[i]? = some status := by
        rw [← List.head?_drop, hchain]
        rfl
      have hrest : (drawOrder rng (draws start)).chain.drop (i + 1) = chain := by
        rw [← List.tail_drop, hchain]
        rfl
      rw [hcounter] at hs'
      obtain ⟨h₁, h₂, h₃, h₄, -⟩ := generateChain_made rt opts rng draws start chain (i + 1) _ hrest
        (by simp only [List.length_append, List.length_singleton]; omega)
        (by simp only [List.length_append, List.length_singleton])
        (by simp only [List.length_append, List.length_singleton]; omega)
        (hmade.snoc hstart hstatus) s' hs'
      simp only [List.length_append, List.length_singleton] at h₄
      exact ⟨h₁, h₂, h₃, by omega, fun _ _ => by omega⟩

/-- An entry of a list. -/
theorem getD_mem {α : Type} {l : List α} {i : ℕ} (h : i < l.length) (d : α) : l.getD i d ∈ l := by
  rw [List.getD_eq_getElem?_getD, List.getElem?_eq_getElem h]
  exact List.getElem_mem h

/-- Every chain has a status. -/
theorem chain_ne_nil (h : InUnit rng) (k : ℕ) : (drawOrder rng k).chain ≠ [] := by
  have hlt : randomInt rng k CHAINS.length < CHAINS.length := randomInt_lt h k (by decide)
  have hall : ∀ chain ∈ CHAINS, chain ≠ [] := by decide
  exact hall _ (getD_mem hlt [])

/-- **The loop over orders** makes as many webhooks as it should. -/
theorem generateOrders_made (rt : Runtime) (opts : GenerateOptions) (h : InUnit rng) :
    ∀ (fuel : ℕ) (s : Progress) (draws : ℕ → ℕ),
    opts.events ≤ fuel + s.baseEvents.length → s.eventCounter = s.baseEvents.length →
    s.baseEvents.length ≤ opts.events → Made rt opts rng draws s.baseEvents →
    ∃ draws', (generateOrders rt opts rng fuel s).eventCounter = opts.events ∧
      (generateOrders rt opts rng fuel s).baseEvents.length = opts.events ∧
      Made rt opts rng draws' (generateOrders rt opts rng fuel s).baseEvents
  | 0, s, draws, hfuel, hcounter, hle, hmade => by
    refine ⟨draws, ?_, ?_, hmade⟩ <;> simp only [generateOrders] <;> omega
  | fuel + 1, s, draws, hfuel, hcounter, hle, hmade => by
    rw [generateOrders]
    split_ifs with hfull
    · exact ⟨draws, by omega, by omega, hmade⟩
    · have hdraw : Function.update draws s.baseEvents.length s.draws s.baseEvents.length = s.draws :=
        Function.update_self ..
      have hmade' : Made rt opts rng (Function.update draws s.baseEvents.length s.draws) s.baseEvents :=
        hmade.update s.draws
      have hid : orderIdOf opts (s.eventCounter + 1) = orderIdOf opts (s.baseEvents.length + 1) := by
        rw [hcounter]
      have hturn := generateChain_made rt opts rng (Function.update draws s.baseEvents.length s.draws)
        s.baseEvents.length (drawOrder rng s.draws).chain 0 { s with draws := s.draws + 4 }
        (by rw [hdraw, List.drop_zero]) rfl hcounter hle hmade' _ rfl
      rw [hdraw, ← hid] at hturn
      obtain ⟨h₁, h₂, h₃, -, h₅⟩ := hturn
      have hgrows : s.baseEvents.length < _ := h₅ (chain_ne_nil h s.draws) (by simpa using hfull)
      exact generateOrders_made rt opts h fuel _ _ (by omega) h₁ h₂ h₃

/-- **The loops make as many webhooks as they should**, and nothing is cut off. -/
theorem exists_made (rt : Runtime) (opts : GenerateOptions) (h : InUnit rng) :
    (trimmedBase rt opts rng).length = opts.events ∧ (progress rt opts rng).eventCounter = opts.events ∧
      ∃ draws, Made rt opts rng draws (trimmedBase rt opts rng) := by
  obtain ⟨draws, hcounter, hlen, hmade⟩ := generateOrders_made rt opts h opts.events
    ⟨[], 0, 0⟩ (fun _ => 0) le_rfl rfl (Nat.zero_le _) (by simp [Made])
  have htrim : trimmedBase rt opts rng = (progress rt opts rng).baseEvents :=
    List.take_of_length_le hlen.le
  rw [htrim]
  exact ⟨hlen, hcounter, draws, hmade⟩

/-! ## Amounts -/

/-- A decimal splits at the first character that is no digit. -/
theorem takeWhile_isDigit {int : List Char} (h : ∀ c ∈ int, c.isDigit = true) (dec : List Char) :
    (int ++ '.' :: dec).takeWhile Char.isDigit = int ∧
      (int ++ '.' :: dec).dropWhile Char.isDigit = '.' :: dec := by
  rw [List.takeWhile_append_of_pos h, List.dropWhile_append_of_pos h]
  constructor <;> simp

/-- The text of a whole number of cents is an amount that the webhook accepts. -/
theorem amountMatches_numericText {cents : ℕ} (h : numericFits cents = true) :
    PaymentWebhookDto.amountMatches (numericText cents) = true := by
  have hlt : cents < 10 ^ 12 := by simpa [numericFits] using h
  have hdigits : ∀ c ∈ Nat.toDigits 10 (cents / 100), c.isDigit = true := fun c hc =>
    Nat.isDigit_of_mem_toDigits (by decide) (by decide) hc
  have hstrip : stripZeros (Nat.toDigits 10 (cents / 100)) = Nat.toDigits 10 (cents / 100) := by
    rw [stripZeros_eq_toDigits hdigits, digitsValue_toDigits]
  have hlen : (Nat.toDigits 10 (cents / 100)).length ≤ 10 :=
    Nat.toDigits_length 10 _ 10 (by decide) (by omega)
  have hhead : Nat.toDigits 10 (cents / 100) = ['0'] ∨
      ((Nat.toDigits 10 (cents / 100)).head?.any (· ≠ '0')) = true := by
    have hzero := head_stripZeros (Nat.toDigits 10 (cents / 100))
    rw [hstrip] at hzero
    cases hcons : Nat.toDigits 10 (cents / 100) with
    | nil => exact absurd hcons Nat.toDigits_ne_nil
    | cons c int =>
      rw [hcons] at hzero
      by_cases hc : c = '0'
      · exact .inl (hzero (by simp [hc]))
      · exact .inr (by simp [hc])
  have htext : (numericText cents).toList = Nat.toDigits 10 (cents / 100) ++
      ['.', Nat.digitChar (cents % 100 / 10), Nat.digitChar (cents % 10)] := by
    rw [numericText_toList]
    simp
  obtain ⟨htake, hdrop⟩ := takeWhile_isDigit hdigits
    [Nat.digitChar (cents % 100 / 10), Nat.digitChar (cents % 10)]
  have hdec := numericText_dec cents
  simp only [Int.natAbs_natCast, List.forall_mem_cons] at hdec
  simp only [PaymentWebhookDto.amountMatches, htext, htake, hdrop, hdec.1, hdec.2.1, Bool.and_true,
    Bool.or_eq_true, Bool.and_eq_true, decide_eq_true_eq]
  exact hhead.imp_right fun hhead => ⟨by simpa using hhead, hlen⟩

/-- The text of a whole number of cents is read as that number. -/
theorem numericIn_numericText {cents : ℕ} (h : numericFits cents = true) :
    numericIn (numericText cents) = some (cents : ℤ) := by
  obtain ⟨c, hin, -, htext, -⟩ :=
    normalizeAmount_numericText (amountRegex_of_matches (amountMatches_numericText h))
  rw [normalizeAmount_text] at htext
  rw [hin, numericText_inj (Option.some.inj htext)]

/-- The normal form of an amount is the text of a whole number of cents. -/
theorem exists_cents {a : String} (h : amountRegex a = true) :
    ∃ cents : ℕ, normalizeAmount a = numericText cents ∧ numericFits cents = true := by
  obtain ⟨int, d, e, -, hint, hd, he, hnormal, hgenerator, -⟩ := amount_form h
  obtain ⟨c, -, hfits, htext, -⟩ := normalizeAmount_numericText h
  have hcents := numericText_decimal hint hd he
  refine ⟨digitsValue int * 100 + digitsValue [d, e], hgenerator.trans hcents.symm, ?_⟩
  have heq : c = ((digitsValue int * 100 + digitsValue [d, e] : ℕ) : ℤ) :=
    numericText_inj (by rw [hcents]; exact Option.some.inj (htext.symm.trans hnormal))
  rwa [← heq]

/-- The drawn amounts are amounts. -/
theorem amountRegex_drawn {m n : ℕ} (hm : m < 10 ^ 10) (hn : n < 100) :
    amountRegex (toString m ++ "." ++ padStart 2 n) = true := by
  have hdigits : ∀ c ∈ Nat.toDigits 10 m, c.isDigit = true := fun c hc =>
    Nat.isDigit_of_mem_toDigits (by decide) (by decide) hc
  obtain ⟨htake, hdrop⟩ := takeWhile_isDigit hdigits (padStart 2 n).toList
  have hpos : 1 ≤ (Nat.toDigits 10 m).length := Nat.length_toDigits_pos
  have hlen : (Nat.toDigits 10 m).length ≤ 10 := Nat.toDigits_length 10 _ 10 (by decide) hm
  have hlen₂ : (padStart 2 n).toList.length = 2 := by
    have hle : (Nat.toDigits 10 n).length ≤ 2 := Nat.toDigits_length 10 _ 2 (by decide) (by omega)
    rw [padStart, String.toList_ofList, List.length_leftpad]
    omega
  have hall : (padStart 2 n).toList.all Char.isDigit = true := List.all_eq_true.mpr isDigit_padStart
  simp [amountRegex, htake, hdrop, hall, hlen₂, hpos, hlen]

/-- **What is drawn for an order**: an amount and a currency that the webhook accepts. -/
theorem drawOrder_money (h : InUnit rng) (k : ℕ) :
    ∃ cents : ℕ, (drawOrder rng k).amount = numericText cents ∧ numericFits cents = true ∧
      (drawOrder rng k).currency ∈ ["MXN", "USD", "EUR"] := by
  have hm := randomInt_lt h (k + 1) (n := 100000) (by decide)
  have hn := randomInt_lt h (k + 2) (n := 100) (by decide)
  have hcurrency : randomInt rng (k + 3) 3 < ["MXN", "USD", "EUR"].length :=
    randomInt_lt h (k + 3) (by decide)
  obtain ⟨cents, hcents, hfits⟩ := exists_cents (amountRegex_drawn
    (m := randomInt rng (k + 1) 100000 + 100) (n := randomInt rng (k + 2) 100) (by omega) hn)
  exact ⟨cents, hcents, hfits, getD_mem hcurrency ""⟩

/-! ## Identifiers -/

/-- An identifier: the run, a tag and a padded number. -/
def identifier (runId tag : String) (width n : ℕ) : String := runId ++ tag ++ padStart width n

/-- Identifiers with one tag are told apart by their numbers. -/
theorem identifier_inj {runId : String} (tag : String) {width m n : ℕ}
    (h : identifier runId tag width m = identifier runId tag width n) : m = n :=
  padStart_inj ((String.append_right_inj _).mp h)

/-- An identifier is not empty. -/
theorem identifier_ne {runId : String} {width n : ℕ} (tag : String) (h : tag ≠ "") :
    identifier runId tag width n ≠ "" := by
  intro heq
  have hlist := congrArg String.toList heq
  simp only [identifier, String.toList_append, List.append_assoc, String.toList_empty,
    List.append_eq_nil_iff, String.toList_eq_nil_iff] at hlist
  exact h hlist.2.1

/-- **Noise has ids of its own**: after the tag of the webhooks stands a digit, and after theirs a letter. -/
theorem identifier_ne_stale {runId : String} {m n : ℕ} :
    identifier runId "-evt-" 8 m ≠ identifier runId "-evt-noise-stale-" 8 n := by
  intro h
  have hlist := congrArg String.toList h
  simp only [identifier, String.toList_append, List.append_assoc] at hlist
  have htag : "-evt-".toList ++ (padStart 8 m).toList =
      "-evt-".toList ++ ("noise-stale-".toList ++ (padStart 8 n).toList) := List.append_cancel_left hlist
  have hmem : 'n' ∈ (padStart 8 m).toList := by
    rw [List.append_cancel_left htag]
    simp
  exact absurd (isDigit_padStart 'n' hmem) (by decide)

/-- Texts that are numbered one by one are different. -/
theorem nodup_of_numbered {l : List String} {f : ℕ → String} (hf : Function.Injective f)
    (h : ∀ (i : ℕ) a, l[i]? = some a → a = f i) : l.Nodup := by
  rw [List.nodup_iff_getElem?_ne_getElem?]
  intro i j hij hj heq
  have hlast : l[j]? = some l[j] := List.getElem?_eq_getElem hj
  have hsame : f i = f j := (h i _ (heq.trans hlast)).symm.trans (h j _ hlast)
  exact hij.ne (hf hsame)

/-! ## The webhooks of a run -/

/-- **What a webhook says**: its payload repeats its columns, and carries money that the service accepts. -/
structure Sound (rt : Runtime) (e : GeneratedEvent) : Prop where
  eventId : e.payload.eventId = e.eventId
  orderId : e.payload.orderId = e.orderId
  eventId_ne : e.eventId ≠ ""
  orderId_ne : e.orderId ≠ ""
  eventType : e.payload.eventType = STATUS_TO_EVENT_TYPE e.status
  sequence : e.payload.sequence = e.sequence
  positive : 1 ≤ e.sequence
  money : ∃ (cents : ℕ) (currency : String), numericFits cents = true ∧
    currency ∈ ["MXN", "USD", "EUR"] ∧ e.payload.data = some ⟨some (numericText cents), some currency⟩
  body : e.rawBody = rt.stringify e.payload

/-- **The webhooks of a run**: those that the service is to apply, their duplicates, the forged ones and the
outdated ones. -/
structure Traffic (rt : Runtime) (opts : GenerateOptions) (base duplicates invalid stale : List GeneratedEvent) :
    Prop where
  sound : ∀ e ∈ base ++ stale, Sound rt e ∧ e.signature = sign rt opts.secret e.rawBody
  recent : ∀ e ∈ base, ∃ n : ℕ, 1 ≤ n ∧ n ≤ opts.events ∧
    e.payload.occurredAt = rt.toISOString (opts.baseTimeMs + n)
  outdated : ∀ e ∈ stale, e.payload.occurredAt = rt.toISOString (opts.baseTimeMs - 10 * 60 * 1000)
  copies : ∀ e ∈ duplicates, ∃ src ∈ base, e = duplicateEvent src
  forged : ∀ e ∈ invalid, e.signature = sign rt "wrong-secret" e.rawBody
  borrowed : ∀ e ∈ stale, ∃ src ∈ base, e.orderId = src.orderId ∧ e.payload.data = src.payload.data
  genuine : ∀ e ∈ base ++ stale, e.isInvalidSignature = false
  eventIds : ((base ++ stale).map GeneratedEvent.eventId).Nodup
  orders : ∀ e ∈ base, ∀ e' ∈ base, e.orderId = e'.orderId →
    e.payload.data = e'.payload.data ∧ (e.sequence = e'.sequence → e = e')

/-- The webhooks of a run are told apart by their ids. -/
theorem Traffic.eq_of_eventId {base duplicates invalid stale : List GeneratedEvent}
    (h : Traffic rt opts base duplicates invalid stale) {e e' : GeneratedEvent} (he : e ∈ base ++ stale)
    (he' : e' ∈ base ++ stale) (hid : e.eventId = e'.eventId) : e = e' :=
  List.inj_on_of_nodup_map h.eventIds he he' hid

/-- What the webhooks that pass the guard repeat: their source says the same, and is one of `base` unless they
are outdated. -/
theorem Traffic.source {base duplicates invalid stale : List GeneratedEvent}
    (h : Traffic rt opts base duplicates invalid stale) {e : GeneratedEvent}
    (he : e ∈ base ++ duplicates ++ stale) : ∃ src ∈ base ++ stale, e.eventId = src.eventId ∧
      e.orderId = src.orderId ∧ e.payload = src.payload ∧ e.rawBody = src.rawBody ∧
      e.signature = src.signature := by
  rcases List.mem_append.mp he with he | he
  · rcases List.mem_append.mp he with he | he
    · exact ⟨e, List.mem_append_left _ he, rfl, rfl, rfl, rfl, rfl⟩
    · obtain ⟨src, hsrc, rfl⟩ := h.copies e he
      exact ⟨src, List.mem_append_left _ hsrc, rfl, rfl, rfl, rfl, rfl⟩
  · exact ⟨e, List.mem_append_right _ he, rfl, rfl, rfl, rfl, rfl⟩

section Made

variable {draws : ℕ → ℕ} {base : List GeneratedEvent} (h : Made rt opts rng draws base)

include h

/-- What the loops have made is sound, signed and recent. -/
theorem Made.sound (hrng : InUnit rng) {e : GeneratedEvent} (he : e ∈ base) :
    Sound rt e ∧ e.signature = sign rt opts.secret e.rawBody ∧
      ∃ n : ℕ, 1 ≤ n ∧ n ≤ base.length ∧ e.payload.occurredAt = rt.toISOString (opts.baseTimeMs + n) := by
  obtain ⟨p, hp⟩ := List.getElem?_of_mem he
  have hlt : p < base.length := (List.getElem?_eq_some_iff.mp hp).1
  obtain ⟨start, i, status, -, -, rfl⟩ := h p e hp
  obtain ⟨cents, hcents, hfits, hcurrency⟩ := drawOrder_money hrng (draws start)
  refine ⟨⟨rfl, rfl, ?_, ?_, rfl, rfl, ?_, ⟨cents, _, hfits, hcurrency, ?_⟩, rfl⟩, rfl, p + 1, by omega,
    by omega, ?_⟩
  · exact identifier_ne "-evt-" (by decide)
  · exact identifier_ne "-order-" (by decide)
  · show (1 : ℤ) ≤ ((i + 1 : ℕ) : ℤ)
    omega
  · show some (⟨some (drawOrder rng (draws start)).amount, _⟩ : PaymentWebhookData) = _
    rw [hcents]
  · rfl

/-- What the loops have made is not forged. -/
theorem Made.genuine {e : GeneratedEvent} (he : e ∈ base) : e.isInvalidSignature = false := by
  obtain ⟨p, hp⟩ := List.getElem?_of_mem he
  obtain ⟨start, i, status, -, -, rfl⟩ := h p e hp
  rfl

/-- The ids of what the loops have made are numbered. -/
theorem Made.eventId {p : ℕ} {id : String} (hp : (base.map GeneratedEvent.eventId)[p]? = some id) :
    id = identifier opts.runId "-evt-" 8 (p + 1) := by
  rw [List.getElem?_map, Option.map_eq_some_iff] at hp
  obtain ⟨e, he, rfl⟩ := hp
  obtain ⟨start, i, status, -, -, rfl⟩ := h p e he
  rfl

/-- **The webhooks of one order** carry the same money, and have sequences of their own. -/
theorem Made.orders {e e' : GeneratedEvent} (he : e ∈ base) (he' : e' ∈ base)
    (hid : e.orderId = e'.orderId) :
    e.payload.data = e'.payload.data ∧ (e.sequence = e'.sequence → e = e') := by
  obtain ⟨p, hp⟩ := List.getElem?_of_mem he
  obtain ⟨p', hp'⟩ := List.getElem?_of_mem he'
  obtain ⟨start, i, status, hstart, -, hmade⟩ := h p e hp
  obtain ⟨start', i', status', hstart', -, hmade'⟩ := h p' e' hp'
  have horder : start + 1 = start' + 1 := by
    rw [hmade, hmade'] at hid
    exact identifier_inj "-order-" hid
  obtain rfl : start = start' := by omega
  refine ⟨by rw [hmade, hmade']; rfl, fun hseq => ?_⟩
  have hindex : ((i + 1 : ℕ) : ℤ) = ((i' + 1 : ℕ) : ℤ) := by
    rw [hmade, hmade'] at hseq
    exact hseq
  obtain rfl : p = p' := by omega
  exact Option.some.inj (hp.symm.trans hp')

end Made

/-- What is drawn from the webhooks is one of them. -/
theorem mem_of_mem_drawSources {n k : ℕ} {e : GeneratedEvent} (h : e ∈ drawSources rt opts rng n k) :
    e ∈ trimmedBase rt opts rng := by
  obtain ⟨i, -, hi⟩ := List.mem_filterMap.mp h
  exact List.mem_of_getElem? hi

/-- An outdated webhook says what its source says, but for its id and its time. -/
theorem Sound.stale {src : GeneratedEvent} (h : Sound rt src) (n : ℕ) : Sound rt (staleEvent rt opts src n) where
  eventId := rfl
  orderId := h.orderId
  eventId_ne := identifier_ne "-evt-noise-stale-" (by decide)
  orderId_ne := h.orderId_ne
  eventType := h.eventType
  sequence := h.sequence
  positive := h.positive
  money := h.money
  body := rfl

/-- **The generator makes the webhooks of a run.** -/
theorem traffic (rt : Runtime) (opts : GenerateOptions) (h : InUnit rng) :
    Traffic rt opts (trimmedBase rt opts rng) (duplicates rt opts rng) (invalidEvents rt opts rng)
      (staleEvents rt opts rng) := by
  obtain ⟨hlength, -, draws, hmade⟩ := exists_made rt opts h
  have hstale : ∀ e ∈ staleEvents rt opts rng, ∃ src ∈ trimmedBase rt opts rng, ∃ n,
      e = staleEvent rt opts src n := by
    intro e he
    obtain ⟨i, hi, rfl⟩ := List.mem_mapIdx.mp he
    exact ⟨_, mem_of_mem_drawSources (List.getElem_mem hi), _, rfl⟩
  refine ⟨?_, fun e he => hlength ▸ (hmade.sound h he).2.2, fun e he => ?_, fun e he => ?_, fun e he => ?_,
    fun e he => ?_, fun e he => ?_, ?_, fun e he e' he' => hmade.orders he he'⟩
  · intro e he
    rcases List.mem_append.mp he with he | he
    · obtain ⟨hsound, hsigned, -⟩ := hmade.sound h he
      exact ⟨hsound, hsigned⟩
    · obtain ⟨src, hsrc, n, rfl⟩ := hstale e he
      exact ⟨(hmade.sound h hsrc).1.stale n, rfl⟩
  · obtain ⟨src, -, n, rfl⟩ := hstale e he
    rfl
  · obtain ⟨src, hsrc, rfl⟩ := List.mem_map.mp he
    exact ⟨src, mem_of_mem_drawSources hsrc, rfl⟩
  · obtain ⟨i, hi, rfl⟩ := List.mem_mapIdx.mp he
    rfl
  · obtain ⟨src, hsrc, n, rfl⟩ := hstale e he
    exact ⟨src, hsrc, rfl, rfl⟩
  · rcases List.mem_append.mp he with he | he
    · exact hmade.genuine he
    · obtain ⟨src, -, n, rfl⟩ := hstale e he
      rfl
  · have hnumbered : ∀ (p : ℕ) id, ((staleEvents rt opts rng).map GeneratedEvent.eventId)[p]? = some id →
        id = identifier opts.runId "-evt-noise-stale-" 8
          ((progress rt opts rng).eventCounter + numOf rt opts rng opts.invalidRate + p + 1) := by
      intro p id hp
      simp only [staleEvents, List.getElem?_map, List.getElem?_mapIdx, Option.map_map,
        Option.map_eq_some_iff] at hp
      obtain ⟨src, -, rfl⟩ := hp
      rfl
    rw [List.map_append, List.nodup_append]
    refine ⟨?_, ?_, fun id hid id' hid' heq => ?_⟩
    · exact nodup_of_numbered (f := fun p => identifier opts.runId "-evt-" 8 (p + 1))
        (fun m n heq => by simpa using identifier_inj _ heq) fun p id hp => hmade.eventId hp
    · exact nodup_of_numbered (fun m n heq => by simpa using identifier_inj _ heq) hnumbered
    · obtain ⟨p, hp⟩ := List.getElem?_of_mem hid
      obtain ⟨p', hp'⟩ := List.getElem?_of_mem hid'
      rw [hmade.eventId hp, hnumbered p' id' hp'] at heq
      exact identifier_ne_stale heq

/-- A loop without turns draws nothing. -/
theorem drawSources_zero (k : ℕ) : drawSources rt opts rng 0 k = [] := rfl

/-- **A run of one webhook**: there is no noise, unless all webhooks have it. -/
theorem generate_one (rt : Runtime) (opts : GenerateOptions) (hevents : opts.events = 1)
    (hrates : opts.duplicateRate < 1 ∧ opts.invalidRate < 1 ∧ opts.staleRate < 1) :
    ∃ e, (generate rt opts).allEvents = [e] ∧ (generate rt opts).stats.base = 1 ∧
      (generate rt opts).stats.staleTimestamps = 0 ∧ Traffic rt opts [e] [] [] [] ∧ e.sequence = 1 ∧
      e.eventId = identifier opts.runId "-evt-" 8 1 ∧ e.orderId = identifier opts.runId "-order-" 6 1 := by
  have hrng := createRng_inUnit opts.seed
  obtain ⟨hlength, -, draws, hmade⟩ := exists_made rt opts hrng
  rw [hevents] at hlength
  have hnum : ∀ rate : ℚ, rate < 1 → numOf rt opts (createRng opts.seed) rate = 0 := by
    intro rate hrate
    rw [numOf, hlength, Nat.floor_eq_zero, Nat.cast_one, one_mul]
    exact hrate
  obtain ⟨e, hbase⟩ := List.length_eq_one_iff.mp hlength
  have hduplicates : duplicates rt opts (createRng opts.seed) = [] := by
    rw [duplicates, hnum _ hrates.1, drawSources_zero]
    rfl
  have hinvalid : invalidEvents rt opts (createRng opts.seed) = [] := by
    simp only [invalidEvents, hnum _ hrates.2.1, drawSources_zero, List.mapIdx_nil]
  have hstale : staleEvents rt opts (createRng opts.seed) = [] := by
    simp only [staleEvents, hnum _ hrates.2.2, drawSources_zero, List.mapIdx_nil]
  have htraffic := traffic rt opts hrng
  rw [hbase, hduplicates, hinvalid, hstale] at htraffic
  obtain ⟨start, i, status, hstart, -, he⟩ := hmade 0 e (by rw [hbase]; rfl)
  obtain ⟨rfl, rfl⟩ : start = 0 ∧ i = 0 := by omega
  refine ⟨e, ?_, hlength, ?_, htraffic, by rw [he]; rfl, by rw [he]; rfl, by rw [he]; rfl⟩
  · show trimmedBase _ _ _ ++ duplicates _ _ _ ++ invalidEvents _ _ _ ++ staleEvents _ _ _ = _
    rw [hbase, hduplicates, hinvalid, hstale]
    rfl
  · exact List.length_eq_zero_iff.mpr hstale

/-! ## The oracle -/

section Oracle

variable {base : List GeneratedEvent}

/-- **What the oracle says of an order**: the state of its webhook with the greatest sequence. -/
inductive Latest (base : List GeneratedEvent) (id : String) : Option ExpectedState → Prop where
  | absent (h : ∀ e ∈ base, e.orderId ≠ id) : Latest base id none
  | present {e : GeneratedEvent} (he : e ∈ base) (hid : e.orderId = id)
      (hle : ∀ e' ∈ base, e'.orderId = id → e'.sequence ≤ e.sequence) : Latest base id (some e.state)

/-- One more webhook. -/
theorem Latest.snoc {states : List (String × ExpectedState)} (h : ∀ id, Latest base id (states.lookup id))
    (evt : GeneratedEvent) (id : String) :
    Latest (base ++ [evt]) id ((trackState states evt).lookup id) := by
  have hcases : ∀ e' ∈ base ++ [evt], e' ∈ base ∨ e' = evt := by simp
  have hother : id ≠ evt.orderId → Latest (base ++ [evt]) id (states.lookup id) := by
    intro hne
    have hlatest := h id
    generalize states.lookup id = state at hlatest
    cases hlatest with
    | absent hnone =>
      refine .absent fun e' he' => ?_
      rcases hcases e' he' with he' | rfl
      · exact hnone e' he'
      · exact hne.symm
    | present he hid hle =>
      refine .present (List.mem_append_left _ he) hid fun e' he' hid' => ?_
      rcases hcases e' he' with he' | rfl
      · exact hle e' he' hid'
      · exact absurd hid'.symm hne
  have hassign : (∀ e' ∈ base, e'.orderId = evt.orderId → e'.sequence ≤ evt.sequence) →
      Latest (base ++ [evt]) id ((assign evt.orderId evt.state states).lookup id) := by
    intro hle
    rw [lookup_assign]
    split_ifs with hid
    · subst hid
      refine .present (by simp) rfl fun e' he' hid' => ?_
      rcases hcases e' he' with he' | rfl
      · exact hle e' he' hid'
      · exact le_rfl
    · exact hother hid
  have hlatest := h evt.orderId
  unfold trackState
  generalize hlookup : states.lookup evt.orderId = state at hlatest
  cases hlatest with
  | absent hnone => exact hassign fun e' he' hid' => absurd hid' (hnone e' he')
  | @present e he hid hle =>
    show Latest _ id (List.lookup id (if e.sequence < evt.sequence then _ else states))
    split_ifs with hlt
    · exact hassign fun e' he' hid' => (hle e' he' hid').trans hlt.le
    · -- the webhook comes too late for its order
      by_cases heq : id = evt.orderId
      · subst heq
        rw [hlookup]
        refine .present (List.mem_append_left _ he) hid fun e' he' hid' => ?_
        rcases hcases e' he' with he' | rfl
        · exact hle e' he' hid'
        · exact not_lt.mp hlt
      · exact hother heq

/-- **The oracle keeps the state with the greatest sequence.** -/
theorem latest_finalStates (base : List GeneratedEvent) (id : String) :
    Latest base id ((finalStates base).lookup id) := by
  induction base using List.reverseRecOn generalizing id with
  | nil => exact .absent (by simp)
  | append_singleton base evt ih =>
    rw [finalStates, List.foldl_append]
    exact Latest.snoc ih evt id

/-- **The oracle collects the ids** of the webhooks of each order, without repetitions. -/
theorem mem_collect (events : List GeneratedEvent) (id : String) :
    (((events.foldl collectEvent []).lookup id).getD []).Nodup ∧
      ∀ eventId, eventId ∈ ((events.foldl collectEvent []).lookup id).getD [] ↔
        ∃ e ∈ events, e.orderId = id ∧ e.eventId = eventId := by
  induction events using List.reverseRecOn generalizing id with
  | nil => simp
  | append_singleton events evt ih =>
    rw [List.foldl_append]
    show ((List.lookup id (collectEvent _ evt)).getD []).Nodup ∧ _
    simp only [List.foldl_cons, List.foldl_nil, collectEvent, lookup_assign, List.mem_append,
      List.mem_singleton, or_and_right, exists_or, exists_eq_left]
    obtain ⟨hnodup, hmem⟩ := ih id
    split_ifs with hid hknown
    · subst hid
      rw [Option.getD_some]
      refine ⟨hnodup, fun eventId => (hmem eventId).trans ⟨.inl, ?_⟩⟩
      rintro (hold | ⟨-, rfl⟩)
      · exact hold
      · exact (hmem evt.eventId).mp hknown
    · subst hid
      rw [Option.getD_some]
      refine ⟨?_, fun eventId => ?_⟩
      · rw [List.nodup_append]
        refine ⟨hnodup, List.nodup_singleton _, fun x hx y hy heq => hknown ?_⟩
        rwa [← List.mem_singleton.mp hy, ← heq]
      · rw [List.mem_append, hmem, List.mem_singleton]
        exact or_congr_right ⟨fun h => ⟨rfl, h.symm⟩, fun h => h.2.symm⟩
    · refine ⟨hnodup, fun eventId => (hmem eventId).trans ⟨.inl, ?_⟩⟩
      rintro (hold | ⟨heq, -⟩)
      · exact hold
      · exact absurd heq.symm hid

end Oracle

end Generator

end PaymentWebhook
