import Mathlib.Tactic.FieldSimp
import Mathlib.Tactic.Linarith
import PaymentWebhook.Queries
import PaymentWebhook.Reconciliation

set_option relaxedAutoImplicit false
set_option autoImplicit false

/-!
# The convergence checker

The simulator compares the orders that the service serves with the states it expects.  It has
two normalizers of money of its own, next to the one of the reconciliation.

## Main definitions

* `PaymentWebhook.Generator.normalizeAmount`, `PaymentWebhook.Convergence.normalizeAmount` — the
  normalizers of the simulator.
* `PaymentWebhook.checkOrderConvergence` — the check of one order.
* `PaymentWebhook.decimalValue` — the number that a decimal denotes.

## Main results

* `PaymentWebhook.normalizeAmount_canonical` — the normal form of an amount.
* `PaymentWebhook.convergence_agrees_iff` — when the checker and the reconciliation agree.
-/

namespace PaymentWebhook

/-! ## The normalizers of the simulator -/

/-- `amount.split('.')`, its first part or `'0'`, and the second one padded and cut to two
decimals. -/
def splitAmount (amount : List Char) : List Char × List Char :=
  let parts := amount.splitOn '.'
  let intPart := match parts.head? with
    | none | some [] => ['0']
    | some int => int
  (intPart, twoDecimals ((parts[1]?).getD []))

/-- `normalizeAmount` of `generator.js`. -/
def Generator.normalizeAmount (amount : String) : String :=
  let (intPart, decPart) := splitAmount amount.toList
  String.ofList (stripZeros intPart ++ '.' :: decPart)

/-- `normalizeAmount` of `convergence.js`. -/
def Convergence.normalizeAmount (v : String) : String :=
  if v = "" then "0.00"
  else
    let (intPart, decPart) := splitAmount v.toList
    String.ofList (stripZeros intPart ++ '.' :: decPart)

/-! ## The check of one order -/

/-- What the generator expects of an order. -/
structure ExpectedState where
  status : OrderStatus
  lastSequence : ℤ
  amount : String
  currency : String
  deriving DecidableEq, Repr

structure ConvergenceResult where
  converged : Bool
  terminalFail : Bool
  terminal : ℕ
  pending : ℕ
  dlq : ℕ
  lost : ℕ
  deriving DecidableEq, Repr

/-- `stateMatch`. -/
def stateMatch (order : OrderDetailRow) (expected : ExpectedState) : Bool :=
  order.status = expected.status &&
  order.lastSequence = expected.lastSequence &&
  Convergence.normalizeAmount (order.amount.getD "") = Convergence.normalizeAmount expected.amount &&
  order.currency = some expected.currency

/-- `statusByEventId.get(eventId)`. -/
def statusByEventId (events : List OrderEventRow) (eventId : String) : Option ProcessingStatus :=
  (events.reverse.find? fun e => e.eventId ≠ "" ∧ e.eventId = eventId).map
    OrderEventRow.processingStatus

/-- The turn of the loop over the expected events. -/
def countEvent (events : List OrderEventRow) (result : ConvergenceResult) (eventId : String) :
    ConvergenceResult :=
  match statusByEventId events eventId with
  | none => { result with lost := result.lost + 1 }
  | some .applied | some .ignored => { result with terminal := result.terminal + 1 }
  | some .dlq => { result with dlq := result.dlq + 1, terminalFail := true }
  | some .pending | some .retryScheduled => { result with pending := result.pending + 1 }

/-- **`checkOrderConvergence`**. -/
def checkOrderConvergence (order : OrderDetail) (expected : ExpectedState)
    (expectedEventIds : List String) : ConvergenceResult :=
  let result : ConvergenceResult := ⟨false, false, 0, 0, 0, 0⟩
  if stateMatch order.order expected = false then
    { result with terminalFail := order.order.lastSequence > expected.lastSequence }
  else
    let result := expectedEventIds.foldl (countEvent order.events) result
    { result with converged := result.pending = 0 && result.dlq = 0 && result.lost = 0 }

/-- The state that is expected of an order which the provider has too. -/
def ProviderOrder.expected (o : ProviderOrder) : ExpectedState :=
  ⟨o.status, o.sequence, o.amount, o.currency⟩

/-! ## The three normalizers -/

/-- Splitting a decimal at its point. -/
theorem splitOn_point {int : List Char} (hint : ∀ c ∈ int, c ≠ '.') :
    int.splitOn '.' = [int] ∧
      ∀ dec : List Char, (∀ c ∈ dec, c ≠ '.') → (int ++ '.' :: dec).splitOn '.' = [int, dec] := by
  have hnot : ∀ {l : List Char}, (∀ c ∈ l, c ≠ '.') → '.' ∉ l := fun hl hmem => hl _ hmem rfl
  refine ⟨List.splitOn_eq_singleton (hnot hint), fun dec hdec => ?_⟩
  rw [List.splitOn_append_cons_self, List.splitOn_eq_singleton (hnot hint),
    List.splitOn_eq_singleton (hnot hdec)]
  rfl

/-- Splitting a text whose part before the point is `int`. -/
theorem splitAmount_split {int r : List Char} (hne : int ≠ []) (hint : ∀ c ∈ int, c ≠ '.')
    (hr : r = [] ∨ ∃ dec, r = '.' :: dec ∧ ∀ c ∈ dec, c ≠ '.') :
    splitAmount (int ++ r) = (int, decimalPart r) := by
  obtain ⟨c, int', rfl⟩ := List.exists_cons_of_ne_nil hne
  obtain ⟨hone, htwo⟩ := splitOn_point hint
  rcases hr with rfl | ⟨dec, rfl, hdec⟩
  · rw [List.append_nil, splitAmount, hone]
    rfl
  · rw [splitAmount, htwo dec hdec]
    rfl

/-- The normalizers of the simulator normalize a decimal as the reconciliation does. -/
theorem simulator_normalizeAmount {a : String} {int r : List Char} (ha : a.toList = int ++ r)
    (hne : int ≠ []) (hspace : ∀ c ∈ a.toList, jsSpace c = false) (hint : ∀ c ∈ int, c ≠ '.')
    (hr : r = [] ∨ ∃ dec, r = '.' :: dec ∧ ∀ c ∈ dec, c ≠ '.') :
    normalizeAmount (some a) = some (Generator.normalizeAmount a) ∧
      Convergence.normalizeAmount a = Generator.normalizeAmount a := by
  have hhead : ∀ c, r.head? = some c → c = '.' := by
    rintro c hc
    rcases hr with rfl | ⟨dec, rfl, -⟩
    · cases hc
    · exact (Option.some.inj hc).symm
  have hgen : Generator.normalizeAmount a = String.ofList (stripZeros int ++ '.' :: decimalPart r) := by
    simp only [Generator.normalizeAmount, ha, splitAmount_split hne hint hr]
  have hempty : a ≠ "" := by
    rintro rfl
    exact hne (List.append_eq_nil_iff.mp ha.symm).1
  refine ⟨?_, ?_⟩
  · rw [hgen]
    exact normalizeAmount_split ha hne hspace hint hhead
  · rw [Convergence.normalizeAmount, if_neg hempty]
    rfl

/-! ## The normal form of an amount -/

/-- The number that a decimal denotes. -/
def decimalValue (s : String) : ℚ :=
  let int := s.toList.takeWhile (· ≠ '.')
  let dec := (s.toList.dropWhile (· ≠ '.')).drop 1
  digitsValue int + digitsValue dec / 10 ^ dec.length

/-- **A canonical decimal**: no leading zero except a single `0`, and exactly two decimals. -/
def IsCanonical (s : String) : Prop :=
  ∃ int d e, s.toList = int ++ ['.', d, e] ∧ int ≠ [] ∧ (∀ c ∈ int, c.isDigit = true) ∧
    d.isDigit = true ∧ e.isDigit = true ∧ (int.head? = some '0' → int = ['0'])

/-- The number of a text whose part before the point is `int`. -/
theorem decimalValue_split {a : String} {int r : List Char} (ha : a.toList = int ++ r)
    (hint : ∀ c ∈ int, c ≠ '.') (hr : ∀ c, r.head? = some c → c = '.') :
    decimalValue a = digitsValue int + digitsValue (r.drop 1) / 10 ^ (r.drop 1).length := by
  obtain ⟨h1, h2⟩ := takeWhile_point hint hr
  simp only [decimalValue, ha, h1, h2]

/-- Padding with zeros keeps the number. -/
theorem digitsValue_twoDecimals {dec : List Char} (hlen : dec.length ≤ 2) :
    (digitsValue (twoDecimals dec) : ℚ) / 100 = digitsValue dec / 10 ^ dec.length := by
  rcases dec with _ | ⟨d, _ | ⟨e, _ | _⟩⟩
  · simp [twoDecimals, digitsValue]
  · have hpad : digitsValue (twoDecimals [d]) = 10 * digitsValue [d] := by
      simp [twoDecimals, digitsValue]
    rw [hpad]
    push_cast
    simp only [List.length_singleton]
    ring
  · have hpad : twoDecimals [d, e] = [d, e] := rfl
    rw [hpad]
    norm_num
  · simp at hlen

/-- What is stripped of its leading zeros starts with no zero, except a single one. -/
theorem head_stripZeros (s : List Char) (h : (stripZeros s).head? = some '0') : stripZeros s = ['0'] := by
  unfold stripZeros at h ⊢
  split
  · rfl
  · rename_i c cs hcons
    have hnot := List.head?_dropWhile_not (fun c : Char => decide (c = '0')) s
    rw [hcons] at h hnot
    simp only [List.head?_cons, Option.some.injEq] at h
    simp [h] at hnot

/-- **The normal form of an amount**, digit by digit, with its number. -/
theorem amount_form {a : String} (h : amountRegex a = true) :
    ∃ (int : List Char) (d e : Char), int ≠ [] ∧ (∀ c ∈ int, c.isDigit = true) ∧
      d.isDigit = true ∧ e.isDigit = true ∧
      normalizeAmount (some a) = some (String.ofList (stripZeros int ++ ['.', d, e])) ∧
      Generator.normalizeAmount a = String.ofList (stripZeros int ++ ['.', d, e]) ∧
      Convergence.normalizeAmount a = String.ofList (stripZeros int ++ ['.', d, e]) ∧
      decimalValue a = digitsValue int + digitsValue [d, e] / 100 := by
  obtain ⟨int, dec, hne, -, hint, hdec, hlen, hform⟩ := amountRegex_form h
  obtain ⟨d, e, hde, hd, he⟩ : ∃ d e, twoDecimals dec = [d, e] ∧ d.isDigit = true ∧
      e.isDigit = true := by
    rcases dec with _ | ⟨d, _ | ⟨e, _ | _⟩⟩
    · exact ⟨'0', '0', rfl, by decide, by decide⟩
    · exact ⟨d, '0', rfl, hdec d (by simp), by decide⟩
    · exact ⟨d, e, rfl, hdec d (by simp), hdec e (by simp)⟩
    · simp at hlen
  have hpoint : ∀ {l : List Char}, (∀ c ∈ l, c.isDigit = true) → ∀ c ∈ l, c ≠ '.' := fun hl c hc =>
    (jsSpace_of_isDigit (hl c hc)).2
  -- what follows the digits before the point
  obtain ⟨r, ha, hr, hspace, hdecimal, hdrop⟩ : ∃ r, a.toList = int ++ r ∧
      (r = [] ∨ ∃ dec, r = '.' :: dec ∧ ∀ c ∈ dec, c ≠ '.') ∧
      (∀ c ∈ a.toList, jsSpace c = false) ∧ decimalPart r = twoDecimals dec ∧ r.drop 1 = dec := by
    rcases hform with ⟨rfl, hs⟩ | ⟨-, hs⟩
    · refine ⟨[], by rw [hs, List.append_nil], .inl rfl, ?_, rfl, rfl⟩
      rw [hs]
      exact fun c hc => (jsSpace_of_isDigit (hint c hc)).1
    · exact ⟨'.' :: dec, hs, .inr ⟨dec, rfl, hpoint hdec⟩, hs ▸ jsSpace_of_decimal hint hdec, rfl, rfl⟩
  have hhead : ∀ c, r.head? = some c → c = '.' := by
    rintro c hc
    rcases hr with rfl | ⟨dec, rfl, -⟩
    · cases hc
    · exact (Option.some.inj hc).symm
  obtain ⟨hgen, hconv⟩ := simulator_normalizeAmount ha hne hspace (hpoint hint) hr
  have hnormal := normalizeAmount_split ha hne hspace (hpoint hint) hhead
  rw [hdecimal, hde] at hnormal
  have hgen' := Option.some.inj (hgen.symm.trans hnormal)
  refine ⟨int, d, e, hne, hint, hd, he, hnormal, hgen', hconv.trans hgen', ?_⟩
  rw [decimalValue_split ha (hpoint hint) hhead, hdrop, ← hde, digitsValue_twoDecimals hlen]

/-- The cents of an amount are a hundred times its number. -/
theorem numericIn_decimalValue {a : String} (h : amountRegex a = true) :
    ∃ c : ℕ, numericIn a = some (c : ℤ) ∧ (c : ℚ) = 100 * decimalValue a ∧
      normalizeAmount (some a) = some (numericText c) := by
  obtain ⟨c, hc, -, hnormal, -⟩ := normalizeAmount_numericText h
  obtain ⟨int, d, e, -, hint, hd, he, hform, -, -, hvalue⟩ := amount_form h
  have htext := numericText_decimal hint hd he
  have heq := numericText_inj (htext.trans (Option.some.inj (hform.symm.trans hnormal)))
  refine ⟨digitsValue int * 100 + digitsValue [d, e], by rw [hc, ← heq], ?_, ?_⟩
  · rw [hvalue]
    push_cast
    ring
  · rw [hform, htext]

/-- **The normal form of an amount** denotes its number, is canonical, a fixed point, the text that
PostgreSQL gives for the stored amount and what the generator computes; and two amounts have the
same one exactly if they are the same number. -/
theorem normalizeAmount_canonical {a : String} (ha : amountRegex a = true) :
    ∃ n, normalizeAmount (some a) = some n ∧
      decimalValue n = decimalValue a ∧ IsCanonical n ∧ normalizeAmount (some n) = some n ∧
      (∃ cents, numericIn a = some cents ∧ numericFits cents = true ∧ numericText cents = n) ∧
      Generator.normalizeAmount a = n ∧
      ∀ b, amountRegex b = true →
        (normalizeAmount (some a) = normalizeAmount (some b) ↔ decimalValue a = decimalValue b) := by
  obtain ⟨int, d, e, hne, hint, hd, he, hform, hgen, -, hvalue⟩ := amount_form ha
  obtain ⟨cents, hc, hfits, hnormal, hfixed⟩ := normalizeAmount_numericText ha
  have htext : numericText cents = String.ofList (stripZeros int ++ ['.', d, e]) :=
    Option.some.inj (hnormal.symm.trans hform)
  obtain ⟨hsne, hs⟩ := isDigit_stripZeros hint
  refine ⟨_, hform, ?_, ⟨stripZeros int, d, e, String.toList_ofList .., hsne, hs, hd, he,
    head_stripZeros int⟩, htext ▸ hfixed, ⟨cents, hc, hfits, htext⟩, hgen, fun b hb => ?_⟩
  · rw [decimalValue_split (String.toList_ofList ..) (fun c hc => (jsSpace_of_isDigit (hs c hc)).2)
      (by simp), hvalue, digitsValue_stripZeros]
    norm_num
  · obtain ⟨m, -, hm, hma⟩ := numericIn_decimalValue ha
    obtain ⟨n, -, hn, hnb⟩ := numericIn_decimalValue hb
    rw [hma, hnb, Option.some_inj]
    constructor
    · intro heq
      obtain rfl : m = n := Int.ofNat_inj.mp (numericText_inj heq)
      linarith
    · intro heq
      have hmn : (m : ℚ) = n := by rw [hm, hn, heq]
      rw [Nat.cast_inj.mp hmn]

/-- Seven spelled in two ways. -/
theorem normalizeAmount_canonical_sample :
    (amountRegex "007.5" = true ∧ amountRegex "7.50" = true) ∧
      normalizeAmount (some "007.5") = normalizeAmount (some "7.50") := by
  have ha : amountRegex "007.5" = true := by decide
  have hb : amountRegex "7.50" = true := by decide
  obtain ⟨n, -, -, -, -, -, -, heq⟩ := normalizeAmount_canonical ha
  refine ⟨⟨ha, hb⟩, (heq _ hb).mpr ?_⟩
  have h1 : "007.5".toList = ['0', '0', '7'] ++ ['.', '5'] := by decide
  have h2 : "7.50".toList = ['7'] ++ ['.', '5', '0'] := by decide
  rw [decimalValue_split h1 (by simp) (by simp), decimalValue_split h2 (by simp) (by simp)]
  have hseven : digitsValue ['0', '0', '7'] = 7 ∧ digitsValue ['7'] = 7 := by decide
  have hhalf : digitsValue ['5'] = 5 ∧ digitsValue ['5', '0'] = 50 := by decide
  norm_num [hseven, hhalf]

/-! ## The checker and the reconciliation -/

/-- The checker normalizes a stored amount to its text. -/
theorem convergence_normalizeAmount_text (c : ℤ) :
    Convergence.normalizeAmount (numericText c) = numericText c := by
  obtain ⟨hgen, hconv⟩ := simulator_normalizeAmount (numericText_toList c)
    (by simp [Nat.toDigits_ne_nil]) (jsSpace_numericText c) (fun x hx => (numericText_int c x hx).2)
    (.inr ⟨_, rfl, fun x hx => (jsSpace_of_isDigit (numericText_dec c x hx)).2⟩)
  rw [hconv]
  exact Option.some.inj (hgen.symm.trans (normalizeAmount_text c))

/-- The checker normalizes an accepted amount as the reconciliation does. -/
theorem convergence_normalizeAmount {a : String} (h : amountRegex a = true) :
    normalizeAmount (some a) = some (Convergence.normalizeAmount a) := by
  obtain ⟨int, d, e, -, -, -, -, hform, -, hconv, -⟩ := amount_form h
  rw [hform, hconv]

/-- An accepted amount is normalized to `0.00` if it is zero. -/
theorem convergence_normalizeAmount_zero {a : String} (h : amountRegex a = true) :
    Convergence.normalizeAmount a = "0.00" ↔ decimalValue a = 0 := by
  obtain ⟨c, -, hc, hnormal⟩ := numericIn_decimalValue h
  have htext : Convergence.normalizeAmount a = numericText c :=
    Option.some.inj ((convergence_normalizeAmount h).symm.trans hnormal)
  have hzero : ("0.00" : String) = numericText (0 : ℕ) := by decide
  rw [htext, hzero]
  constructor
  · intro heq
    obtain rfl : c = 0 := Int.ofNat_inj.mp (numericText_inj heq)
    simpa using hc
  · intro heq
    rw [heq, mul_zero] at hc
    rw [Nat.cast_eq_zero.mp hc]

/-- Rows that differ in more than the amount are told apart by both. -/
theorem classify_alreadyOk_iff (o : ProviderOrder) (row : OrderRow) :
    classify o row = .alreadyOk ↔ row.status = o.status ∧ row.lastSequence = o.sequence ∧
      normalizeAmount (row.amount.map numericText) = normalizeAmount (some o.amount) ∧
      row.currency = some o.currency := by
  unfold classify OrderRow.matches
  by_cases hstale : o.sequence < row.lastSequence
  · rw [if_pos hstale]
    simp only [reduceCtorEq, false_iff, not_and]
    rintro - hseq
    omega
  · rw [if_neg hstale]
    simp [and_assoc]

/-- **The checker and the reconciliation agree** on an order unless it has no amount, zero is
expected and everything else is as expected. -/
theorem convergence_agrees_iff (row : OrderRow) (o : ProviderOrder)
    (hamount : amountRegex o.amount = true) :
    (stateMatch row.detail o.expected = true ↔ classify o row = .alreadyOk) ↔
      ¬ (row.amount = none ∧ decimalValue o.amount = 0 ∧ row.status = o.status ∧
        row.lastSequence = o.sequence ∧ row.currency = some o.currency) := by
  have hmatch : stateMatch row.detail o.expected = true ↔ row.status = o.status ∧
      row.lastSequence = o.sequence ∧
      Convergence.normalizeAmount ((row.amount.map numericText).getD "") =
        Convergence.normalizeAmount o.amount ∧ row.currency = some o.currency := by
    simp only [stateMatch, Bool.and_eq_true, decide_eq_true_eq, and_assoc]
    exact Iff.rfl
  rw [hmatch, classify_alreadyOk_iff, convergence_normalizeAmount hamount]
  cases hrow : row.amount with
  | some c =>
    have hsame : normalizeAmount ((some c).map numericText) =
        some (Convergence.normalizeAmount (((some c).map numericText).getD "")) := by
      rw [Option.map_some, Option.getD_some, normalizeAmount_text, convergence_normalizeAmount_text]
    rw [hsame, Option.some_inj]
    simp
  | none =>
    -- the checker takes a missing amount for zero, the reconciliation does not
    have hzero : Convergence.normalizeAmount (((none : Option ℤ).map numericText).getD "") =
        Convergence.normalizeAmount o.amount ↔ decimalValue o.amount = 0 := by
      rw [← convergence_normalizeAmount_zero hamount, eq_comm]
      rfl
    rw [hzero]
    simp only [Option.map_none, normalizeAmount, reduceCtorEq, false_and, and_false, iff_false,
      true_and]
    tauto

/-- An order that was created without money. -/
def unpaidOrder : OrderRow where
  id := "ord_1"
  status := .pending
  lastSequence := 0
  amount := none
  currency := some "USD"
  createdAt := 0
  updatedAt := 0

/-- A provider order of zero. -/
def zeroOrder : ProviderOrder := ⟨"ord_1", .pending, 0, "0.00", "USD", "2026-01-15T10:00:00.000Z"⟩

/-- The authorized order of the sample is judged alike by both. -/
theorem convergence_agrees_sample :
    amountRegex "10.0" = true ∧
      (stateMatch { unpaidOrder with amount := some 1000 }.detail
          { zeroOrder with amount := "10.0" }.expected = true ↔
        classify { zeroOrder with amount := "10.0" } { unpaidOrder with amount := some 1000 } =
          .alreadyOk) := by
  have hamount : amountRegex "10.0" = true := by decide
  refine ⟨hamount, ?_⟩
  exact (convergence_agrees_iff { unpaidOrder with amount := some 1000 }
    { zeroOrder with amount := "10.0" } hamount).mpr (by simp)

/-- **A missing amount passes for zero**: the checker accepts an order that the reconciliation
repairs. -/
theorem convergence_disagrees :
    stateMatch unpaidOrder.detail zeroOrder.expected = true ∧
      classify zeroOrder unpaidOrder = .repaired ∧ amountRegex zeroOrder.amount = true := by
  decide

end PaymentWebhook
