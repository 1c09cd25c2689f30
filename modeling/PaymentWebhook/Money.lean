import Mathlib.Data.List.Induction
import Mathlib.Data.Nat.Digits.Defs
import Mathlib.Tactic.IntervalCases
import Mathlib.Tactic.Ring
import PaymentWebhook.JsString

set_option relaxedAutoImplicit false
set_option autoImplicit false

/-!
# Money as text

Amounts travel as decimal strings: the provider and the webhooks send them, PostgreSQL stores
them in `NUMERIC(12,2)` and hands them back as text, and reconciliation compares two of them
after `normalizeAmount`.

## Main definitions

* `PaymentWebhook.normalizeAmount` — the canonical two-decimal string of an amount.
* `PaymentWebhook.numericIn`, `PaymentWebhook.numericText` — text to `NUMERIC(12,2)` and back.
* `PaymentWebhook.amountRegex` — the provider's `AMOUNT_REGEX`.

## Main results

* `PaymentWebhook.normalizeAmount_numericText` — an accepted amount is normalized to the text
  that PostgreSQL gives for it, so storing it and reading it back changes nothing.
* `PaymentWebhook.normalizeAmount_eq_iff` — amounts are compared as numbers.

## Implementation notes

A `NUMERIC(12,2)` is an integer number of cents.  `numericIn` reads the unsigned decimals that
the validators admit; the other forms PostgreSQL understands (signs, exponents, `NaN`) reach no
statement of the program and are refused.
-/

namespace PaymentWebhook

/-- Strip leading zeros, keep at least one digit: `s.replace(/^0+/, '') || '0'`. -/
def stripZeros (s : List Char) : List Char :=
  match s.dropWhile (· = '0') with
  | [] => ['0']
  | c :: cs => c :: cs

/-- `s.padEnd(2, '0').slice(0, 2)`. -/
def twoDecimals (s : List Char) : List Char :=
  (s ++ List.replicate (2 - s.length) '0').take 2

/-- The decimals of what is left from the point on: `'00'` when there is none. -/
def decimalPart : List Char → List Char
  | [] => ['0', '0']
  | _ :: dec => twoDecimals dec

/-- Normalize an amount to a canonical two-decimal string; `NULL` and blank stay `NULL`. -/
def normalizeAmount : Option String → Option String
  | none => none
  | some value =>
    let str := jsTrim value.toList
    if str = [] then none
    else
      let intPart := str.takeWhile (· ≠ '.')
      let decPart := decimalPart (str.dropWhile (· ≠ '.'))
      some (String.ofList (stripZeros intPart ++ '.' :: decPart))

/-! ## `NUMERIC(12,2)` -/

/-- The value of a string of decimal digits. -/
def digitsValue (s : List Char) : ℕ := s.foldl (fun n c => 10 * n + (c.toNat - 48)) 0

/-- The cents of a fractional part, rounded half up at the third decimal. -/
def centsValue (dec : List Char) : ℕ :=
  digitsValue (twoDecimals dec) + if 5 ≤ digitsValue ((dec.drop 2).take 1) then 1 else 0

/-- Read a decimal as `NUMERIC(12,2)`, in cents. -/
def numericIn (s : String) : Option ℤ :=
  let int := s.toList.takeWhile Char.isDigit
  if int = [] then none
  else match s.toList.dropWhile Char.isDigit with
    | [] => some (digitsValue int * 100)
    | c :: dec =>
      if c = '.' ∧ dec.all Char.isDigit then some (digitsValue int * 100 + centsValue dec) else none

/-- The text of a `NUMERIC(12,2)`: no leading zeros, exactly two decimals. -/
def numericText (cents : ℤ) : String :=
  let n := cents.natAbs
  String.ofList ((if cents < 0 then ['-'] else []) ++ Nat.toDigits 10 (n / 100) ++
    ['.', Nat.digitChar (n % 100 / 10), Nat.digitChar (n % 10)])

/-- The values that fit a `NUMERIC(12,2)` column. -/
def numericFits (cents : ℤ) : Bool := cents.natAbs < 10 ^ 12

/-- The provider's `AMOUNT_REGEX`, `^\d{1,10}(\.\d{1,2})?$`. -/
def amountRegex (s : String) : Bool :=
  let int := s.toList.takeWhile Char.isDigit
  1 ≤ int.length && int.length ≤ 10 &&
    match s.toList.dropWhile Char.isDigit with
    | [] => true
    | c :: dec => c = '.' && dec.all Char.isDigit && 1 ≤ dec.length && dec.length ≤ 2

/-! ## Digits and values -/

theorem digitsValue_append (s : List Char) (c : Char) :
    digitsValue (s ++ [c]) = 10 * digitsValue s + (c.toNat - 48) := by
  simp [digitsValue, List.foldl_append]

@[simp] theorem digitsValue_nil : digitsValue [] = 0 := rfl

/-- A digit character is the digit of its value. -/
theorem digitChar_of_isDigit {c : Char} (h : c.isDigit = true) :
    c.toNat - 48 < 10 ∧ Nat.digitChar (c.toNat - 48) = c := by
  rw [Char.isDigit, Bool.and_eq_true, decide_eq_true_iff, decide_eq_true_iff] at h
  have h1 : 48 ≤ c.toNat := UInt32.le_iff_toNat_le.mp h.1
  have h2 : c.toNat ≤ 57 := UInt32.le_iff_toNat_le.mp h.2
  refine ⟨by omega, ?_⟩
  have hc : Char.ofNat c.toNat = c := Char.ofNat_toNat c
  generalize c.toNat = n at h1 h2 hc
  rw [← hc]
  interval_cases n <;> rfl

/-- The value of a digit string is below the power of ten of its length. -/
theorem digitsValue_lt {s : List Char} (h : ∀ c ∈ s, c.isDigit = true) :
    digitsValue s < 10 ^ s.length := by
  induction s using List.reverseRecOn with
  | nil => simp
  | append_singleton s c ih =>
    have hc := (digitChar_of_isDigit (h c (by simp))).1
    have hs := ih fun c' hc' => h c' (by simp [hc'])
    rw [digitsValue_append, List.length_append, List.length_singleton, pow_succ]
    omega

/-- A digit string that does not start with `0` is the decimal notation of its value.

**Proof sketch.** Induction from the right.  One digit is its own notation; appending a digit
to a nonempty string without leading zero, whose value is therefore positive, appends it to the
notation. -/
theorem toDigits_digitsValue {s : List Char} (h : ∀ c ∈ s, c.isDigit = true)
    (hne : s ≠ []) (h0 : s.head? ≠ some '0') :
    0 < digitsValue s ∧ Nat.toDigits 10 (digitsValue s) = s := by
  induction s using List.reverseRecOn with
  | nil => exact absurd rfl hne
  | append_singleton s c ih =>
    obtain ⟨hlt, hchar⟩ := digitChar_of_isDigit (h c (by simp))
    rw [digitsValue_append]
    cases s with
    | nil =>
      have hc0 : c.toNat - 48 ≠ 0 := by
        intro e
        rw [e] at hchar
        exact h0 (by simp [← hchar, Nat.digitChar])
      simp only [digitsValue_nil, Nat.mul_zero, Nat.zero_add, List.nil_append]
      exact ⟨by omega, by rw [Nat.toDigits_of_lt_base hlt, hchar]⟩
    | cons c' s =>
      obtain ⟨hpos, hdig⟩ := ih (fun x hx => h x (List.mem_append.mpr (.inl hx)))
        (by simp) (by simpa using h0)
      refine ⟨by omega, ?_⟩
      rw [Nat.toDigits_of_base_le (by omega) (by omega)]
      have hdiv : (10 * digitsValue (c' :: s) + (c.toNat - 48)) / 10 = digitsValue (c' :: s) := by
        omega
      have hmod : (10 * digitsValue (c' :: s) + (c.toNat - 48)) % 10 = c.toNat - 48 := by omega
      rw [hdiv, hmod, hdig, hchar]

/-- Leading zeros do not count. -/
theorem digitsValue_dropWhile (s : List Char) :
    digitsValue (s.dropWhile (· = '0')) = digitsValue s := by
  induction s with
  | nil => rfl
  | cons c s ih =>
    by_cases hc : c = '0'
    · subst hc
      rw [List.dropWhile_cons_of_pos (by simp), ih]
      rfl
    · rw [List.dropWhile_cons_of_neg (by simpa using hc)]

/-- **Stripping zeros is decimal notation**: a digit string without its leading zeros is the
decimal notation of its value. -/
theorem stripZeros_eq_toDigits {s : List Char} (h : ∀ c ∈ s, c.isDigit = true) :
    stripZeros s = Nat.toDigits 10 (digitsValue s) := by
  have hsub : ∀ c ∈ s.dropWhile (· = '0'), c.isDigit = true := fun c hc =>
    h c ((List.dropWhile_sublist _).subset hc)
  have hval := digitsValue_dropWhile s
  have hhead : (s.dropWhile (· = '0')).head? ≠ some '0' := by
    intro e
    have := List.head?_dropWhile_not (fun c : Char => decide (c = '0')) s
    rw [e] at this
    simp at this
  unfold stripZeros
  split
  · rename_i hnil
    rw [hnil] at hval
    rw [← hval]
    rfl
  · rename_i c cs hcons
    rw [hcons] at hsub hval hhead
    rw [← hval, (toDigits_digitsValue hsub (by simp) hhead).2]

/-- `stripZeros` keeps at least one digit, and only digits. -/
theorem isDigit_stripZeros {s : List Char} (h : ∀ c ∈ s, c.isDigit = true) :
    stripZeros s ≠ [] ∧ ∀ c ∈ stripZeros s, c.isDigit = true := by
  have hsub : ∀ c ∈ s.dropWhile (· = '0'), c.isDigit = true := fun c hc =>
    h c ((List.dropWhile_sublist _).subset hc)
  unfold stripZeros
  split
  · exact ⟨by simp, by simp⟩
  · rename_i c cs hcons
    rw [hcons] at hsub
    exact ⟨by simp, hsub⟩

/-- `stripZeros` keeps the value. -/
theorem digitsValue_stripZeros (s : List Char) : digitsValue (stripZeros s) = digitsValue s := by
  have hval := digitsValue_dropWhile s
  unfold stripZeros
  split
  · rename_i hnil
    rw [hnil] at hval
    rw [← hval]
    rfl
  · rename_i c cs hcons
    rw [← hval, hcons]

/-! ## The round trip -/

theorem jsSpace_of_isDigit {c : Char} (h : c.isDigit = true) : jsSpace c = false ∧ c ≠ '.' := by
  obtain ⟨hlt, hc⟩ := digitChar_of_isDigit h
  generalize c.toNat - 48 = n at hlt hc
  subst hc
  interval_cases n <;> decide

/-- The part of a decimal before its point, and the part from the point on. -/
theorem takeWhile_point {int r : List Char} (h : ∀ c ∈ int, c ≠ '.')
    (hr : ∀ c, r.head? = some c → c = '.') :
    (int ++ r).takeWhile (· ≠ '.') = int ∧ (int ++ r).dropWhile (· ≠ '.') = r := by
  have hint : ∀ c ∈ int, (decide (c ≠ '.')) = true := fun c hc => by simpa using h c hc
  rw [List.takeWhile_append_of_pos hint, List.dropWhile_append_of_pos hint]
  cases r with
  | nil => simp
  | cons c r =>
    obtain rfl := hr c rfl
    simp

/-- `normalizeAmount` of a text whose part before the point is `int`. -/
theorem normalizeAmount_split {a : String} {int r : List Char} (ha : a.toList = int ++ r)
    (hne : int ≠ []) (hspace : ∀ c ∈ a.toList, jsSpace c = false) (hint : ∀ c ∈ int, c ≠ '.')
    (hr : ∀ c, r.head? = some c → c = '.') :
    normalizeAmount (some a) =
      some (String.ofList (stripZeros int ++ '.' :: decimalPart r)) := by
  obtain ⟨h1, h2⟩ := takeWhile_point hint hr
  have hne' : ¬ int ++ r = [] := by simp [hne]
  rw [ha] at hspace
  simp only [normalizeAmount, ha, jsTrim_of_forall hspace, if_neg hne', h1, h2]

/-- Digits, and a point followed by digits, hold no white space. -/
theorem jsSpace_of_decimal {int dec : List Char} (hint : ∀ c ∈ int, c.isDigit = true)
    (hdec : ∀ c ∈ dec, c.isDigit = true) : ∀ c ∈ int ++ '.' :: dec, jsSpace c = false := by
  intro c hc
  rcases List.mem_append.mp hc with hc | hc
  · exact (jsSpace_of_isDigit (hint c hc)).1
  · rcases List.mem_cons.mp hc with rfl | hc
    · decide
    · exact (jsSpace_of_isDigit (hdec c hc)).1

/-- The canonical form of a decimal with digits `int` before the point and `d`, `e` after it. -/
theorem normalizeAmount_decimal {int : List Char} {d e : Char} (hne : int ≠ [])
    (h : ∀ c ∈ int, c.isDigit = true) (hd : d.isDigit = true) (he : e.isDigit = true) :
    normalizeAmount (some (String.ofList (int ++ ['.', d, e]))) =
      some (String.ofList (stripZeros int ++ ['.', d, e])) := by
  have hdec : ∀ c ∈ [d, e], c.isDigit = true := by simp [hd, he]
  refine normalizeAmount_split (r := ['.', d, e]) (String.toList_ofList ..) hne ?_
    (fun c hc => (jsSpace_of_isDigit (h c hc)).2) (by simp)
  rw [String.toList_ofList]
  exact jsSpace_of_decimal h hdec

/-- The text of a number of cents, digit by digit. -/
theorem numericText_decimal {int : List Char} {d e : Char} (h : ∀ c ∈ int, c.isDigit = true)
    (hd : d.isDigit = true) (he : e.isDigit = true) :
    numericText ((digitsValue int * 100 + digitsValue [d, e] : ℕ) : ℤ) =
      String.ofList (stripZeros int ++ ['.', d, e]) := by
  obtain ⟨hd1, hd2⟩ := digitChar_of_isDigit hd
  obtain ⟨he1, he2⟩ := digitChar_of_isDigit he
  have hval : digitsValue [d, e] = 10 * (d.toNat - 48) + (e.toNat - 48) := by
    simp [digitsValue]
  have hneg : ¬ ((digitsValue int * 100 + digitsValue [d, e] : ℕ) : ℤ) < 0 := by omega
  have h1 : (digitsValue int * 100 + digitsValue [d, e]) / 100 = digitsValue int := by omega
  have h2 : (digitsValue int * 100 + digitsValue [d, e]) % 100 / 10 = d.toNat - 48 := by omega
  have h3 : (digitsValue int * 100 + digitsValue [d, e]) % 10 = e.toNat - 48 := by omega
  simp only [numericText, hneg, if_false, Int.natAbs_natCast, h1, h2, h3, hd2, he2,
    List.nil_append, stripZeros_eq_toDigits h]

/-- What `AMOUNT_REGEX` accepts: digits, and possibly a point with one or two more. -/
theorem amountRegex_form {a : String} (h : amountRegex a = true) :
    ∃ int dec : List Char, int ≠ [] ∧ int.length ≤ 10 ∧ (∀ c ∈ int, c.isDigit = true) ∧
      (∀ c ∈ dec, c.isDigit = true) ∧ dec.length ≤ 2 ∧
      ((dec = [] ∧ a.toList = int) ∨ (dec ≠ [] ∧ a.toList = int ++ '.' :: dec)) := by
  have hsplit := List.takeWhile_append_dropWhile (p := Char.isDigit) (l := a.toList)
  have hint : ∀ c ∈ a.toList.takeWhile Char.isDigit, c.isDigit = true := fun c hc =>
    by
    have := List.all_takeWhile (p := Char.isDigit) (l := a.toList)
    exact List.all_eq_true.mp this c hc
  simp only [amountRegex, Bool.and_eq_true, decide_eq_true_iff] at h
  obtain ⟨⟨h1, h2⟩, h3⟩ := h
  have hne : a.toList.takeWhile Char.isDigit ≠ [] := by
    intro e
    simp [e] at h1
  revert h3
  split
  · rename_i hnil
    intro _
    rw [hnil, List.append_nil] at hsplit
    exact ⟨_, [], hne, h2, hint, by simp, by simp, .inl ⟨rfl, hsplit.symm⟩⟩
  · rename_i c dec hcons
    intro h3
    simp only [Bool.and_eq_true, decide_eq_true_iff, List.all_eq_true] at h3
    obtain ⟨⟨⟨rfl, hdec⟩, hlo⟩, hhi⟩ := h3
    rw [hcons] at hsplit
    refine ⟨_, dec, hne, h2, hint, hdec, hhi, .inr ⟨?_, hsplit.symm⟩⟩
    rintro rfl
    simp at hlo

/-- `numericIn` of a text whose leading digits are `int`. -/
theorem numericIn_split {a : String} {int r : List Char} (ha : a.toList = int ++ r)
    (hne : int ≠ []) (hint : ∀ c ∈ int, c.isDigit = true)
    (hr : ∀ c, r.head? = some c → c.isDigit = false) :
    numericIn a = match r with
      | [] => some ((digitsValue int * 100 : ℕ) : ℤ)
      | c :: dec =>
        if c = '.' ∧ dec.all Char.isDigit then
          some ((digitsValue int * 100 + centsValue dec : ℕ) : ℤ)
        else none := by
  have h1 : (int ++ r).takeWhile Char.isDigit = int := by
    rw [List.takeWhile_append_of_pos hint]
    cases r with
    | nil => simp
    | cons c r => simp [hr c rfl]
  have h2 : (int ++ r).dropWhile Char.isDigit = r := by
    rw [List.dropWhile_append_of_pos hint]
    cases r with
    | nil => simp
    | cons c r => simp [hr c rfl]
  simp only [numericIn, ha, h1, h2, if_neg hne]
  cases r with
  | nil => push_cast; rfl
  | cons c dec => push_cast; rfl

/-- **Money survives storage**: the canonical form of an accepted amount is the text PostgreSQL
gives for the stored value, and that text is canonical.

**Proof sketch.** By `amountRegex_form` the amount has digits `int` and at most two decimals;
padded to two, they are those of the stored number of cents. -/
theorem normalizeAmount_numericText {a : String} (h : amountRegex a = true) :
    ∃ c : ℤ, numericIn a = some c ∧ numericFits c = true ∧
      normalizeAmount (some a) = some (numericText c) ∧
      normalizeAmount (some (numericText c)) = some (numericText c) := by
  obtain ⟨int, dec, hne, hlen, hint, hdec, hdlen, hform⟩ := amountRegex_form h
  -- the two decimals, padded with zeros
  obtain ⟨d, e, hde, hd, he⟩ : ∃ d e, twoDecimals dec = [d, e] ∧ d.isDigit = true ∧
      e.isDigit = true := by
    rcases dec with _ | ⟨d, _ | ⟨e, _ | _⟩⟩
    · exact ⟨'0', '0', rfl, by decide, by decide⟩
    · exact ⟨d, '0', rfl, hdec d (by simp), by decide⟩
    · exact ⟨d, e, rfl, hdec d (by simp), hdec e (by simp)⟩
    · simp at hdlen
  refine ⟨((digitsValue int * 100 + digitsValue [d, e] : ℕ) : ℤ), ?_, ?_, ?_, ?_⟩
  · have hcents : centsValue dec = digitsValue [d, e] := by
      have hdrop : dec.drop 2 = [] := List.drop_eq_nil_iff.mpr hdlen
      simp [centsValue, hde, hdrop]
    rw [← hcents]
    rcases hform with ⟨rfl, hs⟩ | ⟨-, hs⟩
    · rw [numericIn_split (r := []) (by rw [hs, List.append_nil]) hne hint (by simp)]
      rfl
    · rw [numericIn_split hs hne hint (by simp)]
      simp [List.all_eq_true.mpr hdec]
  · have h1 := digitsValue_lt hint
    have h2 : digitsValue [d, e] < 100 := digitsValue_lt (s := [d, e]) (by simp [hd, he])
    have h3 : (10 : ℕ) ^ int.length ≤ 10 ^ 10 := Nat.pow_le_pow_right (by omega) hlen
    simp only [numericFits, Int.natAbs_natCast, decide_eq_true_iff]
    omega
  · rw [numericText_decimal hint hd he]
    have hpoint : ∀ c ∈ int, c ≠ '.' := fun c hc => (jsSpace_of_isDigit (hint c hc)).2
    rcases hform with ⟨rfl, hs⟩ | ⟨-, hs⟩
    · have hspace : ∀ c ∈ a.toList, jsSpace c = false := by
        rw [hs]
        exact fun c hc => (jsSpace_of_isDigit (hint c hc)).1
      rw [normalizeAmount_split (r := []) (by rw [hs, List.append_nil]) hne hspace hpoint
        (by simp)]
      exact congrArg (fun x => some (String.ofList (stripZeros int ++ '.' :: x))) hde
    · rw [normalizeAmount_split hs hne (hs ▸ jsSpace_of_decimal hint hdec) hpoint (by simp)]
      exact congrArg (fun x => some (String.ofList (stripZeros int ++ '.' :: x))) hde
  · obtain ⟨hsne, hs⟩ := isDigit_stripZeros hint
    rw [numericText_decimal hint hd he, normalizeAmount_decimal hsne hs hd he,
      stripZeros_eq_toDigits hs, digitsValue_stripZeros, ← stripZeros_eq_toDigits hint]

/-! ## The texts of stored amounts -/

/-- Reading decimal notation gives the number back. -/
theorem digitsValue_toDigits (n : ℕ) : digitsValue (Nat.toDigits 10 n) = n :=
  Nat.ofDigitChars_ten_toDigits

/-- The digits of a number are its own. -/
theorem digitChar_inj {m n : ℕ} (hm : m < 10) (hn : n < 10)
    (h : Nat.digitChar m = Nat.digitChar n) : m = n := by
  have hcode := congrArg (fun c : Char => c.toNat - 48) h
  simpa [Nat.toNat_digitChar_sub_48_of_lt_ten hm, Nat.toNat_digitChar_sub_48_of_lt_ten hn]
    using hcode

/-- The text of an amount, as its sign, its digits and its two decimals. -/
theorem numericText_toList (c : ℤ) : (numericText c).toList =
    ((if c < 0 then ['-'] else []) ++ Nat.toDigits 10 (c.natAbs / 100)) ++
      ['.', Nat.digitChar (c.natAbs % 100 / 10), Nat.digitChar (c.natAbs % 10)] := by
  simp [numericText]

/-- Neither the sign nor the digits of an amount are white space or a point. -/
theorem numericText_int (c : ℤ) :
    ∀ x ∈ (if c < 0 then ['-'] else []) ++ Nat.toDigits 10 (c.natAbs / 100),
      jsSpace x = false ∧ x ≠ '.' := by
  intro x hx
  rcases List.mem_append.mp hx with hx | hx
  · split at hx
    · rw [List.mem_singleton.mp hx]
      decide
    · cases hx
  · exact jsSpace_of_isDigit (Nat.isDigit_of_mem_toDigits (by decide) (by decide) hx)

/-- The last two characters of the text of an amount are digits. -/
theorem numericText_dec (c : ℤ) :
    ∀ x ∈ [Nat.digitChar (c.natAbs % 100 / 10), Nat.digitChar (c.natAbs % 10)], x.isDigit = true := by
  have hdigit : ∀ n, n < 10 → (Nat.digitChar n).isDigit = true := by decide
  simp [hdigit (c.natAbs % 100 / 10) (by omega), hdigit (c.natAbs % 10) (by omega)]

/-- The text of an amount holds no white space. -/
theorem jsSpace_numericText (c : ℤ) : ∀ x ∈ (numericText c).toList, jsSpace x = false := by
  intro x hx
  rw [numericText_toList] at hx
  rcases List.mem_append.mp hx with hx | hx
  · exact (numericText_int c x hx).1
  · rcases List.mem_cons.mp hx with rfl | hx
    · decide
    · exact (jsSpace_of_isDigit (numericText_dec c x hx)).1

/-- **The text of a stored amount is canonical.** -/
theorem normalizeAmount_text (c : ℤ) :
    normalizeAmount (some (numericText c)) = some (numericText c) := by
  have hstrip : stripZeros ((if c < 0 then ['-'] else []) ++ Nat.toDigits 10 (c.natAbs / 100)) =
      (if c < 0 then ['-'] else []) ++ Nat.toDigits 10 (c.natAbs / 100) := by
    split
    · rfl
    · rw [List.nil_append, stripZeros_eq_toDigits (fun x hx =>
        Nat.isDigit_of_mem_toDigits (by decide) (by decide) hx), digitsValue_toDigits]
  rw [normalizeAmount_split (numericText_toList c) (by simp [Nat.toDigits_ne_nil])
    (jsSpace_numericText c) (fun x hx => (numericText_int c x hx).2) (by simp), hstrip]
  exact congrArg some (String.toList_inj.mp (by rw [numericText_toList]; simp [decimalPart, twoDecimals]))

/-- **Two amounts with the same text are equal.** -/
theorem numericText_inj {c c' : ℤ} (h : numericText c = numericText c') : c = c' := by
  have hlist := congrArg String.toList h
  rw [numericText_toList, numericText_toList] at hlist
  obtain ⟨hint, hdec⟩ := List.append_inj' hlist rfl
  obtain ⟨h10, h1⟩ : Nat.digitChar (c.natAbs % 100 / 10) = Nat.digitChar (c'.natAbs % 100 / 10) ∧
      Nat.digitChar (c.natAbs % 10) = Nat.digitChar (c'.natAbs % 10) := by simpa using hdec
  have htens := digitChar_inj (by omega) (by omega) h10
  have hones := digitChar_inj (by omega) (by omega) h1
  -- a digit is no sign
  have hhead : ∀ n : ℕ, (Nat.toDigits 10 n).head? ≠ some '-' := by
    intro n hn
    have hdigit := Nat.isDigit_of_mem_toDigits (by decide : 0 < 10) (by decide)
      (List.mem_of_mem_head? hn)
    exact absurd hdigit (by decide)
  obtain ⟨hsign, hdigits⟩ : (c < 0 ↔ c' < 0) ∧
      Nat.toDigits 10 (c.natAbs / 100) = Nat.toDigits 10 (c'.natAbs / 100) := by
    by_cases hc : c < 0 <;> by_cases hc' : c' < 0 <;> simp only [hc, hc', if_true, if_false,
      List.nil_append, List.singleton_append] at hint ⊢
    · exact ⟨trivial, List.cons_inj_right _ |>.mp hint⟩
    · exact absurd (by rw [← hint]; rfl) (hhead (c'.natAbs / 100))
    · exact absurd (by rw [hint]; rfl) (hhead (c.natAbs / 100))
    · exact ⟨trivial, hint⟩
  have hhundreds := congrArg digitsValue hdigits
  rw [digitsValue_toDigits, digitsValue_toDigits] at hhundreds
  omega

/-- **The comparison of amounts is numeric**: a stored amount and an accepted one have the same
canonical form if they are the same number. -/
theorem normalizeAmount_eq_iff {a : String} (h : amountRegex a = true) (stored : Option ℤ) :
    normalizeAmount (stored.map numericText) = normalizeAmount (some a) ↔ stored = numericIn a := by
  obtain ⟨c, hc, -, ha, -⟩ := normalizeAmount_numericText h
  rw [ha, hc]
  cases stored with
  | none => simp [normalizeAmount]
  | some c' =>
    rw [Option.map_some, normalizeAmount_text, Option.some_inj, Option.some_inj]
    exact ⟨numericText_inj, fun heq => by rw [heq]⟩

end PaymentWebhook
