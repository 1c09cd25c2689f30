import Mathlib.Algebra.Order.Ring.Nat

set_option relaxedAutoImplicit false
set_option autoImplicit false

/-!
# JavaScript strings

What the program uses of `String.prototype`, on lists of code points.

## Main definitions

* `PaymentWebhook.jsTrim` — `trim`.
* `PaymentWebhook.jsLength` — `length`, in UTF-16 code units.
-/

namespace PaymentWebhook

/-- The characters that `String.prototype.trim` removes. -/
def jsSpace (c : Char) : Bool :=
  c ∈ ['\t', '\n', '\x0b', '\x0c', '\r', ' ', '\u00a0', '\u1680', '\u2028', '\u2029', '\u202f',
    '\u205f', '\u3000', '\ufeff'] || ('\u2000' ≤ c && c ≤ '\u200a')

/-- `String.prototype.trim`. -/
def jsTrim (s : List Char) : List Char :=
  ((s.dropWhile jsSpace).reverse.dropWhile jsSpace).reverse

/-- The number of UTF-16 code units of a character. -/
def utf16Units (c : Char) : ℕ := if 0xffff < c.toNat then 2 else 1

/-- `s.length`. -/
def jsLength (s : List Char) : ℕ := (s.map utf16Units).sum

/-- Text without white space is its own trim. -/
theorem jsTrim_of_forall {s : List Char} (h : ∀ c ∈ s, jsSpace c = false) : jsTrim s = s := by
  have hdrop : ∀ {l : List Char}, (∀ c ∈ l, jsSpace c = false) → l.dropWhile jsSpace = l := by
    intro l hl
    cases l with
    | nil => rfl
    | cons c l => exact List.dropWhile_cons_of_neg (by simp [hl c (by simp)])
  unfold jsTrim
  rw [hdrop h, hdrop (fun c hc => h c (List.mem_reverse.mp hc)), List.reverse_reverse]

end PaymentWebhook
