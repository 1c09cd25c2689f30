import Mathlib.Data.List.Nodup
import PaymentWebhook.Generator

set_option relaxedAutoImplicit false
set_option autoImplicit false

/-!
# The orders of delivery

With `--shuffle`, the simulator sends its webhooks in the order that `shuffle` of `generator.js` leaves them in.  The
loop exchanges the last of the items that are left with one of them, which then stays where it is.

## Main results

* `PaymentWebhook.Generator.shuffleFrom_succ` — one turn of the loop.
* `PaymentWebhook.Generator.shuffle_orders` — every order can be drawn, and in one way only.

## Implementation notes

What a shuffle does depends on the random numbers only through the indices drawn with them.  There are
`n * (n - 1) * … * 2` ways to draw the indices, as many as there are orders of `n` different items, and so
the orders are equally likely if the indices are.
-/

namespace PaymentWebhook

namespace Generator

variable {α : Type} {rng rng' : ℕ → ℚ} {i j k : ℕ} {a b t : List α}

/-! ## The loop -/

/-- The number of items stays. -/
@[simp] theorem length_swapAt (a : List α) (i j : ℕ) : (swapAt a i j).length = a.length := (swapAt_perm a i j).length_eq

/-- An exchange concerns the items before a tail only. -/
theorem swapAt_append (t : List α) (hi : i < a.length) (hj : j < a.length) :
    swapAt (a ++ t) i j = swapAt a i j ++ t := by
  have hi' : i < (a ++ t).length := by rw [List.length_append]; omega
  have hj' : j < (a ++ t).length := by rw [List.length_append]; omega
  rw [swapAt, swapAt, dif_pos hi', dif_pos hj', dif_pos hi, dif_pos hj, List.getElem_append_left hi,
    List.getElem_append_left hj, List.set_append_left _ _ hi, List.set_append_left _ _ (by simpa using hj)]

/-- **An exchange with the last item** puts the other one at the end. -/
theorem swapAt_last (hlength : a.length = i + 1) (hj : j < a.length) :
    swapAt a i j = (swapAt a i j).dropLast ++ [a[j]] := by
  have hi : i < a.length := by omega
  have hne : swapAt a i j ≠ [] := List.ne_nil_of_length_pos (by rw [length_swapAt]; omega)
  have hlast : (swapAt a i j).getLast hne = a[j] := by
    rw [List.getLast_eq_getElem]
    simp only [length_swapAt, hlength, Nat.add_sub_cancel]
    simp only [swapAt, dif_pos hi, dif_pos hj, List.getElem_set]
    split_ifs with heq
    · simp only [heq]
    · rfl
  rw [← hlast, List.dropLast_append_getLast]

/-- The items that are left after an exchange. -/
theorem length_dropLast_swapAt (hlength : a.length = i + 1) : (swapAt a i j).dropLast.length = i := by
  rw [List.length_dropLast, length_swapAt, hlength, Nat.add_sub_cancel]

/-- **What has been put at the end stays there.** -/
theorem shuffleFrom_append (h : InUnit rng) (t : List α) :
    ∀ (i k : ℕ) (a : List α), a.length = i + 1 → shuffleFrom rng i k (a ++ t) = shuffleFrom rng i k a ++ t := by
  intro i
  induction i generalizing t with
  | zero => exact fun _ _ _ => rfl
  | succ i ih =>
    intro k a hlength
    have hj : randomInt rng k (i + 2) < a.length := by
      rw [hlength]
      exact randomInt_lt h k (Nat.succ_pos _)
    have hleft := length_dropLast_swapAt (j := randomInt rng k (i + 2)) hlength
    rw [shuffleFrom, shuffleFrom, swapAt_append t (by omega) hj, swapAt_last hlength hj, List.append_assoc,
      ih _ _ _ hleft, ih [a[randomInt rng k (i + 2)]] _ _ hleft, List.append_assoc]

/-- **One turn of the loop.** -/
theorem shuffleFrom_succ (h : InUnit rng) (hlength : a.length = i + 2) (hj : randomInt rng k (i + 2) = j) :
    ∃ hlt : j < a.length, shuffleFrom rng (i + 1) k a =
      shuffleFrom rng i (k + 1) (swapAt a (i + 1) j).dropLast ++ [a[j]] := by
  have hlt : j < a.length := by
    rw [hlength, ← hj]
    exact randomInt_lt h k (Nat.succ_pos _)
  refine ⟨hlt, ?_⟩
  conv_lhs => rw [shuffleFrom, hj, swapAt_last hlength hlt]
  exact shuffleFrom_append h _ _ _ _ (length_dropLast_swapAt hlength)

/-- The loop only draws the random numbers that are left. -/
theorem shuffleFrom_congr : ∀ (i k : ℕ) (a : List α), (∀ m, k ≤ m → rng m = rng' m) →
    shuffleFrom rng i k a = shuffleFrom rng' i k a := by
  intro i
  induction i with
  | zero => exact fun _ _ _ => rfl
  | succ i ih =>
    intro k a h
    have hdraw : randomInt rng k (i + 2) = randomInt rng' k (i + 2) := by
      rw [randomInt, randomInt, h k le_rfl]
    rw [shuffleFrom, shuffleFrom, hdraw]
    exact ih _ _ fun m hm => h m (Nat.le_of_succ_le hm)

/-! ## The orders -/

/-- **Some random number draws a given index.** -/
theorem exists_randomInt {n : ℕ} (hj : j < n) : ∃ x : ℚ, 0 ≤ x ∧ x < 1 ∧ ⌊x * n⌋₊ = j := by
  have hpos : (0 : ℚ) < n := by exact_mod_cast Nat.zero_lt_of_lt hj
  refine ⟨j / n, by positivity, ?_, ?_⟩
  · rw [div_lt_one hpos]
    exact_mod_cast hj
  · rw [div_mul_cancel₀ _ hpos.ne', Nat.floor_natCast]

/-- The loop can leave the items in any order. -/
theorem exists_shuffleFrom : ∀ (i k : ℕ) (a l : List α), a.length = i + 1 → l.Perm a →
    ∃ rng, InUnit rng ∧ shuffleFrom rng i k a = l := by
  intro i
  induction i with
  | zero =>
    intro k a l hlength hl
    obtain ⟨x, rfl⟩ := List.length_eq_one_iff.mp hlength
    exact ⟨fun _ => 0, fun _ => ⟨le_rfl, zero_lt_one⟩, (List.perm_singleton.mp hl).symm⟩
  | succ i ih =>
    intro k a l hlength hl
    -- the last item of the order is drawn first
    have hne : l ≠ [] := List.ne_nil_of_length_pos (by rw [hl.length_eq]; omega)
    obtain ⟨front, x, rfl⟩ : ∃ front x, l = front ++ [x] := ⟨_, _, (List.dropLast_append_getLast hne).symm⟩
    obtain ⟨j, hj, rfl⟩ := List.getElem_of_mem (hl.subset (List.mem_append_right _ (List.mem_singleton_self x)))
    have hfront : front.Perm (swapAt a (i + 1) j).dropLast := by
      have hperm := hl.trans (swapAt_perm a (i + 1) j).symm
      rw [swapAt_last hlength hj] at hperm
      exact (List.perm_append_right_iff _).mp hperm
    obtain ⟨rng, hrng, hshuffle⟩ := ih (k + 1) _ front (length_dropLast_swapAt hlength) hfront
    obtain ⟨x, hx₀, hx₁, hfloor⟩ := exists_randomInt (hlength ▸ hj)
    have hunit : InUnit (Function.update rng k x) := by
      intro n
      by_cases hn : n = k
      · rw [hn, Function.update_self]
        exact ⟨hx₀, hx₁⟩
      · rw [Function.update_of_ne hn]
        exact hrng n
    have hdraw : randomInt (Function.update rng k x) k (i + 2) = j := by
      rw [randomInt, Function.update_self, hfloor]
    have hrest : shuffleFrom (Function.update rng k x) i (k + 1) (swapAt a (i + 1) j).dropLast = front := by
      rw [← hshuffle]
      exact shuffleFrom_congr _ _ _ fun m hm => Function.update_of_ne (by omega) _ _
    obtain ⟨hlt, hturn⟩ := shuffleFrom_succ hunit hlength hdraw
    exact ⟨_, hunit, by rw [hturn, hrest]⟩

/-- **Two shuffles of different items end in the same order only if they draw the same indices.** -/
theorem shuffleFrom_inj (h : InUnit rng) (h' : InUnit rng') : ∀ (i k : ℕ) (a : List α), a.length = i + 1 → a.Nodup →
    (shuffleFrom rng i k a = shuffleFrom rng' i k a ↔
      ∀ m < i, randomInt rng (k + m) (i + 1 - m) = randomInt rng' (k + m) (i + 1 - m)) := by
  intro i
  induction i with
  | zero => simp [shuffleFrom]
  | succ i ih =>
    intro k a hlength hnodup
    obtain ⟨hj, hturn⟩ := shuffleFrom_succ h hlength rfl
    obtain ⟨hj', hturn'⟩ := shuffleFrom_succ h' hlength rfl
    rw [hturn, hturn']
    have hleft : ∀ j, (swapAt a (i + 1) j).dropLast.Nodup := fun j =>
      ((swapAt_perm a (i + 1) j).nodup_iff.mpr hnodup).sublist (List.dropLast_sublist _)
    -- the first index that is drawn decides the last item
    have hsplit : (∀ m < i + 1, randomInt rng (k + m) (i + 2 - m) = randomInt rng' (k + m) (i + 2 - m)) ↔
        randomInt rng k (i + 2) = randomInt rng' k (i + 2) ∧
          ∀ m < i, randomInt rng (k + 1 + m) (i + 1 - m) = randomInt rng' (k + 1 + m) (i + 1 - m) := by
      have hindex : ∀ m, k + (m + 1) = k + 1 + m ∧ i + 2 - (m + 1) = i + 1 - m := fun m => by omega
      constructor
      · intro hall
        refine ⟨hall 0 (Nat.succ_pos _), fun m hm => ?_⟩
        have hnext := hall (m + 1) (Nat.succ_lt_succ hm)
        rwa [(hindex m).1, (hindex m).2] at hnext
      · rintro ⟨hfirst, hall⟩ (_ | m) hm
        · exact hfirst
        · rw [(hindex m).1, (hindex m).2]
          exact hall m (Nat.lt_of_succ_lt_succ hm)
    rw [hsplit]
    constructor
    · intro heq
      obtain ⟨hrest, hlast⟩ := List.append_inj' heq rfl
      have hfirst : randomInt rng k (i + 2) = randomInt rng' k (i + 2) :=
        hnodup.getElem_inj_iff.mp (List.singleton_inj.mp hlast)
      rw [← hfirst] at hrest
      exact ⟨hfirst, (ih _ _ (length_dropLast_swapAt hlength) (hleft _)).mp hrest⟩
    · rintro ⟨hfirst, hall⟩
      simp only [← hfirst]
      rw [(ih _ _ (length_dropLast_swapAt hlength) (hleft _)).mpr hall]

/-- **Every order can be drawn, and in one way only.**  For every order of the items there are random numbers with which
the shuffle ends in it; and if the items are different, there is one index for each turn of the loop so that the shuffle
ends in this order exactly if it draws these indices. -/
theorem shuffle_orders (arr : List α) :
    (∀ l, l.Perm arr → ∃ rng, InUnit rng ∧ shuffle arr rng = l) ∧
    (arr.Nodup → ∀ l, l.Perm arr → ∃ js : ℕ → ℕ, (∀ k < arr.length - 1, js k < arr.length - k) ∧
      ∀ rng, InUnit rng →
        (shuffle arr rng = l ↔ ∀ k < arr.length - 1, randomInt rng k (arr.length - k) = js k)) := by
  have hevery : ∀ l, l.Perm arr → ∃ rng, InUnit rng ∧ shuffle arr rng = l := by
    intro l hl
    cases arr with
    | nil => exact ⟨fun _ => 0, fun _ => ⟨le_rfl, zero_lt_one⟩, (List.perm_nil.mp hl).symm⟩
    | cons x arr => exact exists_shuffleFrom _ _ _ _ rfl hl
  refine ⟨hevery, fun hnodup l hl => ?_⟩
  obtain ⟨rng₀, hrng₀, rfl⟩ := hevery l hl
  refine ⟨fun k => randomInt rng₀ k (arr.length - k), fun k hk => randomInt_lt hrng₀ k (by omega), fun rng hrng => ?_⟩
  cases arr with
  | nil => exact ⟨fun _ k hk => absurd hk (Nat.not_lt_zero k), fun _ => rfl⟩
  | cons x arr =>
    have hinj := shuffleFrom_inj hrng hrng₀ arr.length 0 (x :: arr) rfl hnodup
    simp only [Nat.zero_add] at hinj
    exact hinj

/-- The theorem at three items. -/
theorem shuffle_orders_sample :
    (∃ rng, InUnit rng ∧ shuffle [1, 2, 3] rng = [3, 1, 2]) ∧
    ∃ js : ℕ → ℕ, (∀ k < 2, js k < 3 - k) ∧ ∀ rng, InUnit rng →
      (shuffle [1, 2, 3] rng = [3, 1, 2] ↔ ∀ k < 2, randomInt rng k (3 - k) = js k) := by
  obtain ⟨hevery, hone⟩ := shuffle_orders [1, 2, 3]
  have hperm : [3, 1, 2].Perm [1, 2, 3] := by decide
  exact ⟨hevery _ hperm, hone (by decide) _ hperm⟩

end Generator

end PaymentWebhook
