import Mathlib.Algebra.BigOperators.Group.Finset.Basic
import Mathlib.Algebra.Ring.Nat

set_option relaxedAutoImplicit false
set_option autoImplicit false

/-!
# Ledgers

A journal is a list of entries, oldest first, some of which are charged to a row of a table.  A row states
what has been charged to it.

## Main definitions

* `Ledger.charged` — how many entries of a journal are charged to a key.
* `Ledger.Balanced` — the rows state what has been charged to them, and nothing is charged to other keys.

## Main results

* `Ledger.Balanced.skip`, `Ledger.Balanced.post`, `Ledger.Balanced.replace` — what keeps a ledger balanced.
* `Ledger.Balanced.total` — all charges together.
* `Ledger.countP_le_countP` — counting by partners with the same key.
-/

namespace Ledger

variable {β ρ κ : Type} [DecidableEq κ]

/-- How many entries of a journal are charged to a key. -/
def charged (payer : β → Option κ) (k : κ) (journal : List β) : ℕ := (journal.filterMap payer).count k

/-- **The rows state what has been charged to them**, and nothing is charged to other keys. -/
structure Balanced (payer : β → Option κ) (key : ρ → κ) (states : ρ → ℕ) (journal : List β) (rows : List ρ) :
    Prop where
  known : ∀ r ∈ rows, charged payer (key r) journal = states r
  unknown : ∀ k ∉ rows.map key, charged payer k journal = 0

variable {payer : β → Option κ} {key : ρ → κ} {states : ρ → ℕ} {journal : List β} {rows : List ρ} {b : β}
  {r r' : ρ} {k : κ}

@[simp] theorem charged_nil : charged payer k [] = 0 := rfl

theorem charged_append (journal' : List β) :
    charged payer k (journal ++ journal') = charged payer k journal + charged payer k journal' := by
  rw [charged, List.filterMap_append, List.count_append, charged, charged]

/-- An entry that is charged to a key counts. -/
theorem charged_pos (hb : b ∈ journal) (hpayer : payer b = some k) : 0 < charged payer k journal :=
  List.count_pos_iff.mpr (List.mem_filterMap.mpr ⟨b, hb, hpayer⟩)

/-- What one more entry charges. -/
theorem charged_append_singleton : charged payer k (journal ++ [b]) =
    charged payer k journal + if payer b = some k then 1 else 0 := by
  rw [charged_append]
  congr 1
  cases hb : payer b with
  | none => simp [charged, hb]
  | some k' =>
    rw [charged, List.filterMap_cons_some hb, List.filterMap_nil, List.count_singleton]
    simp

/-- An entry that is charged to nobody. -/
theorem Balanced.skip (h : Balanced payer key states journal rows) (hb : payer b = none) :
    Balanced payer key states (journal ++ [b]) rows where
  known r hr := by rw [charged_append_singleton, hb, h.known r hr, if_neg (Option.some_ne_none _).symm, add_zero]
  unknown k hk := by rw [charged_append_singleton, hb, h.unknown k hk, if_neg (Option.some_ne_none _).symm]

/-- **A new row**, to which the new entries are charged that are charged at all. -/
theorem Balanced.post (h : Balanced payer key states journal rows) (hnew : key r ∉ rows.map key)
    {entries : List β} (hentries : ∀ b ∈ entries, ∀ k ∈ payer b, k = key r)
    (hstates : states r = charged payer (key r) entries) :
    Balanced payer key states (journal ++ entries) (rows ++ [r]) := by
  have hother : ∀ k, k ≠ key r → charged payer k (journal ++ entries) = charged payer k journal := by
    intro k hne
    have hnone : charged payer k entries = 0 := by
      refine List.count_eq_zero.mpr fun hk => ?_
      obtain ⟨b, hb, hpayer⟩ := List.mem_filterMap.mp hk
      exact hne (hentries b hb k hpayer)
    rw [charged_append, hnone, add_zero]
  refine ⟨fun x hx => ?_, fun k hk => ?_⟩
  · rcases List.mem_append.mp hx with hx | hx
    · rw [hother _ fun heq => hnew (heq ▸ List.mem_map_of_mem hx)]
      exact h.known x hx
    · rw [List.mem_singleton.mp hx, charged_append, h.unknown _ hnew, hstates, zero_add]
  · rw [List.map_append, List.mem_append, not_or, List.map_singleton, List.mem_singleton] at hk
    rw [hother k hk.2]
    exact h.unknown k hk.1

/-- A new row, to which nothing has been charged. -/
theorem Balanced.insert (h : Balanced payer key states journal rows) (hnew : key r ∉ rows.map key)
    (hzero : states r = 0) : Balanced payer key states journal (rows ++ [r]) := by
  have hpost : Balanced payer key states (journal ++ []) (rows ++ [r]) := h.post hnew (by simp) hzero
  rwa [List.append_nil] at hpost

/-- **A new version of a row**: it states one charge more if the entry is charged to it, and as much as before
if the entry is charged to nobody. -/
theorem Balanced.replace {before after : List ρ}
    (h : Balanced payer key states journal (before ++ r :: after))
    (hnodup : ((before ++ r :: after).map key).Nodup) (hkey : key r' = key r)
    (hb : (payer b = none ∧ states r' = states r) ∨
      (payer b = some (key r) ∧ states r' = states r + 1)) :
    Balanced payer key states (journal ++ [b]) (before ++ r' :: after) := by
  have hkeys : (before ++ r' :: after).map key = (before ++ r :: after).map key := by simp [hkey]
  have hother : ∀ x ∈ before ++ after, key r ≠ key x := by
    have hperm : ((before ++ r :: after).map key).Perm (key r :: (before ++ after).map key) :=
      List.perm_middle.map key
    rw [hperm.nodup_iff, List.nodup_cons] at hnodup
    exact fun x hx heq => hnodup.1 (heq ▸ List.mem_map_of_mem hx)
  have hr := h.known r (by simp)
  have hcharge : charged payer (key r) (journal ++ [b]) = states r' := by
    rw [charged_append_singleton, hr]
    rcases hb with ⟨hb, hstates⟩ | ⟨hb, hstates⟩
    · rw [hb, if_neg (Option.some_ne_none _).symm, hstates, add_zero]
    · rw [hb, if_pos rfl, hstates]
  have hrest : ∀ k, key r ≠ k → charged payer k (journal ++ [b]) = charged payer k journal := by
    intro k hne
    rw [charged_append_singleton, if_neg, add_zero]
    rcases hb with ⟨hb, -⟩ | ⟨hb, -⟩
    · simp [hb]
    · simpa [hb] using hne
  refine ⟨fun x hx => ?_, fun k hk => ?_⟩
  · rcases (List.mem_append.trans (or_congr_right List.mem_cons)).mp hx with hx | rfl | hx
    · have hmem : x ∈ before ++ after := List.mem_append_left _ hx
      rw [hrest _ (hother x hmem), h.known x (by simp [hx])]
    · rw [hkey, hcharge]
    · have hmem : x ∈ before ++ after := List.mem_append_right _ hx
      rw [hrest _ (hother x hmem), h.known x (by simp [hx])]
  · rw [hkeys] at hk
    rw [hrest k fun heq => hk (by simp [heq]), h.unknown k hk]

/-- **All charges together** are what the rows state. -/
theorem Balanced.total (h : Balanced payer key states journal rows) (hnodup : (rows.map key).Nodup) :
    (journal.filterMap payer).length = (rows.map states).sum := by
  have hmem : ∀ k ∈ journal.filterMap payer, k ∈ (rows.map key).toFinset := by
    intro k hk
    rw [List.mem_toFinset]
    by_contra hno
    exact (List.count_pos_iff.mpr hk).ne' (h.unknown k hno)
  have hsum := Multiset.sum_count_eq_card (m := (journal.filterMap payer : Multiset κ)) hmem
  rw [Multiset.coe_card, List.sum_toFinset _ hnodup, List.map_map] at hsum
  rw [← hsum]
  exact congrArg List.sum (List.map_congr_left fun r hr => (Multiset.coe_count _ _).trans (h.known r hr))

/-! ## Counting -/

variable {α : Type}

/-- **No more than there are partners**: the elements that are counted have different keys, and each has a partner
with its key. -/
theorem countP_le_countP {xs : List α} {ys : List β} {f : α → κ} {g : β → κ} {p : α → Bool} {q : β → Bool}
    (hnodup : ((xs.filter p).map f).Nodup) (h : ∀ x ∈ xs, p x = true → ∃ y ∈ ys, q y = true ∧ g y = f x) :
    xs.countP p ≤ ys.countP q := by
  rw [List.countP_eq_length_filter, List.countP_eq_length_filter, ← List.length_map f, ← List.length_map g]
  refine (List.subperm_of_subset hnodup fun k hk => ?_).length_le
  obtain ⟨x, hx, rfl⟩ := List.mem_map.mp hk
  obtain ⟨hmem, hp⟩ := List.mem_filter.mp hx
  obtain ⟨y, hy, hq, hkey⟩ := h x hmem hp
  exact List.mem_map.mpr ⟨y, List.mem_filter.mpr ⟨hy, hq⟩, hkey⟩

/-- What is counted for one of two reasons. -/
theorem countP_or_le (xs : List α) (p q : α → Bool) :
    (xs.countP fun x => p x || q x) ≤ xs.countP p + xs.countP q := by
  induction xs with
  | nil => exact le_rfl
  | cons x xs ih =>
    rw [List.countP_cons, List.countP_cons, List.countP_cons]
    cases p x <;> cases q x <;> simp <;> omega

end Ledger
