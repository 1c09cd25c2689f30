import Mathlib.Data.List.Basic

set_option relaxedAutoImplicit false
set_option autoImplicit false

/-!
# Tables with unique keys

A table is the list of its rows, oldest first.  A row has a list of keys, one for each unique
index it appears in, and no two rows of a well-formed table share one.

## Main definitions

* `Tables.find` — the row that has a key.
* `Tables.replace` — a new version of a row in the place of the old one.
* `Tables.put` — a row with one key, inserted or replaced.
* `Tables.Keyed` — no key is taken twice.

## Main results

* `Tables.find_append`, `Tables.find_replace` — what is found after an insertion and after an
  update.
* `Tables.exists_replace` — an update changes exactly one row.
-/

namespace Tables

variable {ρ κ : Type} [DecidableEq κ] (keys : ρ → List κ)

/-- The row that has a key. -/
def find (k : κ) (t : List ρ) : Option ρ := t.find? (fun r => k ∈ keys r)

/-- The table with the new version `r` of a row in the place of the old one. -/
def replace (r : ρ) (t : List ρ) : List ρ := t.map fun x => if keys x = keys r then r else x

/-- The table with the row `r` under its only key `k`, inserted or replaced. -/
def put (k : κ) (r : ρ) (t : List ρ) : List ρ :=
  if (find keys k t).isSome then replace keys r t else t ++ [r]

/-- No key is taken twice. -/
def Keyed (t : List ρ) : Prop := t.Pairwise fun r r' => ∀ k ∈ keys r, k ∉ keys r'

variable {keys} {t : List ρ} {r x : ρ} {k : κ}

@[simp] theorem find_nil : find keys k ([] : List ρ) = none := rfl

omit [DecidableEq κ] in
@[simp] theorem keyed_nil : Keyed keys ([] : List ρ) := List.Pairwise.nil

theorem mem_of_find (h : find keys k t = some r) : r ∈ t ∧ k ∈ keys r :=
  ⟨List.mem_of_find?_eq_some h, by simpa using List.find?_some h⟩

theorem find_eq_none : find keys k t = none ↔ ∀ r ∈ t, k ∉ keys r := by
  simp [find]

omit [DecidableEq κ] in
/-- Two rows of a well-formed table that share a key are one. -/
theorem Keyed.eq_of_mem (ht : Keyed keys t) {r r' : ρ} (h : r ∈ t) (h' : r' ∈ t)
    (hk : k ∈ keys r) (hk' : k ∈ keys r') : r = r' := by
  induction t with
  | nil => cases h
  | cons a t ih =>
    obtain ⟨ha, ht⟩ := List.pairwise_cons.mp ht
    rcases List.mem_cons.mp h with e | hr <;> rcases List.mem_cons.mp h' with e' | hr'
    · rw [e, e']
    · exact absurd hk' (ha r' hr' k (e ▸ hk))
    · exact absurd hk (ha r hr k (e' ▸ hk'))
    · exact ih ht hr hr'

/-- In a well-formed table a row is found under each of its keys. -/
theorem Keyed.find_eq (ht : Keyed keys t) (hr : r ∈ t) (hk : k ∈ keys r) :
    find keys k t = some r := by
  cases h : find keys k t with
  | none => exact absurd hk (find_eq_none.mp h r hr)
  | some r' =>
    obtain ⟨hr', hk'⟩ := mem_of_find h
    rw [ht.eq_of_mem hr hr' hk hk']

/-! ## Insertion -/

theorem find_append (k : κ) (h : ∀ k ∈ keys r, find keys k t = none) :
    find keys k (t ++ [r]) = if k ∈ keys r then some r else find keys k t := by
  by_cases hk : k ∈ keys r
  · have hn : t.find? (fun r => decide (k ∈ keys r)) = none := h k hk
    simp [find, List.find?_append, hn, hk]
  · simp [find, List.find?_append, hk]

theorem Keyed.append (ht : Keyed keys t) (h : ∀ k ∈ keys r, find keys k t = none) :
    Keyed keys (t ++ [r]) := by
  refine List.pairwise_append.mpr ⟨ht, by simp, fun a ha b hb k hk => ?_⟩
  obtain rfl := List.mem_singleton.mp hb
  exact fun hkb => find_eq_none.mp (h k hkb) a ha hk

/-! ## Update -/

theorem keys_replace (r : ρ) (t : List ρ) :
    (replace keys r t).map keys = t.map keys := by
  simp only [replace, List.map_map]
  refine List.map_congr_left fun x _ => ?_
  by_cases h : keys x = keys r <;> simp [h]

theorem Keyed.replace (ht : Keyed keys t) : Keyed keys (replace keys r t) := by
  have h : ∀ t : List ρ, Keyed keys t ↔ (t.map keys).Pairwise fun l l' => ∀ k ∈ l, k ∉ l' :=
    fun t => by rw [List.pairwise_map]; rfl
  rw [h, keys_replace, ← h]
  exact ht

/-- **An update changes exactly one row.** -/
theorem exists_replace (ht : Keyed keys t) (hx : x ∈ t) (hk : keys x = keys r)
    (hne : keys r ≠ []) :
    ∃ l₁ l₂, t = l₁ ++ x :: l₂ ∧ replace keys r t = l₁ ++ r :: l₂ := by
  obtain ⟨l₁, l₂, rfl⟩ := List.mem_iff_append.mp hx
  refine ⟨l₁, l₂, rfl, ?_⟩
  obtain ⟨k, hkr⟩ := List.exists_mem_of_ne_nil _ hne
  obtain ⟨h₁, h₂, h₁₂⟩ := List.pairwise_append.mp ht
  have hl₁ : ∀ a ∈ l₁, keys a ≠ keys r := fun a ha e =>
    h₁₂ a ha x (by simp) k (e ▸ hkr) (hk ▸ hkr)
  have hl₂ : ∀ a ∈ l₂, keys a ≠ keys r := fun a ha e =>
    (List.pairwise_cons.mp h₂).1 a ha k (hk ▸ hkr) (e ▸ hkr)
  have hid : ∀ l : List ρ, (∀ a ∈ l, keys a ≠ keys r) → replace keys r l = l := by
    intro l hl
    refine (List.map_congr_left fun a ha => ?_).trans (List.map_id l)
    simp [hl a ha]
  have happ : Tables.replace keys r (l₁ ++ x :: l₂) =
      replace keys r l₁ ++ r :: replace keys r l₂ := by
    simp [replace, hk]
  rw [happ, hid l₁ hl₁, hid l₂ hl₂]

theorem find_replace (ht : Keyed keys t) (hx : x ∈ t) (hk : keys x = keys r) (k : κ) :
    find keys k (replace keys r t) = if k ∈ keys r then some r else find keys k t := by
  by_cases hkr : k ∈ keys r
  · have hne : keys r ≠ [] := List.ne_nil_of_mem hkr
    obtain ⟨l₁, l₂, -, he⟩ := exists_replace ht hx hk hne
    rw [if_pos hkr]
    exact ht.replace.find_eq (by rw [he]; simp) hkr
  · rw [if_neg hkr, find, find, replace, List.find?_map]
    have hp : ((fun r => decide (k ∈ keys r)) ∘ fun x => if keys x = keys r then r else x) =
        fun x => decide (k ∈ keys x) := by
      funext x
      by_cases h : keys x = keys r <;> simp [h, hkr]
    rw [hp]
    cases h : t.find? (fun x => decide (k ∈ keys x)) with
    | none => rfl
    | some y =>
      have hy : k ∈ keys y := by simpa using List.find?_some h
      have hyr : keys y ≠ keys r := fun e => hkr (e ▸ hy)
      simp [hyr]

/-- What is in a table after an update: the new version, and the other rows. -/
theorem mem_replace (ht : Keyed keys t) (hx : x ∈ t) (hk : keys x = keys r) (hne : keys r ≠ [])
    {y : ρ} : y ∈ replace keys r t ↔ y = r ∨ (y ∈ t ∧ y ≠ x) := by
  obtain ⟨l₁, l₂, rfl, he⟩ := exists_replace ht hx hk hne
  obtain ⟨k, hkx⟩ := List.exists_mem_of_ne_nil _ (hk ▸ hne)
  obtain ⟨-, h₂, h₁₂⟩ := List.pairwise_append.mp ht
  have hl₁ : x ∉ l₁ := fun h => h₁₂ x h x (by simp) k hkx hkx
  have hl₂ : x ∉ l₂ := fun h => (List.pairwise_cons.mp h₂).1 x h k hkx hkx
  rw [he]
  simp only [List.mem_append, List.mem_cons]
  constructor
  · rintro (h | rfl | h)
    · exact .inr ⟨.inl h, fun e => hl₁ (e ▸ h)⟩
    · exact .inl rfl
    · exact .inr ⟨.inr (.inr h), fun e => hl₂ (e ▸ h)⟩
  · rintro (rfl | ⟨h | rfl | h, hne⟩)
    · exact .inr (.inl rfl)
    · exact .inl h
    · exact absurd rfl hne
    · exact .inr (.inr h)

/-! ## Insertion or update -/

/-- Replacing a row that is not there changes nothing. -/
theorem replace_of_forall_ne (h : ∀ x ∈ t, keys x ≠ keys r) : replace keys r t = t := by
  refine (List.map_congr_left fun x hx => ?_).trans (List.map_id t)
  simp [h x hx]

section Put

variable (hkeys : ∀ x, k ∈ keys x → keys x = [k]) (hr : keys r = [k])

include hkeys hr

theorem put_of_find_some (h : find keys k t = some x) :
    x ∈ t ∧ keys x = keys r ∧ put keys k r t = replace keys r t := by
  obtain ⟨hx, hk⟩ := mem_of_find h
  exact ⟨hx, by rw [hr, hkeys x hk], by simp [put, h]⟩

omit hkeys in
theorem put_of_find_none (h : find keys k t = none) :
    (∀ k' ∈ keys r, find keys k' t = none) ∧ put keys k r t = t ++ [r] :=
  ⟨by simpa [hr] using h, by simp [put, h]⟩

/-- Which row is found after one has been written. -/
theorem find_put (ht : Keyed keys t) (k' : κ) :
    find keys k' (put keys k r t) = if k' = k then some r else find keys k' t := by
  have hiff : (k' ∈ keys r) = (k' = k) := by simp [hr]
  cases h : find keys k t with
  | none =>
    obtain ⟨hfresh, he⟩ := put_of_find_none hr h
    simp only [he, find_append k' hfresh, hiff]
  | some x =>
    obtain ⟨hx, hk, he⟩ := put_of_find_some hkeys hr h
    simp only [he, find_replace ht hx hk, hiff]

theorem Keyed.put (ht : Keyed keys t) : Keyed keys (put keys k r t) := by
  cases h : find keys k t with
  | none =>
    obtain ⟨hfresh, he⟩ := put_of_find_none hr h
    exact he ▸ ht.append hfresh
  | some x => exact (put_of_find_some hkeys hr h).2.2 ▸ ht.replace

/-- Which rows are in a table after one has been written. -/
theorem mem_put (ht : Keyed keys t) {y : ρ} :
    y ∈ put keys k r t ↔ y = r ∨ (y ∈ t ∧ k ∉ keys y) := by
  cases h : find keys k t with
  | none =>
    have hno := find_eq_none.mp h
    rw [(put_of_find_none hr h).2, List.mem_append, List.mem_singleton]
    exact ⟨fun h => h.symm.imp_right fun hy => ⟨hy, hno y hy⟩, fun h => h.symm.imp_left And.left⟩
  | some x =>
    obtain ⟨hx, hk, he⟩ := put_of_find_some hkeys hr h
    rw [he, mem_replace ht hx hk (by simp [hr])]
    refine or_congr_right (and_congr_right fun hy => not_congr ⟨fun e => ?_, fun hky => ?_⟩)
    · rw [e, hk, hr]
      simp
    · exact ht.eq_of_mem hy hx hky (by simp [hk, hr])

/-- Writing the row that is there changes nothing. -/
theorem put_self (ht : Keyed keys t) (h : find keys k t = some r) : put keys k r t = t := by
  obtain ⟨hx, hk, he⟩ := put_of_find_some hkeys hr h
  obtain ⟨l₁, l₂, h₁, h₂⟩ := exists_replace ht hx hk (by simp [hr])
  rw [he, h₂, ← h₁]

/-- Of two writes of one row the second counts. -/
theorem put_put (ht : Keyed keys t) {r' : ρ} (hr' : keys r' = [k]) :
    put keys k r' (put keys k r t) = put keys k r' t := by
  have hfound : find keys k (put keys k r t) = some r := by simp [find_put hkeys hr ht]
  rw [(put_of_find_some hkeys hr' hfound).2.2]
  cases h : find keys k t with
  | none =>
    have hne : ∀ x ∈ t, keys x ≠ keys r' := fun x hx e =>
      find_eq_none.mp h x hx (by simp [e, hr'])
    rw [(put_of_find_none hr h).2, (put_of_find_none hr' h).2]
    have happ : replace keys r' (t ++ [r]) = replace keys r' t ++ [r'] := by
      simp [replace, hr, hr']
    rw [happ, replace_of_forall_ne hne]
  | some x =>
    rw [(put_of_find_some hkeys hr h).2.2, (put_of_find_some hkeys hr' h).2.2]
    simp only [replace, List.map_map]
    refine List.map_congr_left fun y _ => ?_
    by_cases hy : keys y = [k] <;> simp [hr, hr', hy]

end Put

end Tables
