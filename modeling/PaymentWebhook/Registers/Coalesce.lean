import Mathlib.Order.Bounds.Basic

set_option relaxedAutoImplicit false
set_option autoImplicit false

/-!
# Registers with optional writes

A register keeps an optional value.  Writes come with growing stamps; a write that carries a value
replaces the old one, a write that carries none keeps it.  Writes whose stamps come too late are
dropped, so that what the register holds depends on which writes have got through.

## Main definitions

* `Coalesce.Holds` — what a register holds after a set of writes.

## Main results

* `Coalesce.Holds.push` — one more write.
* `Coalesce.Holds.of_greatest`, `Coalesce.Holds.eq_none` — what can be said of the value.
-/

namespace Coalesce

variable {σ α : Type} [LinearOrder σ] {I : Set (σ × Option α)} {v x : Option α} {t : σ}

/-- **What a register holds** after the writes `I`: the value that the write with the greatest stamp
carries, of those that carry one. -/
structure Holds (I : Set (σ × Option α)) (v : Option α) : Prop where
  nothing : v = none → ∀ i ∈ I, i.2 = none
  latest : ∀ a, v = some a → ∃ s, (s, some a) ∈ I ∧ ∀ i ∈ I, i.2.isSome → i.1 ≤ s

namespace Holds

/-- Before any write. -/
theorem empty : Holds (∅ : Set (σ × Option α)) none where
  nothing := by simp
  latest := by simp

/-- **One more write**, with a greater stamp. -/
theorem push (h : Holds I v) (hlt : ∀ i ∈ I, i.1 < t) : Holds (insert (t, x) I) (x.or v) := by
  cases x with
  | none =>
    refine ⟨fun hv i hi => ?_, fun a hv => ?_⟩
    · rcases hi with rfl | hi
      · rfl
      · exact h.nothing hv i hi
    · obtain ⟨s, hs, hle⟩ := h.latest a hv
      refine ⟨s, Set.mem_insert_of_mem _ hs, ?_⟩
      rintro i (rfl | hi) hsome
      · cases hsome
      · exact hle i hi hsome
  | some b =>
    refine ⟨nofun, fun a hv => ?_⟩
    obtain rfl : b = a := Option.some.inj hv
    refine ⟨t, Set.mem_insert _ _, ?_⟩
    rintro i (rfl | hi) -
    · exact le_rfl
    · exact (hlt i hi).le

/-- A register that nothing has been written to holds nothing. -/
theorem eq_none (h : Holds I v) (hnone : ∀ i ∈ I, i.2 = none) : v = none := by
  cases v with
  | none => rfl
  | some a =>
    obtain ⟨s, hs, -⟩ := h.latest a rfl
    exact absurd (hnone _ hs) (by simp)

/-- **The write with the greatest stamp** has its value in the register, if it carries one and no
other write has its stamp. -/
theorem of_greatest (h : Holds I v) {a : α} (hmem : (t, some a) ∈ I) (hle : ∀ i ∈ I, i.1 ≤ t)
    (hunique : ∀ i ∈ I, i.1 = t → i.2 = some a) : v = some a := by
  cases v with
  | none => exact absurd (h.nothing rfl _ hmem) (by simp)
  | some b =>
    obtain ⟨s, hs, hlatest⟩ := h.latest b rfl
    have heq : s = t := le_antisymm (hle _ hs) (hlatest _ hmem rfl)
    exact hunique _ hs heq

end Holds

end Coalesce
