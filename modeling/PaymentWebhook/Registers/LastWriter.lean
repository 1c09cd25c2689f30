import Mathlib.Order.Bounds.Basic

set_option relaxedAutoImplicit false
set_option autoImplicit false

/-!
# Last-writer-wins registers with two kinds of writers

A register keeps a value and a stamp.  A weak write replaces it if its own stamp is greater, a
strong write also if the stamps are equal.  The writes arrive in any order; what the register holds
in the end depends on the set of writes only, as long as no two of them disagree on the value for
one stamp.

## Main definitions

* `LastWriter.Write`, `LastWriter.Register` — writes and registers.
* `LastWriter.Holds` — what a register holds after a set of writes.

## Main results

* `LastWriter.Holds.overwrite`, `LastWriter.Holds.skip` — a write that takes effect, and one that
  does not.
* `LastWriter.Holds.unique` — the set of writes determines the register.
-/

namespace LastWriter

variable {ν σ : Type}

/-- A write; `strong` if it replaces a value with the same stamp. -/
structure Write (ν σ : Type) where
  value : ν
  stamp : σ
  strong : Bool

/-- A value and the stamp of the write that it is from. -/
structure Register (ν σ : Type) where
  value : ν
  stamp : σ

/-- No two writes disagree on the value for one stamp. -/
def Consistent (I : Set (Write ν σ)) : Prop :=
  ∀ i ∈ I, ∀ j ∈ I, i.stamp = j.stamp → i.value = j.value

variable [LinearOrder σ] {init r r' : Register ν σ} {i : Write ν σ} {I J : Set (Write ν σ)}

/-- **What a register holds** that started as `init` and has received the writes `I`. -/
structure Holds (init : Register ν σ) (I : Set (Write ν σ)) (r : Register ν σ) : Prop where
  greatest : IsGreatest (insert init.stamp (Write.stamp '' I)) r.stamp
  value : Consistent I → ∀ i ∈ I, i.stamp = r.stamp → (init.stamp < i.stamp ∨ i.strong) →
    r.value = i.value
  initial : r.stamp = init.stamp → (∀ i ∈ I, i.stamp = init.stamp → i.strong = false) →
    r.value = init.value

omit [LinearOrder σ] in
theorem Consistent.mono (h : Consistent J) (hIJ : I ⊆ J) : Consistent I :=
  fun i hi j hj => h i (hIJ hi) j (hIJ hj)

namespace Holds

/-- Before any write. -/
theorem empty (init : Register ν σ) : Holds init ∅ init where
  greatest := by simp
  value := by simp
  initial := fun _ _ => rfl

theorem init_le (h : Holds init I r) : init.stamp ≤ r.stamp := h.greatest.2 (Set.mem_insert _ _)

theorem le (h : Holds init I r) (hi : i ∈ I) : i.stamp ≤ r.stamp :=
  h.greatest.2 (Set.mem_insert_of_mem _ ⟨i, hi, rfl⟩)

/-- The stamp is that of a write, unless it is still the first one. -/
theorem attained (h : Holds init I r) : r.stamp = init.stamp ∨ ∃ i ∈ I, i.stamp = r.stamp := by
  rcases h.greatest.1 with heq | ⟨i, hi, heq⟩
  · exact .inl heq
  · exact .inr ⟨i, hi, heq⟩

/-- A further write whose stamp is not beyond the greatest one leaves it the greatest. -/
theorem greatest_insert (hg : IsGreatest (insert init.stamp (Write.stamp '' I)) r.stamp)
    (hi : i.stamp ≤ r.stamp) :
    IsGreatest (insert init.stamp (Write.stamp '' insert i I)) r.stamp := by
  rw [Set.image_insert_eq, Set.insert_comm]
  refine ⟨Set.mem_insert_of_mem _ hg.1, ?_⟩
  rintro x (rfl | hx)
  · exact hi
  · exact hg.2 hx

/-- **A write that takes effect.** -/
theorem overwrite (h : Holds init I r) (hle : r.stamp ≤ i.stamp)
    (hstrong : r.stamp < i.stamp ∨ i.strong) : Holds init (insert i I) ⟨i.value, i.stamp⟩ where
  greatest := by
    rw [Set.image_insert_eq, Set.insert_comm]
    refine ⟨Set.mem_insert _ _, ?_⟩
    rintro x (rfl | hx)
    · exact le_rfl
    · exact (h.greatest.2 hx).trans hle
  value := fun hcons j hj hstamp _ =>
    hcons i (Set.mem_insert _ _) j hj hstamp.symm
  initial := fun hstamp hweak => by
    have hnot : i.strong = false := hweak i (Set.mem_insert _ _) hstamp
    rcases hstrong with hlt | hstrong
    · have hlt' : r.stamp < init.stamp := hlt.trans_eq hstamp
      exact absurd h.init_le hlt'.not_ge
    · rw [hnot] at hstrong
      cases hstrong

/-- **A write that takes no effect.** -/
theorem skip (h : Holds init I r)
    (hi : i.stamp < r.stamp ∨ i.stamp ≤ r.stamp ∧ i.strong = false) :
    Holds init (insert i I) r where
  greatest := by
    have hle : i.stamp ≤ r.stamp := hi.elim le_of_lt And.left
    exact greatest_insert h.greatest hle
  value := fun hcons j hj hstamp hj' => by
    have hold := hcons.mono (Set.subset_insert i I)
    rcases hj with rfl | hj
    · -- the new write: the register's value is from another write with the same stamp
      rcases hi with hlt | ⟨-, hweak⟩
      · exact absurd hstamp hlt.ne
      · have hinit : init.stamp < r.stamp := by
          rw [hweak] at hj'
          exact hstamp ▸ hj'.resolve_right (by simp)
        rcases h.attained with heq | ⟨j', hj', hstamp'⟩
        · exact absurd heq hinit.ne'
        · rw [h.value hold j' hj' hstamp' (.inl (hstamp' ▸ hinit))]
          exact hcons j' (Set.mem_insert_of_mem _ hj') _ (Set.mem_insert _ _)
            (hstamp'.trans hstamp.symm)
    · exact h.value hold j hj hstamp hj'
  initial := fun hstamp hweak => h.initial hstamp fun j hj => hweak j (Set.mem_insert_of_mem _ hj)

/-- **The set of writes determines the register.** -/
theorem unique (hcons : Consistent I) (h : Holds init I r) (h' : Holds init I r') : r = r' := by
  have hstamp : r.stamp = r'.stamp := h.greatest.unique h'.greatest
  have hvalue : r.value = r'.value := by
    by_cases hex : ∃ i ∈ I, i.stamp = r.stamp ∧ (init.stamp < i.stamp ∨ i.strong)
    · obtain ⟨i, hi, heq, hor⟩ := hex
      rw [h.value hcons i hi heq hor, h'.value hcons i hi (heq.trans hstamp) hor]
    · push Not at hex
      have hinit : r.stamp = init.stamp := by
        rcases h.attained with heq | ⟨i, hi, heq⟩
        · exact heq
        · exact le_antisymm (heq ▸ (hex i hi heq).1) h.init_le
      have hweak : ∀ i ∈ I, i.stamp = init.stamp → i.strong = false := fun i hi heq => by
        simpa using (hex i hi (heq.trans hinit.symm)).2
      rw [h.initial hinit hweak, h'.initial (hstamp.symm.trans hinit) hweak]
  cases r
  cases r'
  simp only at hstamp hvalue
  rw [hstamp, hvalue]

end Holds

end LastWriter
