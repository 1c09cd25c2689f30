import Mathlib.Data.List.Sort

set_option relaxedAutoImplicit false
set_option autoImplicit false

/-!
# Pages

A client reads a list that is sorted on a server page by page, with a limit and an offset, while the list changes.
An offset counts rows, so that a row is missed or read twice when others before it have left or have come in the
meantime.

## Main definitions

* `Pages.page` — one page.
* `Pages.Walk` — the pages that are read one after the other, while the rows change.

## Main results

* `Pages.insertionSort_sublist` — rows that are left out leave the order of the others.
* `Pages.mem_take_of_sublist` — a row moves to the front when others are left out.
* `Pages.Walk.complete` — no row is missed if no row leaves.
* `Pages.Walk.nodup` — no row is read twice if no row comes.
* `Pages.Walk.flatten_eq` — the pages are the list if nothing changes.
-/

namespace Pages

variable {α : Type} {r : α → α → Prop}

/-! ## Sorted lists -/

/-- **Rows that are left out leave the order of the others.** -/
theorem insertionSort_sublist [DecidableRel r] [Std.Total r] [IsTrans α r] {rows rows' : List α}
    (h : rows.Sublist rows') : (rows.insertionSort r).Sublist (rows'.insertionSort r) := by
  induction h with
  | slnil => exact .slnil
  | cons a h ih => exact ih.trans (List.sublist_orderedInsert a _)
  | cons_cons a h ih => exact ih.orderedInsert_sublist a (List.pairwise_insertionSort r _)

/-- **A row moves to the front when others are left out.** -/
theorem mem_take_of_sublist {rows rows' : List α} (h : rows.Sublist rows') (hnodup : rows'.Nodup) {x : α}
    (hx : x ∈ rows) {n : ℕ} (hn : x ∈ rows'.take n) : x ∈ rows.take n := by
  induction h generalizing n with
  | slnil => cases hx
  | cons a h ih =>
    obtain ⟨ha, hnodup⟩ := List.nodup_cons.mp hnodup
    cases n with
    | zero => cases hn
    | succ n =>
      have hne : x ≠ a := fun heq => ha (heq ▸ h.subset hx)
      have htail := ih hnodup hx ((List.mem_cons.mp hn).resolve_left hne)
      exact (List.take_sublist_take_left (Nat.le_succ n)).subset htail
  | cons_cons a h ih =>
    obtain ⟨ha, hnodup⟩ := List.nodup_cons.mp hnodup
    cases n with
    | zero => cases hn
    | succ n =>
      by_cases hxa : x = a
      · exact hxa ▸ List.mem_cons_self
      · have hx' := (List.mem_cons.mp hx).resolve_left hxa
        exact List.mem_cons_of_mem _ (ih hnodup hx' ((List.mem_cons.mp hn).resolve_left hxa))

/-! ## Reading page by page -/

/-- **A page**: the rows from an offset on, up to a limit. -/
def page (limit offset : ℕ) (rows : List α) : List α := (rows.drop offset).take limit

/-- What has been read before and with a page. -/
theorem take_append_page (limit offset : ℕ) (rows : List α) :
    rows.take offset ++ page limit offset rows = rows.take (offset + limit) := List.take_add.symm

/-- A page that is not full is the last one. -/
theorem page_eq_drop {limit offset : ℕ} {rows : List α} (h : (page limit offset rows).length < limit) :
    page limit offset rows = rows.drop offset := by
  refine List.take_of_length_le ?_
  rw [page, List.length_take] at h
  omega

/-- **The pages from an offset on**, in which the rows change from one page to the next. -/
inductive Walk (R : List α → List α → Prop) (limit : ℕ) : ℕ → List α → List (List α) → Prop
  | nil (offset : ℕ) (rows : List α) : Walk R limit offset rows []
  | cons {offset : ℕ} {rows rows' : List α} {pages : List (List α)} (hchange : R rows rows')
      (hrest : Walk R limit (offset + limit) rows' pages) :
      Walk R limit offset rows (page limit offset rows' :: pages)

variable {R : List α → List α → Prop} {limit offset : ℕ} {rows : List α} {pages : List (List α)} {x : α}

/-- **No row is missed if no row leaves** and a page has not been full. -/
theorem Walk.complete (hwalk : Walk R limit offset rows pages)
    (hgrow : ∀ {rows rows'}, R rows rows' → rows.Sublist rows' ∧ (rows.Nodup → rows'.Nodup)) (hrows : rows.Nodup)
    (hx : x ∈ rows) (hbeyond : x ∉ rows.take offset) (hlast : ∃ p ∈ pages, p.length < limit) :
    ∃ p ∈ pages, x ∈ p := by
  induction hwalk with
  | nil => simp at hlast
  | @cons offset rows rows' pages hchange hrest ih =>
    obtain ⟨hsub, hkept⟩ := hgrow hchange
    have hnodup := hkept hrows
    have hbeyond' : x ∉ rows'.take offset := fun h => hbeyond (mem_take_of_sublist hsub hnodup hx h)
    by_cases hpage : x ∈ page limit offset rows'
    · exact ⟨_, List.mem_cons_self, hpage⟩
    · have hnext : x ∉ rows'.take (offset + limit) := by
        rw [← take_append_page, List.mem_append, not_or]
        exact ⟨hbeyond', hpage⟩
      obtain ⟨p, hp, hshort⟩ := hlast
      rcases List.mem_cons.mp hp with rfl | hp
      · -- nothing is left beyond a page that is not full
        rw [page_eq_drop hshort] at hpage
        have hmem : x ∈ rows'.take offset ++ rows'.drop offset :=
          (List.take_append_drop offset rows').symm ▸ hsub.subset hx
        exact absurd hmem (by rw [List.mem_append, not_or]; exact ⟨hbeyond', hpage⟩)
      · obtain ⟨q, hq, hxq⟩ := ih hnodup (hsub.subset hx) hnext ⟨p, hp, hshort⟩
        exact ⟨q, List.mem_cons_of_mem _ hq, hxq⟩

/-- What is read later lies beyond the offset, if no row comes. -/
theorem Walk.beyond (hwalk : Walk R limit offset rows pages)
    (hshrink : ∀ {rows rows'}, R rows rows' → rows'.Sublist rows) (hrows : rows.Nodup)
    (hx : x ∈ pages.flatten) : x ∈ rows ∧ x ∉ rows.take offset := by
  induction hwalk with
  | nil => cases hx
  | @cons offset rows rows' pages hchange hrest ih =>
    have hsub := hshrink hchange
    have hnodup := hrows.sublist hsub
    suffices hthere : x ∈ rows' ∧ x ∉ rows'.take offset from
      ⟨hsub.subset hthere.1, fun h => hthere.2 (mem_take_of_sublist hsub hrows hthere.1 h)⟩
    rw [List.flatten_cons, List.mem_append] at hx
    rcases hx with hpage | hlater
    · have hdrop : x ∈ rows'.drop offset := List.mem_of_mem_take hpage
      exact ⟨List.mem_of_mem_drop hdrop, fun h => List.disjoint_take_drop hnodup le_rfl h hdrop⟩
    · obtain ⟨hmem, hbeyond⟩ := ih hnodup hlater
      exact ⟨hmem, fun h => hbeyond ((List.take_sublist_take_left (Nat.le_add_right _ _)).subset h)⟩

/-- **No row is read twice if no row comes.** -/
theorem Walk.nodup (hwalk : Walk R limit offset rows pages)
    (hshrink : ∀ {rows rows'}, R rows rows' → rows'.Sublist rows) (hrows : rows.Nodup) :
    pages.flatten.Nodup := by
  induction hwalk with
  | nil => exact List.nodup_nil
  | @cons offset rows rows' pages hchange hrest ih =>
    have hnodup := hrows.sublist (hshrink hchange)
    rw [List.flatten_cons, List.nodup_append']
    refine ⟨hnodup.sublist ((List.take_sublist _ _).trans (List.drop_sublist _ _)), ih hnodup, fun x hx hlater => ?_⟩
    refine (hrest.beyond hshrink hnodup hlater).2 ?_
    rw [← take_append_page]
    exact List.mem_append_right _ hx

/-- The pages of a list that does not change. -/
theorem Walk.flatten_eq_take (hwalk : Walk R limit offset rows pages)
    (hsame : ∀ {rows rows'}, R rows rows' → rows' = rows) :
    pages.flatten = (rows.drop offset).take (pages.length * limit) := by
  induction hwalk with
  | nil => simp
  | @cons offset rows rows' pages hchange hrest ih =>
    obtain rfl := hsame hchange
    have hlength : (page limit offset rows' :: pages).length * limit = limit + pages.length * limit := by
      rw [List.length_cons, Nat.succ_mul, Nat.add_comm]
    rw [List.flatten_cons, ih, hlength, List.take_add, List.drop_drop, page]

/-- **The pages are the list if nothing changes** and a page has not been full. -/
theorem Walk.flatten_eq (hwalk : Walk R limit offset rows pages)
    (hsame : ∀ {rows rows'}, R rows rows' → rows' = rows) (hlast : ∃ p ∈ pages, p.length < limit) :
    pages.flatten = rows.drop offset := by
  induction hwalk with
  | nil => simp at hlast
  | @cons offset rows rows' pages hchange hrest ih =>
    obtain rfl := hsame hchange
    rw [List.flatten_cons]
    obtain ⟨p, hp, hshort⟩ := hlast
    rcases List.mem_cons.mp hp with rfl | hp
    · have hdrop := page_eq_drop hshort
      have hbeyond : rows'.drop (offset + limit) = [] := by
        rw [List.drop_eq_nil_iff]
        rw [hdrop, List.length_drop] at hshort
        omega
      rw [hdrop, hrest.flatten_eq_take hsame, hbeyond, List.take_nil, List.append_nil]
    · rw [ih ⟨p, hp, hshort⟩, page, ← List.drop_drop]
      exact List.take_append_drop _ _

end Pages
