import Mathlib.Algebra.Order.BigOperators.Group.List
import PaymentWebhook.Sanitize

set_option relaxedAutoImplicit false
set_option autoImplicit false

/-!
# What redaction leaves

The replacements of `sanitizeError`, one by one: none of them brings back what an earlier one has
removed, because the texts they insert are fenced off by characters that no word contains.

## Main definitions

* `PaymentWebhook.containsWord` — a text contains a word, in any case.
* `PaymentWebhook.HasPayload` — a text contains a long block in braces.
* `PaymentWebhook.Redactable` — the words whose redaction is safe.

## Main results

* `PaymentWebhook.not_containsWord_redactWord`, `PaymentWebhook.containsWord_redactWord` — a redacted
  word is gone, and no other word has appeared.
* `PaymentWebhook.not_hasPayload_redactPayload` — no long block is left.
* `PaymentWebhook.sanitizeError_clean` — the result of `sanitizeError` is clean and short.
-/

namespace PaymentWebhook

/-- The text contains the word, in any case. -/
def containsWord (word : List Char) : List Char → Bool
  | [] => (afterWord word []).isSome
  | c :: s => (afterWord word (c :: s)).isSome || containsWord word s

/-- The text contains a `{` followed by 200 or more characters and a `}`. -/
def HasPayload (s : List Char) : Prop :=
  ∃ before inner after, s = before ++ '{' :: (inner ++ '}' :: after) ∧ 200 ≤ jsLength inner

/-- The characters that fence off what redaction inserts. -/
def fences : List Char := ['[', ']', '{', '}', '.', '\ufffd']

/-- **A word that can be redacted**: it contains no fence, and the inserted texts do not contain it. -/
structure Redactable (word : List Char) : Prop where
  ne_nil : word ≠ []
  unfenced : ∀ fence ∈ fences, ∀ x ∈ word, fence.toLower ≠ x.toLower
  redacted : containsWord word "REDACTED".toList = false
  payload : containsWord word "PAYLOAD_REDACTED".toList = false

theorem redactable_webhook_secret : Redactable "WEBHOOK_SECRET".toList :=
  ⟨by decide, by simp [fences], by decide, by decide⟩

theorem redactable_password : Redactable "password".toList :=
  ⟨by decide, by simp [fences], by decide, by decide⟩

theorem redactable_secret : Redactable "secret".toList :=
  ⟨by decide, by simp [fences], by decide, by decide⟩

variable {word v s a b t : List Char} {fence : Char}

/-! ## Words -/

/-- What follows a word is the end of the text. -/
theorem suffix_of_afterWord (h : afterWord word s = some t) : t <:+ s := by
  induction word generalizing s with
  | nil => exact Option.some.inj h ▸ List.suffix_refl _
  | cons x word ih =>
    cases s with
    | nil => cases h
    | cons c s =>
      simp only [afterWord] at h
      split at h
      · exact (ih h).trans (List.suffix_cons _ _)
      · cases h

/-- A word has at least one character. -/
theorem suffix_tail_of_afterWord {c : Char} (hne : word ≠ []) (h : afterWord word (c :: s) = some t) :
    t <:+ s := by
  cases word with
  | nil => exact absurd rfl hne
  | cons x word =>
    simp only [afterWord] at h
    split at h
    · exact suffix_of_afterWord h
    · cases h

/-- No word reaches over a fence. -/
theorem afterWord_append_fence (h : ∀ x ∈ word, fence.toLower ≠ x.toLower) :
    (afterWord word (a ++ fence :: b)).isSome = (afterWord word a).isSome := by
  induction word generalizing a with
  | nil => rfl
  | cons x word ih =>
    cases a with
    | nil => simp [afterWord, h x (by simp)]
    | cons c a =>
      simp only [List.cons_append, afterWord]
      split
      · exact ih fun x hx => h x (by simp [hx])
      · rfl

/-- The words of a text with a fence are those before it and those after it. -/
theorem containsWord_append_fence (h : ∀ x ∈ word, fence.toLower ≠ x.toLower) :
    containsWord word (a ++ fence :: b) = (containsWord word a || containsWord word b) := by
  induction a with
  | nil =>
    have hnil := afterWord_append_fence (a := []) (b := b) h
    rw [List.nil_append] at hnil ⊢
    simp only [containsWord, hnil]
  | cons c a ih =>
    have hcons := afterWord_append_fence (a := c :: a) (b := b) h
    rw [List.cons_append] at hcons ⊢
    rw [containsWord, hcons, ih, containsWord, Bool.or_assoc]

/-- The empty text contains no word. -/
theorem containsWord_nil (h : word ≠ []) : containsWord word [] = false := by
  cases word with
  | nil => exact absurd rfl h
  | cons x word => rfl

/-- The words of the end of a text are words of the text. -/
theorem containsWord_suffix (h : t <:+ s) (hw : containsWord word t = true) :
    containsWord word s = true := by
  obtain ⟨a, rfl⟩ := h
  induction a with
  | nil => exact hw
  | cons c a ih => rw [List.cons_append, containsWord, ih, Bool.or_true]

/-- The words of the beginning of a text are words of the text. -/
theorem afterWord_append_left (h : (afterWord word a).isSome = true) :
    (afterWord word (a ++ b)).isSome = true := by
  induction word generalizing a with
  | nil => rfl
  | cons x word ih =>
    cases a with
    | nil => cases h
    | cons c a =>
      simp only [List.cons_append, afterWord] at h ⊢
      split at h
      next hc =>
        rw [if_pos hc]
        exact ih h
      next => cases h

theorem containsWord_append (hne : word ≠ []) (h : containsWord word a = true) :
    containsWord word (a ++ b) = true := by
  induction a with
  | nil => simp [containsWord_nil hne] at h
  | cons c a ih =>
    rw [List.cons_append, containsWord, Bool.or_eq_true]
    rw [containsWord, Bool.or_eq_true] at h
    exact h.imp (fun h => afterWord_append_left (a := c :: a) h) ih

theorem containsWord_of_afterWord (h : (afterWord word s).isSome = true) : containsWord word s = true := by
  cases s with
  | nil => exact h
  | cons c s => rw [containsWord, h, Bool.true_or]

/-- One word after the other. -/
theorem afterWord_append : afterWord (v ++ word) s = (afterWord v s).bind (afterWord word) := by
  induction v generalizing s with
  | nil => rfl
  | cons x v ih =>
    cases s with
    | nil => rfl
    | cons c s =>
      simp only [List.cons_append, afterWord]
      split
      · exact ih
      · rfl

/-- A text that contains a word contains the end of the word. -/
theorem containsWord_of_append (h : containsWord (v ++ word) s = true) :
    containsWord word s = true := by
  have hhead : ∀ {s}, (afterWord (v ++ word) s).isSome = true → containsWord word s = true := by
    intro s h
    rw [afterWord_append] at h
    cases hv : afterWord v s with
    | none => simp [hv] at h
    | some t =>
      rw [hv, Option.bind_some] at h
      exact containsWord_suffix (suffix_of_afterWord hv) (containsWord_of_afterWord h)
  induction s with
  | nil => exact hhead h
  | cons c s ih =>
    rw [containsWord, Bool.or_eq_true] at h
    rcases h with h | h
    · exact hhead h
    · exact containsWord_suffix (List.suffix_cons _ _) (ih h)

/-- The case of a word does not matter. -/
theorem containsWord_congr (h : v.map Char.toLower = word.map Char.toLower) :
    containsWord v s = containsWord word s := by
  have hafter : ∀ {v word : List Char} {s}, v.map Char.toLower = word.map Char.toLower →
      afterWord v s = afterWord word s := by
    intro v
    induction v with
    | nil =>
      intro word s h
      obtain rfl := List.map_eq_nil_iff.mp h.symm
      rfl
    | cons x v ih =>
      intro word s h
      cases word with
      | nil => cases h
      | cons y word =>
        obtain ⟨hx, hv⟩ := List.cons_eq_cons.mp h
        cases s with
        | nil => rfl
        | cons c s => simp only [afterWord, hx, ih hv]
  induction s with
  | nil => rw [containsWord, containsWord, hafter h]
  | cons c s ih => rw [containsWord, containsWord, hafter h, ih]

/-- What is inserted for a word contains no other one. -/
theorem Redactable.containsWord_redacted (hv : Redactable v) :
    containsWord v ("[REDACTED]".toList ++ b) = containsWord v b := by
  have hlit : "[REDACTED]".toList ++ b = [] ++ '[' :: ("REDACTED".toList ++ ']' :: b) := rfl
  rw [hlit, containsWord_append_fence (hv.unfenced '[' (by decide)), containsWord_nil hv.ne_nil,
    containsWord_append_fence (hv.unfenced ']' (by decide)), hv.redacted, Bool.false_or, Bool.false_or]

/-- A redaction that leaves a character leaves the words that begin with it. -/
theorem afterWord_redactWordFrom (word : List Char) (fuel : ℕ) (s : List Char)
    (hv : ∀ x ∈ v, '['.toLower ≠ x.toLower)
    (h : (afterWord v (redactWordFrom word fuel s)).isSome = true) : (afterWord v s).isSome = true := by
  induction v generalizing fuel s with
  | nil => rfl
  | cons x v ih =>
    match fuel, s with
    | 0, _ => exact h
    | _ + 1, [] => exact h
    | fuel + 1, c :: s =>
      simp only [redactWordFrom] at h
      split at h
      next after hafter =>
        have hx := hv x (by simp)
        have hlit : "[REDACTED]".toList ++ redactWordFrom word fuel (after.dropWhile fun c => !jsSpace c) =
          '[' :: ("REDACTED]".toList ++ redactWordFrom word fuel (after.dropWhile fun c => !jsSpace c)) := rfl
        rw [hlit] at h
        simp only [afterWord, if_neg hx] at h
        cases h
      next =>
        simp only [afterWord] at h ⊢
        split at h
        next hc =>
          rw [if_pos hc]
          exact ih fuel s (fun x hx => hv x (by simp [hx])) h
        next => cases h

/-- **Redaction creates no word.** -/
theorem Redactable.containsWord_redactWordFrom (hv : Redactable v) {fuel : ℕ}
    (h : containsWord v (redactWordFrom word fuel s) = true) : containsWord v s = true := by
  induction fuel generalizing s with
  | zero => exact h
  | succ fuel ih =>
    cases s with
    | nil => exact h
    | cons c s =>
      have hhead := afterWord_redactWordFrom word (fuel + 1) (c :: s) (hv.unfenced '[' (by decide))
      simp only [redactWordFrom] at h hhead
      split at h
      next after hafter =>
        rw [hv.containsWord_redacted] at h
        exact containsWord_suffix ((List.dropWhile_suffix _).trans (suffix_of_afterWord hafter)) (ih h)
      next hnone =>
        rw [hnone] at hhead
        rw [containsWord, Bool.or_eq_true] at h ⊢
        exact h.imp hhead ih

/-- **Redaction leaves no occurrence of its word.** -/
theorem Redactable.not_containsWord_redactWordFrom (hw : Redactable word) {fuel : ℕ}
    (hfuel : s.length ≤ fuel) : containsWord word (redactWordFrom word fuel s) = false := by
  induction fuel generalizing s with
  | zero =>
    obtain rfl := List.length_eq_zero_iff.mp (Nat.le_zero.mp hfuel)
    exact containsWord_nil hw.ne_nil
  | succ fuel ih =>
    cases s with
    | nil => exact containsWord_nil hw.ne_nil
    | cons c s =>
      have hhead := afterWord_redactWordFrom word (fuel + 1) (c :: s) (hw.unfenced '[' (by decide))
      simp only [redactWordFrom] at hhead ⊢
      split
      next after hafter =>
        rw [hw.containsWord_redacted]
        have hsuffix := suffix_tail_of_afterWord hw.ne_nil hafter
        have hlength := ((List.dropWhile_suffix (fun c => !jsSpace c)).trans hsuffix).length_le
        exact ih (by simp only [List.length_cons] at hfuel; omega)
      next hnone =>
        rw [hnone] at hhead
        rw [containsWord, ih (by simpa using hfuel), Bool.or_false]
        exact Bool.eq_false_iff.mpr fun h => by simpa using hhead h

/-- **A redacted word is gone.** -/
theorem not_containsWord_redactWord {w : String} (hw : Redactable w.toList) :
    containsWord w.toList (redactWord w s) = false :=
  hw.not_containsWord_redactWordFrom le_rfl

/-- **Redacting one word creates no other.** -/
theorem Redactable.redactWord (hv : Redactable v) {w : String} (h : containsWord v s = false) :
    containsWord v (redactWord w s) = false :=
  Bool.eq_false_iff.mpr fun h' => by
    have hs := hv.containsWord_redactWordFrom h'
    rw [h] at hs
    cases hs

/-- A text without the word stays as it is. -/
theorem redactWordFrom_of_not_containsWord {fuel : ℕ} (h : containsWord word s = false) :
    redactWordFrom word fuel s = s := by
  induction fuel generalizing s with
  | zero => rfl
  | succ fuel ih =>
    cases s with
    | nil => rfl
    | cons c s =>
      rw [containsWord, Bool.or_eq_false_iff] at h
      have hnone : afterWord word (c :: s) = none := by simpa using h.1
      simp only [redactWordFrom, hnone, ih h.2]

theorem redactWord_of_not_containsWord {w : String} (h : containsWord w.toList s = false) :
    redactWord w s = s :=
  redactWordFrom_of_not_containsWord h

/-! ## Blocks in braces -/

/-- A part of a text is no longer than the text. -/
theorem jsLength_le_of_sublist (h : a.Sublist b) : jsLength a ≤ jsLength b :=
  List.Sublist.sum_le_sum (h.map utf16Units) (by simp)

/-- Of two ways to split a text at a character, the one before which the character does not occur comes
first. -/
theorem prefix_of_append_cons_eq {α : Type} {x : α} {l₁ l₂ r₁ r₂ : List α}
    (h : l₁ ++ x :: r₁ = l₂ ++ x :: r₂) (hl : x ∉ l₁) : ∃ m, l₂ = l₁ ++ m ∧ x :: r₁ = m ++ x :: r₂ := by
  rcases List.append_eq_append_iff.mp h with ⟨m, hm, hr⟩ | ⟨m, hm, hr⟩
  · exact ⟨m, hm, hr⟩
  · cases m with
    | nil => exact ⟨[], by simp [hm], by simpa using hr.symm⟩
    | cons y m =>
      obtain ⟨rfl, -⟩ := List.cons_eq_cons.mp (hr.trans (List.cons_append ..))
      exact absurd (by simp [hm]) hl

/-- Of two ways to split a text at a character, the one after which the character does not occur comes
last. -/
theorem prefix_of_append_cons_eq' {α : Type} {x : α} {l₁ l₂ r₁ r₂ : List α}
    (h : l₁ ++ x :: r₁ = l₂ ++ x :: r₂) (hr : x ∉ r₂) : ∃ m, l₂ = l₁ ++ m := by
  rcases List.append_eq_append_iff.mp h with ⟨m, hm, -⟩ | ⟨m, hm, hr'⟩
  · exact ⟨m, hm⟩
  · cases m with
    | nil => exact ⟨[], by simp [hm]⟩
    | cons y m =>
      obtain ⟨rfl, htail⟩ := List.cons_eq_cons.mp (hr'.trans (List.cons_append ..))
      refine absurd ?_ hr
      rw [htail]
      simp

/-- Only the outermost braces matter. -/
theorem hasPayload_iff {before inner after : List Char} (hbefore : '{' ∉ before) (hafter : '}' ∉ after) :
    HasPayload (before ++ '{' :: (inner ++ '}' :: after)) ↔ 200 ≤ jsLength inner := by
  constructor
  · rintro ⟨before', inner', after', h, hlong⟩
    obtain ⟨m, -, hm⟩ := prefix_of_append_cons_eq h hbefore
    refine hlong.trans (jsLength_le_of_sublist ?_)
    cases m with
    | nil =>
      obtain ⟨-, hinner⟩ := List.cons_eq_cons.mp hm
      obtain ⟨m', rfl⟩ := prefix_of_append_cons_eq' hinner.symm hafter
      exact List.sublist_append_left ..
    | cons c m =>
      obtain ⟨-, hinner⟩ := List.cons_eq_cons.mp hm
      have hinner' : (m ++ '{' :: inner') ++ '}' :: after' = inner ++ '}' :: after := by
        rw [hinner]
        simp
      obtain ⟨m', rfl⟩ := prefix_of_append_cons_eq' hinner' hafter
      exact ((List.sublist_cons_self _ _).trans (List.sublist_append_right ..)).trans
        (List.sublist_append_left ..)
  · exact fun hlong => ⟨before, inner, after, rfl, hlong⟩

/-- **What `redactPayload` does**: nothing, if there is no long block; else it replaces what is between
the outermost braces. -/
theorem redactPayload_cases (s : List Char) :
    (¬ HasPayload s ∧ redactPayload s = s) ∨
    ∃ before inner after, s = before ++ '{' :: (inner ++ '}' :: after) ∧ '{' ∉ before ∧ '}' ∉ after ∧
      200 ≤ jsLength inner ∧ redactPayload s = before ++ "{[PAYLOAD_REDACTED]}".toList ++ after := by
  have hnotin : ∀ (x : Char) (l : List Char), x ∉ l.takeWhile (· ≠ x) := fun x l hx => by
    simpa using List.all_eq_true.mp List.all_takeWhile x hx
  have hsplit := List.takeWhile_append_dropWhile (p := (· ≠ '{')) (l := s)
  have hbefore := hnotin '{' s
  simp only [redactPayload]
  cases hs : s.dropWhile (· ≠ '{') with
  | nil =>
    -- there is no opening brace
    rw [hs, List.append_nil] at hsplit
    refine .inl ⟨?_, rfl⟩
    rintro ⟨before, inner, after, rfl, -⟩
    rw [hsplit] at hbefore
    exact hbefore (by simp)
  | cons c t =>
    obtain rfl : c = '{' := by
      have hhead := List.head?_dropWhile_not (· ≠ '{') s
      rw [hs] at hhead
      simpa using hhead
    rw [hs] at hsplit
    have hsplit' := List.takeWhile_append_dropWhile (p := (· ≠ '}')) (l := t.reverse)
    have hafter : '}' ∉ (t.reverse.takeWhile (· ≠ '}')).reverse := fun h =>
      hnotin '}' t.reverse (List.mem_reverse.mp h)
    cases ht : t.reverse.dropWhile (· ≠ '}') with
    | nil =>
      -- there is no closing brace after the first opening one
      rw [ht, List.append_nil] at hsplit'
      rw [hsplit', List.reverse_reverse] at hafter
      refine .inl ⟨?_, by simp only [ht]⟩
      rintro ⟨before, inner, after, h, -⟩
      obtain ⟨m, -, hm⟩ := prefix_of_append_cons_eq (hsplit.trans h) hbefore
      have hclosing : '}' ∈ '{' :: t := hm ▸ by simp
      simp at hclosing
      exact hafter hclosing
    | cons c inner =>
      obtain rfl : c = '}' := by
        have hhead := List.head?_dropWhile_not (· ≠ '}') t.reverse
        rw [ht] at hhead
        simpa using hhead
      have htext : t = inner.reverse ++ '}' :: (t.reverse.takeWhile (· ≠ '}')).reverse := by
        rw [ht] at hsplit'
        have hrev := congrArg List.reverse hsplit'
        simpa using hrev.symm
      have hs' : s = s.takeWhile (· ≠ '{') ++ '{' :: (inner.reverse ++
          '}' :: (t.reverse.takeWhile (· ≠ '}')).reverse) := by rw [← htext, hsplit]
      have hlength : jsLength inner.reverse = jsLength inner := by simp [jsLength, List.sum_reverse]
      by_cases hlong : 200 ≤ jsLength inner
      · exact .inr ⟨_, _, _, hs', hbefore, hafter, hlength ▸ hlong, by simp only [ht, if_pos hlong]⟩
      · refine .inl ⟨?_, by simp only [ht, if_neg hlong]⟩
        rw [hs', hasPayload_iff hbefore hafter, hlength]
        exact hlong

/-- **No long block is left.** -/
theorem not_hasPayload_redactPayload (s : List Char) : ¬ HasPayload (redactPayload s) := by
  rcases redactPayload_cases s with ⟨hnone, h⟩ | ⟨before, inner, after, -, hbefore, hafter, -, h⟩
  · rwa [h]
  · have hlit : redactPayload s = before ++ '{' :: ("[PAYLOAD_REDACTED]".toList ++ '}' :: after) := by
      rw [h, List.append_assoc]
      rfl
    rw [hlit, hasPayload_iff hbefore hafter]
    decide

/-- Redacting blocks creates no word. -/
theorem Redactable.redactPayload (hv : Redactable v) (h : containsWord v s = false) :
    containsWord v (redactPayload s) = false := by
  rcases redactPayload_cases s with ⟨-, hs⟩ | ⟨before, inner, after, rfl, -, -, -, hs⟩
  · rwa [hs]
  · have hlit : before ++ "{[PAYLOAD_REDACTED]}".toList ++ after =
        before ++ '{' :: ([] ++ '[' :: ("PAYLOAD_REDACTED".toList ++ ']' :: ([] ++ '}' :: after))) := by
      rw [List.append_assoc]
      rfl
    rw [containsWord_append_fence (hv.unfenced '{' (by decide)),
      containsWord_append_fence (hv.unfenced '}' (by decide)), Bool.or_eq_false_iff,
      Bool.or_eq_false_iff] at h
    rw [hs, hlit, containsWord_append_fence (hv.unfenced '{' (by decide)),
      containsWord_append_fence (hv.unfenced '[' (by decide)),
      containsWord_append_fence (hv.unfenced ']' (by decide)),
      containsWord_append_fence (hv.unfenced '}' (by decide)), containsWord_nil hv.ne_nil, hv.payload,
      h.1, h.2.2]
    rfl

/-- A text without a long block stays as it is. -/
theorem redactPayload_of_not_hasPayload (h : ¬ HasPayload s) : redactPayload s = s := by
  rcases redactPayload_cases s with ⟨-, hs⟩ | ⟨before, inner, after, hs, -, -, hlong, -⟩
  · exact hs
  · exact absurd ⟨before, inner, after, hs, hlong⟩ h

/-! ## The cut -/

/-- **What is cut off**: a prefix is left, and possibly the replacement of half a character. -/
theorem takeUnits_cases (n : ℕ) (s : List Char) : jsLength (takeUnits n s) ≤ n ∧
    ∃ t, t <+: s ∧ (takeUnits n s = t ∨ takeUnits n s = t ++ ['\ufffd']) := by
  induction s generalizing n with
  | nil => exact ⟨Nat.zero_le _, [], List.prefix_refl _, .inl rfl⟩
  | cons c s ih =>
    simp only [takeUnits]
    split
    next hc =>
      obtain ⟨hlength, t, ht, hcut⟩ := ih (n - utf16Units c)
      refine ⟨?_, c :: t, (List.prefix_cons_inj c).mpr ht, hcut.imp (by rintro rfl; rfl) ?_⟩
      · simp only [jsLength, List.map_cons, List.sum_cons] at hlength ⊢
        omega
      · intro h
        rw [h, List.cons_append]
    next hc =>
      split
      next hone =>
        refine ⟨?_, [], List.nil_prefix, .inr rfl⟩
        rw [hone]
        decide
      next => exact ⟨Nat.zero_le _, [], List.nil_prefix, .inl rfl⟩

/-- A cut text ends in `...`. -/
def cut (s : List Char) : List Char := takeUnits (MAX_ERROR_LENGTH - 3) s ++ ['.', '.', '.']

theorem jsLength_cut (s : List Char) : jsLength (cut s) ≤ MAX_ERROR_LENGTH := by
  have hlength := (takeUnits_cases (MAX_ERROR_LENGTH - 3) s).1
  have hdots : jsLength (cut s) = jsLength (takeUnits (MAX_ERROR_LENGTH - 3) s) + 3 := by
    simp only [cut, jsLength, List.map_append, List.sum_append]
    rfl
  rw [hdots]
  simp only [MAX_ERROR_LENGTH] at hlength ⊢
  omega

/-- Cutting creates no word. -/
theorem Redactable.cut (hv : Redactable v) (h : containsWord v s = false) :
    containsWord v (cut s) = false := by
  obtain ⟨-, t, ⟨rest, rfl⟩, hcut⟩ := takeUnits_cases (MAX_ERROR_LENGTH - 3) s
  have ht : containsWord v t = false := Bool.eq_false_iff.mpr fun ht => by
    rw [containsWord_append hv.ne_nil ht] at h
    cases h
  have hdots : containsWord v ['.', '.'] = false := by
    have hfence := containsWord_append_fence (a := []) (b := ['.']) (hv.unfenced '.' (by decide))
    have hfence' := containsWord_append_fence (a := []) (b := []) (hv.unfenced '.' (by decide))
    rw [List.nil_append] at hfence hfence'
    rw [hfence, hfence', containsWord_nil hv.ne_nil]
    rfl
  have hend : containsWord v (takeUnits (MAX_ERROR_LENGTH - 3) (t ++ rest)) = false := by
    rcases hcut with hcut | hcut
    · rwa [hcut]
    · rw [hcut, containsWord_append_fence (hv.unfenced '\ufffd' (by decide)), ht,
        containsWord_nil hv.ne_nil]
      rfl
  rw [PaymentWebhook.cut, containsWord_append_fence (hv.unfenced '.' (by decide)), hend, hdots]
  rfl

/-- What is added at the end makes no block. -/
theorem HasPayload.of_append (h : HasPayload (s ++ t)) (ht : '}' ∉ t) : HasPayload s := by
  obtain ⟨before, inner, after, heq, hlong⟩ := h
  have heq' : (before ++ '{' :: inner) ++ '}' :: after = s ++ t := by simp [heq]
  rcases List.append_eq_append_iff.mp heq' with ⟨m, rfl, hm⟩ | ⟨m, hm, rfl⟩
  · cases m with
    | nil =>
      rw [List.nil_append] at hm
      exact absurd (hm ▸ List.mem_cons_self) ht
    | cons c m =>
      obtain ⟨rfl, -⟩ := List.cons_eq_cons.mp hm
      exact ⟨before, inner, m, by simp, hlong⟩
  · exact absurd (by simp) ht

/-- A block of the beginning of a text is a block of the text. -/
theorem HasPayload.append (h : HasPayload s) : HasPayload (s ++ t) := by
  obtain ⟨before, inner, after, rfl, hlong⟩ := h
  exact ⟨before, inner, after ++ t, by simp, hlong⟩

/-- Cutting creates no long block. -/
theorem not_hasPayload_cut (h : ¬ HasPayload s) : ¬ HasPayload (cut s) := by
  obtain ⟨-, t, ⟨rest, rfl⟩, hcut⟩ := takeUnits_cases (MAX_ERROR_LENGTH - 3) s
  intro hc
  have hc' := hc.of_append (by decide)
  rcases hcut with hcut | hcut <;> rw [hcut] at hc'
  · exact h hc'.append
  · exact h (hc'.of_append (by decide)).append

/-! ## The whole -/

/-- **A clean text**: it contains neither word, in any case, and no long block. -/
structure Clean (s : List Char) : Prop where
  password : containsWord "password".toList s = false
  secret : containsWord "secret".toList s = false
  payload : ¬ HasPayload s

/-- A clean text contains no longer word either. -/
theorem Clean.webhook_secret (h : Clean s) : containsWord "WEBHOOK_SECRET".toList s = false :=
  Bool.eq_false_iff.mpr fun hlong => by
    have hend : containsWord "SECRET".toList s = true :=
      containsWord_of_append (v := "WEBHOOK_".toList) hlong
    have hcase := containsWord_congr (s := s)
      (show "SECRET".toList.map Char.toLower = "secret".toList.map Char.toLower by decide)
    rw [hcase, h.secret] at hend
    cases hend

/-- The replacements of `sanitizeError`, without the cut. -/
def redact (message : List Char) : List Char :=
  redactPayload (redactWord "secret" (redactWord "password" (redactWord "WEBHOOK_SECRET" message)))

theorem sanitizeError_eq (message : String) : sanitizeError message =
    if MAX_ERROR_LENGTH < jsLength (redact message.toList) then
      String.ofList (cut (redact message.toList))
    else String.ofList (redact message.toList) := rfl

/-- **Every redacted text is clean.** -/
theorem clean_redact (message : List Char) : Clean (redact message) where
  password := redactable_password.redactPayload
    (redactable_password.redactWord (not_containsWord_redactWord redactable_password))
  secret := redactable_secret.redactPayload (not_containsWord_redactWord redactable_secret)
  payload := not_hasPayload_redactPayload _

/-- A clean text stays as it is. -/
theorem Clean.redact_eq (h : Clean s) : redact s = s := by
  rw [redact, redactWord_of_not_containsWord h.webhook_secret,
    redactWord_of_not_containsWord h.password, redactWord_of_not_containsWord h.secret,
    redactPayload_of_not_hasPayload h.payload]

/-- Cutting keeps a text clean. -/
theorem Clean.cut (h : Clean s) : Clean (cut s) :=
  ⟨redactable_password.cut h.password, redactable_secret.cut h.secret, not_hasPayload_cut h.payload⟩

/-- **The result of `sanitizeError`** is clean, short, and stays as it is if it is sanitized again. -/
theorem sanitizeError_clean (message : String) : Clean (sanitizeError message).toList ∧
    jsLength (sanitizeError message).toList ≤ MAX_ERROR_LENGTH ∧
    sanitizeError (sanitizeError message) = sanitizeError message := by
  have hclean := clean_redact message.toList
  suffices h : Clean (sanitizeError message).toList ∧
      jsLength (sanitizeError message).toList ≤ MAX_ERROR_LENGTH by
    refine ⟨h.1, h.2, ?_⟩
    rw [sanitizeError_eq (sanitizeError message), h.1.redact_eq, if_neg (not_lt.mpr h.2),
      String.ofList_toList]
  rw [sanitizeError_eq]
  split
  · rw [String.toList_ofList]
    exact ⟨hclean.cut, jsLength_cut _⟩
  · rw [String.toList_ofList]
    exact ⟨hclean, not_lt.mp ‹_›⟩

end PaymentWebhook
