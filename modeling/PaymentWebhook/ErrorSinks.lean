import Mathlib.Data.Bool.AllAny
import Mathlib.Data.List.DropRight
import PaymentWebhook.Logging

set_option relaxedAutoImplicit false
set_option autoImplicit false

/-!
# Where the message of an error goes

The message of an error is stored by `sanitizeError`, logged by `StructuredLogger` and, when
`processOne` rejects, logged by the worker loop, which redacts it by itself.

## Main definitions

* `PaymentWebhook.loopError` — the line of the worker loop about an error.
* `PaymentWebhook.marks` — what the worker loop shows of each character of a message.

## Main results

* `PaymentWebhook.error_sinks_clean` — what is stored and logged of the message of an error.
* `PaymentWebhook.redactWord_redactWord` — what two redactions show.
* `PaymentWebhook.loop_error_clean_iff` — when the line of the worker loop is clean.

## Implementation notes

Both words are redacted up to the end of the word that they occur in, so that a word of the message is
shown up to the first of them.
-/

namespace PaymentWebhook

variable {word s t : List Char} {c : Char}

/-! ## The logger -/

/-- The error message of the line after an error. -/
theorem get?_writeExtra_error {entry : List (String × Json)} {key name message : String}
    (hkey : admitted key = true) :
    (Json.obj (writeExtra entry (key, .error name message))).get? "error_message" =
      some (.str (String.ofList (redact message.toList))) := by
  rw [admitted, Bool.and_eq_true, decide_eq_true_eq, Bool.not_eq_true'] at hkey
  simp only [writeExtra, if_neg hkey.1, hkey.2, Bool.false_eq_true, if_false, safeSerializeError,
    List.foldl_cons, List.foldl_nil, Json.get?]
  rw [find_assign (by decide), find_assign_self (by decide)]
  rfl

/-- The fields after the last error leave its message, unless one has that name. -/
theorem get?_foldl_writeExtra {entry : List (String × Json)} {after : List (String × Extra)}
    (hlast : ∀ x ∈ after, x.1 ≠ "error_message") (hafter : ¬ Overwritten after) :
    (Json.obj (after.foldl writeExtra entry)).get? "error_message" =
      (Json.obj entry).get? "error_message" := by
  induction after generalizing entry with
  | nil => rfl
  | cons x after ih =>
    obtain ⟨key, value⟩ := x
    rw [List.foldl_cons, ih (fun y hy => hlast y (by simp [hy])) fun h => hafter h.cons]
    simp only [writeExtra]
    split
    next => rfl
    next hprotected =>
    split
    next => rfl
    next hforbidden =>
      cases value with
      | undefined => rfl
      | error name message =>
        have hadmitted : admitted key = true := by simp [admitted, hprotected, hforbidden]
        exact absurd ⟨key, name, message, List.mem_cons_self, hadmitted⟩ hafter
      | json value =>
        have hkey : "error_message" ≠ key := (hlast _ List.mem_cons_self).symm
        exact congrArg (Option.map Prod.snd) (find_assign hkey)

/-- **What is stored and logged of the message of an error** is clean.  What is stored is short and stays
as it is if it is sanitized again; the error message of the line is that of the last error among the
extra fields, unless a later field has that name. -/
theorem error_sinks_clean (message : String) {name key : String} {extras : Extras}
    {before after : List (String × Extra)}
    (hsplit : extras.entries = before ++ (key, .error name message) :: after)
    (hkey : admitted key = true) (hlast : ∀ x ∈ after, x.1 ≠ "error_message") (hafter : ¬ Overwritten after)
    (service timestamp event : String) (level : LogLevel) :
    (Clean (sanitizeError message).toList ∧ jsLength (sanitizeError message).toList ≤ MAX_ERROR_LENGTH ∧
      sanitizeError (sanitizeError message) = sanitizeError message) ∧
    ∃ text, (StructuredLogger.write service timestamp level event (some extras)).2.get? "error_message" =
      some (.str text) ∧ text.toList = redact message.toList ∧ Clean text.toList := by
  refine ⟨sanitizeError_clean message, String.ofList (redact message.toList), ?_, ?_, ?_⟩
  · rw [StructuredLogger.write_eq, Option.elim_some, hsplit, List.foldl_append, List.foldl_cons]
    rw [get?_foldl_writeExtra hlast hafter]
    exact get?_writeExtra_error hkey
  · exact String.toList_ofList
  · rw [String.toList_ofList]
    exact clean_redact _

/-- The extra fields of a failed event. -/
def failedExtras : Extras where
  entries := [("error", .error "Error" "wrong password=hunter2")]
  nodup := by decide

/-- The theorem at an error that quotes a password. -/
theorem error_sinks_clean_sample :
    (Clean (sanitizeError "wrong password=hunter2").toList ∧
      jsLength (sanitizeError "wrong password=hunter2").toList ≤ MAX_ERROR_LENGTH ∧
      sanitizeError (sanitizeError "wrong password=hunter2") = sanitizeError "wrong password=hunter2") ∧
    ∃ text, (StructuredLogger.write "worker" "2025-01-01T00:00:00.000Z" .error "worker.failed"
      (some failedExtras)).2.get? "error_message" = some (.str text) ∧
      text.toList = redact "wrong password=hunter2".toList ∧ Clean text.toList := by
  have hsplit : failedExtras.entries =
      [] ++ ("error", .error "Error" "wrong password=hunter2") :: [] := rfl
  refine error_sinks_clean "wrong password=hunter2" hsplit (by decide) (by simp) ?_ _ _ _ _
  rintro ⟨key, name, message, hmem, -⟩
  cases hmem

/-! ## The worker loop -/

/-- The error message that the worker loop logs. -/
def loopErrorMessage : Thrown → String
  | .error _ message =>
    String.ofList (redactWord "secret" (redactWord "password" message.toList))
  | .other text => text

/-- **The line of the worker loop** about an error of `processOne`. -/
def loopError (timestamp workerId : String) (err : Thrown) : LogStream × Json :=
  StructuredLogger.write "worker" timestamp .error "worker.loop_error" (some {
    entries := [("worker_id", .json (.str workerId)), ("error_message", .json (.str (loopErrorMessage err)))]
    nodup := by simp })

theorem loopError_error_message (timestamp workerId : String) (err : Thrown) :
    (loopError timestamp workerId err).2.get? "error_message" = some (.str (loopErrorMessage err)) := by
  rfl

/-- What the worker loop shows of a character: itself, the text that replaces the word from here on, or
nothing. -/
inductive Mark where
  | shown | replaced | hidden
  deriving DecidableEq, Repr

/-- One of the two words begins here. -/
def sensitive (s : List Char) : Bool :=
  (afterWord "password".toList s).isSome || (afterWord "secret".toList s).isSome

/-- **What is shown of each character**, inside the rest of a word that is replaced or not. -/
def marks : Bool → List Char → List (Char × Mark)
  | _, [] => []
  | inside, c :: s =>
    if jsSpace c then (c, .shown) :: marks false s
    else if inside then (c, .hidden) :: marks true s
    else if sensitive (c :: s) then (c, .replaced) :: marks true s
    else (c, .shown) :: marks false s

/-- The text that is shown for a character. -/
def shownText : Char × Mark → List Char
  | (c, .shown) => [c]
  | (_, .replaced) => "[REDACTED]".toList
  | (_, .hidden) => []

theorem shownText_shown (c : Char) : shownText (c, .shown) = [c] := rfl

/-- **A long block is shown**: an opening and a closing brace, neither in a part that is replaced, and
between them 200 or more characters of what is shown. -/
def LongBlock (message : List Char) : Prop :=
  ∃ before inner after, marks false message =
      before ++ ('{', .shown) :: (inner ++ ('}', .shown) :: after) ∧
    200 ≤ (inner.map fun m => jsLength (shownText m)).sum

/-- **An error that the worker loop logs safely**: its message shows no long block; a value that is not
an error must be clean by itself. -/
def Thrown.Presentable : Thrown → Prop
  | .error _ message => ¬ LongBlock message.toList
  | .other text => Clean text.toList

/-! ## Redaction word by word -/

/-- No white space becomes a letter. -/
theorem toLower_of_jsSpace (h : jsSpace c = true) : c.toLower = c := by
  rw [jsSpace, Bool.or_eq_true, decide_eq_true_eq, Bool.and_eq_true, decide_eq_true_eq] at h
  rcases h with h | ⟨h, -⟩
  · exact (List.all_iff_forall_prop (p := fun c => c.toLower = c)).mp (by decide) c h
  · have hupper : ¬ (c.val ≥ 'A'.val ∧ c.val ≤ 'Z'.val) := by
      rintro ⟨-, hz⟩
      exact absurd (UInt32.le_trans h hz) (by decide)
    exact dif_neg hupper

/-- The end of the word in which a redacted word ends. -/
theorem dropWhile_of_afterWord (hword : ∀ x ∈ word, jsSpace x.toLower = false)
    (h : afterWord word s = some t) :
    t.dropWhile (fun c => !jsSpace c) = s.dropWhile fun c => !jsSpace c := by
  induction word generalizing s with
  | nil =>
    obtain rfl := Option.some.inj h
    rfl
  | cons x word ih =>
    cases s with
    | nil => cases h
    | cons c s =>
      simp only [afterWord] at h
      split at h
      next hc =>
        have hspace : jsSpace c = false := Bool.eq_false_iff.mpr fun hspace => by
          have hx := hword x List.mem_cons_self
          rw [← hc, toLower_of_jsSpace hspace, hspace] at hx
          cases hx
        rw [List.dropWhile_cons_of_pos (by simp [hspace])]
        exact ih (fun x hx => hword x (by simp [hx])) h
      next => cases h

/-- A word begins with a letter, which is no white space. -/
theorem afterWord_space {x : Char} (hx : jsSpace x.toLower = false) (hc : jsSpace c = true) :
    afterWord (x :: word) (c :: s) = none := by
  have hne : c.toLower ≠ x.toLower := fun h => by
    rw [← h, toLower_of_jsSpace hc, hc] at hx
    cases hx
  rw [afterWord, if_neg hne]

/-- **A word made of letters**, that redaction replaces together with the rest of its word. -/
structure Lettered (word : List Char) : Prop where
  ne_nil : word ≠ []
  not_space : ∀ x ∈ word, jsSpace x.toLower = false

theorem lettered_password : Lettered "password".toList :=
  ⟨by decide, List.all_iff_forall_prop.mp (by decide)⟩

theorem lettered_secret : Lettered "secret".toList :=
  ⟨by decide, List.all_iff_forall_prop.mp (by decide)⟩

/-- The text after the word that begins here. -/
def afterRun (s : List Char) : List Char := s.dropWhile fun c => !jsSpace c

theorem afterRun_length_le : (afterRun s).length ≤ s.length := (List.dropWhile_suffix _).length_le

theorem afterRun_cons_of_space (h : jsSpace c = true) : afterRun (c :: s) = c :: s :=
  List.dropWhile_cons_of_neg (by simp [h])

theorem afterRun_cons (h : jsSpace c = false) : afterRun (c :: s) = afterRun s :=
  List.dropWhile_cons_of_pos (by simp [h])

/-- A word that begins here does not begin with white space. -/
theorem Lettered.not_space_of_afterWord (hw : Lettered word)
    (h : (afterWord word (c :: s)).isSome = true) : jsSpace c = false := by
  cases word with
  | nil => exact absurd rfl hw.ne_nil
  | cons x word =>
    refine Bool.eq_false_iff.mpr fun hc => ?_
    rw [afterWord_space (hw.not_space x List.mem_cons_self) hc] at h
    cases h

/-- More fuel than characters makes no difference. -/
theorem Lettered.redactWordFrom_fuel (hw : Lettered word) {fuel fuel' : ℕ} (h : s.length ≤ fuel)
    (h' : s.length ≤ fuel') : redactWordFrom word fuel s = redactWordFrom word fuel' s := by
  induction fuel generalizing s fuel' with
  | zero =>
    obtain rfl := List.length_eq_zero_iff.mp (Nat.le_zero.mp h)
    cases fuel' <;> rfl
  | succ fuel ih =>
    cases s with
    | nil => cases fuel' <;> rfl
    | cons c s =>
      cases fuel' with
      | zero => exact absurd h' (by simp)
      | succ fuel' =>
        simp only [List.length_cons, Nat.add_le_add_iff_right] at h h'
        simp only [redactWordFrom]
        split
        next after hafter =>
          have hlength := ((List.dropWhile_suffix (fun c => !jsSpace c)).trans
            (suffix_tail_of_afterWord hw.ne_nil hafter)).length_le
          rw [ih (hlength.trans h) (hlength.trans h')]
        next => rw [ih h h']

section Redact

variable {w : String}

/-- **What redaction does at a character**: where its word begins, the rest of the word is replaced. -/
theorem redactWord_cons (hw : Lettered w.toList) : redactWord w (c :: s) =
    if (afterWord w.toList (c :: s)).isSome then "[REDACTED]".toList ++ redactWord w (afterRun (c :: s))
    else c :: redactWord w s := by
  rw [redactWord, List.length_cons, redactWordFrom]
  cases hafter : afterWord w.toList (c :: s) with
  | none => rfl
  | some after =>
    have hrun : (after.dropWhile fun c => !jsSpace c) = afterRun (c :: s) :=
      dropWhile_of_afterWord hw.not_space hafter
    have hlength := ((List.dropWhile_suffix (fun c => !jsSpace c)).trans
      (suffix_tail_of_afterWord hw.ne_nil hafter)).length_le
    rw [← hrun]
    exact congrArg ("[REDACTED]".toList ++ ·) (hw.redactWordFrom_fuel hlength le_rfl)

theorem redactWord_nil : redactWord w [] = [] := rfl

/-- What is inserted for a word belongs to that word. -/
theorem afterRun_redacted : afterRun ("[REDACTED]".toList ++ s) = afterRun s := rfl

/-- Redaction keeps the ends of words. -/
theorem afterRun_redactWord (hw : Lettered w.toList) : afterRun (redactWord w s) = redactWord w (afterRun s) := by
  induction hlength : s.length using Nat.strong_induction_on generalizing s with
  | _ n ih =>
    cases s with
    | nil => rfl
    | cons c s =>
      rw [redactWord_cons hw]
      split
      next hafter =>
        have hc := hw.not_space_of_afterWord hafter
        have hless : (afterRun (c :: s)).length < n := by
          have hle := afterRun_length_le (s := s)
          rw [afterRun_cons hc, ← hlength, List.length_cons]
          omega
        have htwice : afterRun (afterRun (c :: s)) = afterRun (c :: s) := List.dropWhile_idempotent _ _
        rw [afterRun_redacted, ih _ hless rfl, htwice]
      next hafter =>
        cases hc : jsSpace c with
        | true =>
          rw [afterRun_cons_of_space hc, afterRun_cons_of_space hc, redactWord_cons hw, if_neg hafter]
        | false =>
          rw [afterRun_cons hc, afterRun_cons hc]
          exact ih s.length (by rw [← hlength, List.length_cons]; omega) rfl

/-- Text whose letters begin no word stays. -/
theorem redactWord_append (hw : Lettered w.toList)
    (h : ∀ c ∈ t, ∀ x ∈ w.toList.head?, c.toLower ≠ x.toLower) : redactWord w (t ++ s) = t ++ redactWord w s := by
  induction t with
  | nil => rfl
  | cons c t ih =>
    have hnone : afterWord w.toList (c :: (t ++ s)) = none := by
      cases hword : w.toList with
      | nil => exact absurd hword hw.ne_nil
      | cons x word =>
        have hne := h c List.mem_cons_self x (by rw [hword]; rfl)
        rw [afterWord, if_neg hne]
    rw [List.cons_append, redactWord_cons hw, hnone, Option.isSome_none, if_neg Bool.false_ne_true,
      ih fun d hd => h d (List.mem_cons_of_mem c hd), List.cons_append]

/-- Redaction keeps the words that share no letter with the beginning of the redacted one. -/
theorem isSome_afterWord_redactWord (hw : Lettered w.toList) {v : List Char}
    (hfence : ∀ x ∈ v, '['.toLower ≠ x.toLower)
    (hletter : ∀ y ∈ v, ∀ x ∈ w.toList.head?, y.toLower ≠ x.toLower) :
    (afterWord v (redactWord w s)).isSome = (afterWord v s).isSome := by
  refine Bool.eq_iff_iff.mpr ⟨afterWord_redactWordFrom w.toList s.length s hfence, fun h => ?_⟩
  induction v generalizing s with
  | nil => rfl
  | cons y v ih =>
    cases s with
    | nil => exact h
    | cons c s =>
      simp only [afterWord] at h
      split at h
      next hc =>
        have hfirst : ∀ d ∈ [c], ∀ x ∈ w.toList.head?, d.toLower ≠ x.toLower := by
          intro d hd x hx
          rw [List.mem_singleton.mp hd, hc]
          exact hletter y List.mem_cons_self x hx
        have hkept : redactWord w (c :: s) = c :: redactWord w s := redactWord_append hw hfirst
        rw [hkept, afterWord, if_pos hc]
        exact ih (fun x hx => hfence x (List.mem_cons_of_mem y hx))
          (fun x hx => hletter x (List.mem_cons_of_mem y hx)) h
      next => cases h

end Redact

/-! ## What is shown -/

theorem marks_cons (inside : Bool) (c : Char) (s : List Char) : marks inside (c :: s) =
    if jsSpace c then (c, .shown) :: marks false s
    else if inside then (c, .hidden) :: marks true s
    else if sensitive (c :: s) then (c, .replaced) :: marks true s
    else (c, .shown) :: marks false s := rfl

/-- Inside a word that is replaced, nothing is shown up to its end. -/
theorem marks_true (s : List Char) :
    (marks true s).flatMap shownText = (marks false (afterRun s)).flatMap shownText := by
  induction s with
  | nil => rfl
  | cons c s ih =>
    cases hc : jsSpace c with
    | true =>
      rw [afterRun_cons_of_space hc]
      rw [marks_cons, marks_cons, if_pos hc, if_pos hc]
    | false =>
      rw [afterRun_cons hc, ← ih, marks_cons, if_neg (by simp [hc]), if_pos rfl]
      rfl

/-- Where a word is replaced. -/
theorem marks_of_sensitive (hc : jsSpace c = false) (h : sensitive (c :: s) = true) :
    (marks false (c :: s)).flatMap shownText =
      "[REDACTED]".toList ++ (marks false (afterRun s)).flatMap shownText := by
  rw [← marks_true, marks_cons, if_neg (by simp [hc]), if_neg (by simp), if_pos h]
  rfl

/-- A character where no word begins is shown. -/
theorem marks_of_not_sensitive (h : sensitive (c :: s) = false) :
    marks false (c :: s) = (c, .shown) :: marks false s := by
  rw [marks_cons, if_neg Bool.false_ne_true, h, if_neg Bool.false_ne_true, ite_self]

/-- **What two redactions show**: of each word, the part before the first of the two words.

**Proof sketch.** Induction on the length of the text.  The second redaction meets the same words as the
first text has, because no `p` occurs in the second word; and what the first one inserts begins none. -/
theorem redactWord_redactWord (s : List Char) :
    redactWord "secret" (redactWord "password" s) = (marks false s).flatMap shownText := by
  induction hlength : s.length using Nat.strong_induction_on generalizing s with
  | _ n ih =>
    cases s with
    | nil => rfl
    | cons c s =>
      have hrest : redactWord "secret" (redactWord "password" s) = (marks false s).flatMap shownText :=
        ih s.length (by rw [← hlength, List.length_cons]; omega) s rfl
      have hrun : redactWord "secret" (redactWord "password" (afterRun s)) =
          (marks false (afterRun s)).flatMap shownText := by
        have hle := afterRun_length_le (s := s)
        exact ih (afterRun s).length (by rw [← hlength, List.length_cons]; omega) _ rfl
      have hsecret : (afterWord "secret".toList (redactWord "password" (c :: s))).isSome =
          (afterWord "secret".toList (c :: s)).isSome :=
        isSome_afterWord_redactWord lettered_password (by simp) (by simp)
      rw [redactWord_cons lettered_password] at hsecret ⊢
      split at hsecret
      next hpassword =>
        have hc := lettered_password.not_space_of_afterWord hpassword
        have hsensitive : sensitive (c :: s) = true := by rw [sensitive, hpassword, Bool.true_or]
        rw [if_pos hpassword, marks_of_sensitive hc hsensitive, afterRun_cons hc,
          redactWord_append lettered_secret (by simp), hrun]
      next hpassword =>
        rw [if_neg hpassword, redactWord_cons lettered_secret, hsecret]
        split
        next hafter =>
          have hc := lettered_secret.not_space_of_afterWord hafter
          have hsensitive : sensitive (c :: s) = true := by rw [sensitive, hafter, Bool.or_true]
          rw [marks_of_sensitive hc hsensitive, afterRun_cons hc, afterRun_redactWord lettered_password,
            hrun]
        next hafter =>
          have hsensitive : sensitive (c :: s) = false := by
            rw [sensitive, Bool.eq_false_iff.mpr hpassword, Bool.eq_false_iff.mpr hafter, Bool.or_false]
          rw [marks_of_not_sensitive hsensitive, hrest]
          rfl

/-- A character of what is shown that no replacement contains is a character that is shown. -/
theorem exists_shown_of_flatMap {marked : List (Char × Mark)} {before after : List Char}
    (hc : c ∉ "[REDACTED]".toList) (h : marked.flatMap shownText = before ++ c :: after) :
    ∃ before' after', marked = before' ++ (c, .shown) :: after' ∧
      before'.flatMap shownText = before ∧ after'.flatMap shownText = after := by
  induction marked generalizing before with
  | nil => simp at h
  | cons m marked ih =>
    rw [List.flatMap_cons] at h
    rcases List.append_eq_append_iff.mp h with ⟨rest, rfl, hrest⟩ | ⟨rest, hm, hrest⟩
    · obtain ⟨before', after', rfl, hbefore, hafter⟩ := ih hrest
      exact ⟨m :: before', after', rfl, by rw [List.flatMap_cons, hbefore], hafter⟩
    · cases rest with
      | nil =>
        rw [List.nil_append] at hrest
        have hrest' : marked.flatMap shownText = [] ++ c :: after := hrest.symm
        obtain ⟨before', after', rfl, hbefore, hafter⟩ := ih hrest'
        rw [List.append_nil] at hm
        exact ⟨m :: before', after', rfl, by rw [List.flatMap_cons, hbefore, hm, List.append_nil], hafter⟩
      | cons d rest =>
        obtain ⟨rfl, rfl⟩ := List.cons_eq_cons.mp hrest
        obtain ⟨ch, mark⟩ := m
        cases mark with
        | shown =>
          rcases List.append_eq_singleton_iff.mp hm.symm with ⟨rfl, hsingle⟩ | ⟨-, hnil⟩
          · obtain ⟨rfl, rfl⟩ := List.cons_eq_cons.mp hsingle
            exact ⟨[], marked, rfl, rfl, rfl⟩
          · cases hnil
        | replaced =>
          have hmem : c ∈ shownText (ch, .replaced) := by
            rw [hm]
            exact List.mem_append_right before List.mem_cons_self
          exact absurd hmem hc
        | hidden => exact absurd hm.symm (List.append_ne_nil_of_right_ne_nil before (List.cons_ne_nil c rest))

/-- **The long blocks of what is shown.** -/
theorem hasPayload_iff_longBlock (message : List Char) :
    HasPayload ((marks false message).flatMap shownText) ↔ LongBlock message := by
  have hlength : ∀ marked : List (Char × Mark), jsLength (marked.flatMap shownText) =
      (marked.map fun m => jsLength (shownText m)).sum := by
    intro marked
    induction marked with
    | nil => rfl
    | cons m marked ih =>
      rw [List.flatMap_cons, List.map_cons, List.sum_cons, ← ih]
      simp only [jsLength, List.map_append, List.sum_append]
  constructor
  · rintro ⟨before, inner, after, h, hlong⟩
    obtain ⟨before', rest, hmarks, -, hrest⟩ := exists_shown_of_flatMap (by decide) h
    obtain ⟨inner', after', rfl, rfl, -⟩ := exists_shown_of_flatMap (by decide) hrest
    exact ⟨before', inner', after', hmarks, hlength inner' ▸ hlong⟩
  · rintro ⟨before, inner, after, h, hlong⟩
    refine ⟨before.flatMap shownText, inner.flatMap shownText, after.flatMap shownText, ?_, ?_⟩
    · rw [h]
      simp only [List.flatMap_append, List.flatMap_cons, shownText_shown, List.singleton_append]
    · rwa [hlength]

/-- **When the line of the worker loop is clean.**  Neither word is ever left of the message of an
error, but no block is replaced; a value that is not an error is logged as it is. -/
theorem loop_error_clean_iff (timestamp workerId : String) (err : Thrown) :
    (∃ text, (loopError timestamp workerId err).2.get? "error_message" = some (.str text) ∧
      Clean text.toList) ↔ err.Presentable := by
  have hline : (∃ text, (loopError timestamp workerId err).2.get? "error_message" = some (.str text) ∧
      Clean text.toList) ↔ Clean (loopErrorMessage err).toList := by
    rw [loopError_error_message]
    constructor
    · rintro ⟨text, h, hclean⟩
      obtain rfl := Json.str.inj (Option.some.inj h)
      exact hclean
    · exact fun hclean => ⟨_, rfl, hclean⟩
  rw [hline]
  cases err with
  | other text => rfl
  | error name message =>
    simp only [loopErrorMessage, String.toList_ofList, Thrown.Presentable]
    rw [← hasPayload_iff_longBlock, ← redactWord_redactWord]
    refine ⟨Clean.payload, fun h => ⟨?_, ?_, h⟩⟩
    · exact redactable_password.redactWord (not_containsWord_redactWord redactable_password)
    · exact not_containsWord_redactWord redactable_secret

/-- The message of an error that quotes a payload. -/
def quotedPayload : List Char := '{' :: (List.replicate 200 'x' ++ ['}'])

/-- Neither word begins in the quoted payload. -/
theorem redactWord_quotedPayload {w : String} (hw : Lettered w.toList)
    (h : ∀ c ∈ ['{', 'x', '}'], ∀ x ∈ w.toList.head?, c.toLower ≠ x.toLower) :
    redactWord w quotedPayload = quotedPayload := by
  have hkept := redactWord_append (t := quotedPayload) (s := []) hw fun c hc => by
    simp only [quotedPayload, List.mem_cons, List.mem_append, List.mem_replicate, List.not_mem_nil,
      or_false] at hc
    rcases hc with rfl | ⟨-, rfl⟩ | rfl
    · exact h '{' (by simp)
    · exact h 'x' (by simp)
    · exact h '}' (by simp)
  rwa [redactWord_nil, List.append_nil] at hkept

/-- A long block in the message of an error reaches the line. -/
theorem loop_error_shows_block : ¬ ∃ text,
    (loopError "2025-01-01T00:00:00.000Z" "worker-1"
      (.error "Error" (String.ofList quotedPayload))).2.get? "error_message" = some (.str text) ∧
    Clean text.toList := by
  rintro ⟨text, h, hclean⟩
  rw [loopError_error_message] at h
  obtain rfl := Json.str.inj (Option.some.inj h)
  have hpayload := hclean.payload
  simp only [loopErrorMessage, String.toList_ofList] at hpayload
  rw [redactWord_quotedPayload lettered_password (by simp),
    redactWord_quotedPayload lettered_secret (by simp)] at hpayload
  refine hpayload ⟨[], List.replicate 200 'x', [], rfl, ?_⟩
  rw [jsLength, List.map_replicate, List.sum_replicate]
  decide

end PaymentWebhook
