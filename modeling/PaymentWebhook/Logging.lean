import PaymentWebhook.Provider
import PaymentWebhook.Redaction

set_option relaxedAutoImplicit false
set_option autoImplicit false

/-!
# The structured log

`StructuredLogger.write`, which writes one line of JSON, and the keys of that line.

## Main definitions

* `PaymentWebhook.StructuredLogger.write` — the line of an event.
* `PaymentWebhook.Json.anyKey` — a JSON value has a key, at any depth.

## Main results

* `PaymentWebhook.no_forbidden_key_iff` — when no forbidden key reaches the line.

## Implementation notes

A line is its JSON value.  The members of the line are listed in the order in which they were assigned.
-/

namespace PaymentWebhook

/-! ## The logger -/

inductive LogLevel where
  | info | warn | error
  deriving DecidableEq, Repr

def LogLevel.text : LogLevel → String
  | info => "info"
  | warn => "warn"
  | error => "error"

inductive LogStream where
  | stdout | stderr
  deriving DecidableEq, Repr

/-- A value that can be thrown: an `Error`, or another value with its `String(value)`. -/
inductive Thrown where
  | error (name message : String)
  | other (text : String)
  deriving DecidableEq, Repr

/-- The value of an extra field. -/
inductive Extra where
  | undefined
  | error (name message : String)
  | json (value : Json)

/-- The extra fields of an event, in order, each with its own key. -/
structure Extras where
  entries : List (String × Extra)
  nodup : (entries.map Prod.fst).Nodup

/-- `PROTECTED_FIELDS`. -/
def PROTECTED_FIELDS : List String := ["timestamp", "level", "service", "event"]

/-- `FORBIDDEN_PATTERNS`. -/
def FORBIDDEN_PATTERNS : List String :=
  ["rawBody", "payload", "x-signature", "webhook_secret", "password", "secret"]

def isForbiddenKey (key : String) : Bool :=
  FORBIDDEN_PATTERNS.any fun p => containsWord p.toList key.toList

/-- `safeSerializeError`. -/
def safeSerializeError : Thrown → List (String × Json)
  | .other text => [("error_message", .str text)]
  | .error name message =>
    let message := redactWord "WEBHOOK_SECRET" message.toList
    let message := redactWord "password" message
    let message := redactWord "secret" message
    let message := redactPayload message
    [("error_message", .str (String.ofList message)), ("error_name", .str name)]

/-- `entry[key] = value`; assigning to `__proto__` makes no member. -/
def assign (entry : List (String × Json)) (key : String) (value : Json) : List (String × Json) :=
  if key = "__proto__" then entry
  else if entry.any fun m => m.1 = key then
    entry.map fun m => if m.1 = key then (key, value) else m
  else entry ++ [(key, value)]

/-- The turn of the loop over the extras. -/
def writeExtra (entry : List (String × Json)) : String × Extra → List (String × Json)
  | (key, value) =>
    if key ∈ PROTECTED_FIELDS then entry
    else if isForbiddenKey key then entry
    else match value with
    | .undefined => entry
    | .error name message =>
      (safeSerializeError (.error name message)).foldl (fun entry m => assign entry m.1 m.2) entry
    | .json value => assign entry key value

/-- The fields of the logger itself. -/
def ownFields (timestamp : String) (level : LogLevel) (service event : String) : List (String × Json) :=
  [("timestamp", .str timestamp), ("level", .str level.text), ("service", .str service),
    ("event", .str event)]

/-- **`StructuredLogger.write`**, at the time `timestamp`. -/
def StructuredLogger.write (service timestamp : String) (level : LogLevel) (event : String)
    (extras : Option Extras) : LogStream × Json :=
  let entry := ownFields timestamp level service event
  let entry := match extras with
    | none => entry
    | some extras => extras.entries.foldl writeExtra entry
  (if level = .error then .stderr else .stdout, .obj entry)

/-! ## Keys at any depth -/

mutual

/-- Some object in the value, at any depth, has a key with the property `p`. -/
def Json.anyKey (p : String → Bool) : Json → Bool
  | .arr items => anyKeyItems p items
  | .obj members => anyKeyMembers p members
  | .null | .bool _ | .num _ | .str _ => false

def Json.anyKeyItems (p : String → Bool) : List Json → Bool
  | [] => false
  | item :: items => item.anyKey p || anyKeyItems p items

def Json.anyKeyMembers (p : String → Bool) : List (String × Json) → Bool
  | [] => false
  | (key, value) :: members => p key || value.anyKey p || anyKeyMembers p members

end

theorem Json.anyKeyMembers_iff {p : String → Bool} {members : List (String × Json)} :
    Json.anyKeyMembers p members = true ↔
      ∃ m ∈ members, p m.1 = true ∨ m.2.anyKey p = true := by
  induction members with
  | nil => simp [anyKeyMembers]
  | cons m members ih =>
    obtain ⟨key, value⟩ := m
    simp only [anyKeyMembers, Bool.or_eq_true, ih, List.mem_cons, exists_eq_or_imp]

/-! ## What reaches the line -/

/-- The logger lets the extra field pass. -/
def admitted (key : String) : Bool := key ∉ PROTECTED_FIELDS && !isForbiddenKey key

/-- The fields that are written for an error. -/
def errorFields : List String := ["error_message", "error_name"]

/-- An error among the extra fields overwrites its two fields. -/
def Overwritten (after : List (String × Extra)) : Prop :=
  ∃ key name message, (key, .error name message) ∈ after ∧ admitted key = true

/-- **An extra field leaks a forbidden key**: it is let pass, some object in its value has a forbidden
key, and no error that comes later overwrites it. -/
structure LeaksBefore (x : String × Extra) (after : List (String × Extra)) : Prop where
  admitted : admitted x.1 = true
  member : x.1 ≠ "__proto__"
  forbidden : ∃ value, x.2 = .json value ∧ value.anyKey isForbiddenKey = true
  kept : ¬ (x.1 ∈ errorFields ∧ Overwritten after)

/-- Some extra field leaks a forbidden key. -/
def Leaks (entries : List (String × Extra)) : Prop :=
  ∃ before x after, entries = before ++ x :: after ∧ LeaksBefore x after

section Assign

variable {entry : List (String × Json)} {key : String} {value : Json} {m : String × Json}
  {P : String → Prop}

/-- The members after an assignment. -/
theorem mem_assign (hkey : key ≠ "__proto__") :
    m ∈ assign entry key value ↔ m = (key, value) ∨ (m ∈ entry ∧ m.1 ≠ key) := by
  rw [assign, if_neg hkey]
  split
  next hany =>
    obtain ⟨old, hold, hk⟩ := List.any_eq_true.mp hany
    rw [decide_eq_true_eq] at hk
    constructor
    · intro hm
      obtain ⟨x, hx, rfl⟩ := List.mem_map.mp hm
      split
      · exact .inl rfl
      · exact .inr ⟨hx, ‹_›⟩
    · rintro (rfl | ⟨hm, hne⟩)
      · exact List.mem_map.mpr ⟨old, hold, if_pos hk⟩
      · exact List.mem_map.mpr ⟨m, hm, if_neg hne⟩
  next hnone =>
    have hne : ∀ x ∈ entry, x.1 ≠ key := fun x hx hk =>
      hnone (List.any_eq_true.mpr ⟨x, hx, decide_eq_true hk⟩)
    rw [List.mem_append, List.mem_singleton, or_comm]
    exact or_congr_right ⟨fun hm => ⟨hm, hne m hm⟩, And.left⟩

/-- Replacing the members of one key leaves the others alone. -/
theorem find_replace {k : String} (hk : k ≠ key) :
    (entry.map fun m => if m.1 = key then (key, value) else m).find? (fun m => m.1 = k) =
      entry.find? (fun m => m.1 = k) := by
  induction entry with
  | nil => rfl
  | cons x entry ih =>
    rw [List.map_cons, List.find?_cons, List.find?_cons, ih]
    by_cases hx : x.1 = key
    · simp [hx, hk.symm]
    · simp [hx]

/-- An assignment leaves the other members alone. -/
theorem find_assign {k : String} (hk : k ≠ key) :
    (assign entry key value).find? (fun m => m.1 = k) = entry.find? (fun m => m.1 = k) := by
  unfold assign
  split
  · rfl
  · split
    · exact find_replace hk
    · simp [List.find?_append, hk.symm]

/-- The member of an assignment. -/
theorem find_assign_self (hkey : key ≠ "__proto__") :
    (assign entry key value).find? (fun m => m.1 = key) = some (key, value) := by
  rw [assign, if_neg hkey]
  split
  next hany =>
    induction entry with
    | nil => cases hany
    | cons x entry ih =>
      rw [List.map_cons, List.find?_cons]
      by_cases hx : x.1 = key
      · simp [hx]
      · have hrest : entry.any (fun m => m.1 = key) = true := by simpa [hx] using hany
        rw [if_neg hx, decide_eq_false hx]
        exact ih hrest
  next hnone =>
    have hfind : entry.find? (fun m => m.1 = key) = none :=
      List.find?_eq_none.mpr fun x hx hk => hnone (List.any_eq_true.mpr ⟨x, hx, hk⟩)
    simp [List.find?_append, hfind]

/-- The members with a forbidden key inside, after an assignment. -/
theorem leak_assign (hkey : key ≠ "__proto__") :
    (∃ m ∈ assign entry key value, P m.1 ∧ m.2.anyKey isForbiddenKey = true) ↔
      (P key ∧ value.anyKey isForbiddenKey = true) ∨
        ∃ m ∈ entry, (P m.1 ∧ m.1 ≠ key) ∧ m.2.anyKey isForbiddenKey = true := by
  constructor
  · rintro ⟨m, hm, hP, hbad⟩
    rcases (mem_assign hkey).mp hm with rfl | ⟨hm, hne⟩
    · exact .inl ⟨hP, hbad⟩
    · exact .inr ⟨m, hm, ⟨hP, hne⟩, hbad⟩
  · rintro (⟨hP, hbad⟩ | ⟨m, hm, ⟨hP, hne⟩, hbad⟩)
    · exact ⟨_, (mem_assign hkey).mpr (.inl rfl), hP, hbad⟩
    · exact ⟨m, (mem_assign hkey).mpr (.inr ⟨hm, hne⟩), hP, hbad⟩

/-- An error overwrites its two fields. -/
theorem leak_error {name message : String} :
    (∃ m ∈ (safeSerializeError (.error name message)).foldl (fun entry m => assign entry m.1 m.2) entry,
      P m.1 ∧ m.2.anyKey isForbiddenKey = true) ↔
      ∃ m ∈ entry, (P m.1 ∧ m.1 ∉ errorFields) ∧ m.2.anyKey isForbiddenKey = true := by
  have hstr : ∀ text, (Json.str text).anyKey isForbiddenKey = false := fun _ => rfl
  simp only [safeSerializeError, List.foldl_cons, List.foldl_nil]
  rw [leak_assign (by decide), leak_assign (P := fun k => P k ∧ k ≠ "error_name") (by decide)]
  simp only [hstr, Bool.false_eq_true, and_false, false_or, errorFields, List.mem_cons,
    List.not_mem_nil, or_false, not_or]
  refine exists_congr fun m => and_congr_right fun _ => and_congr_left fun _ => ?_
  rw [and_assoc, and_comm (a := m.1 ≠ "error_name")]

end Assign

/-- A split of a list with one more element. -/
theorem exists_split_append {α : Type} {l : List α} {x : α} {P : α → List α → Prop} :
    (∃ before y after, l ++ [x] = before ++ y :: after ∧ P y after) ↔
      P x [] ∨ ∃ before y after, l = before ++ y :: after ∧ P y (after ++ [x]) := by
  constructor
  · rintro ⟨before, y, after, h, hP⟩
    rcases List.eq_nil_or_concat after with rfl | ⟨after, z, rfl⟩
    · obtain ⟨-, hx⟩ := List.append_inj' h rfl
      obtain rfl := List.singleton_inj.mp hx
      exact .inl hP
    · rw [List.concat_eq_append, ← List.cons_append, ← List.append_assoc] at h
      obtain ⟨rfl, hx⟩ := List.append_inj' h rfl
      obtain rfl := List.singleton_inj.mp hx
      exact .inr ⟨before, y, after, rfl, by rwa [List.concat_eq_append] at hP⟩
  · rintro (hP | ⟨before, y, after, rfl, hP⟩)
    · exact ⟨l, x, [], rfl, hP⟩
    · exact ⟨before, y, after ++ [x], by simp, hP⟩

/-- A field that is not an error overwrites none. -/
theorem overwritten_append {after : List (String × Extra)} {x : String × Extra} :
    Overwritten (after ++ [x]) ↔ Overwritten after ∨ Overwritten [x] := by
  simp only [Overwritten, List.mem_append]
  constructor
  · rintro ⟨key, name, message, h | h, hkey⟩
    · exact .inl ⟨key, name, message, h, hkey⟩
    · exact .inr ⟨key, name, message, h, hkey⟩
  · rintro (⟨key, name, message, h, hkey⟩ | ⟨key, name, message, h, hkey⟩)
    · exact ⟨key, name, message, .inl h, hkey⟩
    · exact ⟨key, name, message, .inr h, hkey⟩

theorem Overwritten.cons {after : List (String × Extra)} {x : String × Extra} (h : Overwritten after) :
    Overwritten (x :: after) := by
  obtain ⟨key, name, message, hmem, hkey⟩ := h
  exact ⟨key, name, message, List.mem_cons_of_mem x hmem, hkey⟩

/-- A field that overwrites none leaves the leaks before it. -/
theorem leaksBefore_append {after : List (String × Extra)} {x y : String × Extra}
    (hx : ¬ Overwritten [x]) : LeaksBefore y (after ++ [x]) ↔ LeaksBefore y after := by
  have hover : Overwritten (after ++ [x]) ↔ Overwritten after := by
    rw [overwritten_append]
    exact or_iff_left hx
  constructor
  · intro h
    exact ⟨h.admitted, h.member, h.forbidden, fun hk => h.kept ⟨hk.1, hover.mpr hk.2⟩⟩
  · intro h
    exact ⟨h.admitted, h.member, h.forbidden, fun hk => h.kept ⟨hk.1, hover.mp hk.2⟩⟩

/-- **The members with a forbidden key inside** come from the fields that leak one.

**Proof sketch.** Induction from the right, for all the restrictions `P` of the keys.  The last field
writes its own member and excludes the earlier ones of its key; an error excludes its two fields. -/
theorem leak_iff {own : List (String × Json)} (hown : ∀ m ∈ own, m.2.anyKey isForbiddenKey = false)
    (entries : List (String × Extra)) (hnodup : (entries.map Prod.fst).Nodup) (P : String → Prop) :
    (∃ m ∈ entries.foldl writeExtra own, P m.1 ∧ m.2.anyKey isForbiddenKey = true) ↔
      ∃ before x after, entries = before ++ x :: after ∧ P x.1 ∧ LeaksBefore x after := by
  induction entries using List.reverseRecOn generalizing P with
  | nil =>
    constructor
    · rintro ⟨m, hm, -, hbad⟩
      rw [hown m hm] at hbad
      cases hbad
    · rintro ⟨before, x, after, h, -⟩
      simp at h
  | append_singleton entries x ih =>
    obtain ⟨key, value⟩ := x
    rw [List.map_append, List.nodup_append] at hnodup
    obtain ⟨hnodup, -, hkey⟩ := hnodup
    replace ih := ih hnodup
    rw [List.foldl_append, List.foldl_cons, List.foldl_nil,
      exists_split_append (P := fun x after => P x.1 ∧ LeaksBefore x after)]
    -- a field that neither leaks nor overwrites
    have hquiet : ¬ LeaksBefore (key, value) [] → ¬ Overwritten [(key, value)] →
        ((∃ m ∈ entries.foldl writeExtra own, P m.1 ∧ m.2.anyKey isForbiddenKey = true) ↔
          (P key ∧ LeaksBefore (key, value) []) ∨ ∃ before y after, entries = before ++ y :: after ∧
            P y.1 ∧ LeaksBefore y (after ++ [(key, value)])) := by
      intro hno hover
      simp only [leaksBefore_append hover, ih P, hno, and_false, false_or]
    have hdropped : admitted key = false →
        ¬ LeaksBefore (key, value) [] ∧ ¬ Overwritten [(key, value)] := by
      intro hno
      refine ⟨fun h => by simpa [hno] using h.admitted, ?_⟩
      rintro ⟨k, name, message, hmem, hk⟩
      obtain ⟨rfl, -⟩ := Prod.mk.inj (List.mem_singleton.mp hmem)
      rw [hno] at hk
      cases hk
    simp only [writeExtra]
    split
    next hprotected =>
      obtain ⟨hno, hover⟩ := hdropped (by simp [admitted, hprotected])
      exact hquiet hno hover
    next hprotected =>
    split
    next hforbidden =>
      obtain ⟨hno, hover⟩ := hdropped (by simp [admitted, hforbidden])
      exact hquiet hno hover
    next hforbidden =>
    have hadmitted : admitted key = true := by simp [admitted, hprotected, hforbidden]
    cases value with
    | undefined =>
      refine hquiet (fun h => ?_) ?_
      · obtain ⟨v, hv, -⟩ := h.forbidden
        cases hv
      · rintro ⟨k, name, message, hmem, -⟩
        simp at hmem
    | error name message =>
      have hover : ∀ after : List (String × Extra), Overwritten (after ++ [(key, .error name message)]) :=
        fun after => ⟨key, name, message, by simp, hadmitted⟩
      rw [leak_error, ih fun k => P k ∧ k ∉ errorFields]
      constructor
      · rintro ⟨before, y, after, rfl, ⟨hP, hno⟩, h⟩
        exact .inr ⟨before, y, after, rfl, hP, h.admitted, h.member, h.forbidden, fun hk => hno hk.1⟩
      · rintro (⟨-, h⟩ | ⟨before, y, after, rfl, hP, h⟩)
        · obtain ⟨v, hv, -⟩ := h.forbidden
          cases hv
        · have hno : y.1 ∉ errorFields := fun hy => h.kept ⟨hy, hover after⟩
          exact ⟨before, y, after, rfl, ⟨hP, hno⟩, h.admitted, h.member, h.forbidden,
            fun hk => hno hk.1⟩
    | json value =>
      have hover : ¬ Overwritten [(key, .json value)] := by
        rintro ⟨k, name, message, hmem, -⟩
        simp at hmem
      by_cases hproto : key = "__proto__"
      · have hsame : assign (entries.foldl writeExtra own) key value = entries.foldl writeExtra own := by
          rw [assign, if_pos hproto]
        show (∃ m ∈ assign (entries.foldl writeExtra own) key value, _) ↔ _
        rw [hsame]
        exact hquiet (fun h => h.member hproto) hover
      · show (∃ m ∈ assign (entries.foldl writeExtra own) key value, _) ↔ _
        rw [leak_assign hproto, ih fun k => P k ∧ k ≠ key]
        simp only [leaksBefore_append hover]
        refine or_congr ?_ ?_
        · refine and_congr_right fun _ => ⟨fun h => ?_, fun h => ?_⟩
          · exact ⟨hadmitted, hproto, ⟨value, rfl, h⟩, by simp [Overwritten]⟩
          · obtain ⟨v, hv, hbad⟩ := h.forbidden
            obtain rfl : value = v := by simpa using hv
            exact hbad
        · constructor
          · rintro ⟨before, y, after, h, ⟨hP, -⟩, hleak⟩
            exact ⟨before, y, after, h, hP, hleak⟩
          · rintro ⟨before, y, after, h, hP, hleak⟩
            have hne : y.1 ≠ key := hkey y.1 (by simp [h]) key (by simp)
            exact ⟨before, y, after, h, ⟨hP, hne⟩, hleak⟩

/-! ## The keys of the line -/

section Line

variable {entry : List (String × Json)} {x : String × Extra}

/-- No member of the line itself has a forbidden key. -/
def KeysAllowed (entry : List (String × Json)) : Prop := ∀ m ∈ entry, isForbiddenKey m.1 = false

theorem KeysAllowed.assign {key : String} {value : Json} (h : KeysAllowed entry)
    (hkey : isForbiddenKey key = false) : KeysAllowed (assign entry key value) := by
  by_cases hproto : key = "__proto__"
  · rwa [PaymentWebhook.assign, if_pos hproto]
  · intro m hm
    rcases (mem_assign hproto).mp hm with rfl | ⟨hm, -⟩
    · exact hkey
    · exact h m hm

theorem KeysAllowed.writeExtra (h : KeysAllowed entry) : KeysAllowed (writeExtra entry x) := by
  obtain ⟨key, value⟩ := x
  simp only [PaymentWebhook.writeExtra]
  split
  next => exact h
  next =>
  split
  next => exact h
  next hkey =>
    cases value with
    | undefined => exact h
    | error name message =>
      have hmessage : isForbiddenKey "error_message" = false := by decide
      have hname : isForbiddenKey "error_name" = false := by decide
      exact (h.assign hmessage).assign hname
    | json value => exact h.assign (Bool.eq_false_iff.mpr hkey)

/-- An extra field does not change the fields of the logger. -/
theorem find_writeExtra {k : String} (hk : k ∈ PROTECTED_FIELDS) :
    (writeExtra entry x).find? (fun m => m.1 = k) = entry.find? (fun m => m.1 = k) := by
  obtain ⟨key, value⟩ := x
  have herror : ∀ key' ∈ errorFields, k ≠ key' := by
    revert k
    decide
  simp only [writeExtra]
  split
  next => rfl
  next hprotected =>
  split
  next => rfl
  next =>
    cases value with
    | undefined => rfl
    | error name message =>
      simp only [safeSerializeError, List.foldl_cons, List.foldl_nil]
      rw [find_assign (herror "error_name" (by decide)), find_assign (herror "error_message" (by decide))]
    | json value => exact find_assign fun h => hprotected (h ▸ hk)

/-- What one field keeps, the fields of a whole line keep. -/
theorem foldl_writeExtra {P : List (String × Json) → Prop} (hP : ∀ entry x, P entry → P (writeExtra entry x))
    (entries : List (String × Extra)) (h : P entry) : P (entries.foldl writeExtra entry) := by
  induction entries generalizing entry with
  | nil => exact h
  | cons x entries ih => exact ih (hP entry x h)

end Line

section Write

variable {service timestamp event : String} {level : LogLevel} {extras : Option Extras}

/-- The line of an event without extra fields is that of an empty list of them. -/
theorem StructuredLogger.write_eq : (write service timestamp level event extras).2 =
    .obj ((extras.elim [] Extras.entries).foldl writeExtra
      (ownFields timestamp level service event)) := by
  cases extras <;> rfl

/-- **The fields of the logger are its own**, whatever the caller supplies. -/
theorem StructuredLogger.write_own {k : String} (hk : k ∈ PROTECTED_FIELDS) :
    (write service timestamp level event extras).2.get? k =
      (Json.obj (ownFields timestamp level service event)).get? k := by
  rw [write_eq]
  refine congrArg (Option.map Prod.snd) ?_
  refine foldl_writeExtra (P := fun entry => entry.find? (fun m => m.1 = k) =
    (ownFields timestamp level service event).find? (fun m => m.1 = k)) ?_ _ rfl
  intro entry x h
  rw [find_writeExtra hk, h]

/-- A forbidden key of the line is one inside a value that an extra field leaks. -/
theorem StructuredLogger.anyKey_write :
    (write service timestamp level event extras).2.anyKey isForbiddenKey = true ↔
      ∃ x ∈ extras, Leaks x.entries := by
  have hown : ∀ m ∈ ownFields timestamp level service event, m.2.anyKey isForbiddenKey = false := by
    simp [ownFields, Json.anyKey]
  have hkeys : KeysAllowed (ownFields timestamp level service event) := by
    intro m hm
    have hm' : m.1 ∈ PROTECTED_FIELDS := List.mem_map_of_mem (f := Prod.fst) hm
    revert hm'
    generalize m.1 = k
    revert k
    decide
  have hallowed := foldl_writeExtra (fun _ _ h => KeysAllowed.writeExtra h)
    (extras.elim [] Extras.entries) hkeys
  have hnodup : ((extras.elim [] Extras.entries).map Prod.fst).Nodup := by
    cases extras with
    | none => exact List.nodup_nil
    | some extras => exact extras.nodup
  have hleak := leak_iff hown _ hnodup fun _ => True
  rw [write_eq, Json.anyKey, Json.anyKeyMembers_iff]
  calc (∃ m ∈ (extras.elim [] Extras.entries).foldl writeExtra (ownFields timestamp level service event),
          isForbiddenKey m.1 = true ∨ m.2.anyKey isForbiddenKey = true)
      ↔ ∃ m ∈ (extras.elim [] Extras.entries).foldl writeExtra (ownFields timestamp level service event),
          True ∧ m.2.anyKey isForbiddenKey = true := by
        refine exists_congr fun m => and_congr_right fun hm => ?_
        rw [hallowed m hm, true_and, Bool.false_eq_true, false_or]
    _ ↔ Leaks (extras.elim [] Extras.entries) := by
        rw [hleak]
        simp only [true_and, Leaks]
    _ ↔ ∃ x ∈ extras, Leaks x.entries := by
        cases extras with
        | none =>
          refine iff_of_false ?_ (by simp)
          rintro ⟨before, x, after, h, -⟩
          simp at h
        | some extras => simp

end Write

/-- **When no forbidden key reaches the line**: the fields of the logger are always its own, and some
object in the line has a forbidden key exactly when an extra field leaks one. -/
theorem no_forbidden_key_iff (service timestamp event : String) (level : LogLevel)
    (extras : Option Extras) :
    let line := (StructuredLogger.write service timestamp level event extras).2
    (line.anyKey isForbiddenKey = false ∧ line.get? "timestamp" = some (.str timestamp) ∧
      line.get? "level" = some (.str level.text) ∧ line.get? "service" = some (.str service) ∧
      line.get? "event" = some (.str event)) ↔
    ∀ x ∈ extras, ¬ Leaks x.entries := by
  intro line
  have hkeys : line.anyKey isForbiddenKey = false ↔ ∀ x ∈ extras, ¬ Leaks x.entries := by
    rw [Bool.eq_false_iff, ne_eq, StructuredLogger.anyKey_write, not_exists]
    exact forall_congr' fun x => not_and
  rw [hkeys]
  refine and_iff_left ⟨?_, ?_, ?_, ?_⟩ <;> exact StructuredLogger.write_own (by decide)

/-- Extra fields of a request whose body was logged as it came. -/
def bodyExtras : Extras where
  entries := [("body", .json (.obj [("password", .str "hunter2")]))]
  nodup := by decide

/-- A forbidden key inside an object reaches the line. -/
theorem nested_key_leaks :
    (StructuredLogger.write "api" "2025-01-01T00:00:00.000Z" .info "webhook.received"
      (some bodyExtras)).2.anyKey isForbiddenKey = true := by
  decide

end PaymentWebhook
