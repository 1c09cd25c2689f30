import Mathlib.Data.List.Flatten
import PaymentWebhook.Transactions.Triples

set_option relaxedAutoImplicit false
set_option autoImplicit false

/-!
# Redoing a log, and why locks make it possible

A transaction computes its row versions while other transactions commit, and `COMMIT` installs
them blindly.  That this loses no update is a theorem about the locks: the log of the
transaction can be *redone* on the store it commits into, every statement that found a row
returning the same rows and computing the same versions.  What is needed of the statement language is that a
statement depends on the store only through the rows it locks (`Transactions.Locality`).

## Main definitions

* `Transactions.Redoes` — a log can be executed on a store, statement by statement, with the
  answers it records.
* `Transactions.Locality` — the statements of an engine are local to the rows they lock.

## Main results

* `Transactions.Locality.redoes_install` — two logs with disjoint locks that can both be redone
  on a store can be redone one after the other.
* `Transactions.Prog.run_redoes` — a call on its own commits logs that can be redone.
-/

namespace Transactions

variable {E : Engine} {α : Type}

/-- The store after the writes of one executed statement. -/
abbrev Entry.install (e : Entry E) (s : E.Store) : E.Store := e.writes.foldl E.apply s

/-- The statement found no row (and wrote nothing). -/
def Entry.Missed (e : Entry E) : Prop := E.misses e.stmt e.rows = true ∧ e.writes = []

/-- The statement can be executed on `s` with the answer and the writes it records, a
`SKIP LOCKED` scan passing over some choice of rows.  Of a statement that found no row nothing
is asked. -/
def Entry.Valid (e : Entry E) (s : E.Store) : Prop :=
  e.Missed ∨ ∃ skip, E.exec e.stmt e.draws skip s = .ok (e.rows, e.writes)

/-- The statement has been executed on some store, with the answer and the writes it records. -/
def Entry.Executed (e : Entry E) : Prop :=
  ∃ skip s, E.exec e.stmt e.draws skip s = .ok (e.rows, e.writes)

/-- The log can be executed on `s`, statement by statement. -/
def Redoes : List (Entry E) → E.Store → Prop
  | [], _ => True
  | e :: log, s => e.Valid s ∧ Redoes log (e.install s)

@[simp] theorem redoes_nil (s : E.Store) : Redoes ([] : List (Entry E)) s := trivial

@[simp] theorem redoes_cons (e : Entry E) (log : List (Entry E)) (s : E.Store) :
    Redoes (e :: log) s ↔ e.Valid s ∧ Redoes log (e.install s) := Iff.rfl

theorem redoes_append (log log' : List (Entry E)) (s : E.Store) :
    Redoes (log ++ log') s ↔ Redoes log s ∧ Redoes log' (install s log) := by
  induction log generalizing s with
  | nil => simp
  | cons e log ih => simp only [List.cons_append, redoes_cons, ih, install_cons, and_assoc]

/-- A prefix of a log that can be redone can be redone. -/
theorem Redoes.initial {log log' : List (Entry E)} {s : E.Store} (h : Redoes log' s)
    (hp : log <+: log') : Redoes log s := by
  obtain ⟨rest, rfl⟩ := hp
  exact ((redoes_append log rest s).mp h).1

/-- **Locality** of a statement language: `Agree K s s'` compares two stores on the rows in `K`
(and on what nobody ever changes); a statement that locks only rows in `K` cannot tell them
apart, and one that locks no row in `K` keeps what `K` sees.  `Inv` is an invariant of the
stores that the statements keep. -/
structure Locality (E : Engine) where
  Inv : E.Store → Prop
  Agree : (E.Key → Prop) → E.Store → E.Store → Prop
  refl : ∀ K s, Agree K s s
  trans : ∀ {K s₁ s₂ s₃}, Agree K s₁ s₂ → Agree K s₂ s₃ → Agree K s₁ s₃
  inv : ∀ {q d skip s rows ws}, Inv s → E.exec q d skip s = .ok (rows, ws) →
    Inv (ws.foldl E.apply s)
  transfer : ∀ {K q d skip s s' rows ws}, Inv s → Inv s' → (∀ k ∈ E.keys q rows ws, K k) →
    Agree K s s' → E.exec q d skip s = .ok (rows, ws) →
    (⟨q, d, rows, ws⟩ : Entry E).Valid s' ∧
      Agree K (ws.foldl E.apply s) (ws.foldl E.apply s')
  frame : ∀ {K q d skip s rows ws}, Inv s → (∀ k ∈ E.keys q rows ws, ¬ K k) →
    E.exec q d skip s = .ok (rows, ws) → Agree K s (ws.foldl E.apply s)

namespace Locality

variable (L : Locality E)

/-- The invariant survives a statement. -/
theorem inv_entry {e : Entry E} {s : E.Store} (hs : L.Inv s) (h : e.Valid s) :
    L.Inv (e.install s) := by
  rcases h with ⟨-, hw⟩ | ⟨skip, he⟩
  · simpa [Entry.install, hw] using hs
  · exact L.inv hs he

/-- A statement can be redone on a store that agrees on the rows it locks. -/
theorem transfer_entry {e : Entry E} {K : E.Key → Prop} {s s' : E.Store} (hs : L.Inv s)
    (hs' : L.Inv s') (hK : ∀ k ∈ e.keys, K k) (ha : L.Agree K s s') (h : e.Valid s) :
    e.Valid s' ∧ L.Agree K (e.install s) (e.install s') := by
  rcases h with ⟨hm, hw⟩ | ⟨skip, he⟩
  · exact ⟨.inl ⟨hm, hw⟩, by simpa [Entry.install, hw] using ha⟩
  · exact L.transfer hs hs' hK ha he

/-- A statement that locks no row in `K` keeps what `K` sees. -/
theorem frame_entry {e : Entry E} {K : E.Key → Prop} {s : E.Store} (hs : L.Inv s)
    (hK : ∀ k ∈ e.keys, ¬ K k) (h : e.Valid s) : L.Agree K s (e.install s) := by
  rcases h with ⟨-, hw⟩ | ⟨skip, he⟩
  · simpa [Entry.install, hw] using L.refl K s
  · exact L.frame hs hK he

/-- The invariant survives a log. -/
theorem inv_install {log : List (Entry E)} {s : E.Store} (hs : L.Inv s) (h : Redoes log s) :
    L.Inv (install s log) := by
  induction log generalizing s with
  | nil => exact hs
  | cons e log ih => exact ih (L.inv_entry hs h.1) h.2

/-- A log can be redone on a store that agrees on the rows it locks. -/
theorem redoes_transfer {log : List (Entry E)} {K : E.Key → Prop} {s s' : E.Store}
    (hs : L.Inv s) (hs' : L.Inv s') (hK : ∀ e ∈ log, ∀ k ∈ e.keys, K k) (ha : L.Agree K s s')
    (h : Redoes log s) : Redoes log s' := by
  induction log generalizing s s' with
  | nil => trivial
  | cons e log ih =>
    obtain ⟨hv, ha'⟩ := L.transfer_entry hs hs' (hK e (by simp)) ha h.1
    exact ⟨hv, ih (L.inv_entry hs h.1) (L.inv_entry hs' hv) (fun e' he' => hK e' (by simp [he'])) ha' h.2⟩

/-- A log that locks no row in `K` keeps what `K` sees. -/
theorem agree_install {log : List (Entry E)} {K : E.Key → Prop} {s : E.Store} (hs : L.Inv s)
    (hK : ∀ e ∈ log, ∀ k ∈ e.keys, ¬ K k) (h : Redoes log s) :
    L.Agree K s (install s log) := by
  induction log generalizing s with
  | nil => exact L.refl K s
  | cons e log ih =>
    exact L.trans (L.frame_entry hs (hK e (by simp)) h.1)
      (ih (L.inv_entry hs h.1) (fun e' he' => hK e' (by simp [he'])) h.2)

/-- **Disjoint locks**: of two logs that can be redone on a store and lock different rows, the
second can still be redone after the first has been installed.

**Proof sketch.** With `K` the rows the second log locks, installing the first keeps what `K`
sees (`agree_install`), and the second cannot tell the difference (`redoes_transfer`). -/
theorem redoes_install {log log' : List (Entry E)} {s : E.Store} (hs : L.Inv s)
    (hd : ∀ e ∈ log, ∀ k ∈ e.keys, ∀ e' ∈ log', k ∉ e'.keys) (h : Redoes log s)
    (h' : Redoes log' s) : Redoes log' (install s log) := by
  let K : E.Key → Prop := fun k => ∃ e' ∈ log', k ∈ e'.keys
  refine L.redoes_transfer (K := K) hs (L.inv_install hs h) (fun e' he' k hk => ⟨e', he', hk⟩) ?_ h'
  refine L.agree_install hs (fun e he k hk => ?_) h
  rintro ⟨e', he', hk'⟩
  exact hd e he k hk e' he' hk'

end Locality

/-! ## Redoing the logs of one connection -/

/-- What the log of an open transaction has to satisfy against the committed store: it can be
redone, and so can what its savepoint remembers, being a part of it. -/
structure Tx.Sound (t : Tx E) (db : E.Store) : Prop where
  redoes : Redoes t.log db
  saved : ∀ l, t.saved = some l → l <+: t.log

theorem Tx.Sound.opened (d : E.Draws) (db : E.Store) : (Tx.opened d : Tx E).Sound db :=
  ⟨trivial, by simp⟩

theorem Tx.Sound.abort {t : Tx E} {db : E.Store} (h : t.Sound db) : t.abort.Sound db :=
  ⟨h.redoes, h.saved⟩

/-- Carrying out a request keeps the transaction of its connection sound. -/
theorem serve_sound {db : E.Store} {tx : Option (Tx E)} (d : E.Draws) (skip : E.Key → Bool)
    (r : Request E) (h : ∀ t, tx = some t → t.Sound db) :
    ∀ t, (serve db tx d skip r).tx = some t → t.Sound db := by
  have hrefuse : ∀ t, (refuse db tx r).tx = some t → t.Sound db := by
    intro t ht
    obtain ⟨t₀, h₀, rfl⟩ := Option.map_eq_some_iff.mp ht
    exact (h t₀ h₀).abort
  intro t ht
  cases r with
  | begin =>
    obtain rfl : tx.getD (Tx.opened d) = t := by simpa [serve] using ht
    cases tx with
    | none => exact Tx.Sound.opened d db
    | some t => exact h t rfl
  | savepoint =>
    rcases tx with _ | ⟨b, log, saved, _ | _⟩
    · exact hrefuse t ht
    · have h₀ := h _ rfl
      obtain rfl : _ = t := Option.some.inj ht
      exact ⟨h₀.redoes, fun l hl => Option.some.inj hl ▸ List.prefix_refl log⟩
    · exact hrefuse t ht
  | rollbackTo =>
    rcases tx with _ | ⟨b, log, _ | saved, ab⟩
    · exact hrefuse t ht
    · exact hrefuse t ht
    · have h₀ := h _ rfl
      obtain rfl : _ = t := Option.some.inj ht
      exact ⟨h₀.redoes.initial (h₀.saved saved rfl),
        fun l hl => Option.some.inj hl ▸ List.prefix_refl saved⟩
  | release =>
    rcases tx with _ | ⟨b, log, _ | saved, _ | _⟩
    · exact hrefuse t ht
    · exact hrefuse t ht
    · exact hrefuse t ht
    · have h₀ := h _ rfl
      obtain rfl : _ = t := Option.some.inj ht
      exact ⟨h₀.redoes, by simp⟩
    · exact hrefuse t ht
  | commit =>
    rcases tx with _ | ⟨b, log, saved, _ | _⟩
    · exact hrefuse t ht
    · simp [serve] at ht
    · simp [serve] at ht
  | rollback => simp [serve] at ht
  | run q =>
    rcases tx with _ | ⟨b, log, saved, _ | _⟩
    · exact hrefuse t ht
    · have h₀ := h _ rfl
      simp only [serve] at ht
      cases he : E.exec q d skip (install db log) with
      | error e =>
        rw [he] at ht
        obtain rfl : _ = t := Option.some.inj ht
        exact ⟨h₀.redoes, h₀.saved⟩
      | ok x =>
        rw [he] at ht
        obtain rfl : _ = t := Option.some.inj ht
        refine ⟨(redoes_append _ _ _).mpr ⟨h₀.redoes, .inr ⟨skip, he⟩, trivial⟩, fun l hl => ?_⟩
        exact (h₀.saved l hl).trans (List.prefix_append log _)
    · exact hrefuse t ht

/-- Whatever becomes of a request, the transaction of its connection stays sound. -/
theorem respond_sound {db : E.Store} {tx : Option (Tx E)} (d : E.Draws) (skip : E.Key → Bool)
    (fate : Fate E) (r : Request E) (h : ∀ t, tx = some t → t.Sound db) :
    ∀ t, (respond db tx d skip fate r).tx = some t → t.Sound db := by
  intro t ht
  rcases fate with _ | e | ⟨e, _ | _⟩ | ⟨_ | _⟩
  · exact serve_sound d skip r h t ht
  · have hr : r ≠ .commit := by rintro rfl; simp [respond, afterError] at ht
    have ht' : tx.map Tx.abort = some t := by cases r <;> first | exact ht | exact absurd rfl hr
    obtain ⟨t₀, h₀, rfl⟩ := Option.map_eq_some_iff.mp ht'
    exact (h t₀ h₀).abort
  all_goals simp [respond] at ht

/-! ## What a request does to the log of its connection -/

/-- The log of the open transaction, if there is one. -/
def openLog (tx : Option (Tx E)) : List (Entry E) := (tx.map Tx.log).getD []

@[simp] theorem openLog_none : openLog (none : Option (Tx E)) = [] := rfl
@[simp] theorem openLog_some (t : Tx E) : openLog (some t) = t.log := rfl

/-- Carrying out a request cuts the log of the connection back, or extends it by the statement
it has executed. -/
theorem serve_log {db : E.Store} {tx : Option (Tx E)} (d : E.Draws) (skip : E.Key → Bool)
    (r : Request E) (h : ∀ t, tx = some t → t.Sound db) :
    openLog (serve db tx d skip r).tx <+: openLog tx ∨
    ∃ q rows ws, r = .run q ∧ E.exec q d skip (install db (openLog tx)) = .ok (rows, ws) ∧
      openLog (serve db tx d skip r).tx = openLog tx ++ [⟨q, d, rows, ws⟩] := by
  have hrefuse : openLog (refuse db tx r).tx = openLog tx := by cases tx <;> rfl
  cases r with
  | begin => left; cases tx <;> exact List.prefix_refl _
  | savepoint => left; rcases tx with _ | ⟨b, log, saved, _ | _⟩ <;> exact List.prefix_refl _
  | rollbackTo =>
    left
    rcases tx with _ | ⟨b, log, _ | saved, ab⟩
    · exact List.prefix_refl _
    · exact List.prefix_refl _
    · exact (h _ rfl).saved saved rfl
  | release => left; rcases tx with _ | ⟨b, log, _ | saved, _ | _⟩ <;> exact List.prefix_refl _
  | commit =>
    left
    rcases tx with _ | ⟨b, log, saved, _ | _⟩ <;> exact List.nil_prefix
  | rollback => exact .inl List.nil_prefix
  | run q =>
    rcases tx with _ | ⟨b, log, saved, _ | _⟩
    · exact .inl (List.prefix_refl _)
    · simp only [serve, openLog_some]
      cases hx : E.exec q d skip (install db log) with
      | error e => exact .inl (List.prefix_refl _)
      | ok x => exact .inr ⟨q, x.1, x.2, rfl, hx, rfl⟩
    · exact .inl (List.prefix_refl _)

/-- Whatever becomes of a request, it cuts the log of its connection back, or extends it by the
statement it has executed. -/
theorem respond_log {db : E.Store} {tx : Option (Tx E)} (d : E.Draws) (skip : E.Key → Bool)
    (fate : Fate E) (r : Request E) (h : ∀ t, tx = some t → t.Sound db) :
    openLog (respond db tx d skip fate r).tx <+: openLog tx ∨
    ∃ q rows ws, r = .run q ∧ E.exec q d skip (install db (openLog tx)) = .ok (rows, ws) ∧
      openLog (respond db tx d skip fate r).tx = openLog tx ++ [⟨q, d, rows, ws⟩] := by
  rcases fate with _ | e | ⟨e, _ | _⟩ | ⟨_ | _⟩
  · exact serve_log d skip r h
  · left
    cases r <;> first | exact List.nil_prefix | (cases tx <;> exact List.prefix_refl _)
  all_goals exact .inl List.nil_prefix

/-! ## A call on its own -/

/-- **A call on its own**: the logs it commits can be redone one after the other from the store
it started in, and installing them gives the store it leaves.

**Proof sketch.** Induction on the program, with the transaction of the connection sound
throughout (`respond_sound`); a commit installs the log of a sound transaction. -/
theorem Prog.run_redoes (mv : ℕ → Move E) :
    ∀ (p : Prog E α) (k : ℕ) (db : E.Store) (c : Conn E), (∀ t, c.tx = some t → t.Sound db) →
      ∃ logs, (p.run mv k db c).2.2.commits = c.commits ++ logs ∧ Redoes logs.flatten db ∧
        (p.run mv k db c).2.1 = install db logs.flatten
  | done a, k, db, c, _ => ⟨[], by simp [run]⟩
  | fail e, k, db, c, _ => ⟨[], by simp [run]⟩
  | ask r ok failed, k, db, c, hc => by
    set s := respond db c.tx (mv k).draws (mv k).skip (mv k).fate r with hs
    have hone : ∃ logs, s.commits = logs ∧ Redoes logs.flatten db ∧
        s.store = install db logs.flatten ∧ (logs = [] ∨ s.tx = none) := by
      rcases respond_store db c.tx (mv k).draws (mv k).skip (mv k).fate r with
        ⟨h1, h2⟩ | ⟨-, t, ht, -, h1, h2, h3⟩
      · exact ⟨[], h2, trivial, h1, .inl rfl⟩
      · exact ⟨[t.log], h2, by simpa using (hc t ht).redoes, by simpa using h1, .inr h3⟩
    obtain ⟨logs, h1, h2, h3, h4⟩ := hone
    have hsound : ∀ t, (c.after s).tx = some t → t.Sound s.store := by
      intro t ht
      rcases h4 with rfl | h4
      · rw [h3]
        exact respond_sound _ _ _ r hc t ht
      · rw [Conn.after_tx, h4] at ht
        cases ht
    have hcompose : ∀ {X : Outcome E α × E.Store × Conn E},
        (∃ logs', X.2.2.commits = (c.after s).commits ++ logs' ∧ Redoes logs'.flatten s.store ∧
          X.2.1 = install s.store logs'.flatten) →
        ∃ logs', X.2.2.commits = c.commits ++ logs' ∧ Redoes logs'.flatten db ∧
          X.2.1 = install db logs'.flatten := by
      rintro X ⟨logs', e1, e2, e3⟩
      rw [h3] at e2 e3
      refine ⟨logs ++ logs', by simp [e1, h1], ?_, by simp [e3]⟩
      rw [List.flatten_append, redoes_append]
      exact ⟨h2, e2⟩
    simp only [run, ← hs]
    split
    · exact ⟨logs, by simp [h1], h2, h3⟩
    · split
      · exact hcompose (run_redoes mv _ _ _ _ hsound)
      · exact hcompose (run_redoes mv _ _ _ _ hsound)

end Transactions
