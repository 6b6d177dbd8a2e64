import Mathlib.Tactic
import Selatpay.Core.Locks

/-!
# Concurrent transactions over unique keys

A transaction gathers its inserted and updated rows as a log of effects and sees
the committed state with its own log applied. An effect that inserts a row claims
unique keys; the key is locked for the inserting session until its transaction
ends, so a second inserter waits. `TxState.Sound` is what this discipline gives in
every state: one owner per key, and no key twice in what any session sees.
-/

namespace Selatpay

/-- How effects change a store and which unique keys they insert. -/
structure Engine (Db Eff Key : Type) where
  /-- Apply one effect. -/
  apply : Db → Eff → Db
  /-- The unique keys present in a store. -/
  dbKeys : Db → List Key
  /-- The unique keys an effect inserts. -/
  effKeys : Eff → List Key
  /-- An effect adds its keys and removes none. -/
  dbKeys_apply : ∀ db e, (dbKeys (apply db e)).Perm (dbKeys db ++ effKeys e)

namespace Engine

variable {Db Eff Key : Type} (E : Engine Db Eff Key)

/-- The store a transaction with this log sees. -/
def view (db : Db) (log : List Eff) : Db := log.foldl E.apply db

/-- The unique keys a log inserts. -/
def logKeys (log : List Eff) : List Key := log.flatMap E.effKeys

@[simp] theorem view_nil (db : Db) : E.view db [] = db := rfl

@[simp] theorem view_append (db : Db) (l m : List Eff) :
    E.view db (l ++ m) = E.view (E.view db l) m := List.foldl_append

@[simp] theorem logKeys_nil : E.logKeys [] = [] := rfl

@[simp] theorem logKeys_append (l m : List Eff) :
    E.logKeys (l ++ m) = E.logKeys l ++ E.logKeys m := List.flatMap_append

/-- A log adds its keys and removes none. -/
theorem dbKeys_view (db : Db) (log : List Eff) :
    (E.dbKeys (E.view db log)).Perm (E.dbKeys db ++ E.logKeys log) := by
  induction log generalizing db with
  | nil => simp
  | cons e log ih =>
    have hview : E.view db (e :: log) = E.view (E.apply db e) log := rfl
    have hkeys : E.logKeys (e :: log) = E.effKeys e ++ E.logKeys log := rfl
    rw [hview, hkeys, ← List.append_assoc]
    exact (ih _).trans ((E.dbKeys_apply db e).append_right _)

end Engine

/-- The committed store, the locks held and the log of each session's open transaction. -/
structure TxState (Db Eff Key ω : Type) where
  /-- The committed store. -/
  db : Db
  /-- The locks held by open transactions. -/
  locks : Locks Key ω
  /-- The effects gathered by each open transaction. -/
  log : ω → List Eff

namespace TxState

variable {Db Eff Key ω : Type}

/-- No transaction is open. -/
def init (db : Db) : TxState Db Eff Key ω := ⟨db, [], fun _ => []⟩

/-- No committed row and no open transaction carries the key. -/
def unseen (E : Engine Db Eff Key) (s : TxState Db Eff Key ω) (k : Key) : Prop :=
  k ∉ E.dbKeys s.db ∧ ∀ p ∈ s.locks, p.1 ≠ k

instance [DecidableEq Key] (E : Engine Db Eff Key) (s : TxState Db Eff Key ω) (k : Key) :
    Decidable (s.unseen E k) :=
  inferInstanceAs (Decidable (k ∉ E.dbKeys s.db ∧ ∀ p ∈ s.locks, p.1 ≠ k))

/-- Every key has one owner and no session sees a key twice. -/
structure Sound (E : Engine Db Eff Key) (s : TxState Db Eff Key ω) : Prop where
  /-- No lock is held twice. -/
  exclusive : s.locks.Exclusive
  /-- The keys of a log are locked by its session. -/
  held : ∀ w, ∀ k ∈ E.logKeys (s.log w), (k, w) ∈ s.locks
  /-- The committed keys are unique. -/
  unique : (E.dbKeys s.db).Nodup
  /-- The keys of a log are unique and not committed. -/
  isolated : ∀ w, (E.dbKeys s.db ++ E.logKeys (s.log w)).Nodup

namespace Sound

variable {E : Engine Db Eff Key} {s : TxState Db Eff Key ω} {w v : ω} {k : Key} {ks : List Key}
  {db : Db}

theorem init (h : (E.dbKeys db).Nodup) : Sound E (TxState.init db : TxState Db Eff Key ω) where
  exclusive := Locks.exclusive_nil
  held := by intro w k hk; cases hk
  unique := h
  isolated := by intro w; simpa [TxState.init] using h

/-- What a session sees has unique keys. -/
theorem view_unique (h : Sound E s) (w : ω) : (E.dbKeys (E.view s.db (s.log w))).Nodup :=
  (E.dbKeys_view _ _).nodup_iff.mpr (h.isolated w)

/-- A key inserted by an open transaction is not committed. -/
theorem not_mem_db (h : Sound E s) (hk : k ∈ E.logKeys (s.log w)) : k ∉ E.dbKeys s.db :=
  fun hdb => (List.disjoint_of_nodup_append (h.isolated w)) hdb hk

/-- Two open transactions do not insert the same key. -/
theorem owner_eq (h : Sound E s) (hw : k ∈ E.logKeys (s.log w)) (hv : k ∈ E.logKeys (s.log v)) :
    w = v :=
  h.exclusive k w v (h.held w k hw) (h.held v k hv)

/-- An unseen key is in nobody's log. -/
theorem not_mem_log (h : Sound E s) (hk : s.unseen E k) (w : ω) : k ∉ E.logKeys (s.log w) :=
  fun hlog => hk.2 _ (h.held w k hlog) rfl

/-- An unseen key is in nobody's view. -/
theorem not_mem_view (h : Sound E s) (hk : s.unseen E k) (w : ω) :
    k ∉ E.dbKeys (E.view s.db (s.log w)) := by
  intro hmem
  rcases List.mem_append.mp ((E.dbKeys_view _ _).mem_iff.mp hmem) with hdb | hlog
  · exact hk.1 hdb
  · exact h.not_mem_log hk w hlog

/-- A transaction of its own keeps soundness when it adds unique keys that no other one inserts. -/
theorem write (h : Sound E s) (hperm : (E.dbKeys db).Perm (E.dbKeys s.db ++ ks))
    (hks : ks.Nodup) (hnew : ∀ k ∈ ks, k ∉ E.dbKeys s.db)
    (hfree : ∀ k ∈ ks, ∀ v, k ∉ E.logKeys (s.log v)) : Sound E { s with db := db } := by
  have hunique : (E.dbKeys db).Nodup :=
    hperm.nodup_iff.mpr (List.nodup_append'.mpr ⟨h.unique, hks, fun k hk hk' => hnew k hk' hk⟩)
  refine ⟨h.exclusive, h.held, hunique, fun v => ?_⟩
  refine List.nodup_append'.mpr ⟨hunique, (List.nodup_append'.mp (h.isolated v)).2.1, ?_⟩
  intro k hk hk'
  rcases List.mem_append.mp (hperm.mem_iff.mp hk) with hdb | hks
  · exact h.not_mem_db hk' hdb
  · exact hfree k hks v hk'

end Sound

/-! ## Statements, commits and rollbacks -/

variable [DecidableEq ω]

/-- A statement takes its locks and leaves its effects in the log. -/
def extend (s : TxState Db Eff Key ω) (w : ω) (ks : List Key) (es : List Eff) :
    TxState Db Eff Key ω :=
  { s with locks := s.locks.acquire w ks, log := Function.update s.log w (s.log w ++ es) }

/-- End a session's transaction with a given committed store. -/
def finish (s : TxState Db Eff Key ω) (w : ω) (db : Db) : TxState Db Eff Key ω :=
  ⟨db, s.locks.release w, Function.update s.log w []⟩

/-- Make a session's log part of the committed store. -/
def commit (E : Engine Db Eff Key) (s : TxState Db Eff Key ω) (w : ω) : TxState Db Eff Key ω :=
  s.finish w (E.view s.db (s.log w))

/-- Drop a session's log. -/
def rollback (s : TxState Db Eff Key ω) (w : ω) : TxState Db Eff Key ω := s.finish w s.db

section Fields

variable (s : TxState Db Eff Key ω) (E : Engine Db Eff Key) (w v : ω) (ks : List Key)
  (es : List Eff) (db : Db)

@[simp] theorem extend_db : (s.extend w ks es).db = s.db := rfl

@[simp] theorem extend_log_self : (s.extend w ks es).log w = s.log w ++ es := by simp [extend]

@[simp] theorem extend_log_ne (h : v ≠ w) : (s.extend w ks es).log v = s.log v := by
  simp [extend, h]

@[simp] theorem finish_db : (s.finish w db).db = db := rfl

@[simp] theorem finish_log_self : (s.finish w db).log w = [] := by simp [finish]

@[simp] theorem finish_log_ne (h : v ≠ w) : (s.finish w db).log v = s.log v := by
  simp [finish, h]

@[simp] theorem commit_db : (s.commit E w).db = E.view s.db (s.log w) := rfl

end Fields

namespace Sound

variable {E : Engine Db Eff Key} {s : TxState Db Eff Key ω} {w v : ω} {k : Key} {ks : List Key}
  {es : List Eff} {db : Db}

/-- A statement that waits for its keys and inserts none that it sees keeps soundness. -/
theorem extend (h : Sound E s) (hfree : s.locks.available w ks)
    (hks : ∀ k ∈ E.logKeys es, k ∈ ks) (hnodup : (E.logKeys es).Nodup)
    (hnew : ∀ k ∈ E.logKeys es, k ∉ E.dbKeys (E.view s.db (s.log w))) :
    Sound E (s.extend w ks es) where
  exclusive := h.exclusive.acquire hfree
  held := by
    intro v k hk
    simp only [TxState.extend, Locks.mem_acquire]
    by_cases hv : v = w
    · subst hv
      rw [extend_log_self, Engine.logKeys_append, List.mem_append] at hk
      rcases hk with hk | hk
      · exact .inr (h.held v k hk)
      · exact .inl ⟨hks k hk, rfl⟩
    · rw [extend_log_ne _ _ _ _ _ hv] at hk
      exact .inr (h.held v k hk)
  unique := h.unique
  isolated := by
    intro v
    by_cases hv : v = w
    · subst hv
      rw [extend_log_self, extend_db, Engine.logKeys_append, ← List.append_assoc]
      refine List.nodup_append'.mpr ⟨h.isolated v, hnodup, ?_⟩
      exact fun k hk hk' => hnew k hk' ((E.dbKeys_view _ _).mem_iff.mpr hk)
    · rw [extend_log_ne _ _ _ _ _ hv]
      exact h.isolated v

/-- Ending a transaction keeps soundness when the committed keys stay clear of the other logs. -/
theorem finish (h : Sound E s) (w : ω) (hdb : (E.dbKeys db).Nodup)
    (hclear : ∀ v, v ≠ w → ∀ k ∈ E.logKeys (s.log v), k ∉ E.dbKeys db) :
    Sound E (s.finish w db) where
  exclusive := h.exclusive.release w
  held := by
    intro v k hk
    by_cases hv : v = w
    · subst hv
      rw [finish_log_self] at hk
      cases hk
    · rw [finish_log_ne _ _ _ _ hv] at hk
      exact Locks.mem_release.mpr ⟨h.held v k hk, hv⟩
  unique := hdb
  isolated := by
    intro v
    by_cases hv : v = w
    · subst hv
      simpa using hdb
    · rw [finish_log_ne _ _ _ _ hv, finish_db, List.nodup_append']
      refine ⟨hdb, (List.nodup_append'.mp (h.isolated v)).2.1, ?_⟩
      intro k hk hk'
      exact hclear v hv k hk' hk

theorem commit (h : Sound E s) (w : ω) : Sound E (s.commit E w) := by
  refine h.finish w (h.view_unique w) ?_
  intro v hv k hk hmem
  rcases List.mem_append.mp ((E.dbKeys_view _ _).mem_iff.mp hmem) with hdb | hlog
  · exact h.not_mem_db hk hdb
  · exact hv (h.owner_eq hk hlog)

theorem rollback (h : Sound E s) (w : ω) : Sound E (s.rollback w) :=
  h.finish w h.unique fun _ _ _ hk => h.not_mem_db hk

end Sound

end TxState

end Selatpay
