import Selatpay.Core.Trace
import Selatpay.Core.Transaction
import Selatpay.Ledger.Post

/-!
# Sessions posting to one ledger

Any number of sessions open transactions, call `PostTx` in them any number of
times with any entries, and commit or roll back; `Post` is a session that opens a
transaction, makes one call and ends. Every statement is an event of its own, so
the calls interleave freely. A statement that inserts an external reference waits
while another open transaction holds it, a failed statement aborts its
transaction, and the deferred balance trigger can refuse a commit. A session may
also issue ledger statements directly, outside `PostTx`.
-/

namespace Selatpay.Ledger

/-! ## Unique keys -/

/-- The keys under a unique constraint: every `id`, and the two named constraints. -/
inductive Key
  | id (uuid : UUID)
  | code (code currency : String)
  | externalRef (ref : String)
  deriving DecidableEq, Repr

/-- The unique keys of an account. -/
def Account.keys (a : Account) : List Key := [.id a.id, .code a.code a.currency]

/-- The unique keys of a header. -/
def JournalEntry.keys (j : JournalEntry) : List Key := [.id j.id, .externalRef j.externalRef]

/-- The unique key of a posting. -/
def Posting.keys (p : Posting) : List Key := [.id p.id]

/-- The unique keys of the ledger. -/
def Tables.keys (db : Tables) : List Key :=
  db.accounts.flatMap Account.keys ++ (db.entries.flatMap JournalEntry.keys ++
    db.postings.flatMap Posting.keys)

/-- The unique keys of an inserted row. -/
def Effect.keys : Effect → List Key
  | .entry row => row.keys
  | .posting row => row.keys

theorem Tables.keys_apply (db : Tables) (e : Effect) :
    (db.apply e).keys.Perm (db.keys ++ e.keys) := by
  cases e with
  | entry row =>
    simp only [Tables.keys, Tables.apply, Effect.keys, List.flatMap_append, List.flatMap_singleton,
      List.append_assoc]
    exact ((List.perm_append_comm).append_left _).append_left _
  | posting row =>
    simp [Tables.keys, Tables.apply, Effect.keys]

/-- The ledger as a store of unique keys. -/
def engine : Engine Tables Effect Key where
  apply := Tables.apply
  dbKeys := Tables.keys
  effKeys := Effect.keys
  dbKeys_apply := Tables.keys_apply

@[simp] theorem engine_view (db : Tables) (log : List Effect) : engine.view db log = db.view log :=
  rfl

@[simp] theorem engine_dbKeys (db : Tables) : engine.dbKeys db = db.keys := rfl

/-- The keys a statement locks until its transaction ends. -/
def Op.locks (uuid : UUID) : Op → List Key
  | .getAccountByCodeCurrency _ _ => []
  | .getJournalEntryByExternalRef _ => []
  | .createJournalEntry p => [.id uuid, .externalRef p.externalRef]
  | .insertPosting _ => [.id uuid]

/-- The only id a statement locks is the generated one. -/
theorem Op.eq_of_id_mem_locks {o : Op} {uuid x : UUID} (h : .id x ∈ o.locks uuid) : x = uuid := by
  cases o with
  | getAccountByCodeCurrency code currency => cases h
  | getJournalEntryByExternalRef ref => cases h
  | createJournalEntry p => simpa [Op.locks] using h
  | insertPosting p => simpa [Op.locks] using h

/-! ## Sessions -/

/-- A header together with the entry whose call inserted it. -/
structure Creation where
  /-- The inserted header. -/
  row : JournalEntry
  /-- What the inserting call was asked to post. -/
  entry : Entry
  deriving DecidableEq, Repr

/-- What a session is doing. -/
inductive Session
  /-- No transaction is open. -/
  | idle
  /-- A transaction is open, possibly inside a call; `created` are the headers its calls
  inserted. -/
  | active (current : Option (Entry × LedgerM JournalEntry)) (created : List Creation)
  /-- A statement failed; only the end of the transaction is left. -/
  | aborted

/-- Sessions are numbered. -/
abbrev SessionID := Nat

/-- The ledger with its sessions. -/
structure State where
  /-- The committed tables, the locks and the logs of the open transactions. -/
  tx : TxState Tables Effect Key SessionID
  /-- What each session is doing. -/
  session : SessionID → Session
  /-- The committed headers with the calls that inserted them. -/
  created : List Creation

/-- The committed tables. -/
abbrev State.db (s : State) : Tables := s.tx.db

/-- No row and no transaction. -/
def State.init : State := ⟨.init .empty, fun _ => .idle, []⟩

/-- What the environment contributes to a statement: a generated id, or a failure. -/
abbrev Answer := Except String UUID

/-- One event of the system. -/
inductive Event
  /-- `CreateAccount`, committed on its own. -/
  | createAccount (code : String) (type : AccountType) (currency : String) (uuid : UUID)
  /-- Open a transaction. -/
  | begin (c : SessionID)
  /-- Call `PostTx` in the open transaction. -/
  | postTx (c : SessionID) (e : Entry)
  /-- Execute the next statement of the running call. -/
  | statement (c : SessionID) (answer : Answer)
  /-- Execute a statement outside any call. -/
  | direct (c : SessionID) (o : Op) (answer : Answer)
  /-- Commit the open transaction. -/
  | commit (c : SessionID)
  /-- Roll the open transaction back, also when its client is gone. -/
  | rollback (c : SessionID)

/-- `noRows` reports an empty result; every other error aborts the transaction. -/
def failed {α : Type} : Except DbError α → Bool
  | .ok _ => false
  | .error .noRows => false
  | .error _ => true

/-- Set what a session is doing. -/
def State.setSession (s : State) (c : SessionID) (x : Session) : State :=
  { s with session := Function.update s.session c x }

@[simp] theorem State.setSession_tx (s : State) (c : SessionID) (x : Session) :
    (s.setSession c x).tx = s.tx := rfl

/-- A failed statement drops the log and the locks of its transaction. -/
def State.abort (s : State) (c : SessionID) : State :=
  { s with tx := s.tx.rollback c }.setSession c .aborted

/-- Execute a statement in a transaction; the continuation gives the session's next state. -/
def State.execute (s : State) (c : SessionID) (o : Op) (answer : Answer)
    (next : o.Rep → List Effect → Session) : Option State :=
  match answer with
  | .error _ => some (s.abort c)
  | .ok uuid =>
    if s.tx.unseen engine (.id uuid) ∧ s.tx.locks.available c (o.locks uuid) then
      let (r, es) := o.exec (s.db.view (s.tx.log c)) uuid
      if failed r then some (s.abort c)
      else some ({ s with tx := s.tx.extend c (o.locks uuid) es }.setSession c (next r es))
    else none

/-- A call that returned is no longer running. -/
def running (e : Entry) : LedgerM JournalEntry → Option (Entry × LedgerM JournalEntry)
  | .ret _ => none
  | p => some (e, p)

/-- One event; `none` when it is not enabled. -/
def State.step (s : State) : Event → Option State
  | .createAccount code type currency uuid =>
    if s.tx.unseen engine (.id uuid) ∧ s.tx.unseen engine (.code code currency) then
      some { s with tx.db.accounts := s.db.accounts ++ [⟨uuid, code, type, currency⟩] }
    else none
  | .begin c =>
    match s.session c with
    | .idle => some (s.setSession c (.active none []))
    | _ => none
  | .postTx c e =>
    match s.session c with
    | .active none created =>
      match validate e with
      | .error _ => some s
      | .ok () => some (s.setSession c (.active (running e (postWith e)) created))
    | _ => none
  | .statement c answer =>
    match s.session c with
    | .active (some (e, .call o k)) created =>
      s.execute c o answer fun r es =>
        .active (running e (k r)) (created ++ (headers es).map (⟨·, e⟩))
    | _ => none
  | .direct c o answer =>
    match s.session c with
    | .active none created => s.execute c o answer fun _ _ => .active none created
    | _ => none
  | .commit c =>
    match s.session c with
    | .active none created =>
      if commitAllowed s.db (s.tx.log c) then
        some ({ s with
          tx := s.tx.commit engine c, created := s.created ++ created }.setSession c .idle)
      else some ({ s with tx := s.tx.rollback c }.setSession c .idle)
    | .aborted => some ({ s with tx := s.tx.rollback c }.setSession c .idle)
    | _ => none
  | .rollback c => some ({ s with tx := s.tx.rollback c }.setSession c .idle)

/-! ## What an event can do -/

section Cases

variable {s t : State} {c : SessionID}

/-- A statement aborts its transaction or extends its log. -/
theorem execute_cases {o : Op} {answer : Answer} {next : o.Rep → List Effect → Session}
    (h : s.execute c o answer next = some t) : t = s.abort c ∨
      ∃ uuid r es, s.tx.unseen engine (.id uuid) ∧ s.tx.locks.available c (o.locks uuid) ∧
        o.exec (s.db.view (s.tx.log c)) uuid = (r, es) ∧
        t = { s with tx := s.tx.extend c (o.locks uuid) es }.setSession c (next r es) := by
  cases answer with
  | error msg =>
    simp only [State.execute, Option.some.injEq] at h
    exact .inl h.symm
  | ok uuid =>
    simp only [State.execute] at h
    split at h
    · rename_i hguard
      cases hexec : o.exec (s.db.view (s.tx.log c)) uuid with
      | mk r es =>
        rw [hexec] at h
        dsimp only at h
        split at h
        · exact .inl (Option.some.inj h).symm
        · exact .inr ⟨uuid, r, es, hguard.1, hguard.2, hexec, (Option.some.inj h).symm⟩
    · cases h

/-- The changes an event can make. -/
inductive Change (s : State) : Event → State → Prop
  | account {code : String} {type : AccountType} {currency : String} {uuid : UUID}
      (hid : s.tx.unseen engine (.id uuid)) (hcode : s.tx.unseen engine (.code code currency)) :
      Change s (.createAccount code type currency uuid)
        { s with tx.db.accounts := s.db.accounts ++ [⟨uuid, code, type, currency⟩] }
  | begin {c : SessionID} (hidle : s.session c = .idle) :
      Change s (.begin c) (s.setSession c (.active none []))
  /-- An invalid entry is refused before any statement. -/
  | invalid {c : SessionID} {e : Entry} : Change s (.postTx c e) s
  | call {c : SessionID} {e : Entry} {created : List Creation}
      (hopen : s.session c = .active none created) :
      Change s (.postTx c e) (s.setSession c (.active (running e (postWith e)) created))
  | statement {c : SessionID} {answer : Answer} {e : Entry} {o : Op}
      {k : o.Rep → LedgerM JournalEntry} {created : List Creation} {t : State}
      (hcall : s.session c = .active (some (e, .call o k)) created)
      (hexec : s.execute c o answer (fun r es =>
        .active (running e (k r)) (created ++ (headers es).map (⟨·, e⟩))) = some t) :
      Change s (.statement c answer) t
  | direct {c : SessionID} {o : Op} {answer : Answer} {created : List Creation} {t : State}
      (hexec : s.execute c o answer (fun _ _ => .active none created) = some t) :
      Change s (.direct c o answer) t
  | commit {c : SessionID} {created : List Creation}
      (hopen : s.session c = .active none created) (hallowed : commitAllowed s.db (s.tx.log c)) :
      Change s (.commit c)
        ({ s with tx := s.tx.commit engine c, created := s.created ++ created }.setSession c .idle)
  /-- The balance trigger refuses, or a statement had failed. -/
  | refused {c : SessionID} (hrefused : ∀ created, s.session c = .active none created →
        ¬ commitAllowed s.db (s.tx.log c)) :
      Change s (.commit c) ({ s with tx := s.tx.rollback c }.setSession c .idle)
  | rollback {c : SessionID} :
      Change s (.rollback c) ({ s with tx := s.tx.rollback c }.setSession c .idle)

/-- Every event makes one of these changes. -/
theorem step_change {e : Event} (h : s.step e = some t) : Change s e t := by
  cases e with
  | createAccount code type currency uuid =>
    simp only [State.step] at h
    split at h <;> cases h
    rename_i hguard
    exact .account hguard.1 hguard.2
  | begin c =>
    simp only [State.step] at h
    split at h <;> cases h
    exact .begin ‹_›
  | postTx c e =>
    simp only [State.step] at h
    split at h
    · split at h <;> cases h
      · exact .invalid
      · exact .call ‹_›
    · cases h
  | statement c answer =>
    simp only [State.step] at h
    split at h
    · exact .statement ‹_› h
    · cases h
  | direct c o answer =>
    simp only [State.step] at h
    split at h
    · exact .direct h
    · cases h
  | commit c =>
    simp only [State.step] at h
    split at h
    · split at h <;> cases h
      · exact .commit ‹_› ‹_›
      · exact .refused fun _ _ => ‹_›
    · rename_i hsession
      cases h
      refine .refused fun created hopen => ?_
      rw [hsession] at hopen
      cases hopen
    · cases h
  | rollback c =>
    cases h
    exact .rollback

end Cases

/-! ## Unique keys stay unique -/

theorem mem_keys_externalRef {db : Tables} {ref : String} :
    .externalRef ref ∈ db.keys ↔ ∃ j ∈ db.entries, j.externalRef = ref := by
  simp [Tables.keys, Account.keys, JournalEntry.keys, Posting.keys, eq_comm]

section Columns

variable {db : Tables}

/-- No two accounts share an id. -/
theorem Tables.account_ids_nodup (h : db.keys.Nodup) : (db.accounts.map Account.id).Nodup :=
  Table.nodup_column Key.id (fun a => by simp [Account.keys]) (List.nodup_append'.mp h).1

/-- No two accounts of a currency share a code. -/
theorem Tables.account_codes_nodup (h : db.keys.Nodup) :
    (db.accounts.map fun a => (a.code, a.currency)).Nodup :=
  Table.nodup_column (fun k => Key.code k.1 k.2) (fun a => by simp [Account.keys])
    (List.nodup_append'.mp h).1

/-- No two headers share an id. -/
theorem Tables.entry_ids_nodup (h : db.keys.Nodup) : (db.entries.map JournalEntry.id).Nodup :=
  Table.nodup_column Key.id (fun j => by simp [JournalEntry.keys])
    (List.nodup_append'.mp (List.nodup_append'.mp h).2.1).1

/-- No two headers share an external reference. -/
theorem Tables.externalRefs_nodup (h : db.keys.Nodup) :
    (db.entries.map JournalEntry.externalRef).Nodup :=
  Table.nodup_column Key.externalRef (fun j => by simp [JournalEntry.keys])
    (List.nodup_append'.mp (List.nodup_append'.mp h).2.1).1

end Columns

/-- What a statement inserts: at most one row, with the generated id, new to the view. -/
theorem exec_keys {db : Tables} {uuid : UUID} {o : Op} {r : o.Rep} {es : List Effect}
    (h : o.exec db uuid = (r, es)) : es = [] ∨ engine.logKeys es = o.locks uuid ∧
      ((engine.logKeys es).Nodup ∧ ∀ k ∈ engine.logKeys es, k = .id uuid ∨ k ∉ db.keys) := by
  cases o with
  | getAccountByCodeCurrency code currency =>
    simp only [Op.exec] at h
    split at h <;> cases h <;> exact .inl rfl
  | getJournalEntryByExternalRef ref =>
    simp only [Op.exec] at h
    split at h <;> cases h <;> exact .inl rfl
  | createJournalEntry p =>
    simp only [Op.exec] at h
    cases hf : Table.find JournalEntry.externalRef db.entries p.externalRef with
    | some j =>
      simp only [hf] at h
      cases h
      exact .inl rfl
    | none =>
      simp only [hf] at h
      cases h
      rw [Table.find_eq_none_iff] at hf
      refine .inr ⟨rfl, by simp [Engine.logKeys, engine, Effect.keys, JournalEntry.keys], ?_⟩
      intro k hk
      simp only [Engine.logKeys, engine, Effect.keys, JournalEntry.keys, CreateEntryParams.row,
        List.flatMap_cons, List.flatMap_nil, List.append_nil, List.mem_cons, List.not_mem_nil,
        or_false] at hk
      rcases hk with rfl | rfl
      · exact .inl rfl
      · refine .inr fun hmem => ?_
        obtain ⟨j, hj, href⟩ := mem_keys_externalRef.mp hmem
        exact hf j hj href
  | insertPosting p =>
    simp only [Op.exec] at h
    cases hc : checkPosting db p with
    | error e =>
      simp only [hc] at h
      cases h
      exact .inl rfl
    | ok d =>
      simp only [hc] at h
      cases h
      refine .inr ⟨rfl, by simp [Engine.logKeys, engine, Effect.keys, Posting.keys], ?_⟩
      intro k hk
      simp only [Engine.logKeys, engine, Effect.keys, Posting.keys, List.flatMap_cons,
        List.flatMap_nil, List.append_nil, List.mem_singleton] at hk
      exact .inl hk

/-- A new account adds its keys. -/
theorem Tables.keys_account (db : Tables) (a : Account) :
    (Tables.keys { db with accounts := db.accounts ++ [a] }).Perm (db.keys ++ a.keys) := by
  simp only [Tables.keys, List.flatMap_append, List.flatMap_singleton, List.append_assoc]
  refine List.Perm.append_left _ ?_
  rw [← List.append_assoc (db.entries.flatMap _)]
  exact List.perm_append_comm

section Sound

variable {s t : State} {c : SessionID}

/-- A statement inside a transaction keeps the keys unique. -/
theorem sound_execute {o : Op} {answer : Answer} {next : o.Rep → List Effect → Session}
    (hs : s.tx.Sound engine) (h : s.execute c o answer next = some t) : t.tx.Sound engine := by
  obtain rfl | ⟨uuid, r, es, hunseen, havail, hexec, rfl⟩ := execute_cases h
  · exact hs.rollback c
  · rcases exec_keys hexec with rfl | ⟨hlocks, hnodup, hnew⟩
    · exact hs.extend havail (by simp) (by simp) (by simp)
    · refine hs.extend havail (fun k hk => hlocks ▸ hk) hnodup fun k hk => ?_
      rcases hnew k hk with rfl | hk'
      · exact hs.not_mem_view hunseen c
      · exact hk'

/-- Every event keeps the keys unique. -/
theorem sound_change {e : Event} (hs : s.tx.Sound engine) (h : Change s e t) :
    t.tx.Sound engine := by
  cases h with
  | @account code type currency uuid hid hcode =>
    have hunseen : ∀ k ∈ [Key.id uuid, Key.code code currency], s.tx.unseen engine k := by
      simpa using ⟨hid, hcode⟩
    exact hs.write (s.db.keys_account ⟨uuid, code, type, currency⟩) (by simp [Account.keys])
      (fun k hk => (hunseen k hk).1) fun k hk => hs.not_mem_log (hunseen k hk)
  | begin => exact hs
  | invalid => exact hs
  | call => exact hs
  | statement _ hexec => exact sound_execute hs hexec
  | direct hexec => exact sound_execute hs hexec
  | commit => exact hs.commit _
  | refused => exact hs.rollback _
  | rollback => exact hs.rollback _

end Sound

end Selatpay.Ledger
