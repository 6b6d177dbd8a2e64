import Selatpay.Ledger.Store

/-!
# Posting an entry

`postWith` looks an external reference up and, when it is new, inserts the header
and then one posting per line. Its executions are described once: whatever
happened to the database between two statements, the transaction has gathered
nothing, or one header followed by the postings of an initial part of the lines,
and of all of them once the program has returned.
-/

namespace Selatpay.Ledger

open Prog

/-- Programs over ledger statements. -/
abbrev LedgerM := Prog Op.Rep GoError

/-- Issue `GetAccountByCodeCurrency`. -/
abbrev getAccountByCodeCurrency (code currency : String) : LedgerM (Except DbError Account) :=
  query (Op.getAccountByCodeCurrency code currency)

/-- Issue `GetJournalEntryByExternalRef`. -/
abbrev getJournalEntryByExternalRef (ref : String) : LedgerM (Except DbError JournalEntry) :=
  query (Op.getJournalEntryByExternalRef ref)

/-- Issue `CreateJournalEntry`. -/
abbrev createJournalEntry (p : CreateEntryParams) : LedgerM (Except DbError JournalEntry) :=
  query (Op.createJournalEntry p)

/-- Issue `InsertPosting`. -/
abbrev insertPosting (p : InsertPostingParams) : LedgerM (Except DbError Posting) :=
  query (Op.insertPosting p)

/-- Insert one posting per line under a header. -/
def insertLines (entryID : UUID) : List Line → LedgerM Unit
  | [] => return ()
  | l :: rest => do
    let _ ← (insertPosting ⟨entryID, l.accountID, l.amount, l.currency, l.direction⟩).orThrow
      fun e => .wrap "insert posting" (.db e)
    insertLines entryID rest

/-- The header parameters of an entry; an empty description is stored as null. -/
def Entry.params (e : Entry) : CreateEntryParams :=
  ⟨e.externalRef, e.kind, if e.description ≠ "" then some e.description else none, e.intentID⟩

/-- Look the reference up, then insert header and lines. -/
def postWith (e : Entry) : LedgerM JournalEntry := do
  match ← getJournalEntryByExternalRef e.externalRef with
  | .ok existing => return existing
  | .error .noRows =>
    let created ← (createJournalEntry e.params).orThrow fun
      | .unique => LedgerError.duplicateExternalRef.err
      | err => .wrap "create journal entry" (.db err)
    insertLines created.id e.lines
    return created
  | .error err => .throw (.wrap "lookup external_ref" (.db err))

/-- Post inside the caller's transaction. -/
def postTx (e : Entry) : LedgerM JournalEntry :=
  match validate e with
  | .error err => .throw err.err
  | .ok () => postWith e

/-- Resolve a system account inside a transaction. -/
def getAccountByCodeTx (code currency : String) : LedgerM Account :=
  (getAccountByCodeCurrency code currency).orThrow fun
    | .noRows => LedgerError.accountNotFound.err
    | err => .wrap "get account by code" (.db err)

/-! ## What the statements answer -/

/-- A lookup has no effect and finds the row of the reference. -/
theorem respond_lookup {db : Tables} {log es : List Effect} {ref : String}
    {r : Except DbError JournalEntry}
    (h : Respond db log (.getJournalEntryByExternalRef ref) r es) :
    es = [] ∧ ((∃ j, r = .ok j ∧
        Table.find JournalEntry.externalRef (db.view log).entries ref = some j) ∨
      (r = .error .noRows ∧
        Table.find JournalEntry.externalRef (db.view log).entries ref = none) ∨
      ∃ msg, r = .error (.failed msg)) := by
  obtain ⟨uuid, h⟩ | ⟨msg, rfl, rfl⟩ := h
  · simp only [Op.exec] at h
    cases hf : Table.find JournalEntry.externalRef (db.view log).entries ref with
    | none =>
      simp only [hf] at h
      cases h
      exact ⟨rfl, .inr (.inl ⟨rfl, rfl⟩)⟩
    | some j =>
      simp only [hf] at h
      cases h
      exact ⟨rfl, .inl ⟨j, rfl, rfl⟩⟩
  · exact ⟨rfl, .inr (.inr ⟨msg, rfl⟩)⟩

/-- Creating a header inserts exactly that header, or nothing with an error. -/
theorem respond_create {db : Tables} {log es : List Effect} {p : CreateEntryParams}
    {r : Except DbError JournalEntry} (h : Respond db log (.createJournalEntry p) r es) :
    (∃ uuid, r = .ok (p.row uuid) ∧ es = [.entry (p.row uuid)] ∧
        Table.find JournalEntry.externalRef (db.view log).entries p.externalRef = none) ∨
      ∃ err, r = .error err ∧ es = [] := by
  obtain ⟨uuid, h⟩ | ⟨msg, rfl, rfl⟩ := h
  · simp only [Op.exec] at h
    cases hf : Table.find JournalEntry.externalRef (db.view log).entries p.externalRef with
    | none =>
      simp only [hf] at h
      cases h
      exact .inl ⟨uuid, rfl, rfl, rfl⟩
    | some j =>
      simp only [hf] at h
      cases h
      exact .inr ⟨_, rfl, rfl⟩
  · exact .inr ⟨_, rfl, rfl⟩

/-- A checked posting has a stored direction and matches an existing account and header. -/
theorem checkPosting_eq_ok {db : Tables} {p : InsertPostingParams} {d : PostingDirection}
    (h : checkPosting db p = .ok d) : p.direction = d.toGo ∧ 0 < p.amount ∧
      (∃ a, Table.find Account.id db.accounts p.accountID = some a ∧ p.currency = a.currency) ∧
      ∃ j, Table.find JournalEntry.id db.entries p.journalEntryID = some j := by
  unfold checkPosting at h
  cases hd : p.direction.toDb with
  | none => simp [hd] at h
  | some d' =>
    cases ha : Table.find Account.id db.accounts p.accountID with
    | none => simp [hd, ha] at h
    | some a =>
      simp only [hd, ha] at h
      split at h
      · cases h
      split at h
      · cases h
      split at h
      · cases h
      rename_i hc hpos hj
      simp only [Except.ok.injEq] at h
      subst h
      push Not at hc hpos
      refine ⟨?_, hpos, ⟨a, rfl, hc⟩, Option.ne_none_iff_exists'.mp hj⟩
      cases hdir : p.direction <;> simp [hdir, Direction.toDb] at hd <;> subst hd <;> rfl

/-- Inserting a posting stores exactly the line, or nothing with an error. -/
theorem respond_insert {db : Tables} {log es : List Effect} {p : InsertPostingParams}
    {r : Except DbError Posting} (h : Respond db log (.insertPosting p) r es) :
    (∃ row : Posting, r = .ok row ∧ es = [.posting row] ∧
        row.journalEntryID = p.journalEntryID ∧
        row.line = ⟨p.accountID, p.amount, p.currency, p.direction⟩) ∨
      ∃ err, r = .error err ∧ es = [] := by
  obtain ⟨uuid, h⟩ | ⟨msg, rfl, rfl⟩ := h
  · simp only [Op.exec] at h
    cases hc : checkPosting (db.view log) p with
    | error e =>
      simp only [hc] at h
      cases h
      exact .inr ⟨_, rfl, rfl⟩
    | ok d =>
      simp only [hc] at h
      cases h
      refine .inl ⟨_, rfl, rfl, rfl, ?_⟩
      rw [Posting.line, (checkPosting_eq_ok hc).1]
  · exact .inr ⟨_, rfl, rfl⟩

/-- An account lookup has no effect and finds the account of the code. -/
theorem respond_account {db : Tables} {log es : List Effect} {code currency : String}
    {r : Except DbError Account}
    (h : Respond db log (.getAccountByCodeCurrency code currency) r es) :
    es = [] ∧ ∀ a, r = .ok a → a ∈ db.accounts ∧ a.code = code ∧ a.currency = currency := by
  obtain ⟨uuid, h⟩ | ⟨msg, rfl, rfl⟩ := h
  · simp only [Op.exec, Tables.view_eq] at h
    cases hf : db.accounts.find? fun a => a.code = code ∧ a.currency = currency with
    | none =>
      simp only [hf] at h
      cases h
      exact ⟨rfl, fun a ha => by cases ha⟩
    | some a =>
      simp only [hf] at h
      cases h
      refine ⟨rfl, fun b hb => ?_⟩
      cases hb
      have := List.find?_some hf
      exact ⟨List.mem_of_find?_eq_some hf, by simpa using this⟩
  · exact ⟨rfl, fun a ha => by cases ha⟩

/-! ## Executions -/

/-- The lines are inserted in order, none twice and none left out once the loop is done. -/
theorem insertLines_steps {entryID : UUID} {ls : List Line} {l m : List Effect}
    {h : List Tables} {q : LedgerM Unit}
    (hs : Steps Respond (insertLines entryID ls) l h q m) :
    ∃ (ps : List Posting) (rest : List Line),
      m = l ++ ps.map Effect.posting ∧ ps.map Posting.line ++ rest = ls ∧
      (∀ p ∈ ps, p.journalEntryID = entryID) ∧ ∀ u, q = .ret u → rest = [] := by
  induction ls generalizing l h with
  | nil =>
    rw [insertLines, pure_eq, steps_ret_iff] at hs
    obtain ⟨-, -, rfl⟩ := hs
    exact ⟨[], [], by simp⟩
  | cons a ls ih =>
    simp only [insertLines, bind_eq, query, orThrow, call_bind, ret_bind] at hs
    rw [steps_call_iff] at hs
    obtain ⟨-, rfl, rfl⟩ | ⟨s, h', r, es, -, hr, hk⟩ := hs
    · exact ⟨[], a :: ls, by simp⟩
    · obtain ⟨row, rfl, rfl, hid, hline⟩ | ⟨err, rfl, rfl⟩ := respond_insert hr
      · simp only [ret_bind] at hk
        obtain ⟨ps, rest, rfl, hls, hps, hret⟩ := ih hk
        refine ⟨row :: ps, rest, by simp, by simp [hline, hls], ?_, hret⟩
        intro p hp
        rcases List.mem_cons.mp hp with rfl | hp
        · exact hid
        · exact hps p hp
      · simp only [throw_bind, steps_throw_iff] at hk
        obtain ⟨-, rfl, rfl⟩ := hk
        exact ⟨[], a :: ls, by simp⟩

/-- What a call has done so far: nothing, or its header and an initial part of its lines. -/
theorem postWith_steps {e : Entry} {l m : List Effect} {h : List Tables} {q : LedgerM JournalEntry}
    (hs : Steps Respond (postWith e) l h q m) :
    (m = l ∧ ∀ j, q = .ret j → ∃ db ∈ h,
        Table.find JournalEntry.externalRef (db.view l).entries e.externalRef = some j) ∨
      ∃ (uuid : UUID) (ps : List Posting) (rest : List Line),
        m = l ++ .entry (e.params.row uuid) :: ps.map Effect.posting ∧
        ps.map Posting.line ++ rest = e.lines ∧ (∀ p ∈ ps, p.journalEntryID = uuid) ∧
        ∀ j, q = .ret j → j = e.params.row uuid ∧ rest = [] := by
  simp only [postWith, bind_eq, query, call_bind, ret_bind] at hs
  rw [steps_call_iff] at hs
  obtain ⟨-, rfl, rfl⟩ | ⟨db, h', r, es, rfl, hr, hk⟩ := hs
  · exact .inl ⟨rfl, by simp⟩
  obtain ⟨rfl, ⟨j, rfl, hj⟩ | ⟨rfl, -⟩ | ⟨msg, rfl⟩⟩ := respond_lookup hr
  · simp only [pure_eq, steps_ret_iff, List.append_nil] at hk
    obtain ⟨-, rfl, rfl⟩ := hk
    refine .inl ⟨rfl, ?_⟩
    intro j' hj'
    cases hj'
    exact ⟨db, by simp, hj⟩
  · simp only [orThrow, call_bind, ret_bind, List.append_nil] at hk
    rw [steps_call_iff] at hk
    obtain ⟨-, rfl, rfl⟩ | ⟨db', h'', r, es, -, hr, hk⟩ := hk
    · exact .inl ⟨rfl, by simp⟩
    obtain ⟨uuid, rfl, rfl, -⟩ | ⟨err, rfl, rfl⟩ := respond_create hr
    · simp only [ret_bind] at hk
      refine .inr ⟨uuid, ?_⟩
      obtain ⟨p', hp', rfl⟩ | ⟨u, h₁, h₂, n, -, hp', hk⟩ := hk.of_bind
      · obtain ⟨ps, rest, rfl, hls, hps, hret⟩ := insertLines_steps hp'
        refine ⟨ps, rest, by simp, hls, hps, ?_⟩
        intro j hj
        cases p' with
        | ret u => cases hj; exact ⟨rfl, hret u rfl⟩
        | throw err => cases hj
        | call o k => cases hj
      · obtain ⟨ps, rest, rfl, hls, hps, hret⟩ := insertLines_steps hp'
        simp only [pure_eq, steps_ret_iff] at hk
        obtain ⟨-, rfl, rfl⟩ := hk
        refine ⟨ps, rest, by simp, hls, hps, ?_⟩
        intro j hj
        cases hj
        exact ⟨rfl, hret u rfl⟩
    · simp only [throw_bind, steps_throw_iff, List.append_nil] at hk
      obtain ⟨-, rfl, rfl⟩ := hk
      exact .inl ⟨rfl, by simp⟩
  · simp only [List.append_nil] at hk
    have hk : Steps Respond (.throw _) l h' q m := hk
    rw [steps_throw_iff] at hk
    obtain ⟨-, rfl, rfl⟩ := hk
    exact .inl ⟨rfl, by simp⟩

/-- What a returned call has left behind, seen from the states its statements ran in: nothing
because the reference was found, or the header and every line. -/
def Posted (view : Tables → Tables) (h : List Tables) (e : Entry) (es : List Effect) : Prop :=
  (es = [] ∧ ∃ db ∈ h, ∃ j,
      Table.find JournalEntry.externalRef (view db).entries e.externalRef = some j) ∨
    ∃ (uuid : UUID) (ps : List Posting), es = .entry (e.params.row uuid) :: ps.map Effect.posting ∧
      ps.map Posting.line = e.lines ∧ ∀ p ∈ ps, p.journalEntryID = uuid

/-- A call of `PostTx` that returned. -/
theorem postTx_ret {e : Entry} {l es : List Effect} {h : List Tables} {j : JournalEntry}
    (hs : Steps Respond (postTx e) l h (.ret j) (l ++ es)) :
    Posted (Tables.view · l) h e es := by
  unfold postTx at hs
  split at hs
  · simp at hs
  · obtain ⟨hm, hfound⟩ | ⟨uuid, ps, rest, hm, hlines, hps, hret⟩ := postWith_steps hs
    · obtain rfl := List.append_cancel_left (hm.trans (List.append_nil l).symm)
      obtain ⟨db, hdb, hj⟩ := hfound j rfl
      exact .inl ⟨rfl, db, hdb, j, hj⟩
    · obtain ⟨-, rfl⟩ := hret j rfl
      rw [List.append_nil] at hlines
      exact .inr ⟨uuid, ps, List.append_cancel_left hm, hlines, hps⟩

/-- An account lookup that returned found the account and left nothing. -/
theorem getAccountByCodeTx_ret {code currency : String} {l m : List Effect} {h : List Tables}
    {a : Account} (hs : Steps Respond (getAccountByCodeTx code currency) l h (.ret a) m) :
    m = l ∧ ∃ db ∈ h, a ∈ db.accounts ∧ a.code = code ∧ a.currency = currency := by
  obtain ⟨db, es, rfl, hr, rfl⟩ := hs.of_orThrow_ret.of_query_ret
  obtain ⟨rfl, ha⟩ := respond_account hr
  exact ⟨by simp, db, by simp, ha a rfl⟩

end Selatpay.Ledger
