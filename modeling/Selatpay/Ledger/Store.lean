import Selatpay.Ledger.Types
import Selatpay.Core.Program

/-!
# Ledger tables and statements

A transaction keeps the rows it has inserted as a list of effects; the state a
statement of the transaction sees is the committed state with these effects
applied. The unique constraint on `external_ref`, the checks of `postings` and
its currency trigger are part of the statements; the deferred balance trigger is
a condition on the commit.
-/

namespace Selatpay.Ledger

/-- The committed ledger. -/
structure Tables where
  accounts : List Account
  entries : List JournalEntry
  postings : List Posting
  deriving DecidableEq, Repr

/-- A ledger without any row. -/
def Tables.empty : Tables := ⟨[], [], []⟩

/-- A row inserted by a transaction. -/
inductive Effect
  | entry (row : JournalEntry)
  | posting (row : Posting)
  deriving DecidableEq, Repr

/-- Apply one inserted row. -/
def Tables.apply (db : Tables) : Effect → Tables
  | .entry row => { db with entries := db.entries ++ [row] }
  | .posting row => { db with postings := db.postings ++ [row] }

/-- The state a transaction with these effects sees. -/
def Tables.view (db : Tables) (log : List Effect) : Tables := log.foldl Tables.apply db

/-- The header of an inserted entry. -/
def Effect.header : Effect → Option JournalEntry
  | .entry row => some row
  | .posting _ => none

/-- The row of an inserted posting. -/
def Effect.line : Effect → Option Posting
  | .entry _ => none
  | .posting row => some row

/-- The headers a transaction has inserted. -/
def headers (log : List Effect) : List JournalEntry := log.filterMap Effect.header

/-- The postings a transaction has inserted. -/
def lines (log : List Effect) : List Posting := log.filterMap Effect.line

@[simp] theorem headers_append (l m : List Effect) : headers (l ++ m) = headers l ++ headers m := by
  simp [headers]

@[simp] theorem lines_append (l m : List Effect) : lines (l ++ m) = lines l ++ lines m := by
  simp [lines]

@[simp] theorem headers_nil : headers [] = [] := rfl

@[simp] theorem lines_nil : lines [] = [] := rfl

@[simp] theorem headers_cons_entry (row : JournalEntry) (l : List Effect) :
    headers (.entry row :: l) = row :: headers l := rfl

@[simp] theorem headers_cons_posting (row : Posting) (l : List Effect) :
    headers (.posting row :: l) = headers l := rfl

@[simp] theorem lines_cons_entry (row : JournalEntry) (l : List Effect) :
    lines (.entry row :: l) = lines l := rfl

@[simp] theorem lines_cons_posting (row : Posting) (l : List Effect) :
    lines (.posting row :: l) = row :: lines l := rfl

@[simp] theorem headers_map_posting (ps : List Posting) : headers (ps.map .posting) = [] := by
  induction ps with
  | nil => rfl
  | cons p ps ih => simpa using ih

@[simp] theorem lines_map_posting (ps : List Posting) : lines (ps.map .posting) = ps := by
  induction ps with
  | nil => rfl
  | cons p ps ih => simpa using ih

@[simp] theorem mem_headers {row : JournalEntry} {log : List Effect} :
    row ∈ headers log ↔ .entry row ∈ log := by
  simp only [headers, List.mem_filterMap]
  constructor
  · rintro ⟨e, he, hrow⟩
    cases e with
    | entry r => simp only [Effect.header, Option.some.injEq] at hrow; subst hrow; exact he
    | posting r => cases hrow
  · intro h
    exact ⟨_, h, rfl⟩

@[simp] theorem mem_lines {row : Posting} {log : List Effect} :
    row ∈ lines log ↔ .posting row ∈ log := by
  simp only [lines, List.mem_filterMap]
  constructor
  · rintro ⟨e, he, hrow⟩
    cases e with
    | entry r => cases hrow
    | posting r => simp only [Effect.line, Option.some.injEq] at hrow; subst hrow; exact he
  · intro h
    exact ⟨_, h, rfl⟩

/-- A view only appends: accounts stay, headers and postings follow the committed ones. -/
theorem Tables.view_eq (db : Tables) (log : List Effect) :
    db.view log = ⟨db.accounts, db.entries ++ headers log, db.postings ++ lines log⟩ := by
  induction log generalizing db with
  | nil => simp [Tables.view]
  | cons e log ih =>
    have h := ih (db.apply e)
    rw [Tables.view] at h ⊢
    rw [List.foldl_cons, h]
    cases e <;> simp [Tables.apply]

/-! ## Statements -/

/-- Parameters of `CreateJournalEntry`. -/
structure CreateEntryParams where
  externalRef : String
  kind : String
  description : Option String
  intentID : Option UUID

/-- The header a transaction inserts for these parameters. -/
def CreateEntryParams.row (p : CreateEntryParams) (uuid : UUID) : JournalEntry :=
  ⟨uuid, p.externalRef, p.kind, p.description, p.intentID⟩

/-- Parameters of `InsertPosting`. -/
structure InsertPostingParams where
  journalEntryID : UUID
  accountID : UUID
  amount : Int
  currency : String
  direction : Direction

/-- The ledger statements issued inside a transaction. -/
inductive Op
  | getAccountByCodeCurrency (code currency : String)
  | getJournalEntryByExternalRef (ref : String)
  | createJournalEntry (params : CreateEntryParams)
  | insertPosting (params : InsertPostingParams)

/-- What each statement returns. -/
@[reducible] def Op.Row : Op → Type
  | .getAccountByCodeCurrency _ _ => Account
  | .getJournalEntryByExternalRef _ => JournalEntry
  | .createJournalEntry _ => JournalEntry
  | .insertPosting _ => Posting

/-- The reply of each statement. -/
abbrev Op.Rep (o : Op) : Type := Except DbError o.Row

/-- `ledger_check_posting_currency` together with the checks and foreign keys of `postings`. -/
def checkPosting (db : Tables) (p : InsertPostingParams) : Except DbError PostingDirection :=
  match p.direction.toDb with
  | none => .error (.failed "invalid input value for enum posting_direction")
  | some direction =>
    match Table.find Account.id db.accounts p.accountID with
    | none => .error (.failed ("posting references unknown account " ++ p.accountID.text))
    | some account =>
      if p.currency ≠ account.currency then
        .error (.failed ("posting currency " ++ p.currency ++ " does not match account currency " ++
          account.currency))
      else if p.amount ≤ 0 then .error (.failed "postings_amount_check")
      else if Table.find JournalEntry.id db.entries p.journalEntryID = none then
        .error (.failed "postings_journal_entry_id_fkey")
      else .ok direction

/-- Execute a statement on the state its transaction sees; `uuid` is the generated id. -/
def Op.exec (db : Tables) (uuid : UUID) : (o : Op) → o.Rep × List Effect
  | .getAccountByCodeCurrency code currency =>
    match db.accounts.find? fun a => a.code = code ∧ a.currency = currency with
    | some a => (.ok a, [])
    | none => (.error .noRows, [])
  | .getJournalEntryByExternalRef ref =>
    match Table.find JournalEntry.externalRef db.entries ref with
    | some j => (.ok j, [])
    | none => (.error .noRows, [])
  | .createJournalEntry p =>
    match Table.find JournalEntry.externalRef db.entries p.externalRef with
    | some _ => (.error .unique, [])
    | none => (.ok (p.row uuid), [.entry (p.row uuid)])
  | .insertPosting p =>
    match checkPosting db p with
    | .error e => (.error e, [])
    | .ok direction =>
      let row : Posting := ⟨uuid, p.journalEntryID, p.accountID, p.amount, p.currency, direction⟩
      (.ok row, [.posting row])

/-- A statement answers by its execution on the current view or fails without effect. -/
def Respond (db : Tables) (log : List Effect) (o : Op) (r : o.Rep) (es : List Effect) : Prop :=
  (∃ uuid, o.exec (db.view log) uuid = (r, es)) ∨ ∃ msg, r = .error (.failed msg) ∧ es = []

/-! ## The deferred balance trigger -/

/-- Debit counts positive, credit negative. -/
def Posting.signed (p : Posting) : Int :=
  match p.direction with
  | .debit => p.amount
  | .credit => -p.amount

/-- Debit minus credit of one entry in one currency. -/
def entryDiff (ps : List Posting) (entryID : UUID) (currency : String) : Int :=
  ((ps.filter fun p => p.journalEntryID = entryID ∧ p.currency = currency).map Posting.signed).sum

/-- `ledger_check_entry_balanced`: no currency of the entry has a difference. -/
def entryBalanced (ps : List Posting) (entryID : UUID) : Bool :=
  (ps.filter fun p => p.journalEntryID = entryID).all fun p =>
    entryDiff ps entryID p.currency = 0

/-- The trigger runs at commit for every posting the transaction inserted. -/
def commitAllowed (db : Tables) (log : List Effect) : Bool :=
  (lines log).all fun p => entryBalanced (db.view log).postings p.journalEntryID

theorem entryDiff_append (ps qs : List Posting) (entryID : UUID) (currency : String) :
    entryDiff (ps ++ qs) entryID currency =
      entryDiff ps entryID currency + entryDiff qs entryID currency := by
  simp [entryDiff]

/-- A checked entry has no difference in any currency. -/
theorem entryDiff_of_balanced {ps : List Posting} {entryID : UUID}
    (h : entryBalanced ps entryID = true) (currency : String) :
    entryDiff ps entryID currency = 0 := by
  by_cases hmem : ∃ p ∈ ps, p.journalEntryID = entryID ∧ p.currency = currency
  · obtain ⟨p, hp, hid, hc⟩ := hmem
    simp only [entryBalanced, List.all_eq_true, List.mem_filter, decide_eq_true_eq] at h
    simpa [hc] using h p ⟨hp, hid⟩
  · have hnil : (ps.filter fun p => p.journalEntryID = entryID ∧ p.currency = currency) = [] := by
      rw [List.filter_eq_nil_iff]
      intro p hp
      simpa using fun hid hc => hmem ⟨p, hp, hid, hc⟩
    simp only [entryDiff, hnil, List.map_nil, List.sum_nil]

end Selatpay.Ledger
