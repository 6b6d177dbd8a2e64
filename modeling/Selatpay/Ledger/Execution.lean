import Selatpay.Core.Execution
import Selatpay.Ledger.Blocks
import Selatpay.Ledger.Validate

/-!
# Running a posting to its end

A posting whose statements are all executed, each on the committed ledger of its time and
on what the transaction has written so far. Under a reference that is not booked yet, an
entry that validates and whose lines are for existing accounts is written as one block;
blocks of balanced entries pass the balance trigger.
-/

namespace Selatpay.Ledger

open Prog

/-- Every statement is executed, on the committed ledger of its time. -/
def answer (db : ℕ → Tables) (uuid : ℕ → UUID) (n : ℕ) (l : List Effect) (o : Op) :
    o.Rep × List Effect :=
  o.exec ((db n).view l) (uuid n)

/-- A line that `InsertPosting` takes: a positive amount to or from an existing account of its
currency. -/
structure Line.IsPostable (accounts : List Account) (l : Line) : Prop where
  positive : 0 < l.amount
  direction : l.direction = .debit ∨ l.direction = .credit
  account : ∃ a, Table.find Account.id accounts l.accountID = some a ∧ l.currency = a.currency

section Posting

variable {db : ℕ → Tables} {uuid : ℕ → UUID} {n : ℕ} {l : List Effect}

/-- An account that exists is found. -/
theorem exec_getAccountByCodeTx {code currency : String} {a : Account}
    (h : (db n).accounts.find? (fun a => a.code = code ∧ a.currency = currency) = some a) :
    (getAccountByCodeTx code currency).exec (answer db uuid) n l = (.ok a, n + 1, l) := by
  apply exec_orThrow
  rw [exec_query]
  simp only [answer, Op.exec, Tables.view_eq, h, List.append_nil]

/-- The check of a posting passes for a line that can be posted under a header that is there. -/
theorem checkPosting_of_isPostable {tables : Tables} {entryID : UUID} {line : Line}
    (hline : line.IsPostable tables.accounts)
    (hheader : Table.find JournalEntry.id tables.entries entryID ≠ none) :
    ∃ d, checkPosting tables
        ⟨entryID, line.accountID, line.amount, line.currency, line.direction⟩ = .ok d ∧
      line.direction = d.toGo := by
  obtain ⟨a, hfind, hcurrency⟩ := hline.account
  have hpos := hline.positive
  have hamount : ¬ line.amount ≤ 0 := by omega
  rcases hline.direction with hd | hd
  · refine ⟨.debit, ?_, hd⟩
    simp [checkPosting, hd, Direction.toDb, hfind, hcurrency, hamount, hheader]
  · refine ⟨.credit, ?_, hd⟩
    simp [checkPosting, hd, Direction.toDb, hfind, hcurrency, hamount, hheader]

/-- The lines of an entry are written one after the other under a header of the transaction. -/
theorem exec_insertLines {accounts : List Account} {entryID : UUID} {ls : List Line}
    (haccounts : ∀ n, (db n).accounts = accounts) (hls : ∀ line ∈ ls, line.IsPostable accounts)
    (hheader : ∃ row ∈ headers l, row.id = entryID) :
    ∃ n', ∃ ps : List Posting, (insertLines entryID ls).exec (answer db uuid) n l =
        (.ok (), n', l ++ ps.map Effect.posting) ∧
      ps.map Posting.line = ls ∧ ∀ p ∈ ps, p.journalEntryID = entryID := by
  induction ls generalizing n l with
  | nil => exact ⟨n, [], by simp [insertLines], rfl, by simp⟩
  | cons line ls ih =>
    obtain ⟨row, hrow, hid⟩ := hheader
    have hfound : Table.find JournalEntry.id ((db n).view l).entries entryID ≠ none := by
      rw [Ne, Table.find_eq_none_iff, Tables.view_eq]
      exact fun hnone => hnone row (List.mem_append_right _ hrow) hid
    have hpostable : line.IsPostable ((db n).view l).accounts := by
      rw [Tables.view_eq, haccounts]
      exact hls line List.mem_cons_self
    obtain ⟨d, hcheck, hd⟩ := checkPosting_of_isPostable hpostable hfound
    let p : Posting := ⟨uuid n, entryID, line.accountID, line.amount, line.currency, d⟩
    have hinsert : ((insertPosting ⟨entryID, line.accountID, line.amount, line.currency,
        line.direction⟩).orThrow fun e => .wrap "insert posting" (.db e)).exec
          (answer db uuid) n l = (.ok p, n + 1, l ++ [.posting p]) := by
      apply exec_orThrow
      simp [answer, Op.exec, hcheck, p]
    obtain ⟨n', ps, hexec, hlines, hps⟩ := ih (n := n + 1) (l := l ++ [.posting p])
      (fun line hline => hls line (List.mem_cons_of_mem _ hline)) ⟨row, by simp [hrow], hid⟩
    refine ⟨n', p :: ps, ?_, ?_, ?_⟩
    · rw [insertLines, bind_eq, exec_bind hinsert, hexec]
      simp
    · simp [hlines, p, Posting.line, ← hd]
    · simpa [p] using hps

/-- An entry that validates is written as one block, if its reference is not booked yet. -/
theorem exec_postTx {accounts : List Account} {e : Entry}
    (haccounts : ∀ n, (db n).accounts = accounts) (hvalid : validate e = .ok ())
    (hls : ∀ line ∈ e.lines, line.IsPostable accounts)
    (hdb : ∀ n, ∀ j ∈ (db n).entries, j.externalRef ≠ e.externalRef)
    (hl : ∀ j ∈ headers l, j.externalRef ≠ e.externalRef) :
    ∃ n' id, ∃ ps : List Posting, (postTx e).exec (answer db uuid) n l = (.ok (e.params.row id), n',
        l ++ .entry (e.params.row id) :: ps.map Effect.posting) ∧
      ps.map Posting.line = e.lines ∧ (∀ p ∈ ps, p.journalEntryID = id) ∧ ∃ k, id = uuid k := by
  have hnone : ∀ n, Table.find JournalEntry.externalRef ((db n).view l).entries e.externalRef =
      none := by
    intro n
    rw [Table.find_eq_none_iff, Tables.view_eq]
    intro j hj
    rcases List.mem_append.mp hj with hj | hj
    · exact hdb n j hj
    · exact hl j hj
  have hlookup : (getJournalEntryByExternalRef e.externalRef).exec (answer db uuid) n l =
      (.ok (.error .noRows), n + 1, l) := by
    rw [exec_query]
    simp only [answer, Op.exec, hnone, List.append_nil]
  let row := e.params.row (uuid (n + 1))
  have hcreate : ∀ f : DbError → GoError, ((createJournalEntry e.params).orThrow f).exec
      (answer db uuid) (n + 1) l = (.ok row, n + 1 + 1, l ++ [.entry row]) := by
    intro f
    apply exec_orThrow
    rw [exec_query]
    have hparams : e.params.externalRef = e.externalRef := rfl
    simp only [answer, Op.exec, hparams, hnone, row]
  obtain ⟨n', ps, hexec, hlines, hps⟩ := @exec_insertLines db uuid (n + 1 + 1)
    (l ++ [.entry row]) accounts row.id e.lines haccounts hls ⟨row, by simp, rfl⟩
  refine ⟨n', uuid (n + 1), ps, ?_, hlines, hps, n + 1, rfl⟩
  rw [postTx, hvalid]
  simp only [postWith, bind_eq]
  rw [exec_bind hlookup]
  simp only
  rw [exec_bind (hcreate _), exec_bind hexec]
  simp [row]

end Posting

/-! ## The balance trigger -/

/-- Blocks of balanced entries leave no difference under any id. -/
theorem Blocks.entryDiff_lines {log : List Effect} {cs : List Creation} (h : Blocks log cs)
    (hbalance : ∀ c ∈ cs, LinesBalance c.entry.lines) (entryID : UUID) (currency : String) :
    entryDiff (lines log) entryID currency = 0 := by
  induction h with
  | nil => rfl
  | @snoc log cs e id ps _ hlines hps ih =>
    have hlog := ih fun c hc => hbalance c (List.mem_append_left _ hc)
    have hblock : entryDiff ps entryID currency = 0 := by
      rw [entryDiff_eq]
      by_cases hid : id = entryID
      · have hall : entryLines ps entryID = e.lines := by
          have hself := @postingsOf_eq_self ps entryID fun p hp => (hps p hp).trans hid
          rw [← hlines, ← hself]
          simp [entryLines, postingsOf]
        have hbal := hbalance ⟨e.params.row id, e⟩ (by simp) currency
        rw [hall, hbal, Int.sub_self]
      · have hnil := @postingsOf_eq_nil ps entryID fun p hp he =>
          hid ((hps p hp).symm.trans he)
        have hnone : entryLines ps entryID = [] := by
          rw [entryLines, ← postingsOf, hnil, List.map_nil]
        rw [hnone]
        rfl
    simp [entryDiff_append, hlog, hblock]

/-- Blocks of balanced entries under new ids pass the trigger. -/
theorem Blocks.commitAllowed {db : Tables} {log : List Effect} {cs : List Creation}
    (h : Blocks log cs) (hbalance : ∀ c ∈ cs, LinesBalance c.entry.lines)
    (hnew : ∀ c ∈ cs, ∀ p ∈ db.postings, p.journalEntryID ≠ c.row.id) :
    Ledger.commitAllowed db log = true := by
  simp only [Ledger.commitAllowed, entryBalanced, List.all_eq_true, decide_eq_true_eq]
  intro p hp q hq
  obtain ⟨c, hc, hid⟩ := h.line_header p hp
  have hdb : entryDiff db.postings p.journalEntryID q.currency = 0 := by
    rw [entryDiff, List.filter_eq_nil_iff.mpr]
    · rfl
    · intro r hr
      simp [hid ▸ hnew c hc r hr]
  rw [Tables.view_eq, entryDiff_append, hdb, h.entryDiff_lines hbalance, Int.add_zero]

end Selatpay.Ledger
