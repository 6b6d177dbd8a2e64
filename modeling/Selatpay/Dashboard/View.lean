import Selatpay.Core.Reading
import Selatpay.Idempotency.Middleware
import Selatpay.Settlement.Promises

/-!
# The page of an intent

`loadIntentView` gathers a page with a dozen queries outside any transaction, while
watchers and workers go on, so the sections of one page are of different moments. They
are read in an order that keeps the page from contradicting itself: the intent comes
first, and what its state promises is already in the tables when the later queries run.
What the templates make of a view is left open: they write as they go, so a template that
fails halfway leaves a page that breaks off under the status of a good one.
-/

namespace Selatpay.Dashboard

open Store Saga Settlement Prog
open Idempotency (Bytes WriterCall ResponseWriter httpError statusOK statusInternalServerError)

/-- The queries of the page. -/
inductive Query
  | getPaymentIntentByID (id : UUID)
  | getMerchantByID (id : UUID)
  | getQuote (id : UUID)
  | listOnchainPaymentsByIntent (intentID : UUID)
  | listJournalEntriesByIntent (intentID : UUID)
  | listPostingsByEntry (journalEntryID : UUID)
  | getAccountByID (id : UUID)
  | getPayoutByIntent (intentID : UUID)
  | getSagaRunByIntent (intentID : UUID) (sagaKind : Kind)
  | listOutboxByAggregate (aggregateID : UUID)

/-- What a query returns. -/
@[reducible] def Query.Row : Query → Type
  | .getPaymentIntentByID _ => PaymentIntent
  | .getMerchantByID _ => Merchant
  | .getQuote _ => Quote
  | .listOnchainPaymentsByIntent _ => List OnchainPayment
  | .listJournalEntriesByIntent _ => List Ledger.JournalEntry
  | .listPostingsByEntry _ => List Ledger.Posting
  | .getAccountByID _ => Ledger.Account
  | .getPayoutByIntent _ => Payout
  | .getSagaRunByIntent _ _ => SagaRun
  | .listOutboxByAggregate _ => List OutboxRow

/-- The reply of a query. -/
@[reducible] def Query.Rep (q : Query) : Type := Except DbError q.Row

/-- How a query is answered. The order of `created_at` is that of the transactions' beginnings,
which the tables do not show, so the answer brings it. -/
inductive Answer
  | row
  | payments (rows : List OnchainPayment)
  | entries (rows : List Ledger.JournalEntry)
  | postings (rows : List Ledger.Posting)
  | outbox (rows : List OutboxRow)
  | failed (msg : String)

/-- The selected rows in some order. -/
def ordered {α : Type} [DecidableEq α] (rows selected : List α) :
    Option (Except DbError (List α)) :=
  if rows.Perm selected then some (.ok rows) else none

/-- Execute a query on the committed database. -/
def Query.reply (db : Db) : (q : Query) → Answer → Option q.Rep
  | _, .failed msg => some (.error (.failed msg))
  | .getPaymentIntentByID id, .row => some (selectOne (Table.find PaymentIntent.id db.intents id))
  | .getMerchantByID id, .row => some (selectOne (Table.find Merchant.id db.merchants id))
  | .getQuote id, .row => some (selectOne (Table.find Quote.id db.quotes id))
  | .listOnchainPaymentsByIntent id, .payments rows =>
    ordered rows (db.payments.filter fun p => p.intentID = some id)
  | .listJournalEntriesByIntent id, .entries rows =>
    ordered rows (db.ledger.entries.filter fun e => e.intentID = some id)
  | .listPostingsByEntry id, .postings rows =>
    ordered rows (Ledger.postingsOf db.ledger.postings id)
  | .getAccountByID id, .row =>
    some (selectOne (Table.find Ledger.Account.id db.ledger.accounts id))
  | .getPayoutByIntent id, .row => some (selectOne (Table.find Payout.intentID db.payouts id))
  | .getSagaRunByIntent id kind, .row =>
    some (selectOne (db.sagas.find? fun r => r.intentID = id ∧ r.sagaKind = kind))
  | .listOutboxByAggregate id, .outbox rows =>
    ordered rows (db.outbox.filter fun o => o.aggregateID = some id)
  | _, _ => none

/-! ## The page -/

/-- `postingView`. -/
structure PostingView where
  posting : Ledger.Posting
  accountCode : String

/-- `journalEntryView`. -/
structure JournalEntryView where
  entry : Ledger.JournalEntry
  postings : List PostingView

/-- `intentView`. -/
structure IntentView where
  title : String
  intent : PaymentIntent
  quote : Quote
  onchain : List OnchainPayment
  entries : List JournalEntryView
  payout : Option Payout
  saga : Option SagaRun
  outbox : List OutboxRow
  merchant : Merchant

/-- Programs of the page. -/
abbrev ViewM := Prog Query.Rep DbError

/-- A query whose every error is returned. -/
def ask (q : Query) : ViewM q.Row := (query q).orThrow id

/-- A query for a row that may be missing. -/
def askOptional (q : Query) : ViewM (Option q.Row) :=
  (query q).bind fun
    | .ok row => .ret (some row)
    | .error .noRows => .ret none
    | .error e => .throw e

/-- The postings of an entry with the codes of their accounts. -/
def loadPostings : List Ledger.Posting → ViewM (List PostingView)
  | [] => .ret []
  | p :: postings => do
    let acct ← ask (.getAccountByID p.accountID)
    let rest ← loadPostings postings
    return ⟨p, acct.code⟩ :: rest

/-- The entries with their postings. -/
def loadEntries : List Ledger.JournalEntry → ViewM (List JournalEntryView)
  | [] => .ret []
  | e :: entryRows => do
    let postings ← ask (.listPostingsByEntry e.id)
    let pviews ← loadPostings postings
    let rest ← loadEntries entryRows
    return ⟨e, pviews⟩ :: rest

/-- `loadIntentView`. -/
def loadIntentView (id : UUID) : ViewM IntentView := do
  let intent ← ask (.getPaymentIntentByID id)
  let merchant ← ask (.getMerchantByID intent.merchantID)
  let quote ← ask (.getQuote intent.quoteID)
  let onchain ← ask (.listOnchainPaymentsByIntent id)
  let entryRows ← ask (.listJournalEntriesByIntent id)
  let entries ← loadEntries entryRows
  let payout ← askOptional (.getPayoutByIntent id)
  let saga ← askOptional (.getSagaRunByIntent id .settlement)
  let outbox ← ask (.listOutboxByAggregate id)
  return ⟨"Intent " ++ id.text, intent, quote, onchain, entries, payout, saga, outbox, merchant⟩

/-- What `ExecuteTemplate` does: the pieces it writes, and its error. -/
structure Execution where
  pieces : List Bytes
  err : Option String

/-- The template set: what the template of a name does with a view. -/
abbrev Templates := String → IntentView → Execution

/-- `render`. -/
def render (x : Execution) : List WriterCall :=
  .setHeader "Content-Type" "text/html; charset=utf-8" :: (x.pieces.map .write ++
    x.err.elim [] fun err => httpError ("render: " ++ err) statusInternalServerError)

/-- `http.StatusNotFound` is accepted. -/
theorem valid_notFound : 100 ≤ 404 ∧ 404 ≤ 999 := by decide

/-- `http.NotFound`. -/
def notFound : List WriterCall := httpError "404 page not found" ⟨404, valid_notFound⟩

/-- `handleIntent`, with the parsed parameter of the path. -/
def handleIntent (templates : Templates) (param : Option UUID) : ViewM (List WriterCall) :=
  match param with
  | none => .ret (httpError "bad intent id" Idempotency.statusBadRequest)
  | some id => (loadIntentView id).attempt.bind fun
    | .ok view => .ret (render (templates "detail.html" view))
    | .error .noRows => .ret notFound
    | .error e => .ret (httpError ("load intent: " ++ e.text) statusInternalServerError)

section Render

/-- A status that is sent is not changed by what follows. -/
theorem sent_calls {w : ResponseWriter} {status : Idempotency.Status} (h : w.sent = some status)
    (calls : List WriterCall) : (w.calls calls).sent = some status := by
  induction calls generalizing w with
  | nil => exact h
  | cons call calls ih =>
    refine ih ?_
    cases call with
    | setHeader name value => simp [ResponseWriter.call, h]
    | writeHeader status' => simp [ResponseWriter.call, ResponseWriter.writeHeader_sent h, h]
    | write p =>
      simp only [ResponseWriter.call, ResponseWriter.write, ResponseWriter.writeHeader_sent h]
      split <;> exact h

/-- Only a template that fails before it has written anything makes an error of the page. -/
theorem status_render (x : Execution) : (ResponseWriter.fresh.calls (render x)).status =
    if x.pieces = [] ∧ x.err ≠ none then statusInternalServerError else statusOK := by
  obtain ⟨pieces, err⟩ := x
  cases pieces with
  | nil => cases err <;> rfl
  | cons p pieces =>
    have hsent : (ResponseWriter.fresh.calls (render ⟨p :: pieces, err⟩)).sent = some statusOK :=
      sent_calls (w := (ResponseWriter.fresh.call (.setHeader "Content-Type"
        "text/html; charset=utf-8")).write p) rfl _
    simp [ResponseWriter.status, hsent]

end Render

/-! ## What a query says -/

/-- The row is the result of the query. -/
def Query.Fits (db : Db) : (q : Query) → q.Row → Prop
  | .getPaymentIntentByID id, row => Table.find PaymentIntent.id db.intents id = some row
  | .getMerchantByID id, row => Table.find Merchant.id db.merchants id = some row
  | .getQuote id, row => Table.find Quote.id db.quotes id = some row
  | .listOnchainPaymentsByIntent id, rows =>
    rows.Perm (db.payments.filter fun p => p.intentID = some id)
  | .listJournalEntriesByIntent id, rows =>
    rows.Perm (db.ledger.entries.filter fun e => e.intentID = some id)
  | .listPostingsByEntry id, rows => rows.Perm (Ledger.postingsOf db.ledger.postings id)
  | .getAccountByID id, row => Table.find Ledger.Account.id db.ledger.accounts id = some row
  | .getPayoutByIntent id, row => Table.find Payout.intentID db.payouts id = some row
  | .getSagaRunByIntent id kind, row =>
    (db.sagas.find? fun r => r.intentID = id ∧ r.sagaKind = kind) = some row
  | .listOutboxByAggregate id, rows => rows.Perm (db.outbox.filter fun o => o.aggregateID = some id)

/-- The query selects no row. -/
def Query.Misses (db : Db) : Query → Prop
  | .getPaymentIntentByID id => Table.find PaymentIntent.id db.intents id = none
  | .getMerchantByID id => Table.find Merchant.id db.merchants id = none
  | .getQuote id => Table.find Quote.id db.quotes id = none
  | .getAccountByID id => Table.find Ledger.Account.id db.ledger.accounts id = none
  | .getPayoutByIntent id => Table.find Payout.intentID db.payouts id = none
  | .getSagaRunByIntent id kind =>
    (db.sagas.find? fun r => r.intentID = id ∧ r.sagaKind = kind) = none
  | _ => False

/-- How a reply comes about. -/
inductive Query.Replies (db : Db) (q : Query) : q.Rep → Prop
  | fits {row : q.Row} : q.Fits db row → Query.Replies db q (.ok row)
  | misses : q.Misses db → Query.Replies db q (.error .noRows)
  | failed (msg : String) : Query.Replies db q (.error (.failed msg))

section Replies

variable {db : Db} {q : Query}

theorem replies_selectOne {o : Option q.Row} {r : q.Rep}
    (hfits : ∀ row, o = some row → q.Fits db row) (hmisses : o = none → q.Misses db)
    (h : some (selectOne o) = some r) : q.Replies db r := by
  cases o <;> cases h
  · exact .misses (hmisses rfl)
  · exact .fits (hfits _ rfl)

theorem ordered_eq_some {α : Type} [DecidableEq α] {rows selected : List α}
    {r : Except DbError (List α)} (h : ordered rows selected = some r) :
    r = .ok rows ∧ rows.Perm selected := by
  unfold ordered at h
  split at h <;> cases h
  exact ⟨rfl, ‹_›⟩

theorem Query.replies {a : Answer} {r : q.Rep} (h : q.reply db a = some r) : q.Replies db r := by
  cases q <;> cases a <;> first
    | exact replies_selectOne (fun _ hrow => hrow) (fun hnone => hnone) h
    | (obtain ⟨rfl, hperm⟩ := ordered_eq_some h; exact .fits hperm)
    | (cases h; exact .failed _)
    | cases h

end Replies

/-! ## Moments of a page -/

/-- The tables as they are at any moment. -/
structure Presentable (db : Db) : Prop where
  consistent : Consistent db
  done : ∀ i ∈ db.intents, ∀ step, Settlement.position step < rank i.state → Done db i.id step
  sagas : ∀ i ∈ db.intents, 0 < rank i.state → ∃ r ∈ db.sagas, r.intentID = i.id
  merchants : ∀ i ∈ db.intents, ∃ m ∈ db.merchants, m.id = i.merchantID
  quotes : ∀ i ∈ db.intents, ∃ q ∈ db.quotes, q.id = i.quoteID
  accounts : ∀ p ∈ db.ledger.postings, ∃ a ∈ db.ledger.accounts, a.id = p.accountID
  balance : BooksBalance db

/-- One moment is later than another, or the same. -/
def Later (db db' : Db) : Prop := Keeps db db' ∧ Presentable db'

theorem Later.trans {db db' db'' : Db} (h : Later db db') (h' : Later db' db'') : Later db db'' :=
  ⟨h.1.trans h'.1, h'.2⟩

/-- Every reachable state is presentable. -/
theorem presentable_of_reachable {env : Env} {ok : World → Event → Prop} {s : World}
    (h : Reachable env ok s) : Presentable s.db where
  consistent := h.inv.consistent
  done := h.promised.intents
  sagas := h.promised.sagas
  merchants := h.promised.merchants
  quotes := by
    intro i hi
    obtain ⟨q, hq, hid, -⟩ := (h.issued.issued i hi).quote
    exact ⟨q, hq, hid⟩
  accounts := h.postings.made.posting_account
  balance := h.booksBalance

/-! ## The queries of a page, one after the other -/

section Pages

variable {db : Db}

/-- A query is answered at a later moment. -/
theorem wp_ask {α : Type} {q : Query} {k : q.Row → ViewM α} {Q : Except DbError α → Db → Prop}
    (hfail : ∀ msg db', Q (.error (.failed msg)) db')
    (hmiss : ∀ db', Later db db' → q.Misses db' → Q (.error .noRows) db')
    (hfits : ∀ row db', Later db db' → q.Fits db' row →
      (k row).Wp (Reads Later fun db q => q.reply db) Q db') :
    ((ask q).bind k).Wp (Reads Later fun db q => q.reply db) Q db := by
  rintro r db' ⟨hlater, a, hr⟩
  cases Query.replies hr with
  | fits hrow => exact hfits _ db' hlater hrow
  | misses hnone => exact hmiss db' hlater hnone
  | failed msg => exact hfail msg db'

/-- A row that may be missing is read at a later moment. -/
theorem wp_askOptional {α : Type} {q : Query} {k : Option q.Row → ViewM α}
    {Q : Except DbError α → Db → Prop} (hfail : ∀ msg db', Q (.error (.failed msg)) db')
    (hfound : ∀ o db', Later db db' → (o = none → q.Misses db') → (∀ row ∈ o, q.Fits db' row) →
      (k o).Wp (Reads Later fun db q => q.reply db) Q db') :
    ((askOptional q).bind k).Wp (Reads Later fun db q => q.reply db) Q db := by
  rintro r db' ⟨hlater, a, hr⟩
  cases Query.replies hr with
  | fits hrow => exact hfound (some _) db' hlater (by simp) (by simpa using hrow)
  | misses hnone => exact hfound none db' hlater (fun _ => hnone) (by simp)
  | failed msg => exact hfail msg db'

/-- The query failed. -/
def Failed {α : Type} : Except DbError α → Prop
  | .ok _ => False
  | .error e => ∃ msg, e = .failed msg

/-- The codes are those of the accounts. -/
def PostingView.Coded (accounts : List Ledger.Account) (v : PostingView) : Prop :=
  ∃ a ∈ accounts, a.id = v.posting.accountID ∧ a.code = v.accountCode

theorem wp_loadPostings (hdb : Presentable db) {ps : List Ledger.Posting}
    (hps : ∀ p ∈ ps, ∃ a ∈ db.ledger.accounts, a.id = p.accountID) :
    (loadPostings ps).Wp (Reads Later fun db q => q.reply db) (fun x db' => Failed x ∨
      ∃ views, x = .ok views ∧ Later db db' ∧ views.map PostingView.posting = ps ∧
        ∀ v ∈ views, v.Coded db.ledger.accounts) db := by
  induction ps generalizing db with
  | nil => exact .inr ⟨[], rfl, ⟨.refl db, hdb⟩, rfl, by simp⟩
  | cons p ps ih =>
    refine wp_ask (fun msg _ => .inl ⟨msg, rfl⟩) ?_ ?_
    · intro db' hlater hmiss
      obtain ⟨a, ha, hid⟩ := hps p List.mem_cons_self
      rw [← hlater.1.accounts] at ha
      exact absurd hid (Table.find_eq_none_iff.mp hmiss a ha)
    · intro acct db' hlater hfits
      have haccounts := hlater.1.accounts
      refine (ih hlater.2 fun p' hp' => haccounts ▸ hps p' (List.mem_cons_of_mem p hp')).bind ?_ ?_
      · rintro rest db'' (⟨⟨⟩⟩ | ⟨views, hok, hlater', hviews, hcoded⟩)
        cases hok
        refine .inr ⟨_, rfl, hlater.trans hlater', by simp [hviews], ?_⟩
        obtain ⟨hmem, hid⟩ := Table.mem_of_find hfits
        rw [haccounts] at hcoded hmem
        exact List.forall_mem_cons.mpr ⟨⟨acct, hmem, hid, rfl⟩, hcoded⟩
      · rintro e db'' (hfailed | ⟨views, hok, -⟩)
        · exact .inl hfailed
        · cases hok

/-- The section of an entry balances, and names the accounts by their codes. -/
structure JournalEntryView.Sound (accounts : List Ledger.Account) (v : JournalEntryView) :
    Prop where
  balance : Ledger.LinesBalance (v.postings.map fun p => p.posting.line)
  coded : ∀ p ∈ v.postings, p.Coded accounts

/-- Lines balance in any order. -/
theorem linesBalance_of_perm {ls ms : List Ledger.Line} (h : ls.Perm ms)
    (hms : Ledger.LinesBalance ms) : Ledger.LinesBalance ls := by
  intro currency
  have hdebit := ((h.filter fun l => l.currency = currency ∧ l.direction = .debit).map
    Ledger.Line.amount).sum_eq
  have hcredit := ((h.filter fun l => l.currency = currency ∧ l.direction = .credit).map
    Ledger.Line.amount).sum_eq
  exact hdebit.trans ((hms currency).trans hcredit.symm)

theorem wp_loadEntries (hdb : Presentable db) (es : List Ledger.JournalEntry) :
    (loadEntries es).Wp (Reads Later fun db q => q.reply db) (fun x db' => Failed x ∨
      ∃ views, x = .ok views ∧ Later db db' ∧ views.map JournalEntryView.entry = es ∧
        ∀ v ∈ views, v.Sound db.ledger.accounts) db := by
  induction es generalizing db with
  | nil => exact .inr ⟨[], rfl, ⟨.refl db, hdb⟩, rfl, by simp⟩
  | cons e es ih =>
    refine wp_ask (fun msg _ => .inl ⟨msg, rfl⟩) (fun _ _ hmiss => hmiss.elim) ?_
    intro postings db₁ hlater hfits
    have haccounts := hlater.1.accounts
    have hps : ∀ p ∈ postings, ∃ a ∈ db₁.ledger.accounts, a.id = p.accountID := fun p hp =>
      hlater.2.accounts p (List.mem_filter.mp (hfits.subset hp)).1
    refine (wp_loadPostings hlater.2 hps).bind ?_ ?_
    · rintro pviews db₂ (⟨⟨⟩⟩ | ⟨_, hok, hlater', hviews, hcoded⟩)
      cases hok
      refine (ih hlater'.2).bind ?_ ?_
      · rintro rest db₃ (⟨⟨⟩⟩ | ⟨_, hok, hlater'', hrest, hsound⟩)
        cases hok
        refine .inr ⟨_, rfl, hlater.trans (hlater'.trans hlater''), by simp [hrest], ?_⟩
        rw [hlater'.1.accounts, haccounts] at hsound
        rw [haccounts] at hcoded
        refine List.forall_mem_cons.mpr ⟨⟨?_, hcoded⟩, hsound⟩
        have hlines : pviews.map (fun p => p.posting.line) = postings.map Ledger.Posting.line := by
          rw [← hviews, List.map_map]
          rfl
        rw [hlines]
        exact linesBalance_of_perm (hfits.map _) (hlater.2.balance e.id)
      · rintro err db₃ (hfailed | ⟨views, hok, -⟩)
        · exact .inl hfailed
        · cases hok
    · rintro err db₂ (hfailed | ⟨views, hok, -⟩)
      · exact .inl hfailed
      · cases hok

/-- What a page says of an intent. -/
structure IntentView.Sound (accounts : List Ledger.Account) (id : UUID) (v : IntentView) :
    Prop where
  intent : v.intent.id = id
  merchant : v.merchant.id = v.intent.merchantID
  quote : v.quote.id = v.intent.quoteID
  /-- The entries of the steps behind the intent are shown. -/
  posted : ∀ step, Settlement.position step < rank v.intent.state → ∀ ref ∈ newRefs id step,
    ∃ e ∈ v.entries, e.entry.externalRef = ref
  entries : ∀ e ∈ v.entries, e.entry.intentID = some id ∧ e.Sound accounts
  payout : ∀ p ∈ v.payout, p.intentID = id ∧ p.state = .succeeded
  paid : rank .settling ≤ rank v.intent.state → v.payout ≠ none
  saga : 0 < rank v.intent.state → v.saga ≠ none
  published : v.intent.state = .completed → ∃ o ∈ v.outbox, o.topic = topicCompleted

theorem wp_loadIntentView (db : Db) (id : UUID) :
    (loadIntentView id).Wp (Reads Later fun db q => q.reply db) (fun x db' =>
      Failed x ∨ (x = .error .noRows ∧ ∀ i ∈ db.intents, i.id ≠ id) ∨
        ∃ view, x = .ok view ∧ view.Sound db'.ledger.accounts id) db := by
  have hfail {α : Type} (msg : String) (P : Prop) :
      Failed (.error (.failed msg) : Except _ α) ∨ P :=
    .inl ⟨msg, rfl⟩
  refine wp_ask (fun msg _ => hfail msg _) ?_ ?_
  · intro db₁ hlater hmiss
    refine .inr (.inl ⟨rfl, fun i hi hid => ?_⟩)
    obtain ⟨i', hi', hterms⟩ := hlater.1.toGrows.intent hi
    exact Table.find_eq_none_iff.mp hmiss i' hi' ((terms_eq hterms).1.trans hid)
  intro intent db₁ hlater₁ hintent
  obtain ⟨hi, hid⟩ := Table.mem_of_find hintent
  refine wp_ask (fun msg _ => hfail msg _) ?_ ?_
  · intro db₂ hlater₂ hmiss
    obtain ⟨m, hm, hmid⟩ := hlater₁.2.merchants intent hi
    exact absurd hmid (Table.find_eq_none_iff.mp hmiss m (hlater₂.1.merchants ▸ hm))
  intro merchant db₂ hlater₂ hmerchant
  refine wp_ask (fun msg _ => hfail msg _) ?_ ?_
  · intro db₃ hlater₃ hmiss
    obtain ⟨q, hq, hqid⟩ := hlater₁.2.quotes intent hi
    exact absurd hqid (Table.find_eq_none_iff.mp hmiss q
      ((hlater₂.trans hlater₃).1.quotes.subset hq))
  intro quote db₃ hlater₃ hquote
  refine wp_ask (fun msg _ => hfail msg _) (fun _ _ hmiss => hmiss.elim) ?_
  intro onchain db₄ hlater₄ honchain
  refine wp_ask (fun msg _ => hfail msg _) (fun _ _ hmiss => hmiss.elim) ?_
  intro entryRows db₅ hlater₅ hentries
  refine (wp_loadEntries hlater₅.2 entryRows).bind ?_ ?_
  · rintro entries db₆ (⟨⟨⟩⟩ | ⟨_, hok, hlater₆, hviews, hsound⟩)
    cases hok
    have hlater₁₅ := hlater₂.trans (hlater₃.trans (hlater₄.trans hlater₅))
    refine wp_askOptional (fun msg _ => hfail msg _) ?_
    intro payout db₇ hlater₇ hnopayout hpayout
    refine wp_askOptional (fun msg _ => hfail msg _) ?_
    intro saga db₈ hlater₈ hnosaga _
    refine wp_ask (fun msg _ => hfail msg _) (fun _ _ hmiss => hmiss.elim) ?_
    intro outbox db₉ hlater₉ houtbox
    have hlater₁₇ := hlater₁₅.trans (hlater₆.trans hlater₇)
    have hlater₁₈ := hlater₁₇.trans hlater₈
    have hdone := hlater₁.2.done intent hi
    rw [hid] at hdone
    refine .inr (.inr ⟨_, rfl, hid, (Table.mem_of_find hmerchant).2, (Table.mem_of_find hquote).2,
      ?_, ?_, ?_, ?_, ?_, ?_⟩)
    · intro step hlt ref href
      obtain ⟨j, hj, rfl⟩ := ((hdone step hlt).mono hlater₁₅.1).entries ref href
      have hmem := mem_refsOf hlater₅.2.consistent hj (newRefs_subset id step href)
      obtain ⟨j', hj', href'⟩ := List.mem_map.mp hmem
      rw [← hentries.mem_iff, ← hviews] at hj'
      obtain ⟨v, hv, rfl⟩ := List.mem_map.mp hj'
      exact ⟨v, hv, href'⟩
    · intro v hv
      have haccounts := (hlater₆.trans (hlater₇.trans (hlater₈.trans hlater₉))).1.accounts
      refine ⟨?_, haccounts ▸ hsound v hv⟩
      have hmem : v.entry ∈ entryRows := hviews ▸ List.mem_map_of_mem hv
      exact of_decide_eq_true (List.mem_filter.mp (hentries.subset hmem)).2
    · intro p hp
      obtain ⟨hmem, hpid⟩ := Table.mem_of_find (hpayout p hp)
      exact ⟨hpid, hlater₇.2.consistent.paidOut p hmem⟩
    · rintro hle hnone
      obtain ⟨p, hp, hpid⟩ := ((hdone .triggerPayout hle).mono hlater₁₇.1).payout rfl
      exact Table.find_eq_none_iff.mp (hnopayout hnone) p hp hpid
    · rintro hpos hnone
      obtain ⟨r, hr, hrid⟩ := hlater₁.2.sagas intent hi hpos
      obtain ⟨r', hr', hterms⟩ := hlater₁₈.1.toGrows.saga hr
      have hnot := List.find?_eq_none.mp (hnosaga hnone) r' hr'
      have hkind : r'.sagaKind = .settlement := by cases r'.sagaKind; rfl
      exact hnot (decide_eq_true ⟨(congrArg Prod.snd hterms).trans (hrid.trans hid), hkind⟩)
    · intro hcompleted
      have hlt : Settlement.position .emitCompleted < rank intent.state := by
        rw [show intent.state = .completed from hcompleted]
        decide
      obtain ⟨o, ho, htopic, haggregate⟩ :=
        ((hdone .emitCompleted hlt).mono (hlater₁₈.trans hlater₉).1).event rfl
      exact ⟨o, houtbox.mem_iff.mpr (List.mem_filter.mpr ⟨ho, decide_eq_true haggregate⟩), htopic⟩
  · rintro err db₆ (hfailed | ⟨views, hok, -⟩)
    · exact .inl hfailed
    · cases hok

end Pages

/-! ## Pages of a running system -/

/-- What the browser is sent for an intent. -/
inductive Responds (templates : Templates) (accounts : List Ledger.Account)
    (intents : List PaymentIntent) (id : UUID) : List WriterCall → Prop
  | failed (msg : String) : Responds templates accounts intents id
      (httpError ("load intent: " ++ (DbError.failed msg).text) statusInternalServerError)
  | notFound : (∀ i ∈ intents, i.id ≠ id) → Responds templates accounts intents id notFound
  | detail {view : IntentView} : view.Sound accounts id →
      Responds templates accounts intents id (render (templates "detail.html" view))

theorem wp_handleIntent (templates : Templates) (db : Db) (id : UUID) :
    (handleIntent templates (some id)).Wp (Reads Later fun db q => q.reply db) (fun x db' =>
      ∃ calls, x = .ok calls ∧
        Responds templates db'.ledger.accounts db.intents id calls) db := by
  have hview : ((loadIntentView id).attempt : ViewM _).Wp (Reads Later fun db q => q.reply db)
      (fun x db' => ∃ y, x = .ok y ∧
        (Failed y ∨ (y = .error .noRows ∧ ∀ i ∈ db.intents, i.id ≠ id) ∨
          ∃ view, y = .ok view ∧ view.Sound db'.ledger.accounts id)) db :=
    (wp_loadIntentView db id).attempt fun y _ hy => ⟨y, rfl, hy⟩
  refine hview.bind ?_ ?_
  · rintro y db' ⟨_, ⟨⟩, hfailed | ⟨rfl, hnone⟩ | ⟨view, rfl, hsound⟩⟩
    · cases y with
      | ok view => exact hfailed.elim
      | error e =>
        obtain ⟨msg, rfl⟩ := hfailed
        exact ⟨_, rfl, .failed msg⟩
    · exact ⟨_, rfl, .notFound hnone⟩
    · exact ⟨_, rfl, .detail hsound⟩
  · rintro e db' ⟨y, ⟨⟩, -⟩

/-- A step of the system leads to a later moment. -/
theorem later_step {env : Env} {ok : World → Event → Prop} {s t : World} {e : Event}
    (hs : Reachable env ok s) (hok : ok s e) (h : s.step env e = some t) :
    Reachable env ok t ∧ Later s.db t.db := by
  have ht : Reachable env ok t := hs.append (.cons hok h (.nil t))
  exact ⟨ht, keeps_change (step_change h), presentable_of_reachable ht⟩

/-- The page is loaded beside the system. -/
def pageStep (env : Env) : World × ViewM (List WriterCall) → Event ⊕ Answer →
    Option (World × ViewM (List WriterCall)) :=
  besideStep (World.step env) fun s q => q.reply s.db

/-- While the system runs, whoever asks for an intent is sent an error of the database, not found if
the intent was not there when the page was asked for, or what the templates make of a view that
never shows the intent ahead of its entries, payout, saga and event and whose entries balance. -/
theorem intent_page_sound {env : Env} {s t : World} {templates : Templates} {id : UUID}
    {calls : List WriterCall} {es : List (Event ⊕ Answer)} (hs : Reachable env anyStep s)
    (h : Path (pageStep env) (besideOk anyStep) (s, handleIntent templates (some id)) es
      (t, .ret calls)) :
    Responds templates t.db.ledger.accounts s.db.intents id calls := by
  have hrefl : ∀ s, Reachable env anyStep s → Later s.db s.db :=
    fun s hs => ⟨.refl s.db, presentable_of_reachable hs⟩
  obtain ⟨db, ⟨_, ⟨⟩, hsound⟩, hlater⟩ := Wp.beside hrefl (fun _ _ _ => Later.trans)
    (fun _ _ _ hs hok hst => (later_step hs hok hst).1)
    (fun _ _ _ hs hok hst => (later_step hs hok hst).2) hs
    (wp_handleIntent templates s.db id) h
  exact hlater.1.accounts ▸ hsound

/-- Templates that write whether the intent is shown as funded and paid out, and then fail. -/
def breakingOff : Templates := fun _ view =>
  ⟨[[if view.intent.state = .funded ∧ view.payout.isSome then 1 else 0]], some "no such field"⟩

/-- The first piece of a page that is written. -/
def firstPiece : ViewM (List WriterCall) → Option Bytes
  | .ret (.setHeader _ _ :: .write p :: _) => some p
  | _ => none

theorem exists_of_firstPiece {x : ViewM (List WriterCall)} {p : Bytes}
    (h : firstPiece x = some p) :
    ∃ name value rest, x = .ret (.setHeader name value :: .write p :: rest) := by
  unfold firstPiece at h
  split at h <;> cases h
  exact ⟨_, _, _, rfl⟩

/-- The page is asked for a funded intent, the intent is paid out after the first query, and the
other queries find the tables of `t`. -/
def overtakenPage (t : World) : List (Event ⊕ Answer) :=
  .inr .row :: (paying "a" 2000).map .inl ++ [.inr .row, .inr .row,
    .inr (.payments t.db.payments), .inr (.entries t.db.ledger.entries),
    .inr (.postings t.db.ledger.postings), .inr .row, .inr .row, .inr .row, .inr .row,
    .inr (.outbox t.db.outbox)]

theorem intent_page_sound_overtakenPage : ∃ s t es view, Reachable smallEnv anyStep s ∧
    Path (pageStep smallEnv) (besideOk anyStep) (s, handleIntent breakingOff (some 3)) es
        (t, .ret (render (breakingOff "detail.html" view))) ∧
      view.intent.state = .funded ∧ view.payout.isSome = true ∧
      view.Sound t.db.ledger.accounts 3 := by
  obtain ⟨s, hs, t, -, x, hx, hpiece⟩ : ∃ s,
      runIf (World.step smallEnv) anyStep smallWorld
        (ordering 50 ++ depositing "sig-1" 61847 4 ++ crediting "a" 1000) = some s ∧
        ∃ t ∈ run (World.step smallEnv) s (paying "a" 2000),
          ∃ x ∈ runIf (pageStep smallEnv) (besideOk anyStep) (s, handleIntent breakingOff (some 3))
            (overtakenPage t), firstPiece x.2 = some [1] :=
    exists_of_any (by decide +kernel)
  obtain ⟨name, value, rest, hcalls⟩ := exists_of_firstPiece hpiece
  have hreach := reachable_of_runIf hs
  have hpath : Path (pageStep smallEnv) (besideOk anyStep) (s, handleIntent breakingOff (some 3))
      (overtakenPage t) (x.1, .ret (.setHeader name value :: .write [1] :: rest)) :=
    hcalls ▸ .of_runIf hx
  have hresponds := intent_page_sound hreach hpath
  generalize hwritten : WriterCall.setHeader name value :: .write [1] :: rest = calls
    at hpath hresponds
  cases hresponds with
  | failed msg => cases hwritten
  | notFound _ => cases hwritten
  | @detail view hsound =>
    obtain ⟨hstate, hpayout⟩ : view.intent.state = .funded ∧ view.payout.isSome = true := by
      by_contra hnot
      simp [render, breakingOff, hnot] at hwritten
    exact ⟨s, x.1, overtakenPage t, view, hreach, hpath, hstate, hpayout, hsound⟩

end Selatpay.Dashboard
