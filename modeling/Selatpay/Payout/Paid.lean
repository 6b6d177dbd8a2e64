import Selatpay.Payout.Codec
import Selatpay.Payout.System
import Selatpay.Settlement.Contribution

/-!
# Every payout of the books was paid

A payout that is committed records a confirmation its worker has received. The confirmation
answers a request of the same key, and whatever else has been posted under that key was
posted for the same row, so for the same intent, amount and account.
-/

namespace Selatpay.Payout

open Store Saga

open Settlement (Owner RailCall askedFor Contracted RecordOf payoutTerms)

/-! ## The invariant -/

/-- The bank has paid a request of the key, under this reference. -/
def PaidFor (env : Env) (bank : MockBank.World) (key reference : String) : Prop :=
  ∃ y ∈ bank.exchanges, y.key = key ∧ y.decided = 1 ∧ ∃ (req : MockBank.SubmitRequest) (id : UUID),
    y.request.parse env.json.decodeRequest = .ok req ∧
      MockBank.decide id y.request.fail req = (200, MockBank.paid id req) ∧
      y.response = some (MockBank.write 200 (MockBank.paid id req).marshal) ∧
      reference = "MIDR-" ++ id.text

/-- What is known of the requests that have arrived at the bank. -/
structure Posted (books : Settlement.World) (posted : List SubmitRequest) : Prop where
  key : ∀ req ∈ posted, req.idempotency = req.payoutID.text
  terms : ∀ req ∈ posted, askedFor books.db req.intentID = some (req.amountIDR, req.recipient)
  /-- A request for the row of an open transaction is for its intent. -/
  rows : ∀ w row, .insertPayout row ∈ books.tx.log w → ∀ req ∈ posted, req.payoutID = row.id →
    req.intentID = row.intentID
  /-- A request for a committed row is for its intent. -/
  payouts : ∀ p ∈ books.db.payouts, ∀ req ∈ posted, req.payoutID = p.id → req.intentID = p.intentID

/-- What every run keeps. -/
structure Inv (env : Env) (s : World) : Prop where
  inv : Settlement.Inv env.books s.books
  contracted : Contracted s.books
  issued : Settlement.IntentsIssued s.books.db
  owed : Settlement.PayoutsOwed s.books.db
  postings : Settlement.PostingInv s.books
  sourced : MockBank.Sourced env.json.decodeRequest s.bank
  posted : Posted s.books s.posted
  /-- The bank knows posted requests only. -/
  exchanges : ∀ x ∈ s.bank.exchanges, ∃ req ∈ s.posted, x.request = httpRequest env.fail req ∧
    Fits req
  /-- The requests of a call carry its key. -/
  sent : ∀ w, ∀ n ∈ s.sent w, ∃ req x, asking (s.books.worker w) = some req ∧
    s.bank.exchanges[n]? = some x ∧ x.key = req.idempotency
  /-- A confirmation was paid. -/
  receipts : ∀ req result, (req, .ok result) ∈ s.receipts → result.outcome = .success →
    PaidFor env s.bank req.idempotency result.railReference
  /-- The answer a transaction works with was received. -/
  inFlight : ∀ w call, (s.books.worker w).inFlight = some call → call ∈ s.receipts
  /-- A committed payout records a confirmation. -/
  recorded : ∀ p ∈ s.books.db.payouts, ∃ req result, (req, .ok result) ∈ s.receipts ∧
    RecordOf p req result

section Books

variable {env : Settlement.Env} {s t : Settlement.World} {e : Settlement.Event}
  {posted : List SubmitRequest}

/-- An intent that terms are known of is stored. -/
theorem exists_of_askedFor {db : Db} {intentID : UUID} {terms : Int × Recipient}
    (h : askedFor db intentID = some terms) :
    ∃ i ∈ db.intents, i.id = intentID ∧ i.amountIDR = terms.1 := by
  unfold askedFor at h
  cases hfind : Table.find PaymentIntent.id db.intents intentID with
  | none => simp [hfind] at h
  | some i =>
    obtain ⟨hi, hid⟩ := Table.mem_of_find hfind
    refine ⟨i, hi, hid, ?_⟩
    simp only [hfind] at h
    split at h
    · cases h
    · split at h
      · cases h
      · cases h
        rfl

/-- What is known of the posted requests stays true, as long as no id is drawn again. -/
theorem posted_change (hp : Posted s posted) (hs : Settlement.Inv env s) (hc : Contracted s)
    (h : Settlement.Change env s e t)
    (hfresh : ∀ w uuid, e = .exec w (.row uuid) → ∀ req ∈ posted, req.payoutID ≠ uuid) :
    Posted t posted where
  key := hp.key
  terms req hreq := by
    have hterms := hp.terms req hreq
    obtain ⟨i, hi, hid, -⟩ := exists_of_askedFor hterms
    rw [(Settlement.keeps_change h).askedFor hs.sound.unique
      (Settlement.inv_change hs h).sound.unique ⟨i, hi, hid⟩, hterms]
  rows w row hrow req hreq hid := by
    rcases insertPayout_change h hrow with hrow | he
    · exact hp.rows w row hrow req hreq hid
    · exact absurd hid (hfresh w row.id he req hreq)
  payouts p hmem req hreq hid := by
    rcases Settlement.payout_change hs hc h hmem with
      hmem | ⟨w, _, _, row, -, -, hrow, hrid, hrintent⟩
    · exact hp.payouts p hmem req hreq hid
    · rw [← hrintent]
      exact hp.rows w row hrow req hreq (hid.trans hrid.symm)

/-- Rows of one id that a transaction sees are for one intent. -/
theorem intentID_eq_of_view (hs : s.tx.Sound engine) {w : Owner} {p q : Payout}
    (hp : ∃ p' ∈ (s.db.view (s.tx.log w)).payouts, payoutTerms p' = payoutTerms p)
    (hq : ∃ q' ∈ (s.db.view (s.tx.log w)).payouts, payoutTerms q' = payoutTerms q)
    (hid : p.id = q.id) : p.intentID = q.intentID := by
  obtain ⟨p', hp', hpterms⟩ := hp
  obtain ⟨q', hq', hqterms⟩ := hq
  simp only [payoutTerms, Prod.mk.injEq] at hpterms hqterms
  obtain rfl := Table.eq_of_mem (Db.payout_ids_nodup (hs.view_unique w)) hp' hq'
    (hpterms.1.trans (hid.trans hqterms.1.symm))
  exact hpterms.2.1.symm.trans hqterms.2.1

/-- A request that is posted now is for the row of its transaction. -/
theorem posted_post (hp : Posted s posted) (hs : Settlement.Inv env s) (hc : Contracted s)
    {w : Owner} {req : SubmitRequest} (hask : asking (s.worker w) = some req) :
    Posted s (posted ++ [req]) := by
  obtain ⟨run, began, k, rail, hw⟩ := asking_eq_some.mp hask
  have hasks := hc.asks hs hw
  obtain ⟨row, hrow, hrid, hrintent⟩ := hasks.inserted
  have hinsert := Settlement.payout_of_insert s.db hrow
  have hintent : req.intentID = row.intentID := hasks.intent.trans hrintent.symm
  refine ⟨Table.forall_mem_concat hp.key hasks.key, Table.forall_mem_concat hp.terms ?_, ?_, ?_⟩
  · rw [hasks.intent, hasks.terms]
  · intro v row' hrow'
    refine Table.forall_mem_concat (hp.rows v row' hrow') fun hid => ?_
    have hkey : ∀ {q : Payout} {u : Owner}, .insertPayout q ∈ s.tx.log u →
        .id q.id ∈ engine.logKeys (s.tx.log u) := by
      intro q u hq
      exact List.mem_flatMap.mpr ⟨_, hq, by simp [engine, Effect.keys, Payout.keys]⟩
    have hsame : row.id = row'.id := hrid.trans hid
    obtain rfl := hs.sound.owner_eq (hkey hrow) (hsame ▸ hkey hrow')
    exact hintent.trans (intentID_eq_of_view hs.sound hinsert
      (Settlement.payout_of_insert s.db hrow') hsame)
  · intro p hmem
    refine Table.forall_mem_concat (hp.payouts p hmem) fun hid => ?_
    exact hintent.trans (intentID_eq_of_view hs.sound hinsert
      ((Settlement.grows_view s.db (s.tx.log w)).payout hmem) (hrid.trans hid))

end Books

section Step

variable {env : Env} {s t : World} {e : Event}

/-- What the bank has paid stays paid. -/
theorem PaidFor.of_step {bank bank' : MockBank.World} {f : MockBank.Event} {key reference : String}
    (h : PaidFor env bank key reference)
    (hstep : MockBank.step env.json.decodeRequest bank f = some bank') :
    PaidFor env bank' key reference := by
  obtain ⟨y, hy, hkey, hdecided, req, id, hparse, hpaid, hresponse, href⟩ := h
  have hret : y.prog = .ret (MockBank.write 200 (MockBank.paid id req).marshal) := by
    unfold MockBank.Exchange.response at hresponse
    split at hresponse
    · next hprog => rw [hprog, Option.some.inj hresponse]
    · cases hresponse
  exact ⟨y, MockBank.mem_of_step hstep hy hret, hkey, hdecided, req, id, hparse, hpaid, hresponse,
    href⟩

/-- A confirmation that a worker receives was paid. -/
theorem Inv.paidFor_of_origin (hs : Inv env s) (hsane : Sane s e) {w : Owner} {req : SubmitRequest}
    {result : SubmitResult} (h : Origin env s w e (.ok result))
    (hask : asking (s.books.worker w) = some req) (hok : result.outcome = .success) :
    PaidFor env s.bank req.idempotency result.railReference := by
  generalize hanswer : (Except.ok result : RailAnswer) = answer at h
  cases h with
  | @response n x r hx hr hsent =>
    cases hanswer
    obtain ⟨req', x', hask', hx', hkey⟩ := hs.sent w n hsent
    rw [hask] at hask'
    rw [hx] at hx'
    cases hask'
    cases hx'
    obtain ⟨y, hy, hykey, hdecided, hresponse, breq, id, hparse, hpaid, rfl⟩ :=
      hs.sourced.confirmed (List.mem_of_getElem? hx) hr (statusCode_of_success hok)
    have hfits : (text (MockBank.paid id breq).marshal).length ≤ bodyLimit := hsane x hx _ hr
    refine ⟨y, hy, hykey.trans hkey, hdecided, breq, id, hparse, hpaid, hresponse, ?_⟩
    change (interpret env.json 200 (text (MockBank.paid id breq).marshal)).railReference = _
    rw [interpret_paid env.json id breq hfits]
  | failure f => exact absurd hok (f.answer_ne_success result hanswer.symm)

/-- Events of the books leave the bank alone. -/
theorem Inv.books_change {f : Settlement.Event} {books : Settlement.World} {sent : Owner → List Nat}
    {receipts : List RailCall} (hs : Inv env s)
    (h : Settlement.Change env.books s.books f books)
    (hfresh : ∀ w uuid, f = .exec w (.row uuid) → ∀ req ∈ s.posted, req.payoutID ≠ uuid)
    (hsent : ∀ w, ∀ n ∈ sent w, n ∈ s.sent w ∧ asking (books.worker w) = asking (s.books.worker w))
    (hold : s.receipts ⊆ receipts)
    (hreceipts : ∀ req result, (req, .ok result) ∈ receipts → result.outcome = .success →
      PaidFor env s.bank req.idempotency result.railReference)
    (hnew : ∀ w req answer, f = .exec w (.rail answer) → asking (s.books.worker w) = some req →
      (req, answer) ∈ receipts) :
    Inv env { s with books := books, sent := sent, receipts := receipts } where
  inv := Settlement.inv_change hs.inv h
  contracted := Settlement.contracted_change hs.inv hs.contracted h
  issued := Settlement.intentsIssued_change hs.issued h
  owed := Settlement.payoutsOwed_change hs.inv hs.owed h
  postings := Settlement.postingInv_change hs.inv hs.postings h
  sourced := hs.sourced
  posted := posted_change hs.posted hs.inv hs.contracted h hfresh
  exchanges := hs.exchanges
  sent w n hn := by
    obtain ⟨hn, hask⟩ := hsent w n hn
    obtain ⟨req, x, hreq, hx, hkey⟩ := hs.sent w n hn
    exact ⟨req, x, hask.trans hreq, hx, hkey⟩
  receipts := hreceipts
  inFlight w call hcall := by
    rcases inFlight_change h hcall with hcall | ⟨he, hask⟩
    · exact hold (hs.inFlight w call hcall)
    · exact hnew w call.1 call.2 he hask
  recorded p hp := by
    rcases Settlement.payout_change hs.inv hs.contracted h hp with
      hp | ⟨w, req, result, -, hcall, hrecord, -⟩
    · obtain ⟨req, result, hmem, hrecord⟩ := hs.recorded p hp
      exact ⟨req, result, hold hmem, hrecord⟩
    · exact ⟨req, result, hold (hs.inFlight w _ hcall), hrecord⟩

/-- Events of the bank leave the books alone. -/
theorem Inv.bank_change {f : MockBank.Event} {bank : MockBank.World} (hs : Inv env s)
    (h : MockBank.step env.json.decodeRequest s.bank f = some bank) {sent : Owner → List Nat}
    {posted : List SubmitRequest} (hposted : Posted s.books posted) (hold : s.posted ⊆ posted)
    (hnew : ∀ r, f = .arrive r → ∃ req ∈ posted, r = httpRequest env.fail req ∧ Fits req)
    (hsent : ∀ w, ∀ n ∈ sent w, n ∈ s.sent w ∨ ∃ req x, asking (s.books.worker w) = some req ∧
      bank.exchanges[n]? = some x ∧ x.key = req.idempotency) :
    Inv env { s with bank := bank, sent := sent, posted := posted } where
  inv := hs.inv
  contracted := hs.contracted
  issued := hs.issued
  owed := hs.owed
  postings := hs.postings
  sourced := MockBank.sourced_step hs.sourced h
  posted := hposted
  exchanges x hx := by
    rcases MockBank.request_of_step h hx with ⟨y, hy, hrequest⟩ | he
    · obtain ⟨req, hreq, hbuilt, hfits⟩ := hs.exchanges y hy
      exact ⟨req, hold hreq, hrequest.trans hbuilt, hfits⟩
    · exact hnew x.request he
  sent w n hn := by
    rcases hsent w n hn with hn | hnew
    · obtain ⟨req, x, hask, hx, hkey⟩ := hs.sent w n hn
      obtain ⟨x', hx', hrequest⟩ := MockBank.getElem?_of_step h hx
      exact ⟨req, x', hask, hx', (congrArg MockBank.Request.idempotencyKey hrequest).trans hkey⟩
    · exact hnew
  receipts req result hmem hok := (hs.receipts req result hmem hok).of_step h
  inFlight := hs.inFlight
  recorded := hs.recorded

/-- Every event keeps the invariant. -/
theorem inv_step (hs : Inv env s) (hsane : Sane s e) (h : step env s e = some t) : Inv env t := by
  cases step_change h with
  | @books f books he hbooks =>
    refine hs.books_change hbooks ?_ ?_ (List.Subset.refl _) hs.receipts ?_
    · rintro w uuid rfl
      exact hsane
    · intro w n hn
      split at hn
      · cases hn
      · next hne =>
        obtain ⟨req, x, hask, -⟩ := hs.sent w n hn
        have hno : ∀ answer, f ≠ .exec w (.rail answer) := by
          rintro answer rfl
          cases he
        rcases asking_change hbooks hask hno with hsame | hnone
        · exact ⟨hn, hsame.trans hask.symm⟩
        · exact absurd hnone hne
    · rintro w req answer rfl
      cases he
  | @post w req bank hask hbank =>
    refine hs.bank_change hbank (posted_post hs.posted hs.inv hs.contracted hask)
      (List.subset_append_left _ _) ?_ ?_
    · rintro r ⟨⟩
      exact ⟨req, by simp, rfl, hsane req hask⟩
    · intro v n hn
      obtain rfl | hv := eq_or_ne v w
      · simp only [Function.update_self, List.mem_append, List.mem_singleton] at hn
        refine hn.imp id ?_
        rintro rfl
        cases hbank
        exact ⟨req, _, hask, List.getElem?_concat_length, rfl⟩
      · rw [Function.update_of_ne hv] at hn
        exact .inl hn
  | bank hbank =>
    exact hs.bank_change hbank hs.posted (List.Subset.refl _) nofun fun w n hn => .inl hn
  | @deliver _ w answer req books horigin hask hbooks =>
    refine hs.books_change hbooks nofun ?_ (List.subset_append_left _ _) ?_ ?_
    · intro v n hn
      obtain rfl | hv := eq_or_ne v w
      · simp at hn
      · rw [Function.update_of_ne hv] at hn
        obtain ⟨req', x, hask', -⟩ := hs.sent v n hn
        exact ⟨hn, (asking_exec hbooks hv hask').trans hask'.symm⟩
    · intro req' result hmem hok
      rcases List.mem_append.mp hmem with hmem | hmem
      · exact hs.receipts req' result hmem hok
      · cases List.mem_singleton.mp hmem
        exact hs.paidFor_of_origin hsane horigin hask hok
    · rintro v req' answer' ⟨⟩ hask'
      rw [hask] at hask'
      cases hask'
      simp

theorem inv_init {accounts : List Ledger.Account} {merchants : List Merchant} {now : Time}
    (hkeys : (Settlement.World.init accounts merchants now).db.keys.Nodup) :
    Inv env (.init accounts merchants now) where
  inv := Settlement.inv_init hkeys
  contracted := nofun
  issued := ⟨by simp [World.init, Settlement.World.init, Settlement.World.db, TxState.init],
    by simp [World.init, Settlement.World.init, Settlement.World.db, TxState.init]⟩
  owed := nofun
  postings := Settlement.postingInv_init accounts merchants now
  sourced := .init
  posted := ⟨nofun, nofun, nofun, nofun⟩
  exchanges := nofun
  sent := nofun
  receipts := nofun
  inFlight := nofun
  recorded := nofun

/-- Every run from a new deployment keeps the invariant. -/
theorem inv_of_path {accounts : List Ledger.Account} {merchants : List Merchant} {now : Time}
    {es : List Event} (hkeys : (Settlement.World.init accounts merchants now).db.keys.Nodup)
    (h : Path (step env) Sane (.init accounts merchants now) es s) : Inv env s :=
  h.invariant (fun _ _ _ hs hok hst => inv_step hs hok hst) (inv_init hkeys)

end Step

/-! ## Payouts and the requests that paid them -/

/-- The request has paid the payout, to the account of the recipient. -/
structure Pays (env : Env) (y : MockBank.Exchange) (p : Payout) (recipient : Recipient) : Prop where
  key : y.key = p.id.text
  decided : y.decided = 1
  request : y.request.parse env.json.decodeRequest = .ok ⟨p.amountIDR, recipient.accountNumber⟩
  /-- The bank has decided to pay under an id it has drawn, its response says so, and the reference
  of the books is the one of that response. -/
  reference : ∃ id, MockBank.decide id y.request.fail ⟨p.amountIDR, recipient.accountNumber⟩ =
      (200, MockBank.paid id ⟨p.amountIDR, recipient.accountNumber⟩) ∧
    y.response = some
      (MockBank.write 200 (MockBank.paid id ⟨p.amountIDR, recipient.accountNumber⟩).marshal) ∧
    p.railReference = some (MockBank.paid id ⟨p.amountIDR, recipient.accountNumber⟩).reference

section Pays

variable {env : Env} {s : World} {p : Payout}

/-- What the bank reads from a request it has received. -/
theorem Inv.parse_of_exchange (hs : Inv env s) {y : MockBank.Exchange} (hy : y ∈ s.bank.exchanges) :
    ∃ req ∈ s.posted, y.key = req.idempotency ∧ 0 < req.amountIDR ∧
      y.request.parse env.json.decodeRequest =
        .ok ⟨req.amountIDR, req.recipient.accountNumber⟩ := by
  obtain ⟨req, hreq, hrequest, hfits⟩ := hs.exchanges y hy
  obtain ⟨i, hi, -, hamount⟩ := exists_of_askedFor (hs.posted.terms req hreq)
  have hissued := hs.issued.issued i hi
  have hpos := hissued.amount_pos
  have hrange := hissued.amount_range
  rw [hamount] at hpos hrange
  refine ⟨req, hreq, by rw [MockBank.Exchange.key, hrequest]; rfl, hpos, ?_⟩
  rw [hrequest]
  exact parse_httpRequest env.json env.fail hfits hrange

/-- A committed payout was paid, on the terms of its intent. -/
theorem Inv.pays (hs : Inv env s) (hp : p ∈ s.books.db.payouts) : ∃ recipient,
    askedFor s.books.db p.intentID = some (p.amountIDR, recipient) ∧
      ∃ y ∈ s.bank.exchanges, Pays env y p recipient := by
  obtain ⟨req, result, hmem, hrecord⟩ := hs.recorded p hp
  obtain ⟨y, hy, hkey, hdecided, breq, id, hparse, hpaid, hresponse, href⟩ :=
    hs.receipts req result hmem hrecord.outcome
  obtain ⟨req', hreq', hkey', -, hparse'⟩ := hs.parse_of_exchange hy
  -- The request the bank has paid was posted for this row.
  have hrow : req'.payoutID = p.id := by
    rw [← UUID.text_inj, ← hs.posted.key req' hreq', ← hkey', hkey, hrecord.text]
  have hintent := hs.posted.payouts p hp req' hreq' hrow
  have hterms := hs.posted.terms req' hreq'
  obtain ⟨i, hi, hid, hamount⟩ := exists_of_askedFor hterms
  obtain ⟨j, hj, hjid, hjamount⟩ := hs.owed p hp
  obtain rfl := Table.eq_of_mem (Db.intent_ids_nodup hs.inv.sound.unique) hi hj
    (hid.trans (hintent.trans hjid.symm))
  have heq : req'.amountIDR = p.amountIDR := hamount.symm.trans hjamount.symm
  rw [hintent, heq] at hterms
  rw [heq] at hparse'
  cases hparse.symm.trans hparse'
  refine ⟨req'.recipient, hterms, y, hy, hkey.trans hrecord.text, hdecided, hparse, id, hpaid,
    hresponse, ?_⟩
  have hdrawn : (MockBank.paid id ⟨p.amountIDR, req'.recipient.accountNumber⟩).reference =
      "MIDR-" ++ id.text := rfl
  rw [hrecord.reference, href, hdrawn]
  simp [nullableString]

end Pays

/-- In every run of workers, rail and bank, whatever is posted twice, answered late or not at all,
a payout the books hold has succeeded and was paid by the bank: a request under its id, for its
amount, to the account of the merchant of its intent, answered with the reference the books have. -/
theorem payout_was_paid {env : Env} {accounts : List Ledger.Account} {merchants : List Merchant}
    {now : Time} {es : List Event} {s : World}
    (hkeys : (Settlement.World.init accounts merchants now).db.keys.Nodup)
    (h : Path (step env) Sane (.init accounts merchants now) es s) {p : Payout}
    (hp : p ∈ s.books.db.payouts) : p.state = .succeeded ∧ ∃ recipient,
      askedFor s.books.db p.intentID = some (p.amountIDR, recipient) ∧
        ∃ y ∈ s.bank.exchanges, Pays env y p recipient := by
  have hs := inv_of_path hkeys h
  exact ⟨hs.inv.consistent.paidOut p hp, hs.pays hp⟩

/-! ## A run -/

/-- The small deployment, with a bank that pays. -/
def smallEnv : Env := ⟨Settlement.smallEnv, memberJson, ""⟩

/-- One merchant with bank details. -/
def smallWorld : World :=
  .init Settlement.chartOfAccounts [⟨1, some "BCA", some "0123456789", some "Toko Selat"⟩] 0

/-- Everything up to the rail. -/
def toTheRail : List Settlement.Event :=
  Settlement.ordering 50 ++ Settlement.depositing "sig-1" 61847 4 ++
    Settlement.crediting "a" 1000 ++ Settlement.executing "a" 2000 4

/-- The rest of the step, and the next one. -/
def fromTheRail : List Settlement.Event :=
  Settlement.statements "a" 2004 3 ++ [.commit "a" .ok] ++ Settlement.executing "b" 3000 19 ++
    [.commit "b" .ok]

/-- The request of a payout arrives twice, and the bank pays both. -/
def paidTwice : List Event :=
  toTheRail.map .books ++
    [.post "a", .post "a", .bank 0 7, .bank 1 7, .bank 0 7, .bank 1 8, .bank 0 0, .bank 1 0,
      .answer "a" 1] ++
    fromTheRail.map .books

/-- The books hold one payout, and cash is credited for it. -/
theorem exists_paidTwice : ∃ s, runIf (step smallEnv) Sane smallWorld paidTwice = some s ∧
    s.books.db.payouts.map Payout.amountIDR = [1000] ∧
    s.bank.exchanges.map MockBank.Exchange.decided = [1, 1] ∧ Settlement.Charted s.books.db ∧
    ∃ cash ∈ s.books.db.ledger.accounts, Settlement.Named cash accountCashOutIDR currencyIDR ∧
      Ledger.postedTo s.books.db.ledger.postings cash = -1000 :=
  exists_of_any (by decide +kernel)

theorem payout_was_paid_paidTwice : ∃ s p recipient y,
    Path (step smallEnv) Sane smallWorld paidTwice s ∧ p ∈ s.books.db.payouts ∧
      y ∈ s.bank.exchanges ∧ Pays smallEnv y p recipient := by
  obtain ⟨s, hs, hpayouts, -⟩ := exists_paidTwice
  have hpath := Path.of_runIf hs
  obtain ⟨p, hp, -⟩ : ∃ p ∈ s.books.db.payouts, p.amountIDR = 1000 :=
    List.mem_map.mp (hpayouts ▸ List.mem_singleton_self _)
  obtain ⟨-, recipient, -, y, hy, hpays⟩ := payout_was_paid (by decide) hpath hp
  exact ⟨s, p, recipient, y, hpath, hp, hy, hpays⟩

/-! ## The totals -/

/-- What the bank has paid for a request. -/
def paidAmount (json : Json) (y : MockBank.Exchange) : Int :=
  match y.request.parse json.decodeRequest with
  | .error _ => 0
  | .ok req =>
    if (MockBank.decide 0 y.request.fail req).1 = 200 then y.decided * req.amountIDR else 0

/-- What the bank has paid. -/
def disbursed (json : Json) (bank : MockBank.World) : Int :=
  (bank.exchanges.map (paidAmount json)).sum

/-- What the books hold as paid out. -/
def paidOut (db : Db) : Int := (db.payouts.map Payout.amountIDR).sum

section Totals

variable {env : Env} {s : World}

theorem Pays.paidAmount_eq {y : MockBank.Exchange} {p : Payout} {recipient : Recipient}
    (h : Pays env y p recipient) : paidAmount env.json y = p.amountIDR := by
  obtain ⟨id, hpaid, -⟩ := h.reference
  have hcode : ∀ newString req, (MockBank.decide newString y.request.fail req).1 =
      (MockBank.decide 0 y.request.fail req).1 := by
    intro newString req
    unfold MockBank.decide
    split_ifs <;> rfl
  have hstatus := congrArg Prod.fst hpaid
  rw [hcode] at hstatus
  simp only [paidAmount, h.request, h.decided]
  rw [if_pos hstatus, Nat.cast_one, one_mul]

/-- Payouts take different requests. -/
theorem Inv.paidOut_le (hs : Inv env s) : paidOut s.books.db ≤ disbursed env.json s.bank := by
  have hids : (s.books.db.payouts.map fun p => p.id.text).Nodup := by
    have hnodup := Db.payout_ids_nodup hs.inv.sound.unique
    have hmap := hnodup.map (f := UUID.text) fun _ _ heq => UUID.text_injective heq
    rwa [List.map_map] at hmap
  refine sum_le_of_matching _ MockBank.Exchange.key hids (fun p hp => .inr ?_) ?_
  · obtain ⟨recipient, -, y, hy, hpays⟩ := hs.pays hp
    exact ⟨y, hy, hpays.key, hpays.paidAmount_eq.ge⟩
  · intro y hy
    obtain ⟨req, -, -, hpos, hparse⟩ := hs.parse_of_exchange hy
    simp only [paidAmount, hparse]
    split
    · positivity
    · exact le_rfl

/-- An entry that takes cash out is for a payout of its intent. -/
theorem cashOut_le {db : Db} (hkeys : db.keys.Nodup) (hchart : Settlement.Charted db)
    {cash : Ledger.Account} (hcash : cash ∈ db.ledger.accounts)
    (hnamed : Settlement.Named cash accountCashOutIDR currencyIDR) {e : Ledger.Entry}
    (h : Settlement.StepEntry db e) : -Ledger.linesTo e.lines cash ≤ 0 ∨
      ∃ p ∈ db.payouts, payoutDisbursedRef p.intentID = e.externalRef ∧
        -Ledger.linesTo e.lines cash ≤ p.amountIDR := by
  have hother : ∀ code currency, code ≠ accountCashOutIDR → ¬ Settlement.Named cash code currency :=
    fun code currency hne hn => hne (hn.1.symm.trans hnamed.1)
  cases h with
  | creditDeposit hdeposit hsettled hhotWallet huserFunds =>
    rw [Settlement.linesTo_creditDeposit hkeys hchart hcash hhotWallet huserFunds,
      if_neg (hother _ _ (by decide)), if_neg (hother _ _ (by decide))]
    exact .inl le_rfl
  | fxSwap hi huserFunds hsettlement =>
    rw [Settlement.linesTo_fxSwap hkeys hchart hcash huserFunds hsettlement,
      if_neg (hother _ _ (by decide)), if_neg (hother _ _ (by decide))]
    exact .inl le_rfl
  | @payoutDisbursed i quote midIDR spreadIDR po p expense cashOut revenue hi hquote hquoteID
      hspread hp hterms hintent hexpense hcashOut hrevenue =>
    rw [Settlement.linesTo_payoutDisbursed hkeys hchart hcash hexpense hcashOut hrevenue _ _ _
      hspread.2.2, if_neg (hother _ _ (by decide)), if_pos hnamed, if_neg (hother _ _ (by decide))]
    simp only [payoutTerms, Prod.mk.injEq] at hterms
    refine .inr ⟨p, hp, by rw [hterms.2.1, hintent]; rfl, ?_⟩
    simp [hterms.2.2]

/-- The cash account is credited once for a payout at most. -/
theorem Inv.cashOut_le (hs : Inv env s) (hchart : Settlement.Charted s.books.db)
    {cash : Ledger.Account} (hcash : cash ∈ s.books.db.ledger.accounts)
    (hnamed : Settlement.Named cash accountCashOutIDR currencyIDR) :
    -Ledger.postedTo s.books.db.ledger.postings cash ≤ paidOut s.books.db := by
  have hkeys := hs.inv.sound.unique
  have hledger := Db.ledger_keys_nodup hkeys
  obtain ⟨created, hmade, hsteps⟩ := hs.postings.made
  have hsum : -Ledger.postedTo s.books.db.ledger.postings cash =
      (created.map fun c => -Ledger.linesTo c.entry.lines cash).sum := by
    rw [hmade.postedTo_eq hledger, List.sum_neg, List.map_map]
    rfl
  rw [hsum]
  refine sum_le_of_matching _ (fun p : Payout => payoutDisbursedRef p.intentID)
    (hmade.refs_nodup hledger) ?_ ?_
  · intro c hc
    exact Payout.cashOut_le hkeys hchart hcash hnamed (hsteps c hc)
  · intro p hp
    obtain ⟨i, hi, -, hamount⟩ := hs.owed p hp
    rw [hamount]
    exact (hs.issued.issued i hi).amount_pos.le

end Totals

/-- In every such run the books are never ahead of the bank: what the cash account has been
credited is at most what the payouts add up to, and that is at most what the bank has paid. -/
theorem books_never_ahead_of_bank {env : Env} {accounts : List Ledger.Account}
    {merchants : List Merchant} {now : Time} {es : List Event} {s : World}
    (hkeys : (Settlement.World.init accounts merchants now).db.keys.Nodup)
    (h : Path (step env) Sane (.init accounts merchants now) es s)
    (hchart : Settlement.Charted s.books.db) {cash : Ledger.Account}
    (hcash : cash ∈ s.books.db.ledger.accounts)
    (hnamed : Settlement.Named cash accountCashOutIDR currencyIDR) :
    -Ledger.postedTo s.books.db.ledger.postings cash ≤ paidOut s.books.db ∧
      paidOut s.books.db ≤ disbursed env.json s.bank := by
  have hs := inv_of_path hkeys h
  exact ⟨hs.cashOut_le hchart hcash hnamed, hs.paidOut_le⟩

theorem books_never_ahead_of_bank_paidTwice : ∃ s,
    Path (step smallEnv) Sane smallWorld paidTwice s ∧
    s.bank.exchanges.map MockBank.Exchange.decided = [1, 1] ∧ paidOut s.books.db = 1000 ∧
    1000 ≤ disbursed smallEnv.json s.bank := by
  obtain ⟨s, hs, hpayouts, hdecided, hchart, cash, hcash, hnamed, hposted⟩ := exists_paidTwice
  have hpath := Path.of_runIf hs
  have hpaid : paidOut s.books.db = 1000 := by rw [paidOut, hpayouts]; rfl
  have hle := (books_never_ahead_of_bank (by decide) hpath hchart hcash hnamed).2
  exact ⟨s, hpath, hdecided, hpaid, hpaid ▸ hle⟩

end Selatpay.Payout
