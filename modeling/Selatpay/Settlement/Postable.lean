import Selatpay.Saga.Execution
import Selatpay.Settlement.Contribution

/-!
# The entries of a settlement can be posted

`apply_payout_result` runs after the money has left. For every amount and rate that the
schema admits it either stops before it has written anything, because the mid value is below
the amount paid or out of range, or it writes two entries that validate and pass the balance
trigger.
-/

namespace Selatpay.Settlement

open Store Saga Prog

/-! ## The entries -/

/-- An entry that validates, balances and has only lines that the accounts take. -/
structure Postable (accounts : List Ledger.Account) (e : Ledger.Entry) : Prop where
  validates : Ledger.validate e = .ok ()
  balances : Ledger.LinesBalance e.lines
  lines : ∀ line ∈ e.lines, line.IsPostable accounts

/-- An account that takes lines of a currency. -/
def Takes (accounts : List Ledger.Account) (currency : String) (accountID : UUID) : Prop :=
  ∃ a, Table.find Ledger.Account.id accounts accountID = some a ∧ currency = a.currency

/-- An entry of a reference, a kind and balanced lines that accounts take is postable. -/
theorem postable_of {accounts : List Ledger.Account} {e : Ledger.Entry}
    (href : Ledger.isBlank e.externalRef = false) (hkind : Ledger.isBlank e.kind = false)
    (hne : e.lines ≠ []) (hcurrency : ∀ line ∈ e.lines, Ledger.isBlank line.currency = false)
    (hlines : ∀ line ∈ e.lines, line.IsPostable accounts) (hbalance : Ledger.LinesBalance e.lines) :
    Postable accounts e := by
  refine ⟨Ledger.validate_eq_ok.mpr ⟨⟨href, hkind, hne, ?_⟩, ?_⟩, hbalance, hlines⟩
  · intro line hline
    exact ⟨(hlines line hline).positive, hcurrency line hline, (hlines line hline).direction⟩
  · intro currency
    rw [hbalance currency, Int.sub_self]
    exact Int.dvd_zero _

section Entries

variable {accounts : List Ledger.Account} {intentID : UUID} {po : Payout}

/-- The USDC entry of a positive amount is postable. -/
theorem postable_fxSwapEntry {amountUSDC : Int} {userFunds settlement : UUID}
    (hamount : 0 < amountUSDC) (huser : Takes accounts currencyUSDC userFunds)
    (hsettlement : Takes accounts currencyUSDC settlement) :
    Postable accounts (fxSwapEntry intentID amountUSDC po userFunds settlement) := by
  refine postable_of (Ledger.isBlank_append_eq_false (by decide)) (show
    Ledger.isBlank "fx_swap_usdc" = false by decide) (by simp [fxSwapEntry]) ?_ ?_ ?_
  · simp only [fxSwapEntry, List.forall_mem_cons]
    decide
  · simp only [fxSwapEntry, List.forall_mem_cons]
    exact ⟨⟨hamount, .inl rfl, huser⟩, ⟨hamount, .inr rfl, hsettlement⟩, by simp⟩
  · intro currency
    by_cases hc : currencyUSDC = currency <;>
      simp [fxSwapEntry, Ledger.debitSum, Ledger.creditSum, hc]

/-- The rupiah entry is postable if its debit is what was paid and a spread that is not
negative. -/
theorem postable_payoutDisbursedEntry {midIDR paidIDR spreadIDR : Int}
    {expense cashOut revenue : UUID} (hpaid : 0 < paidIDR) (hspread : 0 ≤ spreadIDR)
    (hmid : midIDR = paidIDR + spreadIDR) (hexpense : Takes accounts currencyIDR expense)
    (hcashOut : Takes accounts currencyIDR cashOut)
    (hrevenue : Takes accounts currencyIDR revenue) :
    Postable accounts (payoutDisbursedEntry intentID midIDR paidIDR spreadIDR po expense cashOut
      revenue) := by
  have hmidPos : 0 < midIDR := by omega
  refine postable_of (Ledger.isBlank_append_eq_false (by decide)) (show
    Ledger.isBlank "payout_disbursed" = false by decide) (by simp [payoutDisbursedEntry]) ?_ ?_ ?_
  · by_cases hpos : spreadIDR > 0
    · simp only [payoutDisbursedEntry, hpos, if_true, List.cons_append, List.nil_append,
        List.forall_mem_cons]
      decide
    · simp only [payoutDisbursedEntry, hpos, if_false, List.append_nil, List.forall_mem_cons]
      decide
  · by_cases hpos : spreadIDR > 0
    · simp only [payoutDisbursedEntry, hpos, if_true, List.cons_append, List.nil_append,
        List.forall_mem_cons]
      exact ⟨⟨hmidPos, .inl rfl, hexpense⟩, ⟨hpaid, .inr rfl, hcashOut⟩, ⟨hpos, .inr rfl, hrevenue⟩,
        by simp⟩
    · simp only [payoutDisbursedEntry, hpos, if_false, List.append_nil, List.forall_mem_cons]
      exact ⟨⟨hmidPos, .inl rfl, hexpense⟩, ⟨hpaid, .inr rfl, hcashOut⟩, by simp⟩
  · intro currency
    by_cases hpos : spreadIDR > 0
    · by_cases hc : currencyIDR = currency <;>
        simp [payoutDisbursedEntry, Ledger.debitSum, Ledger.creditSum, hc, hpos, hmid]
    · have hzero : midIDR = paidIDR := by omega
      by_cases hc : currencyIDR = currency <;>
        simp [payoutDisbursedEntry, Ledger.debitSum, Ledger.creditSum, hc, hpos, hzero]

/-- Both lines of the USDC entry are of its amount. -/
theorem amount_of_mem_fxSwapEntry {amountUSDC : Int} {userFunds settlement : UUID}
    {line : Ledger.Line}
    (h : line ∈ (fxSwapEntry intentID amountUSDC po userFunds settlement).lines) :
    line.amount = amountUSDC := by
  simp only [fxSwapEntry, List.mem_cons, List.not_mem_nil, or_false] at h
  rcases h with rfl | rfl
  · rfl
  · rfl

/-- No line of the rupiah entry is above its debit. -/
theorem amount_le_of_mem_payoutDisbursedEntry {midIDR paidIDR spreadIDR : Int}
    {expense cashOut revenue : UUID} (hpaid : paidIDR ≤ midIDR) (hspread : spreadIDR ≤ midIDR)
    {line : Ledger.Line} (h : line ∈ (payoutDisbursedEntry intentID midIDR paidIDR spreadIDR po
      expense cashOut revenue).lines) : line.amount ≤ midIDR := by
  simp only [payoutDisbursedEntry, List.mem_append, List.mem_cons, List.not_mem_nil, or_false,
    List.mem_ite_nil_right] at h
  rcases h with (rfl | rfl) | ⟨-, rfl⟩
  · exact le_rfl
  · exact hpaid
  · exact hspread

/-- The rupiah entry debits the mid value. -/
theorem debitSum_payoutDisbursedEntry {midIDR paidIDR spreadIDR : Int}
    {expense cashOut revenue : UUID} : Ledger.debitSum (payoutDisbursedEntry intentID midIDR paidIDR
      spreadIDR po expense cashOut revenue).lines currencyIDR = midIDR := by
  by_cases hpos : spreadIDR > 0
  · simp [payoutDisbursedEntry, Ledger.debitSum, hpos]
  · simp [payoutDisbursedEntry, Ledger.debitSum, hpos]

end Entries

/-! ## The surroundings -/

/-- The accounts of the migrations are there, with ids that differ. -/
structure Seeded (accounts : List Ledger.Account) : Prop where
  ids : (accounts.map Ledger.Account.id).Nodup
  present : ∀ c ∈ seededAccounts, ∃ a ∈ accounts, a.code = c.1 ∧ a.type = c.2.1 ∧
    a.currency = c.2.2

/-- A seeded account is found by its code, and takes lines of its currency. -/
theorem Seeded.resolves {accounts : List Ledger.Account} (h : Seeded accounts)
    {code currency : String} (type : Ledger.AccountType)
    (hmem : (code, type, currency) ∈ seededAccounts) :
    ∃ a, accounts.find? (fun a => a.code = code ∧ a.currency = currency) = some a ∧
      Takes accounts currency a.id := by
  obtain ⟨a, ha, hcode, -, hcurrency⟩ := h.present _ hmem
  cases hfind : accounts.find? fun a => a.code = code ∧ a.currency = currency with
  | none =>
    have hno := List.find?_eq_none.mp hfind a ha
    simp [hcode, hcurrency] at hno
  | some b =>
    have hb := List.find?_some hfind
    simp only [decide_eq_true_eq] at hb
    exact ⟨b, rfl, b, Table.find_of_mem h.ids (List.mem_of_find?_eq_some hfind), hb.2.symm⟩

/-- A succeeded payout that is to be booked, for rows in the ranges of the schema: the three
first calls read the intent, the payout and the quote; the accounts are seeded; neither
reference is booked; generated ids are new. -/
structure Awaits (w : Surroundings) (run : Run) (accounts : List Ledger.Account)
    (intent : PaymentIntent) (po : Payout) (quote : Quote) : Prop where
  quoted : 0 < intent.quotedAmountUSDC ∧ IsInt64 intent.quotedAmountUSDC
  rateNum : 0 < quote.rateNum
  rateScale : 0 ≤ quote.rateScale ∧ quote.rateScale ≤ 18
  paid : 0 < po.amountIDR ∧ IsInt64 po.amountIDR
  succeeded : po.state = .succeeded
  readsIntent : Table.find PaymentIntent.id (w.db 0).intents run.intentID = some intent
  readsPayout : Table.find Payout.intentID (w.db 1).payouts run.intentID = some po
  readsQuote : Table.find Quote.id (w.db 2).quotes intent.quoteID = some quote
  keepsIntent : ∀ n, ∃ i, Table.find PaymentIntent.id (w.db n).intents run.intentID = some i
  seeded : Seeded accounts
  ofAccounts : ∀ n, (w.db n).ledger.accounts = accounts
  unbooked : ∀ n, ∀ j ∈ (w.db n).ledger.entries,
    j.externalRef ≠ fxSwapRef run.intentID ∧ j.externalRef ≠ payoutDisbursedRef run.intentID
  fresh : ∀ n k, ∀ p ∈ (w.db n).ledger.postings, p.journalEntryID ≠ w.uuid k

/-- The mid value does not cover the amount paid, or is out of range. -/
def Uncovered (intent : PaymentIntent) (po : Payout) (quote : Quote) : Prop :=
  midValue intent.quotedAmountUSDC quote < po.amountIDR ∨
    ¬ IsInt64 (midValue intent.quotedAmountUSDC quote)

/-- What the step has written: one USDC entry and one rupiah entry that both validate and pass
the balance trigger, over the exact mid value. -/
structure BooksPayout (w : Surroundings) (run : Run) (intent : PaymentIntent) (po : Payout)
    (quote : Quote) (log : List Effect) : Prop where
  entries : ∃ usdc idr : Ledger.Creation, Ledger.Blocks (ledgerLog log) [usdc, idr] ∧
    (∃ userFunds settlement, usdc.entry =
      fxSwapEntry run.intentID intent.quotedAmountUSDC po userFunds settlement) ∧
    (∃ spreadIDR expense cashOut revenue, idr.entry = payoutDisbursedEntry run.intentID
        (midValue intent.quotedAmountUSDC quote) po.amountIDR spreadIDR po expense cashOut revenue ∧
      0 ≤ spreadIDR ∧
      Ledger.debitSum idr.entry.lines currencyIDR = po.amountIDR + spreadIDR) ∧
    ∀ c ∈ [usdc, idr], Ledger.validate c.entry = .ok () ∧
      ∀ line ∈ c.entry.lines, 0 < line.amount ∧ IsInt64 line.amount
  balances : ∀ n, Ledger.commitAllowed (w.db n).ledger (ledgerLog log) = true

section Execution

variable {w : Surroundings} {run : Run} {accounts : List Ledger.Account} {intent : PaymentIntent}
  {po : Payout} {quote : Quote}

/-- The computed mid value is below the amount paid exactly if the value does not cover it; if it
covers it, the computed value is exact. -/
theorem Awaits.computeMidIDR (h : Awaits w run accounts intent po quote) :
    (wrap64 (Quoter.computeMidIDR intent.quotedAmountUSDC quote.rateNum quote.rateScale -
        po.amountIDR) < 0 ↔ Uncovered intent po quote) ∧
      (¬ Uncovered intent po quote →
        Quoter.computeMidIDR intent.quotedAmountUSDC quote.rateNum quote.rateScale =
            midValue intent.quotedAmountUSDC quote ∧
          midValue intent.quotedAmountUSDC quote =
            po.amountIDR + wrap64 (midValue intent.quotedAmountUSDC quote - po.amountIDR)) := by
  have heq := @Quoter.computeMidIDR_eq _ ⟨quote.rateNum, quote.rateScale⟩ h.quoted.1.le
    h.rateNum.le h.rateScale.1
  change Quoter.computeMidIDR intent.quotedAmountUSDC quote.rateNum quote.rateScale =
    if midValue intent.quotedAmountUSDC quote < 2 ^ 63 then
      midValue intent.quotedAmountUSDC quote else 0 at heq
  have hnonneg : 0 ≤ midValue intent.quotedAmountUSDC quote :=
    Int.ediv_nonneg (mul_nonneg h.quoted.1.le h.rateNum.le) (by positivity)
  obtain ⟨hpaid, hrange⟩ := h.paid
  rw [heq, Uncovered]
  generalize midValue intent.quotedAmountUSDC quote = mid at hnonneg
  unfold IsInt64 at hrange ⊢
  by_cases hmid : mid < 2 ^ 63
  · rw [if_pos hmid, wrap64_of_isInt64 (by unfold IsInt64; omega)]
    omega
  · rw [if_neg hmid, wrap64_of_isInt64 (by unfold IsInt64; omega)]
    omega

/-- The account of a seeded code is found. -/
theorem Awaits.exec_account (h : Awaits w run accounts intent po quote) (code : String)
    (type : Ledger.AccountType) (currency : String)
    (hmem : (code, type, currency) ∈ seededAccounts) :
    ∃ a, Takes accounts currency a.id ∧ ∀ n l, ∀ g : GoError → GoError,
      ((ledger (Ledger.getAccountByCodeTx code currency)).mapErr g).exec w.answer n l =
        (.ok a, n + 1, l) := by
  obtain ⟨a, hfind, htakes⟩ := h.seeded.resolves type hmem
  exact ⟨a, htakes, fun n l g => Saga.exec_account (by rw [h.ofAccounts, hfind])⟩

/-- The USDC entry is written as one block. -/
theorem Awaits.exec_postFXSwapUSDC (h : Awaits w run accounts intent po quote) (n : ℕ) :
    ∃ n', ∃ c : Ledger.Creation, ∃ es userFunds settlement,
      (postFXSwapUSDC run.intentID intent.quotedAmountUSDC po).exec w.answer n [] =
        (.ok (), n', es.map .ledger) ∧
      c.entry = fxSwapEntry run.intentID intent.quotedAmountUSDC po userFunds settlement ∧
      Postable accounts c.entry ∧ (∃ k, c.row.id = w.uuid k) ∧ Ledger.Blocks es [c] := by
  obtain ⟨settlement, hsettlement, hexec₁⟩ :=
    h.exec_account accountEquityFXSettlement .equity currencyUSDC (by simp [seededAccounts])
  obtain ⟨userFunds, huser, hexec₂⟩ :=
    h.exec_account accountLiabilityUserFunds .liability currencyUSDC (by simp [seededAccounts])
  have hpost := @postable_fxSwapEntry accounts run.intentID po _ _ _ h.quoted.1 huser hsettlement
  obtain ⟨n', c, es, hexec₃, hentry, hid, hblocks⟩ := exec_post (g := fun e =>
    .wrap "apply_payout_result: post fx_swap_usdc" e) (n := n + 1 + 1) (l := []) h.ofAccounts
    hpost.validates hpost.lines (fun n j hj => (h.unbooked n j hj).1) (by simp)
  refine ⟨n', c, es, userFunds.id, settlement.id, ?_, hentry, hentry ▸ hpost, hid,
    hblocks [] [] .nil⟩
  simp only [postFXSwapUSDC, bind_eq]
  rw [exec_bind (hexec₁ _ _ _), exec_bind (hexec₂ _ _ _), exec_bind hexec₃]
  simp

/-- The rupiah entry is written as one more block. -/
theorem Awaits.exec_postPayoutDisbursedIDR (h : Awaits w run accounts intent po quote) (n : ℕ)
    {es : List Ledger.Effect} {c : Ledger.Creation} (hblocks : Ledger.Blocks es [c])
    (href : c.entry.externalRef = fxSwapRef run.intentID) {midIDR spreadIDR : Int}
    (hspread : 0 ≤ spreadIDR) (hmid : midIDR = po.amountIDR + spreadIDR) :
    ∃ n', ∃ d : Ledger.Creation, ∃ fs expense cashOut revenue,
      (postPayoutDisbursedIDR run.intentID midIDR po.amountIDR spreadIDR po).exec w.answer n
        (es.map .ledger) = (.ok (), n', (es ++ fs).map .ledger) ∧
      d.entry = payoutDisbursedEntry run.intentID midIDR po.amountIDR spreadIDR po expense cashOut
        revenue ∧
      Postable accounts d.entry ∧ (∃ k, d.row.id = w.uuid k) ∧
        Ledger.Blocks (es ++ fs) [c, d] := by
  obtain ⟨expense, hexpense, hexec₁⟩ :=
    h.exec_account accountExpenseFXSwapIDR .expense currencyIDR (by simp [seededAccounts])
  obtain ⟨cashOut, hcashOut, hexec₂⟩ :=
    h.exec_account accountCashOutIDR .asset currencyIDR (by simp [seededAccounts])
  obtain ⟨revenue, hrevenue, hexec₃⟩ :=
    h.exec_account accountRevenueFXSpreadIDR .revenue currencyIDR (by simp [seededAccounts])
  have hpost := @postable_payoutDisbursedEntry accounts run.intentID po _ _ _ _ _ _ h.paid.1 hspread
    hmid hexpense hcashOut hrevenue
  -- The only header of the transaction is that of the other entry.
  have hheaders : ∀ j ∈ Ledger.headers (ledgerLog (es.map .ledger)),
      j.externalRef ≠ payoutDisbursedRef run.intentID := by
    intro j hj
    rw [ledgerLog_map, hblocks.headers_eq, List.map_singleton, List.mem_singleton] at hj
    have hrow : c.row.externalRef = c.entry.externalRef := by
      rw [hblocks.row_eq c (by simp)]
      rfl
    rw [hj, hrow, href]
    exact fxSwapRef_ne_payoutDisbursedRef _ _
  obtain ⟨n', d, fs, hexec₄, hentry, hid, hnext⟩ := exec_post (g := fun e =>
    .wrap "apply_payout_result: post payout_disbursed" e) (n := n + 1 + 1 + 1) h.ofAccounts
    hpost.validates hpost.lines (fun n j hj => (h.unbooked n j hj).2) hheaders
  refine ⟨n', d, fs, expense.id, cashOut.id, revenue.id, ?_, hentry, hentry ▸ hpost, hid,
    hnext es [c] hblocks⟩
  simp only [postPayoutDisbursedIDR, bind_eq]
  rw [exec_bind (hexec₁ _ _ _), exec_bind (hexec₂ _ _ _), exec_bind (hexec₃ _ _ _),
    exec_bind hexec₄]
  simp

/-- The three rows are read, and the rest runs on what was read. -/
theorem Awaits.exec_applyPayoutResult (h : Awaits w run accounts intent po quote) :
    (applyPayoutResult run).exec w.answer 0 [] =
      (settlePayout run intent po quote).exec w.answer 3 [] := by
  have hintent : (Op.getPaymentIntentByID run.intentID).exec ((w.db 0).view []) w.now (w.uuid 0) =
      (.ok intent, []) := by
    simp only [Op.exec, Db.view_nil, h.readsIntent, selectOne]
  have hpayout : (Op.getPayoutByIntent run.intentID).exec ((w.db 1).view []) w.now (w.uuid 1) =
      (.ok po, []) := by
    simp only [Op.exec, Db.view_nil, h.readsPayout, selectOne]
  have hquote : (Op.getQuote intent.quoteID).exec ((w.db 2).view []) w.now (w.uuid 2) =
      (.ok quote, []) := by
    simp only [Op.exec, Db.view_nil, h.readsQuote, selectOne]
  simp only [applyPayoutResult, bind_eq]
  rw [exec_bind (exec_sql hintent), List.append_nil, exec_bind (exec_sql hpayout),
    List.append_nil, if_neg (not_not_intro h.succeeded), exec_bind (exec_sql hquote)]
  rfl

/-- An uncovered payout stops the saga before anything is written. -/
theorem Awaits.exec_settlePayout_uncovered (h : Awaits w run accounts intent po quote)
    (huncovered : Uncovered intent po quote) :
    ∃ err, (settlePayout run intent po quote).exec w.answer 3 [] = (.error err, 3, []) ∧
      isTerminal err = true := by
  have hneg := h.computeMidIDR.1.mpr huncovered
  simp only [settlePayout, if_pos hneg]
  exact ⟨_, rfl, rfl⟩

/-- Two blocks of postable entries are what the step is to write. -/
theorem Awaits.booksPayout (h : Awaits w run accounts intent po quote)
    (hcovered : ¬ Uncovered intent po quote) {log : List Effect} {usdc idr : Ledger.Creation}
    (hblocks : Ledger.Blocks (ledgerLog log) [usdc, idr])
    {userFunds settlement expense cashOut revenue : UUID} {spreadIDR : Int}
    (husdc : usdc.entry =
      fxSwapEntry run.intentID intent.quotedAmountUSDC po userFunds settlement)
    (hidr : idr.entry = payoutDisbursedEntry run.intentID
      (midValue intent.quotedAmountUSDC quote) po.amountIDR spreadIDR po expense cashOut revenue)
    (hspread : 0 ≤ spreadIDR)
    (hsum : midValue intent.quotedAmountUSDC quote = po.amountIDR + spreadIDR)
    (hpost₁ : Postable accounts usdc.entry) (hpost₂ : Postable accounts idr.entry)
    (hid₁ : ∃ k, usdc.row.id = w.uuid k) (hid₂ : ∃ k, idr.row.id = w.uuid k) :
    BooksPayout w run intent po quote log := by
  have hrange : IsInt64 (midValue intent.quotedAmountUSDC quote) :=
    by_contra fun hout => hcovered (.inr hout)
  have hpaid := h.paid.1
  refine ⟨⟨usdc, idr, hblocks, ⟨userFunds, settlement, husdc⟩,
    ⟨spreadIDR, expense, cashOut, revenue, hidr, hspread, ?_⟩, ?_⟩, fun n => ?_⟩
  · rw [hidr, debitSum_payoutDisbursedEntry, hsum]
  · simp only [List.forall_mem_cons]
    refine ⟨⟨hpost₁.validates, fun line hline => ⟨(hpost₁.lines line hline).positive, ?_⟩⟩,
      ⟨hpost₂.validates, fun line hline => ⟨(hpost₂.lines line hline).positive, ?_⟩⟩, by simp⟩
    · rw [husdc] at hline
      rw [amount_of_mem_fxSwapEntry hline]
      exact h.quoted.2
    · have hle : line.amount ≤ midValue intent.quotedAmountUSDC quote := by
        rw [hidr] at hline
        exact amount_le_of_mem_payoutDisbursedEntry (by omega) (by omega) hline
      have hpos := (hpost₂.lines line hline).positive
      unfold IsInt64 at hrange ⊢
      omega
  · refine hblocks.commitAllowed ?_ ?_
    · simp only [List.forall_mem_cons]
      exact ⟨hpost₁.balances, hpost₂.balances, by simp⟩
    · obtain ⟨k₁, hk₁⟩ := hid₁
      obtain ⟨k₂, hk₂⟩ := hid₂
      simp only [List.forall_mem_cons]
      exact ⟨hk₁ ▸ h.fresh n k₁, hk₂ ▸ h.fresh n k₂, by simp⟩

/-- A covered payout is booked. -/
theorem Awaits.exec_settlePayout (h : Awaits w run accounts intent po quote)
    (hcovered : ¬ Uncovered intent po quote) :
    ∃ n log, (settlePayout run intent po quote).exec w.answer 3 [] =
      (.ok (some .emitCompleted), n, log) ∧ BooksPayout w run intent po quote log := by
  obtain ⟨hneg, hexact⟩ := h.computeMidIDR
  obtain ⟨hmid, hsum⟩ := hexact hcovered
  rw [hmid] at hneg
  simp only [settlePayout, hmid, bind_eq]
  rw [if_neg (mt hneg.mp hcovered)]
  have hspread := not_lt.mp (mt hneg.mp hcovered)
  generalize hs : wrap64 (midValue intent.quotedAmountUSDC quote - po.amountIDR) = spreadIDR
    at hspread hsum ⊢
  obtain ⟨n₁, usdc, es, userFunds, settlement, hexec₁, husdc, hpost₁, hid₁, hblocks₁⟩ :=
    h.exec_postFXSwapUSDC 3
  obtain ⟨n₂, idr, fs, expense, cashOut, revenue, hexec₂, hidr, hpost₂, hid₂, hblocks₂⟩ :=
    h.exec_postPayoutDisbursedIDR n₁ hblocks₁ (by rw [husdc]; rfl) hspread hsum
  obtain ⟨i, hi⟩ := h.keepsIntent n₂
  obtain ⟨n₃, hexec₃⟩ := @exec_moveIntent w n₂ ((es ++ fs).map .ledger) run.intentID intent
    .settling .paidOut "apply_payout_result: advance state" i (by rw [view_map_ledger, hi])
  refine ⟨n₃, (es ++ fs).map .ledger ++ moved run.intentID intent .settling .paidOut w.now, ?_, ?_⟩
  · rw [exec_bind hexec₁, exec_bind hexec₂, exec_bind hexec₃, pure_eq, exec_ret]
  have hlog : ledgerLog ((es ++ fs).map .ledger ++ moved run.intentID intent .settling .paidOut
      w.now) = es ++ fs := by simp
  exact h.booksPayout hcovered (by rwa [hlog]) husdc hidr hspread hsum hpost₁ hpost₂ hid₁ hid₂

end Execution

/-- The settlement entries are always postable: the step stops terminally with nothing written
exactly if the exact mid value is below the amount paid or out of range, and otherwise books one
entry in each currency that validate and pass the balance trigger. -/
theorem applyPayoutResult_postable {w : Surroundings} {run : Run} {accounts : List Ledger.Account}
    {intent : PaymentIntent} {po : Payout} {quote : Quote}
    (h : Awaits w run accounts intent po quote) :
    ((∃ n err, (applyPayoutResult run).exec w.answer 0 [] = (.error err, n, []) ∧
        isTerminal err = true) ↔ Uncovered intent po quote) ∧
      (¬ Uncovered intent po quote → ∃ n log, (applyPayoutResult run).exec w.answer 0 [] =
        (.ok (some .emitCompleted), n, log) ∧ BooksPayout w run intent po quote log) := by
  rw [h.exec_applyPayoutResult]
  refine ⟨⟨?_, ?_⟩, h.exec_settlePayout⟩
  · rintro ⟨n, err, hexec, -⟩
    by_contra hcovered
    obtain ⟨n', log, hbooked, -⟩ := h.exec_settlePayout hcovered
    rw [hbooked] at hexec
    cases hexec
  · intro huncovered
    obtain ⟨err, hexec, hterminal⟩ := h.exec_settlePayout_uncovered huncovered
    exact ⟨3, err, hexec, hterminal⟩

/-- An intent over 1000 rupiah that was quoted 61847 minor units. -/
def paidIntent : PaymentIntent := ⟨3, 1, "order-1", 1000, 61847, 2, some 99, .settling, 0⟩

/-- The payout of this intent. -/
def paidPayout : Payout := ⟨5, 3, mockIDRBankName, 1000, .succeeded, some "rail-1", none, 1⟩

/-- The quote of this intent. -/
def paidQuote : Quote := ⟨2, 16250, 0, 50, 100⟩

/-- The run that has triggered the payout. -/
def paidRun : Run := ⟨4, 3, .settlement, .applyPayoutResult, 0, "worker-1"⟩

/-- The payout has succeeded and nothing is booked. -/
def paidSurroundings : Surroundings where
  db := fun _ =>
    ⟨⟨chartOfAccounts, [], []⟩, [], [paidQuote], [paidIntent], [], [], [paidPayout], []⟩
  uuid := fun n => BitVec.ofNat 128 n
  now := 10
  rail := fun _ => .error "no rail"

theorem awaits_paid :
    Awaits paidSurroundings paidRun chartOfAccounts paidIntent paidPayout paidQuote where
  quoted := by decide
  rateNum := by decide
  rateScale := by decide
  paid := by decide
  succeeded := rfl
  readsIntent := rfl
  readsPayout := rfl
  readsQuote := rfl
  keepsIntent := fun _ => ⟨paidIntent, rfl⟩
  seeded := ⟨by decide, by decide⟩
  ofAccounts := fun _ => rfl
  unbooked := by simp [paidSurroundings]
  fresh := by simp [paidSurroundings]

theorem applyPayoutResult_postable_paid : ∃ n log,
    (applyPayoutResult paidRun).exec paidSurroundings.answer 0 [] =
        (.ok (some .emitCompleted), n, log) ∧
      BooksPayout paidSurroundings paidRun paidIntent paidPayout paidQuote log := by
  refine (applyPayoutResult_postable awaits_paid).2 ?_
  unfold Uncovered
  decide

end Selatpay.Settlement
