import Selatpay.Recon.Walker
import Selatpay.Settlement.Contribution
import Selatpay.Settlement.Funding
import Selatpay.Settlement.Watching

/-!
# Books and custody

Deposits are rows by signature, while the ledger credits one deposit for each
intent. Once every saga has got past `credit_deposit`, the balance of the hot wallet
account is the sum of the credited deposits, one for each saga, and reconciliation
against all finalized deposits reports what came on top of them.
-/

namespace Selatpay.Settlement

open Store Saga Chain

/-- The payment is finalized and linked to an intent. -/
def InCustody (p : OnchainPayment) : Prop := p.intentID ≠ none ∧ p.commitment = .finalized

/-- The payment is the deposit that was credited for its intent. -/
def OnBooks (db : Db) (p : OnchainPayment) : Prop := ∃ id ∈ p.intentID, Credited db id p

instance (p : OnchainPayment) : Decidable (InCustody p) := inferInstanceAs (Decidable (_ ∧ _))

instance (db : Db) (p : OnchainPayment) : Decidable (OnBooks db p) :=
  inferInstanceAs (Decidable (∃ id ∈ p.intentID, _))

/-- What has been deposited for intents. -/
def custody (db : Db) : Int :=
  ((db.payments.filter fun p => InCustody p).map OnchainPayment.amount).sum

/-- What has been credited of it. -/
def booked (db : Db) : Int :=
  ((db.payments.filter fun p => OnBooks db p).map OnchainPayment.amount).sum

/-- The payments that an entry credits. -/
def creditsOf (db : Db) (e : Ledger.JournalEntry) : List OnchainPayment :=
  db.payments.filter fun p => ∃ id ∈ p.intentID, CreditOf e id p

/-! ## Credited deposits -/

section Credited

variable {db : Db} {intentID : UUID} {p : OnchainPayment}

/-- An entry under the reference of a deposit credits a finalized deposit of the intent. -/
theorem exists_creditOf (hm : MadeBySteps db) {e : Ledger.JournalEntry}
    (he : e ∈ db.ledger.entries) (href : e.externalRef = creditDepositRef intentID) :
    ∃ p ∈ db.payments, Settled p intentID ∧ CreditOf e intentID p := by
  obtain ⟨created, hmade, hsteps⟩ := hm
  obtain ⟨c, hc, -, heq⟩ := hmade.exists_creation he
  have href' : c.entry.externalRef = creditDepositRef intentID := by
    rw [← href, heq]
    rfl
  obtain ⟨p, _, _, hp, hsettled, -, -, hentry⟩ := (hsteps c hc).of_creditDepositRef href'
  refine ⟨p, hp, hsettled, href, ?_⟩
  rw [heq, hentry]
  rfl

/-- A credited payment is finalized and linked to the intent. -/
theorem settled_of_credited (hkeys : db.keys.Nodup) (hm : MadeBySteps db) (hp : p ∈ db.payments)
    (h : Credited db intentID p) : Settled p intentID := by
  obtain ⟨e, he, hcredit⟩ := h
  obtain ⟨q, hq, hsettled, hcredit'⟩ := exists_creditOf hm he hcredit.1
  rwa [Table.eq_of_mem (Db.signatures_nodup hkeys) hp hq (hcredit.signature_eq hcredit')]

/-- What is credited is in custody. -/
theorem inCustody_of_onBooks (hkeys : db.keys.Nodup) (hm : MadeBySteps db) (hp : p ∈ db.payments)
    (h : OnBooks db p) : InCustody p := by
  obtain ⟨id, -, hcredited⟩ := h
  obtain ⟨hid, hfinal⟩ := settled_of_credited hkeys hm hp hcredited
  exact ⟨by rw [hid]; simp, hfinal⟩

/-- An entry that names a deposit credits it and nothing else. -/
theorem creditsOf_eq (hkeys : db.keys.Nodup) {e : Ledger.JournalEntry} (hp : p ∈ db.payments)
    (hid : p.intentID = some intentID) (h : CreditOf e intentID p) : creditsOf db e = [p] := by
  rw [← Table.filter_key_eq (Db.signatures_nodup hkeys) hp]
  refine List.filter_congr fun q hq => decide_eq_decide.mpr ⟨?_, ?_⟩
  · rintro ⟨id, -, hcredit⟩
    obtain rfl := creditDepositRef_inj.mp (h.1.symm.trans hcredit.1)
    exact hcredit.signature_eq h
  · intro hsig
    rw [Table.eq_of_mem (Db.signatures_nodup hkeys) hq hp hsig]
    exact ⟨intentID, hid, h⟩

/-- An entry without the reference of a deposit credits nothing. -/
theorem creditsOf_eq_nil {e : Ledger.JournalEntry}
    (h : ∀ id, e.externalRef ≠ creditDepositRef id) : creditsOf db e = [] := by
  rw [creditsOf, List.filter_eq_nil_iff]
  intro p hp hcredit
  obtain ⟨id, -, hcredit⟩ := of_decide_eq_true hcredit
  exact h id hcredit.1

end Credited

/-! ## The hot wallet account -/

section HotWallet

variable {db : Db} {hot : Ledger.Account}

/-- An entry contributes to the hot wallet what it credits. -/
theorem linesTo_hotWallet (hkeys : db.keys.Nodup) (hchart : Charted db)
    (hhot : hot ∈ db.ledger.accounts) (hnamed : Named hot accountHotWalletUSDC currencyUSDC)
    {c : Ledger.Creation} (hrow : c.row = c.entry.params.row c.row.id) (h : StepEntry db c.entry) :
    Ledger.linesTo c.entry.lines hot = ((creditsOf db c.row).map OnchainPayment.amount).sum := by
  obtain ⟨row, entry⟩ := c
  have hother : ∀ code currency, code ≠ accountHotWalletUSDC → ¬ Named hot code currency :=
    fun code currency hne hn => hne (hn.1.symm.trans hnamed.1)
  simp only at hrow h ⊢
  cases h with
  | @creditDeposit intentID deposit hotWallet userFunds hdeposit hsettled hhotWallet huserFunds =>
    have hcredit : CreditOf row intentID deposit := by
      rw [hrow]
      exact ⟨rfl, rfl⟩
    rw [creditsOf_eq hkeys hdeposit hsettled.1 hcredit,
      linesTo_creditDeposit hkeys hchart hhot hhotWallet huserFunds, if_pos hnamed,
      if_neg (hother _ _ (by decide))]
    simp
  | fxSwap hi huserFunds hsettlement =>
    rw [creditsOf_eq_nil, linesTo_fxSwap hkeys hchart hhot huserFunds hsettlement,
      if_neg (hother _ _ (by decide)), if_neg (hother _ _ (by decide))]
    · rfl
    · intro id href
      rw [hrow] at href
      exact creditDepositRef_ne_fxSwapRef _ _ href.symm
  | payoutDisbursed hi hquote hquoteID hspread hp hterms hintent hexpense hcashOut hrevenue =>
    rw [creditsOf_eq_nil, linesTo_payoutDisbursed hkeys hchart hhot hexpense hcashOut hrevenue _ _ _
      hspread.2.2, if_neg (hother _ _ (by decide)), if_neg (hother _ _ (by decide)),
      if_neg (hother _ _ (by decide))]
    · rfl
    · intro id href
      rw [hrow] at href
      exact creditDepositRef_ne_payoutDisbursedRef _ _ href.symm

/-- The balance of the hot wallet account is what has been credited. -/
theorem hotWallet_balance (hkeys : db.keys.Nodup) (hm : MadeBySteps db) (hchart : Charted db)
    (hhot : hot ∈ db.ledger.accounts) (hnamed : Named hot accountHotWalletUSDC currencyUSDC) :
    Ledger.postedTo db.ledger.postings hot = booked db := by
  obtain ⟨created, hmade, hsteps⟩ := hm
  have hledger := Db.ledger_keys_nodup hkeys
  have hrefs := Ledger.Tables.externalRefs_nodup hledger
  have hpayments : db.payments.Nodup := (Db.signatures_nodup hkeys).of_map
  rw [hmade.postedTo_eq hledger, List.map_congr_left fun c hc =>
    linesTo_hotWallet hkeys hchart hhot hnamed (hmade.rows c hc) (hsteps c hc)]
  have hflat : (created.map fun c => ((creditsOf db c.row).map OnchainPayment.amount).sum).sum =
      ((db.ledger.entries.flatMap (creditsOf db)).map OnchainPayment.amount).sum := by
    rw [hmade.entries]
    simp [List.flatMap, List.sum_flatten, Function.comp_def]
  -- Every credited payment is credited by one entry only.
  have hperm : (db.ledger.entries.flatMap (creditsOf db)).Perm
      (db.payments.filter fun p => OnBooks db p) := by
    refine (List.perm_ext_iff_of_nodup ?_ (hpayments.filter _)).mpr fun p => ?_
    · refine List.nodup_flatMap.mpr ⟨fun e _ => hpayments.filter _, ?_⟩
      refine hrefs.of_map.pairwise_of_forall_ne fun e he e' he' hne p hp hp' => ?_
      obtain ⟨id, hid, hcredit⟩ := of_decide_eq_true (List.mem_filter.mp hp).2
      obtain ⟨id', hid', hcredit'⟩ := of_decide_eq_true (List.mem_filter.mp hp').2
      obtain rfl := Option.some.inj (hid.symm.trans hid')
      exact hne (Table.eq_of_mem hrefs he he' (hcredit.1.trans hcredit'.1.symm))
    · simp only [List.mem_flatMap, creditsOf, List.mem_filter, decide_eq_true_eq]
      constructor
      · rintro ⟨e, he, hp, id, hid, hcredit⟩
        exact ⟨hp, id, hid, e, he, hcredit⟩
      · rintro ⟨hp, id, hid, e, he, hcredit⟩
        exact ⟨e, he, hp, id, hid, hcredit⟩
  rw [hflat, booked]
  exact (hperm.map _).sum_eq

end HotWallet

/-- What is in custody and not credited. -/
def surplus (db : Db) : Int :=
  ((db.payments.filter fun p => InCustody p ∧ ¬ OnBooks db p).map OnchainPayment.amount).sum

/-- What is in custody is credited or not. -/
theorem booked_add_surplus {db : Db} (hkeys : db.keys.Nodup) (hm : MadeBySteps db) :
    booked db + surplus db = custody db := by
  have hbooked : (db.payments.filter fun p => InCustody p).filter (fun p => OnBooks db p) =
      db.payments.filter fun p => OnBooks db p := by
    rw [List.filter_filter]
    refine List.filter_congr fun p hp => ?_
    by_cases hb : OnBooks db p
    · simp [hb, inCustody_of_onBooks hkeys hm hp hb]
    · simp [hb]
  have hsurplus : (db.payments.filter fun p => InCustody p).filter (fun p => !OnBooks db p) =
      db.payments.filter fun p => InCustody p ∧ ¬ OnBooks db p := by
    rw [List.filter_filter]
    refine List.filter_congr fun p hp => ?_
    by_cases hc : InCustody p <;> simp [hc]
  have hperm := List.filter_append_perm (fun p => decide (OnBooks db p))
    (db.payments.filter fun p => InCustody p)
  have hsum := (hperm.map OnchainPayment.amount).sum_eq
  rwa [List.map_append, List.sum_append, hbooked, hsurplus] at hsum

/-- Sums of amounts are not negative. -/
theorem sum_amounts_nonneg {ps : List OnchainPayment} (h : ∀ p ∈ ps, 0 < p.amount) :
    0 ≤ (ps.map OnchainPayment.amount).sum := by
  refine List.sum_nonneg fun x hx => ?_
  obtain ⟨p, hp, rfl⟩ := List.mem_map.mp hx
  exact (h p hp).le

section Reached

variable {env : Env} {s : World} (h : Reachable env anyStep s)

include h

theorem amounts_pos : ∀ p ∈ s.db.payments, 0 < p.amount :=
  (h.induct (P := fun s => ∀ p ∈ s.db.payments, 0 < p.amount)
    (fun _ _ _ => by simp [World.init, TxState.init])
    fun _ _ _ _ hpos _ hst => amounts_change hpos (step_change hst)).2

/-- A run that is past the credit has credited a deposit of its intent. -/
theorem exists_credited {r : SagaRun} (hr : r ∈ s.db.sagas)
    (hpassed : r.currentStep ≠ .creditDeposit) :
    ∃ p ∈ s.db.payments, Settled p r.intentID ∧ Credited s.db r.intentID p := by
  have hover : position .creditDeposit < position r.currentStep := by
    cases hstep : r.currentStep <;> first | decide | exact absurd hstep hpassed
  obtain ⟨e, he, href⟩ := h.postings.rows r hr .creditDeposit (.inr hover) _
    (List.mem_singleton_self _)
  obtain ⟨p, hp, hsettled, hcredit⟩ := exists_creditOf h.postings.made he href
  exact ⟨p, hp, hsettled, e, he, hcredit⟩

/-- Where every run is past the credit and no intent has two deposits, none is left over. -/
theorem surplus_eq_zero (hpassed : ∀ r ∈ s.db.sagas, r.currentStep ≠ .creditDeposit)
    (hone : ∀ p ∈ s.db.payments, ∀ q ∈ s.db.payments, ∀ id, Settled p id → Settled q id → p = q) :
    surplus s.db = 0 := by
  have hnil : (s.db.payments.filter fun p => InCustody p ∧ ¬ OnBooks s.db p) = [] := by
    rw [List.filter_eq_nil_iff]
    intro p hp hin
    obtain ⟨⟨hlinked, hfinal⟩, hnot⟩ := of_decide_eq_true hin
    obtain ⟨id, hid⟩ := Option.ne_none_iff_exists'.mp hlinked
    -- The deposit has enqueued a run, and the one the run has credited is the same.
    obtain ⟨r, hr, rfl⟩ := (h.deposits.2.1 id).mpr ⟨p, hp, hid, hfinal⟩
    obtain ⟨q, hq, hsettled, hcredit⟩ := exists_credited h hr (hpassed r hr)
    have heq := hone p hp q hq r.intentID ⟨hid, hfinal⟩ hsettled
    exact hnot ⟨r.intentID, hid, heq ▸ hcredit⟩
  rw [surplus, hnil]
  rfl

end Reached

/-- In every reachable state in which all sagas have got past `credit_deposit`, exactly one deposit
is credited for each of them, and the balance of the hot wallet account is the sum of the credited
deposits. It is the sum of all finalized deposits of intents if no intent has two of them, and a
walk that finds this sum on chain reports as difference the deposits that were not credited. -/
theorem books_match_custody {env : Env} {s : World} (h : Reachable env anyStep s)
    (hchart : Charted s.db) (hpassed : ∀ r ∈ s.db.sagas, r.currentStep ≠ .creditDeposit)
    {hot : Ledger.Account} (hhot : hot ∈ s.db.ledger.accounts)
    (hnamed : Named hot accountHotWalletUSDC currencyUSDC) :
    (∀ r ∈ s.db.sagas, ∃ p ∈ s.db.payments, Settled p r.intentID ∧
      ∀ q ∈ s.db.payments, Credited s.db r.intentID q ↔ q = p) ∧
    Ledger.postedTo s.db.ledger.postings hot = booked s.db ∧
    ((∀ p ∈ s.db.payments, ∀ q ∈ s.db.payments, ∀ id, Settled p id → Settled q id → p = q) →
      booked s.db = custody s.db ∧ surplus s.db = 0) ∧
    ∀ (w : Recon.Walker) (text : String) (now : Time),
      Recon.parseInt text = .ok (custody s.db) → ∃ report,
        w.walk (.value text) s.db.ledger now = .ok report ∧ report.difference = surplus s.db := by
  have hkeys : s.db.keys.Nodup := h.inv.sound.unique
  have hm := h.postings.made
  have hpos := amounts_pos h
  have hbalance := hotWallet_balance hkeys hm hchart hhot hnamed
  have hsum : booked s.db + surplus s.db = custody s.db := booked_add_surplus hkeys hm
  refine ⟨?_, hbalance, ?_, ?_⟩
  · intro r hr
    obtain ⟨p, hp, hsettled, hcredit⟩ := exists_credited h hr (hpassed r hr)
    exact ⟨p, hp, hsettled, fun q hq => ⟨fun hq' => hq'.eq hkeys hcredit hq hp,
      fun heq => heq ▸ hcredit⟩⟩
  · intro hone
    have hzero := surplus_eq_zero h hpassed hone
    exact ⟨by rw [← hsum, hzero, add_zero], hzero⟩
  · intro w text now htext
    have hsurplus : 0 ≤ surplus s.db :=
      sum_amounts_nonneg fun p hp => hpos p (List.mem_filter.mp hp).1
    have hbooked : 0 ≤ booked s.db :=
      sum_amounts_nonneg fun p hp => hpos p (List.mem_filter.mp hp).1
    have hfind : Table.find (fun a => (a.code, a.currency)) s.db.ledger.accounts
        (accountHotWalletUSDC, currencyUSDC) = some hot := by
      rw [← hnamed.1, ← hnamed.2]
      exact Table.find_of_mem (Ledger.Tables.account_codes_nodup (Db.ledger_keys_nodup hkeys)) hhot
    refine ⟨_, w.walk_eq htext hfind (by rwa [hbalance]) (by rw [hbalance]; omega), ?_⟩
    change custody s.db - Ledger.postedTo s.db.ledger.postings hot = surplus s.db
    rw [hbalance]
    omega

/-- Two deposits for one intent, the second one after the first was credited. -/
theorem overpayment_diverges : ∃ s, run (World.step smallEnv) smallWorld overpaid = some s ∧
    (∀ r ∈ s.db.sagas, r.currentStep ≠ .creditDeposit) ∧ custody s.db = 61852 ∧
    (∃ hot ∈ s.db.ledger.accounts, Named hot accountHotWalletUSDC currencyUSDC ∧
      Ledger.postedTo s.db.ledger.postings hot = 61847) ∧
    ((⟨11, 12⟩ : Recon.Walker).walk (.value "61852") s.db.ledger 0).toOption.map
      (fun report => (report.difference, report.status)) = some (5, .diverged) :=
  exists_of_any (by decide +kernel)

theorem books_match_custody_settled : ∃ (s : World) (report : Recon.Report),
    Reachable smallEnv anyStep s ∧ custody s.db = 61847 ∧
      (⟨11, 12⟩ : Recon.Walker).walk (.value "61847") s.db.ledger 0 = .ok report ∧
      report.difference = 0 := by
  obtain ⟨s, hs, hchart, hpassed, hcustody, hone, hot, hhot, hnamed⟩ : ∃ s,
      runIf (World.step smallEnv) anyStep smallWorld settled = some s ∧ Charted s.db ∧
        (∀ r ∈ s.db.sagas, r.currentStep ≠ .creditDeposit) ∧ custody s.db = 61847 ∧
        (∀ p ∈ s.db.payments, ∀ q ∈ s.db.payments, p = q) ∧
        ∃ hot ∈ s.db.ledger.accounts, Named hot accountHotWalletUSDC currencyUSDC :=
    exists_of_any (by decide +kernel)
  have h := reachable_of_runIf hs
  obtain ⟨-, -, hall, hwalk⟩ := books_match_custody h hchart hpassed hhot hnamed
  obtain ⟨report, hreport, hdifference⟩ := hwalk ⟨11, 12⟩ "61847" 0 (by rw [hcustody]; decide)
  have hzero := (hall fun p hp q hq _ _ _ => hone p hp q hq).2
  exact ⟨s, report, h, hcustody, hreport, hdifference.trans hzero⟩

end Selatpay.Settlement
