import Selatpay.Settlement.Postings

/-!
# Booking of disbursements

The rupiah entry of an intent is posted by `apply_payout_result` and by nothing
else, so a saga that has got past that step has the disbursement booked. A saga
that fails at that step, after the bank has paid, has not.
-/

namespace Selatpay.Settlement

open Store Saga Chain

/-! ## Credits of an entry -/

/-- What the lines credit to an account. -/
def creditedBy (lines : List Ledger.Line) (accountID : UUID) : Int :=
  ((lines.filter fun l => l.accountID = accountID ∧ l.direction = .credit).map
    Ledger.Line.amount).sum

/-- What an entry of the ledger credits to an account. -/
def credited (ledger : Ledger.Tables) (entryID accountID : UUID) : Int :=
  creditedBy ((Ledger.postingsOf ledger.postings entryID).map Ledger.Posting.line) accountID

/-- The ledger holds the `payout_disbursed` entry of an intent, and it credits the amount to
`asset_cash_out_idr`. -/
def Booked (db : Db) (intentID : UUID) (amountIDR : Int) : Prop :=
  ∃ e ∈ db.ledger.entries, e.externalRef = payoutDisbursedRef intentID ∧
    e.kind = "payout_disbursed" ∧ e.intentID = some intentID ∧
    ∃ a ∈ db.ledger.accounts, a.code = accountCashOutIDR ∧ a.currency = currencyIDR ∧
      credited db.ledger e.id a.id = amountIDR

instance (db : Db) (intentID : UUID) (amountIDR : Int) : Decidable (Booked db intentID amountIDR) :=
  inferInstanceAs (Decidable (∃ e ∈ db.ledger.entries, _))

/-- The rupiah entry credits the amount that was paid. -/
theorem creditedBy_disbursed {intentID : UUID} {midIDR paidIDR spreadIDR : Int} {po : Payout}
    {expense cashOut revenue : UUID} (h : revenue ≠ cashOut) :
    creditedBy (payoutDisbursedEntry intentID midIDR paidIDR spreadIDR po expense cashOut
      revenue).lines cashOut = paidIDR := by
  by_cases hspread : spreadIDR > 0 <;> simp [creditedBy, payoutDisbursedEntry, hspread, h]

/-- An entry with the reference of a disbursement books the payout of its intent. -/
theorem booked_of_entry {db : Db} (hkeys : db.keys.Nodup) (h : MadeBySteps db)
    {e : Ledger.JournalEntry} (he : e ∈ db.ledger.entries) {intentID : UUID}
    (href : e.externalRef = payoutDisbursedRef intentID) :
    ∃ p ∈ db.payouts, p.intentID = intentID ∧ Booked db intentID p.amountIDR := by
  obtain ⟨created, hmade, hsteps⟩ := h
  obtain ⟨c, hc, hrow, heq⟩ := hmade.exists_creation he
  have href' : c.entry.externalRef = payoutDisbursedRef intentID := by
    rw [← href, heq]
    rfl
  have hlines := hmade.postings c hc
  obtain ⟨i, quote, midIDR, spreadIDR, po, expense, cashOut, revenue, -, -, -, -, -,
    ⟨p, hp, hid, hamount⟩, -, ⟨hcashOut, hcode, hcurrency⟩, ⟨hrevenue, hcode', -⟩, hentry⟩ :=
    (hsteps c hc).of_payoutDisbursedRef href'
  rw [hentry] at hlines heq
  rw [hrow] at hlines
  have hne : revenue.id ≠ cashOut.id := by
    intro hid
    have hsame := Table.eq_of_mem (Ledger.Tables.account_ids_nodup (Db.ledger_keys_nodup hkeys))
      hrevenue hcashOut hid
    exact absurd (hcode'.symm.trans (hsame ▸ hcode)) (by decide)
  refine ⟨p, hp, hid, e, he, href, ?_, ?_, cashOut, hcashOut, hcode, hcurrency, ?_⟩
  · exact congrArg Ledger.JournalEntry.kind heq
  · exact congrArg Ledger.JournalEntry.intentID heq
  · rw [credited, hlines, creditedBy_disbursed hne, hamount]

/-! ## Runs -/

/-- The rupiah entry of an intent is in the ledger. -/
def Disbursed (db : Db) (intentID : UUID) : Prop :=
  ∃ e ∈ db.ledger.entries, e.externalRef = payoutDisbursedRef intentID

/-- The ledger is made by steps, and what is past `apply_payout_result` is booked. -/
structure BookingInv (s : World) : Prop where
  made : MadeBySteps s.db
  rows : ∀ r ∈ s.db.sagas, r.state = .completed ∨ r.currentStep = .emitCompleted →
    Disbursed s.db r.intentID
  workers : ∀ w run, (s.worker w).run = some run → run.currentStep = .emitCompleted →
    Disbursed s.db run.intentID

theorem PostingInv.booking {s : World} (h : PostingInv s) : BookingInv s where
  made := h.made
  rows := by
    intro r hr hover
    refine h.rows r hr .applyPayoutResult (hover.imp_right fun hstep => ?_) _ (by simp [newRefs])
    rw [hstep]
    decide
  workers := by
    intro w run hrun hstep
    refine h.workers w run hrun .applyPayoutResult ?_ _ (by simp [newRefs])
    rw [hstep]
    decide

/-- In every reachable state, the disbursement of a succeeded payout is booked once its saga is
completed, or has failed at `emit_completed`. -/
theorem disbursement_booked {env : Env} {s : World} (h : Reachable env anyStep s) :
    ∀ p ∈ s.db.payouts, p.state = .succeeded → ∀ r ∈ s.db.sagas, r.intentID = p.intentID →
      (r.state = .completed ∨ r.state = .failed ∧ r.currentStep = .emitCompleted) →
        Booked s.db p.intentID p.amountIDR := by
  have hinv := h.inv
  have hb := h.postings.booking
  intro p hp _ r hr hintent hover
  obtain ⟨e, he, href⟩ := hb.rows r hr (hover.imp_right And.right)
  obtain ⟨p', hp', hid, hbooked⟩ := booked_of_entry hinv.sound.unique hb.made he href
  obtain rfl := Table.eq_of_mem (Db.payout_intents_nodup hinv.sound.unique) hp' hp
    (hid.trans hintent)
  exact hintent ▸ hbooked

/-- The bank has paid, and then every attempt to book the payout fails on the database. -/
def unbooked : List Event :=
  ordering 50 ++ depositing "sig-1" 61847 4 ++ crediting "a" 1000 ++ paying "a" 2000 ++
    (List.replicate 3 [.claim "a" 4, .start "a", .exec "a" (.fail "timeout"), .abandon "a",
      .settle "a" 0 0]).flatten

/-- The payout has succeeded, the saga has used up the attempts of `apply_payout_result`, and
nothing is booked. -/
theorem unbooked_disbursement : ∃ s, run (World.step smallEnv) smallWorld unbooked = some s ∧
    s.db.payouts.map (fun p => (p.intentID, p.amountIDR, p.state)) = [(3, 1000, .succeeded)] ∧
    s.db.sagas.map (fun r => (r.intentID, r.currentStep, r.state, r.stepAttempts)) =
      [(3, .applyPayoutResult, .failed, 2)] ∧ ¬ Booked s.db 3 1000 :=
  exists_of_any (by decide +kernel)

/-- A settlement from the order to the completed saga. -/
def settled : List Event :=
  ordering 50 ++ depositing "sig-1" 61847 4 ++ crediting "a" 1000 ++ paying "a" 2000 ++
    executing "b" 3000 19 ++ [.commit "b" .ok] ++ executing "b" 4000 4 ++ [.commit "b" .ok]

theorem disbursement_booked_settled : ∃ s, Reachable smallEnv anyStep s ∧
    s.db.sagas.map SagaRun.state = [.completed] ∧
    ∃ p ∈ s.db.payouts, p.amountIDR = 1000 ∧ Booked s.db p.intentID p.amountIDR := by
  obtain ⟨s, hs, hstate, p, hp, hsucceeded, hamount, r, hr, hintent, hcompleted⟩ : ∃ s,
      runIf (World.step smallEnv) anyStep smallWorld settled = some s ∧
        s.db.sagas.map SagaRun.state = [.completed] ∧
        ∃ p ∈ s.db.payouts, p.state = .succeeded ∧ p.amountIDR = 1000 ∧
          ∃ r ∈ s.db.sagas, r.intentID = p.intentID ∧ r.state = .completed :=
    exists_of_any (by decide +kernel)
  have h := reachable_of_runIf hs
  exact ⟨s, h, hstate, p, hp, hamount,
    disbursement_booked h p hp hsucceeded r hr hintent (.inl hcompleted)⟩

end Selatpay.Settlement
