import Selatpay.Settlement.Funding
import Selatpay.Settlement.Postings

/-!
# Expiry of quotes

A quote promises its rate to a payer who funds the intent before it expires, but
no step on the way from the deposit to the rail compares the two times. The rail is
only called once the deposit was credited, so a payout is made in time when every
deposit that `credit_deposit` reads was.
-/

namespace Selatpay.Settlement

open Store Saga Chain

/-- The payment was made before the quote of the intent expired. -/
def Timely (db : Db) (intentID : UUID) (p : OnchainPayment) : Prop :=
  ∃ i ∈ db.intents, i.id = intentID ∧ ∃ q ∈ db.quotes, q.id = i.quoteID ∧
    ∃ blockTime ∈ p.blockTime, blockTime ≤ q.expiresAt

instance (db : Db) (intentID : UUID) (p : OnchainPayment) : Decidable (Timely db intentID p) :=
  inferInstanceAs (Decidable (∃ i ∈ db.intents, _ ∧ ∃ q ∈ db.quotes, _ ∧
    ∃ blockTime ∈ p.blockTime, _))

/-- A statement of `credit_deposit` is executed only while the deposit that the step reads, or each
of them if several are equally early, is one made before the quote expired. -/
def CreditsTimely (s : World) : Event → Prop
  | .exec w _ => ∀ run ∈ (s.worker w).run, run.currentStep = .creditDeposit →
    ∀ p ∈ earliest (s.db.finalizedDeposits run.intentID), Timely s.db run.intentID p
  | _ => True

instance (s : World) (e : Event) : Decidable (CreditsTimely s e) := by
  unfold CreditsTimely
  split <;> infer_instance

/-- What a worker that credits a deposit has read was made in time. -/
def SeenTimely (run : Run) (past db : Db) : Prop :=
  Consistent past ∧ Grows past db ∧ (run.currentStep = .creditDeposit →
    ∀ p ∈ earliest (past.finalizedDeposits run.intentID), Timely db run.intentID p)

/-- Every credited deposit was made in time. -/
def EntriesTimely (db : Db) : Prop :=
  ∀ e ∈ db.ledger.entries, ∀ intentID, e.externalRef = creditDepositRef intentID →
    ∃ p ∈ db.payments, Settled p intentID ∧ CreditOf e intentID p ∧ Timely db intentID p

theorem Timely.mono {db db' : Db} {intentID : UUID} {p : OnchainPayment}
    (h : Timely db intentID p) (hg : Grows db db') : Timely db' intentID p := by
  obtain ⟨i, hi, hid, q, hq, hqid, htime⟩ := h
  obtain ⟨i', hi', hterms⟩ := hg.intent hi
  obtain ⟨hid', -, -, hquote, -⟩ := terms_eq hterms
  exact ⟨i', hi', hid'.trans hid, q, hg.quotes.subset hq, hqid.trans hquote.symm, htime⟩

/-- The deposit entry that a finished step has inserted. -/
theorem creditOf_finished {h : List Db} {run : Run} {now : Time} {m : List Effect}
    (hf : Finished h run now m) {e : Ledger.JournalEntry}
    (he : e ∈ Ledger.headers (ledgerLog m)) {intentID : UUID}
    (href : e.externalRef = creditDepositRef intentID) :
    run.currentStep = .creditDeposit ∧ run.intentID = intentID ∧ ∃ past ∈ h, ∃ p,
      p ∈ earliest (past.finalizedDeposits run.intentID) ∧ CreditOf e run.intentID p := by
  cases hf with
  | @creditDeposit intent deposit hotWallet userFunds es hstep hintent hpost hdeposit =>
    obtain ⟨past, hp, hearliest⟩ := hdeposit
    obtain ⟨uuid, rfl⟩ := header_of_posted hpost (by simpa using he)
    exact ⟨hstep, creditDepositRef_inj.mp href, past, hp, deposit, hearliest, rfl, rfl⟩
  | paidBefore => simp at he
  | paidNow => simp at he
  | applyPayoutResult hstep hintent hpo hexpense hcashOut hrevenue hfx hdisbursed =>
    simp only [ledgerLog_append, ledgerLog_map, ledgerLog_moved, ledgerLog_cons_changeSaga,
      ledgerLog_nil, Ledger.headers_append, List.append_nil] at he
    rcases List.mem_append.mp he with he | he
    · obtain ⟨uuid, rfl⟩ := header_of_posted hfx he
      exact absurd href.symm (creditDepositRef_ne_fxSwapRef _ _)
    · obtain ⟨uuid, rfl⟩ := header_of_posted hdisbursed he
      exact absurd href.symm (creditDepositRef_ne_payoutDisbursedRef _ _)
  | emitCompleted => simp at he

section Step

variable {env : Env} {s t : World} {e : Event}

theorem seenTimely_change (hs : Inv env s) (ht : Tracks env SeenTimely s) (hok : CreditsTimely s e)
    (h : Change env s e t) : Tracks env SeenTimely t := by
  refine tracks_change ht ?_ ?_ h
  · rintro w input run rfl hrun
    exact ⟨hs.consistent, .refl _, hok run hrun⟩
  · intro v run began prog rail hv hsame past ⟨hconsistent, hg, htimely⟩
    exact ⟨hconsistent, hg.trans (grows_change h), fun hstep p hp =>
      (htimely hstep p hp).mono (grows_change h)⟩

theorem entriesTimely_change (ht : Tracks env SeenTimely s)
    (hentries : EntriesTimely s.db) (h : Change env s e t) : EntriesTimely t.db := by
  have hg := grows_change h
  have hold : ∀ e ∈ s.db.ledger.entries, ∀ intentID, e.externalRef = creditDepositRef intentID →
      ∃ p ∈ t.db.payments, Settled p intentID ∧ CreditOf e intentID p ∧ Timely t.db intentID p := by
    intro e he intentID href
    obtain ⟨p, hp, hsettled, hcredit, htimely⟩ := hentries e he intentID href
    exact ⟨p, hg.deposits p hp intentID hsettled, hsettled, hcredit, htimely.mono hg⟩
  intro e he intentID href
  rcases ledger_change h with ⟨heq, -⟩ | ⟨w, run, began, rail, hw, hdb⟩
  · exact hold e (heq ▸ he) intentID href
  · rw [hdb, view_entries] at he
    rcases List.mem_append.mp he with he | he
    · exact hold e he intentID href
    · obtain ⟨past, hf, hpast⟩ := ht.finished (fun _ _ hseen => hseen.1) hw
      obtain ⟨hstep, rfl, db, hdb, p, hearliest, hcredit⟩ := creditOf_finished hf he href
      obtain ⟨-, hgrows, htimely⟩ := hpast db hdb
      obtain ⟨hp, hsettled⟩ := settled_of_earliest hearliest
      exact ⟨p, hg.deposits p (hgrows.deposits p hp _ hsettled) _ hsettled, hsettled, hcredit,
        (htimely hstep p hearliest).mono hg⟩

end Step

/-- In every run in which `credit_deposit` only reads deposits made before their quote expired, the
rail is called for an intent only after a deposit was credited for it, and the credited deposit was
made before the quote expired. -/
theorem timely_of_creditsTimely {env : Env} {s : World} {w : Owner} {req : SubmitRequest}
    (h : Reachable env CreditsTimely s) (hw : (s.worker w).atRail = some req) :
    (∃ p ∈ s.db.payments, Credited s.db req.intentID p) ∧
      ∀ p ∈ s.db.payments, Credited s.db req.intentID p → Timely s.db req.intentID p := by
  obtain ⟨hinv, hseen, hentries⟩ := h.induct
    (P := fun s => Tracks env SeenTimely s ∧ EntriesTimely s.db)
    (fun _ _ _ => ⟨fun w => rfl, by simp [EntriesTimely, World.init, TxState.init]⟩)
    fun _ _ _ hs ht hok hst => ⟨seenTimely_change hs ht.1 hok (step_change hst),
      entriesTimely_change ht.1 ht.2 (step_change hst)⟩
  obtain ⟨run, hrun, hstep, hid⟩ := hinv.atRail hw
  obtain ⟨e, he, href⟩ := h.postings.workers w run hrun .creditDeposit
    (by rw [hstep]; decide) _ (List.mem_singleton_self _)
  rw [hid]
  constructor
  · obtain ⟨p, hp, -, hcredit, -⟩ := hentries e he run.intentID href
    exact ⟨p, hp, e, he, hcredit⟩
  · rintro p hp ⟨e', he', hcredit⟩
    obtain ⟨q, hq, -, hcredit', htimely⟩ := hentries e' he' run.intentID hcredit.1
    have heq : p = q := Table.eq_of_mem (Db.signatures_nodup hinv.sound.unique) hp hq
      (hcredit.signature_eq hcredit')
    rwa [heq]

/-- A deposit made at the given time, for a quote that expires at 100. -/
def depositedAt (blockTime : Time) : List Event :=
  ordering 50 ++ [.elapse 200,
    .observe "sig-1" .finalized (.found 5 (some blockTime) (transferMessage 61847)), .link 0,
    .record 0 4 200] ++ crediting "a" 1000 ++ executing "a" 2000 4

/-- The rail is about to be called for a deposit that was made after the quote had expired. -/
theorem late_deposit_paid : ∃ s, run (World.step smallEnv) smallWorld (depositedAt 150) = some s ∧
    (s.worker "a").atRail.map (fun req => (req.intentID, req.amountIDR)) = some (3, 1000) ∧
      ∃ p ∈ s.db.payments, Credited s.db 3 p ∧ ¬ Timely s.db 3 p :=
  exists_of_any (by decide +kernel)

theorem timely_of_creditsTimely_inTime : ∃ s req, Reachable smallEnv CreditsTimely s ∧
    (s.worker "a").atRail = some req ∧ ∃ p ∈ s.db.payments, Credited s.db req.intentID p ∧
      Timely s.db req.intentID p := by
  obtain ⟨s, hs, hrail⟩ : ∃ s,
      runIf (World.step smallEnv) CreditsTimely smallWorld (depositedAt 90) = some s ∧
        (s.worker "a").atRail.isSome :=
    exists_of_any (by decide +kernel)
  obtain ⟨req, hreq⟩ := Option.isSome_iff_exists.mp hrail
  have h := reachable_of_runIf hs
  obtain ⟨⟨p, hp, hcredited⟩, htimely⟩ := timely_of_creditsTimely h hreq
  exact ⟨s, req, h, hreq, p, hp, hcredited, htimely p hp hcredited⟩

end Selatpay.Settlement
