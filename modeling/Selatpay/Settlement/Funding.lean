import Mathlib.Algebra.Order.BigOperators.Group.List
import Selatpay.Chain.Deposits
import Selatpay.Core.Sums
import Selatpay.Settlement.Disbursement
import Selatpay.Settlement.Lease

/-!
# Funding of a payout

No step compares what was deposited with what was quoted: a run is enqueued for
any finalized deposit that is linked to an intent. Deposits are never lost, so a
payout is funded when its run was enqueued on a funded intent.
-/

namespace Selatpay.Settlement

open Store Saga Chain

/-- What has been deposited for an intent, finalized and linked. -/
def deposited (db : Db) (intentID : UUID) : Int :=
  ((db.finalizedDeposits intentID).map OnchainPayment.amount).sum

/-- The deposits of an intent reach its quoted amount. -/
def Funded (db : Db) (intentID : UUID) : Prop :=
  ∃ i ∈ db.intents, i.id = intentID ∧ i.quotedAmountUSDC ≤ deposited db intentID

instance (db : Db) (intentID : UUID) : Decidable (Funded db intentID) :=
  inferInstanceAs (Decidable (∃ i ∈ db.intents, _))

/-- The request a worker is about to send to the rail. -/
def Worker.atRail : Worker → Option SubmitRequest
  | .executing _ _ (.call (.submit req) _) _ => some req
  | _ => none

/-- The row that an event records. -/
def World.recorded (s : World) : Event → Option OnchainPayment
  | .record n _ began => match s.sightings[n]? with
    | some (.linked deposit hit intentID) => some (depositRow deposit hit intentID began)
    | _ => none
  | _ => none

/-- What has been deposited for an intent by other transactions, and the amount that is stored when
a row is recorded. -/
def depositedWith (db : Db) (intentID : UUID) (row : OnchainPayment) : Int :=
  (((db.finalizedDeposits intentID).filter fun p => p.signature ≠ row.signature).map
    OnchainPayment.amount).sum + (upsertOnchainPayment db row).2.amount

/-- A deposit that is recorded for an intent without a run, finalized and linked, brings its
deposits to the quoted amount. -/
def FundsRuns (s : World) (e : Event) : Prop :=
  ∀ row ∈ s.recorded e, ∀ i ∈ s.db.intents, Settled (upsertOnchainPayment s.db row).2 i.id →
    (∀ r ∈ s.db.sagas, r.intentID ≠ i.id) → i.quotedAmountUSDC ≤ depositedWith s.db i.id row

instance (s : World) (e : Event) : Decidable (FundsRuns s e) :=
  inferInstanceAs (Decidable (∀ row ∈ s.recorded e, ∀ i ∈ s.db.intents, _))

/-! ## Deposits are never lost -/

/-- What one payment contributes to the deposits of an intent. -/
def contribution (intentID : UUID) (p : OnchainPayment) : Int :=
  if p.intentID = some intentID ∧ p.commitment = .finalized then p.amount else 0

theorem sum_contribution (intentID : UUID) (ps : List OnchainPayment) :
    ((ps.filter fun p => p.intentID = some intentID ∧ p.commitment = .finalized).map
      OnchainPayment.amount).sum = (ps.map (contribution intentID)).sum := by
  induction ps with
  | nil => rfl
  | cons p ps ih =>
    by_cases hp : p.intentID = some intentID ∧ p.commitment = .finalized
    · simpa [contribution, hp] using ih
    · simpa [contribution, hp] using ih

theorem deposited_eq (db : Db) (intentID : UUID) :
    deposited db intentID = (db.payments.map (contribution intentID)).sum :=
  sum_contribution intentID db.payments

theorem contribution_nonneg {intentID : UUID} {p : OnchainPayment} (h : 0 < p.amount) :
    0 ≤ contribution intentID p := by
  unfold contribution
  split
  · exact h.le
  · exact le_rfl

/-- A merged payment contributes what it did before, or more. -/
theorem contribution_merge {intentID : UUID} {old new : OnchainPayment} (h : 0 < old.amount) :
    contribution intentID old ≤ contribution intentID (mergePayment old new) := by
  have hnonneg : 0 ≤ contribution intentID (mergePayment old new) := contribution_nonneg h
  by_cases hold : old.intentID = some intentID ∧ old.commitment = .finalized
  · have hrank : ¬ Commitment.finalized.rank < new.commitment.rank := by
      cases new.commitment <;> decide
    simp [contribution, mergePayment, hold.1, hold.2, hrank]
  · simpa [contribution, hold] using hnonneg

theorem payments_upserted_pos {payments payments' : List OnchainPayment} {new : OnchainPayment}
    (h : PaymentsUpserted payments new payments') (hpos : ∀ p ∈ payments, 0 < p.amount)
    (hnew : 0 < new.amount) : ∀ p ∈ payments', 0 < p.amount := by
  intro p hp
  cases h with
  | inserted =>
    rcases List.mem_append.mp hp with hp | hp
    · exact hpos p hp
    · rwa [List.mem_singleton.mp hp]
  | merged =>
    obtain ⟨a, ha, rfl⟩ := Table.mem_update hp
    split <;> exact hpos a ha

/-- An upsert takes nothing from the deposits of an intent. -/
theorem contribution_upserted {payments payments' : List OnchainPayment} {new : OnchainPayment}
    (h : PaymentsUpserted payments new payments') (hpos : ∀ p ∈ payments, 0 < p.amount)
    (hnew : 0 < new.amount) (intentID : UUID) : (payments.map (contribution intentID)).sum ≤
      (payments'.map (contribution intentID)).sum := by
  cases h with
  | inserted =>
    simpa using contribution_nonneg hnew
  | merged =>
    rw [Table.update, List.map_map]
    refine List.sum_le_sum fun p hp => ?_
    by_cases hsig : p.signature = new.signature
    · simpa [hsig] using contribution_merge (hpos p hp)
    · simp [hsig]

/-- An upsert leaves the payments of other transactions alone. -/
theorem filter_upserted {payments payments' : List OnchainPayment} {new : OnchainPayment}
    (h : PaymentsUpserted payments new payments') :
    (payments'.filter fun p => p.signature ≠ new.signature) =
      payments.filter fun p => p.signature ≠ new.signature := by
  cases h with
  | inserted => simp
  | merged =>
    induction payments with
    | nil => rfl
    | cons p ps ih =>
      by_cases hsig : p.signature = new.signature
      · simpa [Table.update, mergePayment, hsig] using ih
      · simpa [Table.update, hsig] using ih

/-- The row an upsert returns is of the same transaction. -/
theorem signature_upserted (db : Db) (new : OnchainPayment) :
    (upsertOnchainPayment db new).2.signature = new.signature := by
  unfold upsertOnchainPayment
  cases hf : Table.find OnchainPayment.signature db.payments new.signature with
  | none => rfl
  | some old => exact (Table.mem_of_find hf).2

/-- The deposits after a row was recorded include those of the other transactions and the row. -/
theorem depositedWith_le {db : Db} {row : OnchainPayment} {uuid : UUID} {now : Time}
    {intentID : UUID} (hpos : ∀ p ∈ (recordDeposit db row uuid now).payments, 0 < p.amount)
    (hsettled : Settled (upsertOnchainPayment db row).2 intentID) :
    depositedWith db intentID row ≤ deposited (recordDeposit db row uuid now) intentID := by
  obtain ⟨payments, hdb, hupserted, hmem⟩ := upsertOnchainPayment_spec db row
  have hpayments : (recordDeposit db row uuid now).payments = payments := by
    rw [recordDeposit_payments, hdb]
  have hamount : contribution intentID (upsertOnchainPayment db row).2 =
      (upsertOnchainPayment db row).2.amount := if_pos hsettled
  rw [hpayments] at hpos
  rw [deposited_eq, hpayments, depositedWith, Db.finalizedDeposits, List.filter_comm,
    sum_contribution, ← filter_upserted hupserted, ← hamount]
  exact sum_filter_add_le (fun p hp => contribution_nonneg (hpos p hp)) hmem
    (by simp [signature_upserted])

section Step

variable {env : Env} {s t : World} {e : Event}

/-- Only a recorded deposit touches the payments. -/
theorem payments_change (h : Change env s e t) : t.db.payments = s.db.payments ∨
    ∃ row, acceptable s.db row ∧ PaymentsUpserted s.db.payments row t.db.payments := by
  cases h with
  | quiet he htx =>
    rw [World.db, World.db, htx]
    exact .inl rfl
  | @record n uuid began row sightings hok hid =>
    obtain ⟨payments, sagas, hdb, hupserted, -⟩ := recordDeposit_spec s.db row uuid began
    refine .inr ⟨row, hok, ?_⟩
    change PaymentsUpserted s.db.payments row (recordDeposit s.db row uuid began).payments
    rw [hdb]
    exact hupserted
  | commit => exact .inl (view_payments _ _)
  | create => exact .inl rfl
  | claim => exact .inl rfl
  | start => exact .inl rfl
  | exec => exact .inl rfl
  | rollback => exact .inl rfl
  | settle => exact .inl rfl

theorem amounts_change (hpos : ∀ p ∈ s.db.payments, 0 < p.amount) (h : Change env s e t) :
    ∀ p ∈ t.db.payments, 0 < p.amount := by
  rcases payments_change h with heq | ⟨row, hrow, hupserted⟩
  · rwa [heq]
  · exact payments_upserted_pos hupserted hpos hrow.1

/-- A funded intent stays funded. -/
theorem funded_change (hpos : ∀ p ∈ s.db.payments, 0 < p.amount) (h : Change env s e t)
    {intentID : UUID} (hf : Funded s.db intentID) : Funded t.db intentID := by
  obtain ⟨i, hi, hid, hle⟩ := hf
  obtain ⟨i', hi', hterms⟩ := (grows_change h).intent hi
  have hid' := congrArg PaymentIntent.id hterms
  have hquoted := congrArg PaymentIntent.quotedAmountUSDC hterms
  have hmono : deposited s.db intentID ≤ deposited t.db intentID := by
    rw [deposited_eq, deposited_eq]
    rcases payments_change h with heq | ⟨row, hok, hupserted⟩
    · rw [heq]
    · exact contribution_upserted hupserted hpos hok.1 intentID
  exact ⟨i', hi', hid'.trans hid, hquoted.le.trans (hle.trans hmono)⟩

/-- Only a recorded deposit enqueues a run for an intent that had none. -/
theorem record_of_newRun (hs : Inv env s) (h : Change env s e t) {r : SagaRun}
    (hr : r ∈ t.db.sagas) (hfresh : ∀ a ∈ s.db.sagas, a.intentID ≠ r.intentID) :
    ∃ n uuid began, e = .record n uuid began := by
  rcases row_of_mem hs h hr with ⟨a, ha, hchange⟩ | hnew
  · exact absurd hchange.intentID_eq.symm (hfresh a ha)
  have hkept : t.db.sagas ≠ s.db.sagas := fun heq => hfresh r (heq ▸ hr) rfl
  cases h with
  | quiet he htx => exact absurd (by rw [World.db, World.db, htx]) hkept
  | @record n uuid began => exact ⟨n, uuid, began, rfl⟩
  | claim => cases hnew.event
  | settle => cases hnew.event
  | commit he =>
    rw [Event.commits_eq_none hnew.event] at he
    cases he
  | create | start | exec | rollback => exact absurd rfl hkept

/-- What is recorded is the row of a linked sighting. -/
theorem recorded_of_step {n : Nat} {uuid : UUID} {began : Time}
    (h : s.step env (.record n uuid began) = some t) :
    ∃ row, s.recorded (.record n uuid began) = some row ∧
      t.db = recordDeposit s.db row uuid began := by
  simp only [World.step] at h
  split at h
  · rename_i deposit hit intentID hsighting
    split at h <;> cases h
    exact ⟨_, by simp [World.recorded, hsighting], rfl⟩
  · cases h

/-- The run that a recorded deposit enqueues is for the intent of the stored row. -/
theorem settled_of_newRun {db : Db} {new : OnchainPayment} {uuid : UUID} {now : Time} {r : SagaRun}
    (hr : r ∈ (recordDeposit db new uuid now).sagas)
    (hfresh : ∀ a ∈ db.sagas, a.intentID ≠ r.intentID) :
    Settled (upsertOnchainPayment db new).2 r.intentID := by
  obtain ⟨payments, hdb, -⟩ := upsertOnchainPayment_spec db new
  have hsagas : (upsertOnchainPayment db new).1.sagas = db.sagas := by rw [hdb]
  have hnot : r ∉ (upsertOnchainPayment db new).1.sagas := fun hmem => hfresh r (hsagas ▸ hmem) rfl
  unfold recordDeposit at hr
  generalize upsertOnchainPayment db new = result at hr hnot
  obtain ⟨db', row⟩ := result
  simp only at hr hnot
  split at hr
  · rename_i intentID hfinal hid
    unfold enqueueSagaRun at hr
    split at hr
    · exact absurd hr hnot
    · rcases List.mem_append.mp hr with hr | hr
      · exact absurd hr hnot
      · rw [List.mem_singleton.mp hr]
        exact ⟨hid, hfinal⟩
  · exact absurd hr hnot

/-- Every run settles a funded intent. -/
def RunsFunded (s : World) : Prop :=
  (∀ p ∈ s.db.payments, 0 < p.amount) ∧ ∀ r ∈ s.db.sagas, Funded s.db r.intentID

theorem runsFunded_step (hs : Inv env s) (hf : RunsFunded s) (hok : FundsRuns s e)
    (hst : s.step env e = some t) : RunsFunded t := by
  have h := step_change hst
  have hpos := amounts_change hf.1 h
  refine ⟨hpos, fun r hr => ?_⟩
  by_cases hfresh : ∀ a ∈ s.db.sagas, a.intentID ≠ r.intentID
  · obtain ⟨n, uuid, began, rfl⟩ := record_of_newRun hs h hr hfresh
    obtain ⟨row, hrow, hdb⟩ := recorded_of_step hst
    obtain ⟨i, hi, hid⟩ := (inv_change hs h).consistent.sagas r hr
    have hold : i ∈ s.db.intents := by
      obtain ⟨payments, sagas, hspec, -⟩ := recordDeposit_spec s.db row uuid began
      rwa [hdb, hspec] at hi
    rw [hdb] at hr hpos
    have hsettled := settled_of_newRun hr hfresh
    have hquoted := hok row hrow i hold (hid ▸ hsettled) (hid ▸ hfresh)
    refine ⟨i, hi, hid, hquoted.trans ?_⟩
    rw [hdb, hid]
    exact depositedWith_le hpos hsettled
  · push Not at hfresh
    obtain ⟨a, ha, hid⟩ := hfresh
    rw [← hid]
    exact funded_change hf.1 h (hf.2 a ha)

/-- A worker that is about to call the rail executes `trigger_payout` for the intent. -/
theorem Inv.atRail (hs : Inv env s) {w : Owner} {req : SubmitRequest}
    (hw : (s.worker w).atRail = some req) : ∃ run, (s.worker w).run = some run ∧
      run.currentStep = .triggerPayout ∧ req.intentID = run.intentID := by
  unfold Worker.atRail at hw
  split at hw <;> cases hw
  rename_i run began k rail hworker
  obtain ⟨hstep, hid, -⟩ := hs.submitting hworker
  exact ⟨run, by rw [hworker]; rfl, hstep, hid⟩

end Step

/-- In every run that enqueues a settlement only for a funded intent, the rail is called for funded
intents only. -/
theorem funded_of_fundsRuns {env : Env} {s : World} {w : Owner} {req : SubmitRequest}
    (h : Reachable env FundsRuns s) (hw : (s.worker w).atRail = some req) :
    Funded s.db req.intentID := by
  obtain ⟨hinv, hfunded⟩ := h.induct (P := RunsFunded)
    (fun _ _ _ => ⟨fun _ hp => (by cases hp), fun _ hr => (by cases hr)⟩)
    fun _ _ _ hs hf hok hst => runsFunded_step hs hf hok hst
  obtain ⟨run, hrun, -, hid⟩ := hinv.atRail hw
  obtain ⟨r, hr, hterms⟩ := hinv.runs w run hrun
  have hintent : r.intentID = run.intentID := congrArg Prod.snd hterms
  rw [hid, ← hintent]
  exact hfunded.2 r hr

/-- A deposit of one unit for an intent quoted at 61847 units. -/
def dust : List Event :=
  ordering 50 ++ depositing "sig-1" 1 4 ++ crediting "a" 1000 ++ executing "a" 2000 4

/-- The rail is about to be called for the full amount of an intent that got one unit. -/
theorem dust_unfunded : ∃ s, run (World.step smallEnv) smallWorld dust = some s ∧
    (s.worker "a").atRail.map (fun req => (req.intentID, req.amountIDR)) = some (3, 1000) ∧
      deposited s.db 3 = 1 ∧ ¬ Funded s.db 3 :=
  exists_of_any (by decide +kernel)

/-- The quoted amount is deposited at once, and a little more during the settlement. -/
def overpaid : List Event :=
  ordering 50 ++ depositing "sig-1" 61847 4 ++ crediting "a" 1000 ++ depositing "sig-2" 5 5 ++
    executing "a" 2000 4

theorem funded_of_fundsRuns_overpaid : ∃ s req, Reachable smallEnv FundsRuns s ∧
    (s.worker "a").atRail = some req ∧ deposited s.db 3 = 61852 ∧ Funded s.db req.intentID := by
  obtain ⟨s, hs, hrail, hsum⟩ : ∃ s,
      runIf (World.step smallEnv) FundsRuns smallWorld overpaid = some s ∧
        (s.worker "a").atRail.isSome ∧ deposited s.db 3 = 61852 :=
    exists_of_any (by decide +kernel)
  obtain ⟨req, hreq⟩ := Option.isSome_iff_exists.mp hrail
  exact ⟨s, req, reachable_of_runIf hs, hreq, hsum,
    funded_of_fundsRuns (reachable_of_runIf hs) hreq⟩

end Selatpay.Settlement
