import Selatpay.Settlement.Keys

/-!
# What every run of the system keeps

The committed tables only grow in the columns that are never updated, and a worker
that executes a step has done so on committed states of the past. From the logs
that steps leave when they return it follows that only succeeded payouts are ever
committed and that no intent is ever committed as failed.
-/

namespace Selatpay.Settlement

open Store Saga Chain Prog

/-! ## Growth -/

/-- The columns of an intent that are never updated. -/
def intentTerms (i : PaymentIntent) : PaymentIntent := i.setState .pending 0

theorem terms_eq {i j : PaymentIntent} (h : intentTerms i = intentTerms j) :
    i.id = j.id ∧ i.amountIDR = j.amountIDR ∧ i.quotedAmountUSDC = j.quotedAmountUSDC ∧
      i.quoteID = j.quoteID ∧ i.referencePubkey = j.referencePubkey := by
  simp only [intentTerms, PaymentIntent.setState, PaymentIntent.mk.injEq] at h
  exact ⟨h.1, h.2.2.2.1, h.2.2.2.2.1, h.2.2.2.2.2.1, h.2.2.2.2.2.2.1⟩

/-- The columns of a payout that are never updated. -/
def payoutTerms (p : Payout) : UUID × UUID × Int := (p.id, p.intentID, p.amountIDR)

/-- The columns of a saga run that are never updated. -/
def sagaTerms (r : SagaRun) : UUID × UUID := (r.id, r.intentID)

/-- A later committed state: rows are added behind the others, none is lost. -/
structure Grows (db db' : Db) : Prop where
  accounts : db'.ledger.accounts = db.ledger.accounts
  entries : db.ledger.entries <+: db'.ledger.entries
  intents : db.intents.map intentTerms <+: db'.intents.map intentTerms
  payouts : db.payouts.map payoutTerms <+: db'.payouts.map payoutTerms
  sagas : db.sagas.map sagaTerms <+: db'.sagas.map sagaTerms
  quotes : db.quotes <+: db'.quotes
  /-- Finalized and linked payments are never updated. -/
  deposits : ∀ p ∈ db.payments, ∀ intentID, Settled p intentID → p ∈ db'.payments

namespace Grows

variable {db db' db'' : Db}

theorem refl (db : Db) : Grows db db :=
  ⟨rfl, List.prefix_rfl, List.prefix_rfl, List.prefix_rfl, List.prefix_rfl, List.prefix_rfl,
    fun _ hp _ _ => hp⟩

theorem trans (h : Grows db db') (h' : Grows db' db'') : Grows db db'' :=
  ⟨h'.accounts.trans h.accounts, h.entries.trans h'.entries, h.intents.trans h'.intents,
    h.payouts.trans h'.payouts, h.sagas.trans h'.sagas, h.quotes.trans h'.quotes,
    fun p hp id hsettled => h'.deposits p (h.deposits p hp id hsettled) id hsettled⟩

/-- An intent keeps its terms. -/
theorem intent (h : Grows db db') {i : PaymentIntent} (hi : i ∈ db.intents) :
    ∃ i' ∈ db'.intents, intentTerms i' = intentTerms i :=
  Table.exists_of_column_prefix h.intents hi

/-- A payout keeps its terms. -/
theorem payout (h : Grows db db') {p : Payout} (hp : p ∈ db.payouts) :
    ∃ p' ∈ db'.payouts, payoutTerms p' = payoutTerms p :=
  Table.exists_of_column_prefix h.payouts hp

/-- A saga run keeps its intent. -/
theorem saga (h : Grows db db') {r : SagaRun} (hr : r ∈ db.sagas) :
    ∃ r' ∈ db'.sagas, sagaTerms r' = sagaTerms r :=
  Table.exists_of_column_prefix h.sagas hr

end Grows

theorem grows_apply (db : Db) (e : Effect) : Grows db (db.apply e) := by
  cases e with
  | ledger e =>
    cases e with
    | entry row => exact { Grows.refl db with entries := List.prefix_append _ _ }
    | posting row => exact { Grows.refl db with }
  | insertPayout row =>
    exact { Grows.refl db with payouts := by simp [Db.apply] }
  | changePayout id c =>
    have h : ∀ p : Payout, payoutTerms (p.change c) = payoutTerms p := by intro p; cases c <;> rfl
    exact { Grows.refl db with payouts := by simp [Db.apply, Table.map_update h] }
  | setIntentState id state now =>
    have h : ∀ i : PaymentIntent, intentTerms (i.setState state now) = intentTerms i :=
      fun i => rfl
    exact { Grows.refl db with intents := by simp [Db.apply, Table.map_update h] }
  | insertOutbox row => exact { Grows.refl db with }
  | changeSaga id c =>
    have h : ∀ r : SagaRun, sagaTerms (r.change c) = sagaTerms r := by intro r; cases c <;> rfl
    exact { Grows.refl db with sagas := by simp [Db.apply, Table.map_update h] }

theorem grows_view (db : Db) (log : List Effect) : Grows db (db.view log) := by
  induction log generalizing db with
  | nil => exact Grows.refl db
  | cons e log ih => exact (grows_apply db e).trans (ih _)

theorem grows_recordDeposit (db : Db) (row : OnchainPayment) (uuid : UUID) (now : Time) :
    Grows db (recordDeposit db row uuid now) := by
  obtain ⟨payments, sagas, hdb, hpayments, hsagas⟩ := recordDeposit_spec db row uuid now
  have hdeposits : ∀ p ∈ db.payments, ∀ id, Settled p id → p ∈ payments :=
    fun p hp id hsettled => hpayments.settled hp hsettled
  rw [hdb]
  cases hsagas with
  | unchanged => exact { Grows.refl db with deposits := hdeposits }
  | enqueued => exact { Grows.refl db with sagas := by simp, deposits := hdeposits }

theorem grows_writeSaga (s : World) (id : UUID) {f : SagaRun → SagaRun}
    (hf : ∀ r, sagaTerms (f r) = sagaTerms r) : Grows s.db (s.writeSaga id f).db :=
  { Grows.refl s.db with sagas := by simp [Table.map_update hf] }

section Step

variable {env : Env} {s t : World} {e : Event}

/-- Every event lets the committed tables grow. -/
theorem grows_change (h : Change env s e t) : Grows s.db t.db := by
  cases h with
  | quiet he htx =>
    rw [World.db, World.db, htx]
    exact Grows.refl s.db
  | create =>
    exact { Grows.refl s.db with
      intents := by simp [createIntent], quotes := by simp [createIntent] }
  | record => exact grows_recordDeposit _ _ _ _
  | claim => exact grows_writeSaga s _ fun r => rfl
  | start => exact Grows.refl s.db
  | exec => exact Grows.refl s.db
  | rollback => exact Grows.refl s.db
  | commit => exact grows_view s.db _
  | settle hw hfree hf => cases hf <;> exact grows_writeSaga s _ fun r => rfl

end Step

/-! ## Histories of executions -/

/-- An executing worker has reached its program on committed states that `R` relates to the
current one; no other worker has an open transaction. -/
def Tracked (env : Env) (R : Run → Db → Db → Prop) (db : Db) (log : List Effect) : Worker → Prop
  | .executing run began prog _ =>
    ∃ h, Steps (Respond began) (executeStep env.rails run) [] h prog log ∧ ∀ past ∈ h, R run past db
  | _ => log = []

/-- Every worker is tracked. -/
def Tracks (env : Env) (R : Run → Db → Db → Prop) (s : World) : Prop :=
  ∀ w, Tracked env R s.db (s.tx.log w) (s.worker w)

section Tracks

variable {env : Env} {R : Run → Db → Db → Prop} {s t : World} {e : Event}

theorem Tracked.mono {db db' : Db} {log : List Effect} {x : Worker} (h : Tracked env R db log x)
    (hmono : ∀ run began prog rail, x = .executing run began prog rail →
      ∀ past, R run past db → R run past db') : Tracked env R db' log x := by
  cases x with
  | executing run began prog rail =>
    obtain ⟨h, hs, hR⟩ := h
    exact ⟨h, hs, fun past hp => hmono _ _ _ _ rfl past (hR past hp)⟩
  | idle => exact h
  | claimed run => exact h
  | failing run decision rail => exact h

/-- Every event keeps the histories when the relation is reflexive on the state that a statement is
executed in and kept for the workers that go on. -/
theorem tracks_change (hs : Tracks env R s)
    (hrefl : ∀ w input run, e = .exec w input → (s.worker w).run = some run → R run s.db s.db)
    (hmono : ∀ v run began prog rail, s.worker v = .executing run began prog rail →
      t.worker v = s.worker v → ∀ past, R run past s.db → R run past t.db)
    (h : Change env s e t) : Tracks env R t := by
  intro v
  have htracked := hs v
  cases h.worker v with
  | same hworker hlog =>
    rw [hworker, hlog]
    exact htracked.mono fun run began prog rail hx => hmono v run began prog rail hx hworker
  | claim _ hidle _ _ hworker hlog =>
    rw [hidle] at htracked
    rw [hworker, hlog]
    exact htracked
  | start hw hworker hlog =>
    rw [hw] at htracked
    obtain hworker | ⟨decision, hworker⟩ := hworker <;> rw [hworker, hlog]
    · exact ⟨[], by simpa [Tracked] using htracked ▸ Steps.refl _ _, by simp⟩
    · exact htracked
  | @exec input run began c k rail r es hw hanswer hworker hlog hdb he =>
    have hrun : (s.worker v).run = some run := by rw [hw]; rfl
    rw [hw] at htracked
    obtain ⟨h, hsteps, hR⟩ := htracked
    rw [hworker, hlog, hdb]
    refine ⟨h ++ [s.db], hsteps.snoc ⟨input, hanswer⟩, ?_⟩
    intro past hp
    rcases List.mem_append.mp hp with hp | hp
    · exact hR past hp
    · rw [List.mem_singleton.mp hp]
      exact hrefl v input run he hrun
  | rollback _ hworker hlog =>
    obtain hworker | ⟨run, began, prog, rail, decision, -, hworker⟩ := hworker <;>
      rw [hworker, hlog] <;> rfl
  | commit _ _ hworker hlog =>
    obtain hworker | ⟨decision, hworker⟩ := hworker <;> rw [hworker, hlog] <;> rfl
  | settle hw hworker hlog =>
    rw [hw] at htracked
    rw [hworker, hlog]
    exact htracked

end Tracks

/-! ## Consistency -/

/-- The external references of an intent's entries. -/
def intentRefs (intentID : UUID) : List String :=
  [creditDepositRef intentID, fxSwapRef intentID, payoutDisbursedRef intentID]

/-- What holds of every committed database. -/
structure Consistent (db : Db) : Prop where
  /-- Only succeeded payouts are committed. -/
  paidOut : PaidOut db
  /-- No intent is committed as failed. -/
  unfailed : ∀ i ∈ db.intents, i.state ≠ .failed
  /-- Entries belong to an intent and carry one of its references. -/
  entries : ∀ e ∈ db.ledger.entries, ∃ id, e.intentID = some id ∧ e.externalRef ∈ intentRefs id
  /-- Payments are linked to intents. -/
  payments : ∀ p ∈ db.payments, ∀ id, p.intentID = some id → ∃ i ∈ db.intents, i.id = id
  /-- Saga runs settle intents. -/
  sagas : ∀ r ∈ db.sagas, ∃ i ∈ db.intents, i.id = r.intentID

/-- An effect that fails no intent and books under the references of one intent only. -/
def Harmless (intentID : UUID) : Effect → Prop
  | .ledger (.entry row) => row.intentID = some intentID ∧ row.externalRef ∈ intentRefs intentID
  | .setIntentState _ state _ => state ≠ .failed
  | _ => True

section Views

variable {db : Db} {log : List Effect} {intentID : UUID}

/-- Steps insert no saga runs. -/
theorem view_sagaTerms (db : Db) (log : List Effect) :
    (db.view log).sagas.map sagaTerms = db.sagas.map sagaTerms := by
  induction log generalizing db with
  | nil => rfl
  | cons e log ih =>
    rw [Db.view_cons, ih]
    cases e with
    | changeSaga id c =>
      have h : ∀ r : SagaRun, sagaTerms (r.change c) = sagaTerms r := by intro r; cases c <;> rfl
      simp [Db.apply, Table.map_update h]
    | ledger e => rfl
    | insertPayout row => rfl
    | changePayout id c => rfl
    | setIntentState id state now => rfl
    | insertOutbox row => rfl

/-- Harmless effects leave no intent failed. -/
theorem unfailed_view (hdb : ∀ i ∈ db.intents, i.state ≠ .failed)
    (hlog : ∀ e ∈ log, Harmless intentID e) : ∀ i ∈ (db.view log).intents, i.state ≠ .failed := by
  induction log generalizing db with
  | nil => exact hdb
  | cons e log ih =>
    have he := hlog e List.mem_cons_self
    refine ih ?_ fun x hx => hlog x (List.mem_cons_of_mem _ hx)
    cases e with
    | setIntentState id state now =>
      intro i hi
      obtain ⟨a, ha, rfl⟩ := Table.mem_update hi
      split
      · exact he
      · exact hdb a ha
    | ledger e => exact hdb
    | insertPayout row => exact hdb
    | changePayout id c => exact hdb
    | insertOutbox row => exact hdb
    | changeSaga id c => exact hdb

/-- An intent is found again by its id. -/
theorem Grows.intent_id {db' : Db} {id : UUID} (h : Grows db db')
    (hi : ∃ i ∈ db.intents, i.id = id) : ∃ i ∈ db'.intents, i.id = id := by
  obtain ⟨i, hi, rfl⟩ := hi
  obtain ⟨i', hi', hterms⟩ := h.intent hi
  have hid := congrArg PaymentIntent.id hterms
  exact ⟨i', hi', hid⟩

/-- A committed log keeps consistency when its effects are harmless and its payouts succeeded. -/
theorem Consistent.view (hdb : Consistent db) (hlog : ∀ e ∈ log, Harmless intentID e)
    (hpaid : PaidOut (db.view log)) : Consistent (db.view log) where
  paidOut := hpaid
  unfailed := unfailed_view hdb.unfailed hlog
  entries := by
    intro e he
    rw [view_entries] at he
    rcases List.mem_append.mp he with he | he
    · exact hdb.entries e he
    · exact ⟨_, hlog _ (mem_ledgerLog.mp (Ledger.mem_headers.mp he))⟩
  payments := by
    intro p hp id hid
    rw [view_payments] at hp
    exact (grows_view db log).intent_id (hdb.payments p hp id hid)
  sagas := by
    intro r hr
    have hterms := List.mem_map_of_mem (f := sagaTerms) hr
    rw [view_sagaTerms] at hterms
    obtain ⟨a, ha, hra⟩ := List.mem_map.mp hterms
    have hid : a.intentID = r.intentID := congrArg Prod.snd hra
    exact (grows_view db log).intent_id (hid ▸ hdb.sagas a ha)

end Views

section Finished

variable {h : List Db} {run : Run} {now : Time} {m : List Effect}

theorem harmless_posted {l : List Effect} {e : Ledger.Entry} {es : List Ledger.Effect} {id : UUID}
    (hp : Posted h l e es) (hid : e.intentID = some id) (href : e.externalRef ∈ intentRefs id) :
    ∀ x ∈ es.map Effect.ledger, Harmless id x := by
  intro x hx
  obtain ⟨y, hy, rfl⟩ := List.mem_map.mp hx
  obtain ⟨rfl, -⟩ | ⟨uuid, ps, rfl, -⟩ := hp
  · cases hy
  · rcases List.mem_cons.mp hy with rfl | hy
    · exact ⟨hid, href⟩
    · obtain ⟨p, -, rfl⟩ := List.mem_map.mp hy
      trivial

theorem harmless_moved {intentID id : UUID} {intent : PaymentIntent} {src dst : IntentState}
    (hdst : dst ≠ .failed) : ∀ x ∈ moved id intent src dst now, Harmless intentID x := by
  intro x hx
  unfold moved at hx
  split at hx
  · rw [List.mem_singleton.mp hx]
    exact hdst
  · cases hx

/-- A step that is ready to commit leaves harmless effects. -/
theorem harmless_finished (hf : Finished h run now m) : ∀ x ∈ m, Harmless run.intentID x := by
  intro x hx
  cases hf with
  | creditDeposit hstep hintent hpost =>
    simp only [List.mem_append, List.mem_singleton] at hx
    obtain (hx | hx) | rfl := hx
    · exact harmless_posted hpost rfl (by simp [creditDepositEntry, intentRefs]) x hx
    · exact harmless_moved (by simp) x hx
    · trivial
  | paidBefore hstep hintent hpaid =>
    simp only [List.mem_append, List.mem_singleton] at hx
    obtain hx | rfl := hx
    · exact harmless_moved (by simp) x hx
    · trivial
  | paidNow hstep hintent =>
    simp only [List.mem_append, List.mem_cons, List.not_mem_nil, or_false] at hx
    obtain ((rfl | rfl | rfl) | hx) | rfl := hx
    · trivial
    · trivial
    · trivial
    · exact harmless_moved (by simp) x hx
    · trivial
  | applyPayoutResult hstep hintent hpo hexpense hcashOut hrevenue hfx hdisbursed =>
    simp only [List.map_append, List.mem_append, List.mem_singleton] at hx
    obtain ((hx | hx) | hx) | rfl := hx
    · exact harmless_posted hfx rfl (by simp [fxSwapEntry, intentRefs]) x hx
    · exact harmless_posted hdisbursed rfl (by simp [payoutDisbursedEntry, intentRefs]) x hx
    · exact harmless_moved (by simp) x hx
    · trivial
  | emitCompleted hstep hintent htopic haggregate =>
    simp only [List.mem_append, List.mem_singleton] at hx
    obtain (hx | rfl) | rfl := hx
    · exact harmless_moved (by simp) x hx
    · trivial
    · trivial

/-- A step that is ready to commit leaves no payout unresolved. -/
theorem paidOut_finished {db : Db} (hdb : PaidOut db) (hf : Finished h run now m) :
    PaidOut (db.view m) := by
  cases hf with
  | paidNow hstep hintent =>
    intro p hp
    simp only [Db.view_append, Db.view_cons, Db.view_nil, view_moved, Db.apply] at hp
    obtain ⟨a, ha, rfl⟩ := Table.mem_update hp
    split
    · rfl
    · rename_i hne
      obtain ⟨b, hb, rfl⟩ := Table.mem_update ha
      split at hne
      · exact absurd ‹_› hne
      · rcases List.mem_append.mp hb with hb | hb
        · simpa [‹¬ b.id = _›] using hdb b hb
        · rw [List.mem_singleton.mp hb] at hne
          exact absurd rfl hne
  | creditDeposit => simpa [PaidOut, Db.apply] using hdb
  | paidBefore => simpa [PaidOut, Db.apply] using hdb
  | applyPayoutResult => simpa [PaidOut, Db.apply] using hdb
  | emitCompleted => simpa [PaidOut, Db.apply] using hdb

end Finished

/-! ## The invariant of all runs -/

/-- What a worker's history says of the states it has seen. -/
def Past (_ : Run) (past db : Db) : Prop := Consistent past ∧ Grows past db

/-- The invariant of all runs. -/
structure Inv (env : Env) (s : World) : Prop where
  sound : s.tx.Sound engine
  consistent : Consistent s.db
  tracks : Tracks env Past s
  /-- The run of a busy worker is stored, for the same intent. -/
  runs : ∀ w run, (s.worker w).run = some run →
    ∃ r ∈ s.db.sagas, sagaTerms r = (run.id, run.intentID)

section Run

variable {env : Env} {s t : World} {e : Event}

/-- A transaction that is ready to commit has finished its step on states of its history. -/
theorem Tracks.finished {R : Run → Db → Db → Prop} (hs : Tracks env R s)
    (hR : ∀ run past, R run past s.db → Consistent past) {w : Owner} {run : Run} {began : Time}
    {rail : Option RailCall} (hw : s.worker w = .executing run began (.ret ()) rail) :
    ∃ h, Finished h run began (s.tx.log w) ∧ ∀ past ∈ h, R run past s.db := by
  have htracked := hs w
  rw [hw] at htracked
  obtain ⟨h, hsteps, hpast⟩ := htracked
  obtain ⟨h', hsub, hf⟩ :=
    executeStep_ret hsteps fun past hp => (hR run past (hpast past hp)).paidOut
  exact ⟨h', hf, fun past hp => hpast past (hsub hp)⟩

theorem Inv.finished (hs : Inv env s) {w : Owner} {run : Run} {began : Time}
    {rail : Option RailCall} (hw : s.worker w = .executing run began (.ret ()) rail) :
    ∃ h, Finished h run began (s.tx.log w) ∧ ∀ past ∈ h, Past run past s.db :=
  hs.tracks.finished (fun _ _ hpast => hpast.1) hw

/-- The row of a busy worker's run settles the intent of the run. -/
theorem Inv.intentID_eq (hs : Inv env s) {w : Owner} {run : Run}
    (hrun : (s.worker w).run = some run) {r : SagaRun} (hr : r ∈ s.db.sagas)
    (hid : r.id = run.id) : r.intentID = run.intentID := by
  obtain ⟨a, ha, hterms⟩ := hs.runs w run hrun
  obtain rfl := Table.eq_of_mem (Db.saga_ids_nodup hs.sound.unique) ha hr
    ((congrArg Prod.fst hterms).trans hid.symm)
  exact congrArg Prod.snd hterms

/-- A recorded deposit keeps consistency. -/
theorem consistent_recordDeposit {db : Db} {row : OnchainPayment} {uuid : UUID} {now : Time}
    (hdb : Consistent db) (hok : acceptable db row) :
    Consistent (recordDeposit db row uuid now) := by
  obtain ⟨payments, sagas, heq, hpayments, hsagas⟩ := recordDeposit_spec db row uuid now
  have hlinked : ∀ p ∈ payments, ∀ id, p.intentID = some id → ∃ i ∈ db.intents, i.id = id := by
    intro p hp id hid
    cases hpayments with
    | inserted hnone =>
      rcases List.mem_append.mp hp with hp | hp
      · exact hdb.payments p hp id hid
      · rw [List.mem_singleton.mp hp] at hid
        exact hok.2.2 id hid
    | merged =>
      obtain ⟨a, ha, rfl⟩ := Table.mem_update hp
      split at hid
      · rcases Option.or_eq_some_iff.mp hid with h | ⟨-, h⟩
        · exact hdb.payments a ha id h
        · exact hok.2.2 id h
      · exact hdb.payments a ha id hid
  rw [heq]
  refine { hdb with payments := hlinked, sagas := ?_ }
  cases hsagas with
  | unchanged => exact hdb.sagas
  | enqueued hp hid hfinal hnone =>
    intro r hr
    rcases List.mem_append.mp hr with hr | hr
    · exact hdb.sagas r hr
    · rw [List.mem_singleton.mp hr]
      exact hlinked _ hp _ hid

theorem consistent_writeSaga (hs : Consistent s.db) (id : UUID) {f : SagaRun → SagaRun}
    (hf : ∀ r, (f r).intentID = r.intentID) : Consistent (s.writeSaga id f).db := by
  refine { hs with sagas := ?_ }
  intro r hr
  obtain ⟨a, ha, rfl⟩ := Table.mem_update hr
  split
  · rw [hf]
    exact hs.sagas a ha
  · exact hs.sagas a ha

/-- Every event keeps consistency. -/
theorem consistent_change (hs : Inv env s) (h : Change env s e t) : Consistent t.db := by
  have hdb := hs.consistent
  cases h with
  | quiet he htx =>
    rw [World.db, htx]
    exact hdb
  | @create c amountUSDC hunused =>
    have hmem : ∀ id, (∃ i ∈ s.db.intents, i.id = id) →
        ∃ i ∈ s.db.intents ++ [(c.rows amountUSDC s.now).2], i.id = id := by
      rintro id ⟨i, hi, hid⟩
      exact ⟨i, List.mem_append_left _ hi, hid⟩
    refine ⟨hdb.paidOut, ?_, hdb.entries, fun p hp id hid => hmem id (hdb.payments p hp id hid),
      fun r hr => hmem _ (hdb.sagas r hr)⟩
    intro i hi
    rcases List.mem_append.mp hi with hi | hi
    · exact hdb.unfailed i hi
    · rw [List.mem_singleton.mp hi]
      simp [CreateIntent.rows]
  | record hok hid => exact consistent_recordDeposit hdb hok
  | claim => exact consistent_writeSaga hdb _ fun r => rfl
  | start => exact hdb
  | exec => exact hdb
  | rollback => exact hdb
  | commit he hw hx =>
    obtain ⟨h, hf, -⟩ := hs.finished hw
    exact hdb.view (harmless_finished hf) (paidOut_finished hdb.paidOut hf)
  | settle hw hfree hf => cases hf <;> exact consistent_writeSaga hdb _ fun r => rfl

/-- A worker is busy with the run it was busy with, or has just claimed one. -/
theorem run_change (h : Change env s e t) {w : Owner} {run : Run}
    (hrun : (t.worker w).run = some run) : (s.worker w).run = some run ∨
      ∃ id row, e = .claim w id ∧ s.worker w = .idle ∧
        Table.find SagaRun.id s.db.sagas id = some row ∧ claimable s row ∧
        run = toRun (row.claim w (s.now + (env.runner w).leaseDuration)) := by
  cases h.worker w with
  | same hworker => exact .inl (hworker ▸ hrun)
  | @claim id row he hidle hrow hclaim hworker =>
    rw [hworker] at hrun
    exact .inr ⟨id, row, he, hidle, hrow, hclaim, (Option.some.inj hrun).symm⟩
  | start hw hworker =>
    rw [hw]
    obtain hworker | ⟨decision, hworker⟩ := hworker <;> rw [hworker] at hrun <;> exact .inl hrun
  | exec hw hanswer hworker =>
    rw [hworker] at hrun
    rw [hw]
    exact .inl hrun
  | rollback he hworker =>
    obtain hworker | ⟨run', began, prog, rail, decision, hw, hworker⟩ := hworker
    · rw [hworker] at hrun
      cases hrun
    · rw [hworker] at hrun
      rw [hw]
      exact .inl hrun
  | commit he hw hworker =>
    obtain hworker | ⟨decision, hworker⟩ := hworker
    · rw [hworker] at hrun
      cases hrun
    · rw [hworker] at hrun
      rw [hw]
      exact .inl hrun
  | settle hw hworker =>
    rw [hworker] at hrun
    cases hrun

/-- The run a worker is busy with after an event was stored before it. -/
theorem Inv.row_of_run (hs : Inv env s) (h : Change env s e t) {w : Owner} {run : Run}
    (hrun : (t.worker w).run = some run) :
    ∃ r ∈ s.db.sagas, sagaTerms r = (run.id, run.intentID) := by
  obtain hold | ⟨id, row, -, -, hrow, -, rfl⟩ := run_change h hrun
  · exact hs.runs w run hold
  · exact ⟨row, (Table.mem_of_find hrow).1, rfl⟩

/-- Every event keeps the invariant. -/
theorem inv_change (hs : Inv env s) (h : Change env s e t) : Inv env t where
  sound := sound_change hs.sound h
  consistent := consistent_change hs h
  tracks := by
    refine tracks_change hs.tracks (fun _ _ _ _ _ => ⟨hs.consistent, .refl _⟩) ?_ h
    intro v run began prog rail hv hsame past hpast
    exact ⟨hpast.1, hpast.2.trans (grows_change h)⟩
  runs := by
    intro w run hrun
    obtain ⟨r, hr, hterms⟩ := hs.row_of_run h hrun
    obtain ⟨r', hr', hterms'⟩ := (grows_change h).saga hr
    exact ⟨r', hr', hterms'.trans hterms⟩

/-- A new deployment has the invariant. -/
theorem inv_init {accounts : List Ledger.Account} {merchants : List Merchant} {now : Time}
    (h : (World.init accounts merchants now).db.keys.Nodup) :
    Inv env (World.init accounts merchants now) where
  sound := .init h
  consistent := by constructor <;> simp [World.init, TxState.init, PaidOut]
  tracks := fun w => rfl
  runs := by
    intro w run hrun
    cases hrun

/-- Every run keeps the invariant. -/
theorem Inv.path {ok : World → Event → Prop} {es : List Event} (hs : Inv env s)
    (h : Path (World.step env) ok s es t) : Inv env t :=
  h.invariant (fun _ _ _ hinv _ hst => inv_change hinv (step_change hst)) hs

end Run

/-! ## Reachable states -/

/-- The states reached from a new deployment by steps that meet a condition. -/
def Reachable (env : Env) (ok : World → Event → Prop) (s : World) : Prop :=
  ∃ accounts merchants now es, (World.init accounts merchants now).db.keys.Nodup ∧
    Path (World.step env) ok (World.init accounts merchants now) es s

section Reachable

variable {env : Env} {ok ok' : World → Event → Prop} {s t : World}

/-- A condition that a new deployment meets and every allowed event keeps holds in every reachable
state, next to the invariant of all runs. -/
theorem Reachable.induct {P : World → Prop} (h : Reachable env ok s)
    (hinit : ∀ accounts merchants now, P (World.init accounts merchants now))
    (hstep : ∀ s e t, Inv env s → P s → ok s e → s.step env e = some t → P t) :
    Inv env s ∧ P s := by
  obtain ⟨accounts, merchants, now, es, hkeys, hpath⟩ := h
  have hkeep : ∀ s e t, (Inv env s ∧ P s) → ok s e → s.step env e = some t →
      Inv env t ∧ P t := by
    intro s e t hs hok hst
    exact ⟨inv_change hs.1 (step_change hst), hstep s e t hs.1 hs.2 hok hst⟩
  exact hpath.invariant hkeep ⟨inv_init hkeys, hinit accounts merchants now⟩

/-- Every reachable state has the invariant of all runs. -/
theorem Reachable.inv (h : Reachable env ok s) : Inv env s :=
  (h.induct (P := fun _ => True) (fun _ _ _ => trivial) fun _ _ _ _ _ _ _ => trivial).1

/-- A run of the small deployment reaches its last state. -/
theorem reachable_of_runIf [∀ s e, Decidable (ok s e)] {es : List Event}
    (h : runIf (World.step smallEnv) ok smallWorld es = some s) : Reachable smallEnv ok s :=
  ⟨_, _, _, es, by decide, .of_runIf h⟩

/-- What a reachable state leads to is reachable. -/
theorem Reachable.append {t : World} {es : List Event} (h : Reachable env ok s)
    (hpath : Path (World.step env) ok s es t) : Reachable env ok t := by
  obtain ⟨accounts, merchants, now, past, hkeys, hpast⟩ := h
  exact ⟨accounts, merchants, now, past ++ es, hkeys, hpast.append hpath⟩

end Reachable

end Selatpay.Settlement
