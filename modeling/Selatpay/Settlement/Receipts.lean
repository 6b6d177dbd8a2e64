import Selatpay.Core.Contract
import Selatpay.Settlement.Disbursement
import Selatpay.Settlement.Promises

/-!
# What the rail was asked and what it confirmed

An execution of `trigger_payout` calls the rail for the payout row of its own
transaction, over the amount of the intent and to the account of its merchant. When it
is ready to commit, a row it has inserted carries the reference of a confirmed call.
Both are verified once, for the program of the step, and hold in every interleaving.
-/

namespace Selatpay.Settlement

open Store Saga Chain Prog

/-! ## The terms of a payout -/

/-- What a payout of the intent is about: its amount and the account of its merchant. -/
def askedFor (db : Db) (intentID : UUID) : Option (Int × Recipient) :=
  match Table.find PaymentIntent.id db.intents intentID with
  | none => none
  | some intent => match Table.find Merchant.id db.merchants intent.merchantID with
    | none => none
    | some merchant => match recipientFromMerchant merchant with
      | .error _ => none
      | .ok recipient => some (intent.amountIDR, recipient)

/-- The terms of an intent do not change once it is stored. -/
theorem Keeps.askedFor {db db' : Db} (h : Keeps db db') (hdb : db.keys.Nodup)
    (hdb' : db'.keys.Nodup) {intentID : UUID} (hi : ∃ i ∈ db.intents, i.id = intentID) :
    askedFor db' intentID = askedFor db intentID := by
  obtain ⟨i, hi, rfl⟩ := hi
  obtain ⟨i', hi', hterms⟩ := h.toGrows.intent hi
  have hfind := Table.find_of_mem (Db.intent_ids_nodup hdb) hi
  have hfind' := Table.find_of_mem (Db.intent_ids_nodup hdb') hi'
  have hid : i'.id = i.id := (terms_eq hterms).1
  have hamount : i'.amountIDR = i.amountIDR := (terms_eq hterms).2.1
  have hmerchant : (intentTerms i').merchantID = (intentTerms i).merchantID := by rw [hterms]
  change i'.merchantID = i.merchantID at hmerchant
  rw [hid] at hfind'
  simp only [Settlement.askedFor, hfind, hfind', hmerchant, hamount, h.merchants]

/-! ## The contract of an execution -/

/-- How far an execution has come: its call of the rail and its log. -/
structure Attempt where
  rail : Option RailCall
  log : List Effect

/-- What holds of every committed state the execution reads. -/
structure Fixed (merchants : List Merchant) (terms : Option (Int × Recipient)) (intentID : UUID)
    (db : Db) : Prop where
  paidOut : PaidOut db
  merchants : db.merchants = merchants
  terms : askedFor db intentID = terms

/-- A call is answered on a committed state and the log so far. -/
def Answers (now : Time) (F : Db → Prop) (x : Attempt) (c : Call) (r : c.Rep) (y : Attempt) :
    Prop :=
  ∃ db input es, F db ∧ c.answer (db.view x.log) now input = some (r, es) ∧
    y = ⟨railCall c input x.rail, x.log ++ es⟩

/-- The request is for a payout row of the transaction, on the terms of the intent. -/
structure Asks (terms : Option (Int × Recipient)) (intentID : UUID) (log : List Effect)
    (req : SubmitRequest) : Prop where
  inserted : ∃ row, .insertPayout row ∈ log ∧ row.id = req.payoutID ∧ row.intentID = intentID
  key : req.idempotency = req.payoutID.text
  intent : req.intentID = intentID
  terms : terms = some (req.amountIDR, req.recipient)

/-- The rail is called with such requests only. -/
def MayCall (terms : Option (Int × Recipient)) (intentID : UUID) (x : Attempt) (c : Call) : Prop :=
  ∀ req, c = .submit req → Asks terms intentID x.log req

/-- The rail has confirmed the row, and its reference is written to it. -/
structure ConfirmedBy (x : Attempt) (row : Payout) (req : SubmitRequest) (result : SubmitResult) :
    Prop where
  rail : x.rail = some (req, .ok result)
  outcome : result.outcome = .success
  key : req.payoutID = row.id
  text : req.idempotency = row.id.text
  intent : req.intentID = row.intentID
  amount : req.amountIDR = row.amountIDR
  written : .changePayout row.id (.succeeded (nullableString result.railReference)) ∈ x.log

/-- The rail has confirmed every row the transaction inserts. -/
def AllConfirmed (x : Attempt) : Prop :=
  ∀ row, .insertPayout row ∈ x.log → ∃ req result, ConfirmedBy x row req result

/-- An execution that returns has its rows confirmed. -/
def Ends {α : Type} (res : Except GoError α) (x : Attempt) : Prop :=
  match res with
  | .ok _ => AllConfirmed x
  | .error _ => True

/-- Only the upsert inserts a payout row, under the id that was drawn for it. -/
theorem insertPayout_of_exec {db : Db} {now : Time} {uuid : UUID} {o : Op} {r : o.Rep}
    {es : List Effect} (h : o.exec db now uuid = (r, es)) {row : Payout}
    (hrow : .insertPayout row ∈ es) :
    (∃ intentID rail amountIDR, o = .upsertPayout intentID rail amountIDR) ∧ row.id = uuid := by
  cases o with
  | upsertPayout intentID rail amountIDR =>
    simp only [Op.exec] at h
    split at h
    · cases h
      cases hrow
    cases hf : Table.find Payout.intentID db.payouts intentID with
    | some old =>
      simp only [hf] at h
      cases h
      cases hrow
    | none =>
      simp only [hf] at h
      split at h
      · cases h
        cases hrow
      · cases h
        cases List.mem_singleton.mp hrow
        exact ⟨⟨intentID, rail, amountIDR, rfl⟩, rfl⟩
  | publishOutbox topic aggregateID payload headers =>
    cases h
    cases List.mem_singleton.mp hrow
  | getPaymentIntentByID id => cases h; cases hrow
  | getFinalizedDepositForIntent intentID => cases h; cases hrow
  | getMerchantByID id => cases h; cases hrow
  | getQuote id => cases h; cases hrow
  | getPayoutByIntent intentID => cases h; cases hrow
  | changePayout id c => simp only [Op.exec] at h; split at h <;> cases h <;> simp at hrow
  | updatePaymentIntentState id state =>
    simp only [Op.exec] at h; split at h <;> cases h <;> simp at hrow
  | advanceSagaStep id step => simp only [Op.exec] at h; split at h <;> cases h <;> simp at hrow
  | completeSagaRun id => simp only [Op.exec] at h; split at h <;> cases h <;> simp at hrow

section Verified

variable {α β : Type} {terms : Option (Int × Recipient)} {intentID : UUID} {now : Time}
  {F : Db → Prop} {x : Attempt}

/-- Effects that insert no payout leave the rows confirmed. -/
theorem AllConfirmed.append (h : AllConfirmed x) {es : List Effect}
    (hes : ∀ row, .insertPayout row ∉ es) : AllConfirmed ⟨x.rail, x.log ++ es⟩ := by
  intro row hrow
  obtain ⟨req, result, hc⟩ := h row ((List.mem_append.mp hrow).resolve_right (hes row))
  exact ⟨req, result, { hc with written := List.mem_append_left _ hc.written }⟩

/-- A statement of the step: an error ends the execution, a row leads on. -/
theorem meets_sql {o : Op} {f : DbError → GoError} {k : o.Row → StepM β}
    (hk : ∀ db uuid row es, F db → o.exec (db.view x.log) now uuid = (.ok row, es) →
      (k row).Meets (MayCall terms intentID) (Answers now F) Ends ⟨x.rail, x.log ++ es⟩) :
    (((sql o).orThrow f).bind k).Meets (MayCall terms intentID) (Answers now F) Ends x := by
  constructor
  · rintro req ⟨⟩
  · rintro r _ ⟨db, input, es, hdb, hanswer, rfl⟩
    cases r with
    | error e => trivial
    | ok row =>
      cases input with
      | row uuid => exact hk db uuid row es hdb (Option.some.inj hanswer)
      | fail msg => cases hanswer
      | rail answer => cases hanswer

/-- Any statement but the upsert may end the execution of a step that has its rows confirmed. -/
theorem meets_lastSql {o : Op} {f : DbError → GoError} {k : o.Row → StepM β} (h : AllConfirmed x)
    (ho : ∀ intentID rail amountIDR, o ≠ .upsertPayout intentID rail amountIDR)
    (hk : ∀ row, ∃ b, k row = .ret b) :
    (((sql o).orThrow f).bind k).Meets (MayCall terms intentID) (Answers now F) Ends x := by
  refine meets_sql fun db uuid row es _ hexec => ?_
  obtain ⟨b, hb⟩ := hk row
  rw [hb]
  refine h.append fun payout hpayout => ?_
  obtain ⟨⟨intentID, rail, amountIDR, rfl⟩, -⟩ := insertPayout_of_exec hexec hpayout
  exact ho _ _ _ rfl

theorem meets_throw {e : GoError} :
    (Prog.throw e : StepM β).Meets (MayCall terms intentID) (Answers now F) Ends x :=
  trivial

theorem meets_moveIntent (id : UUID) (intent : PaymentIntent) (src dst : IntentState) (msg : String)
    (h : AllConfirmed x) :
    (moveIntent id intent src dst msg).Meets (MayCall terms intentID) (Answers now F) Ends x := by
  unfold moveIntent
  split
  · exact meets_lastSql h (by simp) fun _ => ⟨_, rfl⟩
  · exact h

/-- The last statement of the step keeps the rows confirmed. -/
theorem meets_advanceIntentToSettling (intent : PaymentIntent) (h : AllConfirmed x) :
    (advanceIntentToSettling intent).Meets (MayCall terms intentID) (Answers now F) Ends x :=
  (meets_moveIntent _ _ _ _ _ h).bind (fun _ _ hconfirmed => hconfirmed) fun _ _ _ => trivial

/-- Only a confirmation lets the step go on; the row then carries the reference. -/
theorem meets_recordOutcome {run : Run} (intent : PaymentIntent) {po : Payout} {req : SubmitRequest}
    {result : SubmitResult} (hrail : x.rail = some (req, .ok result))
    (hkey : req.payoutID = po.id ∧ req.idempotency = po.id.text)
    (hreq : req.intentID = po.intentID ∧ req.amountIDR = po.amountIDR)
    (hrow : ∀ row, .insertPayout row ∈ x.log → row = po) :
    (recordOutcome run intent po result).Meets (MayCall terms intentID) (Answers now F) Ends x := by
  unfold recordOutcome
  split
  · next houtcome =>
    refine meets_sql fun db uuid row es _ hexec => ?_
    simp only [Op.exec] at hexec
    split at hexec <;> cases hexec
    refine meets_advanceIntentToSettling intent ?_
    intro row hmem
    have hpo : row = po := hrow row (by simpa using hmem)
    subst hpo
    exact ⟨req, result, hrail, houtcome, hkey.1, hkey.2, hreq.1, hreq.2, by simp⟩
  · exact meets_sql fun _ _ _ _ _ _ => meets_throw
  · exact meets_sql fun _ _ _ _ _ _ => meets_sql fun _ _ _ _ _ _ => meets_throw
  · exact meets_throw

/-- The rail is called for the row the transaction has inserted. -/
theorem meets_submitPayout {rails : List String} {run : Run} {intent : PaymentIntent}
    {recipient : Recipient} {po : Payout} (hlog : x.log = [.insertPayout po])
    (hpo : po.intentID = run.intentID) (hterms : terms = some (po.amountIDR, recipient)) :
    (submitPayout rails run intent recipient po).Meets (MayCall terms run.intentID)
      (Answers now F) Ends x := by
  unfold submitPayout
  split
  · exact meets_throw
  · refine meets_sql fun db uuid row es _ hexec => ?_
    simp only [Op.exec] at hexec
    split at hexec <;> cases hexec
    constructor
    · rintro req ⟨⟩
      exact ⟨⟨po, by simp [hlog], rfl, hpo⟩, rfl, rfl, hterms⟩
    · rintro r _ ⟨db, input, es, -, hanswer, rfl⟩
      cases input with
      | row uuid => cases hanswer
      | fail msg => cases hanswer
      | rail answer =>
        cases hanswer
        cases r with
        | error msg => exact meets_throw
        | ok result =>
          refine meets_recordOutcome intent rfl ⟨rfl, rfl⟩ ⟨hpo.symm, rfl⟩ fun row hrow => ?_
          simpa [hlog] using hrow

/-- `trigger_payout` meets its contract on every state where only succeeded payouts are committed
and the terms of the intent are fixed. -/
theorem meets_triggerPayout (merchants : List Merchant) (rails : List String) (run : Run) :
    (triggerPayout rails run).Meets (MayCall terms run.intentID)
      (Answers now (Fixed merchants terms run.intentID)) Ends ⟨none, []⟩ := by
  refine meets_sql fun db₁ _ intent _ hdb₁ hintent => ?_
  simp only [Op.exec, Prod.mk.injEq, selectOne_eq_ok, Db.view_nil] at hintent
  obtain ⟨hintent, rfl⟩ := hintent
  refine meets_sql fun db₂ _ merchant _ hdb₂ hmerchant => ?_
  simp only [Op.exec, Prod.mk.injEq, selectOne_eq_ok, List.append_nil, Db.view_nil] at hmerchant
  obtain ⟨hmerchant, rfl⟩ := hmerchant
  split
  · exact meets_throw
  · next recipient hrecipient =>
    have hterms : terms = some (intent.amountIDR, recipient) := by
      rw [← hdb₁.terms]
      simp only [askedFor, hintent, hdb₁.merchants, ← hdb₂.merchants, hmerchant, hrecipient]
    refine meets_sql fun db₃ uuid po es hdb₃ hpo => ?_
    simp only [Op.exec, List.append_nil, Db.view_nil] at hpo
    split at hpo
    · cases hpo
    · split at hpo
      · next row hfind =>
        cases hpo
        have hpaid : po.state = .succeeded := hdb₃.paidOut po (Table.mem_of_find hfind).1
        rw [resolvePayout, hpaid]
        exact meets_advanceIntentToSettling intent fun row hrow => by simp at hrow
      · split at hpo <;> cases hpo
        exact meets_submitPayout rfl rfl hterms

/-- The transaction of `trigger_payout` meets the contract of its step. -/
theorem meets_executeStep (merchants : List Merchant) (rails : List String) {run : Run}
    (hstep : run.currentStep = .triggerPayout) :
    (executeStep rails run).Meets (MayCall terms run.intentID)
      (Answers now (Fixed merchants terms run.intentID)) Ends ⟨none, []⟩ := by
  unfold executeStep
  rw [hstep]
  refine ((meets_triggerPayout merchants rails run).mapErr (R := Ends) ?_).bind ?_ ?_
  · rintro (e | res) y h
    · trivial
    · exact h
  · intro res y hconfirmed
    cases res with
    | none => exact meets_lastSql hconfirmed (by simp) fun _ => ⟨_, rfl⟩
    | some next => exact meets_lastSql hconfirmed (by simp) fun _ => ⟨_, rfl⟩
  · exact fun _ _ _ => trivial

end Verified

/-- A payout row is inserted under the id that was drawn for the call. -/
theorem insertPayout_of_answer {db : Db} {now : Time} {c : Call} {input : Input} {r : c.Rep}
    {es : List Effect} (h : c.answer db now input = some (r, es)) {row : Payout}
    (hrow : .insertPayout row ∈ es) : input = .row row.id := by
  cases c with
  | ledger o =>
    cases input <;> cases h
    · simp at hrow
    · cases hrow
  | sql o =>
    cases input with
    | row uuid => rw [(insertPayout_of_exec (Option.some.inj h) hrow).2]
    | fail msg => cases h; cases hrow
    | rail answer => cases h
  | submit req =>
    cases input <;> cases h
    cases hrow

/-! ## In every run -/

/-- Every execution of `trigger_payout` still meets its contract. -/
def Contracted (s : World) : Prop :=
  ∀ w run began prog rail, s.worker w = .executing run began prog rail →
    run.currentStep = .triggerPayout →
    prog.Meets (MayCall (askedFor s.db run.intentID) run.intentID)
      (Answers began (Fixed s.db.merchants (askedFor s.db run.intentID) run.intentID)) Ends
      ⟨rail, s.tx.log w⟩

section Step

variable {env : Env} {s t : World} {e : Event}

/-- The terms a busy worker works on do not change. -/
theorem Inv.askedFor_change (hs : Inv env s) (h : Change env s e t) {w : Owner} {run : Run}
    (hrun : (s.worker w).run = some run) :
    askedFor t.db run.intentID = askedFor s.db run.intentID := by
  obtain ⟨r, hr, hterms⟩ := hs.runs w run hrun
  have hid : r.intentID = run.intentID := congrArg Prod.snd hterms
  exact (keeps_change h).askedFor hs.sound.unique (inv_change hs h).sound.unique
    (hid ▸ hs.consistent.sagas r hr)

theorem contracted_change (hs : Inv env s) (hc : Contracted s) (h : Change env s e t) :
    Contracted t := by
  intro w run began prog rail hw hstep
  have hmerchants := (keeps_change h).merchants
  cases h.worker w with
  | same hworker hlog =>
    rw [hworker] at hw
    rw [hs.askedFor_change h (by rw [hw]; rfl), hmerchants, hlog]
    exact hc w run began prog rail hw hstep
  | claim _ _ _ _ hworker =>
    rw [hworker] at hw
    cases hw
  | @start run' hw' hworker hlog =>
    have htracked := hs.tracks w
    rw [hw'] at htracked
    obtain hworker | ⟨decision, hworker⟩ := hworker
    · rw [hworker] at hw
      cases hw
      rw [hlog, htracked]
      exact meets_executeStep _ env.rails hstep
    · rw [hworker] at hw
      cases hw
  | @exec input run' began' c k rail' r es hw' hanswer hworker hlog hdb =>
    rw [hworker] at hw
    cases hw
    have hmeets := hc w run began (.call c k) rail' hw' hstep
    rw [hdb, hlog]
    exact hmeets.2 r _ ⟨s.db, input, es, ⟨hs.consistent.paidOut, rfl, rfl⟩, hanswer, rfl⟩
  | rollback _ hworker =>
    obtain hworker | ⟨run', began', prog', rail', decision, -, hworker⟩ := hworker <;>
      rw [hworker] at hw <;> cases hw
  | commit _ _ hworker =>
    obtain hworker | ⟨decision, hworker⟩ := hworker <;> rw [hworker] at hw <;> cases hw
  | settle _ hworker =>
    rw [hworker] at hw
    cases hw

/-- A transaction that stands at the rail asks for a payout row of its own, on the terms of the
intent. -/
theorem Contracted.asks (hs : Inv env s) (hc : Contracted s) {w : Owner} {run : Run} {began : Time}
    {req : SubmitRequest} {k : RailAnswer → StepM Unit} {rail : Option RailCall}
    (hw : s.worker w = .executing run began (.call (.submit req) k) rail) :
    Asks (askedFor s.db run.intentID) run.intentID (s.tx.log w) req := by
  obtain ⟨hstep, -⟩ := hs.submitting hw
  exact (hc w run began _ rail hw hstep).1 req rfl

/-- A payout row is the record of a confirmed call. -/
structure RecordOf (p : Payout) (req : SubmitRequest) (result : SubmitResult) : Prop where
  outcome : result.outcome = .success
  key : req.payoutID = p.id
  text : req.idempotency = p.id.text
  intent : req.intentID = p.intentID
  amount : req.amountIDR = p.amountIDR
  reference : p.railReference = nullableString result.railReference

/-- The payouts after a finished step: those before it, and the confirmed one it has inserted. -/
theorem payout_finished {db : Db} {h : List Db} {run : Run} {began : Time} {m : List Effect}
    {rail : Option RailCall} (hf : Finished h run began m)
    (hids : ((db.view m).payouts.map Payout.id).Nodup)
    (hmeets : run.currentStep = .triggerPayout → AllConfirmed ⟨rail, m⟩) {p : Payout}
    (hp : p ∈ (db.view m).payouts) : p ∈ db.payouts ∨ ∃ row req result, .insertPayout row ∈ m ∧
      ConfirmedBy ⟨rail, m⟩ row req result ∧ RecordOf p req result := by
  cases hf with
  | @paidNow intent uuid ref hstep hintent =>
    obtain ⟨req, result, hconfirmed⟩ := hmeets hstep _ List.mem_cons_self
    have href : ref = nullableString result.railReference := by
      have hwritten := hconfirmed.written
      unfold moved at hwritten
      split at hwritten <;> simpa [newPayout, eq_comm] using hwritten
    simp only [Db.view_append, Db.view_cons, Db.view_nil, view_moved, Db.apply] at hp hids
    have hid : ∀ c, ∀ q : Payout, (q.change c).id = q.id := by
      intro c q
      cases c <;> rfl
    rw [Table.map_update (hid _), Table.map_update (hid _), List.map_append] at hids
    obtain ⟨a, ha, rfl⟩ := Table.mem_update hp
    obtain ⟨b, hb, rfl⟩ := Table.mem_update ha
    rcases List.mem_append.mp hb with hold | hnew
    · have hne : b.id ≠ uuid := by
        rintro rfl
        exact List.disjoint_of_nodup_append hids (List.mem_map_of_mem hold) (by simp [newPayout])
      exact .inl (by simpa [hne] using hold)
    · obtain rfl := List.mem_singleton.mp hnew
      refine .inr ⟨_, req, result, List.mem_cons_self, hconfirmed, hconfirmed.outcome, ?_, ?_, ?_,
        ?_, ?_⟩
      · simpa [newPayout, Payout.change] using hconfirmed.key
      · simpa [newPayout, Payout.change] using hconfirmed.text
      · simpa [newPayout, Payout.change] using hconfirmed.intent
      · simpa [newPayout, Payout.change] using hconfirmed.amount
      · simpa [newPayout, Payout.change] using href
  | creditDeposit => exact .inl (by simpa [Db.apply] using hp)
  | paidBefore => exact .inl (by simpa [Db.apply] using hp)
  | applyPayoutResult => exact .inl (by simpa [Db.apply] using hp)
  | emitCompleted => exact .inl (by simpa [Db.apply] using hp)

/-- A payout that is not committed yet is inserted by a transaction whose call of the rail it
records. -/
theorem payout_change (hs : Inv env s) (hc : Contracted s) (h : Change env s e t) {p : Payout}
    (hp : p ∈ t.db.payouts) : p ∈ s.db.payouts ∨ ∃ w req result row,
      (s.worker w).inFlight = some (req, .ok result) ∧ RecordOf p req result ∧
        .insertPayout row ∈ s.tx.log w ∧ row.id = p.id ∧ row.intentID = p.intentID := by
  cases h with
  | quiet he htx =>
    rw [World.db, htx] at hp
    exact .inl hp
  | create => exact .inl hp
  | @record _ uuid began row _ hok hid =>
    obtain ⟨payments, sagas, hdb, -⟩ := recordDeposit_spec s.db row uuid began
    simp only [World.db, hdb] at hp
    exact .inl hp
  | claim => exact .inl hp
  | start => exact .inl hp
  | exec => exact .inl hp
  | rollback => exact .inl hp
  | @commit _ w run began rail x he hw hx =>
    obtain ⟨h, hf, -⟩ := hs.finished hw
    have hids : ((s.db.view (s.tx.log w)).payouts.map Payout.id).Nodup :=
      Db.payout_ids_nodup (hs.sound.view_unique w)
    have hmeets := hc w run began (.ret ()) rail hw
    obtain hp | ⟨row, req, result, hrow, hconfirmed, hrecord⟩ := payout_finished hf hids hmeets hp
    · exact .inl hp
    · exact .inr ⟨w, req, result, row, by rw [hw]; exact hconfirmed.rail, hrecord, hrow,
        hconfirmed.key ▸ hrecord.key, hconfirmed.intent ▸ hrecord.intent⟩
  | settle => exact .inl hp

end Step

end Selatpay.Settlement
