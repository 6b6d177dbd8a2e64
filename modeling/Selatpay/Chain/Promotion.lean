import Selatpay.Chain.Deposits
import Selatpay.Core.Query

/-!
# The promote loop

`PromoteUnfinalized` takes the oldest rows that are not finalized, as many as fit into
a batch, and processes each of them again at finalized commitment. A row that the node
never returns stays where it is, at the head of the list, so that enough of them keep
every later row out of reach. A row is promoted after finitely many passes exactly when
the rows that can never be promoted leave room in the batch before it.
-/

namespace Selatpay.Chain

open Store

/-! ## The loop -/

/-- The row of a deposit with the link its references give it. -/
def linkedRow (refs : References) (deposit : Deposit) (message : Message) (now : Time) :
    OnchainPayment :=
  let hit := (referencesIn message (refs.map Prod.fst)).head?
  depositRow deposit hit (hit.bind fun pub => intentIDPtr (refs.lookup pub)) now

/-- `Watcher.ProcessSignature`, while the references do not change. The identifier and the time are
those the database assigns when it inserts rows. -/
def processSignature (cfg : WatcherConfig) (refs : References) (db : Db) (signature : String)
    (commitment : Commitment) (answer : RpcAnswer) (uuid : UUID) (now : Time) : Except String Db :=
  match checkTransfer cfg signature commitment answer with
  | .error msg => .error msg
  | .ok none => .ok db
  | .ok (some (deposit, message)) =>
    if acceptable db (linkedRow refs deposit message now) then
      .ok (recordDeposit db (linkedRow refs deposit message now) uuid now)
    else .error ("chain: upsert onchain_payment " ++ signature ++ ": constraint violated")

/-- What the promote loop runs with. -/
structure Watcher where
  cfg : WatcherConfig
  promoteBatchSize : Nat
  refs : References
  /-- What the node answers for a signature at finalized commitment. -/
  rpc : String → RpcAnswer
  /-- `solana.SignatureFromBase58` reads the text as a signature. -/
  isSignature : String → Bool

/-- The batch size `NewWatcher` sets when none is configured. -/
def defaultPromoteBatchSize : Nat := 50

/-- The rows `ListUnfinalizedOnchainPayments` may return. -/
def ListsUnfinalized (db : Db) (limit : Nat) (rows : List OnchainPayment) : Prop :=
  Selects (fun p => p.commitment ≠ .finalized) OnchainPayment.createdAt limit db.payments rows

/-- The body of the loop of `PromoteUnfinalized`; errors are logged. -/
def Watcher.promote (w : Watcher) (stamp : String → UUID × Time) (db : Db) (r : OnchainPayment) :
    Db :=
  if w.isSignature r.signature then
    match processSignature w.cfg w.refs db r.signature .finalized (w.rpc r.signature)
      (stamp r.signature).1 (stamp r.signature).2 with
    | .ok db' => db'
    | .error _ => db
  else db

/-- `Watcher.PromoteUnfinalized` over the rows it has listed. -/
def Watcher.promoteUnfinalized (w : Watcher) (stamp : String → UUID × Time) (db : Db)
    (rows : List OnchainPayment) : Db :=
  rows.foldl (w.promote stamp) db

/-- Consecutive passes of `PromoteUnfinalized`. -/
inductive Watcher.Passes (w : Watcher) : Nat → Db → Db → Prop
  | zero (db : Db) : Passes w 0 db db
  | succ {n : Nat} {db db' : Db} {rows : List OnchainPayment} (stamp : String → UUID × Time) :
      ListsUnfinalized db w.promoteBatchSize rows →
      Passes w n (w.promoteUnfinalized stamp db rows) db' → Passes w (n + 1) db db'

/-! ## Rows that can be promoted -/

/-- The node returns the transaction of the row at finalized commitment, as a deposit that the
database accepts. -/
def Watcher.Promotable (w : Watcher) (db : Db) (p : OnchainPayment) : Prop :=
  w.isSignature p.signature = true ∧
    match checkTransfer w.cfg p.signature .finalized (w.rpc p.signature) with
    | .ok (some (deposit, message)) => acceptable db (linkedRow w.refs deposit message 0)
    | _ => False

instance (w : Watcher) (db : Db) (p : OnchainPayment) : Decidable (w.Promotable db p) := by
  unfold Watcher.Promotable
  refine @instDecidableAnd _ _ _ ?_
  split <;> infer_instance

/-- The rows up to a time that are not finalized and can never be. -/
def Watcher.stuckUntil (w : Watcher) (db : Db) (time : Time) : Nat :=
  db.payments.countP fun q =>
    q.commitment ≠ .finalized ∧ ¬ w.Promotable db q ∧ q.createdAt ≤ time

/-- The row of the signature is finalized. -/
def FinalizedIn (db : Db) (signature : String) : Prop :=
  ∃ p ∈ db.payments, p.signature = signature ∧ p.commitment = .finalized

section Rows

variable {w : Watcher} {db db' : Db} {stamp : String → UUID × Time} {p q r : OnchainPayment}

theorem acceptable_congr (hintents : db'.intents = db.intents) (deposit : Deposit)
    (message : Message) (now : Time) : acceptable db' (linkedRow w.refs deposit message now) ↔
      acceptable db (linkedRow w.refs deposit message 0) := by
  simp only [acceptable, hintents]
  rfl

/-- Whether a row can be promoted depends on its signature and the stored intents. -/
theorem Watcher.promotable_congr (hintents : db'.intents = db.intents)
    (hsig : q.signature = p.signature) : w.Promotable db' q ↔ w.Promotable db p := by
  unfold Watcher.Promotable
  rw [hsig]
  split
  · rw [acceptable_congr hintents]
  · rfl

theorem recordDeposit_intents (db : Db) (new : OnchainPayment) (uuid : UUID) (now : Time) :
    (recordDeposit db new uuid now).intents = db.intents := by
  obtain ⟨payments, sagas, hdb, -⟩ := recordDeposit_spec db new uuid now
  rw [hdb]

/-- A row that cannot be promoted is left as it is. -/
theorem Watcher.promote_of_not (h : ¬ w.Promotable db r) : w.promote stamp db r = db := by
  unfold Watcher.promote
  split
  case isFalse => rfl
  case isTrue hsig =>
    simp only [Watcher.Promotable, hsig, true_and] at h
    unfold processSignature
    cases hcheck : checkTransfer w.cfg r.signature .finalized (w.rpc r.signature) with
    | error msg => rfl
    | ok found =>
      cases found with
      | none => rfl
      | some found =>
        obtain ⟨deposit, message⟩ := found
        rw [hcheck] at h
        have hrefused :
            ¬ acceptable db (linkedRow w.refs deposit message (stamp r.signature).2) := by
          rwa [acceptable_congr rfl]
        simp only [if_neg hrefused]

/-- A row that can be promoted is upserted at finalized commitment. -/
theorem Watcher.promote_of_promotable (h : w.Promotable db r) (stamp : String → UUID × Time) :
    ∃ new uuid now, new.signature = r.signature ∧ new.commitment = .finalized ∧
      w.promote stamp db r = recordDeposit db new uuid now := by
  obtain ⟨hsig, h⟩ := h
  split at h
  · next deposit message hcheck =>
    have haccepted : acceptable db (linkedRow w.refs deposit message (stamp r.signature).2) := by
      rwa [acceptable_congr rfl]
    obtain ⟨hsignature, hcommitment⟩ := checkTransfer_ok hcheck
    refine ⟨linkedRow w.refs deposit message (stamp r.signature).2, (stamp r.signature).1,
      (stamp r.signature).2, hsignature, hcommitment, ?_⟩
    simp only [Watcher.promote, hsig, if_true, processSignature, hcheck, if_pos haccepted]
  · cases h

end Rows

/-! ## What a pass does -/

/-- The rows of these signatures that can be promoted are finalized, and no other row is touched. -/
structure Watcher.Promoted (w : Watcher) (db db' : Db) (signatures : List String) : Prop where
  intents : db'.intents = db.intents
  rows : ∃ f : OnchainPayment → OnchainPayment, db'.payments = db.payments.map f ∧
    ∀ q ∈ db.payments, (f q).signature = q.signature ∧
      if q.signature ∈ signatures ∧ w.Promotable db q then (f q).commitment = .finalized
      else f q = q

section Passes

variable {w : Watcher} {db db' : Db} {stamp : String → UUID × Time} {p q r : OnchainPayment}
  {rows : List OnchainPayment} {signatures : List String}

theorem Watcher.Promoted.refl (w : Watcher) (db : Db) : w.Promoted db db [] :=
  ⟨rfl, id, by simp, fun q _ => ⟨rfl, by simp⟩⟩

/-- An upsert of a stored signature rewrites its row. -/
theorem payments_recordDeposit {new : OnchainPayment}
    (hstored : new.signature ∈ db.payments.map OnchainPayment.signature) (uuid : UUID)
    (now : Time) :
    (recordDeposit db new uuid now).payments =
      Table.update OnchainPayment.signature db.payments new.signature (mergePayment · new) := by
  rw [recordDeposit_payments, upsertOnchainPayment]
  cases hfind : Table.find OnchainPayment.signature db.payments new.signature with
  | some old => rfl
  | none =>
    obtain ⟨q, hq, hsig⟩ := List.mem_map.mp hstored
    exact absurd hsig (Table.find_eq_none_iff.mp hfind q hq)

theorem mergePayment_finalized (old : OnchainPayment) {new : OnchainPayment}
    (h : new.commitment = .finalized) : (mergePayment old new).commitment = .finalized := by
  simp only [mergePayment, h]
  cases old.commitment <;> rfl

/-- One row of the loop. -/
theorem Watcher.Promoted.promote (h : w.Promoted db db' signatures)
    (hstored : r.signature ∈ db.payments.map OnchainPayment.signature)
    (stamp : String → UUID × Time) :
    w.Promoted db (w.promote stamp db' r) (signatures ++ [r.signature]) := by
  obtain ⟨hintents, f, hpayments, hf⟩ := h
  have hpromotable : w.Promotable db' r ↔ w.Promotable db r := Watcher.promotable_congr hintents rfl
  by_cases hr : w.Promotable db r
  · obtain ⟨new, uuid, now, hsig, hfinal, hpromote⟩ :=
      Watcher.promote_of_promotable (hpromotable.mpr hr) stamp
    have hkeys : db'.payments.map OnchainPayment.signature =
        db.payments.map OnchainPayment.signature := by
      rw [hpayments, List.map_map]
      exact List.map_congr_left fun q hq => (hf q hq).1
    rw [hpromote]
    refine ⟨(recordDeposit_intents ..).trans hintents, fun q =>
      if (f q).signature = new.signature then mergePayment (f q) new else f q, ?_, fun q hq => ?_⟩
    · rw [payments_recordDeposit (by rwa [hkeys, hsig]), Table.update, hpayments, List.map_map]
      rfl
    · obtain ⟨hsame, hrow⟩ := hf q hq
      beta_reduce
      by_cases hq' : q.signature = r.signature
      · have hself : (f q).signature = new.signature := by rw [hsame, hq', hsig]
        have hqr : w.Promotable db q := (Watcher.promotable_congr rfl hq').mpr hr
        rw [if_pos hself, if_pos ⟨by simp [hq'], hqr⟩]
        exact ⟨hsame, mergePayment_finalized _ hfinal⟩
      · have hother : (f q).signature ≠ new.signature := by rwa [hsame, hsig]
        simp only [if_neg hother, List.mem_append, List.mem_singleton, hq', or_false]
        exact ⟨hsame, hrow⟩
  · rw [Watcher.promote_of_not (hpromotable.not.mpr hr)]
    refine ⟨hintents, f, hpayments, fun q hq => ⟨(hf q hq).1, ?_⟩⟩
    have hiff : (q.signature ∈ signatures ++ [r.signature] ∧ w.Promotable db q) ↔
        q.signature ∈ signatures ∧ w.Promotable db q := by
      simp only [List.mem_append, List.mem_singleton]
      constructor
      · rintro ⟨hmem, hq'⟩
        have hother : q.signature ≠ r.signature := fun hsig =>
          hr ((Watcher.promotable_congr rfl hsig).mp hq')
        exact ⟨hmem.resolve_right hother, hq'⟩
      · rintro ⟨hmem, hq'⟩
        exact ⟨.inl hmem, hq'⟩
    simp only [hiff]
    exact (hf q hq).2

/-- A pass finalizes the listed rows that can be promoted. -/
theorem Watcher.promoted_promoteUnfinalized
    (hstored : ∀ r ∈ rows, r.signature ∈ db.payments.map OnchainPayment.signature) :
    w.Promoted db (w.promoteUnfinalized stamp db rows) (rows.map OnchainPayment.signature) := by
  have hloop : ∀ (rest : List OnchainPayment) (db' : Db) (signatures : List String),
      w.Promoted db db' signatures →
      (∀ r ∈ rest, r.signature ∈ db.payments.map OnchainPayment.signature) →
      w.Promoted db (rest.foldl (w.promote stamp) db')
        (signatures ++ rest.map OnchainPayment.signature) := by
    intro rest
    induction rest with
    | nil =>
      intro db' signatures h _
      simpa using h
    | cons r rest ih =>
      intro db' signatures h hrest
      have hnext := ih _ _ (h.promote (hrest r (by simp)) stamp) fun q hq => hrest q (by simp [hq])
      simpa using hnext
  simpa [Watcher.promoteUnfinalized] using hloop rows db [] (.refl w db) hstored

/-- The rows that can never be promoted stay as many as they are. -/
theorem Watcher.Promoted.stuckUntil_eq (h : w.Promoted db db' signatures) (time : Time) :
    w.stuckUntil db' time = w.stuckUntil db time := by
  obtain ⟨hintents, f, hpayments, hf⟩ := h
  rw [Watcher.stuckUntil, hpayments, List.countP_map]
  refine List.countP_congr fun q hq => ?_
  obtain ⟨hsig, hrow⟩ := hf q hq
  have hiff := Watcher.promotable_congr (w := w) hintents hsig
  by_cases hpromotable : w.Promotable db q
  · simp [hiff, hpromotable]
  · rw [if_neg fun h => hpromotable h.2] at hrow
    simp [hrow, Watcher.promotable_congr (w := w) hintents rfl]

/-- A finalized row stays finalized. -/
theorem Watcher.Promoted.finalizedIn (h : w.Promoted db db' signatures) {signature : String}
    (hfinal : FinalizedIn db signature) : FinalizedIn db' signature := by
  obtain ⟨-, f, hpayments, hf⟩ := h
  obtain ⟨p, hp, hsig, hcommitment⟩ := hfinal
  obtain ⟨hsame, hrow⟩ := hf p hp
  refine ⟨f p, hpayments ▸ List.mem_map_of_mem hp, hsame.trans hsig, ?_⟩
  split at hrow
  · exact hrow
  · rw [hrow, hcommitment]

/-- What a pass over listed rows does. -/
theorem ListsUnfinalized.promoted (h : ListsUnfinalized db w.promoteBatchSize rows)
    (stamp : String → UUID × Time) :
    w.Promoted db (w.promoteUnfinalized stamp db rows) (rows.map OnchainPayment.signature) :=
  Watcher.promoted_promoteUnfinalized fun r hr => List.mem_map_of_mem (h.mem r hr).1

/-- The rows that are not finalized. -/
def unfinalized (db : Db) : Nat := db.payments.countP fun q => q.commitment ≠ .finalized

theorem Watcher.Promoted.keys (h : w.Promoted db db' signatures) :
    db'.payments.map OnchainPayment.signature = db.payments.map OnchainPayment.signature := by
  obtain ⟨-, f, hpayments, hf⟩ := h
  rw [hpayments, List.map_map]
  exact List.map_congr_left fun q hq => (hf q hq).1

/-- A row that was not processed is still there. -/
theorem Watcher.Promoted.mem (h : w.Promoted db db' signatures) (hp : p ∈ db.payments)
    (habsent : p.signature ∉ signatures) : p ∈ db'.payments := by
  obtain ⟨-, f, hpayments, hf⟩ := h
  have hrow := (hf p hp).2
  rw [if_neg fun h => habsent h.1] at hrow
  rw [hpayments]
  exact List.mem_map.mpr ⟨p, hp, hrow⟩

/-- A processed row that can be promoted is finalized. -/
theorem Watcher.Promoted.promotes (h : w.Promoted db db' signatures) (hp : p ∈ db.payments)
    (hprocessed : p.signature ∈ signatures) (hpromotable : w.Promotable db p) :
    FinalizedIn db' p.signature := by
  obtain ⟨-, f, hpayments, hf⟩ := h
  obtain ⟨hsame, hrow⟩ := hf p hp
  rw [if_pos ⟨hprocessed, hpromotable⟩] at hrow
  exact ⟨f p, hpayments ▸ List.mem_map_of_mem hp, hsame, hrow⟩

/-- A pass that promotes a row leaves fewer rows to promote. -/
theorem Watcher.Promoted.unfinalized_lt (h : w.Promoted db db' signatures) (hr : r ∈ db.payments)
    (hopen : r.commitment ≠ .finalized) (hprocessed : r.signature ∈ signatures)
    (hpromotable : w.Promotable db r) : unfinalized db' < unfinalized db := by
  obtain ⟨-, f, hpayments, hf⟩ := h
  rw [unfinalized, hpayments]
  refine countP_map_lt (P := fun q => q.commitment ≠ .finalized) (fun q hq hopen' hfinal => ?_) hr
    hopen ?_
  · have hrow := (hf q hq).2
    split at hrow
    · exact hopen' hrow
    · exact hopen' (hrow.symm ▸ hfinal)
  · have hrow := (hf r hr).2
    rw [if_pos ⟨hprocessed, hpromotable⟩] at hrow
    simpa using hrow

/-- The row waits to be promoted. -/
def Watcher.Awaits (w : Watcher) (db : Db) (p : OnchainPayment) : Prop :=
  p ∈ db.payments ∧ p.commitment ≠ .finalized ∧ w.Promotable db p

instance (w : Watcher) (db : Db) (p : OnchainPayment) : Decidable (w.Awaits db p) :=
  inferInstanceAs (Decidable (_ ∧ _))

/-- A listed row with the signature of a stored one is that row. -/
theorem ListsUnfinalized.mem_of_signature (h : ListsUnfinalized db w.promoteBatchSize rows)
    (hkeys : (db.payments.map OnchainPayment.signature).Nodup) (hp : p ∈ db.payments)
    (hsig : p.signature ∈ rows.map OnchainPayment.signature) : p ∈ rows := by
  obtain ⟨r, hr, hrp⟩ := List.mem_map.mp hsig
  rwa [← Table.eq_of_mem hkeys (h.mem r hr).1 hp hrp]

/-- A pass that does not list a waiting row leaves it waiting. -/
theorem ListsUnfinalized.awaits (h : ListsUnfinalized db w.promoteBatchSize rows)
    (stamp : String → UUID × Time) (hkeys : (db.payments.map OnchainPayment.signature).Nodup)
    (hp : w.Awaits db p) (habsent : p ∉ rows) :
    w.Awaits (w.promoteUnfinalized stamp db rows) p := by
  obtain ⟨hmem, hopen, hpromotable⟩ := hp
  have hpass := h.promoted stamp
  exact ⟨hpass.mem hmem (mt (h.mem_of_signature hkeys hmem) habsent), hopen,
    (Watcher.promotable_congr hpass.intents rfl).mpr hpromotable⟩

/-- As long as the stuck rows leave room before a waiting row, a pass promotes it or another one. -/
theorem ListsUnfinalized.progress (h : ListsUnfinalized db w.promoteBatchSize rows)
    (stamp : String → UUID × Time) (hkeys : (db.payments.map OnchainPayment.signature).Nodup)
    (hp : w.Awaits db p) (hroom : w.stuckUntil db p.createdAt < w.promoteBatchSize) :
    FinalizedIn (w.promoteUnfinalized stamp db rows) p.signature ∨
      w.Awaits (w.promoteUnfinalized stamp db rows) p ∧
        unfinalized (w.promoteUnfinalized stamp db rows) < unfinalized db := by
  have hpass := h.promoted stamp
  by_cases hlisted : p ∈ rows
  · exact .inl (hpass.promotes hp.1 (List.mem_map_of_mem hlisted) hp.2.2)
  · refine .inr ⟨h.awaits stamp hkeys hp hlisted, ?_⟩
    obtain ⟨r, hr, hnot⟩ := h.exists_other (Q := fun q => ¬ w.Promotable db q) hp.1 hp.2.1 hlisted
      hroom
    obtain ⟨hmem, hopen⟩ := h.mem r hr
    exact hpass.unfinalized_lt hmem hopen (List.mem_map_of_mem hr) (not_not.mp hnot)

end Passes

/-! ## Starvation -/

section Starvation

variable {w : Watcher} {db db' : Db} {p : OnchainPayment} {n : Nat}

theorem Watcher.Passes.finalizedIn (h : w.Passes n db db') {signature : String}
    (hfinal : FinalizedIn db signature) : FinalizedIn db' signature := by
  induction h with
  | zero db => exact hfinal
  | succ stamp hlist _ ih => exact ih ((hlist.promoted stamp).finalizedIn hfinal)

/-- With room before it, a waiting row is promoted, or every pass has promoted another one. -/
theorem Watcher.Passes.progress (h : w.Passes n db db')
    (hkeys : (db.payments.map OnchainPayment.signature).Nodup) (hp : w.Awaits db p)
    (hroom : w.stuckUntil db p.createdAt < w.promoteBatchSize) :
    FinalizedIn db' p.signature ∨ unfinalized db' + n ≤ unfinalized db := by
  induction h with
  | zero db => exact .inr le_rfl
  | @succ n db db' rows stamp hlist hrest ih =>
    have hpass := hlist.promoted stamp
    rcases hlist.progress stamp hkeys hp hroom with hfinal | ⟨hp', hlt⟩
    · exact .inl (hrest.finalizedIn hfinal)
    · refine (ih (by rwa [hpass.keys]) hp' (by rwa [hpass.stuckUntil_eq])).imp_right fun hle => ?_
      omega

/-- The other rows of a table with a waiting row include the stuck ones. -/
theorem Watcher.Awaits.stuckUntil_le (hp : w.Awaits db p) : w.stuckUntil db p.createdAt ≤
    db.payments.countP fun q => q.commitment ≠ .finalized ∧ q ≠ p ∧ q.createdAt ≤ p.createdAt := by
  refine List.countP_mono_left fun q _ hq => ?_
  obtain ⟨hopen, hstuck, hle⟩ := of_decide_eq_true hq
  have hne : q ≠ p := by
    rintro rfl
    exact hstuck hp.2.2
  simpa using ⟨hopen, hne, hle⟩

theorem Watcher.Passes.keys (h : w.Passes n db db') :
    db'.payments.map OnchainPayment.signature = db.payments.map OnchainPayment.signature := by
  induction h with
  | zero db => rfl
  | succ stamp hlist _ ih => exact ih.trans (hlist.promoted stamp).keys

/-- Without room before it, a waiting row may wait for ever. -/
theorem Watcher.Awaits.starves (hp : w.Awaits db p)
    (hkeys : (db.payments.map OnchainPayment.signature).Nodup)
    (hfull : w.promoteBatchSize ≤ w.stuckUntil db p.createdAt) (n : Nat) :
    ∃ db', w.Passes n db db' ∧ w.Awaits db' p := by
  induction n generalizing db with
  | zero => exact ⟨db, .zero db, hp⟩
  | succ n ih =>
    obtain ⟨rows, hlist, habsent⟩ := exists_selects_without hkeys.of_map
      (hfull.trans hp.stuckUntil_le)
    have hlist : ListsUnfinalized db w.promoteBatchSize rows := hlist
    let stamp : String → UUID × Time := fun _ => (0, 0)
    have hpass := hlist.promoted stamp
    obtain ⟨db', hpasses, hp'⟩ := ih (hlist.awaits stamp hkeys hp habsent) (by rwa [hpass.keys])
      (by rwa [hpass.stuckUntil_eq])
    exact ⟨db', .succ stamp hlist hpasses, hp'⟩

/-- With stuck rows strictly before it that fill the batch, a waiting row waits for ever. -/
theorem Watcher.Passes.awaits (h : w.Passes n db db') (hp : w.Awaits db p)
    (hkeys : (db.payments.map OnchainPayment.signature).Nodup) {time : Time}
    (hbefore : time < p.createdAt) (hfull : w.promoteBatchSize ≤ w.stuckUntil db time) :
    w.Awaits db' p := by
  induction h with
  | zero db => exact hp
  | @succ n db db' rows stamp hlist hrest ih =>
    have hpass := hlist.promoted stamp
    have habsent : p ∉ rows := by
      refine Selects.not_mem hlist hkeys.of_map
        (hfull.trans (List.countP_mono_left fun q _ hq => ?_))
      obtain ⟨hopen, -, hle⟩ := of_decide_eq_true hq
      simpa using ⟨hopen, lt_of_le_of_lt hle hbefore⟩
    exact ih (hlist.awaits stamp hkeys hp habsent) (by rwa [hpass.keys])
      (by rwa [hpass.stuckUntil_eq])

/-- Finitely many passes promote every waiting row exactly when the rows that can never be promoted
leave room in the batch before each of them. -/
theorem promotion_iff (hkeys : (db.payments.map OnchainPayment.signature).Nodup) :
    (∃ n, ∀ db', w.Passes n db db' → ∀ p, w.Awaits db p → FinalizedIn db' p.signature) ↔
      ∀ p, w.Awaits db p → w.stuckUntil db p.createdAt < w.promoteBatchSize := by
  constructor
  · rintro ⟨n, hn⟩ p hp
    by_contra hfull
    obtain ⟨db', hpasses, hmem, hopen, -⟩ := hp.starves hkeys (not_lt.mp hfull) n
    obtain ⟨q, hq, hsig, hfinal⟩ := hn db' hpasses p hp
    have heq : q = p := Table.eq_of_mem (hpasses.keys ▸ hkeys) hq hmem hsig
    exact hopen (heq ▸ hfinal)
  · intro hroom
    refine ⟨unfinalized db + 1, fun db' hpasses p hp => ?_⟩
    rcases hpasses.progress hkeys hp (hroom p hp) with hfinal | hle
    · exact hfinal
    · omega

end Starvation

/-- A deposit that was seen at confirmed commitment. -/
def confirmedRow (signature : String) (createdAt : Time) : OnchainPayment :=
  ⟨signature, 5, none, 21, 11, 12, 500, none, .confirmed, none, createdAt⟩

/-- A transfer of 500 to the hot wallet. -/
def transferred : Message :=
  .plain [21, 12, 11, 22, tokenProgramID] false [⟨4, [0, 1, 2, 3],
    [12, 244, 1, 0, 0, 0, 0, 0, 0, 6]⟩]

/-- A watcher whose node returns one transaction at finalized commitment and has dropped all
others. -/
def droppedOthers (promoteBatchSize : Nat) : Watcher where
  cfg := ⟨11, 12, 6⟩
  promoteBatchSize := promoteBatchSize
  refs := []
  rpc signature := if signature = "kept" then .found 5 none transferred else .notFound
  isSignature _ := true

/-- A database with these payments. -/
def paymentsOnly (payments : List OnchainPayment) : Db :=
  ⟨⟨[], [], []⟩, [], [], [], payments, [], [], []⟩

/-- As many dropped rows as the default batch holds, and a later row that can be promoted. -/
def starved : Db :=
  paymentsOnly ((List.range defaultPromoteBatchSize).map (fun n =>
    confirmedRow ("dropped-" ++ toString n) n) ++ [confirmedRow "kept" 100])

/-- A dropped row and a later one that can be promoted. -/
def roomy : Db := paymentsOnly [confirmedRow "dropped" 0, confirmedRow "kept" 1]

theorem promotion_iff_roomy : (droppedOthers 2).Awaits roomy (confirmedRow "kept" 1) ∧
    ∃ n, ∀ db', (droppedOthers 2).Passes n roomy db' → FinalizedIn db' "kept" := by
  have hkept : (droppedOthers 2).Awaits roomy (confirmedRow "kept" 1) := by decide +kernel
  have hroom : ∀ p, (droppedOthers 2).Awaits roomy p →
      (droppedOthers 2).stuckUntil roomy p.createdAt < 2 := by
    rintro p ⟨hp, -⟩
    revert p
    decide +kernel
  obtain ⟨n, hn⟩ := (promotion_iff (by decide +kernel)).mpr hroom
  exact ⟨hkept, n, fun db' hpasses => hn db' hpasses _ hkept⟩

/-- The later row is never promoted, whatever the number of passes. -/
theorem kept_starves : (droppedOthers defaultPromoteBatchSize).Awaits starved
    (confirmedRow "kept" 100) ∧ ∀ n,
      (∃ db', (droppedOthers defaultPromoteBatchSize).Passes n starved db') ∧
      ∀ db', (droppedOthers defaultPromoteBatchSize).Passes n starved db' →
        confirmedRow "kept" 100 ∈ db'.payments := by
  have hkept : (droppedOthers defaultPromoteBatchSize).Awaits starved
      (confirmedRow "kept" 100) := by decide +kernel
  have hkeys : (starved.payments.map OnchainPayment.signature).Nodup := by decide +kernel
  have hfull : defaultPromoteBatchSize ≤
      (droppedOthers defaultPromoteBatchSize).stuckUntil starved 99 := by decide +kernel
  refine ⟨hkept, fun n => ⟨?_, fun db' hpasses => ?_⟩⟩
  · obtain ⟨db', hpasses, -⟩ := hkept.starves hkeys (by decide +kernel) n
    exact ⟨db', hpasses⟩
  · exact (hpasses.awaits hkept hkeys (by decide) hfull).1

end Selatpay.Chain
