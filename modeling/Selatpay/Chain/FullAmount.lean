import Selatpay.Chain.Promotion
import Selatpay.Chain.Transfers

/-!
# The amount a deposit is recorded with

A transaction may carry several transfers, to the hot wallet and elsewhere, and the sum
of those to the hot wallet is what it has deposited. The watcher looks only at the first
transfer of any kind, so that the sum is recorded exactly if this one is a deposit and
the later ones add nothing to it.
-/

namespace Selatpay.Chain

open Store

/-! ## The deposits of a transaction -/

/-- An account of an instruction, among those the transaction was executed with. -/
def accountKey (keys : List PublicKey) (ix : CompiledInstruction) (i : Nat) : Option PublicKey :=
  ix.accounts[i]?.bind fun index => keys[index]?

/-- A `TransferChecked` of the configured mint and decimals to the hot wallet. -/
def IsDeposit (cfg : WatcherConfig) (msg : Message) (keys : List PublicKey)
    (ix : CompiledInstruction) : Prop :=
  IsTransferChecked msg ix ∧ (ix.data.getD 9 0).toNat = cfg.expectedDecimals ∧
    accountKey keys ix 1 = some cfg.mint ∧ accountKey keys ix 2 = some cfg.hotWalletATA

instance (cfg : WatcherConfig) (msg : Message) (keys : List PublicKey) (ix : CompiledInstruction) :
    Decidable (IsDeposit cfg msg keys ix) :=
  inferInstanceAs (Decidable (_ ∧ _ ∧ _ ∧ _))

/-- The amount in the data of a `TransferChecked`. -/
def instructionAmount (ix : CompiledInstruction) : Nat := littleEndian ((ix.data.drop 1).take 8)

/-- What the instructions deposit. -/
def depositSum (cfg : WatcherConfig) (msg : Message) (keys : List PublicKey)
    (ixs : List CompiledInstruction) : Nat :=
  ((ixs.filter fun ix => IsDeposit cfg msg keys ix).map instructionAmount).sum

/-- The transaction was executed with these accounts: its programs are among the static ones, and
the token program has read the data and the accounts of every `TransferChecked`. -/
structure Executed (msg : Message) (keys : List PublicKey) : Prop where
  resolved : msg.unresolvedLookups = false → keys = msg.accountKeys
  programs : ∀ ix ∈ msg.instructions, Resolves msg ix
  transfers : ∀ ix ∈ msg.instructions, IsTransferChecked msg ix →
    10 ≤ ix.data.length ∧ 4 ≤ ix.accounts.length ∧ ∀ index ∈ ix.accounts, index < keys.length

/-- The first transfer of the transaction is a deposit, and the later ones deposit nothing. -/
def FirstIsWhole (cfg : WatcherConfig) (msg : Message) (keys : List PublicKey) : Prop :=
  ∃ pre ix post, msg.instructions = pre ++ ix :: post ∧ (∀ j ∈ pre, ¬ IsTransferChecked msg j) ∧
    IsDeposit cfg msg keys ix ∧ depositSum cfg msg keys post = 0

section Sum

variable {cfg : WatcherConfig} {msg : Message} {keys : List PublicKey}

theorem depositSum_append (pre post : List CompiledInstruction) :
    depositSum cfg msg keys (pre ++ post) =
      depositSum cfg msg keys pre + depositSum cfg msg keys post := by
  simp [depositSum]

theorem depositSum_cons {ix : CompiledInstruction} (h : IsDeposit cfg msg keys ix)
    (post : List CompiledInstruction) :
    depositSum cfg msg keys (ix :: post) =
      instructionAmount ix + depositSum cfg msg keys post := by
  simp [depositSum, h]

theorem depositSum_eq_zero {pre : List CompiledInstruction}
    (h : ∀ j ∈ pre, ¬ IsTransferChecked msg j) : depositSum cfg msg keys pre = 0 := by
  have hnone : pre.filter (fun ix => IsDeposit cfg msg keys ix) = [] := by
    rw [List.filter_eq_nil_iff]
    intro j hj hdeposit
    exact h j hj (of_decide_eq_true hdeposit).1
  rw [depositSum, hnone]
  rfl

/-- A deposit is the whole of what the transaction deposits if nothing follows. -/
theorem instructionAmount_eq_depositSum {pre post : List CompiledInstruction}
    {ix : CompiledInstruction} (heq : msg.instructions = pre ++ ix :: post)
    (hpre : ∀ j ∈ pre, ¬ IsTransferChecked msg j) (hix : IsDeposit cfg msg keys ix) :
    instructionAmount ix = depositSum cfg msg keys msg.instructions ↔
      depositSum cfg msg keys post = 0 := by
  rw [heq, depositSum_append, depositSum_cons hix, depositSum_eq_zero hpre]
  omega

end Sum

/-! ## The transfer the watcher accepts -/

section Accepted

variable {cfg : WatcherConfig} {msg : Message} {keys : List PublicKey}

/-- The first four entries of a list that has them. -/
theorem exists_four {l : List Nat} (h : 4 ≤ l.length) :
    ∃ a b c d more, l = a :: b :: c :: d :: more := by
  rcases l with _ | ⟨a, _ | ⟨b, _ | ⟨c, _ | ⟨d, more⟩⟩⟩⟩
  · simp at h
  · simp at h
  · simp at h
  · simp at h
  · exact ⟨a, b, c, d, more, rfl⟩

/-- A `TransferChecked` that was executed decodes to a transfer to the hot wallet exactly if it
is a deposit and no lookup of the message is unresolved. -/
theorem decodes_iff_isDeposit (hexec : Executed msg keys) {ix : CompiledInstruction}
    (hmem : ix ∈ msg.instructions) (hix : IsTransferChecked msg ix) {amount : Nat} :
    (∃ t, decodeTransferChecked msg ix = .ok t ∧ t.dest = cfg.hotWalletATA ∧ t.mint = cfg.mint ∧
        t.decimals = cfg.expectedDecimals ∧ t.amount = amount) ↔
      msg.unresolvedLookups = false ∧ IsDeposit cfg msg keys ix ∧
        instructionAmount ix = amount := by
  obtain ⟨hlength, haccounts, hbound⟩ := hexec.transfers ix hmem hix
  constructor
  · rintro ⟨t, hdecode, hdest, hmint, hdecimals, rfl⟩
    obtain ⟨-, keys', source, mint, dest, authority, more, hkeys, hlist, -, hm, hd, -, ha, hdec⟩ :=
      decodeTransferChecked_eq_ok.mp hdecode
    obtain ⟨hlookups, hsame⟩ := (msg.accountMetaList_eq_ok keys').mp hkeys
    obtain rfl : keys' = keys := hsame.trans (hexec.resolved hlookups).symm
    refine ⟨hlookups, ⟨hix, hdec.symm.trans hdecimals, ?_, ?_⟩, ha.symm⟩
    · simp [accountKey, hlist, hm, hmint]
    · simp [accountKey, hlist, hd, hdest]
  · rintro ⟨hlookups, ⟨-, hdecimals, hmint, hdest⟩, rfl⟩
    obtain ⟨source, mint, dest, authority, more, hlist⟩ := exists_four haccounts
    have hkeys : msg.accountMetaList = .ok keys :=
      (msg.accountMetaList_eq_ok keys).mpr ⟨hlookups, hexec.resolved hlookups⟩
    have hsource : source < keys.length := hbound source (by simp [hlist])
    have hauthority : authority < keys.length := hbound authority (by simp [hlist])
    simp only [accountKey, hlist] at hmint hdest
    refine ⟨⟨keys[source], cfg.mint, cfg.hotWalletATA, keys[authority], _, _⟩, ?_, rfl, rfl,
      hdecimals, rfl⟩
    exact decodeTransferChecked_eq_ok.mpr ⟨hlength, keys, source, mint, dest, authority, more,
      hkeys, hlist, List.getElem?_eq_getElem hsource, hmint, hdest,
      List.getElem?_eq_getElem hauthority, rfl, rfl⟩

/-- The accepted transfer has the amount of all deposits exactly if the first transfer is all of
them. -/
theorem accepts_depositSum_iff (hexec : Executed msg keys)
    (hlt : depositSum cfg msg keys msg.instructions < 2 ^ 63) :
    (∃ t, Accepts cfg msg t ∧ t.amount = depositSum cfg msg keys msg.instructions) ↔
      msg.unresolvedLookups = false ∧ FirstIsWhole cfg msg keys := by
  constructor
  · rintro ⟨t, h, hamount⟩
    obtain ⟨pre, ix, post, heq, hpre, hix, hdecode⟩ :=
      (parseSPLTransferChecked_eq_ok hexec.programs).mp h.parsed
    have hmem : ix ∈ msg.instructions := by simp [heq]
    obtain ⟨hlookups, hdeposit, hall⟩ := (decodes_iff_isDeposit hexec hmem hix).mp
      ⟨t, hdecode, h.dest, h.mint, h.decimals, hamount⟩
    exact ⟨hlookups, pre, ix, post, heq, hpre, hdeposit,
      (instructionAmount_eq_depositSum heq hpre hdeposit).mp hall⟩
  · rintro ⟨hlookups, pre, ix, post, heq, hpre, hdeposit, hpost⟩
    have hmem : ix ∈ msg.instructions := by simp [heq]
    have hall := (instructionAmount_eq_depositSum heq hpre hdeposit).mpr hpost
    obtain ⟨t, hdecode, hdest, hmint, hdecimals, hamount⟩ :=
      (decodes_iff_isDeposit hexec hmem hdeposit.1).mpr ⟨hlookups, hdeposit, hall⟩
    have hparsed := (parseSPLTransferChecked_eq_ok hexec.programs).mpr
      ⟨pre, ix, post, heq, hpre, hdeposit.1, hdecode⟩
    exact ⟨t, ⟨hparsed, hdest, hmint, hdecimals, by omega⟩, hamount⟩

end Accepted

/-! ## The recorded row -/

/-- A stored row of the signature was recorded from this message. -/
def StoredFrom (cfg : WatcherConfig) (msg : Message) (signature : String) (db : Db) : Prop :=
  ∀ p, storedPayment db signature = some p → ∃ t, Accepts cfg msg t ∧ p.amount = t.amount

/-- `ProcessSignature` succeeds and leaves a row of the signature with the amount. -/
def Records (cfg : WatcherConfig) (refs : References) (db : Db) (signature : String)
    (commitment : Commitment) (answer : RpcAnswer) (uuid : UUID) (now : Time) (amount : Nat) :
    Prop :=
  ∃ db', processSignature cfg refs db signature commitment answer uuid now = .ok db' ∧
    ∃ p, storedPayment db' signature = some p ∧ p.amount = amount

/-- One call of `ProcessSignature`: the references of that time, what the node answers and what the
database assigns. -/
structure Look where
  refs : References
  signature : String
  commitment : Commitment
  answer : RpcAnswer
  uuid : UUID
  now : Time

/-- The calls of the loops one after another; errors are logged. -/
def processAll (cfg : WatcherConfig) (db : Db) (looks : List Look) : Db :=
  looks.foldl (fun db l =>
    match processSignature cfg l.refs db l.signature l.commitment l.answer l.uuid l.now with
    | .ok db' => db'
    | .error _ => db) db

section Recording

variable {cfg : WatcherConfig} {refs : References} {db db' : Db} {signature : String}
  {commitment : Commitment} {answer : RpcAnswer} {msg : Message} {uuid : UUID} {now : Time}

/-- The row of an accepted transfer meets the constraints. -/
theorem acceptable_linkedRow (hrefs : ∀ r ∈ refs, ∃ i ∈ db.intents, i.id = r.2) {deposit : Deposit}
    (hslot : 0 ≤ deposit.slot) (hpos : 0 < deposit.transfer.amount) (message : Message)
    (now : Time) : acceptable db (linkedRow refs deposit message now) := by
  refine ⟨by simpa [linkedRow, depositRow] using hpos, hslot, ?_⟩
  intro intentID hid
  obtain ⟨pub, -, hptr⟩ := Option.bind_eq_some_iff.mp hid
  unfold intentIDPtr at hptr
  split at hptr
  · cases hptr
  · next hne =>
    cases hptr
    exact hrefs _ (mem_of_lookup hne)

/-- What a call that succeeds has done. -/
theorem processSignature_cases
    (h : processSignature cfg refs db signature commitment answer uuid now = .ok db') :
    db' = db ∨ ∃ deposit message, answer = .found deposit.slot deposit.blockTime message ∧
      Accepts cfg message deposit.transfer ∧ deposit.signature = signature ∧
      db' = recordDeposit db (linkedRow refs deposit message now) uuid now := by
  unfold processSignature at h
  split at h
  · cases h
  · cases h
    exact .inl rfl
  · next deposit message hcheck =>
    obtain ⟨hanswer, haccepts, hsignature, -⟩ := checkTransfer_eq_some.mp hcheck
    split at h
    · cases h
      exact .inr ⟨deposit, message, hanswer, haccepts, hsignature, rfl⟩
    · cases h

/-- An accepted transfer is recorded. -/
theorem processSignature_of_accepts {deposit : Deposit} (h : Accepts cfg msg deposit.transfer)
    (hslot : 0 ≤ deposit.slot) (hrefs : ∀ r ∈ refs, ∃ i ∈ db.intents, i.id = r.2)
    (hpos : 0 < deposit.transfer.amount) :
    processSignature cfg refs db deposit.signature deposit.commitment
        (.found deposit.slot deposit.blockTime msg) uuid now =
      .ok (recordDeposit db (linkedRow refs deposit msg now) uuid now) := by
  have hcheck := checkTransfer_eq_some.mpr ⟨rfl, h, rfl, rfl⟩
  have hacceptable := acceptable_linkedRow hrefs hslot hpos msg now
  simp only [processSignature, hcheck, if_pos hacceptable]

/-- After a deposit is recorded, the row of its signature has the amount of its message. -/
theorem storedPayment_recordDeposit {deposit : Deposit}
    (haccepts : Accepts cfg msg deposit.transfer)
    (hstored : StoredFrom cfg msg deposit.signature db) (message : Message) (refs : References)
    (uuid : UUID) (now : Time) :
    ∃ p, storedPayment (recordDeposit db (linkedRow refs deposit message now) uuid now)
        deposit.signature = some p ∧ p.amount = deposit.transfer.amount := by
  have hrow := storedPayment_upsert_self db (linkedRow refs deposit message now)
  rw [storedPayment, recordDeposit_payments]
  refine ⟨_, hrow, ?_⟩
  cases hold : storedPayment db deposit.signature with
  | none => simp [linkedRow, depositRow, hold]
  | some old =>
    obtain ⟨t, ht, hamount⟩ := hstored old hold
    simp [linkedRow, depositRow, hold, mergePayment, hamount, ht.unique haccepts]

/-- A call keeps the row of a signature for which the node returns this message only. -/
theorem StoredFrom.processSignature {looked : String} (hstored : StoredFrom cfg msg signature db)
    (hanswer : looked = signature → ∀ slot blockTime m, answer = .found slot blockTime m → m = msg)
    (h : processSignature cfg refs db looked commitment answer uuid now = .ok db') :
    StoredFrom cfg msg signature db' := by
  rcases processSignature_cases h with rfl | ⟨deposit, message, hfound, haccepts, rfl, rfl⟩
  · exact hstored
  · intro p hp
    by_cases hsignature : deposit.signature = signature
    · have hmessage : message = msg := hanswer hsignature _ _ _ hfound
      subst hsignature hmessage
      obtain ⟨row, hrow, hamount⟩ :=
        storedPayment_recordDeposit haccepts hstored message refs uuid now
      rw [hrow] at hp
      cases hp
      exact ⟨deposit.transfer, haccepts, hamount⟩
    · rw [storedPayment, recordDeposit_payments] at hp
      exact hstored p ((storedPayment_upsert_ne hsignature).symm.trans hp)

/-- Whatever the watcher has processed, a row of a signature comes from its message. -/
theorem storedFrom_processAll (hnew : storedPayment db signature = none) (looks : List Look)
    (hanswers : ∀ l ∈ looks, l.signature = signature →
      ∀ slot blockTime m, l.answer = .found slot blockTime m → m = msg) :
    StoredFrom cfg msg signature (processAll cfg db looks) := by
  induction looks using List.reverseRecOn with
  | nil =>
    intro p hp
    rw [processAll, List.foldl_nil, hnew] at hp
    cases hp
  | append_singleton looks l ih =>
    have hbefore := ih fun l' hl' => hanswers l' (List.mem_append_left _ hl')
    have hlast := hanswers l (by simp)
    rw [processAll, List.foldl_append, List.foldl_cons, List.foldl_nil]
    split
    · next db' hok => exact hbefore.processSignature hlast hok
    · exact hbefore

/-- A row is recorded with an amount exactly if that is the amount of the accepted transfer. -/
theorem records_iff_accepts {slot : Int} {blockTime : Option Time} (hslot : 0 ≤ slot)
    (hrefs : ∀ r ∈ refs, ∃ i ∈ db.intents, i.id = r.2) (hstored : StoredFrom cfg msg signature db)
    {amount : Nat} (hpos : 0 < amount) :
    Records cfg refs db signature commitment (.found slot blockTime msg) uuid now amount ↔
      ∃ t, Accepts cfg msg t ∧ t.amount = amount := by
  constructor
  · rintro ⟨db', hok, p, hp, hamount⟩
    have hanswer : ∀ slot' blockTime' m,
        RpcAnswer.found slot blockTime msg = .found slot' blockTime' m → m = msg := by
      rintro _ _ _ ⟨⟩
      rfl
    obtain ⟨t, haccepts, heq⟩ := hstored.processSignature (fun _ => hanswer) hok p hp
    exact ⟨t, haccepts, by omega⟩
  · rintro ⟨t, haccepts, rfl⟩
    let deposit : Deposit := ⟨signature, slot, blockTime, t, commitment⟩
    have hok := @processSignature_of_accepts cfg refs db msg uuid now deposit haccepts hslot hrefs
      hpos
    exact ⟨_, hok, @storedPayment_recordDeposit cfg db msg deposit haccepts hstored msg refs uuid
      now⟩

end Recording

/-- What a transaction deposits is recorded in full exactly if its first transfer is all of it. -/
theorem records_depositSum_iff {cfg : WatcherConfig} {refs : References} {db : Db}
    {signature : String} {msg : Message} {keys : List PublicKey} {slot : Int}
    (hexec : Executed msg keys) (hpos : 0 < depositSum cfg msg keys msg.instructions)
    (hlt : depositSum cfg msg keys msg.instructions < 2 ^ 63) (hslot : 0 ≤ slot)
    (hrefs : ∀ r ∈ refs, ∃ i ∈ db.intents, i.id = r.2)
    (hstored : StoredFrom cfg msg signature db) (commitment : Commitment)
    (blockTime : Option Time) (uuid : UUID) (now : Time) :
    Records cfg refs db signature commitment (.found slot blockTime msg) uuid now
        (depositSum cfg msg keys msg.instructions) ↔
      msg.unresolvedLookups = false ∧ FirstIsWhole cfg msg keys := by
  rw [records_iff_accepts hslot hrefs hstored hpos]
  exact accepts_depositSum_iff hexec hlt

/-- A transaction with these instructions, of an account that pays a hot wallet and others. -/
def payment (instructions : List CompiledInstruction) : Message :=
  .plain [tokenProgramID, 21, 11, 12, 22, 31, 32] false instructions

/-- A transfer of the configured token to the hot wallet. -/
def toHotWallet (amount : Nat) : CompiledInstruction := ⟨0, [1, 2, 3, 4], transferData amount 6 []⟩

/-- A transfer of the configured token to another account. -/
def toOther (amount : Nat) : CompiledInstruction := ⟨0, [1, 2, 5, 4], transferData amount 6 []⟩

theorem executed_payment {instructions : List CompiledInstruction}
    (h : ∀ ix ∈ instructions, ∃ amount, ix = toHotWallet amount ∨ ix = toOther amount) :
    Executed (payment instructions) (payment instructions).accountKeys where
  resolved _ := rfl
  programs ix hix := by
    obtain ⟨amount, rfl | rfl⟩ := h ix hix <;> exact ⟨tokenProgramID, rfl⟩
  transfers ix hix _ := by
    obtain ⟨amount, rfl | rfl⟩ := h ix hix <;>
      simp [toHotWallet, toOther, transferData, payment, Message.plain]

/-- A deposit of 500 that is followed by a fee. -/
theorem records_depositSum_fee : Records ⟨12, 11, 6⟩ [] (paymentsOnly []) "sig" .confirmed
    (.found 5 none (payment [toHotWallet 500, toOther 7])) 1 0 500 := by
  have hexec : Executed (payment [toHotWallet 500, toOther 7]) _ := executed_payment (by
    simp only [List.mem_cons, List.not_mem_nil, or_false]
    grind)
  have hwhole : FirstIsWhole ⟨12, 11, 6⟩ (payment [toHotWallet 500, toOther 7])
      (payment []).accountKeys :=
    ⟨[], toHotWallet 500, [toOther 7], rfl, by simp, by decide +kernel, by decide +kernel⟩
  exact (records_depositSum_iff hexec (by decide +kernel) (by decide +kernel) (by decide) (by simp)
    (by rintro p ⟨⟩) .confirmed none 1 0).mpr ⟨rfl, hwhole⟩

/-- Of two deposits only the first is recorded, and a deposit that follows a fee is not recorded
at all. -/
theorem splitDeposits_missed :
    Executed (payment [toHotWallet 500, toHotWallet 300]) (payment []).accountKeys ∧
      depositSum ⟨12, 11, 6⟩ (payment [toHotWallet 500, toHotWallet 300])
        (payment []).accountKeys [toHotWallet 500, toHotWallet 300] = 800 ∧
      ¬ Records ⟨12, 11, 6⟩ [] (paymentsOnly []) "sig" .confirmed
        (.found 5 none (payment [toHotWallet 500, toHotWallet 300])) 1 0 800 ∧
    Executed (payment [toOther 7, toHotWallet 500]) (payment []).accountKeys ∧
      depositSum ⟨12, 11, 6⟩ (payment [toOther 7, toHotWallet 500])
        (payment []).accountKeys [toOther 7, toHotWallet 500] = 500 ∧
      ¬ Records ⟨12, 11, 6⟩ [] (paymentsOnly []) "sig" .confirmed
        (.found 5 none (payment [toOther 7, toHotWallet 500])) 1 0 500 := by
  have hsplit : Executed (payment [toHotWallet 500, toHotWallet 300]) _ := executed_payment (by
    simp only [List.mem_cons, List.not_mem_nil, or_false]
    grind)
  have hfee : Executed (payment [toOther 7, toHotWallet 500]) _ := executed_payment (by
    simp only [List.mem_cons, List.not_mem_nil, or_false]
    grind)
  refine ⟨hsplit, by decide +kernel, ?_, hfee, by decide +kernel, ?_⟩
  · rintro ⟨db', ⟨⟩, p, ⟨⟩, hamount⟩
    exact absurd hamount (by decide +kernel)
  · rintro ⟨db', ⟨⟩, p, ⟨⟩, -⟩

end Selatpay.Chain
