import Selatpay.Api.Handlers
import Selatpay.Chain.FullAmount
import Selatpay.Chain.References
import Selatpay.Settlement.Polling

/-!
# The payer tool

The tool reads the URL of an intent, builds a transaction that creates the payer's token
account if needed and transfers the amount, and names the reference among the accounts of
the transfer. It pays the recipient of the URL itself, which is the hot wallet, while the
watcher looks for transfers to the associated token account of the hot wallet.
-/

namespace Selatpay.Pay

open Store NetUrl SolanaPay Chain

/-! ## Reading the URL -/

/-- `solanaPayURL`. -/
structure SolanaPayURL where
  recipient : PublicKey
  splMint : PublicKey
  amountRaw : Nat
  decimals : UInt8
  references : List PublicKey
  label : Text
  message : Text
  deriving DecidableEq, Repr

/-- The errors of `parseSolanaPay`. -/
inductive ReadError
  | parse (err : NetUrl.ParseError)
  | scheme (got : Text)
  | recipient (err : Text)
  | missingSplToken
  | splToken (err : Text)
  | missingAmount
  | amount (err : RawError)
  | reference (err : Text)
  deriving DecidableEq, Repr

/-- The text of each error, over `%q`. -/
def ReadError.text (quote : Text → Text) : ReadError → Text
  | .parse err => err.text quote
  | .scheme got => Selatpay.text "expected scheme solana, got " ++ quote got
  | .recipient err => Selatpay.text "recipient: " ++ err
  | .missingSplToken => Selatpay.text "missing spl-token"
  | .splToken err => Selatpay.text "spl-token: " ++ err
  | .missingAmount => Selatpay.text "missing amount"
  | .amount err => Selatpay.text "amount: " ++ err.message quote
  | .reference err => Selatpay.text "reference: " ++ err

/-- The parts of the standard library the tool reads URLs and numbers with, where they are left
open. -/
structure Library where
  /-- The check of an authority and a path. -/
  hierarchical : Text → Text → Except Text Unit
  /-- The host and the path of a URL. -/
  location : Text → Text × Text
  /-- `Rat.SetString` of a text that is no plain decimal. -/
  other : Text → Option ℚ

/-- `strings.TrimPrefix` of two slashes. -/
def trimSlashes (s : Text) : Text :=
  if (text "//").isPrefixOf s then s.drop 2 else s

/-- The text of the recipient: the opaque part, or else the host, or else the path. -/
def recipientText (lib : Library) (raw : Text) (u : URL) : Text :=
  let rec₀ := trimSlashes u.opaquePart
  let rec₁ := if rec₀ = [] then (lib.location raw).1 else rec₀
  if rec₁ = [] then (lib.location raw).2 else rec₁

/-- The decimals the tool assumes of every token. -/
def payDecimals : UInt8 := 6

/-- `parseSolanaPay`. -/
def parseSolanaPay (keys : KeyCodec) (lib : Library) (raw : Text) : Except ReadError SolanaPayURL :=
  match NetUrl.parse lib.hierarchical raw with
  | .error err => .error (.parse err)
  | .ok u =>
    if u.scheme ≠ text "solana" then .error (.scheme u.scheme)
    else match keys.publicKeyFromBase58 (recipientText lib raw u) with
      | .error err => .error (.recipient err)
      | .ok recipient =>
        let q := parseQuery u.rawQuery
        if q.get Param.splToken.name = [] then .error .missingSplToken
        else match keys.publicKeyFromBase58 (q.get Param.splToken.name) with
          | .error err => .error (.splToken err)
          | .ok splMint =>
            if q.get Param.amount.name = [] then .error .missingAmount
            else match decimalToRaw lib.other (q.get Param.amount.name) payDecimals.toNat with
              | .error err => .error (.amount err)
              | .ok amountRaw =>
                match (q.values Param.reference.name).mapM keys.publicKeyFromBase58 with
                | .error err => .error (.reference err)
                | .ok references => .ok {
                    recipient, splMint, amountRaw, references
                    decimals := payDecimals
                    label := q.get Param.label.name
                    message := q.get Param.message.name }

/-! ## Building the transaction -/

/-- `solana.AccountMeta`. -/
structure AccountMeta where
  publicKey : PublicKey
  isWritable : Bool
  isSigner : Bool
  deriving DecidableEq, Repr

/-- `solana.Instruction`. -/
structure Instruction where
  programID : PublicKey
  accounts : List AccountMeta
  data : List UInt8
  deriving DecidableEq, Repr

/-- `solana.Meta` of a key that neither signs nor is written. -/
def metaOf (key : PublicKey) : AccountMeta := ⟨key, false, false⟩

/-- The keys an instruction names. -/
def Instruction.keys (ix : Instruction) : List PublicKey :=
  ix.programID :: ix.accounts.map AccountMeta.publicKey

/-- The parts of solana-go the tool builds its instructions with, and what they promise. -/
structure Builders where
  /-- `FindAssociatedTokenAddress` of a wallet and a mint. -/
  findAssociatedTokenAddress : PublicKey → PublicKey → Except Text PublicKey
  /-- `NewCreateIdempotentInstructionBuilder` with a payer, a wallet and a mint. -/
  createIdempotent : PublicKey → PublicKey → PublicKey → Instruction
  /-- `NewTransferCheckedInstructionBuilder` with an amount, the decimals, the source, the mint, the
  destination and the owner, and what is appended to its accounts. -/
  transferChecked : Nat → UInt8 → PublicKey → PublicKey → PublicKey → PublicKey →
    List AccountMeta → Instruction
  createIdempotent_program : ∀ payer wallet mint,
    (createIdempotent payer wallet mint).programID ≠ tokenProgramID
  transferChecked_program : ∀ amount decimals source mint dest owner more,
    (transferChecked amount decimals source mint dest owner more).programID = tokenProgramID
  transferChecked_accounts : ∀ amount decimals source mint dest owner more,
    (transferChecked amount decimals source mint dest owner more).accounts.map
      AccountMeta.publicKey = [source, mint, dest, owner] ++ more.map AccountMeta.publicKey
  transferChecked_data : ∀ amount decimals source mint dest owner more,
    (transferChecked amount decimals source mint dest owner more).data =
      transferData amount decimals []

/-- The instructions of the transaction of `run`. -/
def paymentInstructions (b : Builders) (payer : PublicKey) (pay : SolanaPayURL) :
    Except Text (List Instruction) :=
  match b.findAssociatedTokenAddress payer pay.splMint with
  | .error err => .error (text "derive source ata: " ++ err)
  | .ok srcATA => .ok [
      b.createIdempotent payer payer pay.splMint,
      b.transferChecked pay.amountRaw pay.decimals srcATA pay.splMint pay.recipient payer
        (pay.references.map metaOf)]

/-- An instruction is written in a message, with indexes for its keys. -/
structure Encodes (msg : Message) (ix : Instruction) (c : CompiledInstruction) : Prop where
  program : msg.accountKeys[c.programIDIndex]? = some ix.programID
  accounts : c.accounts.map (fun i => msg.accountKeys[i]?) =
    (ix.accounts.map AccountMeta.publicKey).map some
  data : c.data = ix.data

/-- What `solana.NewTransaction` makes of instructions: they are written in their order, and the
keys of the message are the fee payer's and those of the instructions. -/
structure Compiles (payer : PublicKey) (ixs : List Instruction) (msg : Message) : Prop where
  resolved : msg.unresolvedLookups = false
  keys : ∀ key ∈ msg.accountKeys, key = payer ∨ ∃ ix ∈ ixs, key ∈ ix.keys
  instructions : List.Forall₂ (Encodes msg) ixs msg.instructions

/-! ## What the tool reads of the URL of an intent -/

section Reading

variable (keys : KeyCodec)

/-- The text of a key does not start with slashes. -/
theorem trimSlashes_base58 (key : PublicKey) : trimSlashes (keys.base58 key) = keys.base58 key := by
  have hnot : ¬ (text "//").isPrefixOf (keys.base58 key) := by
    intro h
    obtain ⟨rest, hrest⟩ := List.isPrefixOf_iff_prefix.mp h
    have hmem : 47 ∈ keys.base58 key := by
      rw [← hrest]
      exact List.mem_append_left _ (by decide)
    exact (keys.notDelimiter_of_mem hmem).2.2.2 rfl
  rw [trimSlashes, if_neg hnot]

theorem mapM_publicKeyFromBase58 (refs : List PublicKey) :
    (refs.map keys.base58).mapM keys.publicKeyFromBase58 = .ok refs := by
  induction refs with
  | nil => rfl
  | cons ref refs ih =>
    rw [List.map_cons, List.mapM_cons, keys.publicKeyFromBase58_base58, ih]
    rfl

variable {keys}

/-- The parts of a URL that was built. -/
theorem parse_of_buildURL {p : URLParams} {url : Text} (h : buildURL keys p = .ok url)
    (hierarchical : Text → Text → Except Text Unit) : NetUrl.parse hierarchical url =
      .ok ⟨text "solana", keys.base58 p.recipient, (query keys p).encode⟩ := by
  unfold buildURL at h
  repeat' split at h
  all_goals cases h
  exact parse_string_query keys hierarchical p

/-- The tool reads the parameters the URL was built from, and the amount with six decimals. -/
theorem parseSolanaPay_of_buildURL {p : URLParams} {url : Text} (h : buildURL keys p = .ok url)
    {mint : PublicKey} (hmint : p.splToken = some mint) (hamount : p.amount ≠ []) (lib : Library) :
    parseSolanaPay keys lib url =
      match decimalToRaw lib.other p.amount payDecimals.toNat with
      | .error err => .error (.amount err)
      | .ok amountRaw => .ok ⟨p.recipient, mint, amountRaw, payDecimals, p.references, p.label,
          p.message⟩ := by
  have hrecipient : recipientText lib url
      ⟨text "solana", keys.base58 p.recipient, (query keys p).encode⟩ =
        keys.base58 p.recipient := by
    simp [recipientText, trimSlashes_base58, keys.base58_ne_nil]
  have hsplToken : (query keys p).get Param.splToken.name = keys.base58 mint := by
    rw [Values.get, values_query]
    simp [hmint]
  have hrefs : ((query keys p).values Param.reference.name).mapM keys.publicKeyFromBase58 =
      .ok p.references := by
    rw [values_query]
    exact mapM_publicKeyFromBase58 keys p.references
  obtain ⟨hget, hlabel, hmessage, -⟩ := get_query keys p
  simp only [parseSolanaPay, parse_of_buildURL h, ne_eq, not_true_eq_false, if_false, hrecipient,
    keys.publicKeyFromBase58_base58, get_parseQuery_encode, values_parseQuery_encode, hsplToken,
    keys.base58_ne_nil, hget, hamount, hrefs, hlabel, hmessage]

end Reading

/-! ## What the watcher finds -/

section Paid

variable {b : Builders} {payer : PublicKey} {pay : SolanaPayURL} {ixs : List Instruction}
  {msg : Message}

theorem Compiles.accountMetaList (h : Compiles payer ixs msg) :
    msg.accountMetaList = .ok msg.accountKeys :=
  (msg.accountMetaList_eq_ok _).mpr ⟨h.resolved, rfl⟩

theorem Encodes.resolve {ix : Instruction} {c : CompiledInstruction} (h : Encodes msg ix c) :
    msg.resolveProgramIDIndex c.programIDIndex = .ok ix.programID :=
  (msg.resolveProgramIDIndex_eq_ok _ _).mpr h.program

/-- The accounts of an instruction are among the keys of the message. -/
theorem Encodes.mem_accountKeys {ix : Instruction} {c : CompiledInstruction}
    (h : Encodes msg ix c) {key : PublicKey} (hkey : key ∈ ix.accounts.map AccountMeta.publicKey) :
    key ∈ msg.accountKeys := by
  have hmem : some key ∈ c.accounts.map fun i => msg.accountKeys[i]? := by
    rw [h.accounts]
    exact List.mem_map_of_mem hkey
  obtain ⟨i, -, hi⟩ := List.mem_map.mp hmem
  exact List.mem_of_getElem? hi

/-- The instructions of the tool: one of another program, and the transfer. -/
theorem exists_of_paymentInstructions (h : paymentInstructions b payer pay = .ok ixs) :
    ∃ create transfer srcATA, ixs = [create, transfer] ∧ create.programID ≠ tokenProgramID ∧
      transfer.programID = tokenProgramID ∧
      transfer.accounts.map AccountMeta.publicKey =
        [srcATA, pay.splMint, pay.recipient, payer] ++ pay.references ∧
      transfer.data = transferData pay.amountRaw pay.decimals [] := by
  unfold paymentInstructions at h
  split at h
  · cases h
  · next srcATA hsrc =>
    cases h
    refine ⟨_, _, srcATA, rfl, b.createIdempotent_program _ _ _,
      b.transferChecked_program _ _ _ _ _ _ _, ?_, b.transferChecked_data _ _ _ _ _ _ _⟩
    rw [b.transferChecked_accounts, List.map_map]
    exact congrArg _ (List.map_id' _)

/-- The two instructions of the tool as the message has them. -/
theorem Compiles.two {create transfer : Instruction} (h : Compiles payer [create, transfer] msg) :
    ∃ c c', msg.instructions = [c, c'] ∧ Encodes msg create c ∧ Encodes msg transfer c' := by
  obtain ⟨c, rest, hcreate, hrest, heq⟩ := List.forall₂_cons_left_iff.mp h.instructions
  obtain ⟨c', rest', htransfer, hrest', heq'⟩ := List.forall₂_cons_left_iff.mp hrest
  cases List.forall₂_nil_left_iff.mp hrest'
  subst heq'
  exact ⟨c, c', heq, hcreate, htransfer⟩

/-- The transfer the watcher reads: the amount of the URL, to the recipient of the URL. -/
theorem Compiles.parse (h : Compiles payer ixs msg)
    (hixs : paymentInstructions b payer pay = .ok ixs) (hamount : pay.amountRaw < 2 ^ 64) :
    ∃ srcATA, parseSPLTransferChecked msg =
      .ok ⟨srcATA, pay.splMint, pay.recipient, payer, pay.amountRaw, pay.decimals.toNat⟩ := by
  obtain ⟨create, transfer, srcATA, rfl, hprogram, hprogram', haccounts, hdata⟩ :=
    exists_of_paymentInstructions hixs
  obtain ⟨c, c', heq, hcreate, htransfer⟩ := h.two
  have hindexes := htransfer.accounts
  rw [haccounts] at hindexes
  obtain ⟨source, _, hindex, hsource, hmore⟩ := List.map_eq_cons_iff.mp hindexes
  obtain ⟨mint, _, rfl, hmint, hmore⟩ := List.map_eq_cons_iff.mp hmore
  obtain ⟨dest, _, rfl, hdest, hmore⟩ := List.map_eq_cons_iff.mp hmore
  obtain ⟨authority, more, rfl, hauthority, -⟩ := List.map_eq_cons_iff.mp hmore
  have hnot : ¬ IsTransferChecked msg c := by
    rintro ⟨hresolved, -⟩
    rw [hcreate.resolve] at hresolved
    exact hprogram (Except.ok.inj hresolved)
  have hresolve : msg.resolveProgramIDIndex c'.programIDIndex = .ok tokenProgramID :=
    hprogram' ▸ htransfer.resolve
  have hcarries : Carries msg ⟨srcATA, pay.splMint, pay.recipient, payer, pay.amountRaw,
      pay.decimals.toNat⟩ [c] c' [] :=
    { instructions := heq
      others := by simpa using hnot
      program := hresolve
      amount := hamount
      data := ⟨pay.decimals, [], htransfer.data.trans hdata, rfl⟩
      accounts := ⟨_, source, mint, dest, authority, more, h.accountMetaList, hindex, hsource,
        hmint, hdest, hauthority⟩ }
  refine ⟨srcATA, hcarries.parse ?_⟩
  rw [heq]
  simp only [List.mem_cons, List.not_mem_nil, or_false, forall_eq_or_imp, forall_eq]
  exact ⟨⟨_, hcreate.resolve⟩, ⟨_, hresolve⟩⟩

/-- A reference of the URL is among the keys of the message. -/
theorem Compiles.reference_mem (h : Compiles payer ixs msg)
    (hixs : paymentInstructions b payer pay = .ok ixs) {ref : PublicKey}
    (href : ref ∈ pay.references) : ref ∈ msg.accountKeys := by
  obtain ⟨create, transfer, srcATA, rfl, -, -, haccounts, -⟩ := exists_of_paymentInstructions hixs
  obtain ⟨-, c', -, -, htransfer⟩ := h.two
  apply htransfer.mem_accountKeys
  rw [haccounts]
  exact List.mem_append_right _ href

/-- The keys of the message are those the instructions of the tool name. -/
theorem Compiles.mem_keys (h : Compiles payer ixs msg)
    (hixs : paymentInstructions b payer pay = .ok ixs) {key : PublicKey}
    (hkey : key ∈ msg.accountKeys) : ∃ ix ∈ ixs, key ∈ ix.keys := by
  rcases h.keys key hkey with rfl | hmem
  · -- The fee payer is the owner of the account that pays.
    obtain ⟨create, transfer, srcATA, rfl, -, -, haccounts, -⟩ := exists_of_paymentInstructions hixs
    refine ⟨transfer, by simp, List.mem_cons_of_mem _ ?_⟩
    rw [haccounts]
    simp
  · exact hmem

/-- The one known key of a message is the reference that is matched. -/
theorem head?_referencesIn {known : List PublicKey} {ref : PublicKey}
    (hkeys : msg.accountMetaList = .ok msg.accountKeys) (hmem : ref ∈ msg.accountKeys)
    (hknown : ref ∈ known) (hother : ∀ key ∈ msg.accountKeys, key ∈ known → key = ref) :
    (referencesIn msg known).head? = some ref := by
  rw [referencesIn_of_resolved hkeys, head?_referencesLoop]
  cases hfind : msg.accountKeys.find? fun key => key ∈ known ∧ key ∉ [] with
  | none => simpa [hknown] using List.find?_eq_none.mp hfind ref hmem
  | some key =>
    have hkey : key ∈ known := by simpa using List.find?_some hfind
    rw [hother key (List.mem_of_find?_eq_some hfind) hkey]

end Paid

/-! ## From the URL to the deposit -/

/-- The deposit is stored for the intent with the quoted amount, and a finalized one has started
the settlement of the intent. -/
structure Credits (db : Db) (signature : String) (commitment : Commitment)
    (i : Store.PaymentIntent) : Prop where
  stored : ∃ row, storedPayment db signature = some row ∧ row.amount = i.quotedAmountUSDC ∧
    row.intentID = some i.id ∧ row.referencePubkey = i.referencePubkey ∧
    row.commitment = commitment
  run : commitment = .finalized → ∃ r ∈ db.sagas, r.intentID = i.id

/-- A deposit of a new signature is stored as it is. -/
theorem recordDeposit_new {db : Db} {new : OnchainPayment}
    (hnew : storedPayment db new.signature = none) (uuid : UUID) (now : Time) :
    storedPayment (recordDeposit db new uuid now) new.signature = some new ∧
      ∀ intentID, Settled new intentID →
        ∃ r ∈ (recordDeposit db new uuid now).sagas, r.intentID = intentID := by
  have hrow : (upsertOnchainPayment db new).2 = new := by
    unfold storedPayment at hnew
    simp only [upsertOnchainPayment, hnew]
  constructor
  · have hself := storedPayment_upsert_self db new
    rw [hnew] at hself
    rw [storedPayment, recordDeposit_payments]
    exact hself
  · intro intentID hsettled
    exact exists_run_recordDeposit uuid now (by rwa [hrow])

section Credited

variable {h : Api.Handlers} {p : Api.PaymentIntent} {ref : PublicKey} {url : Text}

/-- What the tool reads of the URL of an intent: the hot wallet as the recipient, and the quoted
amount. -/
theorem parseSolanaPay_buildPayURL (hurl : h.buildPayURL p = .ok url)
    (href : p.referencePubkey = some ref) (hdecimals : h.usdcDecimals = 6)
    (hpos : 0 < p.quotedAmountUSDC) (hlt : p.quotedAmountUSDC < 2 ^ 63) (lib : Library) :
    ∃ label message, parseSolanaPay h.keys lib url =
      .ok ⟨h.hotWalletPubkey, h.usdcMint, p.quotedAmountUSDC.toNat, 6, [ref], label, message⟩ := by
  have hmod : (p.quotedAmountUSDC % 2 ^ 64).toNat = p.quotedAmountUSDC.toNat := by
    rw [Int.emod_eq_of_lt (by omega) (by omega)]
  obtain ⟨places, hdenoted⟩ := @denoted_formatAmount p.quotedAmountUSDC.toNat 6 (by decide)
  have hraw := decimalToRaw_of_denoted (by omega) hdenoted lib.other
  have hamount : formatAmount p.quotedAmountUSDC.toNat 6 ≠ [] := by
    intro hnil
    rw [hnil] at hdenoted
    cases hdenoted
  unfold Api.Handlers.buildPayURL at hurl
  rw [href] at hurl
  simp only [hmod, hdecimals] at hurl
  have hread := parseSolanaPay_of_buildURL hurl rfl hamount lib
  simp only [payDecimals, UInt8.reduceToNat, hraw] at hread
  exact ⟨_, _, hread⟩

end Credited

/-- Whoever pays the URL of an active intent with the tool pays the quoted amount under its
reference. A watcher with the mint of the URL, six decimals and a fresh map, which knows no other
key of the instructions, credits the payment to the intent if the hot wallet of the URL is the
watched token account, and passes over it otherwise. -/
theorem tool_payment_credited_iff {env : Settlement.Env} {s : Settlement.World}
    (hs : Settlement.Reachable env anyStep s) {h : Api.Handlers} {p : Api.PaymentIntent}
    (hp : p.toPaymentIntent ∈ s.db.intents) (hactive : p.state = .pending ∨ p.state = .funded)
    {ref : PublicKey} (href : p.referencePubkey = some ref) {url : Text}
    (hurl : h.buildPayURL p = .ok url) (hdecimals : h.usdcDecimals = 6)
    (hmint : env.watcher.mint = h.usdcMint) (hexpected : env.watcher.expectedDecimals = 6)
    (lib : Library) :
    ∃ pay, parseSolanaPay h.keys lib url = .ok pay ∧ ∀ (b : Builders) payer ixs msg,
      paymentInstructions b payer pay = .ok ixs → Compiles payer ixs msg →
      (∀ ix ∈ ixs, ∀ key ∈ ix.keys, key ∈ (refreshReferences s.db).map Prod.fst → key = ref) →
      ∀ signature commitment slot blockTime uuid now,
        storedPayment s.db signature = none → 0 ≤ slot →
        ∃ db', processSignature env.watcher (refreshReferences s.db) s.db signature commitment
            (.found slot blockTime msg) uuid now = .ok db' ∧
          (h.hotWalletPubkey = env.watcher.hotWalletATA →
            Credits db' signature commitment p.toPaymentIntent) ∧
          (h.hotWalletPubkey ≠ env.watcher.hotWalletATA → db' = s.db) := by
  have hissued := hs.issued
  obtain ⟨q, -, -, -, -, hquote⟩ := (hissued.issued _ hp).quote
  obtain ⟨hpos, hlt⟩ := Quoter.range_of_quoteAmount_eq_ok hquote
  obtain ⟨label, message, hread⟩ := parseSolanaPay_buildPayURL hurl href hdecimals hpos hlt lib
  refine ⟨_, hread, ?_⟩
  intro b payer ixs msg hixs hmsg hother signature commitment slot blockTime uuid now hnew hslot
  obtain ⟨srcATA, hparse⟩ := hmsg.parse hixs (by dsimp only; omega)
  by_cases hwallet : h.hotWalletPubkey = env.watcher.hotWalletATA
  · let deposit : Deposit := ⟨signature, slot, blockTime,
      ⟨srcATA, h.usdcMint, h.hotWalletPubkey, payer, p.quotedAmountUSDC.toNat, 6⟩, commitment⟩
    have haccepts : Accepts env.watcher msg deposit.transfer :=
      ⟨hparse, hwallet, hmint.symm, hexpected.symm, by show p.quotedAmountUSDC.toNat < _; omega⟩
    have hlookup := Settlement.lookup_refreshReferences hissued hp hactive href
    have hid : p.id ≠ 0 := (hissued.issued _ hp).id_ne
    have hknown : ref ∈ (refreshReferences s.db).map Prod.fst :=
      List.mem_map_of_mem (f := Prod.fst) (mem_of_lookup (hlookup ▸ hid))
    have honly : ∀ key ∈ msg.accountKeys,
        key ∈ (refreshReferences s.db).map Prod.fst → key = ref := by
      intro key hkey
      obtain ⟨ix, hix, hnamed⟩ := hmsg.mem_keys hixs hkey
      exact hother ix hix key hnamed
    have hhit := head?_referencesIn hmsg.accountMetaList
      (hmsg.reference_mem hixs (List.mem_singleton_self ref)) hknown honly
    have hrefs : ∀ r ∈ refreshReferences s.db, ∃ i ∈ s.db.intents, i.id = r.2 := by
      intro r hr
      obtain ⟨i, hi, hid, -⟩ := Settlement.referenceOf_refreshReferences hr
      exact ⟨i, hi, hid⟩
    have hrow : linkedRow (refreshReferences s.db) deposit msg now =
        depositRow deposit (some ref) (some p.id) now := by
      simp only [linkedRow, hhit, Option.bind_some, intentIDPtr, hlookup, if_neg hid]
    have hok := @processSignature_of_accepts env.watcher (refreshReferences s.db) s.db msg uuid now
      deposit haccepts hslot hrefs (by show 0 < p.quotedAmountUSDC.toNat; omega)
    rw [hrow] at hok
    obtain ⟨hstored, hrun⟩ := recordDeposit_new
      (show storedPayment s.db (depositRow deposit (some ref) (some p.id) now).signature = none from
        hnew) uuid now
    refine ⟨_, hok, fun _ => ⟨⟨_, hstored, ?_, rfl, href.symm, rfl⟩, fun hfinal => ?_⟩,
      fun hne => absurd hwallet hne⟩
    · exact Int.toNat_of_nonneg hpos.le
    · exact hrun p.id ⟨rfl, hfinal⟩
  · refine ⟨s.db, ?_, fun heq => absurd heq hwallet, fun _ => rfl⟩
    simp only [processSignature, checkTransfer, hparse, ne_eq, hwallet, not_false_eq_true, if_true]

/-- Handlers that ask for payments to this hot wallet. -/
def handlersOf (wallet : PublicKey) : Api.Handlers :=
  ⟨50, 900, wallet, 12, 6, "Selatpay", "", .bytes32, .error "", fun _ => .error "", fun _ => []⟩

/-- The intent over 1000 rupiah as the handlers read it. -/
def ordered : Api.PaymentIntent :=
  ⟨⟨3, 1, "order-1", 1000, 61847, 2, some 99, .pending, 0⟩, none, 0⟩

/-- Builders under which the token account of every payer is 21 and accounts are created by the
program 14. -/
def builders : Builders where
  findAssociatedTokenAddress _ _ := .ok 21
  createIdempotent payer wallet mint := ⟨14, [⟨payer, true, true⟩, metaOf wallet, metaOf mint], [1]⟩
  transferChecked amount decimals source mint dest owner more := ⟨tokenProgramID,
    [⟨source, true, false⟩, metaOf mint, ⟨dest, true, false⟩, ⟨owner, false, true⟩] ++ more,
    transferData amount decimals []⟩
  createIdempotent_program _ _ _ := show (14 : PublicKey) ≠ tokenProgramID by decide
  transferChecked_program _ _ _ _ _ _ _ := rfl
  transferChecked_accounts _ _ _ _ _ _ _ := rfl
  transferChecked_data _ _ _ _ _ _ _ := rfl

/-- The transaction of the payer 22. -/
def toolMessage (wallet : PublicKey) : Message :=
  .plain [22, 21, wallet, 12, tokenProgramID, 14, 99] false
    [⟨5, [0, 0, 3], [1]⟩, ⟨4, [1, 3, 2, 0, 6], transferData 61847 6 []⟩]

/-- Its instructions. -/
def toolInstructions (wallet : PublicKey) : List Instruction :=
  [builders.createIdempotent 22 22 12, builders.transferChecked 61847 6 21 12 wallet 22 [metaOf 99]]

theorem compiles_toolMessage (wallet : PublicKey) :
    Compiles 22 (toolInstructions wallet) (toolMessage wallet) where
  resolved := rfl
  keys := by
    simp [toolMessage, Message.plain, toolInstructions, builders, metaOf, Instruction.keys]
  instructions := .cons ⟨rfl, rfl, rfl⟩ (.cons ⟨rfl, rfl, rfl⟩ .nil)

/-- The hot wallet 11 is the watched account, the hot wallet 13 is not. -/
theorem tool_payment_credited_iff_order : ∃ s, Settlement.Reachable Settlement.smallEnv anyStep s ∧
    (∃ db', processSignature ⟨11, 12, 6⟩ (refreshReferences s.db) s.db "sig-1" .finalized
        (.found 5 none (toolMessage 11)) 4 0 = .ok db' ∧
      Credits db' "sig-1" .finalized ordered.toPaymentIntent) ∧
    processSignature ⟨11, 12, 6⟩ (refreshReferences s.db) s.db "sig-1" .finalized
      (.found 5 none (toolMessage 13)) 4 0 = .ok s.db := by
  obtain ⟨s, hs, hp, hrefs, hnew⟩ : ∃ s,
      runIf (Settlement.World.step Settlement.smallEnv) anyStep Settlement.smallWorld
        (Settlement.ordering 50) = some s ∧
      ordered.toPaymentIntent ∈ s.db.intents ∧ (refreshReferences s.db).map Prod.fst = [99] ∧
      storedPayment s.db "sig-1" = none :=
    exists_of_any (by decide +kernel)
  have hreach := Settlement.reachable_of_runIf hs
  let lib : Library := ⟨fun _ _ => .ok (), fun _ => ([], []), fun _ => none⟩
  have hpaid : ∀ wallet url, (handlersOf wallet).buildPayURL ordered = .ok url →
      ∃ db', processSignature ⟨11, 12, 6⟩ (refreshReferences s.db) s.db "sig-1" .finalized
          (.found 5 none (toolMessage wallet)) 4 0 = .ok db' ∧
        (wallet = 11 → Credits db' "sig-1" .finalized ordered.toPaymentIntent) ∧
        (wallet ≠ 11 → db' = s.db) := by
    intro wallet url hurl
    obtain ⟨label, message, hread⟩ :=
      @parseSolanaPay_buildPayURL (handlersOf wallet) ordered 99 url hurl rfl rfl (by decide)
        (by decide) lib
    obtain ⟨pay, hpay, hall⟩ := tool_payment_credited_iff hreach hp (.inl rfl) rfl hurl rfl rfl rfl
      lib
    cases hread.symm.trans hpay
    refine hall builders 22 _ _ rfl (compiles_toolMessage wallet) ?_ "sig-1" .finalized 5 none 4 0
      hnew (by decide)
    intro ix _ key _ hknown
    rw [hrefs] at hknown
    exact List.mem_singleton.mp hknown
  obtain ⟨db, hdb, hcredits, -⟩ := hpaid 11 _ rfl
  obtain ⟨db', hdb', -, hnothing⟩ := hpaid 13 _ rfl
  exact ⟨s, hreach, ⟨db, hdb, hcredits rfl⟩, hnothing (by decide) ▸ hdb'⟩

end Selatpay.Pay
