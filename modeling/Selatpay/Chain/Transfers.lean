import Selatpay.Chain.SplParser
import Mathlib.Tactic

/-!
# What the transfer parser finds

The parser returns the fields of the first `TransferChecked` instruction of the token
program, as the wire layout encodes them, and reports that there is none exactly when
there is none. A second version of the parser, in which an index out of range is an
outcome of its own, shows that no access leaves its bounds.
-/

namespace Selatpay.Chain

open Store

/-! ## The first transfer -/

/-- A token program instruction whose data starts with the tag of `TransferChecked`. -/
def IsTransferChecked (msg : Message) (ix : CompiledInstruction) : Prop :=
  msg.resolveProgramIDIndex ix.programIDIndex = .ok tokenProgramID ∧
    ix.data.head? = some splTransferCheckedDiscriminator

instance (msg : Message) (ix : CompiledInstruction) : Decidable (IsTransferChecked msg ix) :=
  inferInstanceAs (Decidable (_ ∧ _))

/-- The program of the instruction is among the account keys. -/
def Resolves (msg : Message) (ix : CompiledInstruction) : Prop :=
  ∃ key, msg.resolveProgramIDIndex ix.programIDIndex = .ok key

section Parsing

variable {msg : Message} {ix : CompiledInstruction}

/-- Instructions that are no `TransferChecked` are passed over. -/
theorem parseInstructions_append {pre : List CompiledInstruction}
    (h : ∀ ix ∈ pre, Resolves msg ix ∧ ¬ IsTransferChecked msg ix) (i : Nat)
    (rest : List CompiledInstruction) :
    parseInstructions msg i (pre ++ rest) = parseInstructions msg (i + pre.length) rest := by
  induction pre generalizing i with
  | nil => rfl
  | cons ix pre ih =>
    obtain ⟨⟨key, hkey⟩, hnot⟩ := h ix List.mem_cons_self
    have hrest := ih (fun j hj => h j (List.mem_cons_of_mem ix hj)) (i + 1)
    have hskip : parseInstructions msg i (ix :: (pre ++ rest)) =
        parseInstructions msg (i + 1) (pre ++ rest) := by
      rw [parseInstructions, hkey]
      by_cases hprogram : key = tokenProgramID
      · have htag : ix.data.head? ≠ some splTransferCheckedDiscriminator :=
          fun htag => hnot ⟨hprogram ▸ hkey, htag⟩
        simp [hprogram, htag]
      · simp [hprogram]
    rw [List.cons_append, hskip, hrest, List.length_cons, Nat.add_right_comm, Nat.add_assoc]

/-- A `TransferChecked` is decoded and ends the loop. -/
theorem parseInstructions_cons (h : IsTransferChecked msg ix) (i : Nat)
    (rest : List CompiledInstruction) :
    parseInstructions msg i (ix :: rest) = decodeTransferChecked msg ix := by
  rw [parseInstructions, h.1]
  simp [h.2]

/-- Instructions that all resolve either have a first `TransferChecked` or none. -/
theorem exists_first_or_none {ixs : List CompiledInstruction} (h : ∀ ix ∈ ixs, Resolves msg ix) :
    (∀ ix ∈ ixs, ¬ IsTransferChecked msg ix) ∨
      ∃ pre ix post, ixs = pre ++ ix :: post ∧ IsTransferChecked msg ix ∧
        ∀ j ∈ pre, Resolves msg j ∧ ¬ IsTransferChecked msg j := by
  induction ixs with
  | nil => exact .inl (by simp)
  | cons ix ixs ih =>
    have hix := h ix List.mem_cons_self
    by_cases hfirst : IsTransferChecked msg ix
    · exact .inr ⟨[], ix, ixs, rfl, hfirst, by simp⟩
    · rcases ih fun j hj => h j (List.mem_cons_of_mem ix hj) with hnone | hlater
      · exact .inl (List.forall_mem_cons.mpr ⟨hfirst, hnone⟩)
      · obtain ⟨pre, jx, post, rfl, hjx, hpre⟩ := hlater
        exact .inr ⟨ix :: pre, jx, post, rfl, hjx,
          List.forall_mem_cons.mpr ⟨⟨hix, hfirst⟩, hpre⟩⟩

/-- Accounts are resolved in order, up to the first that is out of range. -/
theorem resolveAccount_bind {α : Type} {keys : List PublicKey} {index : Nat}
    {f : PublicKey → Except ParseError α} {r : α} :
    (resolveAccount keys index >>= f) = .ok r ↔ ∃ key, keys[index]? = some key ∧ f key = .ok r := by
  unfold resolveAccount
  cases keys[index]? <;> simp [bind, Except.bind]

/-- What a decoded instruction holds. -/
theorem decodeTransferChecked_eq_ok {t : SPLTransfer} :
    decodeTransferChecked msg ix = .ok t ↔
      10 ≤ ix.data.length ∧ ∃ keys source mint dest authority more,
        msg.accountMetaList = .ok keys ∧
        ix.accounts = source :: mint :: dest :: authority :: more ∧
        keys[source]? = some t.source ∧ keys[mint]? = some t.mint ∧ keys[dest]? = some t.dest ∧
        keys[authority]? = some t.authority ∧
        t.amount = littleEndian ((ix.data.drop 1).take 8) ∧
        t.decimals = (ix.data.getD 9 0).toNat := by
  obtain ⟨program, accounts, data⟩ := ix
  obtain ⟨source, mint, dest, authority, amount, decimals⟩ := t
  unfold decodeTransferChecked
  by_cases hlen : data.length < 10
  · simp only [hlen, if_true, reduceCtorEq, false_iff]
    omega
  · simp only [hlen, if_false, not_lt.mp hlen, true_and]
    split
    · next s m d a more =>
      cases hmeta : msg.accountMetaList with
      | error err => simp
      | ok keys =>
        simp only [resolveAccount_bind, pure, Except.pure, Except.ok.injEq, SPLTransfer.mk.injEq]
        grind
    · next hshort =>
      simp only [reduceCtorEq, false_iff]
      rintro ⟨keys, s, m, d, a, more, -, heq, -⟩
      exact hshort s m d a more heq

theorem resolveAccount_bind_ne {α : Type} {keys : List PublicKey} {index : Nat}
    {f : PublicKey → Except ParseError α} (h : ∀ key, f key ≠ .error .noSPLTransfer) :
    (resolveAccount keys index >>= f) ≠ .error .noSPLTransfer := by
  unfold resolveAccount
  cases keys[index]? with
  | none => simp [bind, Except.bind]
  | some key => exact h key

/-- Decoding never reports that there is no transfer. -/
theorem decodeTransferChecked_ne_noSPLTransfer (msg : Message) (ix : CompiledInstruction) :
    decodeTransferChecked msg ix ≠ .error .noSPLTransfer := by
  unfold decodeTransferChecked
  split
  · simp
  split
  · split
    · simp
    · apply resolveAccount_bind_ne
      intro source
      apply resolveAccount_bind_ne
      intro mint
      apply resolveAccount_bind_ne
      intro dest
      apply resolveAccount_bind_ne
      intro authority
      simp [pure, Except.pure]
  · simp

/-- The message has no transfer to report exactly if no instruction is a `TransferChecked`. -/
theorem parseSPLTransferChecked_eq_none (h : ∀ ix ∈ msg.instructions, Resolves msg ix) :
    parseSPLTransferChecked msg = .error .noSPLTransfer ↔
      ∀ ix ∈ msg.instructions, ¬ IsTransferChecked msg ix := by
  unfold parseSPLTransferChecked
  rcases exists_first_or_none h with hnone | ⟨pre, ix, post, heq, hix, hpre⟩
  · have hparse := parseInstructions_append (fun ix hix => ⟨h ix hix, hnone ix hix⟩) 0 []
    rw [List.append_nil] at hparse
    rw [hparse]
    exact ⟨fun _ => hnone, fun _ => rfl⟩
  · rw [heq, parseInstructions_append hpre, parseInstructions_cons hix]
    refine ⟨fun hnone => absurd hnone (decodeTransferChecked_ne_noSPLTransfer msg ix),
      fun hnone => absurd hix (hnone ix (by simp))⟩

/-- The message is read as a transfer if that is what its first `TransferChecked` decodes to. -/
theorem parseSPLTransferChecked_eq_ok (h : ∀ ix ∈ msg.instructions, Resolves msg ix)
    {t : SPLTransfer} :
    parseSPLTransferChecked msg = .ok t ↔ ∃ pre ix post, msg.instructions = pre ++ ix :: post ∧
      (∀ j ∈ pre, ¬ IsTransferChecked msg j) ∧ IsTransferChecked msg ix ∧
        decodeTransferChecked msg ix = .ok t := by
  have hparse : ∀ {pre ix post}, msg.instructions = pre ++ ix :: post →
      (∀ j ∈ pre, ¬ IsTransferChecked msg j) → IsTransferChecked msg ix →
        parseSPLTransferChecked msg = decodeTransferChecked msg ix := by
    intro pre ix post heq hpre hix
    have hskipped : ∀ j ∈ pre, Resolves msg j ∧ ¬ IsTransferChecked msg j :=
      fun j hj => ⟨h j (by simp [heq, hj]), hpre j hj⟩
    rw [parseSPLTransferChecked, heq, parseInstructions_append hskipped,
      parseInstructions_cons hix]
  constructor
  · intro hok
    rcases exists_first_or_none h with hnone | ⟨pre, ix, post, heq, hix, hpre⟩
    · rw [(parseSPLTransferChecked_eq_none h).mpr hnone] at hok
      cases hok
    · have hothers : ∀ j ∈ pre, ¬ IsTransferChecked msg j := fun j hj => (hpre j hj).2
      exact ⟨pre, ix, post, heq, hothers, hix, (hparse heq hothers hix).symm.trans hok⟩
  · rintro ⟨pre, ix, post, heq, hpre, hix, hdecode⟩
    exact (hparse heq hpre hix).trans hdecode

end Parsing

/-! ## The wire layout -/

/-- The bytes of a number, the least significant first. -/
def leBytes : Nat → Nat → List UInt8
  | 0, _ => []
  | width + 1, n => UInt8.ofNat (n % 256) :: leBytes width (n / 256)

@[simp] theorem length_leBytes (width n : Nat) : (leBytes width n).length = width := by
  induction width generalizing n with
  | zero => rfl
  | succ width ih => rw [leBytes, List.length_cons, ih]

theorem littleEndian_leBytes {width n : Nat} (h : n < 256 ^ width) :
    littleEndian (leBytes width n) = n := by
  induction width generalizing n with
  | zero =>
    rw [pow_zero] at h
    rw [leBytes, littleEndian]
    omega
  | succ width ih =>
    have hdiv : n / 256 < 256 ^ width := by
      rw [Nat.div_lt_iff_lt_mul (by norm_num)]
      rwa [pow_succ] at h
    rw [leBytes, littleEndian, ih hdiv, UInt8.toNat_ofNat']
    omega

/-- The data of a `TransferChecked`. -/
def transferData (amount : Nat) (decimals : UInt8) (trailing : List UInt8) : List UInt8 :=
  splTransferCheckedDiscriminator :: (leBytes 8 amount ++ decimals :: trailing)

/-- The amount and the decimals are where the parser reads them. -/
theorem transferData_fields {amount : Nat} (h : amount < 2 ^ 64) (decimals : UInt8)
    (trailing : List UInt8) :
    10 ≤ (transferData amount decimals trailing).length ∧
      littleEndian (((transferData amount decimals trailing).drop 1).take 8) = amount ∧
      (transferData amount decimals trailing).getD 9 0 = decimals := by
  have hlength := length_leBytes 8 amount
  refine ⟨?_, ?_, ?_⟩
  · simp only [transferData, List.length_cons, List.length_append, hlength]
    omega
  · rw [transferData, List.drop_one, List.tail_cons, List.take_left' hlength,
      littleEndian_leBytes (by norm_num; omega)]
  · simp [transferData, hlength]

/-! ## Accesses -/

/-- A computation with the accesses of the source: one out of range ends it without a result,
and an error is one of its results. -/
abbrev Checked := ExceptT ParseError Option

/-- An index expression. -/
def index {α : Type} (l : List α) (i : Nat) : Checked α := ExceptT.lift l[i]?

/-- A slice expression. -/
def slice {α : Type} (l : List α) (low high : Nat) : Checked (List α) :=
  ExceptT.lift (if low ≤ high ∧ high ≤ l.length then some ((l.take high).drop low) else none)

/-- `binary.LittleEndian.Uint64`. -/
def uint64 (b : List UInt8) : Checked Nat :=
  ExceptT.lift (if 8 ≤ b.length then some (littleEndian (b.take 8)) else none)

/-- The `resolve` of `decodeTransferChecked`. -/
def resolveChecked (keys : List PublicKey) (i : Nat) : Checked PublicKey :=
  if i ≥ keys.length then
    throw (.malformed ("account index " ++ toString i ++ " out of range (" ++
      toString keys.length ++ " keys)"))
  else index keys i

/-- `decodeTransferChecked` with its accesses. -/
def decodeChecked (msg : Message) (ix : CompiledInstruction) : Checked SPLTransfer := do
  if ix.data.length < 10 then
    throw (.malformed ("chain: TransferChecked data too short (" ++ toString ix.data.length ++
      " bytes)"))
  let amount ← uint64 (← slice ix.data 1 9)
  let decimals ← index ix.data 9
  if ix.accounts.length < 4 then
    throw (.malformed ("chain: TransferChecked needs ≥4 accounts, got " ++
      toString ix.accounts.length))
  match msg.accountMetaList with
  | .error err => throw (.malformed ("chain: resolve account metas: " ++ err))
  | .ok keys =>
    let source ← resolveChecked keys (← index ix.accounts 0)
    let mint ← resolveChecked keys (← index ix.accounts 1)
    let dest ← resolveChecked keys (← index ix.accounts 2)
    let authority ← resolveChecked keys (← index ix.accounts 3)
    return ⟨source, mint, dest, authority, amount, decimals.toNat⟩

/-- The loop of `ParseSPLTransferChecked` with its accesses. -/
def parseChecked (msg : Message) : Nat → List CompiledInstruction → Checked SPLTransfer
  | _, [] => throw .noSPLTransfer
  | i, ix :: rest =>
    match msg.resolveProgramIDIndex ix.programIDIndex with
    | .error err =>
      throw (.malformed ("chain: resolve program id on ix " ++ toString i ++ ": " ++ err))
    | .ok programID =>
      if programID ≠ tokenProgramID then parseChecked msg (i + 1) rest
      else if ix.data.length = 0 then parseChecked msg (i + 1) rest
      else do
        if (← index ix.data 0) ≠ splTransferCheckedDiscriminator then parseChecked msg (i + 1) rest
        else decodeChecked msg ix

/-- `ParseSPLTransferChecked` with its accesses, for a transaction that may be nil. -/
def parseTransactionChecked : Option Message → Checked SPLTransfer
  | none => throw (.malformed "chain: nil transaction")
  | some msg => parseChecked msg 0 msg.instructions

section Accesses

variable {α β : Type}

/-- A computation that ends with a result. -/
def Checked.done (r : Except ParseError α) : Checked α := ExceptT.mk (some r)

theorem Checked.done_bind (r : Except ParseError α) (f : α → Except ParseError β) :
    (Checked.done r >>= fun a => Checked.done (f a)) = Checked.done (r >>= f) := by
  cases r <;> rfl

theorem index_eq_pure {l : List α} {i : Nat} {a : α} (h : l[i]? = some a) :
    index l i = pure a := by
  rw [index, h]
  rfl

theorem resolveChecked_eq (keys : List PublicKey) (i : Nat) :
    resolveChecked keys i = Checked.done (resolveAccount keys i) := by
  unfold resolveChecked resolveAccount
  by_cases hi : i < keys.length
  · rw [if_neg (by omega), List.getElem?_eq_getElem hi, index_eq_pure (List.getElem?_eq_getElem hi)]
    rfl
  · rw [if_pos (by omega), List.getElem?_eq_none (by omega)]
    rfl

/-- The data of an instruction that is long enough is read within its bounds. -/
theorem readData {data : List UInt8} (h : 10 ≤ data.length) :
    (slice data 1 9 >>= uint64) = pure (littleEndian ((data.drop 1).take 8)) ∧
      index data 9 = pure (data.getD 9 0) := by
  have hslice : slice data 1 9 = pure ((data.drop 1).take 8) := by
    rw [slice, if_pos (by omega), List.drop_take]
    rfl
  have hlength : ((data.drop 1).take 8).length = 8 := by
    rw [List.length_take, List.length_drop]
    omega
  have hnine : data[9]? = some (data.getD 9 0) := by
    rw [List.getD_eq_getElem?_getD, List.getElem?_eq_getElem (by omega)]
    rfl
  refine ⟨?_, index_eq_pure hnine⟩
  rw [hslice, pure_bind, uint64, if_pos (by omega), List.take_of_length_le (by omega)]
  rfl

/-- Decoding accesses nothing out of range. -/
theorem decodeChecked_eq (msg : Message) (ix : CompiledInstruction) :
    decodeChecked msg ix = Checked.done (decodeTransferChecked msg ix) := by
  unfold decodeChecked decodeTransferChecked
  by_cases hlen : ix.data.length < 10
  · rw [if_pos hlen, if_pos hlen]
    rfl
  · obtain ⟨hamount, hdecimals⟩ := readData (not_lt.mp hlen)
    rw [if_neg hlen, if_neg hlen]
    simp only [pure_bind, ← bind_assoc, hamount, hdecimals]
    rcases ix.accounts with _ | ⟨source, _ | ⟨mint, _ | ⟨dest, _ | ⟨authority, more⟩⟩⟩⟩
    · rfl
    · rfl
    · rfl
    · rfl
    · rw [if_neg (by simp)]
      cases msg.accountMetaList with
      | error err => rfl
      | ok keys =>
        have hzero : index (source :: mint :: dest :: authority :: more) 0 = pure source :=
          index_eq_pure rfl
        have hone : index (source :: mint :: dest :: authority :: more) 1 = pure mint :=
          index_eq_pure rfl
        have htwo : index (source :: mint :: dest :: authority :: more) 2 = pure dest :=
          index_eq_pure rfl
        have hthree : index (source :: mint :: dest :: authority :: more) 3 = pure authority :=
          index_eq_pure rfl
        simp only [hzero, hone, htwo, hthree, pure_bind, resolveChecked_eq]
        simp only [← Checked.done_bind]
        rfl

theorem parseChecked_eq (msg : Message) (i : Nat) (ixs : List CompiledInstruction) :
    parseChecked msg i ixs = Checked.done (parseInstructions msg i ixs) := by
  induction ixs generalizing i with
  | nil => rfl
  | cons ix rest ih =>
    rw [parseChecked, parseInstructions]
    cases msg.resolveProgramIDIndex ix.programIDIndex with
    | error err => rfl
    | ok programID =>
      by_cases hprogram : programID = tokenProgramID
      · cases hdata : ix.data with
        | nil => simpa [hprogram, hdata] using ih (i + 1)
        | cons b data =>
          have hindex : index (b :: data) 0 = pure b := index_eq_pure rfl
          by_cases htag : b = splTransferCheckedDiscriminator
          · subst htag
            simp [hprogram, hindex, decodeChecked_eq]
          · simp [hprogram, hindex, htag, ih]
      · simp [hprogram, ih]

/-- Parsing accesses nothing out of range, and returns what the model without accesses does. -/
theorem parseTransactionChecked_eq (tx : Option Message) :
    ∃ r, parseTransactionChecked tx = Checked.done r ∧
      ∀ msg, tx = some msg → parseSPLTransferChecked msg = r := by
  cases tx with
  | none => exact ⟨_, rfl, by simp⟩
  | some msg => exact ⟨_, parseChecked_eq msg 0 msg.instructions, by rintro _ ⟨⟩; rfl⟩

end Accesses

/-! ## The parser -/

/-- The message carries a transfer: some instructions that are no `TransferChecked`, one whose
data and first four accounts are those of the transfer, and any others. -/
structure Carries (msg : Message) (t : SPLTransfer) (pre : List CompiledInstruction)
    (ix : CompiledInstruction) (post : List CompiledInstruction) : Prop where
  instructions : msg.instructions = pre ++ ix :: post
  others : ∀ j ∈ pre, ¬ IsTransferChecked msg j
  program : msg.resolveProgramIDIndex ix.programIDIndex = .ok tokenProgramID
  amount : t.amount < 2 ^ 64
  data : ∃ decimals trailing,
    ix.data = transferData t.amount decimals trailing ∧ t.decimals = decimals.toNat
  accounts : ∃ keys source mint dest authority more, msg.accountMetaList = .ok keys ∧
    ix.accounts = source :: mint :: dest :: authority :: more ∧
    keys[source]? = some t.source ∧ keys[mint]? = some t.mint ∧ keys[dest]? = some t.dest ∧
    keys[authority]? = some t.authority

theorem Carries.parse {msg : Message} {t : SPLTransfer} {pre post : List CompiledInstruction}
    {ix : CompiledInstruction} (h : Carries msg t pre ix post)
    (hresolves : ∀ j ∈ msg.instructions, Resolves msg j) :
    parseSPLTransferChecked msg = .ok t := by
  obtain ⟨decimals, trailing, hdata, hdecimals⟩ := h.data
  obtain ⟨keys, source, mint, dest, authority, more, hkeys, haccounts, hs, hm, hd, ha⟩ := h.accounts
  obtain ⟨hlength, hamount, hnine⟩ := transferData_fields h.amount decimals trailing
  have hfirst : IsTransferChecked msg ix := ⟨h.program, by rw [hdata]; rfl⟩
  have hdecode : decodeTransferChecked msg ix = .ok t := by
    rw [decodeTransferChecked_eq_ok, hdata]
    exact ⟨hlength, keys, source, mint, dest, authority, more, hkeys, haccounts, hs, hm, hd, ha,
      hamount.symm, by rw [hnine, hdecimals]⟩
  exact (parseSPLTransferChecked_eq_ok hresolves).mpr
    ⟨pre, ix, post, h.instructions, h.others, hfirst, hdecode⟩

/-- The parser inverts the encoding of a transfer in any context, finds none only where there is
none, and makes no access out of range. -/
theorem parseSPLTransferChecked_spec {msg : Message}
    (hresolves : ∀ ix ∈ msg.instructions, Resolves msg ix) :
    (∀ t pre ix post, Carries msg t pre ix post → parseSPLTransferChecked msg = .ok t) ∧
      (parseSPLTransferChecked msg = .error .noSPLTransfer ↔
        ∀ ix ∈ msg.instructions, ¬ IsTransferChecked msg ix) ∧
      ∀ tx, ∃ r, parseTransactionChecked tx = Checked.done r ∧
        ∀ msg', tx = some msg' → parseSPLTransferChecked msg' = r :=
  ⟨fun _ _ _ _ h => h.parse hresolves, parseSPLTransferChecked_eq_none hresolves,
    parseTransactionChecked_eq⟩

/-- A memo, a transfer of five units with a reference among its accounts, and another one. -/
def memoAndTransfer : Message :=
  .plain [tokenProgramID, 1, 2, 3, 4, 5] false [⟨5, [], []⟩,
    ⟨0, [1, 2, 3, 4, 5], transferData 5 6 [7]⟩, ⟨0, [1, 2, 3, 4], transferData 9 6 []⟩]

theorem parse_memoAndTransfer :
    parseSPLTransferChecked memoAndTransfer = .ok ⟨1, 2, 3, 4, 5, 6⟩ :=
  have hresolves : ∀ ix ∈ memoAndTransfer.instructions, Resolves memoAndTransfer ix := by
    intro ix hix
    simp only [memoAndTransfer, Message.plain, List.mem_cons, List.not_mem_nil, or_false] at hix
    rcases hix with rfl | rfl | rfl
    · exact ⟨5, rfl⟩
    · exact ⟨tokenProgramID, rfl⟩
    · exact ⟨tokenProgramID, rfl⟩
  (parseSPLTransferChecked_spec hresolves).1 _ [⟨5, [], []⟩]
    ⟨0, [1, 2, 3, 4, 5], transferData 5 6 [7]⟩ [⟨0, [1, 2, 3, 4], transferData 9 6 []⟩]
    { instructions := rfl
      others := by decide +kernel
      program := rfl
      amount := by norm_num
      data := ⟨6, [7], rfl, rfl⟩
      accounts := ⟨_, 1, 2, 3, 4, [5], rfl, rfl, rfl, rfl, rfl, rfl⟩ }

end Selatpay.Chain
