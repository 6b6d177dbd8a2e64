import Selatpay.Store.Schema

/-!
# Parsing SPL transfers

A transaction message is its account keys and its instructions, and what solana-go
answers about them. The parser takes the first `TransferChecked` instruction of the
token program; references are found among all account keys, whichever instruction
names them.
-/

namespace Selatpay.Chain

open Store

/-- An instruction of a message. -/
structure CompiledInstruction where
  programIDIndex : Nat
  accounts : List Nat
  data : List UInt8
  deriving DecidableEq, Repr

/-- A transaction message, with what solana-go answers about it. -/
structure Message where
  accountKeys : List PublicKey
  /-- The message names address tables that were not loaded. -/
  unresolvedLookups : Bool
  instructions : List CompiledInstruction
  /-- `Message.AccountMetaList`, of which only the keys are read. -/
  accountMetaList : Except String (List PublicKey)
  /-- `Message.ResolveProgramIDIndex`. -/
  resolveProgramIDIndex : Nat → Except String PublicKey
  accountMetaList_eq_ok : ∀ keys, accountMetaList = .ok keys ↔
    unresolvedLookups = false ∧ keys = accountKeys
  resolveProgramIDIndex_eq_ok : ∀ index key, resolveProgramIDIndex index = .ok key ↔
    accountKeys[index]? = some key

/-- A message with one text for every error of solana-go. -/
def Message.plain (accountKeys : List PublicKey) (unresolvedLookups : Bool)
    (instructions : List CompiledInstruction) : Message where
  accountKeys := accountKeys
  unresolvedLookups := unresolvedLookups
  instructions := instructions
  accountMetaList := if unresolvedLookups then .error "unresolved" else .ok accountKeys
  resolveProgramIDIndex index := accountKeys[index]?.elim (.error "not found") .ok
  accountMetaList_eq_ok keys := by cases unresolvedLookups <;> simp [eq_comm]
  resolveProgramIDIndex_eq_ok index key := by cases accountKeys[index]? <;> simp

/-- The fields of a `TransferChecked` instruction. -/
structure SPLTransfer where
  source : PublicKey
  mint : PublicKey
  dest : PublicKey
  authority : PublicKey
  amount : Nat
  decimals : Nat
  deriving DecidableEq, Repr

/-- Why a message has no transfer. -/
inductive ParseError
  /-- `ErrNoSPLTransfer`, a benign skip. -/
  | noSPLTransfer
  /-- Malformed data. -/
  | malformed (msg : String)
  deriving DecidableEq, Repr

/-- `splTransferCheckedDiscriminator`. -/
def splTransferCheckedDiscriminator : UInt8 := 12

/-- `solana.TokenProgramID`. -/
def tokenProgramID : PublicKey :=
  0x06ddf6e1d765a193d9cbe146ceeb79ac1cb485ed5f5b37913a8cf5857eff00a9

/-- A little-endian number. -/
def littleEndian : List UInt8 → Nat
  | [] => 0
  | b :: bs => b.toNat + 256 * littleEndian bs

/-- Resolve an account of an instruction. -/
def resolveAccount (keys : List PublicKey) (index : Nat) : Except ParseError PublicKey :=
  match keys[index]? with
  | some key => .ok key
  | none => .error (.malformed ("account index " ++ toString index ++ " out of range (" ++
      toString keys.length ++ " keys)"))

/-- Decode the data and the four accounts of a `TransferChecked` instruction. -/
def decodeTransferChecked (msg : Message) (ix : CompiledInstruction) :
    Except ParseError SPLTransfer :=
  if ix.data.length < 10 then
    .error (.malformed ("chain: TransferChecked data too short (" ++ toString ix.data.length ++
      " bytes)"))
  else match ix.accounts with
    | source :: mint :: dest :: authority :: _ =>
      match msg.accountMetaList with
      | .error err => .error (.malformed ("chain: resolve account metas: " ++ err))
      | .ok keys => do
        let source ← resolveAccount keys source
        let mint ← resolveAccount keys mint
        let dest ← resolveAccount keys dest
        let authority ← resolveAccount keys authority
        return ⟨source, mint, dest, authority, littleEndian ((ix.data.drop 1).take 8),
          (ix.data.getD 9 0).toNat⟩
    | _ => .error (.malformed ("chain: TransferChecked needs ≥4 accounts, got " ++
        toString ix.accounts.length))

/-- The loop of `ParseSPLTransferChecked` from instruction `i` on. -/
def parseInstructions (msg : Message) : Nat → List CompiledInstruction →
    Except ParseError SPLTransfer
  | _, [] => .error .noSPLTransfer
  | i, ix :: rest =>
    match msg.resolveProgramIDIndex ix.programIDIndex with
    | .error err =>
      .error (.malformed ("chain: resolve program id on ix " ++ toString i ++ ": " ++ err))
    | .ok programID =>
      if programID ≠ tokenProgramID then parseInstructions msg (i + 1) rest
      else if ix.data.head? ≠ some splTransferCheckedDiscriminator then
        parseInstructions msg (i + 1) rest
      else decodeTransferChecked msg ix

/-- The first `TransferChecked` instruction of a message. -/
def parseSPLTransferChecked (msg : Message) : Except ParseError SPLTransfer :=
  parseInstructions msg 0 msg.instructions

/-- The loop of `ReferencesIn`: known keys in order, each once. -/
def referencesLoop (known : List PublicKey) : List PublicKey → List PublicKey → List PublicKey
  | _, [] => []
  | seen, key :: keys =>
    if key ∉ known then referencesLoop known seen keys
    else if key ∈ seen then referencesLoop known seen keys
    else key :: referencesLoop known (key :: seen) keys

/-- The known references among the account keys of a message. -/
def referencesIn (msg : Message) (known : List PublicKey) : List PublicKey :=
  match msg.accountMetaList with
  | .error _ => []
  | .ok keys => referencesLoop known [] keys

end Selatpay.Chain
