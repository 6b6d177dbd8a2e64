import Selatpay.Ledger.Balance
import Selatpay.Saga.Steps.CreditDeposit

/-!
# Reconciliation

`Walker.Walk` compares the token balance of the hot wallet, which the node reports
as a decimal text, with the balance of `asset_hot_wallet_usdc` in the ledger.
-/

namespace Selatpay.Recon

open Store Saga

/-! ## Decimal texts -/

/-- The two ways in which `strconv.ParseInt` fails. -/
inductive NumError
  | invalidSyntax
  | outOfRange
  deriving DecidableEq, Repr

/-- The error of `strconv.ParseInt` for a text. -/
def NumError.err (e : NumError) (num : String) : GoError :=
  .new ("strconv.ParseInt: parsing \"" ++ num ++ "\": " ++ match e with
    | .invalidSyntax => "invalid syntax"
    | .outOfRange => "value out of range")

/-- The digit loop of `strconv.ParseUint` in base ten and 64 bits. -/
def parseDigits : Nat → List Char → Except NumError Nat
  | n, [] => .ok n
  | n, c :: rest =>
    if c.isDigit then
      let n₁ := n * 10 + (c.toNat - '0'.toNat)
      if n₁ > 2 ^ 64 - 1 then .error .outOfRange else parseDigits n₁ rest
    else .error .invalidSyntax

/-- `strconv.ParseInt(s, 10, 64)`. -/
def parseInt (s : String) : Except NumError Int :=
  let (neg, digits) := match s.toList with
    | '+' :: rest => (false, rest)
    | '-' :: rest => (true, rest)
    | digits => (false, digits)
  if digits = [] then .error .invalidSyntax
  else match parseDigits 0 digits with
    | .error e => .error e
    | .ok un =>
      if neg = false ∧ un ≥ 2 ^ 63 then .error .outOfRange
      else if neg = true ∧ un > 2 ^ 63 then .error .outOfRange
      else .ok (if neg then -un else un)

/-- A text that is read is read as a 64-bit integer. -/
theorem isInt64_of_parseInt {s : String} {n : Int} (h : parseInt s = .ok n) : IsInt64 n := by
  unfold parseInt at h
  split at h
  rename_i neg digits hsplit
  split at h
  · cases h
  · split at h
    · cases h
    · split at h
      · cases h
      · split at h
        · cases h
        · cases h
          unfold IsInt64
          cases neg <;> simp_all
          omega

/-! ## The walk -/

/-- What the node answers for the token balance of an account. -/
inductive BalanceAnswer
  | error (msg : String)
  | empty
  | value (amount : String)
  deriving DecidableEq, Repr

/-- The outcome of a reconciliation. -/
inductive Status
  | ok
  | diverged
  deriving DecidableEq, Repr

/-- One reconciliation pass. -/
structure Report where
  hotWalletATA : PublicKey
  mint : PublicKey
  onChainAmount : Int
  ledgerAmount : Int
  difference : Int
  status : Status
  generatedAt : Time
  deriving DecidableEq, Repr

/-- What a walker is configured with. -/
structure Walker where
  hotWalletATA : PublicKey
  mint : PublicKey
  deriving DecidableEq, Repr

/-- `fetchOnChainBalance`. -/
def fetchOnChainBalance : BalanceAnswer → Except GoError Int
  | .error msg => .error (.new msg)
  | .empty => .error (.new "empty response")
  | .value amount => match parseInt amount with
    | .error e => .error (e.err amount)
    | .ok n => .ok n

/-- The query `AccountBalanceByCode`, which casts the sum to `BIGINT`. -/
def accountBalanceByCode (db : Ledger.Tables) (code currency : String) :
    Except DbError Ledger.Balance :=
  match Table.find (fun a => (a.code, a.currency)) db.accounts (code, currency) with
  | none => .error .noRows
  | some a =>
    let balance := Ledger.postedTo db.postings a
    if IsInt64 balance then .ok ⟨a.id, a.code, a.type, a.currency, balance⟩
    else .error (.failed "bigint out of range")

/-- `Walker.Walk`. -/
def Walker.walk (w : Walker) (answer : BalanceAnswer) (db : Ledger.Tables) (now : Time) :
    Except GoError Report :=
  match fetchOnChainBalance answer with
  | .error e => .error (.wrap "recon: fetch on-chain" e)
  | .ok onChain => match accountBalanceByCode db accountHotWalletUSDC currencyUSDC with
    | .error e => .error (.wrap "recon: ledger balance" (.db e))
    | .ok row =>
      let difference := wrap64 (onChain - row.amount)
      .ok ⟨w.hotWalletATA, w.mint, onChain, row.amount, difference,
        if difference = 0 then .ok else .diverged, now⟩

/-- A walk over a balance that is in range and not above the one on chain reports by how much it
falls short. -/
theorem Walker.walk_eq (w : Walker) {text : String} {onChain : Int} {db : Ledger.Tables}
    {now : Time} {a : Ledger.Account} (htext : parseInt text = .ok onChain)
    (ha : Table.find (fun a => (a.code, a.currency)) db.accounts
      (accountHotWalletUSDC, currencyUSDC) = some a)
    (hnonneg : 0 ≤ Ledger.postedTo db.postings a) (hle : Ledger.postedTo db.postings a ≤ onChain) :
    w.walk (.value text) db now = .ok ⟨w.hotWalletATA, w.mint, onChain,
      Ledger.postedTo db.postings a, onChain - Ledger.postedTo db.postings a,
      if onChain - Ledger.postedTo db.postings a = 0 then .ok else .diverged, now⟩ := by
  have hrange := isInt64_of_parseInt htext
  have hbalance : IsInt64 (Ledger.postedTo db.postings a) := by
    unfold IsInt64 at hrange ⊢
    omega
  have hdifference : IsInt64 (onChain - Ledger.postedTo db.postings a) := by
    unfold IsInt64 at hrange ⊢
    omega
  simp [Walker.walk, fetchOnChainBalance, htext, accountBalanceByCode, ha, hbalance,
    wrap64_of_isInt64 hdifference]

end Selatpay.Recon
