import Selatpay.Core.Table
import Selatpay.Core.Int64
import Selatpay.Data.Uuid
import Selatpay.Data.Errors

/-!
# Double-entry ledger: rows and entries

The rows are those of `accounts`, `journal_entries` and `postings`; an `Entry` is
what a caller asks the ledger to post. Directions and account types of the
database are enumerations, while a caller's direction is an arbitrary text.
-/

namespace Selatpay.Ledger

/-- The type of an account fixes the direction its balance is expressed in. -/
inductive AccountType
  | asset | liability | equity | revenue | expense
  deriving DecidableEq, Repr

/-- The direction stored with a posting. -/
inductive PostingDirection
  | debit | credit
  deriving DecidableEq, Repr

/-- The direction given by a caller: any text. -/
inductive Direction
  | debit
  | credit
  | other (text : String)
  deriving DecidableEq, Repr

/-- The directions that are values of the database enumeration. -/
def Direction.toDb : Direction → Option PostingDirection
  | .debit => some .debit
  | .credit => some .credit
  | .other _ => none

/-- A stored direction as a caller writes it. -/
def PostingDirection.toGo : PostingDirection → Direction
  | .debit => .debit
  | .credit => .credit

/-- A row of `accounts`. -/
structure Account where
  id : UUID
  code : String
  type : AccountType
  currency : String
  deriving DecidableEq, Repr

/-- One line of an entry to post. -/
structure Line where
  accountID : UUID
  amount : Int
  currency : String
  direction : Direction
  deriving DecidableEq, Repr

/-- An entry to post. -/
structure Entry where
  externalRef : String
  kind : String
  description : String
  intentID : Option UUID
  lines : List Line
  deriving DecidableEq, Repr

/-- A row of `journal_entries`. -/
structure JournalEntry where
  id : UUID
  externalRef : String
  kind : String
  description : Option String
  intentID : Option UUID
  deriving DecidableEq, Repr

/-- A row of `postings`. -/
structure Posting where
  id : UUID
  journalEntryID : UUID
  accountID : UUID
  amount : Int
  currency : String
  direction : PostingDirection
  deriving DecidableEq, Repr

/-- The line a posting stores. -/
def Posting.line (p : Posting) : Line :=
  ⟨p.accountID, p.amount, p.currency, p.direction.toGo⟩

/-! ## Validation -/

/-- The sentinel errors of the ledger. -/
inductive LedgerError
  | noLines | nonPositiveAmount | unbalanced | invalidDirection | emptyCurrency
  | emptyExternalRef | emptyKind | accountNotFound | duplicateExternalRef
  deriving DecidableEq, Repr

/-- The text of each sentinel. -/
def LedgerError.text : LedgerError → String
  | .noLines => "ledger: entry must have at least one posting line"
  | .nonPositiveAmount => "ledger: posting amount must be positive"
  | .unbalanced =>
    "ledger: entry is unbalanced (sum of debits must equal sum of credits per currency)"
  | .invalidDirection => "ledger: direction must be debit or credit"
  | .emptyCurrency => "ledger: posting currency must not be empty"
  | .emptyExternalRef => "ledger: external_ref must not be empty"
  | .emptyKind => "ledger: kind must not be empty"
  | .accountNotFound => "ledger: account not found"
  | .duplicateExternalRef => "ledger: external_ref already exists"

/-- A sentinel as an error value. -/
def LedgerError.err (e : LedgerError) : GoError := .new e.text

/-- The white space characters that `strings.TrimSpace` removes. -/
def isSpace (c : Char) : Bool :=
  c ∈ ['\t', '\n', '\x0b', '\x0c', '\r', ' ', '\u0085', '\u00a0', '\u1680', '\u2028', '\u2029',
    '\u202f', '\u205f', '\u3000'] || ('\u2000' ≤ c && c ≤ '\u200a')

/-- Nothing is left of the text once it is trimmed. -/
def isBlank (s : String) : Bool := s.toList.all isSpace

/-- The running `int64` sums of the lines, one for each currency seen. -/
abbrev Sums := List (String × Int)

/-- Add to the sum of one currency, starting it at zero. -/
def Sums.bump (sums : Sums) (currency : String) (amount : Int) : Sums :=
  match sums with
  | [] => [(currency, wrap64 amount)]
  | (c, v) :: rest =>
    if c = currency then (c, wrap64 (v + amount)) :: rest
    else (c, v) :: Sums.bump rest currency amount

/-- Check the lines in order while summing them. -/
def sumLines : List Line → Sums → Except LedgerError Sums
  | [], sums => .ok sums
  | l :: rest, sums =>
    if l.amount ≤ 0 then .error .nonPositiveAmount
    else if isBlank l.currency then .error .emptyCurrency
    else match l.direction with
      | .debit => sumLines rest (sums.bump l.currency l.amount)
      | .credit => sumLines rest (sums.bump l.currency (-l.amount))
      | .other _ => .error .invalidDirection

/-- The in-process checks on an entry. -/
def validate (e : Entry) : Except LedgerError Unit :=
  if isBlank e.externalRef then .error .emptyExternalRef
  else if isBlank e.kind then .error .emptyKind
  else if e.lines = [] then .error .noLines
  else match sumLines e.lines [] with
    | .error err => .error err
    | .ok sums => if sums.any (·.2 ≠ 0) then .error .unbalanced else .ok ()

end Selatpay.Ledger
