import Mathlib.Tactic

/-!
# Errors

A statement fails with a database error; a step wraps it the way the source
wraps errors. An error is terminal when a terminal mark occurs anywhere along
its chain of wrappings.
-/

namespace Selatpay

/-- What a single SQL statement can report. -/
inductive DbError
  /-- The query selected no row. -/
  | noRows
  /-- A unique constraint was violated (SQLSTATE 23505). -/
  | unique
  /-- Anything else: a raised exception, a failed check, a lost connection. -/
  | failed (msg : String)
  deriving DecidableEq, Repr

/-- Errors as the steps build them. -/
inductive GoError
  /-- `errors.New` or a sentinel. -/
  | new (msg : String)
  /-- An error returned by the database driver. -/
  | db (e : DbError)
  /-- `fmt.Errorf` with a prefix and a wrapped error. -/
  | wrap (msg : String) (err : GoError)
  /-- The mark that stops retries. -/
  | terminal (err : GoError)
  deriving DecidableEq, Repr

/-- The text of a database error. -/
def DbError.text : DbError → String
  | .noRows => "no rows in result set"
  | .unique => "duplicate key value violates unique constraint (SQLSTATE 23505)"
  | .failed msg => msg

/-- The text of an error; the terminal mark does not show. -/
def GoError.text : GoError → String
  | .new msg => msg
  | .db e => e.text
  | .wrap msg err => msg ++ ": " ++ err.text
  | .terminal err => err.text

/-- The terminal mark is found through every wrapping. -/
def isTerminal : GoError → Bool
  | .new _ => false
  | .db _ => false
  | .wrap _ err => isTerminal err
  | .terminal _ => true

end Selatpay
