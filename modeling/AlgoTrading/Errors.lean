import Mathlib.Data.Rat.Defs
/-!
# Errors — the exception hierarchy and the messages raised with it

The classes of `errors.py` that the modelled code raises or catches, plus `ValueError`, `decimal.InvalidOperation` and one
class for what a driver throws.  A message is kept as its f-string: literal pieces and the `Decimal` values and instants it
quotes, left unrendered, so that a text is the source's and no format is invented for it.
-/
namespace Atp

/-- The exception classes, by the source's names. -/
inductive ErrorClass
  | exception
  | valueError
  | atpError
  | backtestError
  | lookaheadError
  | brokerError
  | brokerConnectionError
  | orderRejectedError
  | insufficientFundsError
  | inventoryHeldError
  | executionError
  | warmupBlockedError
  | reconciliationDivergedError
  | invalidStateTransitionError
  | reconciliationError
  | dataError
  | dataGapError
  | strategyError
  | invalidRuleError
  | configError
  | invalidOperation
deriving DecidableEq, Repr

/-- The class a class derives from; `Exception` stands for its own base. -/
def ErrorClass.base : ErrorClass → ErrorClass
  | .exception | .valueError | .invalidOperation | .atpError => .exception
  | .backtestError | .brokerError | .executionError | .dataError | .strategyError | .configError => .atpError
  | .dataGapError => .dataError
  | .invalidRuleError => .strategyError
  | .lookaheadError => .backtestError
  | .brokerConnectionError | .orderRejectedError => .brokerError
  | .insufficientFundsError | .inventoryHeldError => .orderRejectedError
  | .warmupBlockedError | .invalidStateTransitionError | .reconciliationError => .executionError
  | .reconciliationDivergedError => .warmupBlockedError

/-- `except c:` catches `e`: the hierarchy is four levels deep below `Exception`. -/
def ErrorClass.isA (e c : ErrorClass) : Bool :=
  e == c || e.base == c || e.base.base == c || e.base.base.base == c || e.base.base.base.base == c

/-- One piece of an f-string. -/
inductive Piece
  | lit (s : String)
  | dec (x : ℚ)
  | ts (t : ℤ)
deriving DecidableEq

/-- A raised exception: its class and its message. -/
structure Exc where
  cls : ErrorClass
  message : List Piece
deriving DecidableEq

/-- Every class is caught by its base's handler, and by its own. -/
theorem ErrorClass.isA_base (e : ErrorClass) : e.isA e.base = true ∧ e.isA e = true := by
  cases e <;> decide

theorem ErrorClass.isA_trans (a b c : ErrorClass) (hab : a.isA b = true) (hbc : b.isA c = true) : a.isA c = true := by
  cases a <;> cases b <;> first
    | exact absurd hab (by decide)
    | cases c <;> first
      | exact absurd hbc (by decide)
      | rfl

/-- What a computation that succeeds was made of. -/
theorem ok_of_bind {ε α β : Type} {x : Except ε α} {f : α → Except ε β} {b : β} (h : x >>= f = .ok b) :
    ∃ a, x = .ok a ∧ f a = .ok b := by
  cases x with
  | error e => cases h
  | ok a => exact ⟨a, rfl, h⟩

end Atp
