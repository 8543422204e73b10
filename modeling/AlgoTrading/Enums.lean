import Mathlib.Data.Int.Notation
import Mathlib.Tactic.Common
/-!
# Enums — the vocabulary of orders

The enumerations of `domain/enums.py` that the modelled code reads, with the properties defined on them, and the
`purpose` vocabulary of `execution/idempotency.py`.
-/
namespace Atp

/-- How the platform is executing. -/
inductive RunMode
  | backtest
  | paper
  | live
deriving DecidableEq, Repr

inductive Side
  | buy
  | sell
deriving DecidableEq, Repr

/-- +1 for a buy and -1 for a sell. -/
def Side.sign : Side → ℤ
  | .buy => 1
  | .sell => -1

def Side.value : Side → String
  | .buy => "buy"
  | .sell => "sell"

def Side.opposite : Side → Side
  | .buy => .sell
  | .sell => .buy

inductive OrderType
  | market
  | limit
  | stop
  | stopLimit
  | trailingStop
deriving DecidableEq, Repr

inductive TimeInForce
  | day
  | gtc
  | ioc
  | fok
  | opg
  | cls
deriving DecidableEq, Repr

inductive OrderStatus
  | pendingRisk
  | rejectedRisk
  | pendingSubmit
  | submitted
  | partiallyFilled
  | filled
  | cancelled
  | rejected
  | expired
deriving DecidableEq, Repr

/-- The status as the source spells it, which is how its messages quote it. -/
def OrderStatus.value : OrderStatus → String
  | .pendingRisk => "pending_risk"
  | .rejectedRisk => "rejected_risk"
  | .pendingSubmit => "pending_submit"
  | .submitted => "submitted"
  | .partiallyFilled => "partially_filled"
  | .filled => "filled"
  | .cancelled => "cancelled"
  | .rejected => "rejected"
  | .expired => "expired"

def OrderStatus.isTerminal : OrderStatus → Bool
  | .rejectedRisk | .filled | .cancelled | .rejected | .expired => true
  | _ => false

/-- Still working at the venue. -/
def OrderStatus.isOpen : OrderStatus → Bool
  | .submitted | .partiallyFilled => true
  | _ => false

inductive SignalAction
  | enterLong
  | enterShort
  | exit
  | scaleIn
  | scaleOut
  | hold
deriving DecidableEq, Repr

inductive StopType
  | fixedPct
  | fixedAmount
  | trailingPct
  | atr
  | time
  | chandelier
deriving DecidableEq, Repr

/-- What an order is for. -/
inductive Purpose
  | entry
  | exit
  | flatten
  | manual
  | stopLoss
  | takeProfit
  | timeExit
  | unknownPurpose
deriving DecidableEq, Repr

def Purpose.value : Purpose → String
  | .entry => "entry"
  | .exit => "exit"
  | .flatten => "flatten"
  | .manual => "manual"
  | .stopLoss => "stop_loss"
  | .takeProfit => "take_profit"
  | .timeExit => "time_exit"
  | .unknownPurpose => "unknown"

def SignalAction.value : SignalAction → String
  | .enterLong => "enter_long"
  | .enterShort => "enter_short"
  | .exit => "exit"
  | .scaleIn => "scale_in"
  | .scaleOut => "scale_out"
  | .hold => "hold"

@[simp] theorem Side.opposite_opposite (s : Side) : s.opposite.opposite = s := by
  cases s <;> rfl

end Atp
