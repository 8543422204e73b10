import AlgoTrading.Order
import AlgoTrading.Raising
/-!
# State — the order state machine

`execution/state.py`.  `transitions` is the table `TRANSITIONS`, and `transition` the one place a status that came from
outside the order is assigned.  `transition` assigns nothing before `assert_transition` has passed, so a raise leaves
the order as it was: `exec_transition` says everything one call can do, and later modules read a call through it.
-/
namespace Atp
namespace State

open Raising

/-- `TRANSITIONS`: the legal moves out of each status. -/
def transitions : OrderStatus → List OrderStatus
  | .pendingRisk => [.pendingSubmit, .rejectedRisk]
  | .pendingSubmit => [.submitted, .rejected, .cancelled]
  | .submitted => [.partiallyFilled, .filled, .cancelled, .rejected, .expired]
  | .partiallyFilled => [.partiallyFilled, .filled, .cancelled, .expired]
  | .filled | .cancelled | .rejected | .rejectedRisk | .expired => []

def canTransition (current target : OrderStatus) : Bool := (transitions current).contains target

/-- `InvalidStateTransitionError(from_status, to_status)`. -/
def invalidTransition (current target : OrderStatus) : Exc :=
  ⟨.invalidStateTransitionError,
    [.lit "illegal order transition ", .lit current.value, .lit " → ", .lit target.value]⟩

def assertTransition (current target : OrderStatus) : Prog Order Exc Unit := do
  if !canTransition current target then
    throw (invalidTransition current target)

/-- An event out of order for an already terminal order. -/
def isStaleEvent (current incoming : OrderStatus) : Bool := current.isTerminal && incoming != current

/-- The writes of a legal move: the status, and the fields that belong to the move. -/
def moved (o : Order) (target : OrderStatus) (at' : Option ℤ) (reason rejectedBy : Option String) : Order :=
  let refused := target == .rejected || target == .rejectedRisk
  { o with
    status := target
    submittedAt := if target == .submitted && at'.isSome then at' else o.submittedAt
    rejectReason := if refused && reason.isSome then reason else o.rejectReason
    rejectedBy := if refused && rejectedBy.isSome then rejectedBy else o.rejectedBy }

/-- **`transition`**: true if the order moved, false if the event was a repeat or stale. -/
def transition (target : OrderStatus) (at' : Option ℤ) (reason rejectedBy : Option String) : Prog Order Exc Bool := do
  let order ← get
  let current := order.status
  if current = target then
    return false
  if isStaleEvent current target then
    return false
  assertTransition current target
  set (moved order target at' reason rejectedBy)
  return true

/-- **One `transition`, as a decision**: ignore a repeat, discard a stale event, refuse, or move. -/
theorem exec_transition (o : Order) (t : OrderStatus) (a : Option ℤ) (r b : Option String) :
    exec (transition t a r b) o =
      if o.status = t then (.ok false, o)
      else if o.status.isTerminal then (.ok false, o)
      else if canTransition o.status t then (.ok true, moved o t a r b)
      else (.error (invalidTransition o.status t), o) := by
  by_cases hsame : o.status = t
  · simp [transition, exec_bind, hsame]
  have hne : ¬ t = o.status := fun h => hsame h.symm
  cases hterm : o.status.isTerminal with
  | true => simp [transition, exec_bind, hsame, isStaleEvent, hterm, hne]
  | false =>
    cases hcan : canTransition o.status t <;>
      simp [transition, assertTransition, exec_bind, hsame, isStaleEvent, hterm, hcan]

/-! ## What a move leaves alone -/

section moved
variable (o : Order) (t : OrderStatus) (a : Option ℤ) (r b : Option String)

@[simp] theorem moved_status : (moved o t a r b).status = t := rfl
@[simp] theorem moved_fills : (moved o t a r b).fills = o.fills := rfl
@[simp] theorem moved_filledQty : (moved o t a r b).filledQty = o.filledQty := rfl
@[simp] theorem moved_avg : (moved o t a r b).avgFillPrice = o.avgFillPrice := rfl
@[simp] theorem moved_qty : (moved o t a r b).qty = o.qty := rfl
@[simp] theorem moved_clientOrderId : (moved o t a r b).clientOrderId = o.clientOrderId := rfl
@[simp] theorem moved_brokerOrderId : (moved o t a r b).brokerOrderId = o.brokerOrderId := rfl
@[simp] theorem moved_id : (moved o t a r b).id = o.id := rfl
@[simp] theorem moved_symbol : (moved o t a r b).symbol = o.symbol := rfl
@[simp] theorem moved_side : (moved o t a r b).side = o.side := rfl

end moved

end State
end Atp
