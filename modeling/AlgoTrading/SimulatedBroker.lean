import Mathlib.Data.List.Basic
import AlgoTrading.Backtest
/-!
# SimulatedBroker — the in-process fill simulator

`brokers/simulated.py`.  The methods are programs over the broker's mutable fields: a raise inside `on_bar` or
`on_quote` leaves the fills booked before it.  What the source changes through a reference to an order of the open book
is written back under the order's broker id.  The clock's reading and the ids a fresh order draws are arguments.
-/
namespace Atp

/-- Top of book. -/
structure Quote where
  symbol : String
  ts : ℤ
  bid : ℚ
  ask : ℚ
  bidSize : ℚ := 0
  askSize : ℚ := 0
deriving DecidableEq

def Quote.mid (q : Quote) : ℚ := (q.bid + q.ask) / 2

/-- The broker's settings. -/
structure SimulatedBroker where
  costModel : Backtest.CostModel
  startingCash : ℚ := 100000
  latencyMs : ℤ := 50
  maxVolumeParticipation : ℚ := 1 / 10
  requireThrough : Bool := false

/-- The broker's mutable fields. -/
structure SimulatedBook where
  cash : ℚ
  positions : Dict String Position := .empty
  openOrders : Dict String Order := .empty
  filled : List Order := []
  byClientId : Dict String String := .empty
  nextId : ℕ := 0
deriving DecidableEq

namespace SimulatedBook

/-- Every order the broker knows: the open book, then the closed one. -/
def held (s : SimulatedBook) : List Order := s.openOrders.values ++ s.filled

def findOrder (s : SimulatedBook) (id : String) : Option Order :=
  (s.openOrders.get? id).or (s.filled.find? fun o => o.brokerOrderId = some id)

def position (s : SimulatedBook) (symbol : String) : Position := (s.positions.get? symbol).getD { symbol := symbol }

/-- An order of the open book after it was mutated in place. -/
def rewrite (o : Order) (s : SimulatedBook) : SimulatedBook :=
  match o.brokerOrderId with
  | none => s
  | some id => { s with openOrders := s.openOrders.set id o }

/-- `_retire`: `FILLED` is the fill accounting's to set. -/
def retire (o : Order) (status : OrderStatus) (s : SimulatedBook) : SimulatedBook :=
  { s with
    openOrders := match o.brokerOrderId with
      | none => s.openOrders
      | some id => s.openOrders.erase id
    filled := s.filled ++ [if status = .filled then o else { o with status := status }] }

end SimulatedBook

/-- `f"sim-{self._next_id}"`. -/
def simId (n : ℕ) : String := "sim-" ++ toString n

/-- Numbers are told apart by their digits. -/
theorem natRepr_inj {m n : ℕ} (h : Nat.repr m = Nat.repr n) : m = n := by
  have hdigits : Nat.toDigits 10 m = Nat.toDigits 10 n := by
    rw [← Nat.toList_repr, ← Nat.toList_repr, h]
  have hread := congrArg (fun l => Nat.ofDigitChars 10 l 0) hdigits
  simpa only [Nat.ofDigitChars_ten_toDigits] using hread

theorem simId_inj {m n : ℕ} (h : simId m = simId n) : m = n := natRepr_inj ((String.append_right_inj _).1 h)

namespace SimulatedBroker

open Raising

/-- `__post_init__`. -/
def start (b : SimulatedBroker) : SimulatedBook := { cash := b.startingCash }

/-- The broker's own record of a submitted order. -/
def acceptedOrder (now : ℤ) (id : String) (o : Order) : Order :=
  { o with brokerOrderId := some id, status := .submitted, submittedAt := some now, fills := [] }

/-- **`submit_order`**: a client id the broker holds is answered with what it holds.  `replace` builds a new order, so
every copy goes through the constructor's checks. -/
def submitOrder (now : ℤ) (o : Order) : Prog SimulatedBook Exc Order := do
  let s ← get
  match s.byClientId.get? o.clientOrderId with
  | some known =>
    match s.findOrder known with
    | none => throw ⟨.exception, [.lit "StopIteration"]⟩
    | some held => fromExcept held.postInit
  | none =>
    let id := simId (s.nextId + 1)
    modify fun s => { s with nextId := s.nextId + 1 }
    let accepted ← fromExcept (acceptedOrder now id o).postInit
    modify fun s =>
      { s with
        openOrders := s.openOrders.set id accepted
        byClientId := s.byClientId.set o.clientOrderId id }
    fromExcept accepted.postInit

/-- **`cancel_order`**: an order that is not open is a race lost, not an error. -/
def cancelOrder (id : String) : Prog SimulatedBook Exc PUnit := modify fun s =>
  match s.openOrders.get? id with
  | none => s
  | some o =>
    { s with openOrders := s.openOrders.erase id, filled := s.filled ++ [{ o with status := .cancelled }] }

/-- `get_order`. -/
def getOrder (s : SimulatedBook) (id : String) : Option Order := s.findOrder id

/-- `close_position`, with the two ids its order draws. -/
def closePosition (now : ℤ) (id clientOrderId symbol : String) : Prog SimulatedBook Exc Order := do
  let s ← get
  let p := s.position symbol
  if p.isFlat then throw ⟨.brokerError, [.lit "no open position in ", .lit symbol, .lit " to close"]⟩
  else
    submitOrder now
      { symbol := symbol, side := if p.isLong then .sell else .buy, qty := |p.qty|, id := id,
        clientOrderId := clientOrderId, createdAt := some now }

/-! ## The matching engine -/

/-- The fill `_book` builds; the fee is taken before the order is touched. -/
def fillOf (b : SimulatedBroker) (o : Order) (qty price : ℚ) (ts : ℤ) : Fill where
  orderId := o.id
  ts := ts
  qty := qty
  price := price
  fee := b.costModel.commission o price qty
  venueFillId := none

/-- `_book`: one fill, to the order, the position and the cash; the order it leaves. -/
def book (o : Order) (fill : Fill) : Prog SimulatedBook Exc Order := do
  let o' ← fromExcept (o.applyFill fill)
  modify (SimulatedBook.rewrite o')
  modify fun s => { s with positions := s.positions.setdefault o.symbol { symbol := o.symbol } }
  let s ← get
  let settled ← fromExcept ((s.position o.symbol).applyFill fill (fill.qty * o.side.sign))
  modify fun s =>
    { s with
      positions := s.positions.set o.symbol settled.1
      cash := s.cash - (fill.qty * fill.price * o.side.sign + fill.fee) }
  return o'

/-- `_may_fill_on`: the bar opened at or after the order was submitted. -/
def mayFillOn (o : Order) (bar : Bar) : Bool := o.submittedAt.any (· ≤ bar.ts)

/-- `_stop_first`: a stable sort on "is not a stop". -/
def stopFirst (l : List Order) : List Order :=
  l.filter (fun o => o.orderType = .stop) ++ l.filter fun o => o.orderType ≠ .stop

/-- The body of `on_bar`'s loop: what is shown to the caller, when the order filled. -/
def matchBar (b : SimulatedBroker) (bar : Bar) (o : Order) : Prog SimulatedBook Exc (Option Order) := do
  match ← fromExcept (intendedPrice o bar b.requireThrough) with
  | none =>
    if o.timeInForce = .day then
      modify (SimulatedBook.retire o .expired)
      return none
    else return none
  | some price =>
    let fillPrice := price + b.costModel.slippage o bar price
    if fillPrice ≤ 0 then
      throw ⟨.brokerError, [.lit "slippage produced a non-positive fill price ", .dec fillPrice]⟩
    else
      let qty := min o.remainingQty (b.maxVolumeParticipation * bar.volume)
      if qty ≤ 0 then return none
      else
        let o' ← book o (b.fillOf o qty fillPrice bar.ts)
        let shown ← fromExcept o'.postInit
        if 0 < o'.remainingQty ∧ o'.timeInForce = .day then
          modify (SimulatedBook.retire o' .expired)
          return some shown
        else if o'.remainingQty = 0 then
          modify (SimulatedBook.retire o' .filled)
          return some shown
        else return some shown

/-- The loop over the candidates, collecting `filled`. -/
def matchEach (body : Order → Prog SimulatedBook Exc (Option Order)) : List Order → Prog SimulatedBook Exc (List Order)
  | [] => return []
  | o :: rest => do
    let shown ← body o
    let filled ← matchEach body rest
    return shown.toList ++ filled

/-- **`on_bar`.** -/
def onBar (b : SimulatedBroker) (bar : Bar) : Prog SimulatedBook Exc (List Order) := do
  let s ← get
  matchEach (b.matchBar bar) (stopFirst (s.openOrders.values.filter fun o => o.symbol = bar.symbol && mayFillOn o bar))

/-- `_quote_price`. -/
def quotePrice (o : Order) (q : Quote) : Except Exc (Option ℚ) :=
  match o.orderType with
  | .market => .ok (some (if o.side = .buy then q.ask else q.bid))
  | .limit =>
    match o.limitPrice, o.side with
    | none, _ => .ok none
    | some limit, .buy => .ok (if q.ask ≤ limit then some q.ask else none)
    | some limit, .sell => .ok (if limit ≤ q.bid then some q.bid else none)
  | .stop =>
    match o.stopPrice, o.side with
    | none, _ => .ok none
    | some stop, .buy => .ok (if stop ≤ q.mid then some q.ask else none)
    | some stop, .sell => .ok (if q.mid ≤ stop then some q.bid else none)
  | .stopLimit => .error ⟨.executionError, [.lit "stop_limit", .lit " is not modelled by the quote simulator"]⟩
  | .trailingStop => .error ⟨.executionError, [.lit "trailing_stop", .lit " is not modelled by the quote simulator"]⟩

/-- `eligible_before`: the order is at least the latency older than the quote.  Instants are whole seconds. -/
def latencyPassed (b : SimulatedBroker) (o : Order) (q : Quote) : Bool :=
  o.submittedAt.any fun t => t * 1000 ≤ q.ts * 1000 - b.latencyMs

/-- What the far side of the book leaves for an order; an unquoted size caps nothing. -/
def quotedQty (o : Order) (q : Quote) : ℚ :=
  let available := if o.side = .buy then q.askSize else q.bidSize
  if 0 < available then min o.remainingQty available else o.remainingQty

/-- The body of `on_quote`'s loop. -/
def matchQuote (b : SimulatedBroker) (q : Quote) (o : Order) : Prog SimulatedBook Exc (Option Order) := do
  if !b.latencyPassed o q then return none
  else
    match ← fromExcept (quotePrice o q) with
    | none => return none
    | some price =>
      if quotedQty o q ≤ 0 then return none
      else
        let o' ← book o (b.fillOf o (quotedQty o q) price q.ts)
        let shown ← fromExcept o'.postInit
        if o'.remainingQty = 0 then
          modify (SimulatedBook.retire o' .filled)
          return some shown
        else return some shown

/-- **`on_quote`.** -/
def onQuote (b : SimulatedBroker) (q : Quote) : Prog SimulatedBook Exc (List Order) := do
  let s ← get
  matchEach (b.matchQuote q) (stopFirst (s.openOrders.values.filter fun o => o.symbol = q.symbol))

end SimulatedBroker
end Atp
