import Mathlib.Algebra.Order.Field.Rat
import Mathlib.Algebra.Order.Group.Abs
import AlgoTrading.Dict
import AlgoTrading.Order
/-!
# Position — holdings, the portfolio, and folding a fill into them

`domain/position.py`, and the runner's `_apply_to_portfolio`, which is how a fill reaches both the cash and the
position.  A quantity is signed: positive long, negative short.
-/
namespace Atp

/-- A holding in one symbol. -/
structure Position where
  symbol : String
  qty : ℚ := 0
  avgEntryPrice : ℚ := 0
  realizedPnl : ℚ := 0
  feesPaid : ℚ := 0
  openedAt : Option ℤ := none
  lastPrice : Option ℚ := none
  stopLossPrice : Option ℚ := none
  takeProfitPrice : Option ℚ := none
  highWaterMark : Option ℚ := none
  brokerProtectedQty : ℚ := 0
deriving DecidableEq

namespace Position

def isFlat (p : Position) : Bool := p.qty = 0

def isLong (p : Position) : Bool := 0 < p.qty

def isShort (p : Position) : Bool := p.qty < 0

def marketValue (p : Position) : ℚ :=
  match p.lastPrice with
  | none => 0
  | some price => p.qty * price

def exposure (p : Position) : ℚ := |p.marketValue|

def unrealizedPnl (p : Position) : ℚ :=
  match p.lastPrice with
  | none => 0
  | some price => if p.isFlat then 0 else (price - p.avgEntryPrice) * p.qty

/-- The three cases of a fill: the basis it leaves, when the position now held was opened, what it realised. -/
def settle (p : Position) (f : Fill) (signedQty : ℚ) : ℚ × Option ℤ × ℚ :=
  if p.qty = 0 then (f.price, some f.ts, 0)
  else if (0 < p.qty) = (0 < signedQty) then
    ((p.avgEntryPrice * |p.qty| + f.price * |signedQty|) / (|p.qty| + |signedQty|), p.openedAt, 0)
  else
    let direction : ℚ := if 0 < p.qty then 1 else -1
    let closedQty := min |signedQty| |p.qty|
    let realized := closedQty * (f.price - p.avgEntryPrice) * direction
    if |signedQty| > |p.qty| then (f.price, some f.ts, realized)
    else (p.avgEntryPrice, p.openedAt, realized)

/-- What a fill leaves once its checks have passed: flat drops the basis and every protective level. -/
def settled (p : Position) (f : Fill) (signedQty : ℚ) : Position :=
  let s := p.settle f signedQty
  let q := { p with
    avgEntryPrice := s.1
    openedAt := s.2.1
    realizedPnl := p.realizedPnl + s.2.2
    qty := p.qty + signedQty
    feesPaid := p.feesPaid + f.fee
    lastPrice := some f.price }
  if q.qty = 0 then
    { q with
      avgEntryPrice := 0, openedAt := none, stopLossPrice := none, takeProfitPrice := none, highWaterMark := none,
      brokerProtectedQty := 0 }
  else q

/-- **`apply_fill`**: the position it leaves and the profit it realised, gross of fees. -/
def applyFill (p : Position) (f : Fill) (signedQty : ℚ) : Except Exc (Position × ℚ) :=
  if f.qty ≤ 0 then
    .error ⟨.valueError, [.lit "fill qty must be positive, got ", .dec f.qty]⟩
  else if signedQty = 0 then
    .error ⟨.valueError, [.lit "signed_qty must be non-zero — a fill always moves the position"]⟩
  else if |signedQty| ≠ f.qty then
    .error ⟨.valueError, [.lit "signed_qty magnitude ", .dec |signedQty|, .lit " does not match fill qty ", .dec f.qty]⟩
  else .ok (p.settled f signedQty, (p.settle f signedQty).2.2)

@[simp] theorem settled_qty (p : Position) (f : Fill) (x : ℚ) : (p.settled f x).qty = p.qty + x := by
  unfold settled
  dsimp only
  split <;> rfl

@[simp] theorem settled_symbol (p : Position) (f : Fill) (x : ℚ) : (p.settled f x).symbol = p.symbol := by
  unfold settled
  dsimp only
  split <;> rfl

theorem applyFill_ok {p q : Position} {f : Fill} {x r : ℚ} :
    p.applyFill f x = .ok (q, r) ↔
      0 < f.qty ∧ x ≠ 0 ∧ |x| = f.qty ∧ q = p.settled f x ∧ r = (p.settle f x).2.2 := by
  unfold applyFill
  by_cases h1 : f.qty ≤ 0
  · simp [h1, not_lt.2 h1]
  by_cases h2 : x = 0
  · simp [h1, h2]
  by_cases h3 : |x| ≠ f.qty
  · simp [h1, h2, h3]
  rw [if_neg h1, if_neg h2, if_neg h3, Except.ok.injEq, Prod.mk.injEq]
  exact ⟨fun h => ⟨not_le.1 h1, h2, not_not.1 h3, h.1.symm, h.2.symm⟩, fun h => ⟨h.2.2.2.1.symm, h.2.2.2.2.symm⟩⟩

/-- A flat position carries no basis and no protective level. -/
theorem settled_flat (p : Position) (f : Fill) (x : ℚ) (h : p.qty + x = 0) :
    (p.settled f x).avgEntryPrice = 0 ∧ (p.settled f x).stopLossPrice = none ∧
      (p.settled f x).takeProfitPrice = none ∧ (p.settled f x).highWaterMark = none ∧
      (p.settled f x).brokerProtectedQty = 0 := by
  unfold settled
  simp [h]

end Position

/-- Account-level state: cash, positions, and the equity curve. -/
structure Portfolio where
  cash : ℚ
  startingEquity : ℚ
  feesSettled : ℚ := 0
  positions : Dict String Position := .empty
  equityCurve : List (ℤ × ℚ) := []
deriving DecidableEq

namespace Portfolio

def totalMarketValue (p : Portfolio) : ℚ := (p.positions.values.map Position.marketValue).sum

def equity (p : Portfolio) : ℚ := p.cash + p.totalMarketValue

def grossExposure (p : Portfolio) : ℚ := (p.positions.values.map Position.exposure).sum

def openPositions (p : Portfolio) : List Position := p.positions.values.filter (fun q => !q.isFlat)

/-- The position `position(symbol)` returns: the one there, or a fresh flat one. -/
def position (p : Portfolio) (symbol : String) : Position := (p.positions.get? symbol).getD { symbol := symbol }

def setPosition (p : Portfolio) (symbol : String) (q : Position) : Portfolio :=
  { p with positions := p.positions.set symbol q }

/-- What is held of a symbol; an absent position is a flat one. -/
def held (p : Portfolio) (symbol : String) : ℚ := (p.position symbol).qty

/-- `mark`: the last price of one symbol, and a point of the equity curve. -/
def mark (p : Portfolio) (symbol : String) (price : ℚ) (ts : ℤ) : Portfolio :=
  let q := p.setPosition symbol { p.position symbol with lastPrice := some price }
  { q with equityCurve := q.equityCurve ++ [(ts, q.equity)] }

/-- **`_apply_to_portfolio`**: a fill of an order, folded into the position and the cash. -/
def applyToPortfolio (p : Portfolio) (o : Order) (f : Fill) : Except Exc Portfolio :=
  match (p.position o.symbol).applyFill f (f.qty * o.side.sign) with
  | .error e => .error e
  | .ok (q, _) =>
    .ok { p.setPosition o.symbol q with cash := p.cash - (f.qty * f.price * o.side.sign + f.fee) }

@[simp] theorem held_setPosition (p : Portfolio) (s t : String) (q : Position) :
    (p.setPosition s q).held t = if t = s then q.qty else p.held t := by
  unfold held position setPosition
  rw [Dict.get?_set]
  by_cases h : t = s <;> simp [h]

theorem held_eq (p : Portfolio) {s : String} {q : Position} (h : p.positions.get? s = some q) : p.held s = q.qty := by
  simp [held, position, h]

theorem held_none (p : Portfolio) {s : String} (h : p.positions.get? s = none) : p.held s = 0 := by
  simp [held, position, h]

/-- A positive fill always reaches the book, and moves its symbol by its signed quantity and no other symbol. -/
theorem applyToPortfolio_held {p p' : Portfolio} {o : Order} {f : Fill} (h : p.applyToPortfolio o f = .ok p')
    (t : String) : p'.held t = p.held t + if t = o.symbol then f.qty * o.side.sign else 0 := by
  unfold applyToPortfolio at h
  cases hf : (p.position o.symbol).applyFill f (f.qty * o.side.sign) with
  | error e => simp [hf] at h
  | ok r =>
    obtain ⟨q, x⟩ := r
    simp only [hf, Except.ok.injEq] at h
    obtain ⟨-, -, -, rfl, -⟩ := Position.applyFill_ok.1 hf
    subst h
    show (p.setPosition o.symbol _).held t = _
    rw [held_setPosition]
    by_cases ht : t = o.symbol
    · subst ht
      rw [if_pos rfl, if_pos rfl, Position.settled_qty]
      rfl
    · rw [if_neg ht, if_neg ht, add_zero]

theorem applyToPortfolio_isOk (p : Portfolio) (o : Order) (f : Fill) (h : 0 < f.qty) :
    ∃ p', p.applyToPortfolio o f = .ok p' := by
  have hs : ((o.side.sign : ℤ) : ℚ) = 1 ∨ ((o.side.sign : ℤ) : ℚ) = -1 := by cases o.side <;> simp [Side.sign]
  have hne : f.qty * (o.side.sign : ℚ) ≠ 0 := by
    rcases hs with hs | hs <;> rw [hs] <;> simp [h.ne']
  have habs : |f.qty * (o.side.sign : ℚ)| = f.qty := by
    rcases hs with hs | hs <;> rw [hs] <;> simp [abs_of_pos h]
  have hok := (Position.applyFill_ok (p := p.position o.symbol)).2 ⟨h, hne, habs, rfl, rfl⟩
  unfold applyToPortfolio
  rw [hok]
  exact ⟨_, rfl⟩

end Portfolio
end Atp
