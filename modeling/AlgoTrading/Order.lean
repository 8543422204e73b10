import Mathlib.Algebra.Order.Field.Rat
import Mathlib.Algebra.Order.BigOperators.Group.List
import Mathlib.Tactic.Ring
import Mathlib.Tactic.FieldSimp
import Mathlib.Tactic.Linarith
import AlgoTrading.Enums
import AlgoTrading.Errors
/-!
# Order — orders, fills and the fill arithmetic

`domain/order.py`.  A `Decimal` is a rational: the arithmetic of the ledger is exact in this model.  An instant is an
integer.  `Order.create` is the dataclass constructor with the checks of `__post_init__`, and `Order.applyFill` the
one place a fill is accumulated.  `Order.Booked` is the invariant the accumulation keeps: the running totals are the
totals of the recorded fills.
-/
namespace Atp

/-- `venue_fill_id`: the venue's own execution id, or the f-string `rest_recovery:{broker_order_id}:{filled_qty}` of a
recovered tranche, kept as its parts. -/
inductive VenueFillId
  | execution (id : String)
  | recovered (brokerOrderId : Option String) (filledQty : ℚ)
deriving DecidableEq

/-- One execution against an order. -/
structure Fill where
  orderId : String
  ts : ℤ
  qty : ℚ
  price : ℚ
  fee : ℚ
  venueFillId : Option VenueFillId
deriving DecidableEq

def Fill.notional (f : Fill) : ℚ := f.qty * f.price

/-- An instruction to the market. -/
structure Order where
  symbol : String
  side : Side
  qty : ℚ
  orderType : OrderType := .market
  timeInForce : TimeInForce := .day
  limitPrice : Option ℚ := none
  stopPrice : Option ℚ := none
  trailPercent : Option ℚ := none
  id : String
  clientOrderId : String
  brokerOrderId : Option String := none
  strategyId : Option String := none
  signalId : Option String := none
  parentOrderId : Option String := none
  purpose : Purpose := .entry
  status : OrderStatus := .pendingRisk
  filledQty : ℚ := 0
  avgFillPrice : Option ℚ := none
  fills : List Fill := []
  createdAt : Option ℤ := none
  submittedAt : Option ℤ := none
  filledAt : Option ℤ := none
  rejectReason : Option String := none
  rejectedBy : Option String := none
deriving DecidableEq

namespace Order

/-- **The checks of `__post_init__`**, in its order.  An empty `purpose` is no value of `Purpose`. -/
def postInit (o : Order) : Except Exc Order :=
  if o.qty ≤ 0 then
    .error ⟨.valueError, [.lit "order qty must be positive (side carries direction), got ", .dec o.qty]⟩
  else if (o.orderType = .limit ∨ o.orderType = .stopLimit) ∧ o.limitPrice = none then
    .error ⟨.valueError, [.lit (typeValue o.orderType), .lit " requires limit_price"]⟩
  else if (o.orderType = .stop ∨ o.orderType = .stopLimit) ∧ o.stopPrice = none then
    .error ⟨.valueError, [.lit (typeValue o.orderType), .lit " requires stop_price"]⟩
  else .ok o
where
  typeValue : OrderType → String
    | .market => "market"
    | .limit => "limit"
    | .stop => "stop"
    | .stopLimit => "stop_limit"
    | .trailingStop => "trailing_stop"

def remainingQty (o : Order) : ℚ := o.qty - o.filledQty

def isComplete (o : Order) : Bool := o.status.isTerminal

/-- `(self.avg_fill_price or Decimal(0)) * self.filled_qty`. -/
def filledNotional (o : Order) : ℚ := o.avgFillPrice.getD 0 * o.filledQty

/-- What `apply_fill` leaves behind once its two checks have passed. -/
def accumulate (o : Order) (f : Fill) : Order :=
  let filled := o.filledQty + f.qty
  let o' := { o with
    filledQty := filled
    avgFillPrice := some ((o.filledNotional + f.notional) / filled)
    fills := o.fills ++ [f] }
  if o'.remainingQty = 0 then { o' with status := .filled, filledAt := some f.ts }
  else { o' with status := .partiallyFilled }

/-- **`apply_fill`**: both checks come before the first write, so a raise leaves the order as it was. -/
def applyFill (o : Order) (f : Fill) : Except Exc Order :=
  if f.qty ≤ 0 then
    .error ⟨.valueError, [.lit "fill qty must be positive, got ", .dec f.qty]⟩
  else if f.qty > o.remainingQty then
    .error ⟨.valueError, [.lit "overfill on ", .lit o.id, .lit ": fill ", .dec f.qty, .lit " > remaining ",
      .dec o.remainingQty]⟩
  else .ok (o.accumulate f)

end Order

/-! ## The recorded fills and their totals -/

/-- The quantity of a list of fills. -/
def fillsQty (l : List Fill) : ℚ := (l.map Fill.qty).sum

/-- The notional of a list of fills. -/
def fillsNotional (l : List Fill) : ℚ := (l.map Fill.notional).sum

@[simp] theorem fillsQty_nil : fillsQty [] = 0 := rfl

@[simp] theorem fillsNotional_nil : fillsNotional [] = 0 := rfl

@[simp] theorem fillsQty_append (a b : List Fill) : fillsQty (a ++ b) = fillsQty a + fillsQty b := by
  simp [fillsQty]

@[simp] theorem fillsNotional_append (a b : List Fill) :
    fillsNotional (a ++ b) = fillsNotional a + fillsNotional b := by
  simp [fillsNotional]

@[simp] theorem fillsQty_single (f : Fill) : fillsQty [f] = f.qty := by simp [fillsQty]

@[simp] theorem fillsNotional_single (f : Fill) : fillsNotional [f] = f.notional := by simp [fillsNotional]

namespace Order

@[simp] theorem accumulate_fills (o : Order) (f : Fill) : (o.accumulate f).fills = o.fills ++ [f] := by
  unfold accumulate; dsimp only; split <;> rfl

@[simp] theorem accumulate_filledQty (o : Order) (f : Fill) : (o.accumulate f).filledQty = o.filledQty + f.qty := by
  unfold accumulate; dsimp only; split <;> rfl

@[simp] theorem accumulate_avg (o : Order) (f : Fill) :
    (o.accumulate f).avgFillPrice = some ((o.filledNotional + f.notional) / (o.filledQty + f.qty)) := by
  unfold accumulate; dsimp only; split <;> rfl

@[simp] theorem accumulate_qty (o : Order) (f : Fill) : (o.accumulate f).qty = o.qty := by
  unfold accumulate; dsimp only; split <;> rfl

@[simp] theorem accumulate_clientOrderId (o : Order) (f : Fill) :
    (o.accumulate f).clientOrderId = o.clientOrderId := by
  unfold accumulate; dsimp only; split <;> rfl

@[simp] theorem accumulate_brokerOrderId (o : Order) (f : Fill) :
    (o.accumulate f).brokerOrderId = o.brokerOrderId := by
  unfold accumulate; dsimp only; split <;> rfl

@[simp] theorem accumulate_id (o : Order) (f : Fill) : (o.accumulate f).id = o.id := by
  unfold accumulate; dsimp only; split <;> rfl

@[simp] theorem accumulate_symbol (o : Order) (f : Fill) : (o.accumulate f).symbol = o.symbol := by
  unfold accumulate; dsimp only; split <;> rfl

@[simp] theorem accumulate_side (o : Order) (f : Fill) : (o.accumulate f).side = o.side := by
  unfold accumulate; dsimp only; split <;> rfl

@[simp] theorem accumulate_parentOrderId (o : Order) (f : Fill) : (o.accumulate f).parentOrderId = o.parentOrderId := by
  unfold accumulate; dsimp only; split <;> rfl

theorem accumulate_remainingQty (o : Order) (f : Fill) : (o.accumulate f).remainingQty = o.remainingQty - f.qty := by
  unfold remainingQty
  rw [accumulate_qty, accumulate_filledQty]
  ring

theorem accumulate_status (o : Order) (f : Fill) :
    (o.accumulate f).status = if o.filledQty + f.qty = o.qty then .filled else .partiallyFilled := by
  unfold accumulate remainingQty
  dsimp only
  by_cases h : o.qty - (o.filledQty + f.qty) = 0
  · rw [if_pos h, if_pos (by linarith)]
  · rw [if_neg h, if_neg (fun h' => h (by linarith))]

/-- **The running totals are the recorded fills' totals**, and never more than was ordered. -/
structure Booked (o : Order) : Prop where
  filled : o.filledQty = fillsQty o.fills
  bounded : o.filledQty ≤ o.qty
  positive : ∀ f ∈ o.fills, 0 < f.qty
  notional : o.filledNotional = fillsNotional o.fills
  averaged : o.avgFillPrice = none → o.fills = []

theorem Booked.filledQty_nonneg {o : Order} (h : o.Booked) : 0 ≤ o.filledQty := by
  rw [h.filled]
  refine List.sum_nonneg fun x hx => ?_
  obtain ⟨f, hf, rfl⟩ := List.mem_map.1 hx
  exact (h.positive f hf).le

/-- An accumulated fill keeps the totals. -/
theorem accumulate_booked {o : Order} {f : Fill} (h : o.Booked) (hpos : 0 < f.qty) (hle : f.qty ≤ o.remainingQty) :
    (o.accumulate f).Booked := by
  have hnn := h.filledQty_nonneg
  have hfill : o.filledQty + f.qty ≠ 0 := by linarith
  refine ⟨?_, ?_, ?_, ?_, ?_⟩
  · simp [h.filled]
  · simp only [accumulate_filledQty, accumulate_qty]
    unfold remainingQty at hle
    linarith
  · intro g hg
    simp only [accumulate_fills, List.mem_append, List.mem_singleton] at hg
    rcases hg with hg | rfl
    · exact h.positive g hg
    · exact hpos
  · have : (o.accumulate f).filledNotional = o.filledNotional + f.notional := by
      show (o.accumulate f).avgFillPrice.getD 0 * (o.accumulate f).filledQty = _
      rw [accumulate_avg, accumulate_filledQty, Option.getD_some, div_mul_cancel₀ _ hfill]
    rw [this, h.notional]
    simp
  · simp

/-- The average is the volume-weighted one as soon as anything is filled. -/
theorem Booked.average {o : Order} (h : o.Booked) (hpos : 0 < o.filledQty) :
    ∃ a, o.avgFillPrice = some a ∧ a * o.filledQty = fillsNotional o.fills := by
  cases ha : o.avgFillPrice with
  | none =>
    have hf := h.filled
    rw [h.averaged ha, fillsQty_nil] at hf
    exact absurd hf hpos.ne'
  | some a =>
    refine ⟨a, rfl, ?_⟩
    have hn := h.notional
    unfold filledNotional at hn
    rwa [ha, Option.getD_some] at hn

/-- **What `apply_fill` did**, read from its outcome. -/
theorem applyFill_ok {o o' : Order} {f : Fill} :
    o.applyFill f = .ok o' ↔ 0 < f.qty ∧ f.qty ≤ o.remainingQty ∧ o' = o.accumulate f := by
  unfold applyFill
  by_cases h1 : f.qty ≤ 0
  · simp [h1, not_lt.2 h1]
  · by_cases h2 : f.qty > o.remainingQty
    · simp [h1, h2]
    · rw [if_neg h1, if_neg h2]
      simp only [Except.ok.injEq]
      exact ⟨fun h => ⟨not_le.1 h1, not_lt.1 h2, h.symm⟩, fun h => h.2.2.symm⟩

/-- A constructed order is well formed: a positive size, and the prices its type needs. -/
theorem postInit_ok {o o' : Order} (h : o.postInit = .ok o') :
    o' = o ∧ 0 < o.qty ∧ (o.orderType = .limit ∨ o.orderType = .stopLimit → o.limitPrice ≠ none) ∧
      (o.orderType = .stop ∨ o.orderType = .stopLimit → o.stopPrice ≠ none) := by
  unfold postInit at h
  by_cases h1 : o.qty ≤ 0
  · simp [h1] at h
  by_cases h2 : (o.orderType = .limit ∨ o.orderType = .stopLimit) ∧ o.limitPrice = none
  · simp [h1, h2] at h
  by_cases h3 : (o.orderType = .stop ∨ o.orderType = .stopLimit) ∧ o.stopPrice = none
  · simp [h1, h2, h3] at h
  simp only [if_neg h1, if_neg h2, if_neg h3, Except.ok.injEq] at h
  exact ⟨h.symm, not_le.1 h1, fun ht hn => h2 ⟨ht, hn⟩, fun ht hn => h3 ⟨ht, hn⟩⟩

/-- And what is well formed is constructed as it is. -/
theorem postInit_eq {o : Order} (hqty : 0 < o.qty) (hlimit : o.orderType = .limit ∨ o.orderType = .stopLimit → o.limitPrice ≠ none)
    (hstop : o.orderType = .stop ∨ o.orderType = .stopLimit → o.stopPrice ≠ none) : o.postInit = .ok o := by
  unfold postInit
  rw [if_neg (not_le.2 hqty), if_neg fun h => hlimit h.1 h.2, if_neg fun h => hstop h.1 h.2]

end Order
end Atp
