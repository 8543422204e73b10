import Mathlib.Algebra.Order.Field.Rat
import Mathlib.Tactic.Linarith
import AlgoTrading.Order
/-!
# Market — bars, signals, and where a resting order touches a bar

`domain/market.py`, `domain/signal.py` and `execution/matching.py`, less the fields nothing here reads.
-/
namespace Atp

inductive Timeframe
  | m1
  | m5
  | m15
  | m30
  | h1
  | h4
  | d1
deriving DecidableEq, Repr

def Timeframe.seconds : Timeframe → ℤ
  | .m1 => 60
  | .m5 => 300
  | .m15 => 900
  | .m30 => 1800
  | .h1 => 3600
  | .h4 => 14400
  | .d1 => 86400

/-- One OHLCV candle, opening at `ts`.  `__post_init__` refuses any other order of its prices. -/
structure Bar where
  symbol : String
  ts : ℤ
  timeframe : Timeframe
  «open» : ℚ
  high : ℚ
  low : ℚ
  close : ℚ
  volume : ℚ
  adjClose : Option ℚ := none
  openInside : low ≤ «open» ∧ «open» ≤ high
  closeInside : low ≤ close ∧ close ≤ high
deriving DecidableEq

/-- One decision by one strategy about one symbol at one instant. -/
structure Signal where
  strategyId : String
  symbol : String
  action : SignalAction
  ts : ℤ
  id : String
  limitPrice : Option ℚ := none
  stopLossPrice : Option ℚ := none
  takeProfitPrice : Option ℚ := none
deriving DecidableEq

/-- `_reached`: did the bar's extreme reach the price, from below (`up`) or from above. -/
def reached (extreme price : ℚ) (requireThrough up : Bool) : Bool :=
  if up then if requireThrough then price < extreme else price ≤ extreme
  else if requireThrough then extreme < price else extreme ≤ price

/-- **`intended_price`**: the price an order would touch on a bar, before slippage, or `none` if it would not. -/
def intendedPrice (o : Order) (bar : Bar) (requireThrough : Bool) : Except Exc (Option ℚ) :=
  match o.orderType with
  | .market => .ok (some bar.open)
  | .limit =>
    match o.limitPrice with
    | none => .error ⟨.executionError, [.lit "limit order ", .lit o.id, .lit " has no limit_price"]⟩
    | some limit =>
      match o.side with
      | .buy => .ok (if reached bar.low limit requireThrough false then some (min bar.open limit) else none)
      | .sell => .ok (if reached bar.high limit requireThrough true then some (max bar.open limit) else none)
  | .stop =>
    match o.stopPrice with
    | none => .error ⟨.executionError, [.lit "stop order ", .lit o.id, .lit " has no stop_price"]⟩
    | some stop =>
      match o.side with
      | .buy => .ok (if reached bar.high stop requireThrough true then some (max bar.open stop) else none)
      | .sell => .ok (if reached bar.low stop requireThrough false then some (min bar.open stop) else none)
  | .stopLimit => .error ⟨.executionError, [.lit "stop_limit", .lit " is not modelled by the fill simulator"]⟩
  | .trailingStop => .error ⟨.executionError, [.lit "trailing_stop", .lit " is not modelled by the fill simulator"]⟩

/-- A bar at one price opens and closes inside its range. -/
theorem flat_inside (price : ℚ) : price ≤ price ∧ price ≤ price := ⟨le_rfl, le_rfl⟩

/-- A touched price was traded: it lies in the bar's range. -/
theorem intendedPrice_inside {o : Order} {bar : Bar} {through : Bool} {x : ℚ}
    (h : intendedPrice o bar through = .ok (some x)) : bar.low ≤ x ∧ x ≤ bar.high := by
  have ho := bar.openInside
  have up (p : ℚ) (hr : reached bar.high p through true = true) : p ≤ bar.high := by
    cases through <;> simp [reached] at hr <;> linarith
  have down (p : ℚ) (hr : reached bar.low p through false = true) : bar.low ≤ p := by
    cases through <;> simp [reached] at hr <;> linarith
  unfold intendedPrice at h
  split at h
  · simp only [Except.ok.injEq, Option.some.injEq] at h
    subst h
    exact ho
  · split at h
    · cases h
    · split at h
      · simp only [Except.ok.injEq, Option.ite_none_right_eq_some, Option.some.injEq] at h
        obtain ⟨hr, rfl⟩ := h
        exact ⟨le_min ho.1 (down _ hr), (min_le_left _ _).trans ho.2⟩
      · simp only [Except.ok.injEq, Option.ite_none_right_eq_some, Option.some.injEq] at h
        obtain ⟨hr, rfl⟩ := h
        exact ⟨ho.1.trans (le_max_left _ _), max_le ho.2 (up _ hr)⟩
  · split at h
    · cases h
    · split at h
      · simp only [Except.ok.injEq, Option.ite_none_right_eq_some, Option.some.injEq] at h
        obtain ⟨hr, rfl⟩ := h
        exact ⟨ho.1.trans (le_max_left _ _), max_le ho.2 (up _ hr)⟩
      · simp only [Except.ok.injEq, Option.ite_none_right_eq_some, Option.some.injEq] at h
        obtain ⟨hr, rfl⟩ := h
        exact ⟨le_min ho.1 (down _ hr), (min_le_left _ _).trans ho.2⟩
  · cases h
  · cases h

end Atp
