import Mathlib.Data.Rat.Floor
import AlgoTrading.Backtest
/-!
# Costs — the commission and slippage models

`backtest/costs.py`.  `Decimal.sqrt` is rounded to the context's precision, so the square root is a parameter.  What a
venue stamps on an order, its id and the instant it took it, is no part of what any of the models reads: `ReadsTerms`.
-/
namespace Atp
namespace Backtest

/-- `quantize(_CENT, rounding=ROUND_UP)`: away from zero. -/
def centsUp (x : ℚ) : ℚ := if 0 ≤ x then ⌈x * 100⌉ / 100 else ⌊x * 100⌋ / 100

/-- `quantize(_CENT, rounding=ROUND_HALF_UP)`: to the nearest cent, a half away from zero. -/
def centsHalfUp (x : ℚ) : ℚ :=
  if 0 ≤ x then ⌊x * 100 + 1 / 2⌋ / 100 else ⌈x * 100 - 1 / 2⌉ / 100

def zeroCostModel : CostModel where
  commission _ _ _ := 0
  slippage _ _ _ := 0

structure PerShareCostModel where
  perShare : ℚ := 5 / 1000
  minimum : ℚ := 1
  secFeeRate : ℚ := 278 / 10000000
  tafPerShare : ℚ := 166 / 1000000
  tafCap : ℚ := 830 / 100

namespace PerShareCostModel

/-- `_broker_total`: what an order of `qty` shares owes in commission, in total. -/
def brokerTotal (m : PerShareCostModel) (qty : ℚ) : ℚ := if qty ≤ 0 then 0 else max (m.perShare * qty) m.minimum

/-- `_taf_total`. -/
def tafTotal (m : PerShareCostModel) (qty : ℚ) : ℚ := if qty ≤ 0 then 0 else min (m.tafPerShare * qty) m.tafCap

/-- **`commission`**: what the order owes after this fill, less what it owed before. -/
def commission (m : PerShareCostModel) (o : Order) (fillPrice fillQty : ℚ) : ℚ :=
  if fillQty ≤ 0 then 0
  else
    let filled := o.filledQty
    let broker := m.brokerTotal (filled + fillQty) - m.brokerTotal filled
    let fees :=
      if o.side = .sell then
        centsUp (m.secFeeRate * (fillPrice * fillQty)) + (m.tafTotal (filled + fillQty) - m.tafTotal filled)
      else 0
    centsHalfUp (broker + fees)

def model (m : PerShareCostModel) : CostModel where
  commission := m.commission
  slippage _ _ _ := 0

end PerShareCostModel

structure SpreadSlippageModel where
  halfSpreadBps : ℚ := 2
  impactCoefficient : ℚ := 1 / 10
  sqrt : ℚ → ℚ

namespace SpreadSlippageModel

def slippage (m : SpreadSlippageModel) (o : Order) (bar : Bar) (intended : ℚ) : ℚ :=
  let spread := m.halfSpreadBps / 10000
  let fraction :=
    if 0 < bar.volume then spread + m.impactCoefficient * m.sqrt (o.remainingQty / bar.volume) else spread
  intended * fraction * (if o.side = .buy then 1 else -1)

def model (m : SpreadSlippageModel) : CostModel where
  commission _ _ _ := 0
  slippage := m.slippage

end SpreadSlippageModel

/-- `CompositeCostModel`. -/
def compositeCostModel (commissionModel slippageModel : CostModel) : CostModel where
  commission := commissionModel.commission
  slippage := slippageModel.slippage

/-- What a venue writes on an order it accepts. -/
def stamped (id : Option String) (at_ : Option ℤ) (o : Order) : Order :=
  { o with brokerOrderId := id, submittedAt := at_ }

/-- **A cost model reads the order's terms and what it has filled**, not a venue's stamps. -/
structure ReadsTerms (m : CostModel) : Prop where
  commission : ∀ id at_ o price qty, m.commission (stamped id at_ o) price qty = m.commission o price qty
  slippage : ∀ id at_ o bar intended, m.slippage (stamped id at_ o) bar intended = m.slippage o bar intended

theorem readsTerms_zero : ReadsTerms zeroCostModel where
  commission _ _ _ _ _ := rfl
  slippage _ _ _ _ _ := rfl

theorem PerShareCostModel.readsTerms (m : PerShareCostModel) : ReadsTerms m.model where
  commission _ _ _ _ _ := rfl
  slippage _ _ _ _ _ := rfl

theorem SpreadSlippageModel.readsTerms (m : SpreadSlippageModel) : ReadsTerms m.model where
  commission _ _ _ _ _ := rfl
  slippage _ _ _ _ _ := rfl

theorem ReadsTerms.composite {c s : CostModel} (hc : ReadsTerms c) (hs : ReadsTerms s) :
    ReadsTerms (compositeCostModel c s) where
  commission := hc.commission
  slippage := hs.slippage

end Backtest
end Atp
