import Mathlib.Algebra.Order.Field.Rat
import Mathlib.Algebra.Order.Group.Abs
import Mathlib.Algebra.BigOperators.Group.List.Basic
import AlgoTrading.Market
/-!
# Indicators — the indicator functions and their dispatch by name

`indicators/ta.py` and `indicators/dispatch.py`, less the indicators no rule names.  A float is a rational here: the
arithmetic is exact, and `np.sqrt` is a parameter.  `nan` is `none`, a warm-up position of a series.  The recursive
indicators (EMA, and RSI and ATR through Wilder's average) are their series' last element, as in the source.
-/
namespace Atp
namespace Ta

/-- `np.mean`; of no values, which only a period of zero over none takes it to, it is 0 here and `nan` there. -/
def mean (l : List ℚ) : ℚ := l.sum / l.length

/-- `values[-n:]`; `values[-0:]` is all of them. -/
def lastSlice {α : Type} (n : ℕ) (l : List α) : List α := if n = 0 then l else l.drop (l.length - n)

/-- What an indicator calls itself when it refuses. -/
def called (name : String) (period : ℕ) : String := name ++ "(" ++ toString period ++ ")"

def requirePeriod (name : String) (period : ℕ) : Except Exc Unit :=
  if period < 1 then .error ⟨.valueError, [.lit name, .lit " needs period >= 1, got ", .dec period]⟩ else .ok ()

def requireLength (name : String) (needed got : ℕ) : Except Exc Unit :=
  if got < needed then .error ⟨.valueError, [.lit name, .lit " needs ", .dec needed, .lit " values, got ", .dec got]⟩
  else .ok ()

/-- The values a recurrence takes, its seed first. -/
def recurrence (step : ℚ → ℚ → ℚ) : ℚ → List ℚ → List ℚ
  | seed, [] => [seed]
  | seed, x :: rest => seed :: recurrence step (step seed x) rest

/-- The last element of a series, where it is defined. -/
def lastValue (series : List (Option ℚ)) : ℚ := (series.getLast?.bind id).getD 0

/-- **`sma`**, which alone does not check its period. -/
def sma (values : List ℚ) (period : ℕ) : Except Exc ℚ := do
  requireLength (called "sma" period) period values.length
  return mean (lastSlice period values)

/-- One step of the EMA, at `alpha = 2 / (period + 1)`. -/
def emaStep (period : ℕ) (previous x : ℚ) : ℚ := 2 / (period + 1) * x + (1 - 2 / (period + 1)) * previous

/-- `ema_series`: seeded with the average of the first `period` values. -/
def emaSeries (values : List ℚ) (period : ℕ) : List (Option ℚ) :=
  if values.length < period then List.replicate values.length none
  else
    List.replicate (period - 1) none ++
      (recurrence (emaStep period) (mean (values.take period)) (values.drop period)).map some

/-- **`ema`.** -/
def ema (values : List ℚ) (period : ℕ) : Except Exc ℚ := do
  requirePeriod (called "ema" period) period
  requireLength (called "ema" period) period values.length
  return lastValue (emaSeries values period)

/-- One step of Wilder's average. -/
def wilderStep (period : ℕ) (previous x : ℚ) : ℚ := (previous * (period - 1) + x) / period

/-- `_wilder_smooth`, over a series seeded with the average of its first `period` values. -/
def wilderSmooth (period : ℕ) (values : List ℚ) : List ℚ :=
  recurrence (wilderStep period) (mean (values.take period)) (values.drop period)

/-- `np.diff`. -/
def diff : List ℚ → List ℚ
  | a :: b :: l => (b - a) :: diff (b :: l)
  | _ => []

def gains (values : List ℚ) : List ℚ := (diff values).map fun d => if 0 < d then d else 0

def losses (values : List ℚ) : List ℚ := (diff values).map fun d => if d < 0 then -d else 0

/-- An RSI from its two averages: without losses it is the top of the scale. -/
def rsiOf (avgGain avgLoss : ℚ) : ℚ := if avgLoss = 0 then 100 else 100 - 100 / (1 + avgGain / avgLoss)

/-- `rsi_series`. -/
def rsiSeries (values : List ℚ) (period : ℕ) : List (Option ℚ) :=
  if values.length < period + 1 then List.replicate values.length none
  else
    List.replicate period none ++
      (List.zipWith rsiOf (wilderSmooth period (gains values)) (wilderSmooth period (losses values))).map some

/-- **`rsi`.** -/
def rsi (values : List ℚ) (period : ℕ) : Except Exc ℚ := do
  requirePeriod (called "rsi" period) period
  requireLength (called "rsi" period) (period + 1) values.length
  return lastValue (rsiSeries values period)

/-- The true range of a bar after the one before it. -/
def rangeAfter (previous bar : Bar) : ℚ :=
  max (bar.high - bar.low) (max |bar.high - previous.close| |bar.low - previous.close|)

/-- `true_range` from the second bar on; the first has no previous close. -/
def trueRanges : List Bar → List ℚ
  | a :: b :: l => rangeAfter a b :: trueRanges (b :: l)
  | _ => []

/-- `atr_series`. -/
def atrSeries (bars : List Bar) (period : ℕ) : List (Option ℚ) :=
  if bars.length < period + 1 then List.replicate bars.length none
  else List.replicate period none ++ (wilderSmooth period (trueRanges bars)).map some

/-- **`atr`.** -/
def atr (bars : List Bar) (period : ℕ) : Except Exc ℚ := do
  requirePeriod (called "atr" period) period
  requireLength (called "atr" period) (period + 1) bars.length
  return lastValue (atrSeries bars period)

/-- The population variance. -/
def variance (l : List ℚ) : ℚ := mean (l.map fun x => (x - mean l) ^ 2)

/-- **`stddev`.** -/
def stddev (sqrt : ℚ → ℚ) (values : List ℚ) (period : ℕ) : Except Exc ℚ := do
  requirePeriod (called "stddev" period) period
  requireLength (called "stddev" period) period values.length
  return sqrt (variance (lastSlice period values))

end Ta

namespace Dispatch

def knownIndicators : List String := ["sma", "ema", "rsi", "stddev", "atr"]

/-- `_NEEDS_A_PRIOR_BAR`. -/
def needsAPriorBar : List String := ["rsi", "atr"]

def unknownIndicator (name : String) : Exc := ⟨.strategyError, [.lit "unknown indicator '", .lit name, .lit "'"]⟩

/-- **`min_bars`**: the shortest series `compute` can answer for. -/
def minBars (name : String) (period : ℕ) : Except Exc ℕ :=
  if name ∉ knownIndicators then .error (unknownIndicator name)
  else .ok (if name ∈ needsAPriorBar then period + 1 else period)

/-- `except ValueError: return None`. -/
def orNone (x : Except Exc ℚ) : Except Exc (Option ℚ) :=
  match x with
  | .ok v => .ok (some v)
  | .error e => if e.cls.isA .valueError then .ok none else .error e

/-- **`compute`**: a name of a rule spec, onto `ta`. -/
def compute (sqrt : ℚ → ℚ) (name : String) (bars : List Bar) (period : ℕ) : Except Exc (Option ℚ) :=
  let closes := bars.map Bar.close
  if name = "sma" then orNone (Ta.sma closes period)
  else if name = "ema" then orNone (Ta.ema closes period)
  else if name = "rsi" then orNone (Ta.rsi closes period)
  else if name = "stddev" then orNone (Ta.stddev sqrt closes period)
  else if name = "atr" then orNone (Ta.atr bars period)
  else .error (unknownIndicator name)

end Dispatch
end Atp
