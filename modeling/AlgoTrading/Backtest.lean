import Mathlib.Data.List.Dedup
import Mathlib.Data.List.Sort
import AlgoTrading.RiskEngine
import AlgoTrading.Stops
/-!
# Backtest — the engine that replays history bar by bar

`backtest/engine.py`: the event loop of `run` over bars that `_validate` accepted and `_to_adjusted` moved.  Strategy,
sizer, cost model, ATR, the ids orders are given and the rendering of messages are parameters; the risk chain is the one of `RiskEngine`.  The
state of a run survives a raise, because a raise inside a bar leaves the fills already booked on it.  Beside the state
runs a log the engine does not have: the state each bar met before its stops were checked, and every fill with the
quantity held before and after it.
-/
namespace Atp
namespace Backtest

open Raising

structure CostModel where
  commission : Order → ℚ → ℚ → ℚ
  slippage : Order → Bar → ℚ → ℚ

structure BacktestConfig where
  symbols : List String
  timeframe : Timeframe
  maxVolumeParticipation : ℚ := 1 / 10
  warmupBars : Option ℕ := none

/-- What a strategy is shown: completed bars only, the book and the clock. -/
structure BacktestContext where
  now : ℤ
  symbols : List String
  visible : String → List Bar
  portfolio : Portfolio

structure Strategy (τ : Type) where
  name : String
  warmupBars : ℕ
  onBar : BacktestContext → Bar → τ → Except Exc (List Signal) × τ

structure BacktestEngine (L σ τ : Type) where
  strategy : Strategy τ
  config : BacktestConfig
  costModel : CostModel
  limits : L
  rules : List (RiskRule L σ)
  anchorSession : ℚ → σ → σ
  positionSizer : Option (Signal → Portfolio → ℚ → Except Exc ℚ)
  stopConfig : Option StopConfig
  atr : List Bar → ℕ → Option ℚ
  newId : ℕ → String
  text : List Piece → String

/-- What a run has reached: the engine's own fields, the context's cursor and clock, the result, and the states of the
chain and of the strategy. -/
structure EngineState (σ τ : Type) where
  portfolio : Portfolio
  now : ℤ := 0
  session : Option ℤ := none
  cursor : Dict String ℕ := .empty
  seen : Dict String ℕ := .empty
  pending : List Order := []
  protection : Dict String (Option ℚ × Option ℚ) := .empty
  barsHeld : Dict String ℕ := .empty
  tradePnls : List ℚ := []
  holdingHours : List ℚ := []
  tradeBase : Dict String ℚ := .empty
  tradedNotional : ℚ := 0
  barsInMarket : ℕ := 0
  orders : Dict String Order := .empty
  signals : List Signal := []
  warnings : List (List Piece) := []
  equityCurve : List (ℤ × ℚ) := []
  drawn : ℕ := 0
  rules : σ
  strategy : τ

inductive Event (σ τ : Type)
  | bar (bar : Bar) (met : EngineState σ τ)
  | booked (order : Order) (fill : Fill) (before after : ℚ)

structure Replay (σ τ : Type) where
  state : EngineState σ τ
  log : List (Event σ τ) := []

variable {L σ τ : Type}

def observe : Prog (Replay σ τ) Exc (EngineState σ τ) := Replay.state <$> get

def update (f : EngineState σ τ → EngineState σ τ) : Prog (Replay σ τ) Exc PUnit :=
  modify fun r => { r with state := f r.state }

def note (e : Event σ τ) : Prog (Replay σ τ) Exc PUnit := modify fun r => { r with log := r.log ++ [e] }

namespace EngineState

def warn (w : List Piece) (s : EngineState σ τ) : EngineState σ τ := { s with warnings := s.warnings ++ [w] }

/-- The result's row of an order, as the order now is: the row and the order are one object in the source. -/
def record (o : Order) (s : EngineState σ τ) : EngineState σ τ := { s with orders := s.orders.set o.id o }

end EngineState

section
variable (eng : BacktestEngine L σ τ) (bars : Dict String (List Bar))

/-- `_visible`: the bars of a symbol up to its cursor. -/
def visible (s : EngineState σ τ) (symbol : String) : List Bar :=
  match s.cursor.get? symbol with
  | none => []
  | some i => ((bars.get? symbol).getD []).take (i + 1)

/-- `_atr`: over the visible bars only. -/
def atrOf (s : EngineState σ τ) (symbol : String) : Option ℚ :=
  match eng.stopConfig with
  | none => none
  | some c => eng.atr (visible bars s symbol) c.period

/-- `_arm_from_config`: fills the gaps an entry left, from the fill; what cannot be computed stays unarmed. -/
def armFromConfig (atr : Option ℚ) (p : Position) : Position :=
  match eng.stopConfig with
  | none => p
  | some c =>
    if p.isFlat || decide (c.stopType = .time) then p
    else
      let side := if p.isLong then Side.buy else Side.sell
      let p := match p.stopLossPrice, initialStop p.avgEntryPrice side c atr with
        | none, .ok level => { p with stopLossPrice := some level }
        | _, _ => p
      match p.takeProfitPrice, c.stopType.fromEntry, takeProfitLevel p.avgEntryPrice side c with
      | none, true, .ok level => { p with takeProfitPrice := some level }
      | _, _, _ => p

/-- What `_execute` does to the book and its tallies once the order has taken the fill. -/
def bookFill (o : Order) (f : Fill) (s : EngineState σ τ) : Except Exc (EngineState σ τ) :=
  let was := s.portfolio.position o.symbol
  let pnlBefore := was.realizedPnl - was.feesPaid
  match s.portfolio.applyToPortfolio o f with
  | .error e => .error e
  | .ok portfolio =>
    let p := portfolio.position o.symbol
    let base := if was.isFlat then s.tradeBase.set o.symbol pnlBefore else s.tradeBase
    let levelled := match s.protection.get? o.id with
      | none => p
      | some levels => { p with stopLossPrice := levels.1, takeProfitPrice := levels.2 }
    let s := { s with
      tradedNotional := s.tradedNotional + f.qty * f.price
      protection := s.protection.erase o.id }
    if p.isFlat then
      .ok { s with
        portfolio := portfolio
        tradeBase := base.erase o.symbol
        tradePnls := s.tradePnls ++ [(p.realizedPnl - p.feesPaid) - (base.get? o.symbol).getD pnlBefore]
        holdingHours := s.holdingHours ++ (was.openedAt.map fun t => ((f.ts - t : ℤ) : ℚ) / 3600).toList
        barsHeld := s.barsHeld.erase o.symbol }
    else
      .ok { s with
        portfolio := portfolio.setPosition o.symbol (armFromConfig eng (atrOf eng bars s o.symbol) levelled)
        tradeBase := base
        barsHeld := s.barsHeld.setdefault o.symbol 0 }

/-- The volume cap on what one fill may take of a bar. -/
def volumeCap (bar : Bar) : ℚ := eng.config.maxVolumeParticipation * bar.volume

/-- What a fill takes of an order: what remains, up to the cap. -/
def fillQty (o : Order) (bar : Bar) : ℚ := min o.remainingQty (volumeCap eng bar)

def fillPrice (o : Order) (bar : Bar) (intended : ℚ) : ℚ := intended + eng.costModel.slippage o bar intended

/-- The fill `_execute` builds. -/
def fillFor (o : Order) (bar : Bar) (intended : ℚ) : Fill where
  orderId := o.id
  ts := bar.ts
  qty := fillQty eng o bar
  price := fillPrice eng o bar intended
  fee := eng.costModel.commission o (fillPrice eng o bar intended) (fillQty eng o bar)
  venueFillId := none

/-- The warning of a capped fill. -/
def warnCapped (o : Order) (bar : Bar) (s : EngineState σ τ) : EngineState σ τ :=
  if volumeCap eng bar < o.remainingQty then
    s.warn [.ts bar.ts, .lit " ", .lit o.symbol, .lit ": wanted ", .dec o.remainingQty, .lit ", volume cap allowed ",
      .dec (volumeCap eng bar)]
  else s

/-- **`_execute`**: slippage, the volume cap, then the fill; the order it leaves. -/
def execute (o : Order) (bar : Bar) (intended : ℚ) : Prog (Replay σ τ) Exc Order := do
  if fillPrice eng o bar intended ≤ 0 then
    throw ⟨.backtestError, [.lit "slippage produced a non-positive fill price ", .dec (fillPrice eng o bar intended)]⟩
  else
    update (warnCapped eng o bar)
    if fillQty eng o bar ≤ 0 then return o
    else
      let o' ← fromExcept (o.applyFill (fillFor eng o bar intended))
      let s ← observe
      let s' ← fromExcept (bookFill eng bars o (fillFor eng o bar intended) s)
      update fun _ => s'.record o'
      note (.booked o (fillFor eng o bar intended) (s.portfolio.held o.symbol) (s'.portfolio.held o.symbol))
      return o'

/-! ## Stops -/

/-- The position as the ratchet leaves it, and what it raised. -/
def ratchet (s : EngineState σ τ) (bar : Bar) : Except Exc (Option ℚ) × Position :=
  let p := s.portfolio.position bar.symbol
  match eng.stopConfig with
  | none => (.ok none, p)
  | some c => exec (updateTrailing bar c (atrOf eng bars s bar.symbol)) p

/-- `_maintain_trailing`, before the levels are tested: a level that cannot be computed does not move. -/
def maintainTrailing (bar : Bar) : Prog (Replay σ τ) Exc PUnit := do
  let s ← observe
  let r := ratchet eng bars s bar
  update fun s => { s with portfolio := s.portfolio.setPosition bar.symbol r.2 }
  match r.1 with
  | .ok _ => return ⟨⟩
  | .error e => if e.cls.isA .valueError || e.cls.isA .atpError then return ⟨⟩ else throw e

/-- What is due on an open position at this bar and the price it is due at: the stop first, then the target, and only
then the time a position may be held. -/
def dueExit (barsHeld : Option ℕ) (bar : Bar) (p : Position) : Except Exc (Option (Purpose × ℚ)) :=
  match shouldTrigger p bar, p.stopLossPrice, targetHit p bar, p.takeProfitPrice with
  | true, some stop, _, _ => .ok (some (.stopLoss, if p.isLong then min bar.open stop else max bar.open stop))
  | _, _, true, some target =>
    .ok (some (.takeProfit, if p.isLong then max bar.open target else min bar.open target))
  | _, _, _, _ =>
    match eng.stopConfig, barsHeld with
    | some c, some held =>
      match timeExitDue held c with
      | .error e => .error e
      | .ok due => .ok (if due then some (.timeExit, bar.close) else none)
    | _, _ => .ok none

/-- The order that closes a position for a reason that is not a signal. -/
def closingOrder (id : String) (bar : Bar) (p : Position) (reason : Purpose) : Order where
  symbol := bar.symbol
  side := if p.isLong then .sell else .buy
  qty := |p.qty|
  orderType := if reason = .stopLoss then .stop else if reason = .takeProfit then .limit else .market
  stopPrice := if reason = .stopLoss then p.stopLossPrice else none
  limitPrice := if reason = .takeProfit then p.takeProfitPrice else none
  id := id
  clientOrderId := "atp-" ++ id
  strategyId := some eng.strategy.name
  createdAt := some bar.ts
  status := .submitted
  purpose := reason

/-- **`_check_stops`**, with `_exit_at_market` as its last case. -/
def checkStops (bar : Bar) : Prog (Replay σ τ) Exc PUnit := do
  let met ← observe
  note (.bar bar met)
  if (met.portfolio.position bar.symbol).isFlat then return ⟨⟩
  else
    maintainTrailing eng bars bar
    let s ← observe
    let p := s.portfolio.position bar.symbol
    match ← fromExcept (dueExit eng (s.barsHeld.get? bar.symbol) bar p) with
    | none => return ⟨⟩
    | some (reason, price) =>
      let o ← fromExcept (closingOrder eng (eng.newId s.drawn) bar p reason).postInit
      update fun s => { s with drawn := s.drawn + 1 }
      let o' ← execute eng bars o bar price
      update (EngineState.record o')

/-! ## Fills -/

/-- The loop of `_fill_pending_for`, returning `still_resting`. -/
def fillResting (bar : Bar) : List Order → Prog (Replay σ τ) Exc (List Order)
  | [] => return []
  | o :: rest => do
    if o.symbol ≠ bar.symbol then
      let resting ← fillResting bar rest
      return o :: resting
    else
      match ← fromExcept (intendedPrice o bar false) with
      | none =>
        if o.timeInForce = .day then
          update (EngineState.record { o with status := .expired })
          fillResting bar rest
        else
          let resting ← fillResting bar rest
          return o :: resting
      | some price =>
        let o' ← execute eng bars o bar price
        if 0 < o'.remainingQty then
          if o.timeInForce = .day then
            update (EngineState.record { o' with status := .expired })
            fillResting bar rest
          else
            let resting ← fillResting bar rest
            return o' :: resting
        else fillResting bar rest

/-- **`_fill_pending_for`.** -/
def fillPendingFor (bar : Bar) : Prog (Replay σ τ) Exc PUnit := do
  let s ← observe
  let resting ← fillResting eng bars bar s.pending
  update fun s => { s with pending := resting }

/-! ## Signals -/

/-- `_book_refusal`. -/
def bookRefusal (o : Order) (bar : Bar) (rule : String) (reason : List Piece) : Prog (Replay σ τ) Exc PUnit :=
  update fun s =>
    (s.record { o with status := .rejectedRisk, rejectReason := some (eng.text reason), rejectedBy := some rule }).warn
      ([.ts bar.ts, .lit " ", .lit o.symbol, .lit ": refused (", .lit rule, .lit ") "] ++ reason)

/-- `_with_derived_stop`. -/
def withDerivedStop (s : EngineState σ τ) (signal : Signal) (bar : Bar) : Signal :=
  match eng.stopConfig, signal.stopLossPrice with
  | some c, none =>
    if c.stopType = .time then signal
    else
      let side := if signal.action = .enterLong then Side.buy else Side.sell
      match initialStop bar.close side c (atrOf eng bars s signal.symbol) with
      | .ok level => { signal with stopLossPrice := some level }
      | .error _ => signal
  | _, _ => signal

/-- The order a sized signal becomes. -/
def signalOrder (id : String) (signal : Signal) (bar : Bar) (side : Side) (qty : ℚ) (purpose : Purpose) : Order where
  symbol := signal.symbol
  side := side
  qty := qty
  orderType := if signal.limitPrice.any (· ≠ 0) then .limit else .market
  limitPrice := signal.limitPrice
  id := id
  clientOrderId := "atp-" ++ id
  strategyId := some signal.strategyId
  signalId := some signal.id
  createdAt := some bar.ts
  purpose := purpose

/-- An order the chain approved, at the size it approved. -/
def approvedOrder (d : RiskDecision) (o : Order) (bar : Bar) : Order :=
  match d.adjustedQty with
  | none => { o with status := .submitted, submittedAt := some bar.ts }
  | some q => { o with qty := q.1, status := .submitted, submittedAt := some bar.ts }

/-- The end of `_handle_signal`: build the order, ask the chain, queue what it approves for the next bar. -/
def queueOrder (signal : Signal) (bar : Bar) (side : Side) (qty : ℚ) (purpose : Purpose) :
    Prog (Replay σ τ) Exc PUnit := do
  if qty ≤ 0 then return ⟨⟩
  else
    let s ← observe
    let o ← fromExcept (signalOrder (eng.newId s.drawn) signal bar side qty purpose).postInit
    let r := validate eng.limits eng.rules o s.portfolio s.pending s.rules
    update fun s => { s with drawn := s.drawn + 1, rules := r.2.2 }
    if !r.1.approved then bookRefusal eng r.2.1 bar r.1.rule r.1.reason
    else
      let o' := approvedOrder r.1 r.2.1 bar
      update fun s =>
        { s.record o' with
          pending := s.pending ++ [o']
          protection :=
            if signal.stopLossPrice.isSome || signal.takeProfitPrice.isSome then
              s.protection.set o'.id (signal.stopLossPrice, signal.takeProfitPrice)
            else s.protection }

/-- The entry branch of `_handle_signal`: a signal that cannot be sized is a refused order. -/
def enter (s : EngineState σ τ) (signal : Signal) (bar : Bar) (side : Side) : Prog (Replay σ τ) Exc PUnit :=
  match eng.positionSizer with
  | none =>
    throw ⟨.backtestError, [.lit "an entry signal needs a position_sizer; real sizing is ",
      .lit "risk-based and lands with the risk engine (docs/RISK.md)"]⟩
  | some sizer =>
    match sizer signal s.portfolio bar.close with
    | .ok qty => queueOrder eng signal bar side qty .entry
    | .error e =>
      if e.cls.isA .valueError then do
        update fun s => { s with drawn := s.drawn + 1 }
        bookRefusal eng { signalOrder (eng.newId s.drawn) signal bar side 1 .entry with
          orderType := .market, limitPrice := none } bar "sizing" e.message
      else throw e

/-- **`_handle_signal`**: size, risk-check, queue. -/
def handleSignal (signal : Signal) (bar : Bar) : Prog (Replay σ τ) Exc PUnit := do
  let s ← observe
  let p := s.portfolio.position signal.symbol
  match signal.action with
  | .hold => return ⟨⟩
  | .exit =>
    if p.isFlat then return ⟨⟩
    else queueOrder eng signal bar (if p.isLong then .sell else .buy) |p.qty| .exit
  | .scaleOut =>
    if p.isFlat then return ⟨⟩
    else
      throw ⟨.backtestError, [.lit "SCALE_OUT is not modelled yet — the fraction to close is ",
        .lit "undefined, and guessing it would silently change results"]⟩
  | .enterLong => enter eng s (withDerivedStop eng bars s signal bar) bar .buy
  | .enterShort => enter eng s (withDerivedStop eng bars s signal bar) bar .sell
  | .scaleIn => throw ⟨.backtestError, [.lit "scale_in", .lit " is not modelled by the backtest engine"]⟩

/-! ## The event loop -/

/-- A symbol that printed at an instant, with the index of its bar. -/
def printedAt (ts : ℤ) (symbol : String) : Option (String × ℕ × Bar) :=
  let series := (bars.get? symbol).getD []
  match series.findIdx? (fun b => b.ts = ts) with
  | none => none
  | some i => series[i]?.map fun b => (symbol, i, b)

/-- The cursor, the mark and the age of the position, as a symbol's bar opens. -/
def openBar (symbol : String) (i : ℕ) (bar : Bar) : Prog (Replay σ τ) Exc PUnit := do
  let s ← observe
  if (s.cursor.get? symbol).any (fun j => i < j) then
    throw ⟨.lookaheadError, [.lit "cursor for ", .lit symbol, .lit " cannot go backwards"]⟩
  else
    update fun s =>
      { s with
        cursor := s.cursor.set symbol i
        seen := s.seen.set symbol ((s.seen.get? symbol).getD 0 + 1)
        portfolio := s.portfolio.setPosition symbol { s.portfolio.position symbol with lastPrice := some bar.close }
        barsHeld := match s.barsHeld.get? symbol with
          | none => s.barsHeld
          | some n => s.barsHeld.set symbol (n + 1) }

/-- One symbol's bar: opened, its stops resolved, its resting orders filled. -/
def barPhase (x : String × ℕ × Bar) : Prog (Replay σ τ) Exc PUnit := do
  openBar x.1 x.2.1 x.2.2
  checkStops eng bars x.2.2
  fillPendingFor eng bars x.2.2

def markClose (s : EngineState σ τ) (x : String × ℕ × Bar) : EngineState σ τ :=
  { s with portfolio := s.portfolio.setPosition x.1 { s.portfolio.position x.1 with lastPrice := some x.2.2.close } }

/-- The books re-marked to the close and a point on both curves. -/
def closeBook (ts : ℤ) (printed : List (String × ℕ × Bar)) (s : EngineState σ τ) : EngineState σ τ :=
  let s := printed.foldl markClose s
  let equity := s.portfolio.equity
  { s with
    portfolio := { s.portfolio with equityCurve := s.portfolio.equityCurve ++ [(ts, equity)] }
    equityCurve := s.equityCurve ++ [(ts, equity)]
    barsInMarket := if s.portfolio.openPositions.isEmpty then s.barsInMarket else s.barsInMarket + 1 }

def contextOf (s : EngineState σ τ) : BacktestContext where
  now := s.now
  symbols := eng.config.symbols
  visible := visible bars s
  portfolio := s.portfolio

/-- One symbol's decisions: what the strategy says during warmup is discarded. -/
def signalPhase (x : String × ℕ × Bar) : Prog (Replay σ τ) Exc PUnit := do
  let s ← observe
  let r := eng.strategy.onBar (contextOf eng bars s) x.2.2 s.strategy
  update fun s => { s with strategy := r.2 }
  let signals ← fromExcept r.1
  if (s.seen.get? x.1).getD 0 ≤ eng.config.warmupBars.getD eng.strategy.warmupBars then return ⟨⟩
  else
    update fun s => { s with signals := s.signals ++ signals }
    signals.forM fun signal => handleSignal eng bars signal x.2.2

/-- The clock at the bar's close, and the session anchor on a new date. -/
def openInstant (ts : ℤ) (s : EngineState σ τ) : EngineState σ τ :=
  let s := { s with now := ts + eng.config.timeframe.seconds }
  if s.session = some (ts / 86400) then s
  else { s with session := some (ts / 86400), rules := eng.anchorSession s.portfolio.equity s.rules }

/-- **One instant of the merged timeline.** -/
def stepAt (ts : ℤ) : Prog (Replay σ τ) Exc PUnit := do
  update (openInstant eng ts)
  let printed := eng.config.symbols.filterMap (printedAt bars ts)
  printed.forM (barPhase eng bars)
  update (closeBook ts printed)
  printed.forM (signalPhase eng bars)

/-- The merged timeline: every instant any symbol printed at, once, in order. -/
def timeline : List ℤ := ((bars.values.flatMap fun series => series.map Bar.ts).insertionSort (· ≤ ·)).dedup

/-- **The loop of `run`.** -/
def run : Prog (Replay σ τ) Exc PUnit := (timeline bars).forM (stepAt eng bars)

end

end Backtest
end Atp
