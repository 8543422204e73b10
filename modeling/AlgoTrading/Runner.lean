import AlgoTrading.Protection
import AlgoTrading.TradeUpdates
/-!
# Runner — the live loop and the orders it watches

From `atp_worker/runner.py`: `evaluate` and `on_fill_event`, which take turns under one lock, and the part of `warmup`
that puts stored orders back.  What one pass is shown (bars, marks, the strategy's signals) and what the venue and the
storage answer is any input.  Statistics, logs and announcements are left out: none of them can raise, and nothing here
reads them.
-/
namespace Atp

open Raising TradeUpdates

/-- The runner's repositories; a write may raise. -/
structure Repositories (ω : Type) where
  saveSignal : Signal → SubmitResult → Prog ω Exc Unit
  saveOrder : Order → Prog ω Exc Unit
  snapshot : Portfolio → Prog ω Exc Unit

/-- What one evaluation pass is shown: the bars that closed, the marks, the day's anchor and the strategy's signals. -/
structure Pass (σ : Type) where
  closed : List Bar
  marks : Except Exc (List (String × ℚ))
  anchor : σ → σ := id
  atr : String → Option ℚ
  barsHeld : Position → Option ℤ
  lastPrice : String → Option ℚ
  signals : Except Exc (List Signal)

structure RunnerState (β σ ω : Type) where
  desk : Desk β σ
  store : ω
  openOrders : Dict String Ref := .empty
  unprotected : Dict String ℚ := .empty
  unprotectedEntries : Dict String Ref := .empty
  rateLimitRefusals : ℕ := 0
  consecutiveErrors : ℕ := 0
  bookBound : Bool := true

structure StrategyRunner (β L σ ω : Type) where
  router : OrderRouter β L σ
  repos : Repositories ω
  killSwitch : KillSwitch
  stopConfig : StopConfig
  sizing : PositionSizeSpec
  strategy : String

namespace RunnerState

variable {β σ ω α : Type}

def onDesk (x : Prog (Desk β σ) Exc α) : Prog (RunnerState β σ ω) Exc α :=
  within RunnerState.desk (fun s d => { s with desk := d }) x

def onStore (x : Prog ω Exc α) : Prog (RunnerState β σ ω) Exc α :=
  within RunnerState.store (fun s w => { s with store := w }) x

/-- A program on one order object. -/
def onObject (ref : Ref) (o : Order) (x : Prog Order Exc α) : Prog (RunnerState β σ ω) Exc α :=
  within (fun s => (s.desk.heap[ref]?).getD o) (fun s o => { s with desk := { s.desk with heap := s.desk.heap.set ref o } }) x

def setPosition (s : RunnerState β σ ω) (symbol : String) (p : Position) : RunnerState β σ ω :=
  { s with desk := s.desk.setPosition symbol p }

/-- A program on one position. -/
def onPosition (symbol : String) (x : Prog Position Exc α) : Prog (RunnerState β σ ω) Exc α :=
  within (fun s => s.desk.portfolio.position symbol) (fun s p => s.setPosition symbol p) x

variable (s : RunnerState β σ ω)

/-- `open_orders`. -/
def openOrderList : List Order := s.openOrders.values.filterMap (fun ref => s.desk.heap[ref]?)

/-- The runner's copy of an order. -/
def tracked (clientOrderId : String) : Option (Ref × Order) :=
  (s.openOrders.get? clientOrderId).bind (fun ref => (s.desk.heap[ref]?).map (fun o => (ref, o)))

/-- `_track`. -/
def track (ref : Ref) (o : Order) : RunnerState β σ ω :=
  if o.isComplete then { s with openOrders := s.openOrders.erase o.clientOrderId }
  else { s with openOrders := s.openOrders.set o.clientOrderId ref }

/-- The protection gap of a symbol, as `_unprotected` and `_unprotected_entries` keep it. -/
def setGap (symbol : String) (qty : ℚ) (entry : Ref) : RunnerState β σ ω :=
  { s with unprotected := s.unprotected.set symbol qty, unprotectedEntries := s.unprotectedEntries.set symbol entry }

def dropGap (symbol : String) : RunnerState β σ ω :=
  { s with unprotected := s.unprotected.erase symbol, unprotectedEntries := s.unprotectedEntries.erase symbol }

/-- `_stop_is_missing`. -/
def stopIsMissing (p : Position) : Bool :=
  s.unprotected.contains p.symbol && decide (s.desk.brokerSideProtectedQty p < |p.qty|)

/-- `_note_protection_gap`. -/
def noteProtectionGap (symbol : String) : RunnerState β σ ω :=
  match s.desk.portfolio.positions.get? symbol with
  | none => s
  | some p =>
    if p.isFlat || decide (|p.qty| - s.desk.brokerSideProtectedQty p ≤ 0) then s
    else { s with unprotected := s.unprotected.set symbol (|p.qty| - s.desk.brokerSideProtectedQty p) }

end RunnerState

/-- `MAX_CONSECUTIVE_ERRORS`. -/
def maxConsecutiveErrors : ℕ := 3

/-- `RATE_LIMIT_STORM_REFUSALS`. -/
def rateLimitStormRefusals : ℕ := 5

def dailyLossRule : String := "daily_loss_limit"

def rateLimitRule : String := "rate_limit"

namespace StrategyRunner

open RunnerState

variable {β L σ ω : Type} (w : StrategyRunner β L σ ω)

/-- `self.kill_switch.engage(...)`. -/
def engage (halt : Engagement) : Prog (RunnerState β σ ω) Exc Unit := do
  fromExcept (w.killSwitch.engage halt)
  modify (fun s => { s with desk := { s.desk with halts := s.desk.halts ++ [halt] } })

/-- `_record_refusal`: a write that fails is let go. -/
def recordRefusal (result : SubmitResult) : Prog (RunnerState β σ ω) Exc Unit := do
  match result.submitted, result.order with
  | false, some order =>
    let _ ← tried (onStore (w.repos.saveOrder order))
    return ()
  | _, _ => return ()

/-- `_record_signal`: a durable record, whose write may raise. -/
def recordSignal (signal : Signal) (result : SubmitResult) : Prog (RunnerState β σ ω) Exc Unit :=
  onStore (w.repos.saveSignal signal result)

/-- `_with_stop`: a level the configuration cannot give leaves the signal as it is. -/
def withStop (pass : Pass σ) (signal : Signal) : Signal :=
  if signal.stopLossPrice.isSome then signal
  else if signal.action ≠ .enterLong ∧ signal.action ≠ .enterShort then signal
  else if w.stopConfig.stopType = .time then signal
  else match pass.lastPrice signal.symbol with
    | none => signal
    | some price =>
      match initialStop price (if signal.action = .enterLong then .buy else .sell) w.stopConfig (pass.atr signal.symbol) with
      | .error _ => signal
      | .ok level => { signal with stopLossPrice := some level }

/-- `_escalate`: a daily loss halts at once, a rate limit when it refuses in a row. -/
def escalate (decision : RiskDecision) : Prog (RunnerState β σ ω) Exc Unit := do
  if decision.rule = dailyLossRule then
    w.engage { scope := .global, reason := .dailyLossLimit, engagedBy := dailyLossRule, detail := decision.reason }
    modify (fun s => { s with rateLimitRefusals := 0 })
  else if decision.rule = rateLimitRule then
    modify (fun s => { s with rateLimitRefusals := s.rateLimitRefusals + 1 })
    let s ← get
    if rateLimitStormRefusals ≤ s.rateLimitRefusals then
      w.engage { scope := .global, reason := .rateLimitStorm, engagedBy := rateLimitRule,
                 detail := [.dec s.rateLimitRefusals, .lit " consecutive rate-limit refusals: "] ++ decision.reason }
  else modify (fun s => { s with rateLimitRefusals := 0 })

/-- `_submit` after the signal is recorded. -/
def settleSubmission (signal : Signal) (s : Submission) : Prog (RunnerState β σ ω) Exc Unit := do
  match s.result.submitted, s.object, s.result.order with
  | true, some ref, some order => modify (fun t => t.track ref order)
  | true, _, _ => return ()
  | false, _, _ =>
    if s.result.decision.rule ≠ SubmitResult.noActionRule && !s.result.decision.approved then
      w.escalate s.result.decision
    w.recordRefusal s.result
    if signal.action = .exit then modify (fun t => t.noteProtectionGap signal.symbol)

/-- **`_submit`**. -/
def submit (pass : Pass σ) : List Signal → Prog (RunnerState β σ ω) Exc Unit
  | [] => return ()
  | signal :: rest => do
    if signal.action = .hold then submit pass rest
    else
      let pending := (← get).openOrderList
      let s ← onDesk (w.router.submitSignal (w.withStop pass signal) w.sizing pending)
      w.recordSignal signal s.result
      w.settleSubmission signal s
      submit pass rest

/-- `_exit_reason`. -/
def exitReason (pass : Pass σ) (s : RunnerState β σ ω) (p : Position) (bar : Bar) : Except Exc (Option Purpose) :=
  if w.stopConfig.stopType = .time then
    match pass.barsHeld p with
    | none => .ok none
    | some held => (fun due => if due then some .timeExit else none) <$> timeExitDue held w.stopConfig
  else if w.stopConfig.brokerSide && !s.stopIsMissing p then .ok (if targetHit p bar then some .takeProfit else none)
  else if shouldTrigger p bar then .ok (some .stopLoss)
  else .ok (if targetHit p bar then some .takeProfit else none)

/-- `_check_stops`, for one symbol whose bar closed. -/
def checkStop (pass : Pass σ) (symbol : String) (bar : Bar) : Prog (RunnerState β σ ω) Exc Unit := do
  if w.stopConfig.stopType.isTrailing then
    let _ ← onPosition symbol (updateTrailing bar w.stopConfig (pass.atr symbol))
  let s ← get
  match ← fromExcept (w.exitReason pass s (s.desk.portfolio.position symbol) bar) with
  | none => return ()
  | some reason =>
    let s ← onDesk (w.router.flatten symbol reason)
    match s.result.submitted, s.object, s.result.order with
    | true, some ref, some order => modify (fun t => t.track ref order)
    | true, _, _ => return ()
    | false, _, _ =>
      w.recordRefusal s.result
      modify (fun t => t.noteProtectionGap symbol)

/-- **`_check_stops`**: the last bar of a symbol is the one that counts. -/
def checkStops (pass : Pass σ) : List String → Prog (RunnerState β σ ω) Exc Unit
  | [] => return ()
  | symbol :: rest => do
    match pass.closed.reverse.find? (fun bar => bar.symbol = symbol) with
    | none => checkStops pass rest
    | some bar =>
      w.checkStop pass symbol bar
      checkStops pass rest

/-- What `_protect` makes of the router's answer. -/
def protectionPlaced (entry : Ref) (symbol : String) (retry : Bool) (result : ProtectionResult) :
    Prog (RunnerState β σ ω) Exc Unit := do
  modify (fun s => result.placed.foldl (fun s c => s.track c.1 c.2) s)
  if result.deferred then modify (fun s => s.setGap symbol result.unprotectedQty entry)
  else if result.isFullyProtected then modify (fun s => s.dropGap symbol)
  else
    modify (fun s => s.setGap symbol result.unprotectedQty entry)
    if !retry then result.refused.forM w.recordRefusal

/-- **`_protect`**: a raise leaves the gap behind before it goes on. -/
def protect (atr : String → Option ℚ) (entry : Ref) (order : Order) (retry : Bool) :
    Prog (RunnerState β σ ω) Exc Unit := do
  let p := (← get).desk.portfolio.position order.symbol
  if p.isFlat then return ()
  if decide (0 < p.qty) ≠ decide (order.side = .buy) then return ()
  match ← tried (onDesk (w.router.submitProtectiveOrders order (some w.stopConfig) (atr order.symbol))) with
  | .error exc =>
    modify (fun s => s.setGap order.symbol |p.qty| entry)
    throw exc
  | .ok result => w.protectionPlaced entry order.symbol retry result

/-- `_retry_protection`: a retry that raises is retried again on the next pass. -/
def retryProtection (atr : String → Option ℚ) : List (String × Ref) → Prog (RunnerState β σ ω) Exc Unit
  | [] => return ()
  | (symbol, ref) :: rest => do
    let s ← get
    match s.desk.portfolio.positions.get? symbol, s.desk.heap[ref]? with
    | some p, some entry =>
      if p.isFlat then modify (fun s => s.dropGap symbol)
      else if entry.isComplete then
        let _ ← tried (w.protect atr ref entry true)
    | _, _ => modify (fun s => s.dropGap symbol)
    retryProtection atr rest

/-- The writes of `_save_book`. -/
def saveBook : Prog (RunnerState β σ ω) Exc Unit := do
  (← get).openOrderList.forM (fun o => onStore (w.repos.saveOrder o))
  onStore (w.repos.snapshot (← get).desk.portfolio)

/-- `_checkpoint`: after an event, and never in its way. -/
def checkpoint : Prog (RunnerState β σ ω) Exc Unit := do
  if !(← get).bookBound then return ()
  let _ ← tried w.saveBook

/-- `_mark_broker_protection`: each open position with what its live stops cover. -/
def markBrokerProtection (s : RunnerState β σ ω) : RunnerState β σ ω :=
  s.desk.portfolio.openPositions.foldl
    (fun s p => s.setPosition p.symbol { p with brokerProtectedQty := s.desk.brokerSideProtectedQty p }) s

/-- The marks of `_mark`. -/
def marked (marks : List (String × ℚ)) (s : RunnerState β σ ω) : RunnerState β σ ω :=
  marks.foldl (fun s m => s.setPosition m.1 { s.desk.portfolio.position m.1 with lastPrice := some m.2 }) s

/-- **`_evaluate_once`**. -/
def evaluateOnce (pass : Pass σ) : Prog (RunnerState β σ ω) Exc Unit := do
  let marks ← fromExcept pass.marks
  modify (marked marks)
  modify (fun s => { s with desk := { s.desk with risk := pass.anchor s.desk.risk } })
  w.retryProtection pass.atr (← get).unprotectedEntries.entries
  w.checkStops pass ((← get).desk.portfolio.openPositions.map Position.symbol)
  let signals ← fromExcept pass.signals
  w.submit pass signals
  modify markBrokerProtection
  w.saveBook

/-- **`evaluate`**: one bad pass is counted, not raised; three in a row halt the strategy. -/
def evaluate (pass : Pass σ) : Prog (RunnerState β σ ω) Exc Unit := do
  match ← tried (w.evaluateOnce pass) with
  | .ok _ => modify (fun s => { s with consecutiveErrors := 0 })
  | .error exc =>
    modify (fun s => { s with consecutiveErrors := s.consecutiveErrors + 1 })
    let s ← get
    if maxConsecutiveErrors ≤ s.consecutiveErrors then
      w.engage { scope := .strategy, reason := .unhandledException, engagedBy := "strategy_runner",
                 detail := [.lit w.strategy, .lit " failed ", .dec s.consecutiveErrors, .lit " evaluations in a row: "] ++
                   exc.message,
                 target := some w.strategy }

/-- A booked fill, from the position on. -/
def booked (atr : String → Option ℚ) (ref : Ref) (order : Order) (fill : Fill) : Prog (RunnerState β σ ω) Exc Unit := do
  let s ← get
  let portfolio ← fromExcept (s.desk.portfolio.applyToPortfolio order fill)
  modify (fun s => { s with desk := { s.desk with portfolio := portfolio } })
  if (portfolio.position order.symbol).isFlat then
    modify (fun s => s.dropGap order.symbol)
    let _ ← onDesk (w.router.cancelProtection order.symbol)
  w.protect atr ref order false

/-- The end of `on_fill_event`: a completed order is saved and leaves the working set. -/
def retire (order : Order) : Prog (RunnerState β σ ω) Exc Unit := do
  if order.isComplete then
    onStore (w.repos.saveOrder order)
    modify (fun s => { s with
      openOrders := s.openOrders.erase order.clientOrderId
      desk := { s.desk with working := s.desk.working.filter (· ≠ order.clientOrderId) } })

/-- `on_fill_event` for an order that is tracked. -/
def onTracked (atr : String → Option ℚ) (update : TradeUpdate) (ref : Ref) (before : Order) :
    Prog (RunnerState β σ ω) Exc Unit := do
  if ← onObject ref before (applyTradeUpdate update) then
    let order := ((← get).desk.heap[ref]?).getD before
    match order.fills.getLast?, decide (before.filledQty < order.filledQty) with
    | some fill, true =>
      w.booked atr ref order fill
      w.retire order
      w.checkpoint
    | _, _ =>
      if order.isComplete && !before.isComplete && decide (0 < order.filledQty) then w.protect atr ref order false
      w.retire order

/-- **`on_fill_event`**: an update for an order nobody tracks is dropped. -/
def onFillEvent (atr : String → Option ℚ) (update : TradeUpdate) : Prog (RunnerState β σ ω) Exc Unit := do
  match (← get).tracked update.clientOrderId with
  | none => return ()
  | some (ref, before) => w.onTracked atr update ref before

/-- One stored order, put into the working set as a new object. -/
def restoreOne (s : RunnerState β σ ω) (o : Order) : RunnerState β σ ω :=
  { s with
    desk := { s.desk with heap := s.desk.heap ++ [o] }
    openOrders := s.openOrders.set o.clientOrderId s.desk.heap.length }

/-- `warmup`, from the read of the stored orders to the adoption of their stops. -/
def restore (stored : List Order) (s : RunnerState β σ ω) : RunnerState β σ ω :=
  let s := stored.foldl restoreOne s
  { s with desk := s.desk.adoptProtection s.openOrders.values }

end StrategyRunner

/-- What happens to a runner between two releases of its lock. -/
inductive RunnerStep (σ : Type)
  | evaluation (pass : Pass σ)
  | fillEvent (atr : String → Option ℚ) (update : TradeUpdate)
  | warmup (stored : List Order)

namespace StrategyRunner

variable {β L σ ω : Type} (w : StrategyRunner β L σ ω)

/-- The state a step leaves, whether it returned or raised. -/
def after (s : RunnerState β σ ω) : RunnerStep σ → RunnerState β σ ω
  | .evaluation pass => (exec (w.evaluate pass) s).2
  | .fillEvent atr update => (exec (w.onFillEvent atr update) s).2
  | .warmup stored => restore stored s

def step (s : RunnerState β σ ω) (i : RunnerStep σ) (t : RunnerState β σ ω) : Prop := t = w.after s i

end StrategyRunner
end Atp
