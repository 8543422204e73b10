import AlgoTrading.Router
import AlgoTrading.Stops
/-!
# Protection — closes, and the stops that stand behind a position

The rest of `OrderRouter` (`execution/router.py`): the requests it builds orders from, `_close` with the release and
re-arm of the stops that hold the shares, and the placing of protective orders, with the keys of
`execution/idempotency.py` and the sizing of `risk/rules.py`.  An order is an object that the router and its caller both
refer to, so `Desk` holds the objects in a heap and the books hold references; two objects may describe one order.  One
field of `Desk` is no part of the source: `working`, the keys the venue has acknowledged as working.
-/
namespace Atp

open Raising Routing

/-! ## Sizing -/

inductive SizingMethod
  | fixedQty
  | fixedNotional
  | equityPct
  | riskPct
  | volatilityTarget
deriving DecidableEq, Repr

/-- `to_integral_value(rounding=ROUND_DOWN)`: toward zero. -/
def roundDown (x : ℚ) : ℚ := if 0 ≤ x then ⌊x⌋ else ⌈x⌉

/-- The shares a method asks for, before they are rounded down. -/
def rawSize (method : SizingMethod) (equity price : ℚ) (stopPrice : Option ℚ) (riskPct : ℚ) (volatility : Option ℚ) :
    Except Exc ℚ :=
  match method with
  | .fixedQty => .ok riskPct
  | .fixedNotional => .ok (riskPct / price)
  | .equityPct => .ok (equity * riskPct / price)
  | .riskPct =>
    match stopPrice with
    | none => .error ⟨.valueError, [.lit "risk_pct sizing needs a stop: the quantity is defined by the distance to ",
        .lit "it, and defaulting that distance would silently size every trade as ",
        .lit "though its stop were somewhere it is not"]⟩
    | some stop =>
      if |price - stop| = 0 then
        .error ⟨.valueError, [.lit "stop price ", .dec stop, .lit " equals the entry price, so the risk per share is ",
          .lit "zero and the position size is unbounded"]⟩
      else .ok (equity * riskPct / |price - stop|)
  | .volatilityTarget =>
    match volatility with
    | none => .error ⟨.valueError, [.lit "volatility_target sizing needs the instrument's volatility; got ",
        .lit "None"]⟩
    | some v =>
      if v ≤ 0 then .error ⟨.valueError, [.lit "volatility_target sizing needs the instrument's volatility; got ", .dec v]⟩
      else .ok (equity * (riskPct / v) / price)

/-- **`position_size`**: whole shares, never rounded up. -/
def positionSize (method : SizingMethod) (equity price : ℚ) (stopPrice : Option ℚ) (riskPct : ℚ)
    (volatility : Option ℚ) : Except Exc ℚ :=
  if equity ≤ 0 then .error ⟨.valueError, [.lit "cannot size against equity of ", .dec equity]⟩
  else if price ≤ 0 then .error ⟨.valueError, [.lit "cannot size at a price of ", .dec price]⟩
  else if riskPct ≤ 0 then .error ⟨.valueError, [.lit "position size value must be positive, got ", .dec riskPct]⟩
  else roundDown <$> rawSize method equity price stopPrice riskPct volatility

/-- `PositionSizeSpec`. -/
structure PositionSizeSpec where
  method : SizingMethod
  value : ℚ

/-- What the router is asked to send, before sizing and the risk chain. -/
structure OrderRequest where
  symbol : String
  side : Side
  decidedAt : ℤ
  orderType : OrderType := .market
  qty : Option ℚ := none
  notional : Option ℚ := none
  limitPrice : Option ℚ := none
  stopLossPrice : Option ℚ := none
  takeProfitPrice : Option ℚ := none
  timeInForce : TimeInForce := .day
  strategyId : Option String := none
  signalId : Option String := none
  purpose : Purpose := .entry

/-- What a protective child covers, kept so it can be re-armed. -/
structure Cover where
  parentClientOrderId : String
  coveredFrom : ℚ
  coveredTo : ℚ
  released : ℕ := 0
deriving DecidableEq

/-- A reference to an order object: its place in the heap. -/
abbrev Ref := ℕ

/-- The router's books beside what its collaborators keep. -/
structure Desk (β σ : Type) where
  portfolio : Portfolio
  broker : β
  risk : σ
  halts : List Engagement := []
  heap : List Order := []
  drawn : ℕ := 0
  requestedProtection : Dict String (Option ℚ × Option ℚ) := .empty
  covered : Dict String ℚ := .empty
  protective : Dict String (List Ref) := .empty
  cover : Dict String Cover := .empty
  working : List String := []

/-- A `SubmitResult`, and the object its order is. -/
structure Submission where
  result : SubmitResult
  object : Option Ref := none

/-- `ProtectionResult`. -/
structure ProtectionResult where
  placed : List (Ref × Order) := []
  refused : List SubmitResult := []
  coveredQty : ℚ := 0
  unprotectedQty : ℚ := 0
  engineSideStop : Option ℚ := none
  deferred : Bool := false

def ProtectionResult.isFullyProtected (r : ProtectionResult) : Bool := r.unprotectedQty = 0 && r.refused.isEmpty

/-- `OrderRouter`: a router with its stop manager's configuration passed per call, the ids it draws, the digest its keys are
made with and `str.upper`. -/
structure OrderRouter (β L σ : Type) extends Router β L σ where
  newId : ℕ → String
  digest : List Piece → String
  upper : String → String := String.toUpper
  cancelAckPolls : ℕ := 50

namespace Desk

variable {β σ α : Type} (d : Desk β σ)

/-- `self._protective.get(symbol, [])`, each child with the reference it is kept under. -/
def childRefs (symbol : String) : List (Ref × Order) :=
  ((d.protective.get? symbol).getD []).filterMap (fun ref => (d.heap[ref]?).map (fun o => (ref, o)))

def children (symbol : String) : List Order := (d.childRefs symbol).map Prod.snd

/-- `_protected_qty`. -/
def protectedQty (symbol : String) (closing : Side) : ℚ :=
  (((d.children symbol).filter (fun o => !o.isComplete && decide (o.side = closing))).map Order.remainingQty).sum

/-- `_tracked_broker_ids`. -/
def trackedBrokerIds (symbol : String) : List String := (d.children symbol).filterMap Order.brokerOrderId

/-- The children a symbol is left with: an empty list drops the key. -/
def setChildren (symbol : String) (refs : List Ref) : Desk β σ :=
  { d with protective := if refs.isEmpty then d.protective.erase symbol else d.protective.set symbol refs }

/-- `setdefault(symbol, []).append(child)`. -/
def addChild (symbol : String) (ref : Ref) : Desk β σ :=
  { d with protective := d.protective.set symbol (((d.protective.get? symbol).getD []) ++ [ref]) }

/-- Every child of every symbol. -/
def allChildren : List Order := d.protective.values.flatten.filterMap (fun ref => d.heap[ref]?)

/-- One order of `adopt_protection`: a live stop, no entry, that no child already is by either id. -/
def adoptOne (ref : Ref) : Desk β σ :=
  match d.heap[ref]? with
  | none => d
  | some o =>
    if o.isComplete || o.stopPrice.isNone || o.brokerOrderId.isNone || decide (o.purpose = .entry) ||
        (d.allChildren.map Order.id).contains o.id ||
        (d.allChildren.filterMap Order.brokerOrderId).any (fun id => o.brokerOrderId = some id) then d
    else d.addChild o.symbol ref

/-- **`adopt_protection`**, over the objects of the working set. -/
def adoptProtection (refs : List Ref) : Desk β σ := refs.foldl adoptOne d

def setPosition (symbol : String) (p : Position) : Desk β σ :=
  { d with portfolio := d.portfolio.setPosition symbol p }

def onBroker (x : Prog β Exc α) : Prog (Desk β σ) Exc α :=
  within Desk.broker (fun d b => { d with broker := b }) x

end Desk

/-- The side that closes a position. -/
def closingSide (p : Position) : Side := if p.isLong then .sell else .buy

/-- `broker_side_protected_qty`. -/
def Desk.brokerSideProtectedQty {β σ : Type} (d : Desk β σ) (p : Position) : ℚ := d.protectedQty p.symbol (closingSide p)

/-- `_protects`: an unmarked position is given the benefit of the doubt. -/
def protects (p : Position) (level : ℚ) : Bool :=
  match p.lastPrice with
  | none => true
  | some mark => if p.isLong then level < mark else level > mark

/-- `_tightest_stop`. -/
def tightestStop (p : Position) (candidate : ℚ) : ℚ :=
  match p.stopLossPrice with
  | none => candidate
  | some current => if !protects p current then candidate else if p.isLong then max current candidate else min current candidate

def sizing : String := "position_sizing"

namespace OrderRouter

variable {β L σ : Type} (r : OrderRouter β L σ)

/-- `client_order_id`: the same decision is the same key. -/
def clientOrderId (symbol : String) (side : Side) (decidedAt : ℤ) (strategyId : Option String) (purpose : Purpose) :
    Except Exc String :=
  if symbol = "" then .error ⟨.valueError, [.lit "client_order_id needs a symbol"]⟩
  else .ok (r.digest [.lit (strategyId.getD ""), .lit (r.upper symbol), .lit side.value, .lit purpose.value, .ts decidedAt])

/-- `protective_client_order_id`: keyed on the range of the entry that is covered. -/
def protectiveClientOrderId (parent : String) (purpose : Purpose) (coveredFrom coveredTo : ℚ) (attempt : ℕ) :
    Except Exc String :=
  if parent = "" then .error ⟨.valueError, [.lit "a protective order needs its parent's client_order_id"]⟩
  else if coveredFrom < 0 then
    .error ⟨.valueError, [.lit "a covered range starts at or after zero, got ", .dec coveredFrom]⟩
  else if coveredTo ≤ coveredFrom then
    .error ⟨.valueError, [.lit "a protective order must cover something, got the empty range (", .dec coveredFrom,
      .lit ", ", .dec coveredTo, .lit "]"]⟩
  else
    .ok (r.digest ([.lit parent, .lit purpose.value, .dec coveredFrom, .dec coveredTo] ++
      if attempt = 0 then [] else [.lit "attempt=", .dec attempt]))

/-- The id of a newly built order. -/
def draw : Prog (Desk β σ) Exc String := do
  let d ← get
  modify (fun d => { d with drawn := d.drawn + 1 })
  return r.newId d.drawn

/-- `_route` on the object `ref`, which keeps what a raise leaves of the order. -/
def routeObject (ref : Ref) (order : Order) (pending : List Order) : Prog (Desk β σ) Exc SubmitResult := do
  let d ← get
  within (fun d : Desk β σ => (⟨order, d.broker, d.risk, d.halts⟩ : Routing β σ))
    (fun d s => { d with broker := s.broker, risk := s.risk, halts := s.halts, heap := d.heap.set ref s.order })
    (r.route d.portfolio pending)

/-- A new object, sent through the gate. -/
def send (order : Order) (pending : List Order) : Prog (Desk β σ) Exc Submission := do
  let d ← get
  modify (fun d => { d with heap := d.heap ++ [order] })
  let result ← r.routeObject d.heap.length order pending
  if result.submitted then
    modify (fun d => { d with working := d.working ++ [order.clientOrderId] })
  return ⟨result, some d.heap.length⟩

/-- `_size_notional`, and the quantity a request states. -/
def requestedQty (request : OrderRequest) (portfolio : Portfolio) : Except Exc (ℚ ⊕ SubmitResult) :=
  match request.qty, request.notional with
  | some qty, _ => .ok (.inl qty)
  | none, none =>
    .ok (.inr (.refused sizing [.lit request.symbol, .lit ": the request states neither a quantity nor a ",
      .lit "notional, so there is nothing to submit"] none))
  | none, some notional =>
    match referencePrice request.symbol portfolio request.limitPrice with
    | none => .ok (.inr (.refused sizing [.lit request.symbol,
        .lit ": a notional request needs a price to turn into shares and none is available"] none))
    | some price =>
      if portfolio.equity ≤ 0 then
        .ok (.inr (.refused sizing [.lit request.symbol, .lit ": equity is ", .dec portfolio.equity] none))
      else match positionSize .fixedNotional portfolio.equity price none notional none with
        | .error e => .error e
        | .ok qty =>
          if qty ≤ 0 then .ok (.inr (.noAction [.lit request.symbol, .lit ": ", .dec notional, .lit " at ", .dec price,
            .lit " rounds down to no shares"]))
          else .ok (.inl qty)

/-- **`submit`**: build the order under its decision's key and route it. -/
def submit (request : OrderRequest) (pending : List Order) : Prog (Desk β σ) Exc Submission := do
  match ← fromExcept (requestedQty request (← get).portfolio) with
  | .inr refused => return ⟨refused, none⟩
  | .inl qty =>
    let key ← fromExcept (r.clientOrderId request.symbol request.side request.decidedAt request.strategyId request.purpose)
    let order ← fromExcept (Order.postInit {
      symbol := request.symbol, side := request.side, qty := qty, orderType := request.orderType,
      timeInForce := request.timeInForce, limitPrice := request.limitPrice, id := ← r.draw, clientOrderId := key,
      strategyId := request.strategyId, signalId := request.signalId, purpose := request.purpose,
      createdAt := some request.decidedAt })
    if request.stopLossPrice.isSome || request.takeProfitPrice.isSome then
      modify (fun d => { d with
        requestedProtection := d.requestedProtection.set order.id (request.stopLossPrice, request.takeProfitPrice) })
    r.send order pending

/-- Cancel a resting order; false when the broker would not. -/
def cancelled (brokerOrderId : String) : Prog (Desk β σ) Exc Bool := do
  match ← tried (Desk.onBroker (r.broker.cancelOrder brokerOrderId)) with
  | .ok _ => return true
  | .error exc => if exc.cls.isA .brokerError then return false else throw exc

/-- `_inherited_protection`: the stops the venue holds for a symbol that no book of ours names. -/
def inheritedProtection (symbol : String) (side : Option Side) (known : List String) : Prog (Desk β σ) Exc (List Order) := do
  match ← tried (Desk.onBroker r.broker.getOpenOrders) with
  | .error exc => if exc.cls.isA .brokerError then return [] else throw exc
  | .ok openOrders =>
    return openOrders.filter (fun o => decide (o.symbol = r.upper symbol) && side.all (fun s => o.side = s) &&
      !o.isComplete && o.stopPrice.isSome && o.brokerOrderId.any (fun id => !known.contains id))

/-- The loop of `cancel_protection`: our own children that survive, and how many orders were cancelled. -/
def cancelEach : List (Option Ref × Order) → List Ref → ℕ → Prog (Desk β σ) Exc (List Ref × ℕ)
  | [], survivors, n => return (survivors, n)
  | (ref, child) :: rest, survivors, n =>
    match child.isComplete, child.brokerOrderId with
    | false, some brokerOrderId => do
      if ← r.cancelled brokerOrderId then cancelEach rest survivors (n + 1)
      else cancelEach rest (survivors ++ ref.toList) n
    | _, _ => cancelEach rest survivors n

/-- **`cancel_protection`**: an inherited order is no child of ours, and has no reference. -/
def cancelProtection (symbol : String) : Prog (Desk β σ) Exc ℕ := do
  let d ← get
  let inherited ← r.inheritedProtection symbol none (d.trackedBrokerIds symbol)
  let swept ← r.cancelEach ((d.childRefs symbol).map (fun c => (some c.1, c.2)) ++ inherited.map (fun o => (none, o))) [] 0
  modify (fun d => d.setChildren symbol swept.1)
  return swept.2

/-- The loop of `_cancel_stale_protection`: the stale children that were cancelled. -/
def cancelStale : List (Ref × Order) → List Ref → Prog (Desk β σ) Exc (List Ref)
  | [], gone => return gone
  | (ref, child) :: rest, gone =>
    match child.brokerOrderId with
    | none => cancelStale rest gone
    | some brokerOrderId => do
      if ← r.cancelled brokerOrderId then cancelStale rest (gone ++ [ref])
      else cancelStale rest gone

/-- `_cancel_stale_protection`: a stop left on the other side of a reversal. -/
def cancelStaleProtection (symbol : String) (closing : Side) : Prog (Desk β σ) Exc Unit := do
  let d ← get
  let gone ← r.cancelStale ((d.childRefs symbol).filter
    (fun c => !c.2.isComplete && decide (c.2.side ≠ closing) && c.2.brokerOrderId.isSome)) []
  modify (fun d => { d with
    protective := match d.protective.get? symbol with
      | none => d.protective
      | some refs => d.protective.set symbol (refs.filter (fun ref => !gone.contains ref)) })

/-- The loop of `_release_protection`. -/
def releaseEach : List Order → List Order → Prog (Desk β σ) Exc (List Order)
  | [], released => return released
  | child :: rest, released =>
    match child.brokerOrderId with
    | none => releaseEach rest released
    | some brokerOrderId => do
      if ← r.cancelled brokerOrderId then
        modify (fun d => { d with
          cover := match d.cover.get? child.id with
            | none => d.cover
            | some cover => d.cover.set child.id { cover with released := cover.released + 1 } })
        releaseEach rest (released ++ [child])
      else releaseEach rest released

/-- **`_release_protection`**: cancel what holds the shares a close needs, and say what was cancelled. -/
def releaseProtection (symbol : String) (closing : Side) : Prog (Desk β σ) Exc (List Order) := do
  let d ← get
  let inherited ← r.inheritedProtection symbol (some closing) (d.trackedBrokerIds symbol)
  let holding := (d.children symbol).filter
    (fun c => !c.isComplete && decide (c.side = closing) && c.brokerOrderId.isSome) ++ inherited
  if holding.isEmpty then return []
  let released ← r.releaseEach holding []
  modify (fun e => e.setChildren symbol
    (((d.childRefs symbol).filter (fun c => !(released.map Order.id).contains c.2.id)).map Prod.fst))
  return released

/-- The polls of `_await_cancelled` for one stop: what the last read saw. -/
def readBack (brokerOrderId : String) : ℕ → Option Order → Prog (Desk β σ) Exc (Option Order)
  | 0, seen => return seen
  | n + 1, _ => do
    match ← tried (Desk.onBroker (r.broker.getOrder brokerOrderId)) with
    | .error exc => if exc.cls.isA .brokerError then return none else throw exc
    | .ok seen =>
      if seen.all (fun o => o.isComplete || decide (0 < o.filledQty)) then return seen
      else readBack brokerOrderId n seen

/-- **`_await_cancelled`**: the released stops that filled before their cancel. -/
def awaitCancelled : List Order → Prog (Desk β σ) Exc (List Order)
  | [] => return []
  | stop :: rest =>
    match stop.brokerOrderId with
    | none => awaitCancelled rest
    | some brokerOrderId => do
      let seen ← r.readBack brokerOrderId r.cancelAckPolls none
      let filled ← awaitCancelled rest
      return if seen.any (fun o => decide (0 < o.filledQty)) then stop :: filled else filled

/-- The stop `_rearm` puts back for a released one. -/
def replacement (symbol : String) (p : Position) (child : Order) (stopPrice qty : ℚ) (id key : String) : Order where
  symbol := symbol
  side := closingSide p
  qty := qty
  orderType := .stop
  timeInForce := .gtc
  stopPrice := some stopPrice
  strategyId := child.strategyId
  signalId := child.signalId
  parentOrderId := child.parentOrderId
  purpose := .stopLoss
  id := id
  clientOrderId := key
  createdAt := child.createdAt

/-- The loop of `_rearm`. -/
def rearmEach (symbol : String) (p : Position) : List Order → Prog (Desk β σ) Exc Unit
  | [] => return ()
  | child :: rest =>
    match child.stopPrice with
    | none => rearmEach symbol p rest
    | some stopPrice => do
      let d ← get
      let qty := min child.remainingQty (|p.qty| - d.protectedQty symbol (closingSide p))
      if qty ≤ 0 then rearmEach symbol p rest
      else
        let cover := (d.cover.get? child.id).getD ⟨child.clientOrderId, 0, qty, 0⟩
        let key ← fromExcept (r.protectiveClientOrderId cover.parentClientOrderId .stopLoss cover.coveredFrom
          cover.coveredTo cover.released)
        let order ← fromExcept (Order.postInit (replacement symbol p child stopPrice qty (← r.draw) key))
        let outcome ← r.send order []
        if outcome.result.submitted then
          modify (fun d => { outcome.object.elim d (d.addChild symbol) with cover := d.cover.set order.id cover })
        rearmEach symbol p rest

/-- **`_rearm`**: put the released stops back behind a close that was refused again. -/
def rearm (symbol : String) (released : List Order) : Prog (Desk β σ) Exc Unit := do
  match (← get).portfolio.positions.get? symbol with
  | none => return ()
  | some p => if p.isFlat then return () else r.rearmEach symbol p released

/-- **`_close`**: a close the venue has working replaces the stops; one refused for held shares is tried again with the
stops released. -/
def close (request : OrderRequest) (pending : List Order) : Prog (Desk β σ) Exc Submission := do
  let s ← r.submit request pending
  if s.result.submitted then
    let _ ← r.cancelProtection request.symbol
    return s
  else if !s.result.inventoryHeld then return s
  else
    let released ← r.releaseProtection request.symbol request.side
    if released.isEmpty then return s
    let filled ← r.awaitCancelled released
    if !filled.isEmpty then return s
    let retried ← r.submit request pending
    if !retried.result.submitted then r.rearm request.symbol released
    return retried

/-- `_size`. -/
def size (signal : Signal) (portfolio : Portfolio) (config : PositionSizeSpec) : ℚ ⊕ SubmitResult :=
  match referencePrice signal.symbol portfolio signal.limitPrice with
  | none => .inr (.refused sizing [.lit "no price available for ", .lit signal.symbol,
      .lit ": nothing has marked it and the signal carries no limit price"] none)
  | some price =>
    if portfolio.equity ≤ 0 then
      .inr (.refused sizing [.lit "cannot size ", .lit signal.symbol, .lit " against equity of ", .dec portfolio.equity] none)
    else match positionSize config.method portfolio.equity price signal.stopLossPrice config.value none with
      | .error exc => .inr (.refused sizing ([.lit signal.symbol, .lit ": "] ++ exc.message) none)
      | .ok qty => .inl qty

/-- What a signal asks for: a side, a size, a purpose and whether it closes; or the answer at once. -/
def intent (signal : Signal) (portfolio : Portfolio) (config : PositionSizeSpec) :
    (Side × ℚ × Purpose × Bool) ⊕ SubmitResult :=
  match signal.action with
  | .hold => .inr (.noAction [.lit signal.symbol, .lit ": hold"])
  | .exit =>
    match portfolio.positions.get? signal.symbol with
    | none => .inr (.noAction [.lit signal.symbol, .lit ": exit signal on a flat position"])
    | some p =>
      if p.isFlat then .inr (.noAction [.lit signal.symbol, .lit ": exit signal on a flat position"])
      else .inl (closingSide p, |p.qty|, .exit, true)
  | .enterLong | .enterShort =>
    match size signal portfolio config with
    | .inr refused => .inr refused
    | .inl qty => .inl (if signal.action = .enterLong then .buy else .sell, qty, .entry, false)
  | .scaleIn | .scaleOut =>
    .inr (.refused routing [.lit signal.action.value, .lit " is not modelled: the fraction to add or close is ",
      .lit "undefined, and the backtest engine refuses it too — guessing here would make ",
      .lit "the two disagree about one signal"] none)

/-- What `submit_signal` asks for, once it has a size. -/
def requestOf (signal : Signal) (side : Side) (qty : ℚ) (purpose : Purpose) (closing : Bool) : OrderRequest where
  symbol := signal.symbol
  side := side
  decidedAt := signal.ts
  orderType := if signal.limitPrice.isSome then .limit else .market
  qty := some qty
  timeInForce := if closing then .gtc else .day
  limitPrice := signal.limitPrice
  stopLossPrice := signal.stopLossPrice
  takeProfitPrice := signal.takeProfitPrice
  strategyId := some signal.strategyId
  signalId := some signal.id
  purpose := purpose

/-- **`submit_signal`**. -/
def submitSignal (signal : Signal) (config : PositionSizeSpec) (pending : List Order) :
    Prog (Desk β σ) Exc Submission := do
  match intent signal (← get).portfolio config with
  | .inr answer => return ⟨answer, none⟩
  | .inl (side, qty, purpose, closing) =>
    if qty ≤ 0 then return ⟨.noAction [.lit signal.symbol, .lit ": sized to ", .dec qty], none⟩
    let request := requestOf signal side qty purpose closing
    if closing then r.close request pending else r.submit request pending

/-- **`flatten`**. -/
def flatten (symbol : String) (purpose : Purpose) : Prog (Desk β σ) Exc Submission := do
  match (← get).portfolio.positions.get? symbol with
  | none => return ⟨.noAction [.lit symbol, .lit ": already flat"], none⟩
  | some p =>
    if p.isFlat then return ⟨.noAction [.lit symbol, .lit ": already flat"], none⟩
    r.close { symbol := symbol, side := closingSide p, decidedAt := r.now, orderType := .market, qty := some |p.qty|,
              timeInForce := .gtc, purpose := purpose } []

/-- The stop an entry asks for, else the configuration's from its fill. -/
def stopLevel (entry : Order) (asked : Option ℚ) (config : Option StopConfig) (atr : Option ℚ) : Except Exc (Option ℚ) :=
  match asked, config, entry.avgFillPrice with
  | none, some config, some price => some <$> initialStop price entry.side config atr
  | asked, _, _ => .ok asked

/-- The target an entry asks for, else the configuration's when it is a fixed distance from entry. -/
def targetLevel (entry : Order) (asked : Option ℚ) (config : Option StopConfig) : Except Exc (Option ℚ) :=
  match asked, config, entry.avgFillPrice with
  | none, some config, some price =>
    if config.stopType.fromEntry then some <$> takeProfitLevel price entry.side config else .ok none
  | asked, _, _ => .ok asked

/-- A stop on the venue tick, unless the market has passed it. -/
def usable (entry : Order) (p : Position) (stop : Option ℚ) : Option ℚ :=
  (stop.map (fun level => (r.instrument entry.symbol).roundPrice level
    (if closingSide p = .sell then .floor else .ceiling))).filter (fun level => protects p level)

/-- The levels a filled entry asks for: its request's own, else the configuration's. -/
def requestedLevels (entry : Order) (p : Position) (asked : Option ℚ × Option ℚ) (config : Option StopConfig)
    (atr : Option ℚ) : Except Exc (Option ℚ × Option ℚ) := do
  let stop ← stopLevel entry asked.1 config atr
  let target ← targetLevel entry asked.2 config
  return (r.usable entry p stop, target)

/-- The levels armed on the position for the engine to watch. -/
def armed (p : Position) (stop target : Option ℚ) : Position :=
  { p with
    stopLossPrice := match stop with
      | none => p.stopLossPrice
      | some level => some (tightestStop p level)
    takeProfitPrice := p.takeProfitPrice.or target }

/-- `_stop_order`. -/
def stopOrder (entry : Order) (p : Position) (qty level : ℚ) (id key : String) : Order where
  symbol := entry.symbol
  side := closingSide p
  qty := qty
  orderType := .stop
  timeInForce := .gtc
  stopPrice := some level
  strategyId := entry.strategyId
  signalId := entry.signalId
  parentOrderId := some entry.id
  purpose := .stopLoss
  id := id
  clientOrderId := key
  createdAt := entry.filledAt.or entry.createdAt

/-- The books of a stop that is on: what it covers, and the entry's request dropped once all of it is covered. -/
def recordPlaced (entry child : Order) (ref : Ref) (coveredFrom coveredTo : ℚ) (d : Desk β σ) : Desk β σ :=
  let d := { d.addChild entry.symbol ref with
    covered := d.covered.set entry.id (coveredFrom + child.qty)
    cover := d.cover.set child.id ⟨entry.clientOrderId, coveredFrom, coveredTo, 0⟩ }
  if entry.isComplete && decide (entry.filledQty ≤ coveredFrom + child.qty) then
    { d with requestedProtection := d.requestedProtection.erase entry.id }
  else d

/-- `submit_protective_orders` from the stop on: build it, route it, and keep its books. -/
def placeStop (entry : Order) (p : Position) (increment level coveredFrom : ℚ) : Prog (Desk β σ) Exc ProtectionResult := do
  let key ← fromExcept (r.protectiveClientOrderId entry.clientOrderId .stopLoss coveredFrom (coveredFrom + increment) 0)
  let child ← fromExcept (Order.postInit (stopOrder entry p increment level (← r.draw) key))
  let outcome ← r.send child []
  match outcome.result.submitted, outcome.object, outcome.result.order with
  | true, some ref, some child =>
    modify (recordPlaced entry child ref coveredFrom (coveredFrom + increment))
    return { placed := [(ref, child)], coveredQty := child.qty, unprotectedQty := increment - child.qty,
             engineSideStop := p.stopLossPrice }
  | _, _, _ => return { refused := [outcome.result], unprotectedQty := increment, engineSideStop := p.stopLossPrice }

/-- **`submit_protective_orders`**: arm the level, and cover what is newly filled with one stop at the venue. -/
def submitProtectiveOrders (entry : Order) (config : Option StopConfig) (atr : Option ℚ) :
    Prog (Desk β σ) Exc ProtectionResult := do
  if entry.parentOrderId.isSome then return {}
  match (← get).portfolio.positions.get? entry.symbol with
  | none => return {}
  | some p =>
    if p.isFlat then return {}
    r.cancelStaleProtection entry.symbol (closingSide p)
    let d ← get
    let coveredFrom := (d.covered.get? entry.id).getD 0
    let increment := min (entry.filledQty - coveredFrom)
      (|p.qty| - d.protectedQty entry.symbol (closingSide p))
    if increment ≤ 0 then return {}
    let (stop, target) ← fromExcept (r.requestedLevels entry p ((d.requestedProtection.get? entry.id).getD (none, none))
      config atr)
    let p := armed p stop target
    modify (fun d => d.setPosition entry.symbol p)
    match stop with
    | none => return { unprotectedQty := increment, engineSideStop := p.stopLossPrice }
    | some level =>
      if !entry.isComplete then
        return { unprotectedQty := increment, engineSideStop := p.stopLossPrice, deferred := true }
      r.placeStop entry p increment level coveredFrom

/-! ## What the broker calls leave alone

Cancels and reads change what is behind the broker and nothing else of the desk; `I` is any invariant that does not look
there. -/

section frames
variable {I : Desk β σ → Prop} (hI : ∀ d b, I d → I { d with broker := b })
include hI

theorem keeps_onBroker {α : Type} (x : Prog β Exc α) : Keeps I (Desk.onBroker x) := keeps_within x hI

theorem keeps_cancelled (id : String) : Keeps I (r.cancelled id) := by
  unfold cancelled
  refine keeps_bind (keeps_tried (keeps_onBroker hI _)) fun x => ?_
  cases x with
  | ok _ => exact keeps_pure _
  | error exc => exact keeps_ite (keeps_pure _) (keeps_throw _)

theorem keeps_inheritedProtection (symbol : String) (side : Option Side) (known : List String) :
    Keeps I (r.inheritedProtection symbol side known) := by
  unfold inheritedProtection
  refine keeps_bind (keeps_tried (keeps_onBroker hI _)) fun x => ?_
  cases x with
  | ok _ => exact keeps_pure _
  | error exc => exact keeps_ite (keeps_pure _) (keeps_throw _)

theorem keeps_cancelStale : ∀ (l : List (Ref × Order)) (gone : List Ref), Keeps I (r.cancelStale l gone)
  | [], _ => keeps_pure _
  | (ref, child) :: rest, gone => by
    unfold cancelStale
    split
    · exact keeps_cancelStale rest _
    · refine keeps_bind (r.keeps_cancelled hI _) fun c => ?_
      exact keeps_ite (keeps_cancelStale rest _) (keeps_cancelStale rest _)

theorem keeps_readBack (id : String) : ∀ (n : ℕ) (seen : Option Order), Keeps I (r.readBack id n seen)
  | 0, _ => keeps_pure _
  | n + 1, _ => by
    unfold readBack
    refine keeps_bind (keeps_tried (keeps_onBroker hI _)) fun x => ?_
    cases x with
    | ok _ => exact keeps_ite (keeps_pure _) (keeps_readBack id n _)
    | error exc => exact keeps_ite (keeps_pure _) (keeps_throw _)

theorem keeps_awaitCancelled : ∀ l : List Order, Keeps I (r.awaitCancelled l)
  | [] => keeps_pure _
  | stop :: rest => by
    unfold awaitCancelled
    split
    · exact keeps_awaitCancelled rest
    · exact keeps_bind (r.keeps_readBack hI _ _ _) fun _ => keeps_bind (keeps_awaitCancelled rest) fun _ => keeps_pure _

theorem keeps_cancelStaleProtection (hset : ∀ d p, I d → I { d with protective := p }) (symbol : String) (closing : Side) :
    Keeps I (r.cancelStaleProtection symbol closing) := by
  unfold cancelStaleProtection
  refine keeps_bind keeps_get fun d => ?_
  refine keeps_bind (r.keeps_cancelStale hI _ _) fun gone => ?_
  exact keeps_modify fun d h => hset d _ h

theorem keeps_releaseEach (hcover : ∀ d c, I d → I { d with cover := c }) : ∀ (l released : List Order),
    Keeps I (r.releaseEach l released)
  | [], _ => keeps_pure _
  | child :: rest, released => by
    unfold releaseEach
    split
    · exact keeps_releaseEach hcover rest _
    · refine keeps_bind (r.keeps_cancelled hI _) fun c => ?_
      refine keeps_ite ?_ (keeps_releaseEach hcover rest _)
      exact keeps_bind (keeps_modify fun d h => hcover d _ h) fun _ => keeps_releaseEach hcover rest _

end frames

theorem keeps_draw {I : Desk β σ → Prop} (hI : ∀ d n, I d → I { d with drawn := n }) : Keeps I (draw r) := by
  unfold draw
  refine keeps_bind keeps_get fun d => ?_
  exact keeps_bind (keeps_modify fun d h => hI d _ h) fun _ => keeps_pure _

/-- What one submission leaves of a desk: what is behind the broker, the rules, the halts and what works have moved, and
there is one object more. -/
def Sent (d d' : Desk β σ) (object : Order) : Prop :=
  ∃ b s h w, d' = { d with broker := b, risk := s, halts := h, heap := d.heap ++ [object], working := w }

/-- **What `send` does**: one object more, and a submitted result is about that object. -/
theorem triple_send {A : Order → Prop} (hA : r.Endures A) {order : Order} (ho : A order) (pending : List Order)
    (d₀ : Desk β σ) :
    Triple (fun d => d = d₀) (r.send order pending)
      (fun s d => ∃ object, Sent d₀ d object ∧
        d.working = d₀.working ++ (if s.result.submitted then [order.clientOrderId] else []) ∧
        (s.result.submitted = true → s.result.order = some object ∧ s.object = some d₀.heap.length ∧
          object.status = .submitted ∧ A object))
      (fun _ d => d.working = d₀.working ∧ ∃ object, Sent d₀ d object) := by
  unfold send
  refine triple_get_bind fun d hd => ?_
  subst hd
  let d₁ : Desk β σ := { d with heap := d.heap ++ [order] }
  refine triple_bind (R := fun _ e => e = d₁) (triple_modify _ fun e he => by rw [he]) fun _ => ?_
  refine triple_bind (R := fun result e => e.working = d.working ∧ ∃ object, Sent d e object ∧
    (result.submitted = true → result.order = some object ∧ object.status = .submitted ∧ A object)) ?_ fun result => ?_
  · unfold routeObject
    refine triple_get_bind fun e he => ?_
    refine triple_within fun e' he' => triple_at fun s hs => ?_
    subst he' he hs
    have hroute := r.triple_route hA d.portfolio pending
    have hput (s : Routing β σ) : Sent d { d₁ with
        broker := s.broker, risk := s.risk, halts := s.halts, heap := d₁.heap.set d.heap.length s.order } s.order :=
      ⟨s.broker, s.risk, s.halts, d.working, by simp [d₁]⟩
    exact triple_conseq hroute (fun s h => h ▸ ho) (fun result s hc => ⟨rfl, s.order, hput s, hc⟩)
      (fun _ s _ => ⟨rfl, s.order, hput s⟩)
  · refine triple_ite (fun hsub => ?_) (fun hsub => ?_)
    · refine triple_bind (R := fun _ e => ∃ object, Sent d e object ∧ e.working = d.working ++ [order.clientOrderId] ∧
        result.order = some object ∧ object.status = .submitted ∧ A object) (triple_modify _ ?_) fun _ =>
          triple_pure _ ?_
      · rintro e ⟨hw, object, ⟨b, s, h, w, rfl⟩, hc⟩
        exact ⟨object, ⟨b, s, h, _, rfl⟩, by rw [hw], hc hsub⟩
      · rintro e ⟨object, hsent, hw, hr, hst, ha⟩
        exact ⟨object, hsent, by rw [hw, if_pos hsub], fun _ => ⟨hr, rfl, hst, ha⟩⟩
    · refine triple_pure _ ?_
      rintro e ⟨hw, object, hsent, -⟩
      exact ⟨object, hsent, by rw [hw, if_neg hsub, List.append_nil], fun h => absurd h hsub⟩

/-- A submission moves what is behind the broker, the rules, the halts, the objects and what works; nothing else. -/
theorem keeps_send {I : Desk β σ → Prop}
    (hI : ∀ d b s h l w, I d → I { d with broker := b, risk := s, halts := h, heap := l, working := w }) (order : Order)
    (pending : List Order) : Keeps I (r.send order pending) := by
  unfold send
  refine keeps_bind keeps_get fun d => ?_
  refine keeps_bind (keeps_modify fun d h => hI d d.broker d.risk d.halts _ d.working h) fun _ => ?_
  refine keeps_bind ?_ fun result => ?_
  · unfold routeObject
    refine keeps_bind keeps_get fun d => ?_
    exact keeps_within _ fun d s h => hI d s.broker s.risk s.halts _ d.working h
  · refine keeps_ite (keeps_bind (keeps_modify fun d h => ?_) fun _ => keeps_pure _) (keeps_pure _)
    exact hI d d.broker d.risk d.halts d.heap _ h

end OrderRouter
end Atp
