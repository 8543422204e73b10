import AlgoTrading.BacktestExits
import AlgoTrading.StopRatchet
/-!
# SignalOrders — the order a signal becomes in a backtest and at the router

`_handle_signal` and `submit_signal` size, price and date an order each by itself.  What either would trade is what it
shows its risk chain, so both are run with a chain that notes what it is shown and lets nothing through (`shown`).
-/
namespace Atp

open Raising

/-- A rule that notes the orders it is shown and refuses them. -/
def noteAndRefuse (L : Type) : RiskRule L (List Order) where
  name := "note"
  check o _ _ noted := (.deny "note" [], noted ++ [o])

namespace Backtest

variable {L σ τ : Type}

/-- The engine, over a chain that notes. -/
def BacktestEngine.noting (eng : BacktestEngine L σ τ) : BacktestEngine L (List Order) τ where
  strategy := eng.strategy
  config := eng.config
  costModel := eng.costModel
  limits := eng.limits
  rules := [noteAndRefuse L]
  anchorSession _ noted := noted
  positionSizer := eng.positionSizer
  stopConfig := eng.stopConfig
  atr := eng.atr
  newId := eng.newId
  text := eng.text

def EngineState.noting (s : EngineState σ τ) : EngineState (List Order) τ where
  portfolio := s.portfolio
  now := s.now
  session := s.session
  cursor := s.cursor
  seen := s.seen
  pending := s.pending
  protection := s.protection
  barsHeld := s.barsHeld
  tradePnls := s.tradePnls
  holdingHours := s.holdingHours
  tradeBase := s.tradeBase
  tradedNotional := s.tradedNotional
  barsInMarket := s.barsInMarket
  orders := s.orders
  signals := s.signals
  warnings := s.warnings
  equityCurve := s.equityCurve
  drawn := s.drawn
  rules := []
  strategy := s.strategy

/-- `RiskBasedSizer`. -/
def riskBasedSizer (spec : PositionSizeSpec) (signal : Signal) (portfolio : Portfolio) (price : ℚ) : Except Exc ℚ :=
  positionSize spec.method portfolio.equity price signal.stopLossPrice spec.value none

section
variable (eng : BacktestEngine L σ τ) (bars : Dict String (List Bar)) (s : EngineState σ τ) (signal : Signal) (bar : Bar)

/-- **The orders `_handle_signal` shows its chain.** -/
def shown : List Order := (exec (handleSignal eng.noting bars signal bar) { state := s.noting }).2.state.rules

variable {eng bars s signal bar}

theorem signalOrder_valid (id : String) (signal : Signal) (bar : Bar) (side : Side) {qty : ℚ} (purpose : Purpose)
    (hqty : 0 < qty) :
    (signalOrder id signal bar side qty purpose).postInit = .ok (signalOrder id signal bar side qty purpose) := by
  apply Order.postInit_eq hqty
  · rintro htype hnone
    simp only [signalOrder] at htype hnone
    rw [hnone] at htype
    simp at htype
  · rintro htype -
    simp only [signalOrder] at htype
    split at htype <;> simp at htype

/-- A sized order is shown as it was built. -/
theorem queueOrder_shows {r : Replay (List Order) τ} {signal : Signal} {side : Side} {qty : ℚ} {purpose : Purpose} :
    (exec (queueOrder eng.noting signal bar side qty purpose) r).2.state.rules = r.state.rules ++
      if qty ≤ 0 then [] else [signalOrder (eng.newId r.state.drawn) signal bar side qty purpose] := by
  unfold queueOrder
  split
  · simp
  · rename_i hqty
    have hbuilt := signalOrder_valid (eng.noting.newId r.state.drawn) signal bar side purpose (not_le.1 hqty)
    simp only [observe, update, exec_bind, exec_map, exec_get, exec_fromExcept, hbuilt, exec_modify]
    simp [validate, runRules, BacktestEngine.noting, noteAndRefuse, RiskDecision.deny, bookRefusal, update, EngineState.warn,
      EngineState.record]

/-- The size of an entry: as many shares as the spec gives at a price, when it gives any. -/
def sizeAt (spec : PositionSizeSpec) (p : Portfolio) (price : ℚ) (stop : Option ℚ) : Option ℚ :=
  (positionSize spec.method p.equity price stop spec.value none).toOption

/-- What an entry shows at a size. -/
def entered (id : String) (signal : Signal) (bar : Bar) (side : Side) : Option ℚ → List Order
  | none => []
  | some qty => if qty ≤ 0 then [] else [signalOrder id signal bar side qty .entry]

theorem enter_shows {spec : PositionSizeSpec} (hsizer : eng.positionSizer = some (riskBasedSizer spec)) (signal : Signal)
    {r : Replay (List Order) τ} {side : Side} :
    (exec (enter eng.noting r.state signal bar side) r).2.state.rules = r.state.rules ++
      entered (eng.newId r.state.drawn) signal bar side (sizeAt spec r.state.portfolio bar.close signal.stopLossPrice) := by
  unfold enter
  have hnoting : eng.noting.positionSizer = some (riskBasedSizer spec) := hsizer
  simp only [hnoting, riskBasedSizer, sizeAt]
  cases hqty : positionSize spec.method r.state.portfolio.equity bar.close signal.stopLossPrice spec.value none with
  | ok qty => exact queueOrder_shows
  | error e =>
    dsimp only
    split <;> simp [update, bookRefusal, exec_bind, EngineState.warn, EngineState.record, Except.toOption, entered]

/-! **What `_handle_signal` shows**, action by action. -/

theorem shown_exit (haction : signal.action = .exit) : shown eng bars s signal bar =
    if (s.portfolio.position signal.symbol).isFlat then []
    else [signalOrder (eng.newId s.drawn) signal bar (closingSide (s.portfolio.position signal.symbol))
      |(s.portfolio.position signal.symbol).qty| .exit] := by
  unfold shown handleSignal
  simp only [observe, exec_bind, exec_map, exec_get, haction]
  by_cases hflat : (s.portfolio.position signal.symbol).isFlat = true
  · have hnoting : (s.noting.portfolio.position signal.symbol).isFlat = true := hflat
    rw [if_pos hnoting, if_pos hflat]
    rfl
  · have hnoting : ¬(s.noting.portfolio.position signal.symbol).isFlat = true := hflat
    rw [if_neg hnoting, if_neg hflat]
    have hqty : ¬|(s.portfolio.position signal.symbol).qty| ≤ 0 := fun h =>
      hflat (decide_eq_true (abs_nonpos_iff.1 h))
    refine (queueOrder_shows (r := { state := s.noting })).trans ?_
    show [] ++ (if |(s.portfolio.position signal.symbol).qty| ≤ 0 then [] else _) = _
    rw [if_neg hqty]
    rfl

theorem shown_entry {spec : PositionSizeSpec} (hsizer : eng.positionSizer = some (riskBasedSizer spec)) {side : Side}
    (haction : signal.action = if side = .buy then .enterLong else .enterShort) : shown eng bars s signal bar =
    entered (eng.newId s.drawn) (withDerivedStop eng bars s signal bar) bar side
      (sizeAt spec s.portfolio bar.close (withDerivedStop eng bars s signal bar).stopLossPrice) := by
  unfold shown handleSignal
  cases side with
  | buy =>
    rw [if_pos rfl] at haction
    simp only [observe, exec_bind, exec_map, exec_get, haction]
    exact enter_shows hsizer (withDerivedStop eng bars s signal bar) (r := { state := s.noting })
  | sell =>
    rw [if_neg (by decide)] at haction
    simp only [observe, exec_bind, exec_map, exec_get, haction]
    exact enter_shows hsizer (withDerivedStop eng bars s signal bar) (r := { state := s.noting })

theorem shown_none (haction : signal.action = .hold ∨ signal.action = .scaleIn ∨ signal.action = .scaleOut) :
    shown eng bars s signal bar = [] := by
  unfold shown handleSignal
  rcases haction with h | h | h <;> simp only [observe, exec_bind, exec_map, exec_get, h]
  · rfl
  · rfl
  · split <;> rfl

end

end Backtest

/-! ## The router -/

variable {β L σ : Type}

/-- The router, over a chain that notes. -/
def OrderRouter.noting (r : OrderRouter β L σ) : OrderRouter β L (List Order) where
  broker := r.broker
  limits := r.limits
  rules := [noteAndRefuse L]
  instruments := r.instruments
  killSwitch := r.killSwitch
  now := r.now
  text := r.text
  newId := r.newId
  digest := r.digest
  cancelAckPolls := r.cancelAckPolls

def Desk.noting (d : Desk β σ) : Desk β (List Order) where
  portfolio := d.portfolio
  broker := d.broker
  risk := []
  halts := d.halts
  heap := d.heap
  drawn := d.drawn
  requestedProtection := d.requestedProtection
  covered := d.covered
  protective := d.protective
  cover := d.cover
  working := d.working

namespace OrderRouter

/-- **The orders `submit_signal` shows its chain.** -/
def shown (r : OrderRouter β L σ) (d : Desk β σ) (signal : Signal) (spec : PositionSizeSpec) (pending : List Order) : List Order :=
  (exec (r.noting.submitSignal signal spec pending) d.noting).2.risk

/-- The order a request of a stated size is built into. -/
def built (request : OrderRequest) (qty : ℚ) (id key : String) : Order where
  symbol := request.symbol
  side := request.side
  qty := qty
  orderType := request.orderType
  timeInForce := request.timeInForce
  limitPrice := request.limitPrice
  id := id
  clientOrderId := key
  strategyId := request.strategyId
  signalId := request.signalId
  purpose := request.purpose
  createdAt := some request.decidedAt

/-- What is left of a new order that was shown and refused. -/
def turnedAway (r : OrderRouter β L σ) (o : Order) : Order :=
  State.moved (r.onTick o) .rejectedRisk none (some (r.text [])) (some "note")

/-- The gate shows a new order on the venue's tick, and takes no for an answer. -/
theorem route_shows {r : OrderRouter β L σ} {s : Routing β (List Order)} (hnew : s.order.status = .pendingRisk)
    (portfolio : Portfolio) (pending : List Order) : exec (r.noting.toRouter.route portfolio pending) s =
      (.ok { order := some (r.turnedAway s.order), decision := .deny "note" [], submitted := false },
        { s with order := r.turnedAway s.order, risk := s.risk ++ [r.onTick s.order] }) := by
  have hno : validate r.noting.limits r.noting.rules (r.noting.onTick s.order) portfolio pending s.risk =
      (.deny "note" [], r.onTick s.order, s.risk ++ [r.onTick s.order]) := rfl
  have hmove : exec (State.transition .rejectedRisk none (some (r.noting.text [])) (some "note")) (r.onTick s.order) =
      (.ok true, r.turnedAway s.order) := by
    have htick : (r.onTick s.order).status = .pendingRisk := hnew
    rw [State.exec_transition, htick]
    rfl
  unfold Router.route Router.validated Router.routeDecided
  simp only [exec_bind, exec_get, hnew, ne_eq, not_true, if_false, Routing.exec_onOrder, exec_modify, exec_set, exec_pure,
    hno, RiskDecision.deny, Bool.not_false, if_true, hmove]

/-- And so does a submission of it. -/
theorem send_shows {r : OrderRouter β L σ} {o : Order} (hnew : o.status = .pendingRisk) (d : Desk β (List Order))
    (pending : List Order) : ∃ s d', exec (r.noting.send o pending) d = (.ok s, d') ∧ s.result.submitted = false ∧
      s.result.inventoryHeld = false ∧ d'.risk = d.risk ++ [r.onTick o] := by
  refine ⟨⟨{ order := some (r.turnedAway o), decision := .deny "note" [], submitted := false }, some d.heap.length⟩,
    { d with risk := d.risk ++ [r.onTick o], heap := (d.heap ++ [o]).set d.heap.length (r.turnedAway o) }, ?_, rfl, rfl, rfl⟩
  unfold send routeObject
  simp only [exec_bind, exec_get, exec_modify, exec_within]
  rw [route_shows hnew]
  rfl

/-- **A request is shown as it was built**, on the venue's tick, and once refused goes no further. -/
theorem submit_shows {r : OrderRouter β L σ} (request : OrderRequest) {qty : ℚ} (hqty : request.qty = some qty) (hpos : 0 < qty)
    (hsymbol : request.symbol ≠ "") (htype : request.orderType = if request.limitPrice.isSome then .limit else .market)
    (d : Desk β (List Order)) (pending : List Order) : ∃ s d' id key,
      exec (r.noting.submit request pending) d = (.ok s, d') ∧ s.result.submitted = false ∧ s.result.inventoryHeld = false ∧
        d'.risk = d.risk ++ [r.onTick (built request qty id key)] := by
  have hvalid (id key : String) : (built request qty id key).postInit = .ok (built request qty id key) := by
    apply Order.postInit_eq hpos
    · rintro h hnone
      simp only [built] at h hnone
      rw [htype, hnone] at h
      simp at h
    · rintro h -
      simp only [built] at h
      rw [htype] at h
      split at h <;> simp at h
  obtain ⟨key, hkey⟩ : ∃ key, r.noting.clientOrderId request.symbol request.side request.decidedAt request.strategyId
      request.purpose = .ok key := ⟨_, if_neg hsymbol⟩
  have hasked : requestedQty request d.portfolio = .ok (.inl qty) := by
    unfold requestedQty
    rw [hqty]
  unfold submit
  simp only [exec_bind, exec_get, exec_fromExcept, hasked, hkey, draw, exec_modify, exec_pure]
  have hbuilt := hvalid (r.noting.newId d.drawn) key
  unfold built at hbuilt
  rw [hbuilt]
  dsimp only
  have hsent (e : Desk β (List Order)) := send_shows (r := r) (o := built request qty (r.noting.newId d.drawn) key) rfl e pending
  split
  · rw [exec_bind, exec_modify]
    obtain ⟨s, d', hrun, hno, hfree, hrisk⟩ := hsent _
    exact ⟨s, d', _, _, hrun, hno, hfree, hrisk⟩
  · obtain ⟨s, d', hrun, hno, hfree, hrisk⟩ := hsent _
    exact ⟨s, d', _, _, hrun, hno, hfree, hrisk⟩

section
variable {r : OrderRouter β L σ} {d : Desk β σ} {signal : Signal} {spec : PositionSizeSpec} {pending : List Order}

theorem shown_refused {answer : SubmitResult} (h : intent signal d.portfolio spec = .inr answer) : r.shown d signal spec pending = [] := by
  unfold shown submitSignal
  have hnoting : intent signal d.noting.portfolio spec = .inr answer := h
  simp only [exec_bind, exec_get, hnoting]
  rfl

theorem shown_unsized {side : Side} {qty : ℚ} {purpose : Purpose} {closing : Bool}
    (h : intent signal d.portfolio spec = .inl (side, qty, purpose, closing)) (hqty : qty ≤ 0) : r.shown d signal spec pending = [] := by
  unfold shown submitSignal
  have hnoting : intent signal d.noting.portfolio spec = .inl (side, qty, purpose, closing) := h
  simp only [exec_bind, exec_get, hnoting, if_pos hqty]
  rfl

/-- **A sized signal is shown once**, closing or not. -/
theorem shown_sized {side : Side} {qty : ℚ} {purpose : Purpose} {closing : Bool}
    (h : intent signal d.portfolio spec = .inl (side, qty, purpose, closing)) (hqty : 0 < qty) (hsymbol : signal.symbol ≠ "") :
    ∃ id key, r.shown d signal spec pending = [r.onTick (built (requestOf signal side qty purpose closing) qty id key)] := by
  unfold shown submitSignal
  have hnoting : intent signal d.noting.portfolio spec = .inl (side, qty, purpose, closing) := h
  simp only [exec_bind, exec_get, hnoting, if_neg (not_le.2 hqty)]
  obtain ⟨s, d', id, key, hrun, hno, hfree, hrisk⟩ := submit_shows (r := r)
    (requestOf signal side qty purpose closing) rfl hqty hsymbol rfl d.noting pending
  refine ⟨id, key, ?_⟩
  cases closing with
  | false =>
    show (exec (r.noting.submit (requestOf signal side qty purpose false) pending) d.noting).2.risk = _
    rw [hrun]
    exact hrisk
  | true =>
    show (exec (r.noting.close (requestOf signal side qty purpose true) pending) d.noting).2.risk = _
    unfold close
    rw [exec_bind, hrun]
    simp only [hno, hfree, Bool.not_false, Bool.false_eq_true, if_false, if_true, exec_pure]
    exact hrisk

end

end OrderRouter

/-! ## One signal on both paths -/

section
open Backtest OrderRouter

/-- The signal as it reaches the router: an entry carries the stop it was given, or the one its configuration derives. -/
def handed {L σ τ : Type} (eng : BacktestEngine L σ τ) (bars : Dict String (List Bar)) (s : EngineState σ τ) (signal : Signal)
    (bar : Bar) : Signal :=
  if signal.action = .enterLong ∨ signal.action = .enterShort then withDerivedStop eng bars s signal bar else signal

/-- **Two orders trade the same thing**: the router's limit is on the venue's tick, and its closes are held open. -/
structure Agree {β L σ : Type} (r : OrderRouter β L σ) (o o' : Order) : Prop where
  symbol : o'.symbol = o.symbol
  side : o'.side = o.side
  qty : o'.qty = o.qty
  orderType : o'.orderType = o.orderType
  purpose : o'.purpose = o.purpose
  limitPrice : o'.limitPrice = o.limitPrice.map fun p =>
    (r.instrument o.symbol).roundPrice p (if o.side = .sell then .ceiling else .floor)
  timeInForce : o.timeInForce = .day ∧ o'.timeInForce = if o.purpose = .exit then .gtc else .day

variable {β L σ L' σ' τ : Type} {eng : BacktestEngine L σ τ} {bars : Dict String (List Bar)} {s : EngineState σ τ}
  {r : OrderRouter β L' σ'} {d : Desk β σ'} {signal : Signal} {bar : Bar} {spec : PositionSizeSpec}

/-- Deriving a stop changes nothing else of a signal. -/
theorem withDerivedStop_frame (eng : BacktestEngine L σ τ) (bars : Dict String (List Bar)) (s : EngineState σ τ) (signal : Signal)
    (bar : Bar) : ∃ stop, withDerivedStop eng bars s signal bar = { signal with stopLossPrice := stop } := by
  unfold withDerivedStop
  split
  · split
    · exact ⟨_, rfl⟩
    · dsimp only
      split
      · exact ⟨_, rfl⟩
      · exact ⟨_, rfl⟩
  · exact ⟨_, rfl⟩

/-- The router sizes at the reference price, and refuses what the spec does not size there. -/
theorem size_eq (signal : Signal) {p : Portfolio} {price : ℚ} (hprice : referencePrice signal.symbol p signal.limitPrice = some price) :
    (∃ qty, size signal p spec = .inl qty ∧ sizeAt spec p price signal.stopLossPrice = some qty) ∨
      (∃ answer, size signal p spec = .inr answer) ∧ sizeAt spec p price signal.stopLossPrice = none := by
  unfold size sizeAt
  simp only [hprice]
  by_cases hequity : p.equity ≤ 0
  · refine .inr ⟨⟨_, if_pos hequity⟩, ?_⟩
    unfold positionSize
    rw [if_pos hequity]
    rfl
  · rw [if_neg hequity]
    cases positionSize spec.method p.equity price signal.stopLossPrice spec.value none with
    | error e => exact .inr ⟨⟨_, rfl⟩, rfl⟩
    | ok qty => exact .inl ⟨qty, rfl, rfl⟩

theorem intent_entry (signal : Signal) {p : Portfolio} {side : Side} {qty : ℚ}
    (haction : signal.action = if side = .buy then .enterLong else .enterShort) (h : size signal p spec = .inl qty) :
    intent signal p spec = .inl (side, qty, .entry, false) := by
  unfold intent
  cases side with
  | buy =>
    rw [if_pos rfl] at haction
    simp only [haction, h, if_true]
  | sell =>
    rw [if_neg (by decide)] at haction
    simp only [haction, h]
    rfl

theorem intent_refused (signal : Signal) {p : Portfolio} {side : Side} {answer : SubmitResult}
    (haction : signal.action = if side = .buy then .enterLong else .enterShort) (h : size signal p spec = .inr answer) :
    intent signal p spec = .inr answer := by
  unfold intent
  cases side with
  | buy =>
    rw [if_pos rfl] at haction
    simp only [haction, h]
  | sell =>
    rw [if_neg (by decide)] at haction
    simp only [haction, h]

/-- What the two build of one signal agrees, whatever the ids. -/
theorem built_agree (hzero : signal.limitPrice ≠ some 0) (id id' key : String) (side : Side) (qty : ℚ) {purpose : Purpose}
    {closing : Bool} (hclosing : closing = decide (purpose = .exit)) :
    Agree r (signalOrder id signal bar side qty purpose) (r.onTick (built (requestOf signal side qty purpose closing) qty id' key)) where
  symbol := rfl
  side := rfl
  qty := rfl
  purpose := rfl
  orderType := by
    simp only [signalOrder, Router.onTick, built, requestOf]
    cases hlimit : signal.limitPrice with
    | none => rfl
    | some limit =>
      have hne : limit ≠ 0 := fun h => hzero (by rw [hlimit, h])
      simp [hne]
  limitPrice := rfl
  timeInForce := by
    refine ⟨rfl, ?_⟩
    simp only [signalOrder, Router.onTick, built, requestOf, hclosing]
    by_cases h : purpose = .exit <;> simp [h]

/-- **An entry becomes the same order on both paths**, or none on either. -/
theorem entry_agrees (hsizer : eng.positionSizer = some (riskBasedSizer spec)) (hbook : d.portfolio = s.portfolio)
    (hmark : (s.portfolio.positions.get? signal.symbol).bind Position.lastPrice = some bar.close) (hsymbol : signal.symbol ≠ "")
    (hzero : signal.limitPrice ≠ some 0) (hprice : ∀ limit, signal.limitPrice = some limit →
      sizeAt spec s.portfolio limit (handed eng bars s signal bar).stopLossPrice =
        sizeAt spec s.portfolio bar.close (handed eng bars s signal bar).stopLossPrice)
    {side : Side} (haction : signal.action = if side = .buy then .enterLong else .enterShort) (pending : List Order) :
    (Backtest.shown eng bars s signal bar = [] ∧ r.shown d (handed eng bars s signal bar) spec pending = []) ∨
      ∃ o o', Backtest.shown eng bars s signal bar = [o] ∧ r.shown d (handed eng bars s signal bar) spec pending = [o'] ∧
        Agree r o o' := by
  have hhanded : handed eng bars s signal bar = withDerivedStop eng bars s signal bar :=
    if_pos (by cases side <;> simp [haction])
  rw [hhanded] at hprice ⊢
  rw [shown_entry hsizer haction]
  obtain ⟨stop, hframe⟩ := withDerivedStop_frame eng bars s signal bar
  rw [hframe] at hprice ⊢
  -- both size at a price that gives the size of the close
  obtain ⟨price, href, hsame⟩ : ∃ price, referencePrice signal.symbol d.portfolio signal.limitPrice = some price ∧
      sizeAt spec d.portfolio price stop = sizeAt spec s.portfolio bar.close stop := by
    rw [hbook]
    cases hlimit : signal.limitPrice with
    | none => exact ⟨bar.close, hmark, rfl⟩
    | some limit => exact ⟨limit, rfl, hprice limit hlimit⟩
  dsimp only
  rw [← hsame]
  obtain ⟨qty, hsize, hat⟩ | ⟨⟨answer, hsize⟩, hat⟩ := size_eq { signal with stopLossPrice := stop } href
  · have hintent := intent_entry { signal with stopLossPrice := stop } haction hsize
    dsimp only at hat
    rw [hat]
    by_cases hqty : qty ≤ 0
    · exact .inl ⟨if_pos hqty, shown_unsized hintent hqty⟩
    · obtain ⟨id, key, hshown⟩ := shown_sized hintent (not_le.1 hqty) hsymbol
      exact .inr ⟨_, _, if_neg hqty, hshown, built_agree hzero _ _ _ _ _ rfl⟩
  · dsimp only at hat
    rw [hat]
    exact .inl ⟨rfl, shown_refused (intent_refused { signal with stopLossPrice := stop } haction hsize)⟩

/-- A flat position has no exit. -/
theorem intent_flat {p : Portfolio} (haction : signal.action = .exit)
    (hflat : ((p.positions.get? signal.symbol).getD { symbol := signal.symbol }).isFlat = true) :
    intent signal p spec = .inr (.noAction [.lit signal.symbol, .lit ": exit signal on a flat position"]) := by
  unfold intent
  cases hget : p.positions.get? signal.symbol with
  | none => simp only [haction]
  | some q =>
    rw [hget] at hflat
    have hq : q.isFlat = true := hflat
    simp only [haction, hq, if_true]

theorem intent_exit {p : Portfolio} (haction : signal.action = .exit)
    (hflat : ¬((p.positions.get? signal.symbol).getD { symbol := signal.symbol }).isFlat = true) :
    intent signal p spec = .inl (closingSide (p.position signal.symbol), |(p.position signal.symbol).qty|, .exit, true) := by
  unfold intent
  cases hget : p.positions.get? signal.symbol with
  | none =>
    rw [hget] at hflat
    exact absurd rfl hflat
  | some q =>
    have hp : p.position signal.symbol = q := by
      unfold Portfolio.position
      rw [hget]
      rfl
    rw [hget] at hflat
    have hq : ¬q.isFlat = true := hflat
    simp only [haction, hq, hp, if_false, Bool.false_eq_true]

/-- **An exit closes what is held on both paths.** -/
theorem exit_agrees (hbook : d.portfolio = s.portfolio) (hsymbol : signal.symbol ≠ "") (hzero : signal.limitPrice ≠ some 0)
    (haction : signal.action = .exit) (pending : List Order) :
    (Backtest.shown eng bars s signal bar = [] ∧ r.shown d signal spec pending = []) ∨
      ∃ o o', Backtest.shown eng bars s signal bar = [o] ∧ r.shown d signal spec pending = [o'] ∧ Agree r o o' := by
  rw [shown_exit haction, ← hbook]
  by_cases hflat : (d.portfolio.position signal.symbol).isFlat = true
  · exact .inl ⟨if_pos hflat, shown_refused (intent_flat haction hflat)⟩
  · have hqty : 0 < |(d.portfolio.position signal.symbol).qty| := abs_pos.2 fun h => hflat (decide_eq_true h)
    obtain ⟨id, key, hshown⟩ := shown_sized (intent_exit haction hflat) hqty hsymbol
    exact .inr ⟨_, _, if_neg hflat, hshown, built_agree hzero _ _ _ _ _ rfl⟩

/-- Neither path acts on what it does not model. -/
theorem neither_acts (haction : signal.action = .hold ∨ signal.action = .scaleIn ∨ signal.action = .scaleOut) (pending : List Order) :
    Backtest.shown eng bars s signal bar = [] ∧ r.shown d signal spec pending = [] := by
  refine ⟨shown_none haction, ?_⟩
  obtain ⟨answer, hanswer⟩ : ∃ answer, intent signal d.portfolio spec = .inr answer := by
    unfold intent
    rcases haction with h | h | h <;> rw [h] <;> exact ⟨_, rfl⟩
  exact shown_refused hanswer

/-- **One signal, one order**: what a signal becomes in a backtest it becomes at the router, handed the stop its
configuration derives, at the same mark, and where the spec gives at the limit what it gives at the mark. -/
theorem one_order (hsizer : eng.positionSizer = some (riskBasedSizer spec)) (hbook : d.portfolio = s.portfolio)
    (hmark : (s.portfolio.positions.get? signal.symbol).bind Position.lastPrice = some bar.close) (hsymbol : signal.symbol ≠ "")
    (hzero : signal.limitPrice ≠ some 0) (hprice : signal.action = .enterLong ∨ signal.action = .enterShort →
      ∀ limit, signal.limitPrice = some limit →
        sizeAt spec s.portfolio limit (handed eng bars s signal bar).stopLossPrice =
          sizeAt spec s.portfolio bar.close (handed eng bars s signal bar).stopLossPrice) (pending : List Order) :
    (Backtest.shown eng bars s signal bar = [] ∧ r.shown d (handed eng bars s signal bar) spec pending = []) ∨
      ∃ o o', Backtest.shown eng bars s signal bar = [o] ∧ r.shown d (handed eng bars s signal bar) spec pending = [o'] ∧
        Agree r o o' := by
  have hkept (h : ¬(signal.action = .enterLong ∨ signal.action = .enterShort)) : handed eng bars s signal bar = signal := if_neg h
  cases haction : signal.action with
  | hold =>
    rw [hkept (by simp [haction])]
    exact .inl (neither_acts (.inl haction) pending)
  | scaleIn =>
    rw [hkept (by simp [haction])]
    exact .inl (neither_acts (.inr (.inl haction)) pending)
  | scaleOut =>
    rw [hkept (by simp [haction])]
    exact .inl (neither_acts (.inr (.inr haction)) pending)
  | exit =>
    rw [hkept (by simp [haction])]
    exact exit_agrees hbook hsymbol hzero haction pending
  | enterLong =>
    exact entry_agrees hsizer hbook hmark hsymbol hzero (hprice (.inl haction))
      (show _ = if Side.buy = .buy then _ else _ from haction) pending
  | enterShort =>
    exact entry_agrees hsizer hbook hmark hsymbol hzero (hprice (.inr haction))
      (show _ = if Side.sell = .buy then _ else _ from haction) pending

end

/-! ## An exit, and an entry, of ten shares -/

namespace SignalSample

open Backtest StopRatchet

def thousand : PositionSizeSpec := { method := .fixedNotional, value := 1000 }

def sized : BacktestEngine Unit Unit ℕ := { buyThenExit with positionSizer := some (riskBasedSizer thousand) }

def tenHeld : Portfolio where
  cash := 9000
  startingEquity := 10000
  positions := Dict.empty.set "SPY" { symbol := "SPY", qty := 10, avgEntryPrice := 100, lastPrice := some 100 }

def replaying : EngineState Unit ℕ := { portfolio := tenHeld, rules := (), strategy := 0 }

def trading : Desk Unit Unit := { portfolio := tenHeld, broker := (), risk := () }

def signalTo (action : SignalAction) : Signal :=
  { strategyId := "sample", symbol := "SPY", action := action, ts := 86400, id := "signal" }

theorem one_order_entry :
    ((Backtest.shown sized fallingDays replaying (signalTo .enterLong) (dayBar 3 100 (le_refl _))).map Order.qty = [10] ∧
      (openRouter.shown trading (handed sized fallingDays replaying (signalTo .enterLong) (dayBar 3 100 (le_refl _))) thousand
        []).map Order.qty = [10]) ∧
    ((Backtest.shown sized fallingDays replaying (signalTo .enterLong) (dayBar 3 100 (le_refl _)) = [] ∧
        openRouter.shown trading (handed sized fallingDays replaying (signalTo .enterLong) (dayBar 3 100 (le_refl _))) thousand [] = []) ∨
      ∃ o o', Backtest.shown sized fallingDays replaying (signalTo .enterLong) (dayBar 3 100 (le_refl _)) = [o] ∧
        openRouter.shown trading (handed sized fallingDays replaying (signalTo .enterLong) (dayBar 3 100 (le_refl _))) thousand [] = [o'] ∧
        Agree openRouter o o') :=
  ⟨by decide +kernel, one_order rfl rfl (by decide +kernel) (by decide) (by decide) (fun _ limit h => by cases h) []⟩

/-- **The same exit is good for the day on one path and until cancelled on the other.** -/
theorem exit_good_until : (Backtest.shown sized fallingDays replaying (signalTo .exit) (dayBar 3 100 (le_refl _))).map
      (fun o => (o.side, o.qty, o.timeInForce)) = [(.sell, 10, .day)] ∧
    (openRouter.shown trading (handed sized fallingDays replaying (signalTo .exit) (dayBar 3 100 (le_refl _))) thousand []).map
      (fun o => (o.side, o.qty, o.timeInForce)) = [(.sell, 10, .gtc)] := by
  decide +kernel

end SignalSample
end Atp
