import AlgoTrading.TradeUpdates
/-!
# Alpaca — the venue's vocabulary, translated

`brokers/alpaca.py`: the status and event tables, and the two translations of a payload, `_from_alpaca_order` for an
order read over REST and `_to_trade_update` for an event pushed on the stream.  A payload's numbers and timestamps are
already parsed here; its names (status, event, type, side, time in force) are the venue's strings, and a name with no
entry in a table is refused.  The ids and instants the source draws on its own are arguments.
-/
namespace Atp
namespace Alpaca

/-- `_STATUS`. -/
def status : String → Option OrderStatus
  | "new" | "accepted" | "pending_new" | "accepted_for_bidding" | "calculated" | "held" | "stopped" => some .submitted
  | "partially_filled" => some .partiallyFilled
  | "filled" => some .filled
  | "canceled" | "cancelled" => some .cancelled
  | "expired" | "done_for_day" => some .expired
  | "rejected" | "suspended" => some .rejected
  | "replaced" => some .cancelled
  | "pending_cancel" | "pending_replace" => some .submitted
  | _ => none

/-- `_STREAM_EVENTS`: an event outside the table is `none`, one that sets no status is `some none`. -/
def streamEvents : String → Option (Option OrderStatus)
  | "new" | "pending_new" | "accepted" | "stopped" | "calculated" | "held" => some (some .submitted)
  | "pending_cancel" | "pending_replace" => some (some .submitted)
  | "fill" | "partial_fill" => some none
  | "canceled" => some (some .cancelled)
  | "expired" | "done_for_day" => some (some .expired)
  | "rejected" | "suspended" => some (some .rejected)
  | "replaced" => some (some .cancelled)
  | "order_cancel_rejected" | "order_replace_rejected" => some none
  | _ => none

/-- `_FILL_EVENTS`. -/
def isFillEvent (event : String) : Bool := event == "fill" || event == "partial_fill"

/-- `_ORDER_TYPE_BACK`. -/
def orderTypeBack : String → Option OrderType
  | "market" => some .market
  | "limit" => some .limit
  | "stop" => some .stop
  | "stop_limit" => some .stopLimit
  | "trailing_stop" => some .trailingStop
  | _ => none

/-- `Side(str(...))`. -/
def sideOf : String → Option Side
  | "buy" => some .buy
  | "sell" => some .sell
  | _ => none

/-- `TimeInForce(str(...))`. -/
def timeInForceOf : String → Option TimeInForce
  | "day" => some .day
  | "gtc" => some .gtc
  | "ioc" => some .ioc
  | "fok" => some .fok
  | "opg" => some .opg
  | "cls" => some .cls
  | _ => none

/-- An order as the venue reports it. -/
structure OrderPayload where
  id : String
  clientOrderId : String
  status : String
  orderType : String
  symbol : String
  side : String
  timeInForce : String
  qty : ℚ
  limitPrice : Option ℚ := none
  stopPrice : Option ℚ := none
  createdAt : Option ℤ := none
  submittedAt : Option ℤ := none
  filledQty : ℚ := 0
  filledAvgPrice : Option ℚ := none
  filledAt : Option ℤ := none
  rejectReason : Option String := none

/-- The text of an optional payload field, when it says anything: Python's `or` skips an empty string. -/
def nonEmpty (s : Option String) : Option String := s.filter (fun t => t ≠ "")

/-- The order a payload describes before its fills, with the checks of `Order`'s constructor. -/
def parseOrder (payload : OrderPayload) (newId : String) : Except Exc Order := do
  let some orderType := orderTypeBack payload.orderType
    | throw ⟨.brokerError, [.lit "unrecognised Alpaca order type '", .lit payload.orderType, .lit "'"]⟩
  let some side := sideOf payload.side
    | throw ⟨.valueError, [.lit "'", .lit payload.side, .lit "' is not a valid Side"]⟩
  let some timeInForce := timeInForceOf payload.timeInForce
    | throw ⟨.valueError, [.lit "'", .lit payload.timeInForce, .lit "' is not a valid TimeInForce"]⟩
  Order.postInit {
    symbol := payload.symbol
    side := side
    qty := payload.qty
    orderType := orderType
    timeInForce := timeInForce
    limitPrice := payload.limitPrice
    stopPrice := payload.stopPrice
    id := newId
    clientOrderId := payload.clientOrderId
    brokerOrderId := some payload.id
    createdAt := payload.createdAt
    submittedAt := payload.submittedAt }

/-- The one synthetic fill for everything the payload says was filled. -/
def applyFilled (payload : OrderPayload) (now : ℤ) (order : Order) : Except Exc Order :=
  if payload.filledQty > 0 then
    match payload.filledAvgPrice with
    | none => .error ⟨.brokerError, [.lit "Alpaca reported ", .dec payload.filledQty, .lit " filled on ",
        .lit order.clientOrderId, .lit " with no average price"]⟩
    | some avg => order.applyFill ⟨order.id, payload.filledAt.getD now, payload.filledQty, avg, 0, none⟩
  else .ok order

/-- The venue's status over the fill's: every status but a fill's is taken as given. -/
def setStatus (payload : OrderPayload) (status : OrderStatus) (order : Order) : Order :=
  let order := if status = .filled ∨ status = .partiallyFilled then order else { order with status := status }
  if status = .rejected then
    { order with rejectReason := some ((nonEmpty payload.rejectReason).getD "rejected by venue") }
  else order

/-- **`_from_alpaca_order`**. -/
def fromAlpacaOrder (payload : OrderPayload) (newId : String) (now : ℤ) : Except Exc Order := do
  let some mapped := status payload.status
    | throw ⟨.brokerError, [.lit "unrecognised Alpaca order status '", .lit payload.status, .lit "' for order ",
        .lit payload.clientOrderId, .lit " — refusing to guess"]⟩
  let order ← parseOrder payload newId
  let order ← applyFilled payload now order
  return setStatus payload mapped order

/-- A message on the account socket. -/
structure StreamMessage where
  stream : String
  event : String
  order : OrderPayload
  timestamp : Option ℤ := none
  qty : Option ℚ := none
  price : Option ℚ := none
  executionId : Option String := none
  positionQty : Option ℚ := none

/-- The execution a fill event carries; the event without its size or price is a `KeyError`. -/
def fillOf (message : StreamMessage) (orderId : String) (at' : ℤ) : Except Exc (Option Fill) :=
  if isFillEvent message.event.toLower then
    match message.qty, message.price with
    | none, _ => .error ⟨.exception, [.lit "'qty'"]⟩
    | _, none => .error ⟨.exception, [.lit "'price'"]⟩
    | some qty, some price =>
      .ok (some ⟨orderId, at', qty, price, 0, (nonEmpty message.executionId).map .execution⟩)
  else .ok none

/-- **`_to_trade_update`**: a message on another stream is no event, and an unknown event is refused. -/
def toTradeUpdate (name : String) (message : StreamMessage) (newId : String) (now : ℤ) :
    Except Exc (Option TradeUpdate) := do
  if message.stream ≠ "trade_updates" then
    return none
  let event := message.event.toLower
  let some status := streamEvents event
    | throw ⟨.brokerError, [.lit "unrecognised Alpaca trade-update event '", .lit event,
        .lit "' — refusing to guess whether it leaves the order working"]⟩
  let order ← fromAlpacaOrder message.order newId now
  let at' := message.timestamp.getD now
  let fill ← fillOf message order.id at'
  return some {
    event := event
    clientOrderId := order.clientOrderId
    brokerOrderId := message.order.id
    symbol := order.symbol
    «at» := at'
    status := status
    fill := fill
    positionQty := message.positionQty
    reason := nonEmpty message.order.rejectReason
    broker := some name }

/-! ## What the tables say -/

/-- A fill event sets no status of its own. -/
theorem streamEvents_fill (event : String) (h : isFillEvent event = true) : streamEvents event = some none := by
  simp only [isFillEvent, Bool.or_eq_true, beq_iff_eq] at h
  rcases h with rfl | rfl <;> rfl

/-- **A translated event, unpacked**: its status is the table's, and it carries a fill exactly for a fill event. -/
theorem toTradeUpdate_ok {name : String} {m : StreamMessage} {newId : String} {now : ℤ} {u : TradeUpdate}
    (h : toTradeUpdate name m newId now = .ok (some u)) :
    ∃ s order, streamEvents m.event.toLower = some s ∧ fromAlpacaOrder m.order newId now = .ok order ∧
      u.status = s ∧ u.clientOrderId = order.clientOrderId ∧
      fillOf m order.id (m.timestamp.getD now) = .ok u.fill := by
  unfold toTradeUpdate at h
  by_cases hs : m.stream = "trade_updates"
  · simp only [hs, ne_eq, not_true_eq_false, if_false] at h
    cases he : streamEvents m.event.toLower with
    | none => simp [he] at h
    | some s =>
      cases ho : fromAlpacaOrder m.order newId now with
      | error e => simp [he, ho, bind, Except.bind] at h
      | ok order =>
        cases hf : fillOf m order.id (m.timestamp.getD now) with
        | error e => simp [he, ho, hf, bind, Except.bind] at h
        | ok fill =>
          simp only [he, ho, hf, bind, Except.bind, pure, Except.pure, Except.ok.injEq, Option.some.injEq] at h
          subst h
          exact ⟨s, order, rfl, rfl, rfl, rfl, hf⟩
  · simp [hs] at h; cases h

theorem parseOrder_ok {payload : OrderPayload} {newId : String} {o : Order} (h : parseOrder payload newId = .ok o) :
    0 < o.qty ∧ o.qty = payload.qty ∧ o.id = newId ∧ o.clientOrderId = payload.clientOrderId ∧
      o.brokerOrderId = some payload.id ∧ o.status = .pendingRisk ∧ o.filledQty = 0 ∧ o.avgFillPrice = none ∧
      o.fills = [] ∧ o.filledAt = none := by
  unfold parseOrder at h
  cases ht : orderTypeBack payload.orderType with
  | none => simp [ht] at h
  | some orderType =>
    cases hs : sideOf payload.side with
    | none => simp [ht, hs] at h
    | some side =>
      cases hf : timeInForceOf payload.timeInForce with
      | none => simp [ht, hs, hf] at h
      | some timeInForce =>
        simp only [ht, hs, hf] at h
        obtain ⟨rfl, hpos, -, -⟩ := Order.postInit_ok h
        exact ⟨hpos, rfl, rfl, rfl, rfl, rfl, rfl, rfl, rfl, rfl⟩

/-- The synthetic fill carries the venue's totals over unchanged. -/
theorem applyFilled_ok {payload : OrderPayload} {now : ℤ} {o o' : Order} (h : applyFilled payload now o = .ok o')
    (hf : o.filledQty = 0) (ha : o.avgFillPrice = none) :
    (payload.filledQty ≤ 0 ∧ o' = o) ∨
    (0 < payload.filledQty ∧ payload.filledQty ≤ o.qty ∧ o'.filledQty = payload.filledQty ∧
      o'.avgFillPrice = payload.filledAvgPrice ∧ o'.avgFillPrice ≠ none ∧
      o'.status = (if payload.filledQty = o.qty then .filled else .partiallyFilled) ∧
      o'.qty = o.qty ∧ o'.id = o.id ∧ o'.clientOrderId = o.clientOrderId ∧ o'.brokerOrderId = o.brokerOrderId) := by
  unfold applyFilled at h
  by_cases hpos : payload.filledQty > 0
  · rw [if_pos hpos] at h
    cases havg : payload.filledAvgPrice with
    | none => simp [havg] at h
    | some avg =>
      simp only [havg] at h
      obtain ⟨-, hle, rfl⟩ := Order.applyFill_ok.1 h
      refine .inr ⟨hpos, ?_, by simp [hf], ?_, by simp, by simp [Order.accumulate_status, hf], by simp, by simp,
        by simp, by simp⟩
      · simpa [Order.remainingQty, hf] using hle
      · simp only [Order.accumulate_avg, Order.filledNotional, Fill.notional, hf, ha, Option.getD_none, zero_mul,
          zero_add, Option.some.injEq]
        exact mul_div_cancel_left₀ avg hpos.ne'
  · rw [if_neg hpos] at h
    exact .inl ⟨not_lt.1 hpos, by cases h; rfl⟩

section setStatus
variable (payload : OrderPayload) (s : OrderStatus) (o : Order)

@[simp] theorem setStatus_filledQty : (setStatus payload s o).filledQty = o.filledQty := by
  unfold setStatus; dsimp only; split <;> split <;> rfl
@[simp] theorem setStatus_avg : (setStatus payload s o).avgFillPrice = o.avgFillPrice := by
  unfold setStatus; dsimp only; split <;> split <;> rfl
@[simp] theorem setStatus_qty : (setStatus payload s o).qty = o.qty := by
  unfold setStatus; dsimp only; split <;> split <;> rfl
@[simp] theorem setStatus_clientOrderId : (setStatus payload s o).clientOrderId = o.clientOrderId := by
  unfold setStatus; dsimp only; split <;> split <;> rfl
@[simp] theorem setStatus_brokerOrderId : (setStatus payload s o).brokerOrderId = o.brokerOrderId := by
  unfold setStatus; dsimp only; split <;> split <;> rfl

theorem setStatus_status : (setStatus payload s o).status =
    if s = .filled ∨ s = .partiallyFilled then o.status else s := by
  unfold setStatus; dsimp only; split <;> split <;> rfl

end setStatus

/-- The status an order's totals decide on their own; without a fill it is still the constructor's. -/
def totalsStatus (o : Order) : OrderStatus :=
  if 0 < o.filledQty then if o.filledQty = o.qty then .filled else .partiallyFilled else .pendingRisk

/-- What a REST read says of an order: the venue's totals, and either the venue's status or the totals' own. -/
structure View (payload : OrderPayload) (theirs : Order) : Prop where
  clientOrderId : theirs.clientOrderId = payload.clientOrderId
  brokerOrderId : theirs.brokerOrderId = some payload.id
  qty : theirs.qty = payload.qty
  qty_pos : 0 < theirs.qty
  filled : theirs.filledQty = max payload.filledQty 0
  bounded : theirs.filledQty ≤ theirs.qty
  average : 0 < theirs.filledQty → theirs.avgFillPrice = payload.filledAvgPrice ∧ theirs.avgFillPrice ≠ none
  noAverage : theirs.filledQty = 0 → theirs.avgFillPrice = none
  named : ∃ mapped, status payload.status = some mapped ∧
    theirs.status = if mapped = .filled ∨ mapped = .partiallyFilled then totalsStatus theirs else mapped

/-- **A REST read, unpacked.** -/
theorem fromAlpacaOrder_view {payload : OrderPayload} {newId : String} {now : ℤ} {theirs : Order}
    (h : fromAlpacaOrder payload newId now = .ok theirs) : View payload theirs := by
  unfold fromAlpacaOrder at h
  cases hs : status payload.status with
  | none => simp [hs] at h
  | some mapped =>
    cases hp : parseOrder payload newId with
    | error e => simp [hs, hp, bind, Except.bind] at h
    | ok o =>
      cases hf : applyFilled payload now o with
      | error e => simp [hs, hp, hf, bind, Except.bind] at h
      | ok o' =>
        simp only [hs, hp, hf, bind, Except.bind, pure, Except.pure, Except.ok.injEq] at h
        obtain ⟨hpos, hqty, -, hcid, hbid, hst, hfq, havg, -, -⟩ := parseOrder_ok hp
        subst h
        rcases applyFilled_ok hf hfq havg with ⟨hle, rfl⟩ | ⟨hgt, hle, hfq', havg', hne, hst', hq', -, hc', hb'⟩
        · refine ⟨by simp [hcid], by simp [hbid], by simp [hqty], by simpa using hpos, ?_, ?_, ?_, ?_, mapped, hs, ?_⟩
          · simp [hfq, max_eq_right hle]
          · simpa [hfq] using hpos.le
          · simp [hfq]
          · simp [havg]
          · rw [setStatus_status]
            simp [totalsStatus, hfq, hst]
        · refine ⟨by simp [hc', hcid], by simp [hb', hbid], by simp [hq', hqty], by simpa [hq'] using hpos, ?_, ?_, ?_,
            ?_, mapped, hs, ?_⟩
          · simp [hfq', max_eq_left hgt.le]
          · simpa [hfq', hq'] using hle
          · exact fun _ => by simpa using ⟨havg', hne⟩
          · simp [hfq', hgt.ne']
          · rw [setStatus_status]
            simp [totalsStatus, hfq', hq', hst', hgt]

end Alpaca
end Atp
