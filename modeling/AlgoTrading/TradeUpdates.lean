import AlgoTrading.State
/-!
# TradeUpdates — folding a venue's event stream into our copy of an order

`execution/trade_updates.py`, on the `TradeUpdate` of `brokers/ports.py`.  An update is applied to an order that may be
changed before a guard raises (the venue's id is recorded, and an order that fills before its acknowledgement is walked
to `SUBMITTED`), so the applier is a program whose state survives the raise.  `Outcome` lists everything
one application can do, and `applyTradeUpdate_outcome` is the one inversion of it.
-/
namespace Atp

/-- One account event, in our vocabulary. -/
structure TradeUpdate where
  event : String
  clientOrderId : String
  brokerOrderId : String
  symbol : String
  «at» : ℤ
  status : Option OrderStatus := none
  fill : Option Fill := none
  positionQty : Option ℚ := none
  reason : Option String := none
  broker : Option String := none
deriving DecidableEq

namespace TradeUpdates

open Raising State

/-- `_CAN_FILL`, derived from the transition table. -/
def canFill (s : OrderStatus) : Bool := canTransition s .partiallyFilled

/-- `_PRE_ACK`. -/
def preAck (s : OrderStatus) : Bool := s == .pendingRisk || s == .pendingSubmit

/-- `_already_seen`: keyed on the venue's execution id, and false for a fill without one. -/
def alreadySeen (o : Order) (f : Fill) : Bool :=
  match f.venueFillId with
  | none => false
  | some v => o.fills.any (fun seen => seen.venueFillId == some v)

/-- The walk of an unacknowledged order to `SUBMITTED`: the fill is the evidence that the venue has it. -/
def walkToSubmitted (at' : ℤ) : Prog Order Exc Unit := do
  let order ← get
  if preAck order.status then
    if order.status = .pendingRisk then
      let _ ← transition .pendingSubmit none none none
    let _ ← transition .submitted (some at') none none

/-- A fill for an order in a status that cannot fill. -/
def cannotFill (o : Order) (fill : Fill) : Exc :=
  ⟨.reconciliationError, [.lit "venue filled ", .dec fill.qty, .lit " of ", .lit o.clientOrderId,
    .lit " while our book has it ", .lit o.status.value, .lit " — a fill cannot be applied from that status"]⟩

/-- A fill for more than was outstanding. -/
def notOutstanding (o : Order) (fill : Fill) : Exc :=
  ⟨.reconciliationError, [.lit "venue filled ", .dec fill.qty, .lit " of ", .lit o.clientOrderId, .lit " but only ",
    .dec o.remainingQty, .lit " was outstanding — our book and the venue's disagree"]⟩

/-- An update handed to an order it does not name. -/
def wrongOrder (o : Order) (u : TradeUpdate) : Exc :=
  ⟨.reconciliationError, [.lit "trade update for ", .lit u.clientOrderId, .lit " applied to order ",
    .lit o.clientOrderId, .lit " — refusing to fill the wrong order"]⟩

/-- `_apply_fill`. -/
def applyFill (u : TradeUpdate) (fill : Fill) : Prog Order Exc Bool := do
  if alreadySeen (← get) fill then
    return false
  walkToSubmitted u.at
  let order ← get
  if !canFill order.status then
    throw (cannotFill order fill)
  if fill.qty > order.remainingQty then
    throw (notOutstanding order fill)
  match order.applyFill fill with
  | .error e => throw e
  | .ok order' => set order'
  return true

/-- `_apply_status`. -/
def applyStatus (u : TradeUpdate) : Prog Order Exc Bool :=
  match u.status with
  | none => return false
  | some s => transition s (some u.at) u.reason u.broker

/-- **`apply_trade_update`**: true if the event changed anything, false if it was correctly ignored. -/
def applyTradeUpdate (u : TradeUpdate) : Prog Order Exc Bool := do
  let order ← get
  if u.clientOrderId ≠ order.clientOrderId then
    throw (wrongOrder order u)
  if order.brokerOrderId = none then
    set { order with brokerOrderId := some u.brokerOrderId }
  match u.fill with
  | some fill => applyFill u fill
  | none => applyStatus u

/-! ## One application, taken apart -/

/-- The order with the venue's id recorded, if it had none. -/
def adopted (o : Order) (u : TradeUpdate) : Order :=
  if o.brokerOrderId = none then { o with brokerOrderId := some u.brokerOrderId } else o

/-- The order an unacknowledged order is walked to. -/
def walked (o : Order) (at' : ℤ) : Order :=
  if preAck o.status then { o with status := .submitted, submittedAt := some at' } else o

theorem exec_walkToSubmitted (o : Order) (at' : ℤ) :
    exec (walkToSubmitted at') o = (.ok (), walked o at') := by
  unfold walkToSubmitted walked
  cases h : o.status <;>
    simp [exec_bind, preAck, h, transition, isStaleEvent, OrderStatus.isTerminal, assertTransition, canTransition,
      transitions, moved]

/-- **`_apply_fill`, as a decision** on the walked order. -/
theorem exec_applyFill (o : Order) (u : TradeUpdate) (f : Fill) :
    exec (applyFill u f) o =
      if alreadySeen o f then (.ok false, o)
      else if canFill (walked o u.at).status = false then (.error (cannotFill (walked o u.at) f), walked o u.at)
      else if f.qty > (walked o u.at).remainingQty then (.error (notOutstanding (walked o u.at) f), walked o u.at)
      else match (walked o u.at).applyFill f with
        | .error e => (.error e, walked o u.at)
        | .ok o' => (.ok true, o') := by
  unfold applyFill
  by_cases hseen : alreadySeen o f = true
  · simp [exec_bind, hseen]
  cases hcan : canFill (walked o u.at).status with
  | false => simp [exec_bind, hseen, exec_walkToSubmitted, hcan]
  | true =>
    by_cases hq : f.qty > (walked o u.at).remainingQty
    · simp [exec_bind, hseen, exec_walkToSubmitted, hcan, hq]
    · cases hfill : (walked o u.at).applyFill f <;>
        simp [exec_bind, hseen, exec_walkToSubmitted, hcan, hq, hfill]

theorem exec_applyStatus (o : Order) (u : TradeUpdate) :
    exec (applyStatus u) o = match u.status with
      | none => (.ok false, o)
      | some s => exec (transition s (some u.at) u.reason u.broker) o := by
  unfold applyStatus
  cases u.status <;> rfl

/-- **`apply_trade_update`, as a decision.** -/
theorem exec_applyTradeUpdate (o : Order) (u : TradeUpdate) :
    exec (applyTradeUpdate u) o =
      if u.clientOrderId ≠ o.clientOrderId then (.error (wrongOrder o u), o)
      else match u.fill with
        | some f => exec (applyFill u f) (adopted o u)
        | none => exec (applyStatus u) (adopted o u) := by
  unfold applyTradeUpdate adopted
  by_cases hid : u.clientOrderId = o.clientOrderId
  · by_cases hb : o.brokerOrderId = none <;> cases hf : u.fill <;> simp [exec_bind, hid, hb]
  · simp [exec_bind, hid]

/-! ## The order an application leaves alone -/

@[simp] theorem adopted_status (o : Order) (u : TradeUpdate) : (adopted o u).status = o.status := by
  unfold adopted; split <;> rfl
@[simp] theorem adopted_fills (o : Order) (u : TradeUpdate) : (adopted o u).fills = o.fills := by
  unfold adopted; split <;> rfl
@[simp] theorem adopted_filledQty (o : Order) (u : TradeUpdate) : (adopted o u).filledQty = o.filledQty := by
  unfold adopted; split <;> rfl
@[simp] theorem adopted_avg (o : Order) (u : TradeUpdate) : (adopted o u).avgFillPrice = o.avgFillPrice := by
  unfold adopted; split <;> rfl
@[simp] theorem adopted_qty (o : Order) (u : TradeUpdate) : (adopted o u).qty = o.qty := by
  unfold adopted; split <;> rfl
@[simp] theorem adopted_clientOrderId (o : Order) (u : TradeUpdate) :
    (adopted o u).clientOrderId = o.clientOrderId := by
  unfold adopted; split <;> rfl
@[simp] theorem adopted_symbol (o : Order) (u : TradeUpdate) : (adopted o u).symbol = o.symbol := by
  unfold adopted; split <;> rfl
@[simp] theorem adopted_id (o : Order) (u : TradeUpdate) : (adopted o u).id = o.id := by
  unfold adopted; split <;> rfl

@[simp] theorem walked_fills (o : Order) (a : ℤ) : (walked o a).fills = o.fills := by
  unfold walked; split <;> rfl
@[simp] theorem walked_filledQty (o : Order) (a : ℤ) : (walked o a).filledQty = o.filledQty := by
  unfold walked; split <;> rfl
@[simp] theorem walked_avg (o : Order) (a : ℤ) : (walked o a).avgFillPrice = o.avgFillPrice := by
  unfold walked; split <;> rfl
@[simp] theorem walked_qty (o : Order) (a : ℤ) : (walked o a).qty = o.qty := by
  unfold walked; split <;> rfl
@[simp] theorem walked_clientOrderId (o : Order) (a : ℤ) : (walked o a).clientOrderId = o.clientOrderId := by
  unfold walked; split <;> rfl
@[simp] theorem walked_brokerOrderId (o : Order) (a : ℤ) : (walked o a).brokerOrderId = o.brokerOrderId := by
  unfold walked; split <;> rfl
@[simp] theorem walked_symbol (o : Order) (a : ℤ) : (walked o a).symbol = o.symbol := by
  unfold walked; split <;> rfl
@[simp] theorem walked_id (o : Order) (a : ℤ) : (walked o a).id = o.id := by
  unfold walked; split <;> rfl

@[simp] theorem walked_remainingQty (o : Order) (a : ℤ) : (walked o a).remainingQty = o.remainingQty := by
  simp [Order.remainingQty]

theorem walked_status (o : Order) (a : ℤ) :
    (walked o a).status = if preAck o.status then .submitted else o.status := by
  unfold walked; split <;> rfl

/-- A walked order can fill exactly when it was not yet terminal. -/
theorem canFill_walked (o : Order) (a : ℤ) : canFill (walked o a).status = !o.status.isTerminal := by
  rw [walked_status]
  cases o.status <;> rfl

/-! ## Everything one application can do -/

/-- **What one `apply_trade_update` did**: the outcome of the call and the order it left, case by case. -/
inductive Outcome (o : Order) (u : TradeUpdate) : Except Exc Bool → Order → Prop
  | wrongOrder (hid : u.clientOrderId ≠ o.clientOrderId) : Outcome o u (.error (wrongOrder o u)) o
  | duplicate (hid : u.clientOrderId = o.clientOrderId) (f : Fill) (hf : u.fill = some f)
      (hseen : alreadySeen o f = true) : Outcome o u (.ok false) (adopted o u)
  | refused (hid : u.clientOrderId = o.clientOrderId) (f : Fill) (hf : u.fill = some f)
      (hseen : alreadySeen o f = false) (e : Exc)
      (hbad : o.status.isTerminal = true ∨ o.remainingQty < f.qty ∨ f.qty ≤ 0) :
      Outcome o u (.error e) (walked (adopted o u) u.at)
  | booked (hid : u.clientOrderId = o.clientOrderId) (f : Fill) (hf : u.fill = some f)
      (hseen : alreadySeen o f = false) (hopen : o.status.isTerminal = false) (hpos : 0 < f.qty)
      (hle : f.qty ≤ o.remainingQty) : Outcome o u (.ok true) ((walked (adopted o u) u.at).accumulate f)
  | noStatus (hid : u.clientOrderId = o.clientOrderId) (hf : u.fill = none) (hs : u.status = none) :
      Outcome o u (.ok false) (adopted o u)
  | ignored (hid : u.clientOrderId = o.clientOrderId) (hf : u.fill = none) (s : OrderStatus) (hs : u.status = some s)
      (hsame : o.status = s ∨ o.status.isTerminal = true) : Outcome o u (.ok false) (adopted o u)
  | illegal (hid : u.clientOrderId = o.clientOrderId) (hf : u.fill = none) (s : OrderStatus) (hs : u.status = some s)
      (hne : o.status ≠ s) (hopen : o.status.isTerminal = false) (hcan : canTransition o.status s = false) :
      Outcome o u (.error (invalidTransition o.status s)) (adopted o u)
  | moved (hid : u.clientOrderId = o.clientOrderId) (hf : u.fill = none) (s : OrderStatus) (hs : u.status = some s)
      (hne : o.status ≠ s) (hopen : o.status.isTerminal = false) (hcan : canTransition o.status s = true) :
      Outcome o u (.ok true) (State.moved (adopted o u) s (some u.at) u.reason u.broker)

theorem alreadySeen_congr {o o' : Order} (h : o'.fills = o.fills) (f : Fill) : alreadySeen o' f = alreadySeen o f := by
  unfold alreadySeen
  rw [h]

/-- **Every application has one of the listed outcomes.** -/
theorem applyTradeUpdate_outcome (o : Order) (u : TradeUpdate) :
    Outcome o u (exec (applyTradeUpdate u) o).1 (exec (applyTradeUpdate u) o).2 := by
  rw [exec_applyTradeUpdate]
  by_cases hid : u.clientOrderId = o.clientOrderId
  · rw [if_neg (fun h => h hid)]
    cases hf : u.fill with
    | some f =>
      dsimp only
      rw [exec_applyFill, alreadySeen_congr (adopted_fills o u), canFill_walked, adopted_status]
      cases hseen : alreadySeen o f with
      | true => exact .duplicate hid f hf hseen
      | false =>
        cases ht : o.status.isTerminal with
        | true => exact .refused hid f hf hseen _ (.inl ht)
        | false =>
          have hrem : (walked (adopted o u) u.at).remainingQty = o.remainingQty := by simp [Order.remainingQty]
          by_cases hq : f.qty > (walked (adopted o u) u.at).remainingQty
          · simp only [Bool.false_eq_true, Bool.not_false, if_false, if_pos hq, Bool.true_eq_false]
            exact .refused hid f hf hseen _ (.inr (.inl (hrem ▸ hq)))
          · simp only [Bool.false_eq_true, Bool.not_false, if_false, if_neg hq, Bool.true_eq_false]
            have hle : f.qty ≤ o.remainingQty := hrem ▸ not_lt.1 hq
            by_cases hpos : 0 < f.qty
            · rw [Order.applyFill_ok.2 ⟨hpos, hrem.symm ▸ hle, rfl⟩]
              exact .booked hid f hf hseen ht hpos hle
            · cases hfill : (walked (adopted o u) u.at).applyFill f with
              | error e => exact .refused hid f hf hseen e (.inr (.inr (not_lt.1 hpos)))
              | ok o' => exact absurd (Order.applyFill_ok.1 hfill).1 hpos
    | none =>
      dsimp only
      rw [exec_applyStatus]
      cases hs : u.status with
      | none => exact .noStatus hid hf hs
      | some s =>
        dsimp only
        rw [exec_transition, adopted_status]
        by_cases hsame : o.status = s
        · rw [if_pos hsame]
          exact .ignored hid hf s hs (.inl hsame)
        · rw [if_neg hsame]
          cases ht : o.status.isTerminal with
          | true => exact .ignored hid hf s hs (.inr ht)
          | false =>
            cases hcan : canTransition o.status s with
            | true => exact .moved hid hf s hs hsame ht hcan
            | false => exact .illegal hid hf s hs hsame ht hcan
  · rw [if_pos hid]
    exact .wrongOrder hid

theorem outcome_of_exec {o o' : Order} {u : TradeUpdate} {r : Except Exc Bool}
    (h : exec (applyTradeUpdate u) o = (r, o')) : Outcome o u r o' := by
  have hout := applyTradeUpdate_outcome o u
  rwa [h] at hout

/-! ## The three ends of a fill -/

theorem exec_booked {o : Order} {u : TradeUpdate} {f : Fill} (hid : u.clientOrderId = o.clientOrderId)
    (hf : u.fill = some f) (hseen : alreadySeen o f = false) (hopen : o.status.isTerminal = false) (hpos : 0 < f.qty)
    (hle : f.qty ≤ o.remainingQty) :
    exec (applyTradeUpdate u) o = (.ok true, (walked (adopted o u) u.at).accumulate f) := by
  have hrem : (walked (adopted o u) u.at).remainingQty = o.remainingQty := by simp [Order.remainingQty]
  rw [exec_applyTradeUpdate, if_neg (fun h => h hid), hf]
  dsimp only
  rw [exec_applyFill, alreadySeen_congr (adopted_fills o u), hseen, canFill_walked, adopted_status, hopen, hrem,
    if_neg (not_lt.2 hle), Order.applyFill_ok.2 ⟨hpos, hrem ▸ hle, rfl⟩]
  rfl

theorem exec_terminal_fill {o : Order} {u : TradeUpdate} {f : Fill} (hid : u.clientOrderId = o.clientOrderId)
    (hf : u.fill = some f) (hseen : alreadySeen o f = false) (hterm : o.status.isTerminal = true) :
    ∃ e o', exec (applyTradeUpdate u) o = (.error e, o') := by
  rw [exec_applyTradeUpdate, if_neg (fun h => h hid), hf]
  dsimp only
  rw [exec_applyFill, alreadySeen_congr (adopted_fills o u), hseen, canFill_walked, adopted_status, hterm]
  exact ⟨_, _, rfl⟩

theorem exec_duplicate {o : Order} {u : TradeUpdate} {f : Fill} (hid : u.clientOrderId = o.clientOrderId)
    (hf : u.fill = some f) (hseen : alreadySeen o f = true) : exec (applyTradeUpdate u) o = (.ok false, adopted o u) := by
  rw [exec_applyTradeUpdate, if_neg (fun h => h hid), hf]
  dsimp only
  rw [exec_applyFill, alreadySeen_congr (adopted_fills o u), hseen]
  rfl

end TradeUpdates
end Atp
