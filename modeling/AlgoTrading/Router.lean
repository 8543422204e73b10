import Mathlib.Algebra.Order.Floor.Defs
import Mathlib.Data.Rat.Floor
import AlgoTrading.RiskEngine
import AlgoTrading.State
import AlgoTrading.Transport
/-!
# Router — the single submission path

From `execution/router.py`: `_route`, the gate every order passes, with `_on_tick`, `_adopt` and
`_resolve_indeterminate`, over any broker port, any risk chain and any kill switch.  The order is an object its caller
holds, so it is part of the state and is left there by a raise.  Logs and metrics are left out, and how a message is
printed into `reject_reason` is the router's `text`.
-/
namespace Atp

open Raising State

/-- A tradable symbol and its tick. -/
structure Instrument where
  symbol : String
  tickSize : ℚ := 1 / 100
  tick_pos : 0 < tickSize := by norm_num

inductive Rounding
  | floor
  | ceiling
deriving DecidableEq, Repr

/-- `round_price`: snap to the venue tick. -/
def Instrument.roundPrice (i : Instrument) (price : ℚ) : Rounding → ℚ
  | .floor => ⌊price / i.tickSize⌋ * i.tickSize
  | .ceiling => ⌈price / i.tickSize⌉ * i.tickSize

/-- One call of `KillSwitch.engage`. -/
structure Engagement where
  scope : HaltScope
  reason : HaltReason
  engagedBy : String
  detail : List Piece
  target : Option String := none
  unprovenSymbols : List String := []
deriving DecidableEq

/-- `KillSwitch`, as far as the router calls it: an `engage` that raises has halted nothing. -/
structure KillSwitch where
  engage : Engagement → Except Exc Unit

/-- What a submission came to. -/
structure SubmitResult where
  order : Option Order
  decision : RiskDecision
  submitted : Bool
  inventoryHeld : Bool := false

namespace SubmitResult

def noActionRule : String := "no_action"

/-- Nothing to submit, and nothing refused it. -/
def noAction (reason : List Piece) : SubmitResult :=
  { order := none, decision := { approved := true, rule := noActionRule, reason := reason }, submitted := false }

/-- Refused before the risk chain could run, or by the venue. -/
def refused (stage : String) (reason : List Piece) (order : Option Order) : SubmitResult :=
  { order := order, decision := .deny stage reason, submitted := false }

end SubmitResult

/-- `ROUTING`. -/
def routing : String := "routing"

/-- The router's collaborators. -/
structure Router (β L σ : Type) where
  broker : BrokerPort β
  limits : L
  rules : List (RiskRule L σ)
  instruments : String → Option Instrument
  killSwitch : Option KillSwitch
  now : ℤ
  text : List Piece → String

/-- What one submission works on: the order, what is behind the broker, the rules' state, and the halts engaged. -/
structure Routing (β σ : Type) where
  order : Order
  broker : β
  risk : σ
  halts : List Engagement

namespace Routing

variable {β σ α : Type}

def onOrder (x : Prog Order Exc α) : Prog (Routing β σ) Exc α :=
  within Routing.order (fun s o => { s with order := o }) x

def onBroker (x : Prog β Exc α) : Prog (Routing β σ) Exc α :=
  within Routing.broker (fun s b => { s with broker := b }) x

@[simp] theorem exec_onOrder (x : Prog Order Exc α) (s : Routing β σ) :
    exec (onOrder x) s = ((exec x s.order).1, { s with order := (exec x s.order).2 }) := rfl

@[simp] theorem exec_onBroker (x : Prog β Exc α) (s : Routing β σ) :
    exec (onBroker x) s = ((exec x s.broker).1, { s with broker := (exec x s.broker).2 }) := rfl

end Routing

namespace Router

open Routing

variable {β L σ : Type} (r : Router β L σ)

/-- `instrument`: a one-cent default for a symbol nobody registered. -/
def instrument (symbol : String) : Instrument := (r.instruments symbol).getD { symbol := symbol }

/-- **`_on_tick`**: a stop rounds away from the market, a limit away from a worse price. -/
def onTick (o : Order) : Order :=
  { o with
    stopPrice := o.stopPrice.map (fun p =>
      (r.instrument o.symbol).roundPrice p (if o.side = .sell then .floor else .ceiling))
    limitPrice := o.limitPrice.map (fun p =>
      (r.instrument o.symbol).roundPrice p (if o.side = .sell then .ceiling else .floor)) }

/-- **`_adopt`**: fold the venue's acknowledgement into our order; whether the order is working there. -/
def adopt (acknowledged : Order) : Prog Order Exc Bool := do
  modify (fun o => { o with brokerOrderId := acknowledged.brokerOrderId })
  let _ ← transition .submitted (some r.now) none none
  if acknowledged.status = .rejected ∨ acknowledged.status = .cancelled ∨ acknowledged.status = .expired then
    let _ ← transition acknowledged.status none acknowledged.rejectReason (some r.broker.name)
    return false
  return true

/-- The halt of an order whose outcome is unknown: trading stops everywhere, one symbol is beyond proof. -/
def indeterminate (o : Order) : Engagement where
  scope := .global
  reason := .brokerUnreachable
  engagedBy := "order_router"
  detail := [.lit "submit of ", .lit o.clientOrderId, .lit " (", .lit o.symbol, .lit " ", .lit o.side.value, .lit " ",
    .dec o.qty, .lit ") failed in transport and could not be resolved against the venue"]
  unprovenSymbols := [o.symbol]

/-- The raise of an order whose outcome is unknown. -/
def outcomeUnknown (o : Order) : Exc :=
  ⟨.brokerConnectionError, [.lit "submit of ", .lit o.clientOrderId, .lit " (", .lit o.symbol, .lit " ",
    .lit o.side.value, .lit " ", .dec o.qty, .lit ") failed and its outcome could not be established; not ",
    .lit "resubmitting — reconcile against the venue before trading this symbol"]⟩

/-- `self.kill_switch.engage(...)`, when there is one. -/
def engage (halt : Engagement) : Prog (Routing β σ) Exc Unit := do
  match r.killSwitch with
  | none => return ()
  | some switch =>
    fromExcept (switch.engage halt)
    modify (fun s => { s with halts := s.halts ++ [halt] })

/-- The one lookup of `_resolve_indeterminate`: still unreachable is not found. -/
def lookOnce (clientOrderId : String) : Prog (Routing β σ) Exc (Option Order) := do
  match ← tried (onBroker r.broker.getOpenOrders) with
  | .ok candidates => return candidates.find? (fun c => c.clientOrderId = clientOrderId)
  | .error exc => if exc.cls.isA .brokerConnectionError then return none else throw exc

/-- **`_resolve_indeterminate`**: look once, then stop. -/
def resolveIndeterminate (decision : RiskDecision) : Prog (Routing β σ) Exc SubmitResult := do
  let order := (← get).order
  match ← r.lookOnce order.clientOrderId with
  | some candidate =>
    let working ← onOrder (r.adopt candidate)
    return { order := some (← get).order, decision := decision, submitted := working }
  | none =>
    r.engage (indeterminate order)
    throw (outcomeUnknown order)

/-- The rest of `_route`, once the venue has been asked. -/
def told (decision : RiskDecision) (answer : Except Exc Order) : Prog (Routing β σ) Exc SubmitResult :=
  match answer with
  | .error exc =>
    if exc.cls.isA .brokerConnectionError then r.resolveIndeterminate decision
    else if exc.cls.isA .brokerError then do
      let _ ← onOrder (transition .rejected none (some (r.text exc.message)) (some r.broker.name))
      return { order := some (← get).order, decision := decision, submitted := false,
               inventoryHeld := exc.cls.isA .inventoryHeldError }
    else throw exc
  | .ok acknowledged => do
    let working ← onOrder (r.adopt acknowledged)
    return { order := some (← get).order, decision := decision, submitted := working }

/-- `self.risk_engine.validate(order, portfolio, pending)`, which may shrink the order it is given. -/
def validated (portfolio : Portfolio) (pending : List Order) : Prog (Routing β σ) Exc RiskDecision := do
  let s ← get
  let v := validate r.limits r.rules s.order portfolio pending s.risk
  set { s with order := v.2.1, risk := v.2.2 }
  return v.1

/-- `_route` from the verdict on. -/
def routeDecided (decision : RiskDecision) : Prog (Routing β σ) Exc SubmitResult := do
  if !decision.approved then
    let _ ← onOrder (transition .rejectedRisk none (some (r.text decision.reason)) (some decision.rule))
    return { order := some (← get).order, decision := decision, submitted := false }
  let order := (← get).order
  if order.qty ≤ 0 then
    let reason := [.lit "risk left ", .dec order.qty, .lit " of ", .lit order.symbol, .lit " to trade"]
    let _ ← onOrder (transition .rejectedRisk none (some (r.text reason)) (some routing))
    return .refused routing reason (some (← get).order)
  let _ ← onOrder (transition .pendingSubmit none none none)
  r.told decision (← tried (onBroker (r.broker.submitOrder (← get).order)))

/-- **`_route`**: validate and send one built order. -/
def route (portfolio : Portfolio) (pending : List Order) : Prog (Routing β σ) Exc SubmitResult := do
  let order := (← get).order
  if order.status ≠ .pendingRisk then
    throw ⟨.executionError, [.lit order.id, .lit " arrived at the router as ", .lit order.status.value,
      .lit "; the ", .lit "single submission path starts at ", .lit OrderStatus.pendingRisk.value, .lit ". ",
      .lit "Retrying? Rebuild the order from its request — the ",
      .lit "client_order_id is derived from the decision, so the retry ", .lit "reuses the key (CLAUDE.md §1.4)"]⟩
  onOrder (modify r.onTick)
  r.routeDecided (← r.validated portfolio pending)

/-! ## What a submission does to its order -/

/-- The order as `_adopt` leaves it while the venue has it working. -/
def acknowledgedAs (o acknowledged : Order) : Order :=
  moved { o with brokerOrderId := acknowledged.brokerOrderId } .submitted (some r.now) none none

/-- **`_adopt`, as a decision**: submitted, or through submitted to the venue's no. -/
theorem exec_adopt {o : Order} (ho : o.status = .pendingSubmit) (acknowledged : Order) :
    exec (r.adopt acknowledged) o =
      if acknowledged.status = .rejected ∨ acknowledged.status = .cancelled ∨ acknowledged.status = .expired then
        (.ok false, moved (r.acknowledgedAs o acknowledged) acknowledged.status none acknowledged.rejectReason
          (some r.broker.name))
      else (.ok true, r.acknowledgedAs o acknowledged) := by
  have hsub : exec (transition .submitted (some r.now) none none)
      { o with brokerOrderId := acknowledged.brokerOrderId } = (.ok true, r.acknowledgedAs o acknowledged) := by
    rw [exec_transition]
    simp [ho, OrderStatus.isTerminal, canTransition, transitions, acknowledgedAs]
  unfold adopt
  rw [exec_bind, exec_modify]
  simp only [exec_bind, hsub]
  by_cases hno : acknowledged.status = .rejected ∨ acknowledged.status = .cancelled ∨ acknowledged.status = .expired
  · rw [if_pos hno, if_pos hno, exec_bind, exec_transition]
    rcases hno with h | h | h <;>
      simp [h, acknowledgedAs, OrderStatus.isTerminal, canTransition, transitions]
  · rw [if_neg hno, if_neg hno]
    rfl

/-- A no from the venue rejects the order; anything else it raises passes through.  Neither engages a halt. -/
theorem told_error {s : Routing β σ} (ho : s.order.status = .pendingSubmit) (decision : RiskDecision) {exc : Exc}
    (hexc : exc.cls.isA .brokerConnectionError = false) :
    (exec (r.told decision (.error exc)) s).2.broker = s.broker ∧
      (exec (r.told decision (.error exc)) s).2.halts = s.halts ∧
      ((exec (r.told decision (.error exc)) s).2.order.status = .rejected ∨
        (exec (r.told decision (.error exc)) s).2.order.status = .pendingSubmit) := by
  unfold told
  simp only [hexc, Bool.false_eq_true, if_false]
  cases hb : exc.cls.isA .brokerError with
  | false => exact ⟨rfl, rfl, .inr ho⟩
  | true =>
    simp only [if_true, exec_bind, exec_onOrder, exec_transition]
    simp [ho, OrderStatus.isTerminal, canTransition, transitions]

/-- An acknowledgement is adopted. -/
theorem told_ok (s : Routing β σ) (decision : RiskDecision) (acknowledged : Order) :
    (exec (r.told decision (.ok acknowledged)) s).2 =
      { s with order := (exec (r.adopt acknowledged) s.order).2 } := by
  unfold told
  simp only [exec_bind, exec_onOrder]
  rcases exec (r.adopt acknowledged) s.order with ⟨_ | working, o⟩ <;> rfl

/-- Nothing found: the halt, when the switch takes it, and the raise. -/
theorem exec_unresolved (s : Routing β σ) (o : Order) :
    ∃ e, exec (do r.engage (indeterminate o); throw (outcomeUnknown o) : Prog (Routing β σ) Exc SubmitResult) s =
      (.error e, { s with halts := s.halts ++
        if (r.killSwitch.any fun k => (k.engage (indeterminate o)).isOk) then [indeterminate o] else [] }) ∧
      ((r.killSwitch.any fun k => (k.engage (indeterminate o)).isOk) = true → e = outcomeUnknown o) := by
  unfold engage
  cases hk : r.killSwitch with
  | none => exact ⟨outcomeUnknown o, by simp, fun _ => rfl⟩
  | some switch =>
    cases he : switch.engage (indeterminate o) with
    | error e => exact ⟨e, by simp [exec_bind, he, Except.isOk, Except.toBool], by simp [he, Except.isOk, Except.toBool]⟩
    | ok u => exact ⟨outcomeUnknown o, by simp [exec_bind, he, Except.isOk, Except.toBool], fun _ => rfl⟩

/-! `_resolve_indeterminate`, by what the open orders say. -/

section resolve
variable {s : Routing β σ} {t : β} (decision : RiskDecision)

/-- Found there, the copy is adopted. -/
theorem resolve_found {candidates : List Order} {c : Order}
    (hget : exec r.broker.getOpenOrders s.broker = (.ok candidates, t))
    (hfind : candidates.find? (fun c => c.clientOrderId = s.order.clientOrderId) = some c) :
    (exec (r.resolveIndeterminate decision) s).2 =
      { s with order := (exec (r.adopt c) s.order).2, broker := t } := by
  unfold resolveIndeterminate lookOnce
  simp only [exec_bind, exec_get, exec_tried, exec_onBroker, hget, exec_pure, hfind, exec_onOrder]
  rcases exec (r.adopt c) s.order with ⟨_ | working, o⟩ <;> rfl

/-- Not found, or out of reach: the halt and the raise. -/
theorem resolve_unresolved {answer : Except Exc (List Order)}
    (hget : exec r.broker.getOpenOrders s.broker = (answer, t))
    (h : (∃ candidates, answer = .ok candidates ∧
        candidates.find? (fun c => c.clientOrderId = s.order.clientOrderId) = none) ∨
      ∃ exc, answer = .error exc ∧ exc.cls.isA .brokerConnectionError = true) :
    exec (r.resolveIndeterminate decision) s =
      exec (do r.engage (indeterminate s.order); throw (outcomeUnknown s.order) : Prog _ Exc SubmitResult)
        { s with broker := t } := by
  unfold resolveIndeterminate lookOnce
  rcases h with ⟨candidates, rfl, hfind⟩ | ⟨exc, rfl, hc⟩
  · simp only [exec_bind, exec_get, exec_tried, exec_onBroker, hget, exec_pure, hfind]
  · simp only [exec_bind, exec_get, exec_tried, exec_onBroker, hget, exec_pure, hc, if_true]

/-- Anything else the read raises passes through, with no halt. -/
theorem resolve_raised {exc : Exc} (hget : exec r.broker.getOpenOrders s.broker = (.error exc, t))
    (hc : exc.cls.isA .brokerConnectionError = false) :
    exec (r.resolveIndeterminate decision) s = (.error exc, { s with broker := t }) := by
  unfold resolveIndeterminate lookOnce
  simp only [exec_bind, exec_get, exec_tried, exec_onBroker, hget, hc, Bool.false_eq_true, if_false, exec_throw]

end resolve

/-- **An order this state will send**: fresh, approved by the chain, with something left to trade. -/
structure Sends (portfolio : Portfolio) (pending : List Order) (s : Routing β σ) : Prop where
  fresh : s.order.status = .pendingRisk
  approved : (validate r.limits r.rules (r.onTick s.order) portfolio pending s.risk).1.approved = true
  positive : 0 < (validate r.limits r.rules (r.onTick s.order) portfolio pending s.risk).2.1.qty

/-- The order that goes to the venue. -/
def sentOrder (portfolio : Portfolio) (pending : List Order) (s : Routing β σ) : Order :=
  moved (validate r.limits r.rules (r.onTick s.order) portfolio pending s.risk).2.1 .pendingSubmit none none none

/-- The chain changes nothing of an order but its size, and the tick nothing but its prices. -/
theorem sentOrder_keeps (portfolio : Portfolio) (pending : List Order) (s : Routing β σ) :
    (r.sentOrder portfolio pending s).clientOrderId = s.order.clientOrderId ∧
      (r.sentOrder portfolio pending s).symbol = s.order.symbol ∧
      (r.sentOrder portfolio pending s).status = .pendingSubmit ∧
      (r.sentOrder portfolio pending s).brokerOrderId = s.order.brokerOrderId := by
  obtain ⟨q, hq, -⟩ := validate_order r.limits r.rules (r.onTick s.order) portfolio pending s.risk
  unfold sentOrder
  rw [hq]
  exact ⟨rfl, rfl, rfl, rfl⟩

/-- The state in which the venue is asked. -/
def asking (portfolio : Portfolio) (pending : List Order) (s : Routing β σ) : Routing β σ :=
  { s with
    order := r.sentOrder portfolio pending s
    risk := (validate r.limits r.rules (r.onTick s.order) portfolio pending s.risk).2.2 }

/-- **A sent order's submission is the venue's answer, told.** -/
theorem exec_route {portfolio : Portfolio} {pending : List Order} {s : Routing β σ} (h : r.Sends portfolio pending s) :
    ∃ decision, exec (r.route portfolio pending) s =
      exec (r.told decision (exec (r.broker.submitOrder (r.sentOrder portfolio pending s)) s.broker).1)
        { r.asking portfolio pending s with
          broker := (exec (r.broker.submitOrder (r.sentOrder portfolio pending s)) s.broker).2 } := by
  refine ⟨(validate r.limits r.rules (r.onTick s.order) portfolio pending s.risk).1, ?_⟩
  obtain ⟨q, hq, -⟩ := validate_order r.limits r.rules (r.onTick s.order) portfolio pending s.risk
  have hstatus : (validate r.limits r.rules (r.onTick s.order) portfolio pending s.risk).2.1.status = .pendingRisk := by
    rw [hq]
    exact h.fresh
  have hmove : exec (transition .pendingSubmit none none none)
      (validate r.limits r.rules (r.onTick s.order) portfolio pending s.risk).2.1 =
        (.ok true, r.sentOrder portfolio pending s) := by
    rw [exec_transition]
    simp [hstatus, OrderStatus.isTerminal, canTransition, transitions, sentOrder]
  unfold route validated routeDecided
  simp [exec_bind, h.fresh, h.approved, not_le.2 h.positive, hmove, asking]

/-! ## What a submitted result carries -/

/-- What a submission leaves true of its order: it changes the order's size, its prices on the tick, its status and the
venue's id. -/
structure Endures (A : Order → Prop) : Prop where
  ticked : ∀ o, A o → A (r.onTick o)
  sized : ∀ o q, A o → (0 < o.qty → 0 < q) → ((∀ rule ∈ r.rules, rule.OnlyShrinks) → q ≤ o.qty) → A { o with qty := q }
  moves : ∀ o status at_ reason stage, A o → A (moved o status at_ reason stage)
  acknowledged : ∀ o id, A o → A { o with brokerOrderId := id }

/-- A submitted result carries its order, acknowledged, and what endures of it. -/
def Carries (A : Order → Prop) (result : SubmitResult) (s : Routing β σ) : Prop :=
  result.submitted = true → result.order = some s.order ∧ s.order.status = .submitted ∧ A s.order

variable {A : Order → Prop} (hA : r.Endures A)
include hA

theorem triple_adopt (acknowledged : Order) :
    Triple (fun o => o.status = .pendingSubmit ∧ A o) (r.adopt acknowledged)
      (fun working o => working = true → o.status = .submitted ∧ A o) (fun _ _ => True) := by
  rintro o ⟨hst, ho⟩
  rw [exec_adopt r hst]
  by_cases h : acknowledged.status = .rejected ∨ acknowledged.status = .cancelled ∨ acknowledged.status = .expired
  · rw [if_pos h]
    exact fun hw => by cases hw
  · rw [if_neg h]
    exact fun _ => ⟨rfl, hA.moves _ _ _ _ _ (hA.acknowledged o _ ho)⟩

theorem triple_adopted (decision : RiskDecision) (acknowledged : Order) :
    Triple (fun s : Routing β σ => s.order.status = .pendingSubmit ∧ A s.order)
      (do
        let working ← onOrder (r.adopt acknowledged)
        return { order := some (← get).order, decision := decision, submitted := working })
      (Carries A) (fun _ _ => True) := by
  refine triple_bind (R := fun working s => working = true → s.order.status = .submitted ∧ A s.order)
    (triple_within fun s hs => triple_conseq (r.triple_adopt hA acknowledged) (fun o ho => ho ▸ hs) (fun _ _ h => h)
      (fun _ _ _ => trivial)) fun working => ?_
  exact triple_get_bind fun s hs => triple_pure _ fun t ht hw => by
    subst ht
    exact ⟨rfl, hs hw⟩

omit hA in
theorem triple_lookOnce (clientOrderId : String) :
    Triple (fun s : Routing β σ => s.order.status = .pendingSubmit ∧ A s.order)
      (r.lookOnce clientOrderId) (fun _ s => s.order.status = .pendingSubmit ∧ A s.order)
      (fun _ _ => True) := by
  unfold lookOnce
  refine triple_bind (R := fun _ s => s.order.status = .pendingSubmit ∧ A s.order)
    (triple_conseq (keeps_tried (keeps_within _ fun _ _ h => h)) (fun _ h => h) (fun _ _ h => h) (fun _ _ _ => trivial))
    fun answer => ?_
  cases answer with
  | ok candidates => exact triple_pure _ fun s hs => hs
  | error exc => exact triple_ite (fun _ => triple_pure _ fun s hs => hs) (fun _ => triple_throw _ fun _ _ => trivial)

omit hA in
theorem triple_any {P : Routing β σ → Prop} {α : Type} (x : Prog (Routing β σ) Exc α) :
    Triple P x (fun _ _ => True) (fun _ _ => True) := fun s _ => by
  rcases exec x s with ⟨_ | _, _⟩ <;> trivial

theorem triple_resolve (decision : RiskDecision) :
    Triple (fun s : Routing β σ => s.order.status = .pendingSubmit ∧ A s.order)
      (r.resolveIndeterminate decision) (Carries A) (fun _ _ => True) := by
  unfold resolveIndeterminate
  refine triple_get_bind fun s₀ h₀ => ?_
  refine triple_bind (triple_conseq (r.triple_lookOnce _) (fun s hs => hs ▸ h₀) (fun _ _ h => h) (fun _ _ h => h))
    fun found => ?_
  cases found with
  | some candidate => exact r.triple_adopted hA decision candidate
  | none => exact triple_bind (triple_any _) fun _ => triple_throw _ fun _ _ => trivial

theorem triple_told (decision : RiskDecision) (answer : Except Exc Order) :
    Triple (fun s : Routing β σ => s.order.status = .pendingSubmit ∧ A s.order)
      (r.told decision answer) (Carries A) (fun _ _ => True) := by
  unfold told
  cases answer with
  | ok acknowledged => exact r.triple_adopted hA decision acknowledged
  | error exc =>
    refine triple_ite (fun _ => r.triple_resolve hA decision) (fun _ => ?_)
    refine triple_ite (fun _ => ?_) (fun _ => triple_throw _ fun _ _ => trivial)
    exact triple_bind (triple_any _) fun _ => triple_get_bind fun s _ => triple_pure _ fun t _ h => by cases h

theorem triple_validated (portfolio : Portfolio) (pending : List Order) :
    Triple (fun s : Routing β σ => s.order.status = .pendingRisk ∧ A s.order)
      (r.validated portfolio pending) (fun _ s => s.order.status = .pendingRisk ∧ A s.order)
      (fun _ _ => True) := by
  rintro s ⟨hst, ho⟩
  obtain ⟨q, hq, hpos, hle⟩ := validate_order r.limits r.rules s.order portfolio pending s.risk
  unfold validated
  simp only [exec_bind, exec_get, exec_set, exec_pure]
  show (validate r.limits r.rules s.order portfolio pending s.risk).2.1.status = .pendingRisk ∧ _
  rw [hq]
  exact ⟨hst, hA.sized _ q ho hpos hle⟩

theorem triple_routeDecided (decision : RiskDecision) :
    Triple (fun s : Routing β σ => s.order.status = .pendingRisk ∧ A s.order)
      (r.routeDecided decision) (Carries A) (fun _ _ => True) := by
  unfold routeDecided
  refine triple_ite (fun _ => ?_) (fun _ => ?_)
  · exact triple_bind (triple_any _) fun _ => triple_get_bind fun s _ => triple_pure _ fun t _ h => by cases h
  refine triple_get_bind fun s₀ h₀ => ?_
  refine triple_ite (fun _ => ?_) (fun _ => ?_)
  · exact triple_bind (triple_any _) fun _ => triple_get_bind fun s _ => triple_pure _ fun t _ h => by cases h
  refine triple_bind (R := fun _ s => s.order.status = .pendingSubmit ∧ A s.order)
    (triple_within fun s hs t ht => ?_) fun _ => ?_
  · subst hs ht
    rw [exec_transition]
    simp only [h₀.1, OrderStatus.isTerminal, canTransition, transitions]
    exact ⟨rfl, hA.moves _ _ _ _ _ h₀.2⟩
  refine triple_get_bind fun s h => ?_
  refine triple_bind (R := fun _ s => s.order.status = .pendingSubmit ∧ A s.order) ?_
    fun answer => r.triple_told hA decision answer
  exact triple_conseq (keeps_tried (keeps_within _ fun _ _ h => h)) (fun t ht => ht ▸ h) (fun _ _ h => h)
    (fun _ _ _ => trivial)

/-- **What `_route` hands back as submitted** is the order it was given, acknowledged, and what endures of it. -/
theorem triple_route (portfolio : Portfolio) (pending : List Order) :
    Triple (fun s : Routing β σ => A s.order) (r.route portfolio pending) (Carries A)
      (fun _ _ => True) := by
  unfold route
  refine triple_get_bind fun s₀ h₀ => ?_
  refine triple_ite (fun _ => ?_) (fun hfresh => ?_)
  · exact triple_throw _ fun _ _ => trivial
  refine triple_bind (R := fun _ s => s.order.status = .pendingRisk ∧ A s.order)
    (triple_within fun s hs => triple_modify _ fun o ho => ?_) fun _ => ?_
  · subst hs ho
    exact ⟨not_not.1 hfresh, hA.ticked _ h₀⟩
  exact triple_bind (r.triple_validated hA portfolio pending) fun decision => r.triple_routeDecided hA decision

end Router
end Atp
