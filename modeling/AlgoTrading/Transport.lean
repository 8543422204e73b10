import Mathlib.Data.List.Infix
import AlgoTrading.Alpaca
import AlgoTrading.Raising
/-!
# Transport — requests to the venue, and what their answers mean

The port the router calls (`brokers/ports.py`) and, from `brokers/alpaca.py`, the order calls of `AlpacaBroker` with the
bounded retries under them.  What the network and the venue do with a request is an `Exchange` over a state of theirs;
`firstAnswer` is what comes of repeating one, and `exec_request` says that a request is its first answer, classified.
The waits between attempts are left out.
-/
namespace Atp

open Raising

/-- `BrokerPort`: the order calls of a broker, over the state of whatever is behind it. -/
structure BrokerPort (β : Type) where
  name : String
  submitOrder : Order → Prog β Exc Order
  cancelOrder : String → Prog β Exc Unit
  getOrder : String → Prog β Exc (Option Order)
  getOpenOrders : Prog β Exc (List Order)

namespace Alpaca

variable {ν π : Type}

/-- An HTTP response: its body's JSON when it has one, and what an error body says. -/
structure Response (π : Type) where
  statusCode : ℕ
  content : Option π := none
  text : String := ""
  code : Option ℤ := none
  message : String := ""

/-- One request over the wire: no response is an `httpx.HTTPError`. -/
abbrev Exchange (ν π : Type) := ν → Option (Response π) × ν

/-- `_MAX_ATTEMPTS`. -/
def maxAttempts : ℕ := 5

/-- `_RETRY_STATUSES`. -/
def retryStatuses : List ℕ := [429, 500, 502, 503, 504]

/-- `_ORDER_NOT_PERMITTED`. -/
def orderNotPermitted : ℤ := 40310000

/-- `phrase in text`. -/
def mentions (phrase text : String) : Bool := phrase.toList <:+: text.toList

/-- `_reads_as_insufficient_funds`. -/
def readsAsInsufficientFunds (message : String) : Bool :=
  ["insufficient buying power", "insufficient funds"].any (fun phrase => mentions phrase message.toLower)

/-- `_reads_as_inventory_held`. -/
def readsAsInventoryHeld (message body : String) : Bool :=
  ["insufficient qty available", "held_for_orders"].any
    (fun phrase => mentions phrase (message ++ "\n" ++ body).toLower)

/-- `_refusal`: a non-retryable HTTP error, as the exception it is raised as. -/
def refusal (method path : String) (response : Response π) : Exc :=
  let detail := String.ofList (response.text.toList.take 400)
  if response.statusCode = 403 ∨ response.statusCode = 422 then
    let refused := [.lit "Alpaca refused ", .lit method, .lit " ", .lit path, .lit ": ", .lit detail]
    if response.code = some orderNotPermitted ∧ readsAsInsufficientFunds response.message then
      ⟨.insufficientFundsError, refused⟩
    else if readsAsInventoryHeld response.message detail then ⟨.inventoryHeldError, refused⟩
    else ⟨.orderRejectedError, refused⟩
  else ⟨.brokerError, [.lit "Alpaca ", .lit method, .lit " ", .lit path, .lit " returned ", .dec response.statusCode,
    .lit ": ", .lit detail]⟩

def exchange (send : Exchange ν π) : Prog ν Exc (Option (Response π)) :=
  fun s => ((.ok (send s).1), (send s).2)

@[simp] theorem exec_exchange (send : Exchange ν π) (s : ν) : exec (exchange send) s = (.ok (send s).1, (send s).2) :=
  rfl

/-- The loop of `_request`, with the attempts left to it. -/
def attempts (method path : String) (send : Exchange ν π) : ℕ → Prog ν Exc (Option π)
  | 0 => throw ⟨.brokerConnectionError, [.lit "Alpaca ", .lit method, .lit " ", .lit path, .lit " failed after ",
      .dec maxAttempts, .lit " attempts"]⟩
  | n + 1 => do
    match ← exchange send with
    | none => attempts method path send n
    | some response =>
      if response.statusCode = 200 ∨ response.statusCode = 204 then return response.content
      if response.statusCode = 404 then return none
      if !retryStatuses.contains response.statusCode then throw (refusal method path response)
      attempts method path send n

/-- **`_request`**: one request, with bounded retries on the transient failures. -/
def request (method path : String) (send : Exchange ν π) : Prog ν Exc (Option π) :=
  attempts method path send maxAttempts

/-- `_to_alpaca_order`: the request body, its numbers as they are before they are written out. -/
structure OrderBody where
  symbol : String
  qty : ℚ
  side : Side
  orderType : OrderType
  timeInForce : TimeInForce
  clientOrderId : String
  limitPrice : Option ℚ
  stopPrice : Option ℚ
  trailPercent : Option ℚ

def toAlpacaOrder (o : Order) : OrderBody :=
  ⟨o.symbol, o.qty, o.side, o.orderType, o.timeInForce, o.clientOrderId, o.limitPrice, o.stopPrice, o.trailPercent⟩

/-- The endpoints behind the order calls. -/
structure Client (ν : Type) where
  postOrder : OrderBody → Exchange ν OrderPayload
  getByClientOrderId : String → Exchange ν OrderPayload
  getOrder : String → Exchange ν OrderPayload
  getOpenOrders : Exchange ν (List OrderPayload)
  deleteOrder : String → Exchange ν Unit

/-- The adapter; the id and the instant `_from_alpaca_order` draws for an order it builds are given. -/
structure AlpacaBroker (ν : Type) where
  client : Client ν
  isLive : Bool := false
  newId : String
  now : ℤ

namespace AlpacaBroker

variable (b : AlpacaBroker ν)

def name : String := if b.isLive then "alpaca-live" else "alpaca-paper"

def ofPayload (payload : OrderPayload) : Except Exc Order := fromAlpacaOrder payload b.newId b.now

/-- What every order read answers: `None if payload is None else self._from_alpaca_order(payload)`. -/
def orderOr (payload : Option OrderPayload) : Prog ν Exc (Option Order) :=
  match payload with
  | none => return none
  | some payload => some <$> fromExcept (b.ofPayload payload)

/-- `_get_by_client_order_id`: did this key already reach the venue? -/
def getByClientOrderId (clientOrderId : String) : Prog ν Exc (Option Order) := do
  b.orderOr (← request "GET" "/v2/orders:by_client_order_id" (b.client.getByClientOrderId clientOrderId))

/-- **`submit_order`**: a transport failure is looked up, not resubmitted. -/
def submitOrder (order : Order) : Prog ν Exc Order := do
  match ← tried (request "POST" "/v2/orders" (b.client.postOrder (toAlpacaOrder order))) with
  | .error exc =>
    if exc.cls.isA .brokerConnectionError then
      match ← b.getByClientOrderId order.clientOrderId with
      | none => throw exc
      | some landed => return landed
    else throw exc
  | .ok none =>
    throw ⟨.brokerError, [.lit "Alpaca accepted ", .lit order.clientOrderId, .lit " but returned no order"]⟩
  | .ok (some payload) => fromExcept (b.ofPayload payload)

/-- `cancel_order`: a cancel the venue refuses lost a race with a fill, and is swallowed. -/
def cancelOrder (brokerOrderId : String) : Prog ν Exc Unit := do
  match ← tried (request "DELETE" ("/v2/orders/" ++ brokerOrderId) (b.client.deleteOrder brokerOrderId)) with
  | .ok _ => return ()
  | .error exc => if exc.cls.isA .orderRejectedError then return () else throw exc

def getOrder (brokerOrderId : String) : Prog ν Exc (Option Order) := do
  b.orderOr (← request "GET" ("/v2/orders/" ++ brokerOrderId) (b.client.getOrder brokerOrderId))

/-- `get_open_orders`: one payload that does not translate raises for the whole page. -/
def getOpenOrders : Prog ν Exc (List Order) := do
  let payload ← request "GET" "/v2/orders" b.client.getOpenOrders
  fromExcept ((payload.getD []).mapM b.ofPayload)

/-- The adapter, as the router sees it. -/
def port : BrokerPort ν where
  name := b.name
  submitOrder := b.submitOrder
  cancelOrder := b.cancelOrder
  getOrder := b.getOrder
  getOpenOrders := b.getOpenOrders

end AlpacaBroker

/-! ## A request is its first answer -/

def Response.isRetryable (r : Response π) : Bool := retryStatuses.contains r.statusCode

/-- The first of at most `n` tries that is answered for good, and the state after it. -/
def firstAnswer (send : Exchange ν π) : ℕ → Exchange ν π
  | 0, s => (none, s)
  | n + 1, s =>
    match send s with
    | (none, s') => firstAnswer send n s'
    | (some r, s') => if r.isRetryable then firstAnswer send n s' else (some r, s')

/-- What an answer is worth to the caller. -/
def classify (method path : String) (r : Response π) : Except Exc (Option π) :=
  if r.statusCode = 200 ∨ r.statusCode = 204 then .ok r.content
  else if r.statusCode = 404 then .ok none
  else .error (refusal method path r)

/-- The exception of a request that no attempt got an answer to. -/
def unreachable (method path : String) : Exc :=
  ⟨.brokerConnectionError, [.lit "Alpaca ", .lit method, .lit " ", .lit path, .lit " failed after ",
    .dec maxAttempts, .lit " attempts"]⟩

/-- What a request returns or raises, given its first answer. -/
def outcome (method path : String) : Option (Response π) → Except Exc (Option π)
  | none => .error (unreachable method path)
  | some r => classify method path r

theorem firstAnswer_decisive (send : Exchange ν π) : ∀ (n : ℕ) (s : ν) (r : Response π),
    (firstAnswer send n s).1 = some r → r.isRetryable = false
  | 0, _, _, h => by cases h
  | n + 1, s, r, h => by
    unfold firstAnswer at h
    rcases hs : send s with ⟨_ | r', s'⟩
    · rw [hs] at h
      exact firstAnswer_decisive send n s' r h
    · rw [hs] at h
      cases hr : r'.isRetryable with
      | true =>
        simp only [hr, if_true] at h
        exact firstAnswer_decisive send n s' r h
      | false =>
        simp only [hr, Bool.false_eq_true, if_false, Option.some.injEq] at h
        rwa [← h]

theorem exec_attempts (method path : String) (send : Exchange ν π) : ∀ (n : ℕ) (s : ν),
    exec (attempts method path send n) s =
      (outcome method path (firstAnswer send n s).1, (firstAnswer send n s).2)
  | 0, _ => rfl
  | n + 1, s => by
    unfold attempts firstAnswer
    rw [exec_bind, exec_exchange]
    rcases send s with ⟨_ | r, s'⟩
    · exact exec_attempts method path send n s'
    · by_cases hok : r.statusCode = 200 ∨ r.statusCode = 204
      · have : r.isRetryable = false := by
          rcases hok with h | h <;> simp [Response.isRetryable, retryStatuses, h]
        simp [hok, this, outcome, classify]
      by_cases hnf : r.statusCode = 404
      · have : r.isRetryable = false := by simp [Response.isRetryable, retryStatuses, hnf]
        simp [hnf, this, outcome, classify]
      cases hr : retryStatuses.contains r.statusCode with
      | false =>
        have hm : r.statusCode ∉ retryStatuses := by simpa using hr
        have : r.isRetryable = false := hr
        simp [hok, hnf, hm, this, outcome, classify]
      | true =>
        have : r.isRetryable = true := hr
        simp only [hok, hnf, hr, this, if_false, if_true, Bool.not_true, Bool.false_eq_true]
        exact exec_attempts method path send n s'

/-- **A request is its first answer, classified**; without one it is unreachable. -/
theorem exec_request (method path : String) (send : Exchange ν π) (s : ν) :
    exec (request method path send) s =
      (outcome method path (firstAnswer send maxAttempts s).1, (firstAnswer send maxAttempts s).2) :=
  exec_attempts method path send maxAttempts s

/-- A refusal is a `BrokerError`, and never the transport's. -/
theorem refusal_class (method path : String) (r : Response π) :
    (refusal method path r).cls.isA .brokerError = true ∧
      (refusal method path r).cls.isA .brokerConnectionError = false := by
  unfold refusal
  dsimp only
  split
  · split
    · exact ⟨rfl, rfl⟩
    · split <;> exact ⟨rfl, rfl⟩
  · exact ⟨rfl, rfl⟩

/-- A status that is a no: neither a success, nor not-found, nor one of those that are retried. -/
structure IsNo (statusCode : ℕ) : Prop where
  notOk : statusCode ≠ 200
  notEmpty : statusCode ≠ 204
  notMissing : statusCode ≠ 404
  notRetried : retryStatuses.contains statusCode = false

theorem unprocessable_no : IsNo 422 := ⟨by decide, by decide, by decide, by decide⟩

theorem classify_no (method path : String) {r : Response π} (h : IsNo r.statusCode) :
    classify method path r = .error (refusal method path r) := by
  unfold classify
  rw [if_neg (fun hc => hc.elim h.notOk h.notEmpty), if_neg h.notMissing]

theorem classify_ok (method path : String) {r : Response π} (h : r.statusCode = 200) :
    classify method path r = .ok r.content := by
  unfold classify
  rw [if_pos (.inl h)]

theorem classify_missing (method path : String) {r : Response π} (h : r.statusCode = 404) :
    classify method path r = .ok none := by
  unfold classify
  rw [h]
  rfl

/-! ## A submission, by its answers -/

namespace AlpacaBroker

variable {b : AlpacaBroker ν} {o : Order} {s s₁ s₂ : ν} {a : Response OrderPayload}

/-- A post that got an answer. -/
theorem submitOrder_posted (h : firstAnswer (b.client.postOrder (toAlpacaOrder o)) maxAttempts s = (some a, s₁)) :
    (IsNo a.statusCode → ∃ e, e.cls.isA .brokerConnectionError = false ∧ exec (b.submitOrder o) s = (.error e, s₁)) ∧
      (∀ p, a.statusCode = 200 → a.content = some p → exec (b.submitOrder o) s = (b.ofPayload p, s₁)) := by
  unfold submitOrder
  simp only [exec_bind, exec_tried, exec_request, h, outcome]
  constructor
  · intro hno
    refine ⟨refusal "POST" "/v2/orders" a, (refusal_class _ _ a).2, ?_⟩
    simp only [classify_no _ _ hno, (refusal_class _ _ a).2, Bool.false_eq_true, if_false, exec_throw]
  · intro p hok hp
    simp only [classify_ok _ _ hok, hp, exec_fromExcept]

/-- A post that got none, and a lookup that got one. -/
theorem submitOrder_lookedUp (h : firstAnswer (b.client.postOrder (toAlpacaOrder o)) maxAttempts s = (none, s₁))
    (hl : firstAnswer (b.client.getByClientOrderId o.clientOrderId) maxAttempts s₁ = (some a, s₂)) :
    (IsNo a.statusCode → ∃ e, e.cls.isA .brokerConnectionError = false ∧ exec (b.submitOrder o) s = (.error e, s₂)) ∧
      (∀ p, a.statusCode = 200 → a.content = some p → exec (b.submitOrder o) s = (b.ofPayload p, s₂)) ∧
      (a.statusCode = 404 → exec (b.submitOrder o) s = (.error (unreachable "POST" "/v2/orders"), s₂)) := by
  unfold submitOrder getByClientOrderId
  simp only [exec_bind, exec_tried, exec_request, h, outcome]
  rw [if_pos (show (unreachable "POST" "/v2/orders").cls.isA .brokerConnectionError = true from rfl)]
  simp only [exec_bind, exec_request, hl, outcome]
  refine ⟨fun hno => ⟨_, (refusal_class _ _ a).2, by rw [classify_no _ _ hno]⟩, fun p hok hp => ?_, fun hm => ?_⟩
  · rw [classify_ok _ _ hok, hp]
    simp only [orderOr, exec_map, exec_fromExcept]
    cases b.ofPayload p <;> rfl
  · rw [classify_missing _ _ hm]
    rfl

/-- Neither got an answer. -/
theorem submitOrder_lost (h : firstAnswer (b.client.postOrder (toAlpacaOrder o)) maxAttempts s = (none, s₁))
    (hl : firstAnswer (b.client.getByClientOrderId o.clientOrderId) maxAttempts s₁ = (none, s₂)) :
    exec (b.submitOrder o) s = (.error (unreachable "GET" "/v2/orders:by_client_order_id"), s₂) := by
  unfold submitOrder getByClientOrderId
  simp only [exec_bind, exec_tried, exec_request, h, outcome]
  rw [if_pos (show (unreachable "POST" "/v2/orders").cls.isA .brokerConnectionError = true from rfl)]
  simp only [exec_bind, exec_request, hl, outcome]

end AlpacaBroker

/-- A payload that does not translate is never taken for a transport failure. -/
theorem fromAlpacaOrder_error {payload : OrderPayload} {newId : String} {now : ℤ} {e : Exc}
    (h : fromAlpacaOrder payload newId now = .error e) : e.cls = .brokerError ∨ e.cls = .valueError := by
  unfold fromAlpacaOrder at h
  cases hs : status payload.status with
  | none =>
    simp only [hs, Except.error.injEq, throw, throwThe, MonadExceptOf.throw] at h
    exact .inl (by rw [← h])
  | some mapped =>
    cases hp : parseOrder payload newId with
    | error e' =>
      simp only [hs, hp, bind, Except.bind, Except.error.injEq] at h
      subst h
      unfold parseOrder at hp
      cases ht : orderTypeBack payload.orderType with
      | none =>
        simp only [ht, Except.error.injEq, throw, throwThe, MonadExceptOf.throw] at hp
        exact .inl (by rw [← hp])
      | some orderType =>
        refine .inr ?_
        cases hside : sideOf payload.side with
        | none =>
          simp only [ht, hside, Except.error.injEq, throw, throwThe, MonadExceptOf.throw] at hp
          rw [← hp]
        | some side =>
          cases hf : timeInForceOf payload.timeInForce with
          | none =>
            simp only [ht, hside, hf, Except.error.injEq, throw, throwThe, MonadExceptOf.throw] at hp
            rw [← hp]
          | some timeInForce =>
            simp only [ht, hside, hf, Order.postInit] at hp
            split at hp
            · cases hp; rfl
            · split at hp
              · cases hp; rfl
              · split at hp <;> cases hp
                rfl
    | ok o =>
      cases hf : applyFilled payload now o with
      | ok o' => simp [hs, hp, hf, bind, Except.bind, pure, Except.pure] at h
      | error e' =>
        simp only [hs, hp, hf, bind, Except.bind, Except.error.injEq] at h
        subst h
        unfold applyFilled at hf
        split at hf
        · split at hf
          · cases hf
            exact .inl rfl
          · unfold Order.applyFill at hf
            split at hf
            · cases hf
              exact .inr rfl
            · split at hf <;> cases hf
              exact .inr rfl
        · cases hf

theorem AlpacaBroker.ofPayload_error {b : AlpacaBroker ν} {payload : OrderPayload} {e : Exc}
    (h : b.ofPayload payload = .error e) : e.cls.isA .brokerConnectionError = false := by
  rcases fromAlpacaOrder_error h with he | he <;> rw [he] <;> rfl

/-! ## A page, translated -/

section page
variable {α γ : Type} {f : α → Except Exc γ}

theorem mapM_cons_except (p : α) (l : List α) :
    (p :: l).mapM f = match f p with
      | .error e => .error e
      | .ok o => match l.mapM f with
        | .error e => .error e
        | .ok os => .ok (o :: os) := by
  rw [List.mapM_cons]
  cases f p with
  | error e => rfl
  | ok o =>
    show (l.mapM f >>= fun os => pure (o :: os)) = _
    cases l.mapM f <;> rfl

/-- A page every entry of which translates, translates. -/
theorem mapM_reads : ∀ (l : List α), (∀ p ∈ l, ∃ o, f p = .ok o) →
    ∃ os, l.mapM f = .ok os ∧ List.Forall₂ (fun p o => f p = .ok o) l os
  | [], _ => ⟨[], rfl, .nil⟩
  | p :: l, h => by
    obtain ⟨o, ho⟩ := h p (by simp)
    obtain ⟨os, hos, hall⟩ := mapM_reads l (fun q hq => h q (by simp [hq]))
    exact ⟨o :: os, by rw [mapM_cons_except, ho, hos], .cons ho hall⟩

/-- A page with an entry that does not, raises what some entry raises. -/
theorem mapM_raises : ∀ (l : List α), (∃ p ∈ l, ∀ o, f p ≠ .ok o) → ∃ e p, p ∈ l ∧ f p = .error e ∧ l.mapM f = .error e
  | [], h => by simp at h
  | p :: l, h => by
    cases hp : f p with
    | error e => exact ⟨e, p, by simp, hp, by rw [mapM_cons_except, hp]⟩
    | ok o =>
      obtain ⟨q, hq, hbad⟩ := h
      rcases List.mem_cons.1 hq with rfl | hq
      · exact absurd hp (hbad o)
      · obtain ⟨e, q', hq', he, hl⟩ := mapM_raises l ⟨q, hq, hbad⟩
        exact ⟨e, q', by simp [hq'], he, by rw [mapM_cons_except, hp, hl]⟩

end page

/-- The first order under a key on a translated page is the first payload under it, translated. -/
theorem find_translated {b : AlpacaBroker ν} (key : String) {l : List OrderPayload} {os : List Order}
    (h : List.Forall₂ (fun p o => b.ofPayload p = .ok o) l os) :
    (l.find? (fun p => p.clientOrderId = key) = none ∧ os.find? (fun o => o.clientOrderId = key) = none) ∨
      ∃ p o, l.find? (fun p => p.clientOrderId = key) = some p ∧ os.find? (fun o => o.clientOrderId = key) = some o ∧
        b.ofPayload p = .ok o := by
  induction h with
  | nil => exact .inl ⟨rfl, rfl⟩
  | @cons p o l os hpo hl ih =>
    have hid : o.clientOrderId = p.clientOrderId := (fromAlpacaOrder_view hpo).clientOrderId
    by_cases hk : p.clientOrderId = key
    · exact .inr ⟨p, o, by simp [hk], by simp [hid, hk], hpo⟩
    · simpa [hk, hid] using ih

namespace AlpacaBroker

variable {b : AlpacaBroker ν} {s s₁ : ν} {a : Response (List OrderPayload)}

theorem getOpenOrders_answered (h : firstAnswer b.client.getOpenOrders maxAttempts s = (some a, s₁)) :
    (IsNo a.statusCode → ∃ e, e.cls.isA .brokerConnectionError = false ∧ exec b.getOpenOrders s = (.error e, s₁)) ∧
      (a.statusCode = 200 → exec b.getOpenOrders s = ((a.content.getD []).mapM b.ofPayload, s₁)) := by
  unfold getOpenOrders
  simp only [exec_bind, exec_request, h, outcome]
  refine ⟨fun hno => ⟨_, (refusal_class _ _ a).2, by rw [classify_no _ _ hno]⟩, fun hok => ?_⟩
  rw [classify_ok _ _ hok]
  simp

theorem getOpenOrders_lost (h : firstAnswer b.client.getOpenOrders maxAttempts s = (none, s₁)) :
    exec b.getOpenOrders s = (.error (unreachable "GET" "/v2/orders"), s₁) := by
  unfold getOpenOrders
  simp only [exec_bind, exec_request, h, outcome]

end AlpacaBroker

end Alpaca
end Atp
