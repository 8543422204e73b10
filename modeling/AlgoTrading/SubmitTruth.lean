import AlgoTrading.Router
/-!
# SubmitTruth — what a submission says against what the venue holds

The net behind the adapter: an account of the venue with at most one order per `client_order_id`, and for each attempt
of each request what becomes of it on the way.  An order posted under an id the account already holds is answered 422.
`submit_told_iff` compares what `_route` leaves behind with the account: the condition is on what came of the attempts,
not on what the code made of them.
-/
namespace Atp
namespace SubmitTruth

open Raising State Alpaca

/-- What the account's orders go through on their own: fills, cancels, expiries, never another order. -/
structure Evolution where
  step : OrderPayload → OrderPayload
  sameOrder : ∀ p, (step p).clientOrderId = p.clientOrderId ∧ (step p).id = p.id

/-- The venue's account: one order per `client_order_id`. -/
structure Account where
  orders : List OrderPayload
  distinct : (orders.map OrderPayload.clientOrderId).Nodup

/-- What an error body says. -/
structure ErrorBody where
  text : String := ""
  code : Option ℤ := none
  message : String := ""

/-- An answer that is a no. -/
structure Refused where
  statusCode : ℕ
  body : ErrorBody
  no : IsNo statusCode

def Refused.response {π : Type} (r : Refused) : Response π :=
  { statusCode := r.statusCode, text := r.body.text, code := r.body.code, message := r.body.message }

/-- A 429 or a 5xx. -/
abbrev RetryStatus := { n : ℕ // retryStatuses.contains n = true }

/-- What the venue makes of a new order. -/
inductive Verdict
  | accept (listing : OrderPayload)
  | refuse (r : Refused)

/-- How much of an answer comes back. -/
inductive Reply
  | delivered
  | timedOut
  | replaced (status : RetryStatus)

/-- One attempt to post: lost on the way, or processed with a verdict; and what comes back.  A duplicate has its own
answer. -/
structure PostAttempt where
  meanwhile : Evolution
  arrives : Option Verdict
  reply : Reply
  duplicate : ErrorBody := {}

/-- How a read ends. -/
inductive ReadReply
  | answered
  | failed
  | replaced (status : RetryStatus)
  | refused (r : Refused)

structure ReadAttempt where
  meanwhile : Evolution
  reply : ReadReply

/-- The account, and what is still to come of each kind of request.  An attempt past the end of its list is lost. -/
structure Net where
  account : Account
  posts : List PostAttempt
  lookups : List ReadAttempt
  opens : List ReadAttempt

namespace Account

/-- The venue's copy under a key. -/
def copy (a : Account) (clientOrderId : String) : Option OrderPayload :=
  a.orders.find? (fun p => p.clientOrderId = clientOrderId)

def evolve (a : Account) (e : Evolution) : Account where
  orders := a.orders.map e.step
  distinct := by
    have : (a.orders.map e.step).map OrderPayload.clientOrderId = a.orders.map OrderPayload.clientOrderId := by
      simp [(e.sameOrder _).1]
    rw [this]
    exact a.distinct

theorem not_mem_of_copy {a : Account} {clientOrderId : String} (h : a.copy clientOrderId = none) :
    clientOrderId ∉ a.orders.map OrderPayload.clientOrderId := by
  unfold copy at h
  rw [List.find?_eq_none] at h
  intro hm
  obtain ⟨p, hp, hid⟩ := List.mem_map.1 hm
  exact h p hp (by simpa using hid)

/-- A new order in the account, newest first. -/
def add (a : Account) (p : OrderPayload) (h : a.copy p.clientOrderId = none) : Account where
  orders := p :: a.orders
  distinct := List.nodup_cons.2 ⟨not_mem_of_copy h, a.distinct⟩

/-- **A post as the venue processes it**: an id it holds is answered 422, whatever the order. -/
def process (a : Account) (body : OrderBody) (verdict : Verdict) (duplicate : ErrorBody) :
    Response OrderPayload × Account :=
  match h : a.copy body.clientOrderId with
  | some _ =>
    ({ statusCode := 422, text := duplicate.text, code := duplicate.code, message := duplicate.message }, a)
  | none =>
    match verdict with
    | .accept listing =>
      let listed := { listing with clientOrderId := body.clientOrderId }
      ({ statusCode := 200, content := some listed }, a.add listed h)
    | .refuse r => (r.response, a)

/-- The venue is done with an order when its status says so; one the table has no name for may still be working. -/
def ended (p : OrderPayload) : Bool :=
  match status p.status with
  | some .cancelled | some .expired | some .rejected => true
  | _ => false

/-- The venue holds a working or filled order under a key. -/
def live (a : Account) (clientOrderId : String) : Bool := (a.copy clientOrderId).any (fun p => !ended p)

/-- `status=open`, `limit=500`. -/
def openPage (a : Account) : List OrderPayload :=
  (a.orders.filter (fun p => !ended p && status p.status != some .filled)).take 500

@[simp] theorem copy_evolve (a : Account) (e : Evolution) (clientOrderId : String) :
    (a.evolve e).copy clientOrderId = (a.copy clientOrderId).map e.step := by
  unfold copy evolve
  rw [List.find?_map]
  congr 2
  funext p
  simp [(e.sameOrder p).1]

theorem copy_add (a : Account) (p : OrderPayload) (h : a.copy p.clientOrderId = none) :
    (a.add p h).copy p.clientOrderId = some p := by
  simp [copy, add]

/-- **A processed post**: the order it put in the account, or a no. -/
theorem process_answer (a : Account) (body : OrderBody) (verdict : Verdict) (duplicate : ErrorBody) :
    (∃ p, (a.process body verdict duplicate).1.statusCode = 200 ∧ (a.process body verdict duplicate).1.content = some p ∧
      (a.process body verdict duplicate).2.copy body.clientOrderId = some p) ∨
    IsNo (a.process body verdict duplicate).1.statusCode := by
  unfold process
  split
  · exact .inr unprocessable_no
  · rename_i h
    cases verdict with
    | accept listing => exact .inl ⟨{ listing with clientOrderId := body.clientOrderId }, rfl, rfl, copy_add _ _ h⟩
    | refuse r => exact .inr r.no

theorem one_copy (a : Account) (clientOrderId : String) :
    (a.orders.filter (fun p => p.clientOrderId = clientOrderId)).length ≤ 1 := by
  have h := List.nodup_iff_count_le_one.1 a.distinct clientOrderId
  rw [List.count, List.countP_map, List.countP_eq_length_filter] at h
  exact h

end Account

namespace Net

variable {π : Type}

/-- What the caller sees of an answer. -/
def carry (answer : Option (Response π)) : Reply → Option (Response π)
  | .delivered => answer
  | .timedOut => none
  | .replaced status => some { statusCode := status.1 }

/-- `POST /v2/orders`. -/
def post (body : OrderBody) : Exchange Net OrderPayload := fun s =>
  match s.posts with
  | [] => (none, s)
  | attempt :: posts =>
    let account := s.account.evolve attempt.meanwhile
    match attempt.arrives with
    | none => (carry none attempt.reply, { s with account := account, posts := posts })
    | some verdict =>
      let processed := account.process body verdict attempt.duplicate
      (carry (some processed.1) attempt.reply, { s with account := processed.2, posts := posts })

/-- What the caller sees of a read. -/
def seen (answer : Response π) : ReadReply → Option (Response π)
  | .answered => some answer
  | .failed => none
  | .replaced status => some { statusCode := status.1 }
  | .refused r => some r.response

/-- `GET /v2/orders:by_client_order_id`. -/
def lookup (clientOrderId : String) : Exchange Net OrderPayload := fun s =>
  match s.lookups with
  | [] => (none, s)
  | attempt :: lookups =>
    let account := s.account.evolve attempt.meanwhile
    let answer := match account.copy clientOrderId with
      | some p => { statusCode := 200, content := some p }
      | none => { statusCode := 404 }
    (seen answer attempt.reply, { s with account := account, lookups := lookups })

/-- `GET /v2/orders`. -/
def openOrders : Exchange Net (List OrderPayload) := fun s =>
  match s.opens with
  | [] => (none, s)
  | attempt :: opens =>
    let account := s.account.evolve attempt.meanwhile
    (seen { statusCode := 200, content := some account.openPage } attempt.reply,
      { s with account := account, opens := opens })

end Net

/-- The adapter with the net behind its order calls. -/
def onNet (b : AlpacaBroker Net) : AlpacaBroker Net :=
  { b with
    client := { b.client with postOrder := Net.post, getByClientOrderId := Net.lookup, getOpenOrders := Net.openOrders } }

section
variable {L σ : Type} (r : Router Net L σ) (b : AlpacaBroker Net)

/-- The router over that adapter. -/
def wired : Router Net L σ := { r with broker := (onNet b).port }

/-- An order about to be routed: no halt engaged yet. -/
def submission (order : Order) (net : Net) (risk : σ) : Routing Net σ := ⟨order, net, risk, []⟩

/-- **The outcome of a submit is told truthfully.** -/
structure Told (clientOrderId symbol : String) (out : Except Exc SubmitResult × Routing Net σ) : Prop where
  single : (out.2.broker.account.orders.filter (fun p => p.clientOrderId = clientOrderId)).length ≤ 1
  rejected : out.2.order.status = .rejected ∨ out.2.order.status = .rejectedRisk →
    out.2.broker.account.live clientOrderId = false
  unknown : out.2.broker.account.live clientOrderId = true →
    ¬ (out.2.order.status = .submitted ∧
      out.2.order.brokerOrderId = (out.2.broker.account.copy clientOrderId).map OrderPayload.id) →
    (∃ h ∈ out.2.halts, h.scope = .global ∧ symbol ∈ h.unprovenSymbols) ∧
      ∃ e, out.1 = .error e ∧ e.cls = .brokerConnectionError

/-! ## The condition, on what came of the attempts -/

/-- An answer with an order in it that translates. -/
def Acknowledges (answer : Response OrderPayload) : Prop :=
  answer.statusCode = 200 ∧ ∃ p ∈ answer.content, ∃ o, b.ofPayload p = .ok o

/-- A page that translates whole. -/
def Reads (answer : Response (List OrderPayload)) : Prop :=
  answer.statusCode = 200 ∧ ∀ p ∈ answer.content.getD [], ∃ o, b.ofPayload p = .ok o

def Lists (clientOrderId : String) (answer : Response (List OrderPayload)) : Prop :=
  ∃ p ∈ answer.content.getD [], p.clientOrderId = clientOrderId

/-- The kill switch is there and takes the halt. -/
def Halts (o : Order) : Prop := ∃ switch, r.killSwitch = some switch ∧ switch.engage (Router.indeterminate o) = .ok ()

/-- The open-orders read tells: the order is on a page that translates, or the kill switch takes a halt. -/
def Resolved (o : Order) (s : Net) : Prop :=
  match firstAnswer Net.openOrders maxAttempts s with
  | (some a, s₁) => s₁.account.live o.clientOrderId = false ∨ (Reads b a ∧ (Lists o.clientOrderId a ∨ Halts r o))
  | (none, s₁) => s₁.account.live o.clientOrderId = false ∨ Halts r o

/-- **The first answer that gets through either acknowledges the order, or there is nothing to tell**: of the post, else
of the lookup, else of the open-orders read; with no answer, or a page the order is not on, the kill switch takes a
halt. -/
def Answered (o : Order) (s : Net) : Prop :=
  match firstAnswer (Net.post (toAlpacaOrder o)) maxAttempts s with
  | (some a, s₁) => s₁.account.live o.clientOrderId = false ∨ Acknowledges b a
  | (none, s₁) =>
    match firstAnswer (Net.lookup o.clientOrderId) maxAttempts s₁ with
    | (some a, s₂) => s₂.account.live o.clientOrderId = false ∨ Acknowledges b a
    | (none, s₂) => Resolved r b o s₂

/-! ## What each request leaves in the account -/

theorem firstAnswer_some {ν π : Type} {send : Exchange ν π} : ∀ {n : ℕ} {s s' : ν} {a : Response π},
    firstAnswer send n s = (some a, s') → a.isRetryable = false ∧ ∃ s₀, send s₀ = (some a, s')
  | 0, _, _, _, h => by cases h
  | n + 1, s, s', a, h => by
    unfold firstAnswer at h
    rcases hs : send s with ⟨_ | a', t⟩
    · rw [hs] at h
      exact firstAnswer_some h
    · rw [hs] at h
      cases hr : a'.isRetryable with
      | true =>
        simp only [hr, if_true] at h
        exact firstAnswer_some h
      | false =>
        simp only [hr, Bool.false_eq_true, if_false, Prod.mk.injEq, Option.some.injEq] at h
        obtain ⟨rfl, rfl⟩ := h
        exact ⟨hr, s, hs⟩

theorem firstAnswer_keeps {ν π : Type} {send : Exchange ν π} {P : ν → Prop} (h : ∀ s, P s → P (send s).2) :
    ∀ (n : ℕ) {s : ν}, P s → P (firstAnswer send n s).2
  | 0, _, hs => hs
  | n + 1, s, hs => by
    have hnext := h s hs
    unfold firstAnswer
    rcases hsend : send s with ⟨_ | a, t⟩
    · rw [hsend] at hnext
      exact firstAnswer_keeps h n hnext
    · rw [hsend] at hnext
      by_cases hr : a.isRetryable = true
      · simp only [hr, if_true]
        exact firstAnswer_keeps h n hnext
      · simp only [hr]
        exact hnext

theorem live_of_copy_none {a : Account} {clientOrderId : String} (h : a.copy clientOrderId = none) :
    a.live clientOrderId = false := by
  simp [Account.live, h]

/-- **An answered post**: the order it put in the account, or a no. -/
theorem post_answer {body : OrderBody} {s s' : Net} {a : Response OrderPayload} (hr : a.isRetryable = false)
    (h : Net.post body s = (some a, s')) :
    (∃ p, a.statusCode = 200 ∧ a.content = some p ∧ s'.account.copy body.clientOrderId = some p) ∨ IsNo a.statusCode := by
  unfold Net.post at h
  cases hp : s.posts with
  | nil => simp [hp] at h
  | cons attempt posts =>
    simp only [hp] at h
    cases hv : attempt.arrives with
    | none =>
      cases hreply : attempt.reply with
      | delivered => simp [hv, hreply, Net.carry] at h
      | timedOut => simp [hv, hreply, Net.carry] at h
      | replaced status =>
        simp only [hv, hreply, Net.carry, Prod.mk.injEq, Option.some.injEq] at h
        rw [← h.1] at hr
        exact absurd status.2 (Bool.eq_false_iff.1 hr)
    | some verdict =>
      cases hreply : attempt.reply with
      | timedOut => simp [hv, hreply, Net.carry] at h
      | replaced status =>
        simp only [hv, hreply, Net.carry, Prod.mk.injEq, Option.some.injEq] at h
        rw [← h.1] at hr
        exact absurd status.2 (Bool.eq_false_iff.1 hr)
      | delivered =>
        simp only [hv, hreply, Net.carry, Prod.mk.injEq, Option.some.injEq] at h
        obtain ⟨rfl, rfl⟩ := h
        exact Account.process_answer _ body verdict _

theorem seen_answer {π : Type} {answer a : Response π} {reply : ReadReply} (hr : a.isRetryable = false)
    (h : Net.seen answer reply = some a) : a = answer ∨ IsNo a.statusCode := by
  cases reply with
  | answered => exact .inl (Option.some.inj h).symm
  | failed => cases h
  | replaced status =>
    cases h
    exact absurd status.2 (by rw [show retryStatuses.contains status.1 = false from hr]; decide)
  | refused r =>
    cases h
    exact .inr r.no

/-- **An answered lookup**: the account's copy, its absence, or a no. -/
theorem lookup_answer {clientOrderId : String} {s s' : Net} {a : Response OrderPayload} (hr : a.isRetryable = false)
    (h : Net.lookup clientOrderId s = (some a, s')) :
    (∃ p, a.statusCode = 200 ∧ a.content = some p ∧ s'.account.copy clientOrderId = some p) ∨
      (a.statusCode = 404 ∧ s'.account.copy clientOrderId = none) ∨ IsNo a.statusCode := by
  unfold Net.lookup at h
  cases hl : s.lookups with
  | nil => simp [hl] at h
  | cons attempt lookups =>
    simp only [hl, Prod.mk.injEq] at h
    obtain ⟨hseen, rfl⟩ := h
    rcases seen_answer hr hseen with rfl | hno
    · cases hc : (s.account.evolve attempt.meanwhile).copy clientOrderId with
      | some p => exact .inl ⟨p, by simp, by simp, rfl⟩
      | none => exact .inr (.inl ⟨by simp, rfl⟩)
    · exact .inr (.inr hno)

/-- **An answered open-orders read**: the account's page, or a no. -/
theorem openOrders_answer {s s' : Net} {a : Response (List OrderPayload)} (hr : a.isRetryable = false)
    (h : Net.openOrders s = (some a, s')) :
    (a.statusCode = 200 ∧ a.content = some s'.account.openPage) ∨ IsNo a.statusCode := by
  unfold Net.openOrders at h
  cases ho : s.opens with
  | nil => simp [ho] at h
  | cons attempt opens =>
    simp only [ho, Prod.mk.injEq] at h
    obtain ⟨hseen, rfl⟩ := h
    rcases seen_answer hr hseen with rfl | hno
    · exact .inl ⟨rfl, rfl⟩
    · exact .inr hno

/-- Reading the open orders puts nothing in the account. -/
theorem openOrders_absent {clientOrderId : String} (s : Net) (h : s.account.copy clientOrderId = none) :
    (Net.openOrders s).2.account.copy clientOrderId = none := by
  unfold Net.openOrders
  cases s.opens with
  | nil => exact h
  | cons attempt opens => simp [h]

/-! ## Told, by what is live -/

variable {clientOrderId symbol : String} {out : Except Exc SubmitResult × Routing Net σ}

theorem told_of_not_live (h : out.2.broker.account.live clientOrderId = false) : Told clientOrderId symbol out :=
  ⟨Account.one_copy _ _, fun _ => h, fun hl => by rw [h] at hl; cases hl⟩

/-- Nothing adopted and nothing halted: told exactly when there was nothing to tell. -/
theorem told_iff_not_live (hs : out.2.order.status ≠ .submitted) (hh : out.2.halts = []) :
    Told clientOrderId symbol out ↔ out.2.broker.account.live clientOrderId = false := by
  refine ⟨fun h => ?_, told_of_not_live⟩
  cases hl : out.2.broker.account.live clientOrderId with
  | false => rfl
  | true =>
    obtain ⟨⟨x, hx, -⟩, -⟩ := h.unknown hl (fun hc => hs hc.1)
    rw [hh] at hx
    cases hx

/-- A copy that is still live translates to an order nobody has ended. -/
theorem translated_of_live {p : OrderPayload} {o : Order} (h : b.ofPayload p = .ok o) (hl : Account.ended p = false) :
    ¬ (o.status = .rejected ∨ o.status = .cancelled ∨ o.status = .expired) := by
  obtain ⟨mapped, hm, hs⟩ := (fromAlpacaOrder_view h).named
  unfold Account.ended at hl
  rw [hm] at hl
  have htotals : totalsStatus o ≠ .rejected ∧ totalsStatus o ≠ .cancelled ∧ totalsStatus o ≠ .expired := by
    unfold totalsStatus
    split
    · split <;> simp
    · simp
  rw [hs]
  rintro (h | h | h) <;> split at h <;> simp_all

/-- **An adopted copy is told**: submitted under the venue's own id while it is live. -/
theorem told_of_adopted {p : OrderPayload} {o acknowledged : Order} (ho : o.status = .pendingSubmit)
    (hp : b.ofPayload p = .ok acknowledged) (hc : out.2.broker.account.copy clientOrderId = some p)
    (hout : out.2.order = (exec (r.adopt acknowledged) o).2) : Told clientOrderId symbol out := by
  cases hl : out.2.broker.account.live clientOrderId with
  | false => exact told_of_not_live hl
  | true =>
    have hlive : Account.ended p = false := by simpa [Account.live, hc] using hl
    rw [Router.exec_adopt r ho, if_neg (translated_of_live b hp hlive)] at hout
    have hid : out.2.order.brokerOrderId = some p.id := by
      rw [hout]
      exact (fromAlpacaOrder_view hp).brokerOrderId
    refine ⟨Account.one_copy _ _, fun hr => ?_, fun _ hn => absurd ⟨?_, ?_⟩ hn⟩
    · rw [hout] at hr
      rcases hr with h | h <;> cases h
    · rw [hout]
      rfl
    · rw [hid, hc]
      rfl

/-- **An unknown outcome under a halt is told**, whatever the venue holds. -/
theorem told_of_halted {o : Order} (ho : out.2.order.status = .pendingSubmit)
    (hh : Router.indeterminate o ∈ out.2.halts) (hs : o.symbol = symbol)
    (he : out.1 = .error (Router.outcomeUnknown o)) : Told clientOrderId symbol out := by
  refine ⟨Account.one_copy _ _, fun hr => ?_, fun _ _ => ⟨⟨_, hh, rfl, ?_⟩, _, he, rfl⟩⟩
  · rw [ho] at hr
    rcases hr with h | h <;> cases h
  · rw [← hs]
    exact List.mem_singleton_self _

/-! ## The submission, answer by answer -/

theorem acknowledges_ok {a : Response OrderPayload} {p : OrderPayload} (hok : a.statusCode = 200)
    (hp : a.content = some p) : Acknowledges b a ↔ ∃ x, b.ofPayload p = .ok x := by
  simp [Acknowledges, hok, hp]

theorem acknowledges_no {a : Response OrderPayload} (h : IsNo a.statusCode) : ¬ Acknowledges b a :=
  fun ha => h.notOk ha.1

/-- Without a copy there is nothing to resolve, whatever the open orders say. -/
theorem resolved_of_absent {o : Order} {s : Net} (h : s.account.copy o.clientOrderId = none) : Resolved r b o s := by
  have hk := firstAnswer_keeps (P := fun t : Net => t.account.copy o.clientOrderId = none) openOrders_absent maxAttempts h
  unfold Resolved
  rcases hf : firstAnswer Net.openOrders maxAttempts s with ⟨_ | a, s₁⟩ <;> rw [hf] at hk <;>
    exact .inl (live_of_copy_none hk)

theorem answered_posted {o : Order} {s s₁ : Net} {a : Response OrderPayload}
    (h : firstAnswer (Net.post (toAlpacaOrder o)) maxAttempts s = (some a, s₁)) :
    Answered r b o s ↔ s₁.account.live o.clientOrderId = false ∨ Acknowledges b a := by
  unfold Answered
  rw [h]

theorem answered_lookedUp {o : Order} {s s₁ s₂ : Net} {a : Response OrderPayload}
    (h : firstAnswer (Net.post (toAlpacaOrder o)) maxAttempts s = (none, s₁))
    (hl : firstAnswer (Net.lookup o.clientOrderId) maxAttempts s₁ = (some a, s₂)) :
    Answered r b o s ↔ s₂.account.live o.clientOrderId = false ∨ Acknowledges b a := by
  unfold Answered
  simp only [h, hl]

theorem answered_lost {o : Order} {s s₁ s₂ : Net}
    (h : firstAnswer (Net.post (toAlpacaOrder o)) maxAttempts s = (none, s₁))
    (hl : firstAnswer (Net.lookup o.clientOrderId) maxAttempts s₁ = (none, s₂)) :
    Answered r b o s ↔ Resolved r b o s₂ := by
  unfold Answered
  simp only [h, hl]

/-- **What a submission comes to**: the account's copy, a no, or no answer at all. -/
theorem submitOrder_outcome (o : Order) (s : Net) :
    ∃ res s', exec ((onNet b).submitOrder o) s = (res, s') ∧
      ((∃ p, s'.account.copy o.clientOrderId = some p ∧ res = b.ofPayload p ∧
          (Answered r b o s ↔ s'.account.live o.clientOrderId = false ∨ ∃ x, b.ofPayload p = .ok x)) ∨
        (∃ e, res = .error e ∧ e.cls.isA .brokerConnectionError = false ∧
          (Answered r b o s ↔ s'.account.live o.clientOrderId = false)) ∨
        (∃ e, res = .error e ∧ e.cls.isA .brokerConnectionError = true ∧ (Answered r b o s ↔ Resolved r b o s'))) := by
  rcases hf : firstAnswer (Net.post (toAlpacaOrder o)) maxAttempts s with ⟨_ | a, s₁⟩
  · rcases hl : firstAnswer (Net.lookup o.clientOrderId) maxAttempts s₁ with ⟨_ | a, s₂⟩
    · exact ⟨_, s₂, AlpacaBroker.submitOrder_lost (b := onNet b) hf hl, .inr (.inr ⟨_, rfl, rfl, answered_lost r b hf hl⟩)⟩
    · obtain ⟨hno, hok, hmissing⟩ := AlpacaBroker.submitOrder_lookedUp (b := onNet b) hf hl
      obtain ⟨hr, s₀, h₀⟩ := firstAnswer_some hl
      have hans := answered_lookedUp r b hf hl
      rcases lookup_answer hr h₀ with ⟨p, hst, hp, hc⟩ | ⟨hst, hc⟩ | hst
      · exact ⟨_, s₂, hok p hst hp, .inl ⟨p, hc, rfl, by rw [hans, acknowledges_ok b hst hp]⟩⟩
      · refine ⟨_, s₂, hmissing hst, .inr (.inr ⟨_, rfl, rfl, ?_⟩)⟩
        exact iff_of_true (hans.2 (.inl (live_of_copy_none hc))) (resolved_of_absent r b hc)
      · obtain ⟨e, he, hexec⟩ := hno hst
        exact ⟨_, s₂, hexec, .inr (.inl ⟨e, rfl, he, by rw [hans, or_iff_left (acknowledges_no b hst)]⟩)⟩
  · obtain ⟨hno, hok⟩ := AlpacaBroker.submitOrder_posted (b := onNet b) hf
    obtain ⟨hr, s₀, h₀⟩ := firstAnswer_some hf
    have hans := answered_posted r b hf
    rcases post_answer hr h₀ with ⟨p, hst, hp, hc⟩ | hst
    · exact ⟨_, s₁, hok p hst hp, .inl ⟨p, hc, rfl, by rw [hans, acknowledges_ok b hst hp]⟩⟩
    · obtain ⟨e, he, hexec⟩ := hno hst
      exact ⟨_, s₁, hexec, .inr (.inl ⟨e, rfl, he, by rw [hans, or_iff_left (acknowledges_no b hst)]⟩)⟩

/-- A payload on the account's page is the account's copy under its key. -/
theorem copy_of_page {a : Account} {p : OrderPayload} (h : a.openPage.find? (fun p => p.clientOrderId = clientOrderId) = some p) :
    a.copy clientOrderId = some p := by
  have hk : p.clientOrderId = clientOrderId := by simpa using List.find?_some h
  have hm : p ∈ a.orders := List.mem_of_mem_filter (List.mem_of_mem_take (List.mem_of_find?_eq_some h))
  cases hc : a.copy clientOrderId with
  | none => exact absurd (List.mem_map.2 ⟨p, hm, hk⟩) (Account.not_mem_of_copy hc)
  | some q =>
    have hq : q.clientOrderId = clientOrderId := by simpa using List.find?_some hc
    have hqm : q ∈ a.orders := List.mem_of_find?_eq_some hc
    rw [List.inj_on_of_nodup_map a.distinct hqm hm (hq.trans hk.symm)]

theorem halts_iff (o : Order) :
    Halts r o ↔ (r.killSwitch.any fun k => (k.engage (Router.indeterminate o)).isOk) = true := by
  unfold Halts
  cases r.killSwitch with
  | none => simp
  | some switch => cases h : switch.engage (Router.indeterminate o) <;> simp [h, Except.isOk, Except.toBool]

/-- Nothing found: told exactly when nothing is live or the halt is taken. -/
theorem unresolved_told_iff {s : Routing Net σ} (ho : s.order.status = .pendingSubmit) (hh : s.halts = []) :
    Told s.order.clientOrderId s.order.symbol
        (exec (do r.engage (Router.indeterminate s.order); throw (Router.outcomeUnknown s.order)) s) ↔
      s.broker.account.live s.order.clientOrderId = false ∨ Halts r s.order := by
  obtain ⟨e, he, hraise⟩ := Router.exec_unresolved r s s.order
  rw [he, halts_iff]
  cases hk : (r.killSwitch.any fun k => (k.engage (Router.indeterminate s.order)).isOk) with
  | true =>
    refine iff_of_true (told_of_halted ho ?_ rfl (congrArg Except.error (hraise hk))) (.inr rfl)
    simp
  | false =>
    rw [or_iff_left (by simp)]
    exact told_iff_not_live (by rw [ho]; decide) (by simp [hh])

/-- A read that raises what is no transport failure halts nothing. -/
theorem raised_told_iff {s : Routing Net σ} {t : Net} (ho : s.order.status = .pendingSubmit) (hh : s.halts = [])
    (decision : RiskDecision) {e : Exc} (hc : e.cls.isA .brokerConnectionError = false)
    (hget : exec r.broker.getOpenOrders s.broker = (.error e, t)) :
    Told s.order.clientOrderId s.order.symbol (exec (r.resolveIndeterminate decision) s) ↔
      t.account.live s.order.clientOrderId = false := by
  rw [Router.resolve_raised r decision hget hc]
  exact told_iff_not_live (by rw [show s.order.status = _ from ho]; decide) hh

/-- A page that translates whole: the order is on it, or it is as good as unreachable. -/
theorem page_told_iff {s : Routing Net σ} {t : Net} (ho : s.order.status = .pendingSubmit) (hh : s.halts = [])
    (decision : RiskDecision) {os : List Order}
    (hall : List.Forall₂ (fun p o => b.ofPayload p = .ok o) t.account.openPage os)
    (hget : exec r.broker.getOpenOrders s.broker = (.ok os, t)) :
    Told s.order.clientOrderId s.order.symbol (exec (r.resolveIndeterminate decision) s) ↔
      t.account.live s.order.clientOrderId = false ∨
        ((∃ p ∈ t.account.openPage, p.clientOrderId = s.order.clientOrderId) ∨ Halts r s.order) := by
  rcases find_translated s.order.clientOrderId hall with ⟨hnone, hos⟩ | ⟨p, o, hp, hos, hpo⟩
  · rw [Router.resolve_unresolved r decision hget (.inl ⟨os, rfl, hos⟩), or_iff_right (a := ∃ p ∈ _, _)]
    · exact unresolved_told_iff r (s := { s with broker := t }) ho hh
    · rintro ⟨p, hp, hk⟩
      exact List.find?_eq_none.1 hnone p hp (by simpa using hk)
  · refine iff_of_true ?_ (.inr (.inl ⟨p, List.mem_of_find?_eq_some hp, by simpa using List.find?_some hp⟩))
    have hfound := Router.resolve_found r decision hget hos
    exact told_of_adopted r b ho hpo (by rw [hfound]; exact copy_of_page hp) (by rw [hfound])

theorem resolved_answered {o : Order} {s s₁ : Net} {a : Response (List OrderPayload)}
    (h : firstAnswer Net.openOrders maxAttempts s = (some a, s₁)) :
    Resolved r b o s ↔
      s₁.account.live o.clientOrderId = false ∨ (Reads b a ∧ (Lists o.clientOrderId a ∨ Halts r o)) := by
  unfold Resolved
  rw [h]

theorem resolved_lost {o : Order} {s s₁ : Net} (h : firstAnswer Net.openOrders maxAttempts s = (none, s₁)) :
    Resolved r b o s ↔ s₁.account.live o.clientOrderId = false ∨ Halts r o := by
  unfold Resolved
  rw [h]

/-- **The open-orders read, told.** -/
theorem resolve_told_iff {s : Routing Net σ} (ho : s.order.status = .pendingSubmit) (hh : s.halts = [])
    (decision : RiskDecision) :
    Told s.order.clientOrderId s.order.symbol (exec ((wired r b).resolveIndeterminate decision) s) ↔
      Resolved r b s.order s.broker := by
  rcases hf : firstAnswer Net.openOrders maxAttempts s.broker with ⟨_ | a, s₁⟩
  · have hget := AlpacaBroker.getOpenOrders_lost (b := onNet b) hf
    rw [resolved_lost r b hf, Router.resolve_unresolved (wired r b) decision hget (.inr ⟨_, rfl, rfl⟩)]
    exact unresolved_told_iff (wired r b) (s := { s with broker := s₁ }) ho hh
  obtain ⟨hno, hok⟩ := AlpacaBroker.getOpenOrders_answered (b := onNet b) hf
  obtain ⟨hr, s₀, h₀⟩ := firstAnswer_some hf
  rw [resolved_answered r b hf]
  rcases openOrders_answer hr h₀ with ⟨hst, hpage⟩ | hst
  · have hget := hok hst
    rw [hpage, Option.getD_some] at hget
    by_cases hreads : ∀ p ∈ s₁.account.openPage, ∃ o, b.ofPayload p = .ok o
    · obtain ⟨os, hos, hall⟩ := mapM_reads _ hreads
      rw [show List.mapM (onNet b).ofPayload s₁.account.openPage = .ok os from hos] at hget
      have hread : Reads b a := ⟨hst, by rw [hpage]; exact hreads⟩
      rw [page_told_iff (wired r b) b ho hh decision hall hget, and_iff_right hread]
      unfold Lists
      rw [hpage]
      rfl
    · have hbad : ∃ p ∈ s₁.account.openPage, ∀ o, b.ofPayload p ≠ .ok o := by
        simpa using hreads
      obtain ⟨e, p, -, he, hraise⟩ := mapM_raises _ hbad
      rw [show List.mapM (onNet b).ofPayload s₁.account.openPage = .error e from hraise] at hget
      rw [raised_told_iff (wired r b) ho hh decision (AlpacaBroker.ofPayload_error he) hget,
        or_iff_left (fun hread => hreads (by simpa [hpage] using hread.1.2))]
  · obtain ⟨e, hc, hget⟩ := hno hst
    rw [raised_told_iff (wired r b) ho hh decision hc hget, or_iff_left (fun hread => hst.notOk hread.1.1)]

/-- A no halts nothing. -/
theorem error_told_iff {s : Routing Net σ} (ho : s.order.status = .pendingSubmit) (hh : s.halts = [])
    (decision : RiskDecision) {e : Exc} (he : e.cls.isA .brokerConnectionError = false) :
    Told s.order.clientOrderId s.order.symbol (exec (r.told decision (.error e)) s) ↔
      s.broker.account.live s.order.clientOrderId = false := by
  obtain ⟨hbroker, hhalts, hstatus⟩ := Router.told_error r ho decision he
  rw [← hbroker]
  exact told_iff_not_live (by rcases hstatus with h | h <;> rw [h] <;> decide) (hhalts.trans hh)

/-- The account's own copy for an answer: told exactly when it translates, or is no longer live. -/
theorem payload_told_iff {s : Routing Net σ} (ho : s.order.status = .pendingSubmit) (hh : s.halts = [])
    (decision : RiskDecision) {p : OrderPayload} (hc : s.broker.account.copy s.order.clientOrderId = some p) :
    Told s.order.clientOrderId s.order.symbol (exec (r.told decision (b.ofPayload p)) s) ↔
      s.broker.account.live s.order.clientOrderId = false ∨ ∃ x, b.ofPayload p = .ok x := by
  cases hp : b.ofPayload p with
  | ok acknowledged =>
    refine iff_of_true ?_ (.inr ⟨acknowledged, rfl⟩)
    exact told_of_adopted r b ho hp (by rw [Router.told_ok]; exact hc) (by rw [Router.told_ok])
  | error e =>
    rw [or_iff_left (by simp)]
    exact error_told_iff r ho hh decision (AlpacaBroker.ofPayload_error hp)

/-- **A sent order's submission is told truthfully exactly when the answers tell it.** -/
theorem submit_told_iff (portfolio : Portfolio) (pending : List Order) (order : Order) (net : Net) (risk : σ)
    (h : (wired r b).Sends portfolio pending (submission order net risk)) :
    Told order.clientOrderId order.symbol (exec ((wired r b).route portfolio pending) (submission order net risk)) ↔
      Answered r b ((wired r b).sentOrder portfolio pending (submission order net risk)) net := by
  obtain ⟨decision, hexec⟩ := Router.exec_route (wired r b) h
  obtain ⟨hid, hsym, hst, -⟩ := Router.sentOrder_keeps (wired r b) portfolio pending (submission order net risk)
  change _ = order.clientOrderId at hid
  change _ = order.symbol at hsym
  rw [hexec, ← hid, ← hsym]
  generalize ho : (wired r b).sentOrder portfolio pending (submission order net risk) = o at *
  obtain ⟨res, t, hsub, hcases⟩ := submitOrder_outcome r b o net
  change exec ((wired r b).broker.submitOrder o) (submission order net risk).broker = (res, t) at hsub
  have hasked : ((wired r b).asking portfolio pending (submission order net risk)).order = o := ho
  have hhalts : ((wired r b).asking portfolio pending (submission order net risk)).halts = [] := rfl
  generalize (wired r b).asking portfolio pending (submission order net risk) = asked at *
  rw [hsub]
  subst hasked
  rcases hcases with ⟨p, hc, rfl, hans⟩ | ⟨e, rfl, he, hans⟩ | ⟨e, rfl, he, hans⟩
  · rw [hans]
    exact payload_told_iff (wired r b) b (s := { asked with broker := t }) hst hhalts decision hc
  · rw [hans]
    exact error_told_iff (wired r b) (s := { asked with broker := t }) hst hhalts decision he
  · rw [hans, show (wired r b).told decision (.error e) = (wired r b).resolveIndeterminate decision by
      simp only [Router.told, he, if_true]]
    exact resolve_told_iff r b (s := { asked with broker := t }) hst hhalts decision

end

/-! ## Two submissions of one order -/

section runs

def nothingMeanwhile : Evolution := ⟨id, fun _ => ⟨rfl, rfl⟩⟩

def working : OrderPayload :=
  { id := "v1", clientOrderId := "k1", status := "new", orderType := "market", symbol := "SPY", side := "buy",
    timeInForce := "day", qty := 10 }

def buyTen : Order := { symbol := "SPY", side := .buy, qty := 10, id := "o1", clientOrderId := "k1" }

def bareRouter : Router Net Unit Unit where
  broker := ⟨"", fun o => return o, fun _ => return (), fun _ => return none, return []⟩
  limits := ()
  rules := []
  instruments := fun _ => none
  killSwitch := some ⟨fun _ => .ok ()⟩
  now := 0
  text := fun _ => ""

def bareAdapter : AlpacaBroker Net where
  client := ⟨fun _ s => (none, s), fun _ s => (none, s), fun _ s => (none, s), fun s => (none, s), fun _ s => (none, s)⟩
  newId := "n"
  now := 0

/-- The first post is accepted and its answer is lost; `later` is what becomes of the retry. -/
def acceptedUnheard (later : List PostAttempt) (lookups : List ReadAttempt) : Net where
  account := ⟨[], List.nodup_nil⟩
  posts := ⟨nothingMeanwhile, some (.accept working), .timedOut, {}⟩ :: later
  lookups := lookups
  opens := []

def emptyBook : Portfolio := { cash := 100000, startingEquity := 100000 }

theorem bare_sends (net : Net) : (wired bareRouter bareAdapter).Sends emptyBook [] (submission buyTen net ()) :=
  ⟨rfl, rfl, show (0 : ℚ) < 10 by norm_num⟩

/-- **Looked up, the accepted order is told.** -/
theorem submit_told_by_lookup :
    Told "k1" "SPY" (exec ((wired bareRouter bareAdapter).route emptyBook [])
      (submission buyTen (acceptedUnheard [] [⟨nothingMeanwhile, .answered⟩]) ())) :=
  (submit_told_iff bareRouter bareAdapter emptyBook [] buyTen _ () (bare_sends _)).2
    ((answered_lookedUp bareRouter bareAdapter rfl rfl).2 (.inr ⟨rfl, working, rfl, _, rfl⟩))

/-- **Answered 422 to its own retry, the accepted order is called rejected while it works.** -/
theorem retry_calls_working_rejected :
    ¬ Told "k1" "SPY" (exec ((wired bareRouter bareAdapter).route emptyBook [])
      (submission buyTen (acceptedUnheard [⟨nothingMeanwhile, some (.accept working), .delivered, {}⟩] []) ())) := by
  intro h
  have hrejected : (exec ((wired bareRouter bareAdapter).route emptyBook []) (submission buyTen
      (acceptedUnheard [⟨nothingMeanwhile, some (.accept working), .delivered, {}⟩] []) ())).2.order.status = .rejected := by
    decide +kernel
  have hdead := h.rejected (.inl hrejected)
  revert hdead
  decide +kernel

end runs
end SubmitTruth
end Atp
