import AlgoTrading.FeePages
import AlgoTrading.Protection
/-!
# VenueReads — what one bounded read of the venue leaves out

`cancel_all` and `_forget_protective` of `execution/router.py`, and the reads of `brokers/alpaca.py` over a venue that
answers an orders request with the first `limit` of what is open.  `openOrders_iff`, `feesWhole_iff` and `cancelAll_iff` say
when each read is of everything.
-/
namespace Atp

open Raising

/-! ## Cancelling everything -/

/-- **`_forget_protective`**. -/
def Desk.forgetProtective {β σ : Type} (d : Desk β σ) (cancelled : Order) : Desk β σ :=
  match d.protective.get? cancelled.symbol with
  | none | some [] => d
  | some refs => d.setChildren cancelled.symbol
      (refs.filter fun ref => (d.heap[ref]?).any fun c => c.brokerOrderId ≠ cancelled.brokerOrderId)

/-- What is in the scope of a cancel-all: everything, or one symbol. -/
def InScope (upper : String → String) (symbol : Option String) (of : String) : Prop := ∀ s ∈ symbol, of = upper s

instance (upper : String → String) (symbol : Option String) (of : String) : Decidable (InScope upper symbol of) := by
  unfold InScope
  infer_instance

namespace OrderRouter

variable {β L σ : Type} (r : OrderRouter β L σ)

/-- `"; ".join(failures)`. -/
def joined : List (List Piece) → List Piece
  | [] => []
  | [failure] => failure
  | failure :: rest => failure ++ .lit "; " :: joined rest

/-- The loop of `cancel_all`: how many were cancelled, and what was said of those that were not. -/
def cancelTargets : List (Order × String) → ℕ → List (List Piece) → Prog (Desk β σ) Exc (ℕ × List (List Piece))
  | [], cancelled, failures => return (cancelled, failures)
  | (order, brokerOrderId) :: rest, cancelled, failures => do
    match ← tried (Desk.onBroker (r.broker.cancelOrder brokerOrderId)) with
    | .error exc =>
      if exc.cls.isA .brokerError then
        cancelTargets rest cancelled
          (failures ++ [[.lit order.symbol, .lit "/", .lit brokerOrderId, .lit ": "] ++ exc.message])
      else throw exc
    | .ok _ =>
      modify (·.forgetProtective order)
      cancelTargets rest (cancelled + 1) failures

/-- The orders it goes for: those in scope that have an id at the broker. -/
def targets (symbol : Option String) (openOrders : List Order) : List (Order × String) :=
  (openOrders.filter fun o => InScope r.upper symbol o.symbol).filterMap fun o => o.brokerOrderId.map (o, ·)

/-- **`cancel_all`**: every order is attempted before a failure is raised. -/
def cancelAll (symbol : Option String) : Prog (Desk β σ) Exc ℕ := do
  let openOrders ← Desk.onBroker r.broker.getOpenOrders
  let wanted := r.targets symbol openOrders
  let (cancelled, failures) ← r.cancelTargets wanted 0 []
  if failures.isEmpty then return cancelled
  else throw ⟨.executionError, [.lit "cancel_all cancelled ", .dec cancelled, .lit " of ", .dec wanted.length,
    .lit " orders; ", .dec failures.length, .lit " failed: "] ++ joined failures⟩

end OrderRouter

namespace Alpaca

/-! ## A venue that answers with a page of what is open -/

/-- `limit` of the orders request. -/
def orderLimit : ℕ := 500

/-- What is open, in the order the venue lists it, each id once. -/
structure OpenOrders where
  orders : List OrderPayload
  distinct : (orders.map OrderPayload.id).Nodup

/-- The venue: what is open, and the ids it was sent cancels for. -/
structure Trading where
  open_ : OpenOrders
  cancels : List String := []

/-- What a cancel meets: the answer, if one comes back, and what is open after it. -/
abbrev Cancelling := String → Trading → Option (Response Unit) × OpenOrders

def listOpen : Exchange Trading (List OrderPayload) :=
  fun v => (some { statusCode := 200, content := some (v.open_.orders.take orderLimit) }, v)

def delete (meets : Cancelling) (id : String) : Exchange Trading Unit :=
  fun v => ((meets id v).1, { open_ := (meets id v).2, cancels := v.cancels ++ [id] })

/-- The adapter, before such a venue. -/
def trading (b : AlpacaBroker Trading) (meets : Cancelling) : AlpacaBroker Trading :=
  { b with client := { b.client with getOpenOrders := listOpen, deleteOrder := delete meets } }

variable {L σ : Type} {b : AlpacaBroker Trading} {meets : Cancelling} {v : Trading}

theorem fromAlpacaOrder_symbol {payload : OrderPayload} {newId : String} {now : ℤ} {o : Order}
    (h : fromAlpacaOrder payload newId now = .ok o) : o.symbol = payload.symbol := by
  have hset : ∀ (s : OrderStatus) (o : Order), (setStatus payload s o).symbol = o.symbol := fun s o => by
    unfold setStatus
    dsimp only
    split <;> split <;> rfl
  have happly : ∀ {o o' : Order}, applyFilled payload now o = .ok o' → o'.symbol = o.symbol := fun {o o'} h => by
    unfold applyFilled at h
    split at h
    · split at h
      · cases h
      · obtain ⟨-, -, rfl⟩ := Order.applyFill_ok.1 h
        exact Order.accumulate_symbol _ _
    · cases h
      rfl
  have hparse : ∀ {o : Order}, parseOrder payload newId = .ok o → o.symbol = payload.symbol := fun {o} h => by
    unfold parseOrder at h
    cases ht : orderTypeBack payload.orderType with
    | none => simp [ht] at h
    | some orderType =>
      cases hs : sideOf payload.side with
      | none => simp [ht, hs] at h
      | some side =>
        cases hf : timeInForceOf payload.timeInForce with
        | none => simp [ht, hs, hf] at h
        | some timeInForce =>
          simp only [ht, hs, hf] at h
          obtain ⟨rfl, -⟩ := Order.postInit_ok h
          rfl
  unfold fromAlpacaOrder at h
  cases hs : status payload.status with
  | none => simp [hs] at h
  | some mapped =>
    cases hp : parseOrder payload newId with
    | error e => simp [hs, hp, bind, Except.bind] at h
    | ok o₁ =>
      cases hf : applyFilled payload now o₁ with
      | error e => simp [hs, hp, hf, bind, Except.bind] at h
      | ok o₂ =>
        simp only [hs, hp, hf, bind, Except.bind, pure, Except.pure, Except.ok.injEq] at h
        rw [← h, hset, happly hf, hparse hp]

/-- A page translates order by order. -/
theorem mapM_ok_iff {α γ : Type} {f : α → Except Exc γ} : ∀ {l : List α} {os : List γ},
    l.mapM f = .ok os ↔ List.Forall₂ (fun p o => f p = .ok o) l os
  | [], os => by
    rw [List.forall₂_nil_left_iff]
    exact ⟨fun h => by cases h; rfl, fun h => by rw [h]; rfl⟩
  | p :: l, os => by
    rw [mapM_cons_except, List.forall₂_cons_left_iff]
    constructor
    · intro h
      cases hp : f p with
      | error e =>
        rw [hp] at h
        cases h
      | ok o =>
        cases hl : l.mapM f with
        | error e =>
          rw [hp, hl] at h
          cases h
        | ok rest =>
          rw [hp, hl] at h
          cases h
          exact ⟨o, rest, rfl, mapM_ok_iff.1 hl, rfl⟩
    · rintro ⟨o, rest, hp, hl, rfl⟩
      rw [hp, mapM_ok_iff.2 hl]

/-- **`get_open_orders` translates the first page.** -/
theorem exec_getOpenOrders : exec (trading b meets).getOpenOrders v = ((v.open_.orders.take orderLimit).mapM b.ofPayload, v) := by
  unfold AlpacaBroker.getOpenOrders
  rw [exec_bind, exec_request]
  exact exec_fromExcept _ _

/-- **The read is of every working order exactly where they all translate and there is no more than a page of them.** -/
theorem openOrders_iff (b : AlpacaBroker Trading) (meets : Cancelling) (v : Trading) :
    (∃ os, exec (trading b meets).getOpenOrders v = (.ok os, v) ∧ v.open_.orders.mapM b.ofPayload = .ok os) ↔
      v.open_.orders.length ≤ orderLimit ∧ ∀ p ∈ v.open_.orders, ∃ o, b.ofPayload p = .ok o := by
  rw [exec_getOpenOrders]
  constructor
  · rintro ⟨os, hread, hall⟩
    rw [Prod.mk.injEq, and_iff_left rfl, mapM_ok_iff] at hread
    rw [mapM_ok_iff] at hall
    have hlen := hread.length_eq.trans hall.length_eq.symm
    rw [List.length_take, min_eq_right_iff] at hlen
    refine ⟨hlen, fun p hp => ?_⟩
    obtain ⟨i, hi, rfl⟩ := List.getElem_of_mem hp
    exact ⟨_, hall.get hi (hall.length_eq ▸ hi)⟩
  · rintro ⟨hlen, hreads⟩
    obtain ⟨os, hos, -⟩ := mapM_reads _ hreads
    exact ⟨os, by rw [List.take_of_length_le hlen, hos], hos⟩

/-! ## What a cancel-all has sent -/

/-- The router, before such a venue. -/
def routed (r : OrderRouter Trading L σ) (b : AlpacaBroker Trading) (meets : Cancelling) : OrderRouter Trading L σ :=
  { r with broker := (trading b meets).port }

@[simp] theorem forgetProtective_broker {β : Type} (d : Desk β σ) (o : Order) : (d.forgetProtective o).broker = d.broker := by
  unfold Desk.forgetProtective
  split <;> rfl

theorem firstAnswer_cancels {id sent : String} : ∀ (n : ℕ) (v : Trading),
    sent ∈ (firstAnswer (delete meets id) n v).2.cancels ↔ sent ∈ v.cancels ∨ 0 < n ∧ sent = id
  | 0, v => by simp [firstAnswer]
  | n + 1, v => by
    have hnext : ∀ open_, sent ∈ (firstAnswer (delete meets id) n { open_, cancels := v.cancels ++ [id] }).2.cancels ↔
        sent ∈ v.cancels ∨ sent = id := fun open_ => by
      rw [firstAnswer_cancels n]
      simp only [List.mem_append, List.mem_singleton]
      tauto
    unfold firstAnswer
    rw [and_iff_right (Nat.zero_lt_succ n), show delete meets id v = ((meets id v).1, ⟨(meets id v).2, v.cancels ++ [id]⟩) from rfl]
    cases (meets id v).1 with
    | none => exact hnext _
    | some answer =>
      dsimp only
      split
      · exact hnext _
      · simp

/-- **A cancel that was asked for was sent**, whatever it met. -/
theorem cancelOrder_cancels {id sent : String} :
    sent ∈ (exec ((trading b meets).cancelOrder id) v).2.cancels ↔ sent ∈ v.cancels ∨ sent = id := by
  have hstate : (exec ((trading b meets).cancelOrder id) v).2 = (firstAnswer (delete meets id) maxAttempts v).2 := by
    unfold AlpacaBroker.cancelOrder
    rw [exec_bind, exec_tried, exec_request]
    dsimp only [trading]
    split
    · rfl
    · split <;> rfl
  rw [hstate, firstAnswer_cancels, and_iff_right (by decide)]

section
variable {r : OrderRouter Trading L σ} {symbol : Option String} {d d' : Desk Trading σ}

/-- **Every target is attempted.** -/
theorem cancelTargets_cancels : ∀ {wanted : List (Order × String)} {n : ℕ} {failures : List (List Piece)} {d : Desk Trading σ}
    {out : ℕ × List (List Piece)}, exec ((routed r b meets).cancelTargets wanted n failures) d = (.ok out, d') →
    ∀ sent, sent ∈ d'.broker.cancels ↔ sent ∈ d.broker.cancels ∨ sent ∈ wanted.map Prod.snd
  | [], n, failures, d, out, h, sent => by
    cases h
    simp
  | (o, id) :: rest, n, failures, d, out, h, sent => by
    unfold OrderRouter.cancelTargets at h
    rw [exec_bind, exec_tried] at h
    have hsent : sent ∈ (exec ((trading b meets).cancelOrder id) d.broker).2.cancels ↔ sent ∈ d.broker.cancels ∨ sent = id :=
      cancelOrder_cancels
    rw [List.map_cons, List.mem_cons, ← or_assoc, ← hsent]
    dsimp only at h
    split at h
    · split at h
      · exact cancelTargets_cancels h sent
      · cases h
    · rw [exec_bind, exec_modify] at h
      rw [cancelTargets_cancels h sent, forgetProtective_broker]
      rfl

theorem mem_targets {openOrders : List Order} {page : List OrderPayload} {id : String}
    (h : List.Forall₂ (fun p o => b.ofPayload p = .ok o) page openOrders) :
    id ∈ (r.targets symbol openOrders).map Prod.snd ↔ ∃ p ∈ page, InScope r.upper symbol p.symbol ∧ p.id = id := by
  induction h with
  | nil => simp [OrderRouter.targets]
  | @cons p o page os hp _ ih =>
    have hsymbol : o.symbol = p.symbol := fromAlpacaOrder_symbol hp
    have hid : o.brokerOrderId = some p.id := (fromAlpacaOrder_view hp).brokerOrderId
    unfold OrderRouter.targets at ih ⊢
    by_cases hscope : InScope r.upper symbol p.symbol
    · rw [List.filter_cons_of_pos (by simpa [hsymbol] using hscope), List.filterMap_cons_some (by rw [hid]; rfl), List.map_cons,
        List.mem_cons, ih, List.exists_mem_cons_iff, and_iff_right hscope, eq_comm]
    · rw [List.filter_cons_of_neg (by simpa [hsymbol] using hscope), ih, List.exists_mem_cons_iff]
      simp [hscope]

/-- **A cancel-all that returns has sent a cancel for what is in scope on the first page**, and for nothing else. -/
theorem cancelAll_cancels {n : ℕ} (h : exec ((routed r b meets).cancelAll symbol) d = (.ok n, d')) :
    (∀ p ∈ d.broker.open_.orders.take orderLimit, ∃ o, b.ofPayload p = .ok o) ∧ ∀ sent, sent ∈ d'.broker.cancels ↔
      sent ∈ d.broker.cancels ∨ ∃ p ∈ d.broker.open_.orders.take orderLimit, InScope r.upper symbol p.symbol ∧ p.id = sent := by
  unfold OrderRouter.cancelAll at h
  rw [exec_bind, Desk.onBroker, exec_within] at h
  rw [show (routed r b meets).broker.getOpenOrders = (trading b meets).getOpenOrders from rfl, exec_getOpenOrders] at h
  cases hpage : (d.broker.open_.orders.take orderLimit).mapM b.ofPayload with
  | error e =>
    rw [hpage] at h
    cases h
  | ok openOrders =>
    rw [hpage] at h
    have hall := mapM_ok_iff.1 hpage
    refine ⟨fun p hp => ?_, fun sent => ?_⟩
    · obtain ⟨i, hi, rfl⟩ := List.getElem_of_mem hp
      exact ⟨_, hall.get hi (hall.length_eq ▸ hi)⟩
    · dsimp only at h
      rw [exec_bind] at h
      rcases hrun : exec ((routed r b meets).cancelTargets ((routed r b meets).targets symbol openOrders) 0 []) d with ⟨_ | ⟨n', fs⟩, t⟩
      · rw [hrun] at h
        cases h
      · rw [hrun] at h
        have hsent := cancelTargets_cancels hrun sent
        rw [mem_targets hall] at hsent
        dsimp only at h
        split at h <;> cases h
        exact hsent

/-- A venue that takes every cancel. -/
def accepts : Cancelling := fun _ v => (some { statusCode := 204 }, v.open_)

theorem cancelTargets_accepts : ∀ (wanted : List (Order × String)) (n : ℕ) (d : Desk Trading σ),
    ∃ d', exec ((routed r b accepts).cancelTargets wanted n []) d = (.ok (n + wanted.length, []), d')
  | [], n, d => ⟨d, rfl⟩
  | (o, id) :: rest, n, d => by
    obtain ⟨d', hd'⟩ := cancelTargets_accepts rest (n + 1)
      (Desk.forgetProtective { d with broker := { d.broker with cancels := d.broker.cancels ++ [id] } } o)
    refine ⟨d', ?_⟩
    rw [List.length_cons, Nat.add_comm rest.length, ← Nat.add_assoc, ← hd']
    rfl

theorem cancelAll_accepts (hreads : ∀ p ∈ d.broker.open_.orders.take orderLimit, ∃ o, b.ofPayload p = .ok o) :
    ∃ n d', exec ((routed r b accepts).cancelAll symbol) d = (.ok n, d') := by
  obtain ⟨openOrders, hpage, -⟩ := mapM_reads _ hreads
  obtain ⟨d', hd'⟩ := cancelTargets_accepts (r := r) (b := b) ((routed r b accepts).targets symbol openOrders) 0 d
  refine ⟨0 + ((routed r b accepts).targets symbol openOrders).length, d', ?_⟩
  have hread : exec (Desk.onBroker (routed r b accepts).broker.getOpenOrders) d = (.ok openOrders, d) := by
    rw [Desk.onBroker, exec_within, show (routed r b accepts).broker.getOpenOrders = (trading b accepts).getOpenOrders from rfl,
      exec_getOpenOrders, hpage]
  rw [OrderRouter.cancelAll, exec_bind, hread]
  dsimp only
  rw [exec_bind, hd']
  rfl

end

/-- Whatever its cancels meet, a cancel-all that returns has sent one for every order in scope that was open. -/
def CancelsAll (r : OrderRouter Trading L σ) (b : AlpacaBroker Trading) (d : Desk Trading σ) (book : OpenOrders)
    (symbol : Option String) : Prop :=
  ∀ meets n d', exec ((routed r b meets).cancelAll symbol) { d with broker := { open_ := book } } = (.ok n, d') →
    ∀ p ∈ book.orders, InScope r.upper symbol p.symbol → p.id ∈ d'.broker.cancels

/-- **A cancel-all is of everything exactly where nothing in scope is past the first page**, if that page reads at all. -/
theorem cancelAll_iff (r : OrderRouter Trading L σ) (b : AlpacaBroker Trading) (d : Desk Trading σ) (book : OpenOrders)
    (symbol : Option String) : CancelsAll r b d book symbol ↔
      ((∀ p ∈ book.orders.take orderLimit, ∃ o, b.ofPayload p = .ok o) →
        ∀ p ∈ book.orders.drop orderLimit, ¬InScope r.upper symbol p.symbol) := by
  constructor
  · intro h hreads p hp hscope
    obtain ⟨n, d', hrun⟩ : ∃ n d', exec ((routed r b accepts).cancelAll symbol) { d with broker := { open_ := book } } = (.ok n, d') :=
      cancelAll_accepts hreads
    have hsent := h accepts n d' hrun p (List.mem_of_mem_drop hp) hscope
    rw [(cancelAll_cancels hrun).2] at hsent
    obtain hmem | ⟨q, hq, -, hid⟩ := hsent
    · cases hmem
    · -- an id is open once
      have hnodup := book.distinct
      rw [← List.take_append_drop orderLimit book.orders, List.map_append, List.nodup_append] at hnodup
      exact hnodup.2.2 _ (List.mem_map_of_mem hq) _ (List.mem_map_of_mem hp) hid
  · intro h meets n d' hrun p hp hscope
    obtain ⟨hreads, hsent⟩ := cancelAll_cancels hrun
    rw [hsent]
    rw [← List.take_append_drop orderLimit book.orders, List.mem_append] at hp
    obtain htake | hdrop := hp
    · exact .inr ⟨p, htake, hscope, rfl⟩
    · exact absurd hscope (h hreads p hdrop)

/-- **The reads of the venue are of everything** exactly where one page holds what is open, or what is in scope, and no row of
the fee feed stops its read. -/
theorem reads_whole {ν : Type} (r : OrderRouter Trading L σ) (b : AlpacaBroker Trading) (d : Desk Trading σ) (book : OpenOrders)
    (feed : Feed) (s : ν) :
    (∀ meets, (∃ os, exec (trading b meets).getOpenOrders { open_ := book } = (.ok os, { open_ := book }) ∧
        book.orders.mapM b.ofPayload = .ok os) ↔
      book.orders.length ≤ orderLimit ∧ ∀ p ∈ book.orders, ∃ o, b.ofPayload p = .ok o) ∧
    ((∃ fuel l, exec (getFeeActivities feed.serve fuel) s = (.ok (some l), s) ∧ l.Perm (feesOf feed.rows) ∧
        l.Pairwise fun a b => a.bookedOn ≤ b.bookedOn) ↔ (∀ row ∈ feed.rows, ¬Garbled row) ∧ feed.Continues 0) ∧
    ∀ symbol, CancelsAll r b d book symbol ↔
      ((∀ p ∈ book.orders.take orderLimit, ∃ o, b.ofPayload p = .ok o) →
        ∀ p ∈ book.orders.drop orderLimit, ¬InScope r.upper symbol p.symbol) := by
  refine ⟨fun meets => openOrders_iff b meets { open_ := book }, ?_, cancelAll_iff r b d book⟩
  rw [← getFeeActivities_iff feed s]
  constructor
  · rintro ⟨fuel, l, hrun, -⟩
    exact ⟨fuel, l, hrun⟩
  · rintro ⟨fuel, l, hrun⟩
    exact ⟨fuel, l, hrun, getFeeActivities_whole hrun⟩

def restingOrder (id : String) : OrderPayload where
  id := id
  clientOrderId := "key"
  status := "new"
  orderType := "market"
  symbol := "SPY"
  side := "buy"
  timeInForce := "day"
  qty := 1

/-- So many resting orders. -/
def resting (n : ℕ) : OpenOrders where
  orders := (List.range n).map fun i => restingOrder (String.ofList (List.replicate i 'a'))
  distinct := by
    rw [List.map_map]
    refine List.nodup_range.map fun i j h => ?_
    have hlist := String.ofList_injective h
    simpa using congrArg List.length hlist

/-- An executed fee whose amount is a text that is no number. -/
def garbledFeed : Feed where
  rows := [some { id := some "a", netAmount := some (.text none), date := some (some 20000) }]
  distinct := by decide

def counter : AlpacaBroker Trading where
  client := {
    postOrder := fun _ v => (none, v)
    getByClientOrderId := fun _ v => (none, v)
    getOrder := fun _ v => (none, v)
    getOpenOrders := listOpen
    deleteOrder := delete accepts }
  newId := "order"
  now := 0

def clerk : OrderRouter Trading Unit Unit where
  broker := counter.port
  limits := ()
  rules := []
  instruments _ := none
  killSwitch := none
  now := 0
  text _ := ""
  newId n := String.ofList (List.replicate n 'n')
  digest pieces := String.ofList (List.replicate pieces.length 'd')

def blankDesk : Desk Trading Unit where
  portfolio := { cash := 0, startingEquity := 1000 }
  broker := { open_ := resting 501 }
  risk := ()

theorem resting_length (n : ℕ) : (resting n).orders.length = n := by
  unfold resting
  rw [List.length_map, List.length_range]

theorem mem_resting {n : ℕ} {p : OrderPayload} (h : p ∈ (resting n).orders) : ∃ id, restingOrder id = p := by
  obtain ⟨i, -, hi⟩ := List.mem_map.1 h
  exact ⟨_, hi⟩

theorem restingOrder_reads (id : String) : ∃ o, counter.ofPayload (restingOrder id) = .ok o := ⟨_, rfl⟩

/-- **The five hundred and first working order is neither read nor cancelled, and one unreadable amount stops the fees.** -/
theorem page_left_out :
    (¬∃ os, exec (trading counter accepts).getOpenOrders { open_ := resting 501 } = (.ok os, { open_ := resting 501 }) ∧
      (resting 501).orders.mapM counter.ofPayload = .ok os) ∧
    (¬∃ fuel l, exec (getFeeActivities garbledFeed.serve fuel) () = (.ok (some l), ())) ∧
    ¬CancelsAll clerk counter blankDesk (resting 501) none := by
  refine ⟨fun h => ?_, fun h => ?_, fun h => ?_⟩
  · obtain ⟨hlen, -⟩ := (openOrders_iff counter accepts { open_ := resting 501 }).1 h
    rw [resting_length] at hlen
    exact absurd hlen (by decide)
  · obtain ⟨hclean, -⟩ := (getFeeActivities_iff garbledFeed ()).1 h
    exact hclean _ List.mem_cons_self ⟨_, rfl, rfl, rfl, rfl⟩
  · have hreads : ∀ p ∈ (resting 501).orders.take orderLimit, ∃ o, counter.ofPayload p = .ok o := fun p hp => by
      obtain ⟨id, rfl⟩ := mem_resting (List.mem_of_mem_take hp)
      exact restingOrder_reads id
    have hlast := (cancelAll_iff clerk counter blankDesk (resting 501) none).1 h hreads
    have hpos : 0 < ((resting 501).orders.drop orderLimit).length := by
      rw [List.length_drop, resting_length, orderLimit]
      decide
    obtain ⟨p, hp⟩ := List.exists_mem_of_length_pos hpos
    exact hlast p hp fun s hs => by cases hs

end Alpaca
end Atp
