import AlgoTrading.RunnerMoves
import AlgoTrading.StopRatchet
/-!
# RunnerFrames — what the router's closes and the runner's own statements leave alone

A close moves what is behind the broker, the objects and the children, and never the book.  The runner's writes to storage,
its halts and its protection gaps touch neither the objects nor the book nor the working set, so whatever is said of these
three is kept (`OfBooks`).
-/
namespace Atp
namespace RunnerFrames

open Raising RunnerState
open Moves (OfCore keeps_onStore keeps_checkpoint)

variable {α β L σ ω : Type}

/-! ## The router's closes and the book -/

section desk
variable {r : OrderRouter β L σ} {b : Portfolio}

/-- The book is this one. -/
def AtBook (b : Portfolio) (d : Desk β σ) : Prop := d.portfolio = b

section sweep
variable {I : Desk β σ → Prop} (hI : ∀ d b, I d → I { d with broker := b })
include hI

theorem keeps_cancelEach : ∀ (l : List (Option Ref × Order)) (survivors : List Ref) (n : ℕ),
    Keeps I (r.cancelEach l survivors n)
  | [], _, _ => keeps_pure _
  | (ref, child) :: rest, survivors, n => by
    unfold OrderRouter.cancelEach
    split
    · refine keeps_bind (r.keeps_cancelled hI _) fun c => ?_
      exact keeps_ite (keeps_cancelEach rest _ _) (keeps_cancelEach rest _ _)
    · exact keeps_cancelEach rest _ _

/-- A sweep moves what is behind the broker and the children. -/
theorem keeps_cancelProtection (hchildren : ∀ d children, I d → I { d with protective := children }) (symbol : String) :
    Keeps I (r.cancelProtection symbol) := by
  unfold OrderRouter.cancelProtection
  refine keeps_bind keeps_get fun d => ?_
  refine keeps_bind (r.keeps_inheritedProtection hI _ _ _) fun inherited => ?_
  refine keeps_bind (keeps_cancelEach hI _ _ _) fun swept => ?_
  exact keeps_bind (keeps_modify fun d h => hchildren d _ h) fun _ => keeps_pure _

end sweep

theorem keeps_releaseProtection (symbol : String) (closing : Side) : Keeps (AtBook b) (r.releaseProtection symbol closing) := by
  unfold OrderRouter.releaseProtection
  refine keeps_bind keeps_get fun d => ?_
  refine keeps_bind (r.keeps_inheritedProtection (fun _ _ h => h) _ _ _) fun inherited => ?_
  refine keeps_ite (keeps_pure _) ?_
  refine keeps_bind (r.keeps_releaseEach (fun _ _ h => h) (fun _ _ h => h) _ _) fun released => ?_
  exact keeps_bind (keeps_modify fun _ h => h) fun _ => keeps_pure _

theorem keeps_rearmEach (symbol : String) (p : Position) : ∀ l : List Order, Keeps (AtBook b) (r.rearmEach symbol p l)
  | [] => keeps_pure _
  | child :: rest => by
    unfold OrderRouter.rearmEach
    split
    · exact keeps_rearmEach symbol p rest
    refine keeps_bind keeps_get fun d => ?_
    refine keeps_ite (keeps_rearmEach symbol p rest) ?_
    refine keeps_bind (keeps_fromExcept _) fun key => keeps_bind (r.keeps_draw fun _ _ h => h) fun id => ?_
    refine keeps_bind (keeps_fromExcept _) fun order => keeps_bind (r.keeps_send (fun _ _ _ _ _ _ h => h) _ _) fun outcome => ?_
    refine keeps_when (keeps_modify fun d h => ?_) (keeps_rearmEach symbol p rest)
    cases outcome.object <;> exact h

theorem keeps_rearm (symbol : String) (l : List Order) : Keeps (AtBook b) (r.rearm symbol l) := by
  unfold OrderRouter.rearm
  refine keeps_bind keeps_get fun d => ?_
  split
  · exact keeps_pure _
  · exact keeps_ite (keeps_pure _) (keeps_rearmEach symbol _ l)

/-- A position without the levels a placement arms. -/
def unlevelled (p : Position) : Position := { p with stopLossPrice := none, takeProfitPrice := none }

/-- **The book has the cash and the positions of the other**, whatever its levels. -/
def SameLedger (b b' : Portfolio) : Prop :=
  b'.cash = b.cash ∧ ∀ symbol, unlevelled (b'.position symbol) = unlevelled (b.position symbol)

theorem SameLedger.refl (b : Portfolio) : SameLedger b b := ⟨rfl, fun _ => rfl⟩

theorem SameLedger.trans {b' b'' : Portfolio} (h : SameLedger b b') (h' : SameLedger b' b'') : SameLedger b b'' :=
  ⟨h'.1.trans h.1, fun symbol => (h'.2 symbol).trans (h.2 symbol)⟩

theorem position_setPosition (b : Portfolio) (symbol : String) (p : Position) (other : String) :
    (b.setPosition symbol p).position other = if other = symbol then p else b.position other := by
  unfold Portfolio.setPosition Portfolio.position
  rw [Dict.get?_set, apply_ite (fun q : Option Position => q.getD _)]
  rfl

theorem SameLedger.setPosition {symbol : String} {p : Position} (h : unlevelled p = unlevelled (b.position symbol)) :
    SameLedger b (b.setPosition symbol p) := by
  refine ⟨rfl, fun other => ?_⟩
  rw [position_setPosition]
  split
  · rename_i heq
    subst heq
    exact h
  · rfl

/-- A position without its mark and its levels. -/
def bare (p : Position) : Position :=
  { p with lastPrice := none, stopLossPrice := none, takeProfitPrice := none, highWaterMark := none, brokerProtectedQty := 0 }

/-- The book has the cash and the holdings of the other, whatever its marks and levels. -/
def SameHoldings (b b' : Portfolio) : Prop := b'.cash = b.cash ∧ ∀ symbol, bare (b'.position symbol) = bare (b.position symbol)

theorem SameHoldings.refl (b : Portfolio) : SameHoldings b b := ⟨rfl, fun _ => rfl⟩

theorem SameHoldings.trans {b' b'' : Portfolio} (h : SameHoldings b b') (h' : SameHoldings b' b'') : SameHoldings b b'' :=
  ⟨h'.1.trans h.1, fun symbol => (h'.2 symbol).trans (h.2 symbol)⟩

theorem SameHoldings.qty {b' : Portfolio} (h : SameHoldings b b') (symbol : String) :
    (b'.position symbol).qty = (b.position symbol).qty := by
  have hbare := congrArg (fun p : Position => p.qty) (h.2 symbol)
  exact hbare

theorem SameHoldings.symbol {b' : Portfolio} (h : SameHoldings b b') (symbol : String) :
    (b'.position symbol).symbol = (b.position symbol).symbol := by
  have hbare := congrArg (fun p : Position => p.symbol) (h.2 symbol)
  exact hbare

theorem SameHoldings.setPosition {symbol : String} {p : Position} (h : bare p = bare (b.position symbol)) :
    SameHoldings b (b.setPosition symbol p) := by
  refine ⟨rfl, fun other => ?_⟩
  rw [position_setPosition]
  split
  · rename_i heq
    subst heq
    exact h
  · rfl

theorem SameLedger.holdings {b' : Portfolio} (h : SameLedger b b') : SameHoldings b b' :=
  ⟨h.1, fun symbol => (congrArg bare (h.2 symbol) :)⟩

theorem keeps_placeStop (entry : Order) (p : Position) (increment level coveredFrom : ℚ) :
    Keeps (fun d : Desk β σ => SameLedger b d.portfolio) (r.placeStop entry p increment level coveredFrom) := by
  refine triple_at fun d hd => ?_
  have hbook (e : Desk β σ) (he : e.portfolio = d.portfolio) : SameLedger b e.portfolio := he ▸ hd
  exact triple_conseq (StopRatchet.placeStop_keeps (b := d.portfolio) _ _ _ _ _) (fun e he => congrArg Desk.portfolio he)
    (fun _ e he => hbook e he) (fun _ e he => hbook e he)

/-- **A placement arms levels, and moves nothing else of the book.** -/
theorem keeps_ledger (entry : Order) (config : Option StopConfig) (atr : Option ℚ) :
    Keeps (fun d : Desk β σ => SameLedger b d.portfolio) (r.submitProtectiveOrders entry config atr) := by
  unfold OrderRouter.submitProtectiveOrders
  refine keeps_ite (keeps_pure _) (triple_get_bind fun d₀ h₀ => ?_)
  cases hp : d₀.portfolio.positions.get? entry.symbol with
  | none => exact triple_pure _ fun d hd => hd ▸ h₀
  | some p =>
    have hpos : d₀.portfolio.position entry.symbol = p := by simp [Portfolio.position, hp]
    have hbook (d : Desk β σ) (hd : AtBook d₀.portfolio d) : SameLedger b d.portfolio := by
      rw [AtBook] at hd
      rwa [hd]
    refine triple_ite (fun _ => triple_pure _ fun d hd => hd ▸ h₀) (fun _ => ?_)
    refine triple_bind (R := fun _ => AtBook d₀.portfolio) ?_ fun _ => ?_
    · exact triple_conseq (r.keeps_cancelStaleProtection (fun _ _ h => h) (fun _ _ h => h) _ _) (fun d hd => hd ▸ rfl)
        (fun _ _ h => h) (fun _ d hd => hbook d hd)
    refine triple_get_bind fun d₁ h₁ => triple_from (P := AtBook d₀.portfolio) ?_ h₁
    refine triple_ite (fun _ => triple_pure _ hbook) (fun _ => ?_)
    refine triple_bind (R := fun _ => AtBook d₀.portfolio) (triple_fromExcept _ (fun _ _ _ h => h) (fun _ _ => hbook)) ?_
    rintro ⟨stop, target⟩
    refine triple_bind (R := fun _ d => SameLedger b d.portfolio) (triple_modify _ fun d hd => ?_) fun _ => ?_
    · rw [AtBook] at hd
      rw [Desk.setPosition, hd]
      exact h₀.trans (.setPosition (by rw [hpos]; rfl))
    · cases stop with
      | none => exact keeps_pure _
      | some level => exact keeps_ite (keeps_pure _) (keeps_placeStop _ _ _ _ _)

/-! ## The objects of a placement -/

section route
variable {r : Router β L σ} {A : Order → Prop} (hA : r.Endures A)
include hA

theorem keeps_transition (status : OrderStatus) (ts : Option ℤ) (reason stage : Option String) :
    Keeps A (State.transition status ts reason stage) := by
  have hleft (o : Order) (ho : A o) : A (exec (State.transition status ts reason stage) o).2 := by
    rw [State.exec_transition]
    split
    · exact ho
    split
    · exact ho
    split
    · exact hA.moves _ _ _ _ _ ho
    · exact ho
  refine triple_at fun o ho => triple_conseq (triple_exec _ o) (fun _ h => h) (fun _ t ht => ?_) (fun _ t ht => ?_)
  all_goals
    have hend := hleft o ho
    rw [ht] at hend
    exact hend

theorem keeps_adopt (acknowledged : Order) : Keeps A (r.adopt acknowledged) := by
  unfold Router.adopt
  refine keeps_bind (keeps_modify fun o ho => hA.acknowledged o _ ho) fun _ => ?_
  refine keeps_bind (keeps_transition hA _ _ _ _) fun _ => ?_
  exact keeps_ite (keeps_bind (keeps_transition hA _ _ _ _) fun _ => keeps_pure _) (keeps_pure _)

omit hA in
theorem keeps_onOrder {x : Prog Order Exc α} (hx : Keeps A x) :
    Keeps (fun s : Routing β σ => A s.order) (Routing.onOrder x) :=
  triple_within fun s hs => triple_conseq hx (fun o ho => by rw [ho]; exact hs) (fun _ _ h => h) (fun _ _ h => h)

omit hA in
theorem keeps_broker (x : Prog β Exc α) : Keeps (fun s : Routing β σ => A s.order) (Routing.onBroker x) :=
  keeps_within x fun _ _ h => h

theorem keeps_resolve (decision : RiskDecision) :
    Keeps (fun s : Routing β σ => A s.order) (r.resolveIndeterminate decision) := by
  unfold Router.resolveIndeterminate Router.lookOnce Router.engage
  refine keeps_bind keeps_get fun s => keeps_bind (keeps_bind (keeps_tried (keeps_broker _)) fun x => ?_) fun found => ?_
  · cases x with
    | ok _ => exact keeps_pure _
    | error exc => exact keeps_ite (keeps_pure _) (keeps_throw _)
  · cases found with
    | some candidate => exact keeps_bind (keeps_onOrder (keeps_adopt hA _)) fun _ => keeps_bind keeps_get fun _ => keeps_pure _
    | none =>
      refine keeps_bind ?_ fun _ => keeps_throw _
      split
      · exact keeps_pure _
      · exact keeps_bind (keeps_fromExcept _) fun _ => keeps_modify fun _ h => h

theorem keeps_told (decision : RiskDecision) (answer : Except Exc Order) :
    Keeps (fun s : Routing β σ => A s.order) (r.told decision answer) := by
  unfold Router.told
  cases answer with
  | ok acknowledged => exact keeps_bind (keeps_onOrder (keeps_adopt hA _)) fun _ => keeps_bind keeps_get fun _ => keeps_pure _
  | error exc =>
    refine keeps_ite (keeps_resolve hA decision) (keeps_ite ?_ (keeps_throw _))
    exact keeps_bind (keeps_onOrder (keeps_transition hA _ _ _ _)) fun _ => keeps_bind keeps_get fun _ => keeps_pure _

theorem keeps_validated (portfolio : Portfolio) (pending : List Order) :
    Keeps (fun s : Routing β σ => A s.order) (r.validated portfolio pending) := by
  intro s hs
  obtain ⟨q, hq, hpos, hle⟩ := validate_order r.limits r.rules s.order portfolio pending s.risk
  have hvalidated : A (validate r.limits r.rules s.order portfolio pending s.risk).2.1 := by
    rw [hq]
    exact hA.sized _ q hs hpos hle
  exact hvalidated

/-- **Whatever `_route` does to an order, and wherever it raises**, what endures is left of it. -/
theorem keeps_route (portfolio : Portfolio) (pending : List Order) :
    Keeps (fun s : Routing β σ => A s.order) (r.route portfolio pending) := by
  have hmove (status : OrderStatus) (reason stage : Option String) : Keeps (fun s : Routing β σ => A s.order)
      (Routing.onOrder (State.transition status none reason stage)) := keeps_onOrder (keeps_transition hA _ _ _ _)
  unfold Router.route Router.routeDecided
  refine keeps_bind keeps_get fun s₀ => keeps_ite (keeps_throw _) ?_
  refine keeps_bind (keeps_onOrder (keeps_modify hA.ticked)) fun _ => ?_
  refine keeps_bind (keeps_validated hA portfolio pending) fun decision => ?_
  refine keeps_ite (keeps_bind (hmove _ _ _) fun _ => keeps_bind keeps_get fun _ => keeps_pure _) ?_
  refine keeps_bind keeps_get fun s => ?_
  refine keeps_ite (keeps_bind (hmove _ _ _) fun _ => keeps_bind keeps_get fun _ => keeps_pure _) ?_
  refine keeps_bind (hmove _ _ _) fun _ => keeps_bind keeps_get fun _ => ?_
  exact keeps_bind (keeps_tried (keeps_broker _)) fun answer => keeps_told hA decision answer

end route

/-- Objects are added, and each is one of these. -/
def Grown (A : Order → Prop) (d e : Desk β σ) : Prop := ∃ l, e.heap = d.heap ++ l ∧ ∀ o ∈ l, A o

theorem keeps_send {A : Order → Prop} (hA : r.Endures A) {d : Desk β σ} {order : Order} (ho : A order) (pending : List Order) :
    Keeps (Grown A d) (r.send order pending) := by
  unfold OrderRouter.send
  refine triple_get_bind fun e he => ?_
  obtain ⟨l, hl, hall⟩ := he
  refine triple_bind (R := fun _ u => u.heap = e.heap ++ [order]) (triple_modify _ fun u hu => by rw [hu]) fun _ => ?_
  refine triple_bind (R := fun _ => Grown A d) ?_ fun result => ?_
  · unfold OrderRouter.routeObject
    refine triple_get_bind fun u hu => triple_within fun v hv => ?_
    have hput (s : Routing β σ) (hs : A s.order) : Grown A d { v with
        broker := s.broker, risk := s.risk, halts := s.halts, heap := v.heap.set e.heap.length s.order } := by
      refine ⟨l ++ [s.order], ?_, fun o ho => ?_⟩
      · rw [hv, hu, hl]
        simp
      · rcases List.mem_append.1 ho with hold | hnew
        · exact hall o hold
        · rw [List.mem_singleton.1 hnew]
          exact hs
    refine triple_conseq (keeps_route hA u.portfolio pending) (fun s hs => by rw [hs]; exact ho) (fun _ s h => hput s h)
      (fun _ s h => hput s h)
  · exact keeps_ite (keeps_bind (keeps_modify fun _ h => h) fun _ => keeps_pure _) (keeps_pure _)

/-- A new stop of an entry: it has not filled. -/
structure NewStop (o : Order) : Prop where
  fills : o.fills = []
  stop : o.stopPrice.isSome = true
  child : o.parentOrderId.isSome = true

theorem newStop_endures (r : OrderRouter β L σ) : r.Endures NewStop where
  ticked o h := by
    refine ⟨h.fills, ?_, h.child⟩
    rw [Router.onTick, Option.isSome_map]
    exact h.stop
  sized _ _ h _ _ := ⟨h.fills, h.stop, h.child⟩
  moves _ _ _ _ _ h := ⟨h.fills, h.stop, h.child⟩
  acknowledged _ _ h := ⟨h.fills, h.stop, h.child⟩

theorem placeStop_grown {d : Desk β σ} (entry : Order) (p : Position) (increment level coveredFrom : ℚ) :
    Keeps (Grown NewStop d) (r.placeStop entry p increment level coveredFrom) := by
  unfold OrderRouter.placeStop
  refine keeps_bind (keeps_fromExcept _) fun key => keeps_bind (r.keeps_draw fun _ _ h => h) fun id => ?_
  refine triple_bind (R := fun child e => Grown NewStop d e ∧ NewStop child)
    (triple_fromExcept _ (fun child hchild _ h => ⟨h, ?_⟩) (fun _ _ _ h => h)) fun child => ?_
  · obtain ⟨rfl, -⟩ := Order.postInit_ok hchild
    exact ⟨rfl, rfl, rfl⟩
  refine triple_at fun e he => triple_from (P := Grown NewStop d) ?_ he.1
  refine keeps_bind (keeps_send (newStop_endures r) he.2 []) fun outcome => ?_
  split
  · refine keeps_bind (keeps_modify fun u hu => ?_) fun _ => keeps_pure _
    unfold OrderRouter.recordPlaced
    simp only
    split <;> exact hu
  · exact keeps_pure _

/-- **A placement adds new stops, and no other object.** -/
theorem keeps_grown {d : Desk β σ} (entry : Order) (config : Option StopConfig) (atr : Option ℚ) :
    Keeps (Grown NewStop d) (r.submitProtectiveOrders entry config atr) := by
  unfold OrderRouter.submitProtectiveOrders
  refine keeps_ite (keeps_pure _) (keeps_bind keeps_get fun d₀ => ?_)
  cases d₀.portfolio.positions.get? entry.symbol with
  | none => exact keeps_pure _
  | some p =>
    refine keeps_ite (keeps_pure _) ?_
    refine keeps_bind (r.keeps_cancelStaleProtection (fun _ _ h => h) (fun _ _ h => h) _ _) fun _ => ?_
    refine keeps_bind keeps_get fun d₁ => keeps_ite (keeps_pure _) (keeps_bind (keeps_fromExcept _) ?_)
    rintro ⟨stop, target⟩
    refine keeps_bind (keeps_modify fun _ h => h) fun _ => ?_
    cases stop with
    | none => exact keeps_pure _
    | some level => exact keeps_ite (keeps_pure _) (placeStop_grown _ _ _ _ _)

/-- What a placement says of its stop: the next range of the entry's fills, under that range's key. -/
def Covers (r : OrderRouter β L σ) (d : Desk β σ) (entry : Order) (result : ProtectionResult) (e : Desk β σ) : Prop :=
  (result.placed = [] ∧ e.covered = d.covered) ∨ ∃ ref child coveredTo, result.placed = [(ref, child)] ∧
    entry.parentOrderId = none ∧ 0 < child.qty ∧
    child.clientOrderId = Coverage.stopKey r entry.clientOrderId (Coverage.coveredOf d entry) coveredTo ∧
    e.covered = d.covered.set entry.id (Coverage.coveredOf d entry + child.qty)

theorem triple_covers {d : Desk β σ} (entry : Order) (config : Option StopConfig) (atr : Option ℚ) :
    Triple (fun e => e = d) (r.submitProtectiveOrders entry config atr) (fun result e => Covers r d entry result e)
      (fun _ e => e.covered = d.covered) := by
  have hnone (result : ProtectionResult) (h : result.placed = []) : Triple (fun e : Desk β σ => e.covered = d.covered)
      (pure result : Prog (Desk β σ) Exc ProtectionResult) (fun result e => Covers r d entry result e)
      (fun _ e => e.covered = d.covered) := triple_pure _ fun _ he => .inl ⟨h, he⟩
  have hstart (e : Desk β σ) (h : e = d) : e.covered = d.covered := congrArg Desk.covered h
  unfold OrderRouter.submitProtectiveOrders
  refine triple_ite (fun _ => triple_conseq (hnone _ rfl) hstart (fun _ _ h => h) (fun _ _ h => h)) (fun hparent => ?_)
  refine triple_get_bind fun d₀ h₀ => ?_
  subst h₀
  cases d₀.portfolio.positions.get? entry.symbol with
  | none => exact triple_conseq (hnone _ rfl) hstart (fun _ _ h => h) (fun _ _ h => h)
  | some p =>
    refine triple_ite (fun _ => triple_conseq (hnone _ rfl) hstart (fun _ _ h => h) (fun _ _ h => h)) (fun _ => ?_)
    refine triple_bind (R := fun _ e => e.covered = d₀.covered) (triple_conseq (r.keeps_cancelStaleProtection
      (I := fun e => e.covered = d₀.covered) (fun _ _ h => h) (fun _ _ h => h) _ _) hstart (fun _ _ h => h) (fun _ _ h => h))
      fun _ => triple_get_bind fun d₁ h₁ => triple_from (P := fun e => e.covered = d₀.covered) ?_ h₁
    refine triple_ite (fun _ => hnone _ rfl) (fun hinc => ?_)
    refine triple_bind (R := fun _ e => e.covered = d₀.covered) (triple_fromExcept _ (fun _ _ _ h => h) (fun _ _ _ h => h)) ?_
    rintro ⟨stop, target⟩
    refine triple_bind (R := fun _ e => e.covered = d₀.covered) (triple_modify _ fun _ h => h) fun _ => ?_
    cases stop with
    | none => exact hnone _ rfl
    | some level =>
      refine triple_ite (fun _ => hnone _ rfl) (fun _ => triple_at fun d₂ h₂ => ?_)
      have hfrom : (d₁.covered.get? entry.id).getD 0 = Coverage.coveredOf d₀ entry := by rw [h₁]; rfl
      refine triple_conseq (Coverage.triple_placeStop (d := d₂) (lt_of_not_ge hinc)) (fun _ h => h) (fun result e h => ?_)
        (fun _ e h => h.covered.trans h₂)
      rcases h with ⟨hplaced, -, hsame⟩ | ⟨child, hplaced, -, -, hchild, hbooked⟩
      · exact .inl ⟨hplaced, hsame.covered.trans h₂⟩
      · rw [hfrom] at hchild hbooked
        refine .inr ⟨_, child, _, hplaced, Option.not_isSome_iff_eq_none.1 hparent, hchild.pos, hchild.key, ?_⟩
        rw [hbooked.covered, h₂]

/-- What a request asks for, of an order that was built from it: a chain that only shrinks leaves no more than was asked. -/
structure Asked (r : OrderRouter β L σ) (request : OrderRequest) (o : Order) : Prop where
  symbol : o.symbol = request.symbol
  side : o.side = request.side
  purpose : o.purpose = request.purpose
  unfilled : o.filledQty = 0
  key : r.clientOrderId request.symbol request.side request.decidedAt request.strategyId request.purpose = .ok o.clientOrderId
  size : (∀ rule ∈ r.rules, rule.OnlyShrinks) → ∀ qty, request.qty = some qty → o.qty ≤ qty

theorem asked_endures (r : OrderRouter β L σ) (request : OrderRequest) : r.Endures (Asked r request) where
  ticked _ h := ⟨h.symbol, h.side, h.purpose, h.unfilled, h.key, h.size⟩
  sized _ _ h _ hle := ⟨h.symbol, h.side, h.purpose, h.unfilled, h.key,
    fun hrules qty hqty => (hle hrules).trans (h.size hrules qty hqty)⟩
  moves _ _ _ _ _ h := ⟨h.symbol, h.side, h.purpose, h.unfilled, h.key, h.size⟩
  acknowledged _ _ h := ⟨h.symbol, h.side, h.purpose, h.unfilled, h.key, h.size⟩

/-- What is submitted for a request was built from it. -/
def Answers (r : OrderRouter β L σ) (request : OrderRequest) (s : Submission) : Prop :=
  s.result.submitted = true → ∀ o, s.result.order = some o → Asked r request o

theorem answers_refused {request : OrderRequest} {s : Submission} (h : s.result.submitted = false) : Answers r request s := by
  intro hsub
  rw [h] at hsub
  cases hsub

/-- **`submit`** leaves the book alone, and what it submits was asked for. -/
theorem triple_submit (request : OrderRequest) (pending : List Order) :
    Triple (AtBook b) (r.submit request pending) (fun s d => AtBook b d ∧ Answers r request s) (fun _ => AtBook b) := by
  unfold OrderRouter.submit
  refine triple_get_bind fun d₀ h₀ => ?_
  refine triple_bind (R := fun q d => AtBook b d ∧ OrderRouter.requestedQty request d₀.portfolio = .ok q)
    (triple_fromExcept _ (fun q hq d hd => ⟨hd ▸ h₀, hq⟩) (fun _ _ d hd => hd ▸ h₀)) fun q => ?_
  cases q with
  | inr refused => exact triple_pure _ fun d hd => ⟨hd.1, answers_refused (Moves.requestedQty_refused hd.2)⟩
  | inl qty =>
    refine triple_at fun d₁ h₁ => ?_
    obtain ⟨hbook, hqty⟩ := h₁
    have hasked (q : ℚ) (h : request.qty = some q) : qty = q := by
      unfold OrderRouter.requestedQty at hqty
      rw [h] at hqty
      cases hqty
      rfl
    refine triple_bind (R := fun key d => AtBook b d ∧ r.clientOrderId request.symbol request.side request.decidedAt
      request.strategyId request.purpose = .ok key)
      (triple_fromExcept _ (fun key hk d hd => ⟨hd ▸ hbook, hk⟩) (fun _ _ d hd => hd ▸ hbook)) fun key => ?_
    refine triple_at fun d₂ h₂ => ?_
    obtain ⟨hbook₂, hkey⟩ := h₂
    refine triple_bind (R := fun _ => AtBook b) ?_ fun id => ?_
    · exact triple_conseq (r.keeps_draw (I := AtBook b) fun _ _ h => h) (fun _ h => h ▸ hbook₂) (fun _ _ h => h) (fun _ _ h => h)
    refine triple_bind (R := fun o d => AtBook b d ∧ Asked r request o) (triple_fromExcept _ (fun o ho d hd => ⟨hd, ?_⟩)
      (fun _ _ _ h => h)) fun order => ?_
    · obtain ⟨rfl, -⟩ := Order.postInit_ok ho
      exact ⟨rfl, rfl, rfl, rfl, hkey, fun _ q hq => (hasked q hq).le⟩
    have hsend : Triple (fun d => AtBook b d ∧ Asked r request order) (r.send order pending)
        (fun s d => AtBook b d ∧ Answers r request s) (fun _ => AtBook b) := by
      refine triple_at fun d hd => ?_
      obtain ⟨hbook, hord⟩ := hd
      have hsent := r.triple_send (asked_endures r request) hord pending d
      have hkeeps : Keeps (AtBook b) (r.send order pending) := r.keeps_send (fun _ _ _ _ _ _ h => h) order pending
      refine triple_conseq (triple_and hkeeps hsent) (fun e he => ⟨he ▸ hbook, he⟩) (fun s e h => ⟨h.1, ?_⟩) (fun _ e h => h.1)
      obtain ⟨-, object, -, -, hok⟩ := h
      intro hsub o ho
      obtain ⟨hobject, -, -, ha⟩ := hok hsub
      rw [hobject, Option.some.injEq] at ho
      exact ho ▸ ha
    exact triple_ite (fun _ => triple_bind (triple_modify _ fun _ h => h) fun _ => hsend) (fun _ => hsend)

/-- **`_close`** leaves the book alone, and what it submits was asked for. -/
theorem triple_close (request : OrderRequest) (pending : List Order) :
    Triple (AtBook b) (r.close request pending) (fun s d => AtBook b d ∧ Answers r request s) (fun _ => AtBook b) := by
  unfold OrderRouter.close
  refine triple_bind (triple_submit request pending) fun s => ?_
  refine triple_at fun d hd => ?_
  obtain ⟨hbook, hs⟩ := hd
  refine triple_from (P := AtBook b) ?_ hbook
  have hdone : Triple (AtBook b) (pure s : Prog (Desk β σ) Exc Submission) (fun s d => AtBook b d ∧ Answers r request s)
      (fun _ => AtBook b) := triple_pure _ fun _ h => ⟨h, hs⟩
  refine triple_ite (fun _ => ?_) (fun _ => triple_ite (fun _ => hdone) (fun _ => ?_))
  · exact triple_bind (R := fun _ => AtBook b) (keeps_cancelProtection (fun _ _ h => h) (fun _ _ h => h) _) fun _ => hdone
  · refine triple_bind (R := fun _ => AtBook b) (keeps_releaseProtection _ _) fun released => ?_
    refine triple_ite (fun _ => hdone) (fun _ => ?_)
    refine triple_bind (R := fun _ => AtBook b) (r.keeps_awaitCancelled (fun _ _ h => h) _) fun filled => ?_
    refine triple_ite (fun _ => hdone) (fun _ => triple_bind (triple_submit request pending) fun retried => ?_)
    refine triple_at fun e he => triple_from (P := AtBook b) ?_ he.1
    have hretried : Triple (AtBook b) (pure retried : Prog (Desk β σ) Exc Submission)
        (fun s d => AtBook b d ∧ Answers r request s) (fun _ => AtBook b) := triple_pure _ fun _ h => ⟨h, he.2⟩
    exact triple_ite (fun _ => triple_bind (R := fun _ => AtBook b) (keeps_rearm _ _) fun _ => hretried) (fun _ => hretried)

/-- **`submit_signal`** leaves the book alone, and what it submits is what the signal asks for. -/
theorem triple_submitSignal (signal : Signal) (config : PositionSizeSpec) (pending : List Order) :
    Triple (AtBook b) (r.submitSignal signal config pending)
      (fun s d => AtBook b d ∧ (s.result.submitted = true →
        ∃ asked, Moves.signalRequest signal b config = some asked ∧ Answers r asked.1 s)) (fun _ => AtBook b) := by
  unfold OrderRouter.submitSignal
  refine triple_get_bind fun d₀ h₀ => triple_from (P := AtBook b) ?_ h₀
  have hbook : d₀.portfolio = b := h₀
  rw [hbook]
  unfold Moves.signalRequest
  cases hi : OrderRouter.intent signal b config with
  | inr answer =>
    refine triple_pure _ fun d hd => ⟨hd, fun hsub => ?_⟩
    rw [Moves.intent_answer hi] at hsub
    cases hsub
  | inl asked =>
    obtain ⟨side, qty, purpose, closing⟩ := asked
    refine triple_ite (fun _ => triple_pure _ fun d hd => ⟨hd, fun hsub => by cases hsub⟩) (fun hqty => ?_)
    have hanswers (s : Submission) (h : Answers r (OrderRouter.requestOf signal side qty purpose closing) s) :
        ∃ asked, (if qty ≤ 0 then none else some (OrderRouter.requestOf signal side qty purpose closing, closing)) = some asked ∧
          Answers r asked.1 s := ⟨_, if_neg hqty, h⟩
    exact triple_ite
      (fun _ => triple_conseq (triple_close _ pending) (fun _ h => h) (fun s _ h => ⟨h.1, fun _ => hanswers s h.2⟩) (fun _ _ h => h))
      (fun _ => triple_conseq (triple_submit _ pending) (fun _ h => h) (fun s _ h => ⟨h.1, fun _ => hanswers s h.2⟩) (fun _ _ h => h))

/-- **`flatten`** leaves the book alone, and what it submits is the close of what is held. -/
theorem triple_flatten (symbol : String) (purpose : Purpose) :
    Triple (AtBook b) (r.flatten symbol purpose)
      (fun s d => AtBook b d ∧ (s.result.submitted = true →
        ∃ request, Moves.flattenClose symbol purpose r.now b = some request ∧ Answers r request s)) (fun _ => AtBook b) := by
  unfold OrderRouter.flatten
  refine triple_get_bind fun d₀ h₀ => triple_from (P := AtBook b) ?_ h₀
  have hbook : d₀.portfolio = b := h₀
  rw [hbook]
  unfold Moves.flattenClose
  cases b.positions.get? symbol with
  | none => exact triple_pure _ fun d hd => ⟨hd, fun hsub => by cases hsub⟩
  | some p =>
    refine triple_ite (fun _ => triple_pure _ fun d hd => ⟨hd, fun hsub => by cases hsub⟩) (fun hopen => ?_)
    exact triple_conseq (triple_close _ []) (fun _ h => h) (fun s d h => ⟨h.1, fun _ => ⟨_, if_neg hopen, h.2⟩⟩) (fun _ _ h => h)

end desk

/-! ## The runner's own statements -/

/-- **Said of the objects, the book, what is covered of an entry and the working set only.** -/
def OfBooks (I : RunnerState β σ ω → Prop) : Prop := ∀ s t, t.desk.heap = s.desk.heap → t.desk.portfolio = s.desk.portfolio →
  t.desk.covered = s.desk.covered → t.openOrders = s.openOrders → I s → I t

theorem OfBooks.core {I : RunnerState β σ ω → Prop} (hI : OfBooks I) : OfCore I := by
  intro s t hdesk hopen
  exact hI s t (by rw [hdesk]) (by rw [hdesk]) (by rw [hdesk]) hopen

/-! ## A fill event -/

section event
open TradeUpdates

/-- What no update changes of an order, and that a completed one stays completed. -/
structure Updated (before o : Order) : Prop where
  key : o.clientOrderId = before.clientOrderId
  symbol : o.symbol = before.symbol
  side : o.side = before.side
  qty : o.qty = before.qty
  purpose : o.purpose = before.purpose
  stopPrice : o.stopPrice = before.stopPrice
  ids : o.id = before.id ∧ o.parentOrderId = before.parentOrderId
  complete : before.isComplete = true → o.isComplete = true

theorem Updated.refl (o : Order) : Updated o o := ⟨rfl, rfl, rfl, rfl, rfl, rfl, ⟨rfl, rfl⟩, fun h => h⟩

theorem Updated.trans {a b c : Order} (h : Updated a b) (h' : Updated b c) : Updated a c :=
  ⟨h'.key.trans h.key, h'.symbol.trans h.symbol, h'.side.trans h.side, h'.qty.trans h.qty, h'.purpose.trans h.purpose,
    h'.stopPrice.trans h.stopPrice, ⟨h'.ids.1.trans h.ids.1, h'.ids.2.trans h.ids.2⟩, fun hc => h'.complete (h.complete hc)⟩

theorem updated_adopted (o : Order) (u : TradeUpdate) : Updated o (adopted o u) := by
  unfold adopted
  split
  · exact ⟨rfl, rfl, rfl, rfl, rfl, rfl, ⟨rfl, rfl⟩, fun h => h⟩
  · exact .refl o

theorem preAck_open {status : OrderStatus} (h : preAck status = true) : status.isTerminal = false := by
  cases status <;> first | rfl | cases h

theorem updated_walked (o : Order) (ts : ℤ) : Updated o (walked o ts) := by
  unfold walked
  split
  · rename_i hpre
    refine ⟨rfl, rfl, rfl, rfl, rfl, rfl, ⟨rfl, rfl⟩, fun h => ?_⟩
    unfold Order.isComplete at h
    rw [preAck_open hpre] at h
    cases h
  · exact .refl o

theorem updated_accumulate {o : Order} (h : o.isComplete = false) (f : Fill) : Updated o (o.accumulate f) := by
  have hnot : o.isComplete = true → (o.accumulate f).isComplete = true := by
    intro hc
    rw [h] at hc
    cases hc
  unfold Order.accumulate at hnot ⊢
  dsimp only at hnot ⊢
  split at hnot
  · rename_i hfull
    rw [if_pos hfull]
    exact ⟨rfl, rfl, rfl, rfl, rfl, rfl, ⟨rfl, rfl⟩, hnot⟩
  · rename_i hfull
    rw [if_neg hfull]
    exact ⟨rfl, rfl, rfl, rfl, rfl, rfl, ⟨rfl, rfl⟩, hnot⟩

/-- A fill that an update brings and an order takes. -/
structure Takes (u : TradeUpdate) (before : Order) (fill : Fill) : Prop where
  named : u.clientOrderId = before.clientOrderId
  brought : u.fill = some fill
  unseen : alreadySeen before fill = false
  working : before.isComplete = false
  pos : 0 < fill.qty
  room : fill.qty ≤ before.remainingQty

/-- **What an update makes of an order**: it takes the fill, or keeps the fills it has. -/
theorem outcome_fills {before o : Order} {u : TradeUpdate} {x : Except Exc Bool} (h : Outcome before u x o) :
    Updated before o ∧ ((o.fills = before.fills ∧ o.filledQty = before.filledQty) ∨
      ∃ fill, x = .ok true ∧ Takes u before fill ∧ o.fills = before.fills ++ [fill] ∧
        o.filledQty = before.filledQty + fill.qty) := by
  have hadopted := updated_adopted before u
  have hwalked := hadopted.trans (updated_walked (adopted before u) u.at)
  cases h with
  | wrongOrder => exact ⟨.refl _, .inl ⟨rfl, rfl⟩⟩
  | duplicate => exact ⟨hadopted, .inl ⟨by simp, by simp⟩⟩
  | refused => exact ⟨hwalked, .inl ⟨by simp, by simp⟩⟩
  | booked hid f hf hseen hopen hpos hle =>
    have hcan := canFill_walked (adopted before u) u.at
    have hlive : (walked (adopted before u) u.at).isComplete = false := by
      rw [adopted_status, hopen] at hcan
      unfold Order.isComplete
      generalize (walked (adopted before u) u.at).status = status at hcan
      cases status <;> first | rfl | cases hcan
    exact ⟨hwalked.trans (updated_accumulate hlive f), .inr ⟨f, rfl, ⟨hid, hf, hseen, hopen, hpos, hle⟩, by simp, by simp⟩⟩
  | noStatus => exact ⟨hadopted, .inl ⟨by simp, by simp⟩⟩
  | ignored => exact ⟨hadopted, .inl ⟨by simp, by simp⟩⟩
  | illegal => exact ⟨hadopted, .inl ⟨by simp, by simp⟩⟩
  | moved hid hf status hs hne hopen hcan =>
    refine ⟨hadopted.trans ⟨rfl, rfl, rfl, rfl, rfl, rfl, ⟨rfl, rfl⟩, fun hc => ?_⟩, .inl ⟨by simp, by simp⟩⟩
    unfold Order.isComplete at hc
    rw [adopted_status, hopen] at hc
    cases hc

/-- An update that does not raise names its order. -/
theorem outcome_named {before o : Order} {u : TradeUpdate} {x : Except Exc Bool} (h : Outcome before u x o) (changed : Bool)
    (hx : x = .ok changed) : u.clientOrderId = before.clientOrderId := by
  cases h <;> first | assumption | cases hx

/-- One object replaced. -/
def put (s : RunnerState β σ ω) (ref : Ref) (o : Order) : RunnerState β σ ω :=
  { s with desk := { s.desk with heap := s.desk.heap.set ref o } }

/-- **What an event does before anything after it can raise**: nothing, an update of its order, or a fill of it that is in
the book as well. -/
inductive Taken (s : RunnerState β σ ω) (u : TradeUpdate) : RunnerState β σ ω → Prop
  | dropped : s.tracked u.clientOrderId = none → Taken s u s
  | updated {ref : Ref} {before o : Order} : s.tracked u.clientOrderId = some (ref, before) → Updated before o →
      o.fills = before.fills → o.filledQty = before.filledQty → Taken s u (put s ref o)
  | filled {ref : Ref} {before o : Order} {fill : Fill} {book : Portfolio} :
      s.tracked u.clientOrderId = some (ref, before) → Takes u before fill → Updated before o →
      o.fills = before.fills ++ [fill] → o.filledQty = before.filledQty + fill.qty →
      s.desk.portfolio.applyToPortfolio o fill = .ok book →
      Taken s u { put s ref o with desk := { (put s ref o).desk with portfolio := book } }

variable {w : StrategyRunner β L σ ω} {I : RunnerState β σ ω → Prop} {atr : String → Option ℚ} {u : TradeUpdate}
  {s : RunnerState β σ ω}

theorem keeps_retire (hI : OfBooks I) (hout : ∀ t key, I t → I { t with openOrders := t.openOrders.erase key }) (order : Order) :
    Keeps I (w.retire order) := by
  unfold StrategyRunner.retire
  refine keeps_ite (keeps_bind (keeps_onStore hI.core _) fun _ => keeps_modify fun t h => ?_) (keeps_pure _)
  exact hI { t with openOrders := t.openOrders.erase order.clientOrderId } _ rfl rfl rfl rfl (hout t _ h)

theorem keeps_sweep (hI : OfBooks I) (symbol : String) : Keeps I (onDesk (w.router.cancelProtection symbol)) := by
  apply triple_within
  intro t ht
  have hkeeps : Keeps (fun d : Desk β σ => I { t with desk := d }) (w.router.cancelProtection symbol) :=
    keeps_cancelProtection (fun d b h => hI { t with desk := d } { t with desk := { d with broker := b } } rfl rfl rfl rfl h)
      (fun d c h => hI { t with desk := d } { t with desk := { d with protective := c } } rfl rfl rfl rfl h) symbol
  exact triple_conseq hkeeps (fun d hd => by rw [hd]; exact ht) (fun _ _ h => h) (fun _ _ h => h)

/-- The order of an event, under the key the event names. -/
def At (u : TradeUpdate) (ref : Ref) (o : Order) (t : RunnerState β σ ω) : Prop :=
  t.desk.heap[ref]? = some o ∧ t.openOrders.get? u.clientOrderId = some ref ∧ u.clientOrderId = o.clientOrderId

theorem at_ofBooks (hI : OfBooks I) (ref : Ref) (o : Order) : OfBooks fun t => I t ∧ At u ref o t := by
  intro t t' hheap hbook hcovered hopen h
  refine ⟨hI t t' hheap hbook hcovered hopen h.1, ?_⟩
  unfold At
  rw [hheap, hopen]
  exact h.2

/-- **`on_fill_event`**: what holds of every state its order and its book can be left in holds at the end, raised or not,
if the placement of a stop for the order and the retirement of an order leave it. -/
theorem triple_onFillEvent (hI : OfBooks I)
    (hprotect : ∀ ref order, Triple (fun t => I t ∧ At u ref order t) (w.protect atr ref order false) (fun _ => I) (fun _ => I))
    (hout : ∀ t key, I t → I { t with openOrders := t.openOrders.erase key }) (h : ∀ m, Taken s u m → I m) :
    Triple (fun t => t = s) (w.onFillEvent atr u) (fun _ => I) (fun _ => I) := by
  unfold StrategyRunner.onFillEvent
  refine triple_get_bind fun t ht => ?_
  subst ht
  cases hfound : t.tracked u.clientOrderId with
  | none => exact triple_pure _ fun _ ht => ht ▸ h t (.dropped hfound)
  | some found =>
    obtain ⟨ref, before⟩ := found
    obtain ⟨href, hbefore⟩ := Moves.tracked_some hfound
    obtain ⟨hlt, -⟩ := List.getElem?_eq_some_iff.1 hbefore
    obtain ⟨hupdated, hfills⟩ := outcome_fills (applyTradeUpdate_outcome before u)
    have hnamed := outcome_named (applyTradeUpdate_outcome before u)
    show Triple (fun s => s = t) (w.onTracked atr u ref before) _ _
    unfold StrategyRunner.onTracked
    generalize hexec : exec (applyTradeUpdate u) before = answer at hupdated hfills hnamed
    obtain ⟨x, o⟩ := answer
    dsimp only at hupdated hfills hnamed
    have hstate : exec (onObject ref before (applyTradeUpdate u)) t = (x, put t ref o) := by
      rw [onObject, exec_within, hbefore, Option.getD_some, hexec]
      rfl
    refine triple_bind (R := fun changed m => x = .ok changed ∧ m = put t ref o) ?_ fun changed => ?_
    · refine triple_conseq (triple_exec _ t) (fun _ h => h) (fun changed m hm => ?_) (fun e m hm => ?_)
      · rw [hstate] at hm
        exact ⟨congrArg Prod.fst hm, (congrArg Prod.snd hm).symm⟩
      · rw [hstate] at hm
        obtain ⟨hfst, hsnd⟩ := Prod.mk.inj hm
        rcases hfills with ⟨hsame, hqty⟩ | ⟨fill, hok, -⟩
        · exact hsnd ▸ h _ (.updated hfound hupdated hsame hqty)
        · rw [hfst] at hok
          cases hok
    refine triple_at fun m hm => ?_
    obtain ⟨rfl, rfl⟩ := hm
    have hret : Keeps I (w.retire o) := keeps_retire hI hout o
    have hput : (put t ref o).desk.heap[ref]? = some o := List.getElem?_set_self hlt
    have hhere : At u ref o (put t ref o) := ⟨hput, href, (hnamed changed rfl).trans hupdated.key.symm⟩
    rcases hfills with ⟨hsame, hqty⟩ | ⟨fill, hok, htakes, hlast, hqty⟩
    · -- no fill is recorded: the order is protected if it has just completed, and retired
      have hkept : I (put t ref o) := h _ (.updated hfound hupdated hsame hqty)
      refine triple_ite (fun _ => triple_get_bind fun m hm => ?_) (fun _ => triple_pure _ fun _ hm => hm ▸ hkept)
      subst hm
      refine triple_from (P := fun m => I m ∧ At u ref o m) ?_ ⟨hkept, hhere⟩
      rw [hput, Option.getD_some]
      dsimp only
      rw [hqty, decide_eq_false (lt_irrefl _)]
      have hrest := triple_ite (c := (o.isComplete && !before.isComplete && decide (0 < before.filledQty)) = true)
        (fun _ => triple_bind (hprotect ref o) fun _ => hret)
        (fun _ => triple_conseq hret (fun _ h => h.1) (fun _ _ h => h) (fun _ _ h => h))
      rcases o.fills.getLast? with _ | _ <;> exact hrest
    · -- the fill is recorded, and goes into the book before anything can raise
      obtain rfl : changed = true := Except.ok.inj hok
      refine triple_ite (fun _ => triple_get_bind fun m hm => ?_) (fun hnot => absurd rfl hnot)
      subst hm
      have hgrew : before.filledQty < o.filledQty := by
        rw [hqty]
        exact lt_add_of_pos_right _ htakes.pos
      have hnewest : o.fills.getLast? = some fill := by rw [hlast, List.getLast?_concat]
      rw [hput, Option.getD_some]
      dsimp only
      rw [hnewest, decide_eq_true hgrew]
      obtain ⟨book, hbook⟩ := Portfolio.applyToPortfolio_isOk t.desk.portfolio o fill htakes.pos
      have hkept := h _ (.filled hfound htakes hupdated hlast hqty hbook)
      refine triple_bind (R := fun _ => I) ?_ fun _ => keeps_bind hret fun _ => keeps_checkpoint w hI.core
      unfold StrategyRunner.booked
      refine triple_get_bind fun m hm => ?_
      subst hm
      have hfold : (put t ref o).desk.portfolio.applyToPortfolio o fill = .ok book := hbook
      rw [hfold]
      have hJ := at_ofBooks (u := u) hI ref o
      refine triple_bind (R := fun b m => b = book ∧ m = put t ref o) (fun m hm => ⟨rfl, hm⟩) fun b => ?_
      refine triple_bind (R := fun _ m => I m ∧ At u ref o m)
        (triple_modify _ fun m hm => by rw [hm.1, hm.2]; exact ⟨hkept, hhere⟩) fun _ => ?_
      have hgap : Keeps (fun m : RunnerState β σ ω => I m ∧ At u ref o m)
          (modify (fun s => s.dropGap o.symbol) : Prog (RunnerState β σ ω) Exc Unit) :=
        keeps_modify fun s h => hJ s _ rfl rfl rfl rfl h
      have hsweep := keeps_sweep (w := w) hJ o.symbol
      refine triple_ite (fun _ => ?_) (fun _ => hprotect ref o)
      refine triple_bind (triple_conseq hgap (fun _ h => h) (fun _ _ h => h) (fun _ _ h => h.1)) fun _ => ?_
      exact triple_bind (triple_conseq hsweep (fun _ h => h) (fun _ _ h => h) (fun _ _ h => h.1)) fun _ => hprotect ref o

end event
end RunnerFrames
end Atp
