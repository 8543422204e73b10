import AlgoTrading.Convergence
import AlgoTrading.FillLedger
/-!
# CatchUp — booking what the venue did to the working set while nobody was listening

`read_missed_updates` of `execution/recovery.py` and `catch_up_on_orders` of `atp_worker/runner.py`.  The venue is read
for the whole working set before anything is applied, and every update goes through `on_fill_event`: a refusal is left for
the reconciler, anything else parks the runner.  One call changes the object of its own order and adds new stops
(`delivered_places`), so each order is caught up as if it were alone.
-/
namespace Atp
namespace CatchUp

open Raising Runs RunnerState TradeUpdates RunnerFrames Recovery FillLedger
open RunnerActs (atInstant)
open Coverage (stopKey coveredOf)

variable {β L σ ω : Type}

/-! ## Reading the venue -/

/-- What `get_order` answers the reads of a pass with, each by its turn and the id it asks for. -/
abbrev OrderReads := ℕ → String → Except Exc (Option Order)

/-- One order of `read_missed_updates`.  An order without a venue id is not asked about; a `BrokerError`, an order the
venue does not have and an order that is not ours are let go. -/
def readOne (getOrder : String → Except Exc (Option Order)) (now : ℤ) (name : String) (order : Order) :
    Except Exc (List TradeUpdate) :=
  match order.brokerOrderId with
  | none => .ok []
  | some id =>
    match getOrder id with
    | .error exc => if exc.cls.isA .brokerError then .ok [] else .error exc
    | .ok none => .ok []
    | .ok (some theirs) =>
      if theirs.clientOrderId ≠ order.clientOrderId then .ok [] else .ok (missedUpdates order theirs now (some name))

/-- **`read_missed_updates`**. -/
def readMissedUpdates (reads : OrderReads) (now : ℤ) (name : String) : ℕ → List Order → Except Exc (List TradeUpdate)
  | _, [] => .ok []
  | n, order :: rest => do
    let updates ← readOne (reads n) now name order
    let others ← readMissedUpdates reads now name (n + 1) rest
    return updates ++ others

/-! ## Booking -/

/-- `_BOOKING_REFUSED`. -/
def bookingRefused (exc : Exc) : Bool :=
  exc.cls.isA .reconciliationError || exc.cls.isA .invalidStateTransitionError

/-- `type(exc).__name__`. -/
def typeName : ErrorClass → String
  | .exception => "Exception"
  | .valueError => "ValueError"
  | .atpError => "ATPError"
  | .backtestError => "BacktestError"
  | .lookaheadError => "LookaheadError"
  | .brokerError => "BrokerError"
  | .brokerConnectionError => "BrokerConnectionError"
  | .orderRejectedError => "OrderRejectedError"
  | .insufficientFundsError => "InsufficientFundsError"
  | .inventoryHeldError => "InventoryHeldError"
  | .executionError => "ExecutionError"
  | .warmupBlockedError => "WarmupBlockedError"
  | .reconciliationDivergedError => "ReconciliationDivergedError"
  | .invalidStateTransitionError => "InvalidStateTransitionError"
  | .reconciliationError => "ReconciliationError"
  | .dataError => "DataError"
  | .dataGapError => "DataGapError"
  | .strategyError => "StrategyError"
  | .invalidRuleError => "InvalidRuleError"
  | .configError => "ConfigError"
  | .invalidOperation => "InvalidOperation"

/-- The refusal to start a runner that booked an update and could not complete it. -/
def parked (update : TradeUpdate) (exc : Exc) : Exc :=
  ⟨.warmupBlockedError, [.lit "refusing to start: booked the venue's fill for ", .lit update.clientOrderId, .lit " (",
    .lit update.symbol, .lit ") and then could not complete it — ", .lit (typeName exc.cls), .lit ": "] ++ exc.message ++
    [.lit ". The position is held and may be unprotected; see docs/RUNBOOK.md 'A runner that will not start'."]⟩

/-- One pass of the loop of `catch_up_on_orders`: how many updates it applied. -/
def bookOne (w : StrategyRunner β L σ ω) (c : Call) : Prog (RunnerState β σ ω) Exc ℕ := do
  match ← tried ((atInstant w c.now).onFillEvent c.atr c.update) with
  | .ok _ => return 1
  | .error exc => if bookingRefused exc then return 0 else throw (parked c.update exc)

def bookAll (w : StrategyRunner β L σ ω) : List Call → Prog (RunnerState β σ ω) Exc ℕ
  | [] => return 0
  | c :: rest => do
    let applied ← bookOne w c
    let others ← bookAll w rest
    return applied + others

/-- The calls of a pass: the update after the `n`-th is handed over at the instant the clock shows then. -/
def callsOf (clock : ℕ → ℤ) (atr : String → Option ℚ) : ℕ → List TradeUpdate → List Call
  | _, [] => []
  | n, u :: us => ⟨clock n, atr, u⟩ :: callsOf clock atr (n + 1) us

/-- **`catch_up_on_orders`**. -/
def catchUpOnOrders (w : StrategyRunner β L σ ω) (reads : OrderReads) (now : ℤ) (name : String) (atr : String → Option ℚ)
    (clock : ℕ → ℤ) : Prog (RunnerState β σ ω) Exc ℕ := do
  let s ← get
  if s.openOrders.entries.isEmpty then return 0
  let updates ← fromExcept (readMissedUpdates reads now name 0 s.openOrderList)
  bookAll w (callsOf clock atr 0 updates)

/-! ## One call -/

section call
variable {w : StrategyRunner β L σ ω} {s t : RunnerState β σ ω} {u : TradeUpdate} {ref : Ref} {before o : Order}

/-- **What is left when an order's object has become `o`**: the other objects, stops added to them, and what was tracked,
but for the order itself when it is complete. -/
structure Replaced (r : OrderRouter β L σ) (s : RunnerState β σ ω) (ref : Ref) (o : Order) (t : RunnerState β σ ω) : Prop where
  heap : ∃ l, t.desk.heap = s.desk.heap.set ref o ++ l ∧ ∀ x ∈ l, NewStop x
  tracked : ∀ key k, s.openOrders.get? key = some k → (o.isComplete = true → key ≠ o.clientOrderId) →
    t.openOrders.get? key = some k
  accounted : Accounted r t

variable {r : OrderRouter β L σ}

theorem replaced_ofBooks (s : RunnerState β σ ω) (ref : Ref) (o : Order) : OfBooks (Replaced r s ref o) := by
  intro t t' hheap hbook hcovered hopen h
  have hkeys := h.accounted.keeps (t := t') (fun _ _ hk => hopen ▸ hk) hcovered fun k x hx => ⟨x, hheap ▸ hx, rfl, rfl, rfl⟩
  exact ⟨hheap ▸ h.heap, fun key k hk hnot => hopen ▸ h.tracked key k hk hnot, hkeys.accounted⟩

/-- The stop that is placed for a tracked entry takes no tracked key. -/
theorem triple_stop (hdigest : Function.Injective w.router.digest) (config : Option StopConfig) (atr : Option ℚ) :
    Triple (fun t => Replaced w.router s ref o t ∧ At u ref o t) (onDesk (w.router.submitProtectiveOrders o config atr))
      (fun result t => Replaced w.router s ref o (result.placed.foldl (fun t c => t.track c.1 c.2) t))
      (fun _ => Replaced w.router s ref o) := by
  refine triple_at fun t ht => ?_
  obtain ⟨hreplaced, hat⟩ := ht
  have hadded {t' : RunnerState β σ ω} (htail : Tail w.router t t')
      (hopen : ∀ key k, t.openOrders.get? key = some k → t'.openOrders.get? key = some k) : Replaced w.router s ref o t' := by
    obtain ⟨l, hl, hall⟩ := hreplaced.heap
    obtain ⟨l', hl', hall'⟩ := htail.grown
    refine ⟨⟨l ++ l', by rw [hl', hl, List.append_assoc], fun x hx => (List.mem_append.1 hx).elim (hall x) (hall' x)⟩,
      fun key k hk hnot => hopen key k (hreplaced.tracked key k hk hnot), (htail.keys hdigest hreplaced.accounted).accounted⟩
  have hopens : Triple (fun t' => t' = t) (onDesk (w.router.submitProtectiveOrders o config atr))
      (fun result t' => ∀ key k, t.openOrders.get? key = some k →
        (result.placed.foldl (fun t c => t.track c.1 c.2) t').openOrders.get? key = some k)
      (fun _ t' => t'.openOrders = t.openOrders) := by
    refine triple_within fun t₀ h₀ => ?_
    subst h₀
    refine triple_conseq (triple_and (Moves.triple_submitProtectiveOrders (fun _ => True) trivial o config atr) (triple_covers o config atr))
      (fun e he => ⟨he, he⟩) (fun result e h => ?_) (fun _ _ _ => rfl)
    obtain ⟨hplaced, hcovers⟩ := h
    rcases hcovers with ⟨hnone, -⟩ | ⟨place, child, coveredTo, hone, hparent, -, hkey, -⟩
    · rw [hnone]
      exact fun _ _ h => h
    rcases hplaced with ⟨hnone, -⟩ | ⟨d, x, -, hput, hwhere⟩
    · rw [hnone] at hone
      cases hone
    rw [hput, List.cons.injEq, Prod.mk.injEq] at hone
    obtain ⟨⟨rfl, rfl⟩, -⟩ := hone
    have hworking : x.isComplete = false := by rw [Order.isComplete, hwhere.status]; rfl
    intro key k hk
    have hfree : key ≠ x.clientOrderId := by
      rw [hkey]
      exact (hreplaced.accounted.reserved key k hk _ ref o (hat.2.2 ▸ hat.2.1) hat.1 hparent _ _ le_rfl).symm
    rw [hput, List.foldl_cons, List.foldl_nil]
    unfold RunnerState.track
    rw [hworking]
    exact (Dict.get?_set_ne _ _ hfree).trans hk
  exact triple_conseq (triple_and (triple_placed (s := t) ref o config atr) hopens) (fun t' h => ⟨⟨h ▸ .refl _ _, h ▸ hat⟩, h⟩)
    (fun _ _ h => hadded h.1 h.2) (fun _ _ h => hadded h.1 fun key k hk => h.2 ▸ hk)

/-- A completed order leaves the working set. -/
theorem keeps_retired : Keeps (Replaced w.router s ref o) (w.retire o) := by
  have hI := replaced_ofBooks (r := w.router) s ref o
  unfold StrategyRunner.retire
  refine triple_ite (fun hcomplete => ?_) (fun _ => keeps_pure _)
  refine keeps_bind (Moves.keeps_onStore hI.core _) fun _ => keeps_modify fun t h => ?_
  have hfewer (key : String) (k : Ref) (hk : (t.openOrders.erase o.clientOrderId).get? key = some k) :
      t.openOrders.get? key = some k := by
    rw [Dict.get?_erase] at hk
    split at hk
    · cases hk
    · exact hk
  have hkeys := h.accounted.keeps (t := { t with openOrders := t.openOrders.erase o.clientOrderId }) hfewer rfl
    fun _ x hx => ⟨x, hx, rfl, rfl, rfl⟩
  refine hI { t with openOrders := t.openOrders.erase o.clientOrderId } _ rfl rfl rfl rfl
    ⟨h.heap, fun key k hk hnot => ?_, hkeys.accounted⟩
  show (t.openOrders.erase o.clientOrderId).get? key = some k
  rw [Dict.get?_erase, if_neg (hnot hcomplete)]
  exact h.tracked key k hk hnot

/-- **`on_fill_event` for a tracked order**, whether it returns or raises: the object becomes what the update makes of it. -/
theorem triple_replaced (hdigest : Function.Injective w.router.digest) (hs : Accounted w.router s) (atr : String → Option ℚ)
    (hfound : s.tracked u.clientOrderId = some (ref, before)) :
    Triple (fun t => t = s) (w.onFillEvent atr u)
      (fun _ => Replaced w.router s ref (exec (applyTradeUpdate u) before).2)
      (fun _ => Replaced w.router s ref (exec (applyTradeUpdate u) before).2) := by
  obtain ⟨href, hbefore⟩ := Moves.tracked_some hfound
  obtain ⟨hlt, -⟩ := List.getElem?_eq_some_iff.1 hbefore
  have hnamed : before.clientOrderId = u.clientOrderId := by
    obtain ⟨x, hx, hkey⟩ := hs.keyed _ _ href
    rwa [Option.some.inj (hbefore.symm.trans hx)]
  obtain ⟨hupdated, -⟩ := outcome_fills (applyTradeUpdate_outcome before u)
  generalize hexec : exec (applyTradeUpdate u) before = answer at hupdated ⊢
  obtain ⟨x, o⟩ := answer
  dsimp only at hupdated ⊢
  have hI := replaced_ofBooks (r := w.router) s ref o
  have hput : (put s ref o).desk.heap[ref]? = some o := List.getElem?_set_self hlt
  have hhere : At u ref o (put s ref o) := ⟨hput, href, (hupdated.key.trans hnamed).symm⟩
  have hrep : Replaced w.router s ref o (put s ref o) := by
    refine ⟨⟨[], (List.append_nil _).symm, by simp⟩, fun _ _ hk _ => hk, ?_⟩
    refine (hs.keeps (t := put s ref o) (fun _ _ hk => hk) rfl fun k y hy => ?_).accounted
    by_cases heq : ref = k
    · subst heq
      obtain rfl : before = y := Option.some.inj (hbefore.symm.trans hy)
      exact ⟨o, hput, hupdated.key, hupdated.ids.1, hupdated.ids.2⟩
    · exact ⟨y, (List.getElem?_set_ne heq).trans hy, rfl, rfl, rfl⟩
  have hprotect : Triple (fun t => Replaced w.router s ref o t ∧ At u ref o t) (w.protect atr ref o false)
      (fun _ => Replaced w.router s ref o) (fun _ => Replaced w.router s ref o) :=
    Moves.triple_protect w hI.core (fun t h => h.1) fun t ht _ _ =>
      triple_from (triple_stop hdigest (some w.stopConfig) (atr o.symbol)) ht
  have hretire : Keeps (Replaced w.router s ref o) (w.retire o) := keeps_retired
  unfold StrategyRunner.onFillEvent
  refine triple_get_bind fun t ht => ?_
  subst ht
  rw [hfound]
  show Triple (fun s => s = t) (w.onTracked atr u ref before) _ _
  unfold StrategyRunner.onTracked
  have hstate : exec (onObject ref before (applyTradeUpdate u)) t = (x, put t ref o) := by
    rw [onObject, exec_within, hbefore, Option.getD_some, hexec]
    rfl
  refine triple_bind (R := fun _ m => m = put t ref o) ?_ fun changed => ?_
  · have hleft {y : Except Exc Bool} {m : RunnerState β σ ω}
        (hm : exec (onObject ref before (applyTradeUpdate u)) t = (y, m)) : m = put t ref o :=
      (congrArg Prod.snd (hstate.symm.trans hm)).symm
    refine triple_conseq (triple_exec _ t) (fun _ h => h) (fun _ m hm => hleft hm) (fun _ m hm => ?_)
    rw [hleft hm]
    exact hrep
  refine triple_ite (fun _ => triple_get_bind fun m hm => ?_) (fun _ => triple_pure _ fun _ hm => hm ▸ hrep)
  subst hm
  refine triple_from (P := fun m => Replaced w.router t ref o m ∧ At u ref o m) ?_ ⟨hrep, hhere⟩
  rw [hput, Option.getD_some]
  dsimp only
  have hnone := triple_ite (c := (o.isComplete && !before.isComplete && decide (0 < o.filledQty)) = true)
    (fun _ => triple_bind hprotect fun _ => hretire)
    (fun _ => triple_conseq hretire (fun _ h => h.1) (fun _ _ h => h) (fun _ _ h => h))
  have hbooked (fill : Fill) : Triple (fun m => Replaced w.router t ref o m ∧ At u ref o m) (w.booked atr ref o fill)
      (fun _ => Replaced w.router t ref o) (fun _ => Replaced w.router t ref o) := by
    have hJ := at_ofBooks (u := u) hI ref o
    unfold StrategyRunner.booked
    refine triple_get_bind fun m hm => triple_from (P := fun m => Replaced w.router t ref o m ∧ At u ref o m) ?_ hm
    refine triple_bind (R := fun _ m => Replaced w.router t ref o m ∧ At u ref o m)
      (triple_fromExcept _ (fun _ _ _ h => h) (fun _ _ _ h => h.1)) fun book => ?_
    refine triple_bind (R := fun _ m => Replaced w.router t ref o m ∧ At u ref o m)
      (triple_modify _ fun m h => ⟨⟨h.1.heap, h.1.tracked, h.1.accounted.keyed, h.1.accounted.reserved⟩, h.2⟩) fun _ => ?_
    refine triple_ite (fun _ => ?_) (fun _ => hprotect)
    refine triple_bind (R := fun _ m => Replaced w.router t ref o m ∧ At u ref o m)
      (triple_modify _ fun m h => hJ m _ rfl rfl rfl rfl h) fun _ => ?_
    exact triple_bind (triple_conseq (keeps_sweep (w := w) hJ o.symbol) (fun _ h => h) (fun _ _ h => h) (fun _ _ h => h.1))
      fun _ => hprotect
  cases o.fills.getLast? with
  | none => exact hnone
  | some fill =>
    cases decide (before.filledQty < o.filledQty) with
    | false => exact hnone
    | true =>
      exact triple_bind (hbooked fill) fun _ => keeps_bind hretire fun _ => Moves.keeps_checkpoint w hI.core

end call

/-! ## One order, caught up -/

/-- What the updates of an order make of it, whatever each of them raises. -/
def applyEach (us : List TradeUpdate) (o : Order) : Order := us.foldl (fun o u => (exec (applyTradeUpdate u) o).2) o

/-- **An order was caught up**: its object became `o'`, the fills it gained are the ones recorded, and every other object
and every other tracked key is where it was. -/
structure CaughtUp (r : OrderRouter β L σ) (s : RunnerState β σ ω) (ref : Ref) (o o' : Order) (recorded : List (Order × Fill))
    (t : RunnerState β σ ω) : Prop where
  accounted : Accounted r t
  object : t.desk.heap[ref]? = some o'
  updated : Updated o o'
  acknowledged : o'.brokerOrderId.isSome = true
  fills : o'.fills = o.fills ++ recorded.map Prod.snd
  owner : ∀ e ∈ recorded, e.1.side = o.side ∧ e.1.symbol = o.symbol
  tracked : ∀ k, t.openOrders.get? o.clientOrderId = some k → k = ref
  working : o'.isComplete = false → t.openOrders.get? o.clientOrderId = some ref
  objects : ∀ k x, s.desk.heap[k]? = some x → k ≠ ref → t.desk.heap[k]? = some x
  others : ∀ key k, s.openOrders.get? key = some k → key ≠ o.clientOrderId → t.openOrders.get? key = some k

section caught
variable {w : StrategyRunner β L σ ω} {s m t : RunnerState β σ ω} {u : TradeUpdate} {ref : Ref} {o o' : Order}

theorem applied_acknowledged (u : TradeUpdate) (h : o.brokerOrderId.isSome = true) :
    (exec (applyTradeUpdate u) o).2.brokerOrderId.isSome = true := by
  have hkept : adopted o u = o := by
    unfold adopted
    rw [if_neg (Option.isSome_iff_ne_none.1 h)]
  cases hx : exec (applyTradeUpdate u) o with
  | mk x o' => cases outcome_of_exec hx <;> simp [hkept, h]

/-- Nothing is left to be said of an acknowledged order that is complete. -/
theorem applied_complete (u : TradeUpdate) (h : o.brokerOrderId.isSome = true) (hcomplete : o.isComplete = true) :
    (exec (applyTradeUpdate u) o).2 = o := by
  have hkept : adopted o u = o := by
    unfold adopted
    rw [if_neg (Option.isSome_iff_ne_none.1 h)]
  have hterm : o.status.isTerminal = true := hcomplete
  have hwalked : walked o u.at = o := by
    unfold walked
    rw [if_neg]
    intro hpre
    rw [preAck_open hpre] at hterm
    cases hterm
  cases hx : exec (applyTradeUpdate u) o with
  | mk x o' =>
    cases outcome_of_exec hx with
    | wrongOrder => rfl
    | duplicate => exact hkept
    | refused => rw [hkept, hwalked]
    | booked _ _ _ _ hopen => rw [hterm] at hopen; cases hopen
    | noStatus => exact hkept
    | ignored => exact hkept
    | illegal => exact hkept
    | moved _ _ _ _ _ hopen => rw [hterm] at hopen; cases hopen

theorem applied_booked (u : TradeUpdate) (h : o.Booked) : (exec (applyTradeUpdate u) o).2.Booked := by
  cases hx : exec (applyTradeUpdate u) o with
  | mk x o' =>
    have hadopted := booked_adopted u h
    cases outcome_of_exec hx with
    | wrongOrder => exact h
    | duplicate => exact hadopted
    | refused => exact booked_walked _ hadopted
    | booked _ _ _ _ _ hpos hle =>
      refine Order.accumulate_booked (booked_walked _ hadopted) hpos ?_
      simpa [Order.remainingQty] using hle
    | noStatus => exact hadopted
    | ignored => exact hadopted
    | illegal => exact hadopted
    | moved => exact booked_congr (by simp) (by simp) (by simp) (by simp) hadopted

theorem CaughtUp.refl (hs : Accounted w.router s) (hfound : s.tracked o.clientOrderId = some (ref, o))
    (hack : o.brokerOrderId.isSome = true) : CaughtUp w.router s ref o o [] s := by
  obtain ⟨href, ho⟩ := Moves.tracked_some hfound
  exact ⟨hs, ho, .refl o, hack, (List.append_nil _).symm, by simp, fun k hk => Option.some.inj (hk.symm.trans href),
    fun _ => href, fun _ _ hk _ => hk, fun _ _ hk _ => hk⟩

/-- The object and the records of one call for a tracked order. -/
theorem delivered_replaced (hdigest : Function.Injective w.router.digest) (hs : Accounted w.router s) (c : Call)
    (hfound : s.tracked c.update.clientOrderId = some (ref, o)) :
    Replaced w.router s ref (exec (applyTradeUpdate c.update) o).2 (delivered w c s) := by
  have h := triple_left (triple_replaced (w := atInstant w c.now) hdigest ((accounted_atInstant c.now).2 hs) c.atr hfound) rfl
  exact ⟨h.heap, h.tracked, (accounted_atInstant c.now).1 h.accounted⟩

theorem delivered_untracked (c : Call) (hnone : s.tracked c.update.clientOrderId = none) : delivered w c s = s := by
  show (exec ((atInstant w c.now).onFillEvent c.atr c.update) s).2 = s
  unfold StrategyRunner.onFillEvent
  rw [exec_bind, exec_get]
  dsimp only
  rw [hnone]
  rfl

/-- A call tracks no key it did not find. -/
theorem delivered_keys (hdigest : Function.Injective w.router.digest) (hs : Accounted w.router s) (c : Call) {key : String}
    {k k' : Ref} (hold : s.openOrders.get? key = some k) (hk : (delivered w c s).openOrders.get? key = some k') : k' = k := by
  obtain ⟨m, htaken, htail⟩ := delivered_taken w c s
  have hm := (taken_keys hs htaken).accounted
  have hnew : m.openOrders.get? key = some k' :=
    (htail.keys hdigest ((accounted_atInstant c.now).2 hm)).openOrders key
      ((taken_keys hs htaken).reserved key (hs.reserved key k hold)) k' hk
  rw [(taken_object htaken).1, hold] at hnew
  exact (Option.some.inj hnew).symm

/-- What is recorded between two states is what the replaced object gained. -/
theorem Replaced.recorded (h : Replaced w.router s ref o' t) (ho : s.desk.heap[ref]? = some o) :
    FillLedger.recorded s t = (o'.fills.drop o.fills.length).map (fun f => (o', f)) := by
  obtain ⟨l, hl, hall⟩ := h.heap
  unfold FillLedger.recorded
  rw [hl, recordedBetween_new _ _ (fun x hx => (hall x hx).fills) (by rw [List.length_set]), recordedBetween_set o' ho]

/-- **One more update of the same order.** -/
theorem CaughtUp.step (hdigest : Function.Injective w.router.digest) {l : List (Order × Fill)}
    (h : CaughtUp w.router s ref o o' l m) (c : Call) (hc : c.update.clientOrderId = o.clientOrderId) :
    CaughtUp w.router s ref o (exec (applyTradeUpdate c.update) o').2 (l ++ recorded m (delivered w c m)) (delivered w c m) := by
  cases hk : m.openOrders.get? o.clientOrderId with
  | none =>
    have hcomplete : o'.isComplete = true := by
      by_contra hnot
      rw [h.working (Bool.not_eq_true _ ▸ hnot)] at hk
      cases hk
    have hnone : m.tracked c.update.clientOrderId = none := by
      unfold RunnerState.tracked
      rw [hc, hk]
      rfl
    rw [delivered_untracked c hnone, applied_complete c.update h.acknowledged hcomplete, FillLedger.recorded,
      recordedBetween_self, List.append_nil]
    exact h
  | some k =>
    obtain rfl : k = ref := h.tracked k hk
    have hfound : m.tracked c.update.clientOrderId = some (k, o') := by
      unfold RunnerState.tracked
      rw [hc, hk, Option.bind_some, h.object]
      rfl
    have hrep := delivered_replaced hdigest h.accounted c hfound
    have hrecorded := hrep.recorded h.object
    obtain ⟨hupdated, hfills⟩ := outcome_fills (applyTradeUpdate_outcome o' c.update)
    have hacked := applied_acknowledged c.update h.acknowledged
    generalize (exec (applyTradeUpdate c.update) o').2 = o'' at hrep hrecorded hupdated hfills hacked ⊢
    obtain ⟨hlt, -⟩ := List.getElem?_eq_some_iff.1 h.object
    obtain ⟨added, hadded, -⟩ := hrep.heap
    have hall := h.updated.trans hupdated
    have hgrown : o''.fills = o'.fills ++ o''.fills.drop o'.fills.length := by
      rcases hfills with ⟨hsame, -⟩ | ⟨f, -, -, hlast, -⟩
      · rw [hsame, List.drop_length, List.append_nil]
      · rw [hlast, List.drop_left]
    refine ⟨hrep.accounted, ?_, hall, hacked, ?_, fun e he => ?_, fun k' hk' => delivered_keys hdigest h.accounted c hk hk',
      fun hopen => hrep.tracked _ _ hk fun hcomplete => absurd hcomplete (by simp [hopen]), fun j x hx hne => ?_,
      fun key j hj hne => hrep.tracked key j (h.others key j hj hne) fun _ => hall.key ▸ hne⟩
    · rw [hadded, List.getElem?_append_left (by rwa [List.length_set]), List.getElem?_set_self hlt]
    · rw [hrecorded, List.map_append, List.map_map, ← List.append_assoc, ← h.fills]
      exact hgrown.trans (congrArg (o'.fills ++ ·) (List.map_id _).symm)
    · rcases List.mem_append.1 he with he | he
      · exact h.owner e he
      · rw [hrecorded] at he
        obtain ⟨f, -, rfl⟩ := List.mem_map.1 he
        exact ⟨hall.side, hall.symbol⟩
    · have hold := h.objects j x hx hne
      have hbound := (List.getElem?_eq_some_iff.1 hold).1
      rw [hadded, List.getElem?_append_left (by rwa [List.length_set]), List.getElem?_set_ne hne.symm, hold]

/-- **All the updates of one order**, in a state where it is tracked. -/
theorem caughtUp_deliveries (hdigest : Function.Injective w.router.digest) (hs : Accounted w.router s) (clock : ℕ → ℤ)
    (atr : String → Option ℚ) (hfound : s.tracked o.clientOrderId = some (ref, o)) (hack : o.brokerOrderId.isSome = true) :
    ∀ (us : List TradeUpdate) (n : ℕ), (∀ u ∈ us, u.clientOrderId = o.clientOrderId) →
      CaughtUp w.router s ref o (applyEach us o) (recordings w (callsOf clock atr n us) s)
        (deliveries w (callsOf clock atr n us) s) := by
  suffices hgo : ∀ (us : List TradeUpdate) (n : ℕ) (m : RunnerState β σ ω) (o' : Order) (l : List (Order × Fill)),
      (∀ u ∈ us, u.clientOrderId = o.clientOrderId) → CaughtUp w.router s ref o o' l m →
      CaughtUp w.router s ref o (applyEach us o') (l ++ recordings w (callsOf clock atr n us) m)
        (deliveries w (callsOf clock atr n us) m) from
    fun us n hus => hgo us n s o [] hus (.refl hs hfound hack)
  intro us
  induction us with
  | nil =>
    intro n m o' l _ h
    rw [callsOf, recordings, List.append_nil]
    exact h
  | cons u us ih =>
    intro n m o' l hus h
    have hstep := h.step hdigest ⟨clock n, atr, u⟩ (hus u (List.mem_cons_self ..))
    rw [callsOf, recordings, ← List.append_assoc]
    exact ih (n + 1) _ _ _ (fun v hv => hus v (List.mem_cons_of_mem _ hv)) hstep

end caught

/-! ## What the updates of a pass are -/

section updates
variable {reads : OrderReads} {now : ℤ} {name : String} {n : ℕ} {o theirs : Order}

/-- What a read of the venue told of an order. -/
def told (reads : OrderReads) (n : ℕ) (order : Order) : Option Order :=
  match order.brokerOrderId with
  | none => none
  | some id =>
    match reads n id with
    | .ok (some theirs) => if theirs.clientOrderId = order.clientOrderId then some theirs else none
    | _ => none

/-- The updates of one order of a pass. -/
def news (reads : OrderReads) (now : ℤ) (name : String) (n : ℕ) (order : Order) : List TradeUpdate :=
  (told reads n order).elim [] fun theirs => missedUpdates order theirs now (some name)

theorem readOne_ok {us : List TradeUpdate} (h : readOne (reads n) now name o = .ok us) : us = news reads now name n o := by
  unfold readOne at h
  unfold news told
  cases hid : o.brokerOrderId with
  | none =>
    rw [hid] at h
    exact (Except.ok.inj h).symm
  | some id =>
    rw [hid] at h
    dsimp only at h ⊢
    cases hread : reads n id with
    | error exc =>
      rw [hread] at h
      dsimp only at h ⊢
      split at h
      · exact (Except.ok.inj h).symm
      · cases h
    | ok answer =>
      rw [hread] at h
      cases answer with
      | none => exact (Except.ok.inj h).symm
      | some theirs =>
        dsimp only at h ⊢
        by_cases hours : theirs.clientOrderId = o.clientOrderId
        · rw [if_neg (not_not.2 hours)] at h
          rw [if_pos hours]
          exact (Except.ok.inj h).symm
        · rw [if_pos hours] at h
          rw [if_neg hours]
          exact (Except.ok.inj h).symm

/-- The updates of a pass, order after order. -/
def allNews (reads : OrderReads) (now : ℤ) (name : String) : ℕ → List Order → List TradeUpdate
  | _, [] => []
  | n, order :: rest => news reads now name n order ++ allNews reads now name (n + 1) rest

theorem readMissedUpdates_ok : ∀ {orders : List Order} {n : ℕ} {us : List TradeUpdate},
    readMissedUpdates reads now name n orders = .ok us → us = allNews reads now name n orders
  | [], _, _, h => (Except.ok.inj h).symm
  | order :: rest, n, us, h => by
    unfold readMissedUpdates at h
    obtain ⟨a, ha, h⟩ := ok_of_bind h
    obtain ⟨b, hb, h⟩ := ok_of_bind h
    rw [allNews, ← readOne_ok ha, ← readMissedUpdates_ok hb]
    exact (Except.ok.inj h).symm

theorem told_acknowledged (h : told reads n o = some theirs) : o.brokerOrderId.isSome = true := by
  unfold told at h
  cases hid : o.brokerOrderId with
  | none =>
    rw [hid] at h
    cases h
  | some id => rfl

theorem statusUpdates_named (ours : Order) (broker : Option String) :
    ∀ u ∈ statusUpdates ours theirs now broker, u.clientOrderId = ours.clientOrderId ∧ u.fill = none := by
  intro u hu
  unfold statusUpdates at hu
  split at hu
  · rw [List.mem_singleton.1 hu]
    exact ⟨rfl, rfl⟩
  · cases hu

/-- Every update of an order names it, and a fill it brings carries no fee. -/
theorem missedUpdates_named (ours : Order) (broker : Option String) :
    ∀ u ∈ missedUpdates ours theirs now broker, u.clientOrderId = ours.clientOrderId ∧ ∀ f, u.fill = some f → f.fee = 0 := by
  have hstatus (u : TradeUpdate) (hu : u ∈ statusUpdates ours theirs now broker) :
      u.clientOrderId = ours.clientOrderId ∧ ∀ f, u.fill = some f → f.fee = 0 := by
    obtain ⟨hnamed, hnone⟩ := statusUpdates_named ours broker u hu
    exact ⟨hnamed, fun f hf => by rw [hnone] at hf; cases hf⟩
  intro u hu
  unfold missedUpdates at hu
  dsimp only at hu
  split at hu
  · cases hu
  split at hu
  · cases hfill : reconstructFill ours theirs (theirs.filledQty - ours.filledQty) (theirs.filledAt.getD now) with
    | none =>
      rw [hfill] at hu
      cases hu
    | some fill =>
      rw [hfill] at hu
      rcases List.mem_cons.1 hu with rfl | hu
      · refine ⟨rfl, fun f hf => ?_⟩
        obtain rfl := Option.some.inj hf
        unfold reconstructFill at hfill
        cases havg : theirs.avgFillPrice with
        | none =>
          rw [havg] at hfill
          cases hfill
        | some avg =>
          rw [havg] at hfill
          dsimp only at hfill
          split at hfill
          · cases hfill
          · exact (Option.some.inj hfill) ▸ rfl
      · exact hstatus u hu
  · exact hstatus u hu

theorem news_named : ∀ u ∈ news reads now name n o, u.clientOrderId = o.clientOrderId ∧ ∀ f, u.fill = some f → f.fee = 0 := by
  intro u hu
  unfold news at hu
  cases htold : told reads n o with
  | none =>
    rw [htold] at hu
    cases hu
  | some theirs =>
    rw [htold] at hu
    exact missedUpdates_named o (some name) u hu

/-- A recovery that converges leaves what it converges to, read update by update. -/
theorem applyEach_applyAll : ∀ {us : List TradeUpdate} {a b : Order}, exec (applyAll us) a = (.ok (), b) → applyEach us a = b
  | [], _, _, h => (congrArg Prod.snd h)
  | u :: us, a, b, h => by
    rw [exec_applyAll_cons] at h
    cases hx : exec (applyTradeUpdate u) a with
    | mk x c =>
      rw [hx] at h
      cases x with
      | error e => cases h
      | ok changed =>
        rw [applyEach, List.foldl_cons, hx]
        exact applyEach_applyAll h

end updates

/-! ## The book -/

section book
variable {w : StrategyRunner β L σ ω} {s t : RunnerState β σ ω} {ref : Ref} {o o' : Order} {l : List (Order × Fill)}

/-- A recorded fill is one that was handed over. -/
theorem recordings_brought : ∀ (calls : List Call) (s : RunnerState β σ ω), ∀ e ∈ recordings w calls s,
    ∃ c ∈ calls, c.update.fill = some e.2
  | [], _, _, he => by cases he
  | c :: rest, s, e, he => by
    rw [recordings] at he
    rcases List.mem_append.1 he with he | he
    · obtain ⟨m, htaken, htail⟩ := delivered_taken w c s
      rw [Tail.recorded htaken htail] at he
      rcases Taken.recorded htaken with ⟨hnone, -⟩ | ⟨o, fill, hone, hrecords⟩
      · rw [hnone] at he
        cases he
      · obtain ⟨before, -, htakes, -⟩ := hrecords.takes
        rw [hone, List.mem_singleton] at he
        exact ⟨c, List.mem_cons_self .., he ▸ htakes.brought⟩
    · obtain ⟨c', hc', hf⟩ := recordings_brought rest _ e he
      exact ⟨c', List.mem_cons_of_mem _ hc', hf⟩

/-- A fold of fills moves a position by their signed quantities. -/
theorem folded_qty : ∀ (l : List (Order × Fill)) {p q : Position}, folded p l = .ok q →
    q.qty = p.qty + (l.map fun e => (e.2.qty * e.1.side.sign : ℚ)).sum
  | [], p, q, h => by
    obtain rfl : p = q := Except.ok.inj h
    simp
  | e :: l, p, q, h => by
    have hcons : folded p (e :: l) =
        ((p.applyFill e.2 (e.2.qty * e.1.side.sign)).map Prod.fst).bind fun p => folded p l := rfl
    rw [hcons] at h
    cases hf : p.applyFill e.2 (e.2.qty * e.1.side.sign) with
    | error exc =>
      rw [hf] at h
      cases h
    | ok r =>
      rw [hf] at h
      obtain ⟨-, -, -, hr, -⟩ := Position.applyFill_ok.1 (show _ = Except.ok (r.1, r.2) from hf)
      rw [folded_qty l (show folded r.1 l = .ok q from h), hr, Position.settled_qty, List.map_cons, List.sum_cons, add_assoc]

/-- The fills of one order, as cash and as a quantity. -/
theorem owned_totals {side : Side} : ∀ (l : List (Order × Fill)), (∀ e ∈ l, e.1.side = side ∧ e.2.fee = 0) →
    (l.map cost).sum = fillsNotional (l.map Prod.snd) * side.sign ∧
      (l.map fun e => (e.2.qty * e.1.side.sign : ℚ)).sum = fillsQty (l.map Prod.snd) * side.sign
  | [], _ => by simp
  | e :: l, h => by
    obtain ⟨hcash, hqty⟩ := owned_totals l fun x hx => h x (List.mem_cons_of_mem _ hx)
    obtain ⟨hside, hfee⟩ := h e (List.mem_cons_self ..)
    constructor
    · rw [List.map_cons, List.sum_cons, hcash, cost, hside, hfee, List.map_cons, fillsNotional, fillsNotional, List.map_cons,
        List.sum_cons, Fill.notional]
      ring
    · rw [List.map_cons, List.sum_cons, hqty, hside, List.map_cons, fillsQty, fillsQty, List.map_cons, List.sum_cons]
      ring

/-- **The book moves with the order**: by the notional and the quantity its totals gained. -/
theorem CaughtUp.book (h : CaughtUp w.router s ref o o' l t) (hfees : ∀ e ∈ l, e.2.fee = 0)
    (hfolds : Folds s.desk.portfolio l t.desk.portfolio) (hbooked : o.Booked) (hbooked' : o'.Booked) :
    t.desk.portfolio.cash = s.desk.portfolio.cash - (o'.filledNotional - o.filledNotional) * o.side.sign ∧
      ∀ symbol, (t.desk.portfolio.position symbol).qty = (s.desk.portfolio.position symbol).qty +
        if o.symbol = symbol then (o'.filledQty - o.filledQty) * o.side.sign else 0 := by
  obtain ⟨hcash, hqty⟩ := owned_totals l fun e he => ⟨(h.owner e he).1, hfees e he⟩
  have hnotional : fillsNotional (l.map Prod.snd) = o'.filledNotional - o.filledNotional := by
    rw [hbooked'.notional, hbooked.notional, h.fills, fillsNotional_append, add_sub_cancel_left]
  have hfilled : fillsQty (l.map Prod.snd) = o'.filledQty - o.filledQty := by
    rw [hbooked'.filled, hbooked.filled, h.fills, fillsQty_append, add_sub_cancel_left]
  refine ⟨by rw [hfolds.1, hcash, hnotional], fun symbol => ?_⟩
  have hfolded := hfolds.2 symbol
  cases hp : folded (s.desk.portfolio.position symbol) (l.filter fun e => e.1.symbol = symbol) with
  | error exc =>
    rw [hp] at hfolded
    cases hfolded
  | ok p =>
    rw [hp] at hfolded
    have hlevels : unlevelled p = unlevelled (t.desk.portfolio.position symbol) := Except.ok.inj hfolded
    have hsame : (unlevelled p).qty = (unlevelled (t.desk.portfolio.position symbol)).qty := by rw [hlevels]
    rw [show (t.desk.portfolio.position symbol).qty = p.qty from hsame.symm, folded_qty _ hp]
    by_cases hsymbol : o.symbol = symbol
    · rw [if_pos hsymbol, List.filter_eq_self.2 fun e he => by simp [(h.owner e he).2, hsymbol], hqty, hfilled]
    · rw [if_neg hsymbol, List.filter_eq_nil_iff.2 fun e he => by simp [(h.owner e he).2, hsymbol]]
      rfl

end book

/-! ## The working set -/

section pass
variable {w : StrategyRunner β L σ ω} {s m t : RunnerState β σ ω} {reads : OrderReads} {now : ℤ} {name : String} {n : ℕ}

/-- The objects of the working set, each with its reference. -/
def working (s : RunnerState β σ ω) : List (Ref × Order) :=
  s.openOrders.values.filterMap fun ref => (s.desk.heap[ref]?).map fun o => (ref, o)

/-- What a pass makes of an order. -/
def gained (reads : OrderReads) (now : ℤ) (name : String) (n : ℕ) (o : Order) : Order :=
  applyEach (news reads now name n o) o

theorem working_orders (s : RunnerState β σ ω) : (working s).map Prod.snd = s.openOrderList := by
  unfold working RunnerState.openOrderList
  rw [List.map_filterMap]
  congr 1
  funext ref
  cases s.desk.heap[ref]? <;> rfl

theorem working_found (hs : Accounted w.router s) : ∀ e ∈ working s, s.tracked e.2.clientOrderId = some e := by
  intro e he
  obtain ⟨ref, href, hobject⟩ := List.mem_filterMap.1 he
  obtain ⟨o, ho, rfl⟩ := Option.map_eq_some_iff.1 hobject
  obtain ⟨key, hkey⟩ := (Dict.mem_values_iff _ _).1 href
  obtain ⟨x, hx, hnamed⟩ := hs.keyed key ref hkey
  obtain rfl : o = x := Option.some.inj (ho.symm.trans hx)
  unfold RunnerState.tracked
  rw [hnamed, hkey, Option.bind_some, ho]
  rfl

/-- No two orders of the working set share a key. -/
theorem working_distinct (hs : Accounted w.router s) :
    (working s).Pairwise fun a b => a.2.clientOrderId ≠ b.2.clientOrderId := by
  unfold working Dict.values
  rw [List.filterMap_map, List.pairwise_filterMap]
  refine (List.pairwise_map.1 s.openOrders.nodup).imp_of_mem fun {a b} ha hb hne x hx y hy => ?_
  have hnamed {e : String × Ref} {x : Ref × Order} (he : e ∈ s.openOrders.entries)
      (hx : (s.desk.heap[e.2]?).map (fun o => (e.2, o)) = some x) : x.2.clientOrderId = e.1 := by
    obtain ⟨o, ho, rfl⟩ := Option.map_eq_some_iff.1 hx
    obtain ⟨o', ho', hkey⟩ := hs.keyed e.1 e.2 ((Dict.mem_entries_iff _ _ _).1 he)
    rw [← hkey, Option.some.inj (ho.symm.trans ho')]
  rw [hnamed ha hx, hnamed hb hy]
  exact hne

/-- **What a pass leaves of the orders it has read**: each as its own updates make it, and the rest as it was. -/
structure Passed (reads : OrderReads) (now : ℤ) (name : String) (r : OrderRouter β L σ) (n : ℕ) (l : List (Ref × Order))
    (s t : RunnerState β σ ω) : Prop where
  accounted : Accounted r t
  each : ∀ i e, l[i]? = some e → t.desk.heap[e.1]? = some (gained reads now name (n + i) e.2) ∧
    ((gained reads now name (n + i) e.2).isComplete = false → t.openOrders.get? e.2.clientOrderId = some e.1)
  objects : ∀ k x, s.desk.heap[k]? = some x → (∀ e ∈ l, k ≠ e.1) → t.desk.heap[k]? = some x
  others : ∀ key k, s.openOrders.get? key = some k → (∀ e ∈ l, key ≠ e.2.clientOrderId) → t.openOrders.get? key = some k

/-- What the orders of a pass gained, in cash and in one symbol. -/
def paid (reads : OrderReads) (now : ℤ) (name : String) (n : ℕ) (l : List (Ref × Order)) : ℚ :=
  ((l.zipIdx n).map fun e =>
    ((gained reads now name e.2 e.1.2).filledNotional - e.1.2.filledNotional) * e.1.2.side.sign).sum

def acquired (reads : OrderReads) (now : ℤ) (name : String) (n : ℕ) (l : List (Ref × Order)) (symbol : String) : ℚ :=
  ((l.zipIdx n).map fun e =>
    if e.1.2.symbol = symbol then ((gained reads now name e.2 e.1.2).filledQty - e.1.2.filledQty) * e.1.2.side.sign else 0).sum

theorem callsOf_append (clock : ℕ → ℤ) (atr : String → Option ℚ) : ∀ (us vs : List TradeUpdate) (j : ℕ),
    callsOf clock atr j (us ++ vs) = callsOf clock atr j us ++ callsOf clock atr (j + us.length) vs
  | [], _, _ => rfl
  | u :: us, vs, j => by
    rw [List.cons_append, callsOf, callsOf, callsOf_append clock atr us vs (j + 1), List.cons_append, List.length_cons,
      Nat.add_assoc, Nat.add_comm 1]

theorem mem_callsOf {clock : ℕ → ℤ} {atr : String → Option ℚ} {c : Call} : ∀ {us : List TradeUpdate} {j : ℕ},
    c ∈ callsOf clock atr j us → c.update ∈ us
  | _ :: us, j, h => by
    rcases List.mem_cons.1 h with rfl | h
    · exact List.mem_cons_self ..
    · exact List.mem_cons_of_mem _ (mem_callsOf h)

theorem applyEach_booked : ∀ (us : List TradeUpdate) {o : Order}, o.Booked → (applyEach us o).Booked
  | [], _, h => h
  | u :: us, _, h => applyEach_booked us (applied_booked u h)

/-- A state of the book after some of the orders were passed. -/
def BookMoved (reads : OrderReads) (now : ℤ) (name : String) (n : ℕ) (l : List (Ref × Order)) (b b' : Portfolio) : Prop :=
  b'.cash = b.cash - paid reads now name n l ∧
    ∀ symbol, (b'.position symbol).qty = (b.position symbol).qty + acquired reads now name n l symbol

variable (reads now name) in
/-- **One order of a pass.** -/
theorem passed_one (hdigest : Function.Injective w.router.digest) (hs : Accounted w.router s) {ref : Ref} {o : Order}
    (hfound : s.tracked o.clientOrderId = some (ref, o)) (clock : ℕ → ℤ) (atr : String → Option ℚ) (n j : ℕ) :
    Passed reads now name w.router n [(ref, o)] s (deliveries w (callsOf clock atr j (news reads now name n o)) s) ∧
      (o.Booked → BookMoved reads now name n [(ref, o)] s.desk.portfolio
        (deliveries w (callsOf clock atr j (news reads now name n o)) s).desk.portfolio) := by
  obtain ⟨href, ho⟩ := Moves.tracked_some hfound
  cases htold : told reads n o with
  | none =>
    have hnone : news reads now name n o = [] := by rw [news, htold]; rfl
    have hsame : gained reads now name n o = o := by rw [gained, hnone]; rfl
    rw [hnone]
    refine ⟨⟨hs, fun i e he => ?_, fun _ _ hx _ => hx, fun _ _ hk _ => hk⟩, fun _ => ⟨?_, fun symbol => ?_⟩⟩
    · cases i with
      | zero =>
        obtain rfl : (ref, o) = e := Option.some.inj he
        rw [Nat.add_zero, hsame]
        exact ⟨ho, fun _ => href⟩
      | succ i => cases he
    · simp [paid, hsame, callsOf, deliveries]
    · simp [acquired, hsame, callsOf, deliveries]
  | some theirs =>
    have hcaught := caughtUp_deliveries hdigest hs clock atr hfound (told_acknowledged htold) (news reads now name n o) j
      fun u hu => (news_named u hu).1
    refine ⟨⟨hcaught.accounted, fun i e he => ?_, fun k x hx hk => hcaught.objects k x hx (hk _ (List.mem_singleton_self _)),
      fun key k hk hkey => hcaught.others key k hk (hkey _ (List.mem_singleton_self _))⟩, fun hbooked => ?_⟩
    · cases i with
      | zero =>
        obtain rfl : (ref, o) = e := Option.some.inj he
        exact ⟨hcaught.object, hcaught.working⟩
      | succ i => cases he
    · have hfees : ∀ e ∈ recordings w (callsOf clock atr j (news reads now name n o)) s, e.2.fee = 0 := by
        intro e he
        obtain ⟨c, hc, hf⟩ := recordings_brought _ s e he
        exact (news_named c.update (mem_callsOf hc)).2 e.2 hf
      obtain ⟨hcash, hqty⟩ := hcaught.book hfees (deliveries_folds w _ s) hbooked (applyEach_booked _ hbooked)
      exact ⟨by simp [hcash, paid, gained], fun symbol => by simp [hqty, acquired, gained]⟩

theorem Passed.trans {r : OrderRouter β L σ} {e : Ref × Order} {l : List (Ref × Order)} (h : Passed reads now name r n [e] s m)
    (h' : Passed reads now name r (n + 1) l m t) (hrefs : ∀ x ∈ l, e.1 ≠ x.1)
    (hkeys : ∀ x ∈ l, e.2.clientOrderId ≠ x.2.clientOrderId) : Passed reads now name r n (e :: l) s t := by
  refine ⟨h'.accounted, fun i x hx => ?_, fun k x hx hk => ?_, fun key k hk hkey => ?_⟩
  · cases i with
    | zero =>
      obtain rfl : e = x := Option.some.inj hx
      obtain ⟨hobject, hopen⟩ := h.each 0 e rfl
      exact ⟨h'.objects _ _ hobject hrefs, fun hworking => h'.others _ _ (hopen hworking) hkeys⟩
    | succ i =>
      rw [Nat.add_comm i 1, ← Nat.add_assoc]
      exact h'.each i x hx
  · exact h'.objects k x (h.objects k x hx fun y hy => List.mem_singleton.1 hy ▸ hk e (List.mem_cons_self ..))
      fun y hy => hk y (List.mem_cons_of_mem _ hy)
  · exact h'.others key k (h.others key k hk fun y hy => List.mem_singleton.1 hy ▸ hkey e (List.mem_cons_self ..))
      fun y hy => hkey y (List.mem_cons_of_mem _ hy)

theorem BookMoved.trans {e : Ref × Order} {l : List (Ref × Order)} {b b' b'' : Portfolio}
    (h : BookMoved reads now name n [e] b b') (h' : BookMoved reads now name (n + 1) l b' b'') :
    BookMoved reads now name n (e :: l) b b'' := by
  obtain ⟨hcash, hqty⟩ := h
  obtain ⟨hcash', hqty'⟩ := h'
  unfold paid at hcash hcash'
  unfold acquired at hqty hqty'
  simp only [List.zipIdx_cons, List.zipIdx_nil, List.map_cons, List.map_nil, List.sum_cons, List.sum_nil, add_zero] at hcash hqty
  constructor
  · unfold paid
    rw [hcash', hcash, List.zipIdx_cons, List.map_cons, List.sum_cons]
    ring
  · intro symbol
    unfold acquired
    rw [hqty' symbol, hqty symbol, List.zipIdx_cons, List.map_cons, List.sum_cons, add_assoc]

/-- **A whole pass**, order after order. -/
theorem passed_all (hdigest : Function.Injective w.router.digest) (clock : ℕ → ℤ) (atr : String → Option ℚ) :
    ∀ (l : List (Ref × Order)) (n j : ℕ) (s : RunnerState β σ ω), Accounted w.router s →
      (∀ e ∈ l, s.tracked e.2.clientOrderId = some e) → l.Pairwise (fun a b => a.2.clientOrderId ≠ b.2.clientOrderId) →
      Passed reads now name w.router n l s (deliveries w (callsOf clock atr j (allNews reads now name n (l.map Prod.snd))) s) ∧
        ((∀ e ∈ l, e.2.Booked) → BookMoved reads now name n l s.desk.portfolio
          (deliveries w (callsOf clock atr j (allNews reads now name n (l.map Prod.snd))) s).desk.portfolio)
  | [], n, j, s, hs, _, _ => by
    refine ⟨⟨hs, fun i e he => (by cases he), fun _ _ hx _ => hx, fun _ _ hk _ => hk⟩, fun _ => ⟨?_, fun _ => ?_⟩⟩
    · exact (sub_zero _).symm
    · exact (add_zero _).symm
  | (ref, o) :: l, n, j, s, hs, htracked, hdistinct => by
    obtain ⟨hkeys, hdistinct⟩ := List.pairwise_cons.1 hdistinct
    have hfound := htracked (ref, o) (List.mem_cons_self ..)
    obtain ⟨hone, hmoved⟩ := passed_one reads now name hdigest hs hfound clock atr n j
    have hrefs : ∀ x ∈ l, ref ≠ x.1 := by
      rintro x hx rfl
      obtain ⟨-, ho⟩ := Moves.tracked_some hfound
      obtain ⟨-, hx'⟩ := Moves.tracked_some (htracked x (List.mem_cons_of_mem _ hx))
      exact hkeys x hx (congrArg Order.clientOrderId (Option.some.inj (ho.symm.trans hx')))
    rw [List.map_cons, allNews, callsOf_append, deliveries_append]
    generalize deliveries w (callsOf clock atr j (news reads now name n o)) s = m at hone hmoved ⊢
    have hlater : ∀ x ∈ l, m.tracked x.2.clientOrderId = some x := by
      intro x hx
      obtain ⟨hopen, hobject⟩ := Moves.tracked_some (htracked x (List.mem_cons_of_mem _ hx))
      unfold RunnerState.tracked
      rw [hone.others _ _ hopen fun y hy => List.mem_singleton.1 hy ▸ (hkeys x hx).symm, Option.bind_some,
        hone.objects _ _ hobject fun y hy => List.mem_singleton.1 hy ▸ (hrefs x hx).symm]
      rfl
    obtain ⟨hrest, hmoved'⟩ := passed_all hdigest clock atr l (n + 1) (j + (news reads now name n o).length) m
      hone.accounted hlater hdistinct
    exact ⟨hone.trans hrest hrefs hkeys, fun hbooked => (hmoved (hbooked (ref, o) (List.mem_cons_self ..))).trans
      (hmoved' fun e he => hbooked e (List.mem_cons_of_mem _ he))⟩

end pass

/-! ## A pass -/

section runs
variable {w : StrategyRunner β L σ ω} {s t : RunnerState β σ ω} {reads : OrderReads} {now : ℤ} {name : String}
  {atr : String → Option ℚ} {clock : ℕ → ℤ} {applied : ℕ} {e : Exc}

theorem exec_bookOne (c : Call) (s : RunnerState β σ ω) :
    exec (bookOne w c) s = match (exec ((atInstant w c.now).onFillEvent c.atr c.update) s).1 with
      | .ok _ => (.ok 1, delivered w c s)
      | .error exc => (if bookingRefused exc then .ok 0 else .error (parked c.update exc), delivered w c s) := by
  unfold bookOne
  rw [exec_bind, exec_tried]
  dsimp only
  cases (exec ((atInstant w c.now).onFillEvent c.atr c.update) s).1 with
  | ok => rfl
  | error exc =>
    dsimp only
    split <;> rfl

/-- **A pass that returns has handed over every update**, and one that parks stops at an update that was not refused. -/
theorem exec_bookAll : ∀ (calls : List Call) (s : RunnerState β σ ω),
    match exec (bookAll w calls) s with
    | (.ok _, t) => t = deliveries w calls s
    | (.error e, t) => ∃ before c rest exc, calls = before ++ c :: rest ∧ t = deliveries w (before ++ [c]) s ∧
        e = parked c.update exc ∧ bookingRefused exc = false ∧
        (exec ((atInstant w c.now).onFillEvent c.atr c.update) (deliveries w before s)).1 = .error exc
  | [], s => rfl
  | c :: rest, s => by
    unfold bookAll
    rw [exec_bind, exec_bookOne]
    have hlater (one : ℕ) : match exec (bookAll w rest >>= fun others => pure (one + others)) (delivered w c s) with
        | (.ok _, t) => t = deliveries w (c :: rest) s
        | (.error e, t) => ∃ before c' rest' exc, c :: rest = before ++ c' :: rest' ∧ t = deliveries w (before ++ [c']) s ∧
            e = parked c'.update exc ∧ bookingRefused exc = false ∧
            (exec ((atInstant w c'.now).onFillEvent c'.atr c'.update) (deliveries w before s)).1 = .error exc := by
      have ih := exec_bookAll rest (delivered w c s)
      rw [exec_bind]
      rcases hx : exec (bookAll w rest) (delivered w c s) with ⟨x, t⟩
      rw [hx] at ih
      cases x with
      | ok others => exact ih
      | error e =>
        obtain ⟨before, c', rest', exc, hrest, ht, he, hraised⟩ := ih
        exact ⟨c :: before, c', rest', exc, by rw [hrest]; rfl, ht, he, hraised⟩
    cases hcall : (exec ((atInstant w c.now).onFillEvent c.atr c.update) s).1 with
    | ok => exact hlater 1
    | error exc =>
      dsimp only
      cases hrefused : bookingRefused exc with
      | true => exact hlater 0
      | false => exact ⟨[], c, rest, exc, rfl, rfl, rfl, hrefused, hcall⟩

/-- The calls a pass makes, when it gets as far. -/
def passCalls (reads : OrderReads) (now : ℤ) (name : String) (atr : String → Option ℚ) (clock : ℕ → ℤ)
    (s : RunnerState β σ ω) : List Call := callsOf clock atr 0 (allNews reads now name 0 ((working s).map Prod.snd))

theorem catchUp_returned (h : exec (catchUpOnOrders w reads now name atr clock) s = (.ok applied, t)) :
    t = deliveries w (passCalls reads now name atr clock s) s := by
  unfold catchUpOnOrders at h
  rw [exec_bind, exec_get] at h
  dsimp only at h
  unfold passCalls
  rw [working_orders]
  split at h
  · rename_i hempty
    have hnone : s.openOrderList = [] := by
      unfold RunnerState.openOrderList Dict.values
      rw [List.isEmpty_iff.1 hempty]
      rfl
    rw [hnone]
    exact (congrArg Prod.snd h).symm
  · rw [exec_bind, exec_fromExcept] at h
    cases hread : readMissedUpdates reads now name 0 s.openOrderList with
    | error exc =>
      rw [hread] at h
      cases congrArg Prod.fst h
    | ok us =>
      rw [hread] at h
      rw [← readMissedUpdates_ok hread]
      have hall := exec_bookAll (w := w) (callsOf clock atr 0 us) s
      rw [show exec (bookAll w (callsOf clock atr 0 us)) s = (.ok applied, t) from h] at hall
      exact hall

theorem catchUp_raised (h : exec (catchUpOnOrders w reads now name atr clock) s = (.error e, t)) :
    (readMissedUpdates reads now name 0 s.openOrderList = .error e ∧ t = s) ∨
      ∃ before c rest exc, passCalls reads now name atr clock s = before ++ c :: rest ∧ t = deliveries w (before ++ [c]) s ∧
        e = parked c.update exc ∧ bookingRefused exc = false ∧
        (exec ((atInstant w c.now).onFillEvent c.atr c.update) (deliveries w before s)).1 = .error exc := by
  unfold catchUpOnOrders at h
  rw [exec_bind, exec_get] at h
  dsimp only at h
  unfold passCalls
  rw [working_orders]
  split at h
  · cases congrArg Prod.fst h
  · rw [exec_bind, exec_fromExcept] at h
    cases hread : readMissedUpdates reads now name 0 s.openOrderList with
    | error exc =>
      rw [hread] at h
      obtain ⟨hx, ht⟩ := Prod.mk.inj h
      obtain rfl := Except.error.inj hx
      exact .inl ⟨rfl, ht.symm⟩
    | ok us =>
      rw [hread] at h
      rw [← readMissedUpdates_ok hread]
      have hall := exec_bookAll (w := w) (callsOf clock atr 0 us) s
      rw [show exec (bookAll w (callsOf clock atr 0 us)) s = (.error e, t) from h] at hall
      exact .inr hall

/-- What `apply_trade_update` raises over a recovered update is a refusal. -/
theorem applied_refused {o : Order} {u : TradeUpdate} (hpos : ∀ f, u.fill = some f → 0 < f.qty)
    (h : (exec (applyTradeUpdate u) o).1 = .error e) : bookingRefused e = true := by
  rw [exec_applyTradeUpdate] at h
  split at h
  · exact (Except.error.inj h) ▸ rfl
  cases hf : u.fill with
  | none =>
    rw [hf] at h
    dsimp only at h
    rw [exec_applyStatus] at h
    cases hs : u.status with
    | none =>
      rw [hs] at h
      cases h
    | some status =>
      rw [hs] at h
      dsimp only at h
      rw [State.exec_transition] at h
      split at h
      · cases h
      split at h
      · cases h
      split at h
      · cases h
      · exact (Except.error.inj h) ▸ rfl
  | some f =>
    rw [hf] at h
    dsimp only at h
    rw [exec_applyFill] at h
    split at h
    · cases h
    split at h
    · exact (Except.error.inj h) ▸ rfl
    split at h
    · exact (Except.error.inj h) ▸ rfl
    rename_i hroom
    rw [Order.applyFill_ok.2 ⟨hpos f hf, not_lt.1 hroom, rfl⟩] at h
    cases h

theorem missedUpdates_pos {ours theirs : Order} {broker : Option String} :
    ∀ u ∈ missedUpdates ours theirs now broker, ∀ f, u.fill = some f → 0 < f.qty := by
  intro u hu f hf
  have hstatus (hu : u ∈ statusUpdates ours theirs now broker) : 0 < f.qty := by
    rw [(statusUpdates_named ours broker u hu).2] at hf
    cases hf
  rcases missedUpdates_cases ours theirs now broker with hnone | ⟨-, hlevel⟩ | ⟨hbehind, g, hg, -, hupdates⟩
  · rw [hnone] at hu
    cases hu
  · exact hstatus (hlevel ▸ hu)
  · rw [hupdates] at hu
    rcases List.mem_cons.1 hu with rfl | hu
    · rw [fillUpdate_fill] at hf
      rw [← Option.some.inj hf, hg]
      exact sub_pos.2 hbehind
    · exact hstatus hu

theorem allNews_pos (l : List Order) : ∀ n, ∀ u ∈ allNews reads now name n l, ∀ f, u.fill = some f → 0 < f.qty := by
  induction l with
  | nil =>
    intro n u hu
    cases hu
  | cons o l ih =>
    intro n u hu f hf
    rcases List.mem_append.1 hu with hu | hu
    · unfold news at hu
      cases htold : told reads n o with
      | none =>
        rw [htold] at hu
        cases hu
      | some theirs =>
        rw [htold] at hu
        exact missedUpdates_pos u hu f hf
    · exact ih (n + 1) u hu f hf

/-- A raise that `apply_trade_update` did not make comes after the update was taken. -/
theorem raised_later {atr : String → Option ℚ} {u : TradeUpdate} {exc : Exc}
    (h : (exec (w.onFillEvent atr u) s).1 = .error exc) : ∃ ref o, s.tracked u.clientOrderId = some (ref, o) ∧
      ((exec (applyTradeUpdate u) o).1 = .error exc ∨ (exec (applyTradeUpdate u) o).1 = .ok true) := by
  unfold StrategyRunner.onFillEvent at h
  rw [exec_bind, exec_get] at h
  dsimp only at h
  cases hfound : s.tracked u.clientOrderId with
  | none =>
    rw [hfound] at h
    cases h
  | some found =>
    obtain ⟨ref, o⟩ := found
    refine ⟨ref, o, rfl, ?_⟩
    rw [hfound] at h
    change (exec (w.onTracked atr u ref o) s).1 = .error exc at h
    have hobject : (s.desk.heap[ref]?).getD o = o := by rw [(Moves.tracked_some hfound).2, Option.getD_some]
    unfold StrategyRunner.onTracked at h
    rw [exec_bind, onObject, exec_within, hobject] at h
    rcases hx : exec (applyTradeUpdate u) o with ⟨x, o'⟩
    rw [hx] at h
    cases x with
    | error exc' =>
      have hsame : (Except.error exc' : Except Exc Unit) = .error exc := h
      obtain rfl := Except.error.inj hsame
      exact .inl rfl
    | ok changed =>
      cases changed with
      | true => exact .inr rfl
      | false =>
        dsimp only at h
        cases h

theorem recordings_append : ∀ (before after : List Call) (s : RunnerState β σ ω),
    recordings w (before ++ after) s = recordings w before s ++ recordings w after (deliveries w before s)
  | [], _, _ => rfl
  | c :: before, after, s => by
    rw [List.cons_append, recordings, recordings, recordings_append before after, List.append_assoc]
    rfl

/-- A catch-up that returns is a whole pass over the working set. -/
theorem catchUp_passed (hdigest : Function.Injective w.router.digest) (hs : Accounted w.router s)
    (h : exec (catchUpOnOrders w reads now name atr clock) s = (.ok applied, t)) :
    Passed reads now name w.router 0 (working s) s t ∧
      ((∀ e ∈ working s, e.2.Booked) → BookMoved reads now name 0 (working s) s.desk.portfolio t.desk.portfolio) := by
  rw [catchUp_returned h]
  exact passed_all hdigest clock atr (working s) 0 0 s hs (working_found hs) (working_distinct hs)

variable (now name) in
/-- An order that converges is left with the venue's totals and status. -/
theorem gained_converges {n : ℕ} {o theirs : Order} (htold : told reads n o = some theirs) (hc : Comparable o theirs)
    (hconv : Convergent o theirs) :
    (gained reads now name n o).filledQty = theirs.filledQty ∧
      (gained reads now name n o).filledNotional = theirs.filledNotional ∧
      sameStatus (gained reads now name n o).status theirs.status = true ∧
      ∀ later broker, missedUpdates (gained reads now name n o) theirs later broker = [] := by
  obtain ⟨o', hexec, hrest⟩ := (converges_iff hc now (some name)).2 hconv
  have hgained : gained reads now name n o = o' := by
    unfold gained news
    rw [htold]
    exact applyEach_applyAll hexec
  rw [hgained]
  exact hrest

/-- **What a catch-up leaves of an order**: the object its own updates make of it, still tracked unless that is complete.
With the venue's totals and status where the two copies can converge; untouched where the venue told nothing. -/
structure CaughtUpTo (reads : OrderReads) (now : ℤ) (name : String) (n : ℕ) (ref : Ref) (o : Order) (t : RunnerState β σ ω) :
    Prop where
  object : t.desk.heap[ref]? = some (gained reads now name n o)
  tracked : (gained reads now name n o).isComplete = false →
    t.tracked o.clientOrderId = some (ref, gained reads now name n o)
  converged : ∀ theirs, told reads n o = some theirs → Comparable o theirs → Convergent o theirs →
    (gained reads now name n o).filledQty = theirs.filledQty ∧
      (gained reads now name n o).filledNotional = theirs.filledNotional ∧
      sameStatus (gained reads now name n o).status theirs.status = true ∧
      ∀ later broker, missedUpdates (gained reads now name n o) theirs later broker = []
  untold : told reads n o = none → gained reads now name n o = o

/-- **A catch-up takes every working order for itself**: whatever is refused, unreadable or protected on the way, each ends
as its own updates make it, and no object outside the working set changes. -/
theorem caught_up (hdigest : Function.Injective w.router.digest) (hs : Accounted w.router s)
    (h : exec (catchUpOnOrders w reads now name atr clock) s = (.ok applied, t)) :
    (∀ (i : ℕ) ref o, (working s)[i]? = some (ref, o) → CaughtUpTo reads now name i ref o t) ∧
      (∀ (k : Ref) x, s.desk.heap[k]? = some x → (∀ e ∈ working s, k ≠ e.1) → t.desk.heap[k]? = some x) := by
  obtain ⟨hpassed, -⟩ := catchUp_passed hdigest hs h
  refine ⟨fun i ref o hi => ?_, hpassed.objects⟩
  obtain ⟨hobject, hopen⟩ := hpassed.each i (ref, o) hi
  rw [Nat.zero_add] at hobject hopen
  refine ⟨hobject, fun hworking => ?_, fun theirs => gained_converges now name, fun hnone => ?_⟩
  · unfold RunnerState.tracked
    rw [hopen hworking, Option.bind_some, hobject]
    rfl
  · unfold gained news
    rw [hnone]
    rfl

/-- What the venue has of an order beyond ours, signed by its side. -/
def missed (total : Order → ℚ) (reads : OrderReads) (n : ℕ) (o : Order) : ℚ :=
  (told reads n o).elim 0 fun theirs => (total theirs - total o) * o.side.sign

/-- **The book ends where the venue's totals put it**: when every copy the venue told of can converge, cash has moved by the
notional that was missed and each position by the quantity. -/
theorem caught_up_book (hdigest : Function.Injective w.router.digest) (hs : Accounted w.router s)
    (hbooked : ∀ e ∈ working s, e.2.Booked)
    (hconv : ∀ (i : ℕ) e, (working s)[i]? = some e → ∀ theirs, told reads i e.2 = some theirs →
      Comparable e.2 theirs ∧ Convergent e.2 theirs)
    (h : exec (catchUpOnOrders w reads now name atr clock) s = (.ok applied, t)) :
    t.desk.portfolio.cash = s.desk.portfolio.cash -
        ((working s).zipIdx.map fun e => missed Order.filledNotional reads e.2 e.1.2).sum ∧
      ∀ symbol, (t.desk.portfolio.position symbol).qty = (s.desk.portfolio.position symbol).qty +
        ((working s).zipIdx.map fun e => if e.1.2.symbol = symbol then missed Order.filledQty reads e.2 e.1.2 else 0).sum := by
  obtain ⟨-, hmoved⟩ := catchUp_passed hdigest hs h
  obtain ⟨hcash, hqty⟩ := hmoved hbooked
  have hgain (e : (Ref × Order) × ℕ) (he : e ∈ (working s).zipIdx) :
      ((gained reads now name e.2 e.1.2).filledNotional - e.1.2.filledNotional) * e.1.2.side.sign =
          missed Order.filledNotional reads e.2 e.1.2 ∧
        ((gained reads now name e.2 e.1.2).filledQty - e.1.2.filledQty) * e.1.2.side.sign =
          missed Order.filledQty reads e.2 e.1.2 := by
    unfold missed
    cases htold : told reads e.2 e.1.2 with
    | none =>
      have hsame : gained reads now name e.2 e.1.2 = e.1.2 := by
        unfold gained news
        rw [htold]
        rfl
      simp [hsame]
    | some theirs =>
      obtain ⟨hc, hto⟩ := hconv e.2 e.1 (List.mk_mem_zipIdx_iff_getElem?.1 he) theirs htold
      obtain ⟨hq, hn, -⟩ := gained_converges now name htold hc hto
      simp [hq, hn]
  refine ⟨?_, fun symbol => ?_⟩
  · rw [hcash, paid, List.map_congr_left fun e he => (hgain e he).1]
  · rw [hqty symbol, acquired]
    congr 2
    refine List.map_congr_left fun e he => ?_
    rw [(hgain e he).2]

/-- **A catch-up that raises has lost nothing**: the venue could not be read and nothing moved, or it parks on an update that
was taken, whose fill its order and the book have. -/
theorem catch_up_parks (hdigest : Function.Injective w.router.digest) (hs : Accounted w.router s)
    (h : exec (catchUpOnOrders w reads now name atr clock) s = (.error e, t)) :
    (t = s ∧ readMissedUpdates reads now name 0 s.openOrderList = .error e) ∨
      ∃ before c rest exc, ∃ (ref : Ref) (o : Order), passCalls reads now name atr clock s = before ++ c :: rest ∧
        e = parked c.update exc ∧ t.desk.heap[ref]? = some o ∧ o.clientOrderId = c.update.clientOrderId ∧
        (∀ f, c.update.fill = some f → f ∈ o.fills ∧ (o, f) ∈ recordings w (before ++ [c]) s) ∧
        Folds s.desk.portfolio (recordings w (before ++ [c]) s) t.desk.portfolio := by
  rcases catchUp_raised h with ⟨hread, ht⟩ | ⟨before, c, rest, exc, hcalls, ht, he, hrefused, hraised⟩
  · exact .inl ⟨ht, hread⟩
  right
  have hm := deliveries_accounted hdigest before hs
  obtain ⟨ref, o, hfound, happlied⟩ := raised_later hraised
  have hpos : ∀ f, c.update.fill = some f → 0 < f.qty := by
    have hmem : c ∈ passCalls reads now name atr clock s := by
      rw [hcalls]
      simp
    exact allNews_pos _ 0 c.update (mem_callsOf hmem)
  have htaken : (exec (applyTradeUpdate c.update) o).1 = .ok true := by
    rcases happlied with hbad | hok
    · rw [applied_refused hpos hbad] at hrefused
      cases hrefused
    · exact hok
  have hrep := delivered_replaced hdigest hm c hfound
  have hobject := (Moves.tracked_some hfound).2
  have hrecorded := hrep.recorded hobject
  have hkey := Moves.applied_key c.update o
  have hfills : ∀ f, c.update.fill = some f → (exec (applyTradeUpdate c.update) o).2.fills = o.fills ++ [f] := by
    intro f hf
    rcases hx : exec (applyTradeUpdate c.update) o with ⟨x, o'⟩
    rw [hx] at htaken
    obtain rfl : x = .ok true := htaken
    cases outcome_of_exec hx with
    | booked _ g hg => simp [Option.some.inj (hf.symm.trans hg)]
    | moved _ hnone => rw [hnone] at hf; cases hf
  have hnamed : o.clientOrderId = c.update.clientOrderId := by
    obtain ⟨x, hx, hname⟩ := hm.keyed _ _ (Moves.tracked_some hfound).1
    rwa [Option.some.inj (hobject.symm.trans hx)]
  obtain ⟨added, hadded, -⟩ := hrep.heap
  obtain ⟨hlt, -⟩ := List.getElem?_eq_some_iff.1 hobject
  have hlast : deliveries w (before ++ [c]) s = delivered w c (deliveries w before s) := deliveries_append before [c]
  refine ⟨before, c, rest, exc, ref, _, hcalls, he, ?_, hkey.trans hnamed, fun f hf => ⟨?_, ?_⟩, ht ▸ deliveries_folds w _ s⟩
  · rw [ht, hlast, hadded, List.getElem?_append_left (by rwa [List.length_set]), List.getElem?_set_self hlt]
  · rw [hfills f hf]
    simp
  · rw [recordings_append, recordings, recordings, hrecorded, hfills f hf, List.drop_left]
    simp

end runs

open Tracking (runnerOf)
open ProtectionGaps (sentPurchase)

/-- A purchase of ten the venue has acknowledged. -/
def workingTen : Order := { sentPurchase "e-1" 10 with brokerOrderId := some "b-1" }

/-- The runner's books after a gap in the stream. -/
def afterGap : RunnerState Unit Unit Unit := { oneTracked with desk := { oneTracked.desk with heap := [workingTen] } }

/-- The venue's copy: four of it filled at a hundred. -/
def venueFour : Order :=
  { workingTen with
    id := "v-1"
    status := .partiallyFilled
    filledQty := 4
    avgFillPrice := some 100
    fills := [⟨"v-1", 1, 4, 100, 0, none⟩]
    filledAt := some 1 }

def gapReads : OrderReads := fun _ _ => .ok (some venueFour)

theorem afterGap_accounted : Accounted Coverage.tallyRouter afterGap := by
  refine (oneTracked_accounted.keeps (t := afterGap) (fun _ _ h => h) rfl fun ref o ho => ?_).accounted
  change [sentPurchase "e-1" 10][ref]? = some o at ho
  cases ref with
  | zero => exact ⟨workingTen, rfl, (Option.some.inj ho) ▸ rfl, (Option.some.inj ho) ▸ rfl, (Option.some.inj ho) ▸ rfl⟩
  | succ ref => cases ho

theorem afterGap_working : working afterGap = [(0, workingTen)] := rfl

theorem workingTen_comparable : Comparable workingTen venueFour ∧ Convergent workingTen venueFour := by
  refine ⟨⟨rfl, ⟨rfl, by decide +kernel, by simp [workingTen, sentPurchase], by decide +kernel, fun _ => rfl⟩, by decide +kernel,
    by decide +kernel, fun h => absurd h (by decide +kernel), fun _ => ⟨100, rfl, by decide +kernel⟩,
    by simp [workingTen, sentPurchase], fun _ => by decide +kernel⟩, ?_⟩
  unfold Convergent
  rw [if_pos (by decide +kernel)]
  exact ⟨rfl, .inl rfl⟩

/-- A catch-up after the gap. -/
def gapPass (config : StopConfig) : Except Exc ℕ × RunnerState Unit Unit Unit :=
  exec (catchUpOnOrders { runnerOf Coverage.tallyRouter with stopConfig := config } gapReads 2 "alpaca" (fun _ => none)
    fun _ => 3) afterGap

def fivePercent : StopConfig := { stopType := .fixedPct, value := some (1 / 20) }

/-- A stop that needs an average range. -/
def twoRanges : StopConfig := { stopType := .atr, multiplier := some 2 }

theorem caught_up_four : ∃ applied t, gapPass fivePercent = (.ok applied, t) ∧
    CaughtUpTo gapReads 2 "alpaca" 0 0 workingTen t ∧ told gapReads 0 workingTen = some venueFour := by
  have hok : (gapPass fivePercent).1.isOk = true := by decide +kernel
  rcases hx : gapPass fivePercent with ⟨x, t⟩
  rw [hx] at hok
  cases x with
  | error e => cases hok
  | ok applied => exact ⟨applied, t, rfl, (caught_up Coverage.tally_injective afterGap_accounted hx).1 0 0 workingTen rfl, rfl⟩

theorem caught_up_book_four : ∃ applied t, gapPass fivePercent = (.ok applied, t) ∧ t.desk.portfolio.cash = 1600 ∧
    (t.desk.portfolio.position "AAPL").qty = 4 := by
  have hok : (gapPass fivePercent).1.isOk = true := by decide +kernel
  rcases hx : gapPass fivePercent with ⟨x, t⟩
  rw [hx] at hok
  cases x with
  | error e => cases hok
  | ok applied =>
    have hone (e : Ref × Order) (he : e ∈ working afterGap) : e = (0, workingTen) := by
      rwa [afterGap_working, List.mem_singleton] at he
    obtain ⟨hcash, hqty⟩ := caught_up_book Coverage.tally_injective afterGap_accounted
      (fun e he => hone e he ▸ workingTen_comparable.1.booked)
      (fun i e he theirs htold => by
        obtain rfl := hone e (List.mem_of_getElem? he)
        obtain rfl : venueFour = theirs := Option.some.inj htold
        exact workingTen_comparable) hx
    exact ⟨applied, t, rfl, hcash.trans (by decide +kernel), (hqty "AAPL").trans (by decide +kernel)⟩

theorem catch_up_parks_four : ∃ e t, ∃ (c : Call) (exc : Exc), gapPass twoRanges = (.error e, t) ∧ e = parked c.update exc ∧
    ∃ (ref : Ref) (o : Order), t.desk.heap[ref]? = some o ∧ ∀ f, c.update.fill = some f → f ∈ o.fills := by
  have hraised : (gapPass twoRanges).1.isOk = false := by decide +kernel
  have hcash : (gapPass twoRanges).2.desk.portfolio.cash ≠ afterGap.desk.portfolio.cash := by decide +kernel
  rcases hx : gapPass twoRanges with ⟨x, t⟩
  rw [hx] at hraised hcash
  cases x with
  | ok applied => cases hraised
  | error e =>
    rcases catch_up_parks Coverage.tally_injective afterGap_accounted hx with ⟨hsame, -⟩ | h
    · exact absurd (by rw [hsame]) hcash
    · obtain ⟨_, c, _, exc, ref, o, -, he, hobject, -, hfills, -⟩ := h
      exact ⟨e, t, c, exc, rfl, he, ref, o, hobject, fun f hf => (hfills f hf).1⟩

end CatchUp
end Atp
