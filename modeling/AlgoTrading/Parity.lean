import AlgoTrading.Coverage
import AlgoTrading.Levels
/-!
# Parity — one purchase, armed by the backtest and by the router

Same-side entry fills of one symbol, booked by the backtest (`_execute`, `_arm_from_config`) and by the live path
(`submit_protective_orders`) side by side.  Both arm a position's first fill from flat alike; the scale-ins that follow are
armed alike as long as they meet `Accord` (`armed_alike`).
-/
namespace Atp
namespace Parity

open Raising Runs Backtest Coverage
open Backtest.Levels (sideOf withLevels configStop configTarget armFromConfig_eq settledBy bookFill_positions NoLooser calledFor)
open StopRatchet (OnSide placeStop_keeps)

variable {β L σ M ρ τ : Type} {r : OrderRouter β L σ} {eng : BacktestEngine M ρ τ} {bars : Dict String (List Bar)}

/-! ## What a placement arms -/

/-- The position `submit_protective_orders` leaves: the levels it calls for armed, or nothing where it cannot tell them. -/
def routed (r : OrderRouter β L σ) (entry : Order) (p : Position) (asked : Option ℚ × Option ℚ) (config : Option StopConfig)
    (atr : Option ℚ) : Position :=
  match r.requestedLevels entry p asked config atr with
  | .ok levels => OrderRouter.armed p levels.1 levels.2
  | .error _ => p

def asked (d : Desk β σ) (id : String) : Option ℚ × Option ℚ := (d.requestedProtection.get? id).getD (none, none)

section
variable {d : Desk β σ} {entry : Order} {p : Position}

/-- Every child of a symbol is on one side. -/
def OneSided (d : Desk β σ) (symbol : String) (side : Side) : Prop :=
  ∀ ref ∈ refsOf d symbol, ∃ o, d.heap[ref]? = some o ∧ o.side = side

/-- With no stop left on the other side there is nothing to sweep, and the sweep does not raise. -/
theorem triple_sweepNothing {symbol : String} {closing : Side} (h : OneSided d symbol closing) :
    Triple (fun e => e = d) (r.cancelStaleProtection symbol closing) (fun _ => Swept d symbol closing) (fun _ _ => False) := by
  have hnone : (d.childRefs symbol).filter
      (fun c => !c.2.isComplete && decide (c.2.side ≠ closing) && c.2.brokerOrderId.isSome) = [] := by
    rw [List.filter_eq_nil_iff]
    rintro ⟨ref, o⟩ hc
    obtain ⟨ref', hr, ho⟩ := List.mem_filterMap.1 hc
    obtain ⟨o', ho', hpair⟩ := Option.map_eq_some_iff.1 ho
    cases hpair
    obtain ⟨o'', ho'', hside⟩ := h _ hr
    rw [ho', Option.some.injEq] at ho''
    simp [ho'', hside]
  have hswept := triple_cancelStaleProtection (r := r) (d := d) symbol closing
  unfold OrderRouter.cancelStaleProtection at hswept ⊢
  intro e he
  have hrun := hswept e he
  subst he
  simp only [exec_bind, exec_get, hnone, OrderRouter.cancelStale, exec_pure, exec_modify] at hrun ⊢
  exact hrun

/-- **What a placement arms**, when something is due: the levels it calls for, whether the stop is then placed or not. -/
theorem submitProtectiveOrders_routed (hp : d.portfolio.positions.get? entry.symbol = some p) (hopen : p.isFlat = false)
    (hparent : entry.parentOrderId = none) (hside : OneSided d entry.symbol (closingSide p)) (hdue : 0 < due d entry)
    (config : Option StopConfig) (atr : Option ℚ) :
    Triple (fun e => e = d) (r.submitProtectiveOrders entry config atr)
      (fun _ e => e.portfolio.position entry.symbol = routed r entry p (asked d entry.id) config atr)
      (fun _ e => e.portfolio.position entry.symbol = routed r entry p (asked d entry.id) config atr) := by
  unfold OrderRouter.submitProtectiveOrders
  refine triple_ite (fun h => by simp [hparent] at h) (fun _ => ?_)
  refine triple_get_bind fun d₀ h₀ => ?_
  subst h₀
  rw [hp]
  refine triple_ite (fun h => by simp [hopen] at h) (fun _ => ?_)
  refine triple_bind (triple_conseq (triple_sweepNothing hside) (fun _ h => h) (fun _ _ h => h) (fun _ _ h => h.elim)) fun _ => ?_
  refine triple_get_bind fun d₁ h₁ => ?_
  obtain ⟨b, children, hd₁⟩ := h₁.rest
  have hcovered : d₁.covered = d₀.covered := by rw [hd₁]
  have hrequested : d₁.requestedProtection = d₀.requestedProtection := by rw [hd₁]
  have hbook : d₁.portfolio = d₀.portfolio := by rw [hd₁]
  have hinc : min (entry.filledQty - (d₁.covered.get? entry.id).getD 0)
      (|p.qty| - d₁.protectedQty entry.symbol (closingSide p)) = due d₀ entry := by
    rw [protectedQty_eq, h₁.covering, ← protectedQty_eq, hcovered]
    unfold due
    simp [hparent, hp, hopen, increment]
  have hposition : d₁.portfolio.position entry.symbol = p := by simp [hbook, Portfolio.position, hp]
  refine triple_ite (fun h => absurd h ?_) (fun _ => ?_)
  · rw [hinc]
    exact not_le.2 hdue
  unfold routed
  rw [hrequested]
  refine triple_bind (R := fun levels e => e = d₁ ∧ r.requestedLevels entry p (asked d₀ entry.id) config atr = .ok levels)
    (triple_fromExcept _ (fun levels hl e he => ⟨he, hl⟩) (fun exc hexc e he => ?_)) ?_
  · have hexc : r.requestedLevels entry p (asked d₀ entry.id) config atr = .error exc := hexc
    rw [hexc, he, hposition]
  rintro ⟨stop, target⟩
  refine triple_at fun e he => ?_
  obtain ⟨rfl, hlevels⟩ := he
  rw [hlevels]
  let b' := e.portfolio.setPosition entry.symbol (OrderRouter.armed p stop target)
  have harmed (e : Desk β σ) (he : e.portfolio = b') :
      e.portfolio.position entry.symbol = OrderRouter.armed p stop target := by
    rw [he]
    simp [b', Portfolio.position, Portfolio.setPosition]
  refine triple_bind (R := fun _ e => e.portfolio = b') (triple_modify _ fun e he => by rw [he]; rfl) fun _ => ?_
  cases stop with
  | none => exact triple_pure _ harmed
  | some level =>
    refine triple_ite (fun _ => triple_pure _ harmed) (fun _ => ?_)
    exact triple_conseq (placeStop_keeps (b := b') _ _ _ _ _) (fun _ h => h) (fun _ e h => harmed e h) (fun _ e h => harmed e h)

end

/-! ## The two sides of one fill -/

/-- The backtest, and the desk of the live path with its entries. -/
structure Pair (β σ ρ τ : Type) where
  engine : EngineState ρ τ
  ledger : Ledger β σ

variable {x y : Pair β σ ρ τ} {o : Order} {f : Fill} {symbol : String} {long : Bool}

def entrySide (long : Bool) : Side := if long then .buy else .sell

def exitSide (long : Bool) : Side := if long then .sell else .buy

/-- The live side of a fill: the entry and the book take it. -/
def taken (s : Ledger β σ) (o : Order) (f : Fill) (b : Portfolio) : Ledger β σ :=
  { s with desk := { s.desk with portfolio := b }, entries := s.entries.set o.id (o.accumulate f) }

variable (r eng bars) in
/-- A fill of an entry: `_execute` books it, and the live path takes it and calls `submit_protective_orders`. -/
def filled (x : Pair β σ ρ τ) (o : Order) (f : Fill) : Except Exc (Pair β σ ρ τ) := do
  let entry ← o.applyFill f
  let engine ← bookFill eng bars o f x.engine
  let b ← x.ledger.desk.portfolio.applyToPortfolio o f
  return ⟨engine, called r (taken x.ledger o f b) entry eng.stopConfig (atrOf eng bars x.engine o.symbol)⟩

variable (r eng bars symbol long) in
/-- A same-side entry fill: both sides are asked for the same levels, the venue's tick rounds none away, and the market has
passed none. -/
structure Carried (x : Pair β σ ρ τ) (o : Order) (f : Fill) : Prop where
  named : o.symbol = symbol
  side : o.side = entrySide long
  entry : o.parentOrderId = none
  levels : ∀ levels, x.engine.protection.get? o.id = some levels → asked x.ledger.desk o.id = levels
  usable : ∀ stop, OrderRouter.stopLevel (o.accumulate f) (asked x.ledger.desk o.id).1 eng.stopConfig
      (atrOf eng bars x.engine o.symbol) = .ok (some stop) →
    (r.instrument symbol).roundPrice stop (if exitSide long = .sell then .floor else .ceiling) = stop ∧
      protects (settledBy x.engine o f) stop = true
  unpassed : ∀ level, (settledBy x.engine o f).stopLossPrice = some level → protects (settledBy x.engine o f) level = true

inductive Deal
  | filled (id : String) (fill : Fill)
  | aside

variable (r eng bars symbol long) in
/-- An entry fill; or anything that leaves both books, the children and the covered totals alone: orders sent and refused,
news of other orders, the halts, the clock. -/
inductive Step : Pair β σ ρ τ → Deal → Pair β σ ρ τ → Prop
  | filled {x y : Pair β σ ρ τ} {id : String} {o : Order} {f : Fill} : x.ledger.entries.get? id = some o →
      Carried r eng bars symbol long x o f → filled r eng bars x o f = .ok y → Step x (.filled id f) y
  | aside {x y : Pair β σ ρ τ} : y.engine.portfolio = x.engine.portfolio →
      y.ledger.desk.portfolio = x.ledger.desk.portfolio → y.ledger.desk.protective = x.ledger.desk.protective →
      (∃ l, y.ledger.desk.heap = x.ledger.desk.heap ++ l) → y.ledger.desk.covered = x.ledger.desk.covered →
      y.ledger.parts = x.ledger.parts → Filled x.ledger.entries y.ledger.entries → Step x .aside y

/-! ## When both arm alike -/

section
variable (eng bars)

/-- What the live path derives a level from, where the request brings none. -/
def stopFor (x : Pair β σ ρ τ) (o : Order) (f : Fill) : Except Exc (Option ℚ) :=
  OrderRouter.stopLevel (o.accumulate f) (asked x.ledger.desk o.id).1 eng.stopConfig (atrOf eng bars x.engine o.symbol)

def targetFor (x : Pair β σ ρ τ) (o : Order) (f : Fill) : Except Exc (Option ℚ) :=
  OrderRouter.targetLevel (o.accumulate f) (asked x.ledger.desk o.id).2 eng.stopConfig

/-- The position a fill leaves, with the levels the backtest's order brings put on it. -/
def levelled (x : Pair β σ ρ τ) (o : Order) (f : Fill) : Position :=
  withLevels (settledBy x.engine o f) (x.engine.protection.get? o.id)

/-- Both levels can be told. -/
def told (x : Pair β σ ρ τ) (o : Order) (f : Fill) : Bool := (stopFor eng bars x o f).isOk && (targetFor eng x o f).isOk

/-- The levels of a fill that both sides can tell. -/
structure Matches (x : Pair β σ ρ τ) (o : Order) (f : Fill) : Prop where
  /-- Levels that come with an order are no looser than the stop that is armed, and for the target that is armed. -/
  own : ∀ levels, x.engine.protection.get? o.id = some levels →
    (∀ level, (settledBy x.engine o f).stopLossPrice = some level → NoLooser o.side (calledFor eng bars x.engine o f levels) level) ∧
      ∀ level, (settledBy x.engine o f).takeProfitPrice = some level →
        levels.2.or (configTarget eng (settledBy x.engine o f)) = some level
  /-- An order without levels is not called on for a tighter stop than the one armed, -/
  bare : x.engine.protection.get? o.id = none → ∀ level, (settledBy x.engine o f).stopLossPrice = some level →
    ∀ stop, stopFor eng bars x o f = .ok (some stop) → NoLooser o.side (some level) stop
  /-- nor for one of its own where none is armed. -/
  silent : x.engine.protection.get? o.id = none →
    ((settledBy x.engine o f).stopLossPrice = none → (asked x.ledger.desk o.id).1 = none) ∧
      ((settledBy x.engine o f).takeProfitPrice = none → (asked x.ledger.desk o.id).2 = none)
  /-- A level left to the configuration is derived from one price. -/
  stopPrice : eng.stopConfig.isSome = true → (levelled x o f).stopLossPrice = none →
    (o.accumulate f).avgFillPrice = some (settledBy x.engine o f).avgEntryPrice
  targetPrice : eng.stopConfig.any (fun c => c.stopType.fromEntry) = true → (levelled x o f).takeProfitPrice = none →
    (settledBy x.engine o f).takeProfitPrice = none →
      (o.accumulate f).avgFillPrice = some (settledBy x.engine o f).avgEntryPrice

/-- There is nothing for the backtest to arm. -/
structure Idle (x : Pair β σ ρ τ) (o : Order) (f : Fill) : Prop where
  own : x.engine.protection.get? o.id = none
  stop : (settledBy x.engine o f).stopLossPrice = none →
    configStop eng (atrOf eng bars x.engine o.symbol) (settledBy x.engine o f) = none
  target : (settledBy x.engine o f).takeProfitPrice = none → configTarget eng (settledBy x.engine o f) = none

/-- **When a fill is armed alike**: the levels match, or neither side has any to arm. -/
def Accord (x : Pair β σ ρ τ) : Deal → Prop
  | .filled id f => ∀ o, x.ledger.entries.get? id = some o →
      if told eng bars x o f then Matches eng bars x o f else Idle eng bars x o f
  | .aside => True

end

/-! ## One fill -/

theorem OnSide.signed {p : Position} (h : OnSide long p) : p.isFlat = false ∧ sideOf p = entrySide long ∧ closingSide p = exitSide long := by
  have hlong := h.isLong
  have hne : p.qty ≠ 0 := by
    unfold OnSide at h
    cases long with
    | true => exact ne_of_gt h
    | false => exact ne_of_lt h
  refine ⟨by simp [Position.isFlat, hne], ?_, ?_⟩
  · unfold sideOf entrySide
    rw [hlong]
  · unfold closingSide exitSide
    rw [hlong]

/-- A same-side fill leaves the position on its side, and larger by what filled. -/
theorem settled_onSide {p : Position} (hside : o.side = entrySide long) (hpos : 0 < f.qty) (hp : p.qty = 0 ∨ OnSide long p) :
    OnSide long (p.settled f (f.qty * o.side.sign)) ∧ |(p.settled f (f.qty * o.side.sign)).qty| = |p.qty| + f.qty := by
  unfold OnSide at hp ⊢
  rw [Position.settled_qty, hside]
  cases long with
  | true =>
    have hnn : 0 ≤ p.qty := hp.elim (fun h => h.ge) le_of_lt
    have hsum : 0 < p.qty + f.qty := by linarith
    simp [entrySide, Side.sign, abs_of_nonneg hnn, abs_of_pos hsum, hsum]
  | false =>
    have hnp : p.qty ≤ 0 := hp.elim (fun h => h.le) le_of_lt
    have hsum : p.qty + -f.qty < 0 := by linarith
    simp [entrySide, Side.sign, abs_of_nonpos hnp, abs_of_neg hsum, hsum]
    ring

section
variable {p : Position} {config : Option StopConfig} {atr : Option ℚ} {entry : Order}

/-- From one price, and on the side of the position, both derive one stop. -/
theorem stopLevel_eq {own stop : Option ℚ} (hopen : p.isFlat = false) (hside : sideOf p = entry.side)
    (hprice : eng.stopConfig.isSome = true → own = none → entry.avgFillPrice = some p.avgEntryPrice)
    (h : OrderRouter.stopLevel entry own eng.stopConfig atr = .ok stop) : stop = own.or (configStop eng atr p) := by
  unfold OrderRouter.stopLevel at h
  cases own with
  | some level => simpa using h.symm
  | none =>
    unfold configStop
    cases hc : eng.stopConfig with
    | none => simpa [hc] using h.symm
    | some c =>
      simp only [hc, hprice (by simp [hc]) rfl] at h
      cases hlevel : initialStop p.avgEntryPrice entry.side c atr with
      | error e => simp [hlevel] at h
      | ok level =>
        have htime : c.stopType ≠ .time := by
          intro ht
          simp [initialStop, ht] at hlevel
        rw [hlevel] at h
        simpa [hopen, htime, hside, hlevel, Except.toOption] using (Except.ok.inj h).symm

theorem targetLevel_eq {own target : Option ℚ} (hopen : p.isFlat = false) (hside : sideOf p = entry.side)
    (hprice : eng.stopConfig.any (fun c => c.stopType.fromEntry) = true → own = none →
      entry.avgFillPrice = some p.avgEntryPrice)
    (h : OrderRouter.targetLevel entry own eng.stopConfig = .ok target) : target = own.or (configTarget eng p) := by
  unfold OrderRouter.targetLevel at h
  cases own with
  | some level => simpa using h.symm
  | none =>
    unfold configTarget
    cases hc : eng.stopConfig with
    | none => simpa [hc] using h.symm
    | some c =>
      cases hfrom : c.stopType.fromEntry with
      | false =>
        have hnone : target = none := by
          cases ha : entry.avgFillPrice <;> simp [hc, ha, hfrom] at h <;> exact h.symm
        simp [hnone, hfrom]
      | true =>
        have htime : c.stopType ≠ .time := by
          intro ht
          simp [ht, StopType.fromEntry] at hfrom
        simp only [hc, hprice (by simp [hc, hfrom]) rfl, hfrom, if_true] at h
        cases hlevel : takeProfitLevel p.avgEntryPrice entry.side c with
        | error e => simp [hlevel] at h
        | ok level =>
          rw [hlevel] at h
          simpa [hopen, htime, hside, hlevel, hfrom, Except.toOption] using (Except.ok.inj h).symm

end

/-- The position a fill leaves, with levels armed on it as the backtest arms them. -/
theorem booked_eq {t : EngineState ρ τ} (h : bookFill eng bars o f x.engine = .ok t)
    (hopen : (settledBy x.engine o f).qty ≠ 0) : t.portfolio.position o.symbol =
      { settledBy x.engine o f with
        stopLossPrice := (levelled x o f).stopLossPrice.or
          (configStop eng (atrOf eng bars x.engine o.symbol) (settledBy x.engine o f))
        takeProfitPrice := (levelled x o f).takeProfitPrice.or (configTarget eng (settledBy x.engine o f)) } := by
  rw [(bookFill_positions h).1, if_neg hopen, armFromConfig_eq]
  unfold levelled
  cases x.engine.protection.get? o.id <;> rfl

/-- A stop that is no looser than the one armed takes its place. -/
theorem armed_stop {p : Position} {stop : Option ℚ} (hside : OnSide long p)
    (hunpassed : ∀ level, p.stopLossPrice = some level → protects p level = true)
    (h : ∀ level, p.stopLossPrice = some level → NoLooser (entrySide long) stop level) (target : Option ℚ) :
    (OrderRouter.armed p stop target).stopLossPrice = stop := by
  have hlong := hside.isLong
  cases hp : p.stopLossPrice with
  | none => cases stop <;> simp [OrderRouter.armed, tightestStop, hp]
  | some level =>
    obtain ⟨stop', rfl, hle⟩ := h level hp
    simp only [OrderRouter.armed, tightestStop, hp, hunpassed level hp, hlong, Bool.not_true, Bool.false_eq_true, if_false]
    cases long with
    | true => simpa [entrySide] using hle
    | false => simpa [entrySide] using hle

/-- A stop no tighter than the one armed leaves it. -/
theorem armed_kept {p : Position} {stop : Option ℚ} {level : ℚ} (hside : OnSide long p) (hp : p.stopLossPrice = some level)
    (hunpassed : protects p level = true) (h : ∀ stop', stop = some stop' → NoLooser (entrySide long) (some level) stop')
    (target : Option ℚ) : (OrderRouter.armed p stop target).stopLossPrice = some level := by
  have hlong := hside.isLong
  cases stop with
  | none => exact hp
  | some stop' =>
    obtain ⟨level', hlevel, hle⟩ := h stop' rfl
    rw [← Option.some.inj hlevel] at hle
    simp only [OrderRouter.armed, tightestStop, hp, hunpassed, hlong, Bool.not_true, Bool.false_eq_true, if_false]
    cases long with
    | true => simpa [entrySide] using hle
    | false => simpa [entrySide] using hle

/-- The stop both arm, where it can be told. -/
theorem arms_stop (hc : Carried r eng bars symbol long x o f) (hside : OnSide long (settledBy x.engine o f))
    (hm : Matches eng bars x o f) {stop : Option ℚ} (hs : stopFor eng bars x o f = .ok stop) (target : Option ℚ) :
    (OrderRouter.armed (settledBy x.engine o f) stop target).stopLossPrice =
      (levelled x o f).stopLossPrice.or (configStop eng (atrOf eng bars x.engine o.symbol) (settledBy x.engine o f)) := by
  obtain ⟨hopen, hsigned, -⟩ := OnSide.signed hside
  have hentry : sideOf (settledBy x.engine o f) = (o.accumulate f).side := by rw [hsigned, Order.accumulate_side, hc.side]
  have hprice := hm.stopPrice
  unfold levelled at hprice ⊢
  cases hown : x.engine.protection.get? o.id with
  | some levels =>
    rw [hown] at hprice
    have heq := stopLevel_eq hopen hentry (fun hsome hnone => hprice hsome (by rwa [hc.levels levels hown] at hnone)) hs
    rw [hc.levels levels hown] at heq
    have hcalled : calledFor eng bars x.engine o f levels = stop := heq.symm
    have hno := (hm.own levels hown).1
    rw [hcalled, hc.side] at hno
    rw [armed_stop hside hc.unpassed hno, heq]
    rfl
  | none =>
    rw [hown] at hprice
    show _ = (settledBy x.engine o f).stopLossPrice.or _
    cases hp : (settledBy x.engine o f).stopLossPrice with
    | some level =>
      have hno := hm.bare hown level hp
      rw [hc.side] at hno
      rw [Option.some_or]
      exact armed_kept hside hp (hc.unpassed level hp) (fun stop' hstop' => hno stop' (by rw [hs, hstop'])) target
    | none =>
      have heq := stopLevel_eq hopen hentry (fun hsome _ => hprice hsome hp) hs
      rw [(hm.silent hown).1 hp, Option.none_or] at heq
      rw [armed_stop hside hc.unpassed (fun level hl => by rw [hp] at hl; cases hl), heq, Option.none_or]

/-- The target both arm, where it can be told. -/
theorem arms_target (hc : Carried r eng bars symbol long x o f) (hside : OnSide long (settledBy x.engine o f))
    (hm : Matches eng bars x o f) {target : Option ℚ} (ht : targetFor eng x o f = .ok target) :
    (settledBy x.engine o f).takeProfitPrice.or target =
      (levelled x o f).takeProfitPrice.or (configTarget eng (settledBy x.engine o f)) := by
  obtain ⟨hopen, hsigned, -⟩ := OnSide.signed hside
  have hentry : sideOf (settledBy x.engine o f) = (o.accumulate f).side := by rw [hsigned, Order.accumulate_side, hc.side]
  have hprice := hm.targetPrice
  unfold levelled at hprice ⊢
  cases hown : x.engine.protection.get? o.id with
  | some levels =>
    show _ = levels.2.or _
    cases hp : (settledBy x.engine o f).takeProfitPrice with
    | some level => rw [(hm.own levels hown).2 level hp, Option.some_or]
    | none =>
      rw [hown] at hprice
      have heq := targetLevel_eq hopen hentry
        (fun hsome hnone => hprice hsome (by rwa [hc.levels levels hown] at hnone) hp) ht
      rw [hc.levels levels hown] at heq
      rw [heq, Option.none_or]
  | none =>
    show _ = (settledBy x.engine o f).takeProfitPrice.or _
    cases hp : (settledBy x.engine o f).takeProfitPrice with
    | some level => rw [Option.some_or, Option.some_or]
    | none =>
      rw [hown] at hprice
      have heq := targetLevel_eq hopen hentry (fun hsome _ => hprice hsome hp hp) ht
      rw [(hm.silent hown).2 hp, Option.none_or] at heq
      rw [heq]

theorem routed_told {entry : Order} {p : Position} {own : Option ℚ × Option ℚ} {config : Option StopConfig} {atr stop target : Option ℚ}
    (hs : OrderRouter.stopLevel entry own.1 config atr = .ok stop) (ht : OrderRouter.targetLevel entry own.2 config = .ok target) :
    routed r entry p own config atr = OrderRouter.armed p (r.usable entry p stop) target := by
  unfold routed OrderRouter.requestedLevels
  rw [hs, ht]
  rfl

theorem routed_untold {entry : Order} {p : Position} {own : Option ℚ × Option ℚ} {config : Option StopConfig} {atr : Option ℚ}
    (h : ((OrderRouter.stopLevel entry own.1 config atr).isOk && (OrderRouter.targetLevel entry own.2 config).isOk) = false) :
    routed r entry p own config atr = p := by
  unfold routed OrderRouter.requestedLevels
  cases hs : OrderRouter.stopLevel entry own.1 config atr with
  | error e => rfl
  | ok stop =>
    cases ht : OrderRouter.targetLevel entry own.2 config with
    | error e => rfl
    | ok target => simp [hs, ht, Except.isOk, Except.toBool] at h

/-- **One fill is armed alike** where it meets the condition. -/
theorem arms_alike {t : EngineState ρ τ} (hc : Carried r eng bars symbol long x o f)
    (hside : OnSide long (settledBy x.engine o f)) (h : bookFill eng bars o f x.engine = .ok t)
    (hfit : if told eng bars x o f then Matches eng bars x o f else Idle eng bars x o f) :
    routed r (o.accumulate f) (settledBy x.engine o f) (asked x.ledger.desk o.id) eng.stopConfig
      (atrOf eng bars x.engine o.symbol) = t.portfolio.position o.symbol := by
  obtain ⟨hopen, -, hclosing⟩ := OnSide.signed hside
  have hne : (settledBy x.engine o f).qty ≠ 0 := by simpa [Position.isFlat] using hopen
  rw [booked_eq h hne]
  cases htold : told eng bars x o f with
  | false =>
    rw [htold, if_neg Bool.false_ne_true] at hfit
    have hlevelled : levelled x o f = settledBy x.engine o f := by
      unfold levelled
      rw [hfit.own]
      rfl
    have hstop : (settledBy x.engine o f).stopLossPrice.or
        (configStop eng (atrOf eng bars x.engine o.symbol) (settledBy x.engine o f)) =
          (settledBy x.engine o f).stopLossPrice := by
      cases hp : (settledBy x.engine o f).stopLossPrice with
      | none => rw [hfit.stop hp, Option.none_or]
      | some level => rw [Option.some_or]
    have htarget : (settledBy x.engine o f).takeProfitPrice.or (configTarget eng (settledBy x.engine o f)) =
        (settledBy x.engine o f).takeProfitPrice := by
      cases hp : (settledBy x.engine o f).takeProfitPrice with
      | none => rw [hfit.target hp, Option.none_or]
      | some level => rw [Option.some_or]
    rw [routed_untold htold, hlevelled, hstop, htarget]
  | true =>
    rw [htold, if_pos rfl] at hfit
    unfold told at htold
    rw [Bool.and_eq_true] at htold
    cases hs : stopFor eng bars x o f with
    | error e => simp [hs, Except.isOk, Except.toBool] at htold
    | ok stop =>
      cases ht : targetFor eng x o f with
      | error e => simp [ht, Except.isOk, Except.toBool] at htold
      | ok target =>
        have husable : r.usable (o.accumulate f) (settledBy x.engine o f) stop = stop := by
          cases stop with
          | none => rfl
          | some level =>
            obtain ⟨hround, hprotects⟩ := hc.usable level hs
            unfold OrderRouter.usable
            rw [Order.accumulate_symbol, hc.named, hclosing, Option.map_some, hround]
            simp [Option.filter, hprotects]
        rw [routed_told hs ht, husable, ← arms_stop hc hside hfit hs target, ← arms_target hc hside hfit ht]
        rfl

/-! ## Any sequence of fills -/

variable (r symbol long) in
/-- **Both sides hold one position**, open on its side or flat, and no more works against it than it is large. -/
structure Twin (x : Pair β σ ρ τ) : Prop where
  kept : Kept r x.ledger
  same : x.engine.portfolio.position symbol = x.ledger.desk.portfolio.position symbol
  side : (x.engine.portfolio.position symbol).qty = 0 ∨ OnSide long (x.engine.portfolio.position symbol)
  oneSided : OneSided x.ledger.desk symbol (exitSide long)
  room : x.ledger.desk.protectedQty symbol (exitSide long) ≤ |(x.engine.portfolio.position symbol).qty|

theorem filled_ok (h : filled r eng bars x o f = .ok y) : 0 < f.qty ∧ ∃ t b, bookFill eng bars o f x.engine = .ok t ∧
    x.ledger.desk.portfolio.applyToPortfolio o f = .ok b ∧
      y = ⟨t, called r (taken x.ledger o f b) (o.accumulate f) eng.stopConfig (atrOf eng bars x.engine o.symbol)⟩ := by
  unfold filled at h
  simp only [bind, Except.bind, pure, Except.pure] at h
  cases ho : o.applyFill f with
  | error e => simp [ho] at h
  | ok entry =>
    obtain ⟨hpos, -, rfl⟩ := Order.applyFill_ok.1 ho
    cases ht : bookFill eng bars o f x.engine with
    | error e => simp [ho, ht] at h
    | ok t =>
      cases hb : x.ledger.desk.portfolio.applyToPortfolio o f with
      | error e => simp [ho, ht, hb] at h
      | ok b =>
        simp only [ho, ht, hb, Except.ok.injEq] at h
        exact ⟨hpos, t, b, rfl, rfl, h.symm⟩

theorem applyToPortfolio_position {b b' : Portfolio} (h : b.applyToPortfolio o f = .ok b') :
    b'.positions.get? o.symbol = some ((b.position o.symbol).settled f (f.qty * o.side.sign)) := by
  unfold Portfolio.applyToPortfolio at h
  cases hf : (b.position o.symbol).applyFill f (f.qty * o.side.sign) with
  | error e => simp [hf] at h
  | ok a =>
    obtain ⟨q, realized⟩ := a
    obtain ⟨-, -, -, rfl, -⟩ := Position.applyFill_ok.1 hf
    simp only [hf, Except.ok.injEq] at h
    rw [← h]
    simp [Portfolio.setPosition]

/-- The live side takes a fill of an entry it has. -/
theorem taken_kept (hrules : ∀ rule ∈ r.rules, rule.OnlyShrinks) {s : Ledger β σ} (hs : Kept r s) {id : String} {b : Portfolio}
    (hg : s.entries.get? id = some o) (hpos : 0 < f.qty) : Kept r (taken s o f b) := by
  have hid : o.id = id := hs.named id o hg
  subst hid
  refine step_kept hrules hs (.other rfl rfl hs.grounded ⟨fun id entry he => ?_, fun id entry he => ?_⟩)
  · unfold taken
    rw [Dict.get?_set]
    by_cases h : id = o.id
    · subst h
      rw [hg, Option.some.injEq] at he
      refine ⟨o.accumulate f, if_pos rfl, ?_⟩
      rw [Order.accumulate_filledQty, he]
      exact le_add_of_nonneg_right hpos.le
    · exact ⟨entry, by rw [if_neg h, he], le_rfl⟩
  · unfold taken at he
    rw [Dict.get?_set] at he
    by_cases h : id = o.id
    · rw [if_pos h, Option.some.injEq] at he
      rw [← he, Order.accumulate_id, Order.accumulate_filledQty]
      exact ⟨h.symm, add_nonneg (hs.filled_nonneg hg) hpos.le⟩
    · rw [if_neg h] at he
      exact ⟨hs.named id entry he, hs.filled_nonneg he⟩

/-- **One fill keeps both sides together.** -/
theorem filled_twin (hrules : ∀ rule ∈ r.rules, rule.OnlyShrinks) (hx : Twin r symbol long x) {id : String}
    (hg : x.ledger.entries.get? id = some o) (hc : Carried r eng bars symbol long x o f)
    (hfit : if told eng bars x o f then Matches eng bars x o f else Idle eng bars x o f)
    (h : filled r eng bars x o f = .ok y) : Twin r symbol long y := by
  obtain ⟨hpos, t, b, ht, hb, rfl⟩ := filled_ok h
  have hnamed := hc.named
  subst hnamed
  let p := settledBy x.engine o f
  let s := taken x.ledger o f b
  let entry := o.accumulate f
  have hid : o.id = id := hx.kept.named id o hg
  have hsymbol : entry.symbol = o.symbol := Order.accumulate_symbol o f
  have hentryid : entry.id = o.id := Order.accumulate_id o f
  have hp : s.desk.portfolio.positions.get? entry.symbol = some p := by
    rw [hsymbol]
    show b.positions.get? o.symbol = _
    rw [applyToPortfolio_position hb, ← hx.same]
    rfl
  obtain ⟨hside, hlarger⟩ : OnSide long p ∧ |p.qty| = |(x.engine.portfolio.position o.symbol).qty| + f.qty :=
    settled_onSide hc.side hpos hx.side
  obtain ⟨hopen, -, hclosing⟩ := OnSide.signed hside
  have hkept : Kept r s := taken_kept hrules hx.kept hg hpos
  have hposition : s.desk.portfolio.position entry.symbol = p := by simp [Portfolio.position, hp]
  have hclose : closingOf s.desk entry = exitSide long := by rw [closingOf, hposition, hclosing]
  have hcover : coverOf s.desk entry ≤ |(x.engine.portfolio.position o.symbol).qty| := by
    unfold coverOf
    rw [hclose, hsymbol]
    exact hx.room
  have hparent : entry.parentOrderId = none := (Order.accumulate_parentOrderId o f).trans hc.entry
  have hdue : 0 < due s.desk entry := by
    have hcovered : coveredOf s.desk entry ≤ o.filledQty := by
      have htotal := hx.kept.covered id o hg
      rw [← hid] at htotal
      unfold coveredOf
      rw [hentryid]
      exact htotal
    rw [due_open (by rw [hparent]; rfl) hp hopen, show entry.filledQty = o.filledQty + f.qty from Order.accumulate_filledQty o f]
    apply lt_min <;> linarith
  have hchildren : OneSided s.desk entry.symbol (closingSide p) := by
    rw [hclosing, hsymbol]
    exact hx.oneSided
  obtain ⟨hcalled, -⟩ := called_spec hrules hkept.grounded entry eng.stopConfig (atrOf eng bars x.engine o.symbol)
  have hentry : s.entries.get? id = some entry := by
    rw [← hid]
    exact Dict.get?_set_self _ _ _
  have hbooked : t.portfolio.position o.symbol = (called r s entry eng.stopConfig
      (atrOf eng bars x.engine o.symbol)).desk.portfolio.position o.symbol := by
    have hrouted := triple_left (submitProtectiveOrders_routed (r := r) hp hopen hparent hchildren hdue eng.stopConfig
      (atrOf eng bars x.engine o.symbol)) rfl
    rw [hsymbol, hentryid] at hrouted
    rw [← arms_alike hc hside ht hfit]
    exact hrouted.symm
  have hqty : (t.portfolio.position o.symbol).qty = p.qty := by
    rw [booked_eq ht (by simpa [Position.isFlat] using hopen)]
  refine ⟨hcalled.kept hkept hentry rfl rfl, hbooked, .inr ?_, ?_, ?_⟩
  · unfold OnSide
    rw [hqty]
    exact hside
  · intro ref hr
    have hr : ref ∈ refsOf (called r s entry eng.stopConfig (atrOf eng bars x.engine o.symbol)).desk entry.symbol := by
      rw [hsymbol]
      exact hr
    rw [← hclose]
    rcases hcalled.frame.children ref hr with hold | hnew
    · obtain ⟨l, hl⟩ := hcalled.frame.heap
      obtain ⟨child, hchild, hcs⟩ := hchildren ref hold
      refine ⟨child, ?_, by rw [hcs, hclosing, hclose]⟩
      rw [hl, List.getElem?_append_left (hkept.grounded _ ref hold), hchild]
    · exact hnew
  · have hclosed : closingOf (called r s entry eng.stopConfig (atrOf eng bars x.engine o.symbol)).desk entry = exitSide long := by
      rw [← hclose]
      exact closingSide_qty (qty_position (hcalled.frame.position entry.symbol))
    have hle := hcalled.coverOf_le
    rw [hposition] at hle
    rw [coverOf, hclosed, hsymbol] at hle
    rw [hqty]
    exact hle.trans (max_le (by linarith) le_rfl)

theorem aside_twin (hrules : ∀ rule ∈ r.rules, rule.OnlyShrinks) (hx : Twin r symbol long x)
    (hengine : y.engine.portfolio = x.engine.portfolio) (hdesk : y.ledger.desk.portfolio = x.ledger.desk.portfolio)
    (hprotective : y.ledger.desk.protective = x.ledger.desk.protective)
    (hheap : ∃ l, y.ledger.desk.heap = x.ledger.desk.heap ++ l) (hcovered : y.ledger.desk.covered = x.ledger.desk.covered)
    (hparts : y.ledger.parts = x.ledger.parts) (hentries : Filled x.ledger.entries y.ledger.entries) :
    Twin r symbol long y := by
  obtain ⟨l, hl⟩ := hheap
  have hrefs (s : String) : refsOf y.ledger.desk s = refsOf x.ledger.desk s := by simp [refsOf, hprotective]
  have hground : Grounded y.ledger.desk := by
    intro s ref hr
    rw [hrefs] at hr
    rw [hl, List.length_append]
    exact (hx.kept.grounded s ref hr).trans_le (Nat.le_add_right _ _)
  refine ⟨step_kept hrules hx.kept (.other hparts hcovered hground hentries), ?_, ?_, ?_, ?_⟩
  · rw [hengine, hdesk]
    exact hx.same
  · rw [hengine]
    exact hx.side
  · intro ref hr
    rw [hrefs] at hr
    obtain ⟨o, ho, hside⟩ := hx.oneSided ref hr
    exact ⟨o, by rw [hl, List.getElem?_append_left (hx.kept.grounded _ ref hr), ho], hside⟩
  · rw [hengine, protectedQty_eq, hrefs, hl, covering_extend (hx.kept.grounded _), ← protectedQty_eq]
    exact hx.room

theorem step_twin (hrules : ∀ rule ∈ r.rules, rule.OnlyShrinks) (hx : Twin r symbol long x) {i : Deal}
    (hfit : Accord eng bars x i) (h : Step r eng bars symbol long x i y) : Twin r symbol long y := by
  cases h with
  | filled hg hc hf => exact filled_twin hrules hx hg hc (hfit _ hg) hf
  | aside hengine hdesk hprotective hheap hcovered hparts hentries =>
    exact aside_twin hrules hx hengine hdesk hprotective hheap hcovered hparts hentries

variable (symbol long) in
/-- Both sides hold one position, the same levels armed on it, and nothing the live path has covered is forgotten. -/
structure Begun (x : Pair β σ ρ τ) : Prop where
  fresh : Fresh x.ledger
  same : x.engine.portfolio.position symbol = x.ledger.desk.portfolio.position symbol
  side : (x.engine.portfolio.position symbol).qty = 0 ∨ OnSide long (x.engine.portfolio.position symbol)
  oneSided : OneSided x.ledger.desk symbol (exitSide long)
  room : x.ledger.desk.protectedQty symbol (exitSide long) ≤ |(x.engine.portfolio.position symbol).qty|

def levels (p : Position) : Option ℚ × Option ℚ := (p.stopLossPrice, p.takeProfitPrice)

/-- **Backtest and live arm the same protection**, in a run whose fills all accord. -/
theorem armed_alike (hrules : ∀ rule ∈ r.rules, rule.OnlyShrinks) (hx : Begun symbol long x) {l : List Deal}
    (h : Run (guarded (Step r eng bars symbol long) (Accord eng bars)) x l y) :
    levels (y.engine.portfolio.position symbol) = levels (y.ledger.desk.portfolio.position symbol) := by
  have hbegun : Twin r symbol long x := ⟨hx.fresh.kept, hx.same, hx.side, hx.oneSided, hx.room⟩
  have hy := run_guarded (Accord eng bars) (Twin r symbol long) (fun x i y hx hfit h => step_twin hrules hx hfit h) hbegun h
  rw [hy.same]

/-! ## Two purchases -/

open StopRatchet (openRouter bought)
open Backtest.Levels (tenAt)

def working (id : String) : Order := { bought id 10 100 with status := .submitted, filledQty := 0, avgFillPrice := none }

/-- Two purchases of ten sent: the first asks for a stop at 95, the second for the stop it is given, neither for a target. -/
def twoSent (second : ℚ) : Pair Unit Unit Unit ℕ :=
  let asked : Dict String (Option ℚ × Option ℚ) := (Dict.empty.set "e-1" (some 95, none)).set "e-2" (some second, none)
  { engine := { portfolio := { cash := 10000, startingEquity := 10000 }, protection := asked, rules := (), strategy := 0 }
    ledger :=
      { desk := { portfolio := { cash := 10000, startingEquity := 10000 }, broker := (), risk := (), requestedProtection := asked }
        entries := (Dict.empty.set "e-1" (working "e-1")).set "e-2" (working "e-2") } }

def filledFrom (x : Pair Unit Unit Unit ℕ) (id : String) (price : ℚ) : Pair Unit Unit Unit ℕ :=
  ((filled openRouter buyThenExit .empty x (working id) (tenAt (working id) price)).toOption).getD x

def oneFilled (second : ℚ) : Pair Unit Unit Unit ℕ := filledFrom (twoSent second) "e-1" 100

def bothFilled (second price : ℚ) : Pair Unit Unit Unit ℕ := filledFrom (oneFilled second) "e-2" price

theorem filledFrom_ok {x : Pair Unit Unit Unit ℕ} {id : String} {price : ℚ}
    (h : (filled openRouter buyThenExit .empty x (working id) (tenAt (working id) price)).isOk = true) :
    filled openRouter buyThenExit .empty x (working id) (tenAt (working id) price) = .ok (filledFrom x id price) := by
  unfold filledFrom
  cases hf : filled openRouter buyThenExit .empty x (working id) (tenAt (working id) price) with
  | ok y => rfl
  | error e => simp [hf, Except.isOk, Except.toBool] at h

theorem twoSent_begun (second : ℚ) : Begun "AAPL" true (twoSent second) := by
  refine ⟨⟨fun s ref hr => by simp [refsOf, twoSent] at hr, rfl, fun id entry h => ?_, rfl⟩, rfl, .inl rfl,
    fun ref hr => by simp [refsOf, twoSent] at hr, by simp [Desk.protectedQty, Desk.children, Desk.childRefs, twoSent]⟩
  simp only [twoSent, Dict.get?_set] at h
  split at h
  · rename_i hid
    rw [← Option.some.inj h]
    exact ⟨hid.symm, le_rfl⟩
  · split at h
    · rename_i hid
      rw [← Option.some.inj h]
      exact ⟨hid.symm, le_rfl⟩
    · cases h

/-- A purchase that brings a stop of its own is a step, where that stop and the one armed are below the market. -/
theorem purchase_step {x : Pair Unit Unit Unit ℕ} {id : String} {price : ℚ} (stop : ℚ)
    (hentry : x.ledger.entries.get? id = some (working id))
    (hasked : x.engine.protection.get? id = some (some stop, none)) (hlive : asked x.ledger.desk id = (some stop, none))
    (hround : (openRouter.instrument "AAPL").roundPrice stop .floor = stop)
    (hstop : protects (settledBy x.engine (working id) (tenAt (working id) price)) stop = true)
    (harmed : (settledBy x.engine (working id) (tenAt (working id) price)).stopLossPrice.all
      (protects (settledBy x.engine (working id) (tenAt (working id) price))) = true)
    (hok : (filled openRouter buyThenExit .empty x (working id) (tenAt (working id) price)).isOk = true) :
    Step openRouter buyThenExit .empty "AAPL" true x (.filled id (tenAt (working id) price)) (filledFrom x id price) := by
  refine .filled hentry ⟨rfl, rfl, rfl, fun levels hl => ?_, fun stop' hs => ?_, fun level hl => ?_⟩ (filledFrom_ok hok)
  · rw [show (working id).id = id from rfl, hasked] at hl
    rw [← Option.some.inj hl]
    exact hlive
  · rw [show (working id).id = id from rfl, hlive] at hs
    cases hs
    exact ⟨hround, hstop⟩
  · rw [hl] at harmed
    exact harmed

theorem purchase_matches {x : Pair Unit Unit Unit ℕ} {id : String} {price : ℚ} (stop : ℚ)
    (hasked : x.engine.protection.get? id = some (some stop, none))
    (hstop : (settledBy x.engine (working id) (tenAt (working id) price)).stopLossPrice.all (fun level => level ≤ stop) = true)
    (htarget : (settledBy x.engine (working id) (tenAt (working id) price)).takeProfitPrice.all (fun level =>
      configTarget buyThenExit (settledBy x.engine (working id) (tenAt (working id) price)) = some level) = true)
    (hprice : ((working id).accumulate (tenAt (working id) price)).avgFillPrice =
      some (settledBy x.engine (working id) (tenAt (working id) price)).avgEntryPrice ∨
        (settledBy x.engine (working id) (tenAt (working id) price)).takeProfitPrice ≠ none) :
    Matches buyThenExit .empty x (working id) (tenAt (working id) price) := by
  have hown : x.engine.protection.get? (working id).id = some (some stop, none) := hasked
  refine ⟨fun levels hl => ⟨fun level hlevel => ⟨stop, ?_, ?_⟩, fun level hlevel => ?_⟩, fun hnone => ?_, fun hnone => ?_,
    fun _ hnone => ?_, fun _ _ hnone => hprice.resolve_right (not_not.2 hnone)⟩
  · rw [hown, Option.some.injEq] at hl
    rw [← hl]
    rfl
  · rw [hlevel] at hstop
    exact of_decide_eq_true hstop
  · rw [hown, Option.some.injEq] at hl
    rw [← hl]
    rw [hlevel] at htarget
    exact of_decide_eq_true htarget
  · rw [hown] at hnone
    cases hnone
  · rw [hown] at hnone
    cases hnone
  · unfold levelled at hnone
    rw [hown] at hnone
    cases hnone

theorem purchase_accords {x : Pair Unit Unit Unit ℕ} {id : String} {price : ℚ}
    (hentry : x.ledger.entries.get? id = some (working id))
    (htold : told buyThenExit .empty x (working id) (tenAt (working id) price) = true)
    (h : Matches buyThenExit .empty x (working id) (tenAt (working id) price)) :
    Accord buyThenExit .empty x (.filled id (tenAt (working id) price)) := by
  intro o ho
  rw [hentry] at ho
  cases ho
  rw [if_pos htold]
  exact h

/-- Bought twice at 100, the second time with a stop at 97: both sides end with the stop there and the target at 105. -/
theorem armed_alike_twice : levels ((bothFilled 97 100).engine.portfolio.position "AAPL") = (some 97, some 105) ∧
    levels ((bothFilled 97 100).engine.portfolio.position "AAPL") =
      levels ((bothFilled 97 100).ledger.desk.portfolio.position "AAPL") := by
  have hfirst : Step openRouter buyThenExit .empty "AAPL" true (twoSent 97) (.filled "e-1" (tenAt (working "e-1") 100))
      (oneFilled 97) :=
    purchase_step 95 (by decide +kernel) (by decide +kernel) (by decide +kernel) (by decide +kernel)
      (by decide +kernel) (by decide +kernel) (by decide +kernel)
  have hsecond : Step openRouter buyThenExit .empty "AAPL" true (oneFilled 97) (.filled "e-2" (tenAt (working "e-2") 100))
      (bothFilled 97 100) :=
    purchase_step 97 (by decide +kernel) (by decide +kernel) (by decide +kernel) (by decide +kernel)
      (by decide +kernel) (by decide +kernel) (by decide +kernel)
  have hone : Accord buyThenExit .empty (twoSent 97) (.filled "e-1" (tenAt (working "e-1") 100)) :=
    purchase_accords (by decide +kernel) (by decide +kernel) (purchase_matches 95 (by decide +kernel)
      (by decide +kernel) (by decide +kernel) (.inl (by decide +kernel)))
  have htwo : Accord buyThenExit .empty (oneFilled 97) (.filled "e-2" (tenAt (working "e-2") 100)) :=
    purchase_accords (by decide +kernel) (by decide +kernel) (purchase_matches 97 (by decide +kernel)
      (by decide +kernel) (by decide +kernel) (.inr (by decide +kernel)))
  exact ⟨by decide +kernel, armed_alike (r := openRouter) (fun rule h => by cases h) (twoSent_begun 97)
    (.cons ⟨hfirst, hone⟩ (.cons ⟨hsecond, htwo⟩ (.nil _)))⟩

/-- **A scale-in parts the two**: bought at 100 and again at 110, each time with a stop at 95, the backtest's target is 110.25
and the live one 105; bought again at 98 with a stop at 93.10, the backtest's stop is there and the live one at 95. -/
theorem scale_in_parts : (¬ ∀ (r : OrderRouter Unit Unit Unit) (eng : BacktestEngine Unit Unit ℕ) (bars : Dict String (List Bar))
      (symbol : String) (long : Bool) (x y : Pair Unit Unit Unit ℕ) (l : List Deal), (∀ rule ∈ r.rules, rule.OnlyShrinks) →
        Begun symbol long x → Run (Step r eng bars symbol long) x l y →
          levels (y.engine.portfolio.position symbol) = levels (y.ledger.desk.portfolio.position symbol)) ∧
    levels ((bothFilled 95 110).engine.portfolio.position "AAPL") = (some 95, some (441 / 4)) ∧
    levels ((bothFilled 95 110).ledger.desk.portfolio.position "AAPL") = (some 95, some 105) ∧
    levels ((bothFilled (931 / 10) 98).engine.portfolio.position "AAPL") = (some (931 / 10), some (2079 / 20)) ∧
    levels ((bothFilled (931 / 10) 98).ledger.desk.portfolio.position "AAPL") = (some 95, some 105) := by
  refine ⟨fun h => ?_, by decide +kernel⟩
  have hfirst : Step openRouter buyThenExit .empty "AAPL" true (twoSent 95) (.filled "e-1" (tenAt (working "e-1") 100))
      (oneFilled 95) :=
    purchase_step 95 (by decide +kernel) (by decide +kernel) (by decide +kernel) (by decide +kernel)
      (by decide +kernel) (by decide +kernel) (by decide +kernel)
  have hsecond : Step openRouter buyThenExit .empty "AAPL" true (oneFilled 95) (.filled "e-2" (tenAt (working "e-2") 110))
      (bothFilled 95 110) :=
    purchase_step 95 (by decide +kernel) (by decide +kernel) (by decide +kernel) (by decide +kernel)
      (by decide +kernel) (by decide +kernel) (by decide +kernel)
  have hsame := h openRouter buyThenExit .empty "AAPL" true (twoSent 95) (bothFilled 95 110) _ (fun rule h => by cases h)
    (twoSent_begun 95) (.cons hfirst (.cons hsecond (.nil _)))
  exact absurd hsame (by decide +kernel)

end Parity
end Atp
