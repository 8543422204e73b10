import AlgoTrading.KillSwitch
import AlgoTrading.Position
/-!
# RiskEngine — the chain between a signal and the market

`risk/engine.py`, and from `risk/rules.py` the predicates every rule shares, the projection of the orders in flight and
the kill switch's rule.  The rules behind the kill switch are any list of checks over the limits and a state of their
own (clocks, counters, quotes); the engine is the same for all of them.
-/
namespace Atp

/-- The verdict of a rule.  Its quantity is positive: `shrink` builds no other. -/
structure RiskDecision where
  approved : Bool
  rule : String := ""
  reason : List Piece := []
  adjustedQty : Option { q : ℚ // 0 < q } := none
deriving DecidableEq

namespace RiskDecision

def allow : RiskDecision := { approved := true }

def deny (rule : String) (reason : List Piece) : RiskDecision := { approved := false, rule := rule, reason := reason }

/-- Approve, but only this much. -/
def shrink (rule : String) (reason : List Piece) (qty : ℚ) : Except Exc RiskDecision :=
  if h : qty ≤ 0 then .error ⟨.valueError, [.lit "a shrink must leave something to trade, got ", .dec qty]⟩
  else .ok { approved := true, rule := rule, reason := reason, adjustedQty := some ⟨qty, not_le.1 h⟩ }

end RiskDecision

/-- The books a rule measures: what everything committed would leave, what is held, and what works on each side. -/
structure RiskBooks where
  committed : Portfolio
  settled : Portfolio
  inFlight : Dict String (ℚ × ℚ) := .empty

/-- One independent check over the limits `L` and a state `σ`. -/
structure RiskRule (L σ : Type) where
  name : String
  check : Order → RiskBooks → L → σ → RiskDecision × σ

/-! ## What the rules share -/

/-- Whether this order shrinks the holding it touches, whatever its size. -/
def reducesPosition (o : Order) (p : Portfolio) : Bool :=
  match p.positions.get? o.symbol with
  | none => false
  | some q => if q.isFlat then false else if o.side = .sell then q.isLong else q.isShort

/-- Whether this order shrinks the holding toward flat without going past it. -/
def closesWithoutReversing (o : Order) (p : Portfolio) : Bool :=
  reducesPosition o p && decide (o.qty ≤ |p.held o.symbol|)

def referencePrice (symbol : String) (p : Portfolio) (limitPrice : Option ℚ) : Option ℚ :=
  match limitPrice with
  | some price => some price
  | none => (p.positions.get? symbol).bind Position.lastPrice

/-- One committed order, folded into the copied cash and positions: an unpriceable one still takes its quantity. -/
def commitOrder (p : Portfolio) (acc : ℚ × Dict String Position) (o : Order) : ℚ × Dict String Position :=
  let position := (acc.2.get? o.symbol).getD { symbol := o.symbol }
  let signed := o.remainingQty * o.side.sign
  let position := { position with qty := position.qty + signed }
  match referencePrice o.symbol p o.limitPrice with
  | none => (acc.1, acc.2.set o.symbol position)
  | some price =>
    (acc.1 - signed * price, acc.2.set o.symbol { position with lastPrice := position.lastPrice.or (some price) })

/-- **`project_pending`**: the book as it would stand if everything in flight filled, reductions not credited. -/
def projectPending (p : Portfolio) (pending : List Order) : Portfolio :=
  match pending.filter (fun o => decide (0 < o.remainingQty) && !reducesPosition o p) with
  | [] => p
  | committed =>
    let r := committed.foldl (commitOrder p) (p.cash, p.positions)
    { p with cash := r.1, positions := r.2 }

/-- One order of `in_flight_by_symbol`. -/
def addInFlight (totals : Dict String (ℚ × ℚ)) (o : Order) : Dict String (ℚ × ℚ) :=
  if o.remainingQty ≤ 0 then totals
  else
    let side := (totals.get? o.symbol).getD (0, 0)
    match o.side with
    | .buy => totals.set o.symbol (side.1 + o.remainingQty, side.2)
    | .sell => totals.set o.symbol (side.1, side.2 + o.remainingQty)

/-- **`in_flight_by_symbol`**: per symbol, how much is still working on each side. -/
def inFlightBySymbol (pending : List Order) : Dict String (ℚ × ℚ) := pending.foldl addInFlight .empty

/-! ## The chain -/

section
variable {L σ : Type}

/-- The loop of `validate`: the first denial wins, and a shrink changes the order the later rules see. -/
def runRules (books : RiskBooks) (limits : L) :
    List (RiskRule L σ) → Order → Option { q : ℚ // 0 < q } → σ → RiskDecision × Order × σ
  | [], o, adjusted, s => ({ approved := true, adjustedQty := adjusted }, o, s)
  | r :: rules, o, adjusted, s =>
    let (d, s') := r.check o books limits s
    if !d.approved then (d, o, s')
    else match d.adjustedQty with
      | none => runRules books limits rules o adjusted s'
      | some q => runRules books limits rules { o with qty := q.1 } (some q) s'

/-- **`RiskEngine.validate`**: the verdict, the order as the chain left it, and the rules' state. -/
def validate (limits : L) (rules : List (RiskRule L σ)) (o : Order) (p : Portfolio) (pending : List Order) (s : σ) :
    RiskDecision × Order × σ :=
  runRules { committed := projectPending p pending, settled := p, inFlight := inFlightBySymbol pending } limits rules o
    none s

/-- **`KillSwitchRule.check`**: under a halt, only an order that closes what is held and stops there. -/
def killSwitchCheck (switch : HaltStore) (o : Order) (books : RiskBooks) : RiskDecision :=
  let state := switch.haltState o.strategyId (some o.symbol)
  if !state.engaged then .allow
  else if !reducesPosition o books.settled then .deny "kill_switch" [.lit "trading is halted"]
  else if state.positionIsUnproven o.symbol then
    .deny "kill_switch" [.lit "trading is halted and ", .lit o.symbol, .lit "'s quantity is unproven — the ",
      .lit "platform cannot size an exit against a position it cannot confirm. ",
      .lit "Close it through the broker's own UI"]
  else if !closesWithoutReversing o books.settled then
    .deny "kill_switch" [.lit "trading is halted — ", .dec o.qty, .lit " against ", .dec |books.settled.held o.symbol|,
      .lit " held in ", .lit o.symbol,
      .lit " would reverse the position rather than close it, and a halt permits only what reduces"]
  else .allow

def killSwitchRule (switch : HaltStore) : RiskRule L σ where
  name := "kill_switch"
  check o books _ s := (killSwitchCheck switch o books, s)

/-- Whatever the chain answers, it has changed nothing of the order but its size, and left a positive size positive. -/
theorem runRules_order (books : RiskBooks) (limits : L) : ∀ (rules : List (RiskRule L σ)) (o : Order)
    (adjusted : Option { q : ℚ // 0 < q }) (s : σ),
    ∃ q, (runRules books limits rules o adjusted s).2.1 = { o with qty := q } ∧ (0 < o.qty → 0 < q)
  | [], o, _, _ => ⟨o.qty, rfl, id⟩
  | r :: rules, o, adjusted, s => by
    unfold runRules
    cases hd : (r.check o books limits s).1.approved with
    | false => exact ⟨o.qty, by simp [hd], id⟩
    | true =>
      cases ha : (r.check o books limits s).1.adjustedQty with
      | none =>
        simp only [hd, ha]
        exact runRules_order books limits rules o adjusted _
      | some x =>
        simp only [hd, ha]
        obtain ⟨q, hq, hpos⟩ := runRules_order books limits rules { o with qty := x.1 } (some x)
          (r.check o books limits s).2
        exact ⟨q, hq, fun _ => hpos x.2⟩

/-- A rule that adjusts a size only downwards: "may shrink rather than refuse". -/
def RiskRule.OnlyShrinks (r : RiskRule L σ) : Prop :=
  ∀ o books limits s, ∀ q ∈ (r.check o books limits s).1.adjustedQty, q.1 ≤ o.qty

/-- A chain of shrinking rules never enlarges an order, and an adjusted size is the size the order is left with. -/
theorem runRules_shrinks (books : RiskBooks) (limits : L) : ∀ (rules : List (RiskRule L σ)) (o : Order)
    (adjusted : Option { q : ℚ // 0 < q }) (s : σ), (∀ r ∈ rules, r.OnlyShrinks) → (∀ q ∈ adjusted, q.1 = o.qty) →
    (runRules books limits rules o adjusted s).2.1.qty ≤ o.qty ∧
      ((runRules books limits rules o adjusted s).1.approved = true →
        ∀ q ∈ (runRules books limits rules o adjusted s).1.adjustedQty,
          q.1 = (runRules books limits rules o adjusted s).2.1.qty)
  | [], o, _, _, _, hadj => ⟨le_refl _, fun _ => hadj⟩
  | r :: rules, o, adjusted, s, hr, hadj => by
    have hrules : ∀ r' ∈ rules, r'.OnlyShrinks := fun r' h' => hr r' (List.mem_cons_of_mem _ h')
    unfold runRules
    cases hd : (r.check o books limits s).1.approved with
    | false => simp [hd]
    | true =>
      cases ha : (r.check o books limits s).1.adjustedQty with
      | none =>
        simp only [hd, ha]
        exact runRules_shrinks books limits rules o adjusted _ hrules hadj
      | some x =>
        simp only [hd, ha]
        obtain ⟨hle, hq⟩ := runRules_shrinks books limits rules { o with qty := x.1 } (some x)
          (r.check o books limits s).2 hrules (by simp)
        exact ⟨hle.trans (hr r (by simp) o books limits s x ha), hq⟩

/-- What a chain leaves of an order: its size alone is changed, and upwards only by a rule that does not shrink. -/
theorem validate_order (limits : L) (rules : List (RiskRule L σ)) (o : Order) (p : Portfolio) (pending : List Order) (s : σ) :
    ∃ q, (validate limits rules o p pending s).2.1 = { o with qty := q } ∧ (0 < o.qty → 0 < q) ∧
      ((∀ rule ∈ rules, rule.OnlyShrinks) → q ≤ o.qty) := by
  unfold validate
  obtain ⟨q, ho, hpos⟩ := runRules_order ⟨projectPending p pending, p, inFlightBySymbol pending⟩ limits rules o none s
  refine ⟨q, ho, hpos, fun hrules => ?_⟩
  have hle := (runRules_shrinks ⟨projectPending p pending, p, inFlightBySymbol pending⟩ limits rules o none s hrules (by simp)).1
  rwa [ho] at hle

/-- **What a chain of shrinking rules leaves of an order**: its size alone is changed, and never upwards. -/
theorem validate_shrinks (limits : L) {rules : List (RiskRule L σ)} (hrules : ∀ r ∈ rules, r.OnlyShrinks) (o : Order)
    (p : Portfolio) (pending : List Order) (s : σ) (hq : 0 < o.qty) :
    ∃ q, 0 < q ∧ q ≤ o.qty ∧ (validate limits rules o p pending s).2.1 = { o with qty := q } ∧
      ((validate limits rules o p pending s).1.approved = true →
        ∀ x ∈ (validate limits rules o p pending s).1.adjustedQty, x.1 = q) := by
  obtain ⟨q, ho, hpos, hle⟩ := validate_order limits rules o p pending s
  refine ⟨q, hpos hq, hle hrules, ho, ?_⟩
  have hadj := (runRules_shrinks ⟨projectPending p pending, p, inFlightBySymbol pending⟩ limits rules o none s hrules (by simp)).2
  unfold validate at ho ⊢
  rwa [ho] at hadj

/-- Under a halt the kill switch lets through only what closes the settled holding without reversing it. -/
theorem killSwitchCheck_halted {switch : HaltStore} {o : Order} {books : RiskBooks}
    (hh : (switch.haltState o.strategyId (some o.symbol)).engaged = true)
    (ha : (killSwitchCheck switch o books).approved = true) :
    closesWithoutReversing o books.settled = true ∧
      (switch.haltState o.strategyId (some o.symbol)).positionIsUnproven o.symbol = false := by
  unfold killSwitchCheck at ha
  cases hr : reducesPosition o books.settled with
  | false => simp [hh, hr, RiskDecision.deny] at ha
  | true =>
    cases hu : (switch.haltState o.strategyId (some o.symbol)).positionIsUnproven o.symbol with
    | true => simp [hh, hr, hu, RiskDecision.deny] at ha
    | false =>
      cases hc : closesWithoutReversing o books.settled with
      | false => simp [hh, hr, hu, hc, RiskDecision.deny] at ha
      | true => exact ⟨rfl, rfl⟩

/-- **What an approval under a halt says**: the order closes the settled holding without reversing it, and leaves the
chain with a positive size and everything else as it was. -/
theorem validate_halted {limits : L} {switch : HaltStore} {rest : List (RiskRule L σ)} {o o' : Order} {p : Portfolio}
    {pending : List Order} {s s' : σ} {d : RiskDecision}
    (hh : (switch.haltState o.strategyId (some o.symbol)).engaged = true) (hq : 0 < o.qty)
    (hv : validate limits (killSwitchRule switch :: rest) o p pending s = (d, o', s')) (ha : d.approved = true) :
    closesWithoutReversing o p = true ∧ ∃ q, 0 < q ∧ o' = { o with qty := q } := by
  obtain ⟨q, ho, hpos, -⟩ := validate_order limits (killSwitchRule switch :: rest) o p pending s
  rw [hv] at ho
  unfold validate at hv
  refine ⟨?_, q, hpos hq, ho⟩
  cases hk : (killSwitchCheck switch o ⟨projectPending p pending, p, inFlightBySymbol pending⟩).approved with
  | true => exact (killSwitchCheck_halted hh hk).1
  | false =>
    have hd : (runRules _ limits (killSwitchRule switch :: rest) o none s).1 = d := congrArg Prod.fst hv
    have : d.approved = false := by
      rw [← hd]
      simp [runRules, killSwitchRule, hk]
    rw [ha] at this
    cases this

end

theorem reducesPosition_side {o : Order} {p : Portfolio} (h : reducesPosition o p = true) :
    p.held o.symbol ≠ 0 ∧ o.side = if 0 < p.held o.symbol then .sell else .buy := by
  unfold reducesPosition at h
  cases hg : p.positions.get? o.symbol with
  | none => simp [hg] at h
  | some q =>
    rw [Portfolio.held_eq p hg]
    simp only [hg, Position.isFlat, Position.isLong, Position.isShort] at h
    by_cases h0 : q.qty = 0
    · simp [h0] at h
    refine ⟨h0, ?_⟩
    cases hs : o.side with
    | sell =>
      simp only [h0, hs, decide_false, Bool.false_eq_true, if_false, if_true, decide_eq_true_eq] at h
      rw [if_pos h]
    | buy =>
      simp only [h0, hs, decide_false, Bool.false_eq_true, if_false, reduceCtorEq, decide_eq_true_eq] at h
      rw [if_neg (not_lt.2 h.le)]

/-! ## What is in flight, as totals -/

/-- How much of a symbol works on one side. -/
def workingOn (side : Side) (symbol : String) (l : List Order) : ℚ :=
  (l.map (fun o => if o.symbol = symbol ∧ o.side = side ∧ 0 < o.remainingQty then o.remainingQty else 0)).sum

@[simp] theorem workingOn_nil (side : Side) (symbol : String) : workingOn side symbol [] = 0 := rfl

theorem workingOn_cons (side : Side) (symbol : String) (o : Order) (l : List Order) :
    workingOn side symbol (o :: l) =
      (if o.symbol = symbol ∧ o.side = side ∧ 0 < o.remainingQty then o.remainingQty else 0)
        + workingOn side symbol l := by
  simp [workingOn]

theorem workingOn_append (side : Side) (s : String) (l m : List Order) :
    workingOn side s (l ++ m) = workingOn side s l + workingOn side s m := by
  simp [workingOn]

theorem workingOn_nonneg (side : Side) (s : String) (l : List Order) : 0 ≤ workingOn side s l := by
  refine List.sum_nonneg fun x hx => ?_
  obtain ⟨o, -, rfl⟩ := List.mem_map.1 hx
  split
  · rename_i h
    exact h.2.2.le
  · exact le_refl 0

theorem addInFlight_get (totals : Dict String (ℚ × ℚ)) (o : Order) (symbol : String) :
    ((addInFlight totals o).get? symbol).getD (0, 0) =
      (((totals.get? symbol).getD (0, 0)).1 + workingOn .buy symbol [o],
        ((totals.get? symbol).getD (0, 0)).2 + workingOn .sell symbol [o]) := by
  unfold addInFlight
  simp only [workingOn_cons, workingOn_nil, add_zero]
  by_cases hr : o.remainingQty ≤ 0
  · simp [hr, not_lt.2 hr]
  · rw [if_neg hr]
    have hpos : 0 < o.remainingQty := not_le.1 hr
    by_cases hs : o.symbol = symbol
    · subst hs
      cases hside : o.side <;> simp [hpos]
    · cases hside : o.side <;> simp [hs, Dict.get?_set, Ne.symm hs]

theorem foldl_addInFlight (symbol : String) : ∀ (l : List Order) (totals : Dict String (ℚ × ℚ)),
    ((l.foldl addInFlight totals).get? symbol).getD (0, 0) =
      (((totals.get? symbol).getD (0, 0)).1 + workingOn .buy symbol l,
        ((totals.get? symbol).getD (0, 0)).2 + workingOn .sell symbol l)
  | [], totals => by simp
  | o :: l, totals => by
    rw [List.foldl_cons, foldl_addInFlight symbol l, addInFlight_get]
    simp only [workingOn_cons, workingOn_nil, add_zero, add_assoc]

/-- **`in_flight_by_symbol` is the totals of what works**, a symbol without an entry having none. -/
theorem inFlightBySymbol_get (l : List Order) (symbol : String) :
    ((inFlightBySymbol l).get? symbol).getD (0, 0) = (workingOn .buy symbol l, workingOn .sell symbol l) := by
  unfold inFlightBySymbol
  rw [foldl_addInFlight]
  simp

end Atp
