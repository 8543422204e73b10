import AlgoTrading.BarFills
import AlgoTrading.OrderFates
/-!
# TouchRule — the price an order touches on a bar, and the engine's own exits by it

`intended_price` answers for a market, a limit and a stop order, within the bar and on the right side of the level.  The
engine settles its stops and targets by a second copy of that arithmetic: `dueExit_intended` says the copies agree.
-/
namespace Atp

/-- The level a resting order waits at. -/
def levelOf (o : Order) : Option ℚ :=
  match o.orderType with
  | .limit => o.limitPrice
  | .stop => o.stopPrice
  | _ => none

/-- A sell limit and a buy stop are reached by the bar's high, a buy limit and a sell stop by its low. -/
def fromBelow (o : Order) : Bool := decide (o.orderType = .limit) == decide (o.side = .sell)

/-- The order waits at a level beyond the bar's extreme on its side. -/
def Beyond (o : Order) (bar : Bar) : Prop :=
  ∃ level, levelOf o = some level ∧ if fromBelow o then bar.high < level else level < bar.low

/-- An order the rule answers for: of a type it models, with the price its type needs. -/
def Touchable (o : Order) : Prop :=
  (o.orderType = .market ∨ o.orderType = .limit ∨ o.orderType = .stop) ∧ o.postInit = .ok o

theorem Touchable.cases {o : Order} (h : Touchable o) :
    o.orderType = .market ∨ (o.orderType = .limit ∧ ∃ l, o.limitPrice = some l) ∨
      (o.orderType = .stop ∧ ∃ l, o.stopPrice = some l) := by
  obtain ⟨-, -, hlimit, hstop⟩ := Order.postInit_ok h.2
  rcases h.1 with htype | htype | htype
  · exact .inl htype
  · exact .inr (.inl ⟨htype, Option.ne_none_iff_exists'.1 (hlimit (.inl htype))⟩)
  · exact .inr (.inr ⟨htype, Option.ne_none_iff_exists'.1 (hstop (.inl htype))⟩)

/-- **What a touch is**, by cases: a market order at the open; a resting one, once reached, at the open or at its level,
whichever the market came to first. -/
theorem Touchable.intendedPrice {o : Order} (h : Touchable o) (bar : Bar) (through : Bool) :
    intendedPrice o bar through = .ok (match levelOf o with
      | none => some bar.open
      | some level =>
        if fromBelow o then if reached bar.high level through true then some (max bar.open level) else none
        else if reached bar.low level through false then some (min bar.open level) else none) := by
  rcases h.cases with htype | ⟨htype, l, hl⟩ | ⟨htype, l, hl⟩
  · simp [Atp.intendedPrice, levelOf, htype]
  · cases hside : o.side <;> simp [Atp.intendedPrice, levelOf, fromBelow, htype, hl, hside]
  · cases hside : o.side <;> simp [Atp.intendedPrice, levelOf, fromBelow, htype, hl, hside]

/-- **The touch rule of one order on one bar.** -/
structure TouchRule (o : Order) (bar : Bar) : Prop where
  answers : ∃ r, intendedPrice o bar false = .ok r
  inside : ∀ x, intendedPrice o bar false = .ok (some x) → bar.low ≤ x ∧ x ≤ bar.high
  untouched : intendedPrice o bar false = .ok none ↔ Beyond o bar
  limit : ∀ x l, intendedPrice o bar false = .ok (some x) → o.orderType = .limit → o.limitPrice = some l →
    if o.side = .buy then x ≤ l else l ≤ x
  stop : ∀ x l, intendedPrice o bar false = .ok (some x) → o.orderType = .stop → o.stopPrice = some l →
    if o.side = .buy then l ≤ x else x ≤ l
  through : ∀ x, intendedPrice o bar true = .ok (some x) → intendedPrice o bar false = .ok (some x)

theorem reached_through {extreme price : ℚ} {up : Bool} (h : reached extreme price true up = true) :
    reached extreme price false up = true := by
  cases up
  · simp only [reached, Bool.false_eq_true, if_false, if_true, decide_eq_true_eq] at h ⊢
    exact h.le
  · simp only [reached, Bool.false_eq_true, if_false, if_true, decide_eq_true_eq] at h ⊢
    exact h.le

theorem touchRule {o : Order} (h : Touchable o) (bar : Bar) : TouchRule o bar where
  answers := ⟨_, h.intendedPrice bar false⟩
  inside _ hx := intendedPrice_inside hx
  untouched := by
    rw [h.intendedPrice bar false]
    unfold Beyond
    cases hl : levelOf o with
    | none => simp
    | some level => cases hup : fromBelow o <;> simp [reached]
  limit x l hx htype hl := by
    rw [h.intendedPrice bar false] at hx
    cases hside : o.side <;> simp [levelOf, fromBelow, htype, hl, hside] at hx ⊢ <;> simp [← hx.2]
  stop x l hx htype hl := by
    rw [h.intendedPrice bar false] at hx
    cases hside : o.side <;> simp [levelOf, fromBelow, htype, hl, hside] at hx ⊢ <;> simp [← hx.2]
  through x hx := by
    rw [h.intendedPrice bar true] at hx
    rw [h.intendedPrice bar false, ← hx]
    cases hl : levelOf o with
    | none => rfl
    | some level =>
      rw [hl] at hx
      cases hup : fromBelow o <;> simp only [hup, Bool.false_eq_true, if_false, if_true] at hx ⊢
      · have hr : reached bar.low level true false = true := by
          by_contra hr
          simp [hr] at hx
        simp [hr, reached_through hr]
      · have hr : reached bar.high level true true = true := by
          by_contra hr
          simp [hr] at hx
        simp [hr, reached_through hr]

/-- The touch is a matter of the order's type, side and prices. -/
theorem intendedPrice_congr {o o' : Order} (htype : o'.orderType = o.orderType) (hside : o'.side = o.side)
    (hlimit : o'.limitPrice = o.limitPrice) (hstop : o'.stopPrice = o.stopPrice) (hid : o'.id = o.id) (bar : Bar)
    (through : Bool) : intendedPrice o' bar through = intendedPrice o bar through := by
  unfold intendedPrice
  rw [htype, hside, hlimit, hstop, hid]

theorem intendedPrice_accumulate (o : Order) (f : Fill) (bar : Bar) (through : Bool) :
    intendedPrice (o.accumulate f) bar through = intendedPrice o bar through := by
  apply intendedPrice_congr <;> (unfold Order.accumulate; dsimp only; split <;> rfl)

namespace Backtest

open Raising

section
variable {L σ τ : Type} (eng : BacktestEngine L σ τ) (bars : Dict String (List Bar))

/-- **The engine's arithmetic is the shared rule's**: a level that is due is due at the price its exit order touches. -/
theorem dueExit_intended {held : Option ℕ} {bar : Bar} {p : Position} {reason : Purpose} {x : ℚ} (id : String)
    (h : dueExit eng held bar p = .ok (some (reason, x))) (hlevel : reason ≠ .timeExit) :
    intendedPrice (closingOrder eng id bar p reason) bar false = .ok (some x) := by
  obtain ⟨rfl, htrigger, stop, hstop, rfl⟩ | ⟨rfl, htriggered, target, htarget, rfl⟩ | ⟨rfl, -⟩ := dueExit_due h
  · have hhit : if p.isLong then bar.low ≤ stop else stop ≤ bar.high := by
      unfold shouldTrigger at htrigger
      rw [hstop] at htrigger
      cases hp : p.isLong <;> simp_all
    cases hp : p.isLong <;> simp [intendedPrice, closingOrder, reached, hstop, hp] at hhit ⊢ <;> exact hhit
  · have hhit : if p.isLong then target ≤ bar.high else bar.low ≤ target := by
      unfold targetHit at htriggered
      rw [htarget] at htriggered
      cases hp : p.isLong <;> simp_all
    cases hp : p.isLong <;> simp [intendedPrice, closingOrder, reached, htarget, hp] at hhit ⊢ <;> exact hhit
  · exact absurd rfl hlevel

/-- The order of an exit at a level is priced by the shared rule. -/
def ByTouch (bar : Bar) (o : Order) : Prop := o.purpose ≠ .timeExit → ∃ x, intendedPrice o bar false = .ok (some x)

/-- A fill that is logged of an exit at a level is priced from the touch of its order. -/
def FilledAtTouch (bar : Bar) : Event σ τ → Prop
  | .booked o f _ _ => o.purpose ≠ .timeExit → ∃ x, intendedPrice o bar false = .ok (some x) ∧ f = fillFor eng o bar x
  | .bar _ _ => True

/-- **What `_check_stops` has added since `r`**: fills of exits at the touch of the orders that record them. -/
structure ExitsAtTouch (bar : Bar) (r s : Replay σ τ) : Prop where
  fills : ∃ added, s.log = r.log ++ added ∧ ∀ e ∈ added, FilledAtTouch eng bar e
  rows : ∀ id o, s.state.orders.get? id = some o → r.state.orders.get? id = some o ∨ ByTouch bar o

theorem ExitsAtTouch.quiet {bar : Bar} {r s : Replay σ τ} (hlog : s.log = r.log ++ [.bar bar r.state])
    (horders : s.state.orders = r.state.orders) : ExitsAtTouch eng bar r s where
  fills := ⟨[.bar bar r.state], hlog, by simp [FilledAtTouch]⟩
  rows id o ho := by
    rw [horders] at ho
    exact .inl ho

theorem Executed.atTouch {o o' : Order} {bar : Bar} {x : ℚ} {q s : Replay σ τ} (h : Executed eng o bar x q o' s)
    (hx : o.purpose ≠ .timeExit → intendedPrice o bar false = .ok (some x)) :
    (∃ added, s.log = q.log ++ added ∧ ∀ e ∈ added, FilledAtTouch eng bar e) ∧ ByTouch bar o' := by
  rcases h with ⟨-, rfl, hstill⟩ | ⟨-, rfl, -, hlog, -⟩
  · exact ⟨⟨[], by rw [hstill.log, List.append_nil], fun _ he => nomatch he⟩, fun hne => ⟨x, hx hne⟩⟩
  · refine ⟨⟨_, hlog, ?_⟩, fun hne => ⟨x, ?_⟩⟩
    · intro e he
      rw [List.mem_singleton.1 he]
      exact fun hne => ⟨x, hx hne, rfl⟩
    · rw [intendedPrice_accumulate]
      refine hx fun heq => hne ?_
      rw [← heq]
      unfold Order.accumulate
      dsimp only
      split <;> rfl

/-- **Every exit `_check_stops` takes at a level is priced by the shared touch rule**, in the fill and in the row. -/
theorem checkStops_atTouch (bar : Bar) (r : Replay σ τ) : Triple (fun s => s = r) (checkStops eng bars bar)
    (fun _ => ExitsAtTouch eng bar r) (fun _ s => ∃ added, s.log = r.log ++ added ∧ ∀ e ∈ added, FilledAtTouch eng bar e) := by
  unfold checkStops
  refine triple_observe fun s hs => ?_
  subst hs
  have hnoted {u : Replay σ τ} (hlog : u.log = s.log ++ [.bar bar s.state]) :
      ∃ added, u.log = s.log ++ added ∧ ∀ e ∈ added, FilledAtTouch eng bar e :=
    ⟨_, hlog, by simp [FilledAtTouch]⟩
  refine triple_bind (R := fun _ u => u = noted bar s) (triple_note _ fun u hu => by rw [hu]; rfl) fun _ => ?_
  refine triple_ite (fun _ => triple_pure _ fun u hu => hu ▸ .quiet eng rfl rfl) fun _ => ?_
  refine triple_bind (triple_conseq (triple_and (maintainTrailing_still eng bars bar (noted bar s))
    (OrderFates.maintainTrailing_orders bar (noted bar s))) (fun _ h => ⟨h, h⟩) (fun _ _ h => h)
    (fun _ u hu => hnoted hu.1.log)) fun _ => ?_
  refine triple_observe fun u hu => ?_
  obtain ⟨⟨hstill, -, -⟩, horders, -⟩ := hu
  refine triple_bind (R := fun due v => v = u ∧ dueExit eng (u.state.barsHeld.get? bar.symbol) bar
    (u.state.portfolio.position bar.symbol) = .ok due) (triple_fromExcept _ (fun due hdue v hv => ⟨hv, hdue⟩)
      (fun _ _ v hv => hv ▸ hnoted hstill.log)) fun due => ?_
  refine triple_at fun v hv => ?_
  obtain ⟨rfl, hdue⟩ := hv
  cases due with
  | none => exact triple_pure _ fun w hw => hw ▸ .quiet eng hstill.log horders
  | some due =>
    obtain ⟨reason, x⟩ := due
    refine triple_bind (R := fun o w => w = v ∧ o = closingOrder eng (eng.newId v.state.drawn) bar
        (v.state.portfolio.position bar.symbol) reason)
      (triple_fromExcept _ (fun o ho w hw => ⟨hw, (Order.postInit_ok ho).1⟩)
        (fun _ _ w hw => hw ▸ hnoted hstill.log)) fun o => ?_
    refine triple_at fun w hw => ?_
    obtain ⟨rfl, ho⟩ := hw
    have hx : o.purpose ≠ .timeExit → intendedPrice o bar false = .ok (some x) := by
      rw [ho]
      exact fun hne => dueExit_intended eng _ hdue hne
    refine triple_bind (R := fun _ q => q.log = s.log ++ [.bar bar s.state] ∧ q.state.orders = s.state.orders)
      (triple_update _ fun q hq => hq ▸ ⟨hstill.log, horders⟩) fun _ => ?_
    refine triple_at fun q hq => ?_
    refine triple_bind (triple_conseq (triple_and (execute_executed eng bars o bar x q) (OrderFates.execute_worked o bar x q))
      (fun _ h => ⟨h, h⟩) (fun _ _ h => h) (fun _ t ht => hnoted (ht.1.log.trans hq.1))) fun o' => ?_
    refine triple_update _ fun t ht => ?_
    obtain ⟨hdone, hworked⟩ := ht
    obtain ⟨⟨added, hlog, hadded⟩, hrow⟩ := hdone.atTouch eng hx
    constructor
    case fills =>
      refine ⟨.bar bar s.state :: added, ?_, List.forall_mem_cons.2 ⟨trivial, hadded⟩⟩
      show t.log = _
      rw [hlog, hq.1, List.append_assoc]
      rfl
    case rows =>
      intro id p hp
      by_cases hid : id = o'.id
      · subst hid
        have hself : (t.state.orders.set o'.id o').get? o'.id = some p := hp
        rw [Dict.get?_set_self] at hself
        cases hself
        exact .inr hrow
      · have hother : (t.state.orders.set o'.id o').get? id = some p := hp
        rw [Dict.get?_set_ne _ _ hid, hworked.others id (hworked.id ▸ hid), hq.2] at hother
        exact .inl hother

/-- **The touch rule never invents a price**: of any order it answers for, on any bar, and of the engine's own exits. -/
theorem touch_invents_no_price (bar : Bar) : (∀ o, Touchable o → TouchRule o bar) ∧
    ∀ r, Triple (fun s => s = r) (checkStops eng bars bar) (fun _ => ExitsAtTouch eng bar r)
      (fun _ s => ∃ added, s.log = r.log ++ added ∧ ∀ e ∈ added, FilledAtTouch eng bar e) :=
  ⟨fun _ ho => touchRule ho bar, checkStops_atTouch eng bars bar⟩

/-- Ten to be sold once the price is at 95. -/
def stopToSell : Order where
  symbol := "SPY"
  side := .sell
  qty := 10
  orderType := .stop
  stopPrice := some 95
  id := "stop"
  clientOrderId := "c-stop"

/-- A bar from 100 down to 90 touches it at its level. -/
theorem touch_invents_no_price_stop : TouchRule stopToSell (dayBar 0 90 rat_ninety_le) ∧
    intendedPrice stopToSell (dayBar 0 90 rat_ninety_le) false = .ok (some 95) :=
  ⟨(touch_invents_no_price buyThenExit .empty (dayBar 0 90 rat_ninety_le)).1 stopToSell ⟨.inr (.inr rfl), by decide +kernel⟩,
    by decide +kernel⟩

end
end Backtest
end Atp
