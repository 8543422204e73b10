import AlgoTrading.ChildCover
import AlgoTrading.Runs
/-!
# StopRatchet — never widen a stop

Marks, fills, protective placements and trailing updates, in any order, on a position that stays on one side.  A trailing
update ratchets whatever happens; a placement keeps the tighter stop as long as the market has not passed the one it finds
armed (`stop_never_widens`), and arms a looser one where it has.
-/
namespace Atp
namespace StopRatchet

open Raising Runs

/-- The position is open on one side. -/
def OnSide (long : Bool) (p : Position) : Prop := if long then 0 < p.qty else p.qty < 0

/-- **The stop of `q` is at least as close to the price as that of `p`**, and there when that is. -/
def Tighter (long : Bool) (p q : Position) : Prop :=
  ∀ level, p.stopLossPrice = some level →
    ∃ level', q.stopLossPrice = some level' ∧ if long then level ≤ level' else level' ≤ level

/-- What happens to a guarded position. -/
inductive Tend
  | mark (price : ℚ)
  | fill (order : Order) (fill : Fill)
  | protect (entry : Order) (config : Option StopConfig) (atr : Option ℚ)
  | trail (bar : Bar) (config : StopConfig) (atr : Option ℚ)

variable {β L σ : Type} (r : OrderRouter β L σ) (symbol : String)

def after (d : Desk β σ) : Tend → Desk β σ
  | .mark price => d.setPosition symbol { d.portfolio.position symbol with lastPrice := some price }
  | .fill order fill =>
    match d.portfolio.applyToPortfolio order fill with
    | .ok portfolio => { d with portfolio := portfolio }
    | .error _ => d
  | .protect entry config atr => (exec (r.submitProtectiveOrders entry config atr) d).2
  | .trail bar config atr =>
    d.setPosition symbol (exec (updateTrailing bar config atr) (d.portfolio.position symbol)).2

/-- A step that leaves the position open on its side. -/
def step (long : Bool) (d : Desk β σ) (i : Tend) (e : Desk β σ) : Prop :=
  e = after r symbol d i ∧ OnSide long (e.portfolio.position symbol)

/-- What a placement has newly to cover of its entry. -/
def newlyFilled (d : Desk β σ) (entry : Order) (p : Position) : ℚ :=
  min (entry.filledQty - (d.covered.get? entry.id).getD 0) (|p.qty| - d.protectedQty entry.symbol (closingSide p))

/-- **The placement arms a stop**: it is no child's, there is something newly filled of an open position, the venue's answers to
the sweep of the other side do not raise, and the level it asks for is one the market has not passed. -/
def Arms (d : Desk β σ) (entry : Order) (config : Option StopConfig) (atr : Option ℚ) : Prop :=
  entry.parentOrderId.isSome = false ∧ ∃ p, d.portfolio.positions.get? entry.symbol = some p ∧ p.isFlat = false ∧
    0 < newlyFilled d entry p ∧ (exec (r.cancelStaleProtection entry.symbol (closingSide p)) d).1 = .ok () ∧ ∃ level target,
      r.requestedLevels entry p ((d.requestedProtection.get? entry.id).getD (none, none)) config atr = .ok (some level, target)

/-- The market has not passed the stop that a placement finds where it arms one. -/
def Unpassed (d : Desk β σ) : Tend → Prop
  | .protect entry config atr => entry.symbol = symbol → Arms r d entry config atr → ∀ level,
      (d.portfolio.position symbol).stopLossPrice = some level → protects (d.portfolio.position symbol) level = true
  | _ => True

variable {r symbol} {long : Bool} {p q : Position}

theorem Tighter.refl (long : Bool) (p : Position) : Tighter long p p := by
  intro level h
  refine ⟨level, h, ?_⟩
  cases long <;> simp

theorem Tighter.of_eq (h : q.stopLossPrice = p.stopLossPrice) : Tighter long p q := by
  intro level hp
  rw [← h] at hp
  exact Tighter.refl long q level hp

theorem Tighter.trans {s : Position} (h₁ : Tighter long p q) (h₂ : Tighter long q s) : Tighter long p s := by
  intro level hp
  obtain ⟨level₁, hq, hle₁⟩ := h₁ level hp
  obtain ⟨level₂, hs, hle₂⟩ := h₂ level₁ hq
  refine ⟨level₂, hs, ?_⟩
  cases long with
  | true => exact le_trans hle₁ hle₂
  | false => exact le_trans hle₂ hle₁

theorem OnSide.isLong (h : OnSide long p) : p.isLong = long := by
  unfold OnSide at h
  unfold Position.isLong
  cases long with
  | true => simpa using h
  | false =>
    rw [if_neg Bool.false_ne_true] at h
    simpa using h.le

/-! ## The steps -/

/-- **A trailing update only tightens**, whether it returns or raises. -/
theorem updateTrailing_tighter (hside : OnSide long p) (bar : Bar) (config : StopConfig) (atr : Option ℚ) :
    Triple (fun s => s = p) (updateTrailing bar config atr) (fun _ q => Tighter long p q) (fun _ q => Tighter long p q) := by
  have hlong := hside.isLong
  unfold updateTrailing
  refine triple_get_bind fun s hs => ?_
  subst hs
  refine triple_ite (fun _ => ?_) (fun _ => triple_pure _ fun t ht => ht ▸ Tighter.refl long s)
  let anchored : Position := { s with highWaterMark := some (trailingAnchor s bar) }
  refine triple_bind (R := fun _ t => t = anchored) (triple_set _ fun t _ => rfl) fun _ => ?_
  refine triple_bind (R := fun _ t => t = anchored) (triple_fromExcept _ (fun _ _ _ h => h) (fun _ _ t h => ?_)) fun c => ?_
  · rw [h]
    exact Tighter.of_eq rfl
  refine triple_ite (fun _ => triple_pure _ fun t h => ?_) (fun _ => ?_)
  · rw [h]
    exact Tighter.of_eq rfl
  refine triple_ite (fun _ => triple_pure _ fun t h => ?_) (fun hbetter => ?_)
  · rw [h]
    exact Tighter.of_eq rfl
  refine triple_bind (R := fun _ t => t = { anchored with stopLossPrice := some c })
    (triple_modify _ fun t h => by rw [h]) fun _ => triple_pure _ fun t h => ?_
  rw [h]
  intro level hlevel
  refine ⟨c, rfl, ?_⟩
  rw [hlevel] at hbetter
  cases long with
  | true =>
    simp only [hlong, Option.any_some, if_true, decide_eq_true_eq, not_le] at hbetter
    exact hbetter.le
  | false =>
    simp only [hlong, Option.any_some, Bool.false_eq_true, if_false, decide_eq_true_eq, not_le] at hbetter
    exact hbetter.le

/-- A fill that leaves the position open leaves its stop. -/
theorem applyToPortfolio_stop {b b' : Portfolio} {order : Order} {f : Fill} (h : b.applyToPortfolio order f = .ok b')
    (hopen : (b'.position symbol).qty ≠ 0) :
    (b'.position symbol).stopLossPrice = (b.position symbol).stopLossPrice := by
  unfold Portfolio.applyToPortfolio at h
  cases hf : (b.position order.symbol).applyFill f (f.qty * order.side.sign) with
  | error e => simp [hf] at h
  | ok a =>
    obtain ⟨settled, realized⟩ := a
    simp only [hf, Except.ok.injEq] at h
    obtain ⟨-, -, -, rfl, -⟩ := Position.applyFill_ok.1 hf
    subst h
    unfold Portfolio.setPosition Portfolio.position at hopen ⊢
    simp only [Dict.get?_set] at hopen ⊢
    by_cases hs : symbol = order.symbol
    · subst hs
      simp only [if_true, Option.getD_some] at hopen ⊢
      rw [Position.settled_qty] at hopen
      simp [Position.settled, hopen]
    · simp [hs]

/-- The stop is as it was, or the placement has armed one that guards the position. -/
def Armed (r : OrderRouter β L σ) (d : Desk β σ) (entry : Order) (config : Option StopConfig) (atr : Option ℚ) (symbol : String)
    (e : Desk β σ) : Prop :=
  (e.portfolio.position symbol).stopLossPrice = (d.portfolio.position symbol).stopLossPrice ∨
    (entry.symbol = symbol ∧ Arms r d entry config atr ∧ ∃ level target, protects (d.portfolio.position symbol) level = true ∧
      e.portfolio.position symbol = OrderRouter.armed (d.portfolio.position symbol) (some level) target)

/-- The stop a filled entry asks for has not been passed. -/
theorem requestedLevels_protects {entry : Order} {asked levels : Option ℚ × Option ℚ} {config : Option StopConfig}
    {atr : Option ℚ} (h : r.requestedLevels entry p asked config atr = .ok levels) (level : ℚ)
    (hlevel : levels.1 = some level) : protects p level = true := by
  unfold OrderRouter.requestedLevels at h
  simp only [bind, Except.bind, pure, Except.pure] at h
  cases hs : OrderRouter.stopLevel entry asked.1 config atr with
  | error e => simp [hs] at h
  | ok stop =>
    cases ht : OrderRouter.targetLevel entry asked.2 config with
    | error e => simp [hs, ht] at h
    | ok target =>
      simp only [hs, ht, Except.ok.injEq] at h
      subst h
      exact (Option.filter_eq_some_iff.1 hlevel).2

theorem placeStop_keeps {b : Portfolio} (entry : Order) (p : Position) (increment level coveredFrom : ℚ) :
    Keeps (fun d : Desk β σ => d.portfolio = b) (r.placeStop entry p increment level coveredFrom) := by
  unfold OrderRouter.placeStop
  refine keeps_bind (keeps_fromExcept _) fun key => ?_
  refine keeps_bind (r.keeps_draw fun d n h => h) fun id => ?_
  refine keeps_bind (keeps_fromExcept _) fun child => ?_
  refine keeps_bind (r.keeps_send (fun d _ _ _ _ _ h => h) _ _) fun outcome => ?_
  split
  · refine keeps_bind (keeps_modify fun d h => ?_) fun _ => keeps_pure _
    unfold OrderRouter.recordPlaced
    simp only
    split <;> exact h
  · exact keeps_pure _

/-- The sweep of the other side leaves what a placement has newly to cover. -/
theorem newlyFilled_swept {d e : Desk β σ} {entry : Order} {p : Position} (h : Coverage.Swept d entry.symbol (closingSide p) e) :
    newlyFilled e entry p = newlyFilled d entry p := by
  unfold newlyFilled
  rw [Coverage.protectedQty_eq, Coverage.protectedQty_eq, h.covering]
  obtain ⟨b, c, rfl⟩ := h.rest
  rfl

/-- **What a placement does to the stop**: nothing, or it arms one that guards the position. -/
theorem submitProtectiveOrders_arms (d : Desk β σ) (entry : Order) (config : Option StopConfig) (atr : Option ℚ) :
    Triple (fun e => e = d) (r.submitProtectiveOrders entry config atr) (fun _ => Armed r d entry config atr symbol)
      (fun _ => Armed r d entry config atr symbol) := by
  have hframe (e : Desk β σ) (h : e.portfolio = d.portfolio) : Armed r d entry config atr symbol e := .inl (by rw [h])
  unfold OrderRouter.submitProtectiveOrders
  refine triple_ite (fun _ => triple_pure _ fun e h => hframe e (by rw [h])) (fun hparent => ?_)
  refine triple_get_bind fun d₀ h₀ => ?_
  subst h₀
  cases hg : d₀.portfolio.positions.get? entry.symbol with
  | none => exact triple_pure _ fun e h => hframe e (by rw [h])
  | some held =>
    refine triple_ite (fun _ => triple_pure _ fun e h => hframe e (by rw [h])) (fun hopen => ?_)
    have hbook (e : Desk β σ) (h : Coverage.Swept d₀ entry.symbol (closingSide held) e) : e.portfolio = d₀.portfolio := by
      obtain ⟨b, c, rfl⟩ := h.rest
      rfl
    refine triple_bind (triple_conseq (triple_and (Coverage.triple_cancelStaleProtection entry.symbol (closingSide held))
      (triple_exec (r.cancelStaleProtection entry.symbol (closingSide held)) d₀)) (fun _ h => ⟨h, h⟩) (fun _ _ h => h)
      (fun _ e h => hframe e (hbook e h.1))) fun _ => triple_get_bind fun d₁ h₁ => ?_
    obtain ⟨hswept, hsweep⟩ := h₁
    have hsame := hbook d₁ hswept
    refine triple_ite (fun _ => triple_pure _ fun e h => hframe e (h ▸ hsame)) (fun hnew => ?_)
    have hasked : d₁.requestedProtection = d₀.requestedProtection := by
      obtain ⟨b, c, rfl⟩ := hswept.rest
      rfl
    refine triple_bind (R := fun levels e => e = d₁ ∧ r.requestedLevels entry held
      ((d₁.requestedProtection.get? entry.id).getD (none, none)) config atr = .ok levels)
      (triple_fromExcept _ (fun levels hl e h => ⟨h, hl⟩) (fun _ _ e h => hframe e (h ▸ hsame))) ?_
    rintro ⟨stop, target⟩
    refine triple_at fun d₂ h₂ => ?_
    obtain ⟨rfl, hlevels⟩ := h₂
    let b := d₀.portfolio.setPosition entry.symbol (OrderRouter.armed held stop target)
    have harmed (e : Desk β σ) (h : e.portfolio = b) : Armed r d₀ entry config atr symbol e := by
      unfold Armed
      rw [h]
      by_cases hs : entry.symbol = symbol
      · subst hs
        have hheld : d₀.portfolio.position entry.symbol = held := by simp [Portfolio.position, hg]
        have hpos : b.position entry.symbol = OrderRouter.armed held stop target := by
          simp [b, Portfolio.position, Portfolio.setPosition]
        rw [hheld, hpos]
        cases stop with
        | none => exact .inl rfl
        | some level =>
          refine .inr ⟨rfl, ⟨Bool.eq_false_iff.2 hparent, held, hg, Bool.eq_false_iff.2 hopen, ?_, ?_, level, target, ?_⟩, level,
            target, requestedLevels_protects hlevels level rfl, rfl⟩
          · rw [← newlyFilled_swept hswept]
            exact lt_of_not_ge hnew
          · rw [hsweep]
          · rwa [← hasked]
      · refine .inl ?_
        simp [b, Portfolio.position, Portfolio.setPosition, Dict.get?_set_ne _ _ (Ne.symm hs)]
    refine triple_bind (R := fun _ e => e.portfolio = b) (triple_modify _ fun e h => by rw [h, Desk.setPosition, hsame]) fun _ => ?_
    cases stop with
    | none => exact triple_pure _ harmed
    | some level =>
      refine triple_ite (fun _ => triple_pure _ harmed) (fun _ => ?_)
      exact triple_conseq (placeStop_keeps (b := b) _ _ _ _ _) (fun _ h => h) (fun _ => harmed) (fun _ => harmed)

/-! ## A run of steps -/

/-- A stop the market has not passed gives way to no looser one. -/
theorem armed_tighter (hside : OnSide long p) {stop target : Option ℚ}
    (hunpassed : ∀ level, p.stopLossPrice = some level → protects p level = true) :
    Tighter long p (OrderRouter.armed p stop target) := by
  intro level hp
  cases stop with
  | none => exact Tighter.refl long p level hp
  | some candidate =>
    refine ⟨tightestStop p candidate, rfl, ?_⟩
    have hlong := hside.isLong
    unfold tightestStop
    simp only [hp, hunpassed level hp, hlong, Bool.not_true, Bool.false_eq_true, if_false]
    cases long with
    | true => exact le_max_left _ _
    | false => exact min_le_left _ _

/-- A stop the market has passed gives way to a looser one. -/
theorem armed_looser (hside : OnSide long p) {level candidate : ℚ} {target : Option ℚ} (hp : p.stopLossPrice = some level)
    (hpassed : protects p level = false) (hguards : protects p candidate = true) :
    ¬ Tighter long p (OrderRouter.armed p (some candidate) target) := by
  intro htight
  obtain ⟨level', hlevel', hle⟩ := htight level hp
  have hnew : tightestStop p candidate = candidate := by simp [tightestStop, hp, hpassed]
  have harmed : some (tightestStop p candidate) = some level' := hlevel'
  rw [hnew, Option.some.injEq] at harmed
  subst harmed
  have hlong := hside.isLong
  unfold protects at hpassed hguards
  cases hmark : p.lastPrice with
  | none => simp [hmark] at hpassed
  | some mark =>
    simp only [hmark, hlong] at hpassed hguards
    cases long with
    | true =>
      simp only [if_true, decide_eq_false_iff_not, decide_eq_true_eq, not_lt] at hpassed hguards hle
      exact absurd (hle.trans_lt hguards) (not_lt.2 hpassed)
    | false =>
      simp only [Bool.false_eq_true, if_false, gt_iff_lt, decide_eq_false_iff_not, decide_eq_true_eq, not_lt] at hpassed hguards hle
      exact absurd (hguards.trans_le hle) (not_lt.2 hpassed)

/-- **One step never widens the stop**, a placement where the market has not passed it. -/
theorem step_tighter {d e : Desk β σ} {i : Tend} (hside : OnSide long (d.portfolio.position symbol))
    (hunpassed : Unpassed r symbol d i) (h : step r symbol long d i e) :
    Tighter long (d.portfolio.position symbol) (e.portfolio.position symbol) := by
  obtain ⟨he, hopen⟩ := h
  cases i with
  | mark price =>
    refine Tighter.of_eq ?_
    simp [he, after, Desk.setPosition, Portfolio.setPosition, Portfolio.position]
  | fill order f =>
    have hne : (e.portfolio.position symbol).qty ≠ 0 := by
      unfold OnSide at hopen
      cases long with
      | true => exact ne_of_gt hopen
      | false => exact ne_of_lt hopen
    cases hb : d.portfolio.applyToPortfolio order f with
    | error exc =>
      have hsame : e = d := by simp [he, after, hb]
      rw [hsame]
      exact Tighter.refl long _
    | ok b' =>
      have hbook : e.portfolio = b' := by simp [he, after, hb]
      rw [hbook] at hne ⊢
      exact Tighter.of_eq (applyToPortfolio_stop hb hne)
  | trail bar config atr =>
    have htight := triple_left (updateTrailing_tighter hside bar config atr) rfl
    have hpos : e.portfolio.position symbol = (exec (updateTrailing bar config atr) (d.portfolio.position symbol)).2 := by
      simp [he, after, Desk.setPosition, Portfolio.setPosition, Portfolio.position]
    rw [hpos]
    exact htight
  | protect entry config atr =>
    have harms : Armed r d entry config atr symbol e := by
      rw [he]
      exact triple_left (submitProtectiveOrders_arms d entry config atr) rfl
    rcases harms with hsame | ⟨hs, harms, level, target, -, harmed⟩
    · exact Tighter.of_eq hsame
    · rw [harmed]
      exact armed_tighter hside (hunpassed hs harms)

/-- **Never widen a stop**: while the position stays on one side and no placement that arms a stop finds one the market has
passed, the armed stop only moves toward the price, and is never dropped. -/
theorem stop_never_widens {d e : Desk β σ} {l : List Tend} (hside : OnSide long (d.portfolio.position symbol))
    (h : Run (guarded (step r symbol long) (Unpassed r symbol)) d l e) :
    Tighter long (d.portfolio.position symbol) (e.portfolio.position symbol) := by
  have hrun := run_guarded (Unpassed r symbol) (fun e : Desk β σ => OnSide long (e.portfolio.position symbol) ∧
    Tighter long (d.portfolio.position symbol) (e.portfolio.position symbol)) ?_ ⟨hside, Tighter.refl long _⟩ h
  · exact hrun.2
  · intro s i t hs hi hstep
    exact ⟨hstep.2, hs.2.trans (step_tighter hs.1 hi hstep)⟩

/-! ## A market that trades through a stop -/

instance : Decidable (OnSide long p) := inferInstanceAs (Decidable (if long then 0 < p.qty else p.qty < 0))

/-- A venue that works whatever it is sent. -/
def openVenue : BrokerPort Unit where
  name := "venue"
  submitOrder o := pure { o with brokerOrderId := some o.clientOrderId, status := .submitted }
  cancelOrder _ := pure ()
  getOrder _ := pure none
  getOpenOrders := pure []

def openRouter : OrderRouter Unit Unit Unit where
  broker := openVenue
  limits := ()
  rules := []
  instruments _ := none
  killSwitch := none
  now := 0
  text _ := ""
  newId n := String.ofList (List.replicate n 'n')
  digest pieces := String.ofList (List.replicate pieces.length 'd')

/-- A filled purchase. -/
def bought (id : String) (qty price : ℚ) : Order where
  symbol := "AAPL"
  side := .buy
  qty := qty
  id := id
  clientOrderId := id
  status := .filled
  filledQty := qty
  avgFillPrice := some price

def fivePct : StopConfig where
  stopType := .fixedPct
  value := some (1 / 20)

/-- Ten shares held at 100 with nothing armed. -/
def heldDesk : Desk Unit Unit where
  portfolio := {
    cash := 0, startingEquity := 1000
    positions := Dict.empty.set "AAPL" { symbol := "AAPL", qty := 10, avgEntryPrice := 100, lastPrice := some 100 } }
  broker := ()
  risk := ()

/-- The purchase is protected at 95. -/
def guardedDesk : Desk Unit Unit := after openRouter "AAPL" heldDesk (.protect (bought "e-1" 10 100) (some fivePct) none)

def boughtMore (price : ℚ) : Tend :=
  .fill (bought "e-2" 5 price) { orderId := "e-2", ts := 1, qty := 5, price := price, fee := 0, venueFillId := none }

/-- The market rises, more is bought, and the stop follows to 104.50. -/
theorem stop_follows : Tighter true (guardedDesk.portfolio.position "AAPL")
    ((after openRouter "AAPL" (after openRouter "AAPL" guardedDesk (boughtMore 110))
      (.protect (bought "e-2" 5 110) (some fivePct) none)).portfolio.position "AAPL") := by
  refine stop_never_widens (r := openRouter) (l := [boughtMore 110, .protect (bought "e-2" 5 110) (some fivePct) none])
    (by decide +kernel) ?_
  refine .cons ⟨⟨rfl, by decide +kernel⟩, trivial⟩ (.cons ⟨⟨rfl, by decide +kernel⟩, fun _ _ level h => ?_⟩ (.nil _))
  have hstop : ((after openRouter "AAPL" guardedDesk (boughtMore 110)).portfolio.position "AAPL").stopLossPrice =
      some 95 := by decide +kernel
  rw [hstop] at h
  rw [← Option.some.inj h]
  decide +kernel

/-- **A market that has traded through the stop widens it**: bought again at 94, the stop at 95 becomes one at 89.30. -/
theorem passed_stop_widens : ¬ ∀ (r : OrderRouter Unit Unit Unit) (symbol : String) (long : Bool) (d e : Desk Unit Unit)
    (l : List Tend), OnSide long (d.portfolio.position symbol) → Run (step r symbol long) d l e →
      Tighter long (d.portfolio.position symbol) (e.portfolio.position symbol) := by
  intro h
  let marked := after openRouter "AAPL" guardedDesk (.mark 94)
  let filled := after openRouter "AAPL" marked (boughtMore 94)
  let protectedAgain := after openRouter "AAPL" filled (.protect (bought "e-2" 5 94) (some fivePct) none)
  have hrun : Run (step openRouter "AAPL" true) guardedDesk _ protectedAgain :=
    .cons ⟨rfl, by decide +kernel⟩ (.cons ⟨rfl, by decide +kernel⟩ (.cons ⟨rfl, by decide +kernel⟩ (.nil protectedAgain)))
  obtain ⟨level, hlevel, hle⟩ := h openRouter "AAPL" true guardedDesk protectedAgain _ (by decide +kernel) hrun 95
    (by decide +kernel)
  have hstop : (protectedAgain.portfolio.position "AAPL").stopLossPrice = some (893 / 10) := by decide +kernel
  rw [hstop] at hlevel
  rw [← Option.some.inj hlevel] at hle
  exact absurd hle (by decide +kernel)

end StopRatchet
end Atp
