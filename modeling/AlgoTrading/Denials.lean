import AlgoTrading.InFlight
/-!
# Denials — one more order in flight

What one more order in flight does to the books of a validation, and to each of the five rules that measure their shape:
an order that adds to the book and takes nothing back leaves no denial behind it undone (`denial_persists`).
-/
namespace Atp
namespace Denials

open Ceilings Projection InFlight

/-- What the order credits to the projected cash is not positive: it is no priced short entry. -/
def NoCredit (p : Portfolio) (x : Order) : Prop := 0 ≤ signedRemaining x * (priceOf p x).getD 0

/-- Where the committed book marks the symbol, the order is not priced so as to raise the equity. -/
def NoGain (p : Portfolio) (w : List Order) (x : Order) : Prop :=
  ∀ mark, markIn (projectPending p w).positions x.symbol = some mark →
    signedRemaining x * mark ≤ signedRemaining x * (priceOf p x).getD 0

/-- The order does not settle the only holding of the committed book that has no mark: it neither prices it nor closes it. -/
def LeavesUnmarked (p : Portfolio) (w : List Order) (x : Order) : Prop :=
  (∀ s, s ≠ x.symbol → (projectPending p w).held s ≠ 0 → (markIn (projectPending p w).positions s).isSome) →
    (projectPending p w).held x.symbol ≠ 0 → markIn (projectPending p w).positions x.symbol = none →
      priceOf p x = none ∧ (projectPending p w).held x.symbol + signedRemaining x ≠ 0

/-- The order is not what prices the order under test. -/
def LeavesUnpriced (p : Portfolio) (w : List Order) (o x : Order) : Prop :=
  o.limitPrice = none → o.symbol = x.symbol → markIn (projectPending p w).positions x.symbol = none → priceOf p x = none

/-- The order does not open the symbol of the order under test, and closes no holding that takes the count below the limit. -/
def KeepsCount (limits : RiskLimits) (p : Portfolio) (w : List Order) (o x : Order) : Prop :=
  (x.symbol = o.symbol → (projectPending p w).held o.symbol ≠ 0) ∧
    ((projectPending p w).held x.symbol ≠ 0 → (projectPending p w).held x.symbol + signedRemaining x = 0 →
      limits.maxOpenPositions < (projectPending p w).openPositions.length)

/-- What the order adds to the symbol's own magnitude. -/
def grown (p : Portfolio) (w : List Order) (x : Order) : ℚ :=
  |(projectPending p w).held x.symbol + signedRemaining x| - |(projectPending p w).held x.symbol|

/-- What the committed book values the symbol at, with the order in flight. -/
def markWith (p : Portfolio) (w : List Order) (x : Order) : ℚ :=
  ((markIn (projectPending p w).positions x.symbol).or (priceOf p x)).getD 0

/-- **What the order adds to the gross exposure is not less than it takes from what can still come.**  In another symbol than
the order under test both are valued at the mark, and a symbol it marks first can only be one of which nothing is to come; in
its own symbol the one is valued at the mark and the other at the price of the order under test. -/
def KeepsExposure (p : Portfolio) (w : List Order) (o x : Order) : Prop :=
  (x.symbol ≠ o.symbol → 0 ≤ markWith p w x ∧
    (markIn (projectPending p w).positions x.symbol = none → priceOf p x ≠ none → worstMagnitude x.symbol (booksOf p w) = 0)) ∧
  (x.symbol = o.symbol → ∀ price, priceFor o (projectPending p w) = some price →
    0 ≤ grown p w x * |markWith p w x| +
      (worstResultingQty o (booksOf p (w ++ [x])) - worstResultingQty o (booksOf p w) - grown p w x) * price)

/-- The five rules of the chain that measure the book. -/
inductive Measure
  | positionSize
  | exposure
  | openPositions
  | dailyLoss
  | buyingPower
deriving DecidableEq

/-- What the rule answers. -/
def Measure.check (m : Measure) (limits : RiskLimits) (dayStart : Option ℚ) (o : Order) (books : RiskBooks) : RiskDecision :=
  match m with
  | .positionSize => maxPositionSizeCheck o books limits
  | .exposure => maxExposureCheck o books limits
  | .openPositions => maxOpenPositionsCheck o books limits
  | .dailyLoss => dailyLossLimitCheck dayStart o books limits
  | .buyingPower => buyingPowerCheck o books

/-- **What each rule needs of the order in flight**, and no rule of what another reads. -/
def Measure.Spared (m : Measure) (limits : RiskLimits) (p : Portfolio) (w : List Order) (o x : Order) : Prop :=
  match m with
  | .positionSize => LeavesUnmarked p w x ∧ NoGain p w x ∧ LeavesUnpriced p w o x
  | .exposure => LeavesUnmarked p w x ∧ NoGain p w x ∧ LeavesUnpriced p w o x ∧ KeepsExposure p w o x
  | .openPositions => KeepsCount limits p w o x
  | .dailyLoss => LeavesUnmarked p w x ∧ NoGain p w x
  | .buyingPower => LeavesUnpriced p w o x ∧ NoCredit p x

variable {p : Portfolio} {w : List Order} {o x : Order}

/-! ## The books with one order more -/

theorem projectPending_append (hw : 0 < x.remainingQty) (he : reducesPosition x p = false) :
    projectPending p (w ++ [x]) = { projectPending p w with
      cash := (commitOrder p ((projectPending p w).cash, (projectPending p w).positions) x).1
      positions := (commitOrder p ((projectPending p w).cash, (projectPending p w).positions) x).2 } := by
  have hx : projected p (w ++ [x]) = projected p w ++ [x] := by
    simp [projected, List.filter_append, hw, he]
  rw [projectPending_eq (w := w ++ [x]), projectPending_eq (w := w), hx, List.foldl_append]
  rfl

theorem held_append (hw : 0 < x.remainingQty) (he : reducesPosition x p = false) (s : String) :
    (projectPending p (w ++ [x])).held s =
      (projectPending p w).held s + if x.symbol = s then signedRemaining x else 0 := by
  rw [← heldIn_positions, ← heldIn_positions, projectPending_append hw he]
  exact heldIn_commitOrder _ s

theorem markIn_append (hw : 0 < x.remainingQty) (he : reducesPosition x p = false) (s : String) :
    markIn (projectPending p (w ++ [x])).positions s =
      (markIn (projectPending p w).positions s).or (if x.symbol = s then priceOf p x else none) := by
  rw [projectPending_append hw he]
  exact markIn_commitOrder s

/-- The holding an order in flight leaves in its symbol. -/
def committedPosition (p c : Portfolio) (x : Order) : Position :=
  { c.position x.symbol with
    qty := c.held x.symbol + signedRemaining x
    lastPrice := (markIn c.positions x.symbol).or (priceOf p x) }

theorem commitOrder_eq (p c : Portfolio) (x : Order) : commitOrder p (c.cash, c.positions) x =
    (c.cash - signedRemaining x * (priceOf p x).getD 0, c.positions.set x.symbol (committedPosition p c x)) := by
  unfold commitOrder committedPosition priceOf signedRemaining markIn Portfolio.held Portfolio.position
  cases referencePrice x.symbol p x.limitPrice <;> cases c.positions.get? x.symbol <;> simp

theorem positions_append (hw : 0 < x.remainingQty) (he : reducesPosition x p = false) :
    (projectPending p (w ++ [x])).positions =
      (projectPending p w).positions.set x.symbol (committedPosition p (projectPending p w) x) := by
  rw [projectPending_append hw he, commitOrder_eq]

theorem cash_append (hw : 0 < x.remainingQty) (he : reducesPosition x p = false) :
    (projectPending p (w ++ [x])).cash =
      (projectPending p w).cash - signedRemaining x * (priceOf p x).getD 0 := by
  rw [projectPending_append hw he, commitOrder_eq]

/-- What a total over the positions gains with one order more. -/
theorem sum_append {M : Type} [AddCommGroup M] (f : Position → M) (hw : 0 < x.remainingQty)
    (he : reducesPosition x p = false) : ((projectPending p (w ++ [x])).positions.values.map f).sum =
      ((projectPending p w).positions.values.map f).sum
        - ((projectPending p w).positions.get? x.symbol).elim 0 f
        + f (committedPosition p (projectPending p w) x) := by
  rw [positions_append hw he]
  exact Dict.sum_values_set f _ _ _

theorem marketValue_get? (c : Portfolio) (s : String) :
    (c.positions.get? s).elim 0 Position.marketValue = c.held s * markOf c s := by
  unfold markOf markIn Portfolio.held Portfolio.position
  cases hg : c.positions.get? s with
  | none => simp
  | some q => cases hl : q.lastPrice <;> simp [Position.marketValue, hl]

theorem exposure_get? (c : Portfolio) (s : String) :
    (c.positions.get? s).elim 0 Position.exposure = |c.held s| * |markOf c s| := by
  rw [← abs_mul, ← marketValue_get?]
  cases c.positions.get? s <;> simp [Position.exposure]

theorem markOf_append (hw : 0 < x.remainingQty) (he : reducesPosition x p = false) (s : String) :
    markOf (projectPending p (w ++ [x])) s =
      ((markIn (projectPending p w).positions s).or (if x.symbol = s then priceOf p x else none)).getD 0 := by
  unfold markOf
  rw [markIn_append hw he]

theorem marketValue_committed (p c : Portfolio) (x : Order) : (committedPosition p c x).marketValue =
    (c.held x.symbol + signedRemaining x) * ((markIn c.positions x.symbol).or (priceOf p x)).getD 0 := by
  unfold committedPosition Position.marketValue
  cases (markIn c.positions x.symbol).or (priceOf p x) <;> simp

/-- What is held without a mark is held without one still. -/
theorem unmarked_append (hw : 0 < x.remainingQty) (he : reducesPosition x p = false) (hun : LeavesUnmarked p w x)
    (hnil : (projectPending p (w ++ [x])).unmarkedSymbols = []) : (projectPending p w).unmarkedSymbols = [] := by
  rw [unmarkedSymbols_eq_nil] at hnil ⊢
  have hothers : ∀ s, s ≠ x.symbol → (projectPending p w).held s ≠ 0 →
      (markIn (projectPending p w).positions s).isSome := by
    intro s hs hheld
    have hmark := hnil s (by rwa [held_append hw he, if_neg hs.symm, add_zero])
    rwa [markIn_append hw he, if_neg hs.symm, Option.or_none] at hmark
  intro s hheld
  by_cases hs : s = x.symbol
  · subst hs
    cases hmark : markIn (projectPending p w).positions x.symbol with
    | some mark => rfl
    | none =>
      obtain ⟨hprice, hopen⟩ := hun hothers hheld hmark
      have hmarked := hnil x.symbol (by rwa [held_append hw he, if_pos rfl])
      rw [markIn_append hw he, hmark, if_pos rfl, hprice] at hmarked
      cases hmarked
  · exact hothers s hs hheld

/-- **One order more does not raise the equity**, where nothing of the committed book is without a mark. -/
theorem equity_append_le (hw : 0 < x.remainingQty) (he : reducesPosition x p = false) (hgain : NoGain p w x)
    (hnil : (projectPending p w).unmarkedSymbols = []) :
    (projectPending p (w ++ [x])).equity ≤ (projectPending p w).equity := by
  unfold Portfolio.equity Portfolio.totalMarketValue
  rw [cash_append hw he, sum_append _ hw he, marketValue_get?, marketValue_committed]
  cases hmark : markIn (projectPending p w).positions x.symbol with
  | some mark =>
    have hle := hgain mark hmark
    simp only [markOf, hmark, Option.some_or, Option.getD_some]
    linarith
  | none =>
    have hheld : (projectPending p w).held x.symbol = 0 := by
      by_contra hne
      have hsome := (unmarkedSymbols_eq_nil _).1 hnil x.symbol hne
      rw [hmark] at hsome
      cases hsome
    simp only [markOf, hheld, hmark, Option.none_or, Option.getD_none]
    linarith

theorem priceFor_append (hw : 0 < x.remainingQty) (he : reducesPosition x p = false) (hun : LeavesUnpriced p w o x) :
    priceFor o (projectPending p (w ++ [x])) = priceFor o (projectPending p w) := by
  unfold priceFor referencePrice
  cases hlimit : o.limitPrice with
  | some price => rfl
  | none =>
    have hmark := markIn_append (w := w) hw he o.symbol
    have hsame : markIn (projectPending p (w ++ [x])).positions o.symbol = markIn (projectPending p w).positions o.symbol := by
      rw [hmark]
      by_cases hs : x.symbol = o.symbol
      · rw [if_pos hs]
        cases hm : markIn (projectPending p w).positions o.symbol with
        | some mark => rfl
        | none => rw [hun hlimit hs.symm (hs ▸ hm), Option.or_none]
      · rw [if_neg hs, Option.or_none]
    exact hsame

/-! ## The bounds -/

/-- **The bound of every symbol grows with what is in flight.** -/
theorem worst_append (k : ℚ) (s : String) : worst k (producibleQuantities s (booksOf p w)) ≤
    worst k (producibleQuantities s (booksOf p (w ++ [x]))) := by
  refine worst_le (worst_nonneg _ _) fun q hq => abs_le_worst_interval ?_ ?_ <;>
    rw [workingOn_append] <;>
    · have hb := workingOn_nonneg .buy s w
      have hs := workingOn_nonneg .sell s w
      have hbx := workingOn_nonneg .buy s [x]
      have hsx := workingOn_nonneg .sell s [x]
      obtain ⟨hlo, hhi⟩ := held_projectPending_mem (p := p) (w := w) s
      rcases (mem_producible s q).1 hq with rfl | rfl | rfl | rfl <;> linarith

/-- A symbol the order is not in has the same outcomes as before. -/
theorem producible_append (hw : 0 < x.remainingQty) (he : reducesPosition x p = false) {s : String} (hs : x.symbol ≠ s) :
    producibleQuantities s (booksOf p (w ++ [x])) = producibleQuantities s (booksOf p w) := by
  have hheld := held_append (w := w) hw he s
  rw [if_neg hs, add_zero] at hheld
  have hwork (side : Side) : workingOn side s (w ++ [x]) = workingOn side s w := by
    rw [workingOn_append]
    simp [workingOn, hs]
  simp only [producibleQuantities, booksOf, inFlightBySymbol_get, hwork, hheld]

theorem worstResultingQty_append : worstResultingQty o (booksOf p w) ≤
    worstResultingQty o (booksOf p (w ++ [x])) := worst_append _ _

/-! ## The five rules -/

/-- The start the two exposure ceilings share, and what is left to show of each. -/
theorem valued_append {rule : String} {measure measure' : ℚ → ℚ → RiskDecision} (hw : 0 < x.remainingQty)
    (he : reducesPosition x p = false) (hun : LeavesUnmarked p w x) (hgain : NoGain p w x) (hpriced : LeavesUnpriced p w o x)
    (hmeasure : ∀ price, priceFor o (projectPending p w) = some price →
      (projectPending p (w ++ [x])).unmarkedSymbols = [] → 0 < (projectPending p (w ++ [x])).equity →
        (projectPending p (w ++ [x])).equity ≤ (projectPending p w).equity →
          (measure price (projectPending p w).equity).approved = false →
            (measure' price (projectPending p (w ++ [x])).equity).approved = false)
    (hd : (valued rule o (booksOf p w) measure).approved = false) :
    (valued rule o (booksOf p (w ++ [x])) measure').approved = false := by
  have hprice : priceFor o (booksOf p (w ++ [x])).committed = priceFor o (booksOf p w).committed :=
    priceFor_append hw he hpriced
  unfold valued unpricedBook at hd ⊢
  cases hexit : closesWithoutReversing o p with
  | true => simp [booksOf, hexit, RiskDecision.allow] at hd
  | false =>
    have hsettled : closesWithoutReversing o (booksOf p w).settled = false := hexit
    have hsettled' : closesWithoutReversing o (booksOf p (w ++ [x])).settled = false := hexit
    rw [hsettled', hprice]
    rw [hsettled] at hd
    cases hu' : (booksOf p (w ++ [x])).committed.unmarkedSymbols with
    | cons _ _ => rfl
    | nil =>
      have hu : (booksOf p w).committed.unmarkedSymbols = [] := unmarked_append hw he hun hu'
      have hequity := equity_append_le hw he hgain hu
      rw [hu] at hd
      cases hp : priceFor o (booksOf p w).committed with
      | none => rfl
      | some price =>
        rw [hp] at hd
        by_cases hbroke : (booksOf p (w ++ [x])).committed.equity ≤ 0
        · simp [hbroke, RiskDecision.deny]
        · have hworth : ¬(booksOf p w).committed.equity ≤ 0 := fun hle => hbroke (hequity.trans hle)
          simp only [Bool.false_eq_true, if_false, hworth] at hd
          simp only [Bool.false_eq_true, if_false, hbroke]
          exact hmeasure price hp hu' (not_le.1 hbroke) hequity hd

theorem maxPositionSize_append {limits : RiskLimits} (hw : 0 < x.remainingQty) (he : reducesPosition x p = false)
    (hun : LeavesUnmarked p w x) (hgain : NoGain p w x) (hpriced : LeavesUnpriced p w o x)
    (hd : (maxPositionSizeCheck o (booksOf p w) limits).approved = false) :
    (maxPositionSizeCheck o (booksOf p (w ++ [x])) limits).approved = false := by
  refine valued_append hw he hun hgain hpriced (fun price _ _ hworth hequity hdenied => ?_) hd
  have hover : limits.maxPositionPct * (projectPending p w).equity <
      worstResultingQty o (booksOf p w) * price := by
    by_contra hle
    simp [hle, RiskDecision.allow] at hdenied
  -- a quantity past a positive ceiling is priced above zero
  have hpositive : 0 < worstResultingQty o (booksOf p w) * price :=
    (mul_pos limits.positionPct_pos (hworth.trans_le hequity)).trans hover
  have hprice : 0 < price := pos_of_mul_pos_right hpositive (worst_nonneg _ _)
  have hceiling := mul_le_mul_of_nonneg_left hequity limits.positionPct_pos.le
  have hgrows := mul_le_mul_of_nonneg_right (worstResultingQty_append (p := p) (w := w) (o := o) (x := x)) hprice.le
  rw [if_pos (hceiling.trans_lt (hover.trans_le hgrows))]
  rfl

theorem reducesPosition_settled (w : List Order) : reducesPosition o (booksOf p w).settled = reducesPosition o p := rfl

theorem dailyLossLimit_append {limits : RiskLimits} {dayStart : Option ℚ} (hw : 0 < x.remainingQty)
    (he : reducesPosition x p = false) (hun : LeavesUnmarked p w x) (hgain : NoGain p w x)
    (hd : (dailyLossLimitCheck dayStart o (booksOf p w) limits).approved = false) :
    (dailyLossLimitCheck dayStart o (booksOf p (w ++ [x])) limits).approved = false := by
  unfold dailyLossLimitCheck unpricedBook at hd ⊢
  cases hexit : reducesPosition o p with
  | true => simp [booksOf, hexit, RiskDecision.allow] at hd
  | false =>
    rw [reducesPosition_settled, hexit] at hd ⊢
    cases dayStart with
    | none => rfl
    | some start =>
      by_cases hs : start ≤ 0
      · simp [hs, RiskDecision.deny]
      cases hu' : (booksOf p (w ++ [x])).committed.unmarkedSymbols with
      | cons _ _ => simp [hs, RiskDecision.deny]
      | nil =>
        have hu : (booksOf p w).committed.unmarkedSymbols = [] := unmarked_append hw he hun hu'
        have hchange : ((booksOf p (w ++ [x])).committed.equity - start) / start ≤
            ((booksOf p w).committed.equity - start) / start := by
          refine div_le_div_of_nonneg_right ?_ (not_le.1 hs).le
          have hequity : (booksOf p (w ++ [x])).committed.equity ≤ (booksOf p w).committed.equity :=
            equity_append_le hw he hgain hu
          linarith
        have hdown : ((booksOf p w).committed.equity - start) / start ≤ -limits.maxDailyLossPct := by
          by_contra hle
          simp [hs, hu, hle, RiskDecision.allow] at hd
        simp [hs, hchange.trans hdown, RiskDecision.deny]

theorem buyingPower_append (hw : 0 < x.remainingQty) (he : reducesPosition x p = false) (hpriced : LeavesUnpriced p w o x)
    (hcash : NoCredit p x) (hd : (buyingPowerCheck o (booksOf p w)).approved = false) :
    (buyingPowerCheck o (booksOf p (w ++ [x]))).approved = false := by
  have hprice : priceFor o (booksOf p (w ++ [x])).committed = priceFor o (booksOf p w).committed :=
    priceFor_append hw he hpriced
  unfold buyingPowerCheck at hd ⊢
  cases hexit : reducesPosition o p with
  | true => simp [booksOf, hexit, RiskDecision.allow] at hd
  | false =>
    rw [reducesPosition_settled, hexit] at hd ⊢
    rw [hprice]
    cases hp : priceFor o (booksOf p w).committed with
    | none => rfl
    | some price =>
      rw [hp] at hd
      have hshort : (booksOf p w).committed.cash < o.qty * price := by
        by_contra hle
        simp [hle, RiskDecision.allow] at hd
      have hless : (booksOf p (w ++ [x])).committed.cash ≤ (booksOf p w).committed.cash := by
        show (projectPending p (w ++ [x])).cash ≤ (projectPending p w).cash
        rw [cash_append hw he]
        unfold NoCredit at hcash
        linarith
      simp [hless.trans_lt hshort, RiskDecision.deny]

/-- How many positions are open, as a total. -/
theorem openPositions_length (c : Portfolio) :
    (c.openPositions.length : ℤ) = (c.positions.values.map (fun q => if q.qty = 0 then 0 else (1 : ℤ))).sum := by
  unfold Portfolio.openPositions
  induction c.positions.values with
  | nil => rfl
  | cons q l ih =>
    by_cases hq : q.qty = 0
    · rw [List.filter_cons_of_neg (by simp [Position.isFlat, hq]), ih]
      simp [hq]
    · rw [List.filter_cons_of_pos (by simp [Position.isFlat, hq]), List.length_cons, Nat.cast_succ, ih]
      simp [hq, add_comm]

/-- What the count gains with one order more. -/
theorem openPositions_append (hw : 0 < x.remainingQty) (he : reducesPosition x p = false) :
    ((projectPending p (w ++ [x])).openPositions.length : ℤ) = (projectPending p w).openPositions.length
      - (if (projectPending p w).held x.symbol = 0 then 0 else 1)
      + if (projectPending p w).held x.symbol + signedRemaining x = 0 then 0 else 1 := by
  have htotal := sum_append (w := w) (fun q => if q.qty = 0 then 0 else (1 : ℤ)) hw he
  have hold : ((projectPending p w).positions.get? x.symbol).elim 0
      (fun q => if q.qty = 0 then 0 else (1 : ℤ)) = if (projectPending p w).held x.symbol = 0 then 0 else 1 := by
    cases hg : (projectPending p w).positions.get? x.symbol with
    | none => simp [Portfolio.held_none _ hg]
    | some q => simp [Portfolio.held_eq _ hg]
  rw [hold, ← openPositions_length, ← openPositions_length] at htotal
  exact htotal

theorem maxOpenPositions_append {limits : RiskLimits} (hw : 0 < x.remainingQty) (he : reducesPosition x p = false)
    (hcount : KeepsCount limits p w o x) (hd : (maxOpenPositionsCheck o (booksOf p w) limits).approved = false) :
    (maxOpenPositionsCheck o (booksOf p (w ++ [x])) limits).approved = false := by
  unfold maxOpenPositionsCheck at hd ⊢
  simp only [booksOf] at hd ⊢
  by_cases hheld : (projectPending p w).held o.symbol = 0
  · have hne : x.symbol ≠ o.symbol := fun heq => hcount.1 heq hheld
    have hheld' : (projectPending p (w ++ [x])).held o.symbol = 0 := by
      rw [held_append hw he, hheld, if_neg hne, add_zero]
    have hcap : limits.maxOpenPositions ≤ (projectPending p w).openPositions.length := by
      by_contra hle
      simp [hheld, hle, RiskDecision.allow] at hd
    have hcap' : limits.maxOpenPositions ≤ (projectPending p (w ++ [x])).openPositions.length := by
      have htotal := openPositions_append (w := w) hw he
      by_cases hflat : (projectPending p w).held x.symbol + signedRemaining x = 0
      · rw [if_pos hflat] at htotal
        by_cases h0 : (projectPending p w).held x.symbol = 0
        · rw [if_pos h0] at htotal
          omega
        · have hover := hcount.2 h0 hflat
          rw [if_neg h0] at htotal
          omega
      · rw [if_neg hflat] at htotal
        split at htotal <;> omega
    simp [hheld', hcap', RiskDecision.deny]
  · simp [hheld, RiskDecision.allow] at hd

theorem grossExposure_append (hw : 0 < x.remainingQty) (he : reducesPosition x p = false) :
    (projectPending p (w ++ [x])).grossExposure = (projectPending p w).grossExposure
      - |(projectPending p w).held x.symbol| * |markOf (projectPending p w) x.symbol|
      + |(projectPending p w).held x.symbol + signedRemaining x| *
        |markOf (projectPending p (w ++ [x])) x.symbol| := by
  have htotal := sum_append (w := w) Position.exposure hw he
  have hnew : (committedPosition p (projectPending p w) x).exposure =
      |(projectPending p w).held x.symbol + signedRemaining x| *
        |markOf (projectPending p (w ++ [x])) x.symbol| := by
    unfold Position.exposure
    rw [marketValue_committed, abs_mul, markOf_append hw he, if_pos rfl]
  rw [exposure_get?, hnew] at htotal
  exact htotal

/-- The exposure loop ends where every symbol that can still grow has a mark. -/
theorem addWorking_isOk {books : RiskBooks} : ∀ (l : List String) (total : ℚ),
    (∀ s ∈ l, s ≠ o.symbol → 0 < extra s books → (markIn books.committed.positions s).isSome) →
      ∃ resulting, addWorking o books l total = .ok resulting
  | [], total, _ => ⟨total, rfl⟩
  | s :: l, total, h => by
    have hl (total : ℚ) := addWorking_isOk l total (fun t ht => h t (by simp [ht]))
    unfold addWorking
    by_cases hs : s = o.symbol
    · rw [if_pos hs]
      exact hl total
    · rw [if_neg hs]
      by_cases hx : worstMagnitude s books - |books.committed.held s| ≤ 0
      · simp only [if_pos hx]
        exact hl total
      · obtain ⟨mark, hmark⟩ := Option.isSome_iff_exists.1 (h s (by simp) hs (not_le.1 hx))
        unfold markIn at hmark
        simp only [if_neg hx, hmark]
        exact hl _

theorem inFlight_keys_append {s : String} (h : s ∈ (inFlightBySymbol w).keys) :
    s ∈ (inFlightBySymbol (w ++ [x])).keys := by
  have hadd (totals : Dict String (ℚ × ℚ)) (hs : (totals.get? s).isSome) : ((addInFlight totals x).get? s).isSome := by
    unfold addInFlight
    by_cases hr : x.remainingQty ≤ 0
    · rwa [if_pos hr]
    · rw [if_neg hr]
      by_cases hsym : s = x.symbol <;> cases x.side <;> simp [Dict.get?_set, hsym, hs]
  rw [Dict.mem_keys_iff] at h ⊢
  unfold inFlightBySymbol at h ⊢
  rw [List.foldl_append]
  exact hadd _ h

/-- What the exposure rule measures of a book. -/
def measured (p : Portfolio) (w : List Order) (o : Order) (price : ℚ) (S : Finset String) : ℚ :=
  ownExposure o (booksOf p w) price +
    ∑ s ∈ S, if s = o.symbol then 0 else extra s (booksOf p w) * markOf (projectPending p w) s

theorem ownExposure_eq (price : ℚ) : ownExposure o (booksOf p w) price = (projectPending p w).grossExposure +
    (worstResultingQty o (booksOf p w) - |(projectPending p w).held o.symbol|) * price := by
  simp only [ownExposure, booksOf]
  ring

/-- The other symbols are measured as before. -/
theorem extra_append (hw : 0 < x.remainingQty) (he : reducesPosition x p = false) {s : String} (hs : x.symbol ≠ s) :
    extra s (booksOf p (w ++ [x])) * markOf (projectPending p (w ++ [x])) s =
      extra s (booksOf p w) * markOf (projectPending p w) s := by
  have hheld := held_append (w := w) hw he s
  have hmark := markOf_append (w := w) hw he s
  rw [if_neg hs, add_zero] at hheld
  rw [if_neg hs, Option.or_none] at hmark
  simp only [extra, worstMagnitude, producible_append hw he hs, hmark]
  simp only [booksOf, hheld, markOf]

/-- **What the gross exposure gains with one order more**, where nothing of the committed book is without a mark. -/
theorem grossExposure_grown (hw : 0 < x.remainingQty) (he : reducesPosition x p = false)
    (hnil : (projectPending p w).unmarkedSymbols = []) : (projectPending p (w ++ [x])).grossExposure =
      (projectPending p w).grossExposure + grown p w x * |markWith p w x| := by
  have hmark : markOf (projectPending p (w ++ [x])) x.symbol = markWith p w x := by
    rw [markOf_append hw he, if_pos rfl]
    rfl
  have hold : |(projectPending p w).held x.symbol| * |markOf (projectPending p w) x.symbol| =
      |(projectPending p w).held x.symbol| * |markWith p w x| := by
    by_cases hheld : (projectPending p w).held x.symbol = 0
    · rw [hheld, abs_zero, zero_mul, zero_mul]
    · obtain ⟨mark, hm⟩ := Option.isSome_iff_exists.1 ((unmarkedSymbols_eq_nil _).1 hnil _ hheld)
      simp only [markOf, markWith, hm, Option.some_or]
  rw [grossExposure_append hw he, hmark, hold]
  unfold grown
  ring

/-- One order more, in the symbol of the order under test: only its own bound moves. -/
theorem measured_same {price : ℚ} {S : Finset String} (hw : 0 < x.remainingQty) (he : reducesPosition x p = false)
    (hkeeps : KeepsExposure p w o x) (hnil : (projectPending p w).unmarkedSymbols = []) (hs : x.symbol = o.symbol)
    (hprice : priceFor o (projectPending p w) = some price) :
    measured p w o price S ≤ measured p (w ++ [x]) o price S := by
  have hheld := held_append (w := w) hw he o.symbol
  rw [if_pos hs, ← hs] at hheld
  have hrest : ∑ s ∈ S, (if s = o.symbol then 0 else
      extra s (booksOf p (w ++ [x])) * markOf (projectPending p (w ++ [x])) s) =
        ∑ s ∈ S, if s = o.symbol then 0 else extra s (booksOf p w) * markOf (projectPending p w) s := by
    refine Finset.sum_congr rfl fun s _ => ?_
    by_cases hso : s = o.symbol
    · simp [hso]
    · rw [if_neg hso, if_neg hso, extra_append hw he (fun heq => hso (heq.symm.trans hs))]
  have hown := hkeeps.2 hs price hprice
  unfold measured
  rw [hrest, ownExposure_eq, ownExposure_eq, grossExposure_grown hw he hnil, ← hs, hheld]
  unfold grown at hown ⊢
  linarith

/-- The other symbol's own part of what is measured grows. -/
theorem exposure_other (hw : 0 < x.remainingQty) (he : reducesPosition x p = false) (hkeeps : KeepsExposure p w o x)
    (hnil : (projectPending p w).unmarkedSymbols = []) (hs : x.symbol ≠ o.symbol) :
    (projectPending p w).grossExposure
      + extra x.symbol (booksOf p w) * markOf (projectPending p w) x.symbol ≤
    (projectPending p (w ++ [x])).grossExposure
      + extra x.symbol (booksOf p (w ++ [x])) * markOf (projectPending p (w ++ [x])) x.symbol := by
  obtain ⟨hpos, -⟩ := hkeeps.1 hs
  have hmark : markOf (projectPending p (w ++ [x])) x.symbol = markWith p w x := by
    rw [markOf_append hw he, if_pos rfl]
    rfl
  have hheld := held_append (w := w) hw he x.symbol
  rw [if_pos rfl] at hheld
  have hextra : extra x.symbol (booksOf p w) = worstMagnitude x.symbol (booksOf p w)
      - |(projectPending p w).held x.symbol| := rfl
  have hextra' : extra x.symbol (booksOf p (w ++ [x])) = worstMagnitude x.symbol (booksOf p (w ++ [x]))
      - |(projectPending p w).held x.symbol + signedRemaining x| := by
    rw [← hheld]
    rfl
  rw [grossExposure_grown hw he hnil, hextra, hextra', hmark, abs_of_nonneg hpos]
  unfold grown
  cases hm : markIn (projectPending p w).positions x.symbol with
  | some mark =>
    have hworst : worstMagnitude x.symbol (booksOf p w) ≤ worstMagnitude x.symbol (booksOf p (w ++ [x])) :=
      worst_append _ _
    have hold : markOf (projectPending p w) x.symbol = markWith p w x := by
      simp only [markOf, markWith, hm, Option.some_or]
    rw [hold]
    have := mul_le_mul_of_nonneg_right hworst hpos
    linarith
  | none =>
    have hflat : (projectPending p w).held x.symbol = 0 := by
      by_contra hne
      have hsome := (unmarkedSymbols_eq_nil _).1 hnil x.symbol hne
      rw [hm] at hsome
      cases hsome
    have hold : markOf (projectPending p w) x.symbol = 0 := by
      simp only [markOf, hm, Option.getD_none]
    have hnew := mul_nonneg (worst_nonneg 0 (producibleQuantities x.symbol (booksOf p (w ++ [x])))) hpos
    rw [hold, hflat]
    simp only [worstMagnitude, abs_zero, sub_zero, mul_zero, zero_add, add_zero]
    linarith

/-- One order more, in another symbol: that symbol's bound moves, at its mark. -/
theorem measured_other {price : ℚ} {S : Finset String} (hw : 0 < x.remainingQty) (he : reducesPosition x p = false)
    (hkeeps : KeepsExposure p w o x) (hnil : (projectPending p w).unmarkedSymbols = []) (hs : x.symbol ≠ o.symbol)
    (hS : x.symbol ∈ S) : measured p w o price S ≤ measured p (w ++ [x]) o price S := by
  have hheld := held_append (w := w) hw he o.symbol
  rw [if_neg hs, add_zero] at hheld
  have hown : worstResultingQty o (booksOf p (w ++ [x])) = worstResultingQty o (booksOf p w) := by
    unfold worstResultingQty
    rw [producible_append hw he hs]
  have hrest : ∑ s ∈ S.erase x.symbol, (if s = o.symbol then 0 else
      extra s (booksOf p (w ++ [x])) * markOf (projectPending p (w ++ [x])) s) =
        ∑ s ∈ S.erase x.symbol, if s = o.symbol then 0 else
          extra s (booksOf p w) * markOf (projectPending p w) s := by
    refine Finset.sum_congr rfl fun s hmem => ?_
    rw [extra_append hw he (Finset.ne_of_mem_erase hmem).symm]
  have hbefore := Finset.add_sum_erase S
    (fun s => if s = o.symbol then 0 else extra s (booksOf p w) * markOf (projectPending p w) s) hS
  have hafter := Finset.add_sum_erase S (fun s => if s = o.symbol then 0 else
    extra s (booksOf p (w ++ [x])) * markOf (projectPending p (w ++ [x])) s) hS
  simp only [if_neg hs] at hbefore hafter
  unfold measured
  rw [← hbefore, ← hafter, hrest, ownExposure_eq, ownExposure_eq, hown, hheld]
  have := exposure_other hw he hkeeps hnil hs
  linarith

/-- An order with something left moves its symbol. -/
theorem signedRemaining_ne (hw : 0 < x.remainingQty) : signedRemaining x ≠ 0 := by
  unfold signedRemaining
  cases x.side <;> simpa [Side.sign] using hw.ne'

/-- **What the loop can value it could value before**: a symbol still to grow has its mark without the order. -/
theorem marked_before (hw : 0 < x.remainingQty) (he : reducesPosition x p = false) (hkeeps : KeepsExposure p w o x)
    (hnil : (projectPending p w).unmarkedSymbols = []) (hnil' : (projectPending p (w ++ [x])).unmarkedSymbols = [])
    (hmarks' : ∀ s ∈ (inFlightBySymbol (w ++ [x])).keys, s ≠ o.symbol → 0 < extra s (booksOf p (w ++ [x])) →
      (markIn (projectPending p (w ++ [x])).positions s).isSome) {s : String} (hs : s ∈ (inFlightBySymbol w).keys)
    (hne : s ≠ o.symbol) (hgrows : 0 < extra s (booksOf p w)) : (markIn (projectPending p w).positions s).isSome := by
  by_cases hx : x.symbol = s
  · subst hx
    cases hmark : markIn (projectPending p w).positions x.symbol with
    | some mark => rfl
    | none =>
      have hflat : (projectPending p w).held x.symbol = 0 := by
        by_contra hheld
        have hsome := (unmarkedSymbols_eq_nil _).1 hnil x.symbol hheld
        rw [hmark] at hsome
        cases hsome
      cases hprice : priceOf p x with
      | some price =>
        have hidle := (hkeeps.1 hne).2 hmark (by simp [hprice])
        have hextra : extra x.symbol (booksOf p w) = worstMagnitude x.symbol (booksOf p w)
            - |(projectPending p w).held x.symbol| := rfl
        rw [hextra, hidle, hflat, abs_zero, sub_zero] at hgrows
        exact absurd hgrows (lt_irrefl 0)
      | none =>
        -- held now, and neither the mark nor a price to value it by
        have hheld' : (projectPending p (w ++ [x])).held x.symbol ≠ 0 := by
          rw [held_append hw he, if_pos rfl, hflat, zero_add]
          exact signedRemaining_ne hw
        have hsome := (unmarkedSymbols_eq_nil _).1 hnil' x.symbol hheld'
        rw [markIn_append hw he, hmark, if_pos rfl, hprice] at hsome
        cases hsome
  · have hextra : extra s (booksOf p (w ++ [x])) = extra s (booksOf p w) := by
      have hheld := held_append (w := w) hw he s
      rw [if_neg hx, add_zero] at hheld
      simp only [extra, worstMagnitude, producible_append hw he hx]
      simp only [booksOf, hheld]
    have hmark := hmarks' s (inFlight_keys_append hs) hne (by rwa [hextra])
    have hsame := markIn_append (w := w) hw he s
    rw [if_neg hx, Option.or_none] at hsame
    rw [← hsame]
    exact hmark

theorem maxExposure_append {limits : RiskLimits} (hw : 0 < x.remainingQty) (he : reducesPosition x p = false)
    (hun : LeavesUnmarked p w x) (hgain : NoGain p w x) (hpriced : LeavesUnpriced p w o x) (hkeeps : KeepsExposure p w o x)
    (hd : (maxExposureCheck o (booksOf p w) limits).approved = false) :
    (maxExposureCheck o (booksOf p (w ++ [x])) limits).approved = false := by
  refine valued_append hw he hun hgain hpriced (fun price hp hnil' _ hequity hdenied => ?_) hd
  have hnil := unmarked_append hw he hun hnil'
  let S : Finset String := (inFlightBySymbol (w ++ [x])).keys.toFinset ∪ {x.symbol}
  have hS' : ∀ s ∈ (inFlightBySymbol (w ++ [x])).keys, s ∈ S := fun s hs => by simp [S, hs]
  have hS : ∀ s ∈ (inFlightBySymbol w).keys, s ∈ S := fun s hs => hS' s (inFlight_keys_append hs)
  cases hwork' : addWorking o (booksOf p (w ++ [x])) (booksOf p (w ++ [x])).inFlight.keys
      (ownExposure o (booksOf p (w ++ [x])) price) with
  | error _ => rfl
  | ok resulting' =>
    obtain ⟨hsum', hmarks'⟩ := addWorking_ok hwork'
    obtain ⟨resulting, hwork⟩ := addWorking_isOk (inFlightBySymbol w).keys (ownExposure o (booksOf p w) price)
      fun s hs hne hgrows => marked_before hw he hkeeps hnil hnil' hmarks' hs hne hgrows
    have hmeasured : resulting = measured p w o price S := by
      rw [(addWorking_ok hwork).1, measured, ← sum_working hS]
      rfl
    have hmeasured' : resulting' = measured p (w ++ [x]) o price S := by
      rw [hsum', measured, ← sum_working hS']
      rfl
    have hgrows : resulting ≤ resulting' := by
      rw [hmeasured, hmeasured']
      by_cases hs : x.symbol = o.symbol
      · exact measured_same hw he hkeeps hnil hs hp
      · exact measured_other hw he hkeeps hnil hs (by simp [S])
    have hover : limits.maxGrossExposurePct * (projectPending p w).equity < resulting := by
      by_contra hle
      have hwork : addWorking o (booksOf p w) (booksOf p w).inFlight.keys
        (ownExposure o (booksOf p w) price) = .ok resulting := hwork
      simp [hwork, hle, RiskDecision.allow] at hdenied
    have hceiling := mul_le_mul_of_nonneg_left hequity limits.grossPct_pos.le
    simp [hceiling.trans_lt (hover.trans_le hgrows), RiskDecision.deny]

/-! ## The chain of them -/

/-- A rule that answers with a denial or a plain approval, and keeps its state. -/
def Plain (r : RiskRule RiskLimits (Option ℚ)) : Prop :=
  ∀ o books limits s, (r.check o books limits s).2 = s ∧ (r.check o books limits s).1.adjustedQty = none

theorem runRules_denied {books : RiskBooks} {limits : RiskLimits} {s : Option ℚ} :
    ∀ {rules : List (RiskRule RiskLimits (Option ℚ))}, (∀ r ∈ rules, Plain r) →
      ((runRules books limits rules o none s).1.approved = false ↔
        ∃ r ∈ rules, (r.check o books limits s).1.approved = false)
  | [], _ => by simp [runRules]
  | r :: rules, h => by
    have ih : (runRules books limits rules o none s).1.approved = false ↔ _ := runRules_denied
      (fun r' hr' => h r' (List.mem_cons_of_mem r hr'))
    obtain ⟨hstate, hplain⟩ := h r (by simp) o books limits s
    unfold runRules
    simp only [hstate, hplain]
    cases hd : (r.check o books limits s).1.approved with
    | false => simp [hd]
    | true =>
      simp only [Bool.not_true, Bool.false_eq_true, if_false]
      rw [ih]
      simp [hd]

theorem valued_plain {rule : String} {books : RiskBooks} {measure : ℚ → ℚ → RiskDecision}
    (h : ∀ price equity, (measure price equity).adjustedQty = none) : (valued rule o books measure).adjustedQty = none := by
  unfold valued unpricedBook
  split
  · rfl
  · cases books.committed.unmarkedSymbols with
    | cons _ _ => rfl
    | nil =>
      cases priceFor o books.committed with
      | none => rfl
      | some price =>
        show (if books.committed.equity ≤ 0 then _ else _ : RiskDecision).adjustedQty = none
        split
        · rfl
        · exact h _ _

theorem backtestRules_plain : ∀ r ∈ backtestRules, Plain r := by
  intro r hr o books limits s
  simp only [backtestRules, List.mem_cons, List.not_mem_nil, or_false] at hr
  rcases hr with rfl | rfl | rfl | rfl | rfl
  · refine ⟨rfl, valued_plain fun price equity => ?_⟩
    show (if _ then _ else _ : RiskDecision).adjustedQty = none
    split <;> rfl
  · refine ⟨rfl, valued_plain fun price equity => ?_⟩
    cases addWorking o books books.inFlight.keys (ownExposure o books price) with
    | error _ => rfl
    | ok resulting =>
      show (if _ then _ else _ : RiskDecision).adjustedQty = none
      split <;> rfl
  · refine ⟨rfl, ?_⟩
    show (maxOpenPositionsCheck o books limits).adjustedQty = none
    unfold maxOpenPositionsCheck
    split
    · rfl
    · split <;> rfl
  · refine ⟨rfl, ?_⟩
    show (dailyLossLimitCheck s o books limits).adjustedQty = none
    unfold dailyLossLimitCheck unpricedBook
    split
    · rfl
    · cases s with
      | none => rfl
      | some start =>
        show (if start ≤ 0 then _ else _ : RiskDecision).adjustedQty = none
        split
        · rfl
        · cases books.committed.unmarkedSymbols with
          | cons _ _ => rfl
          | nil =>
            show (if _ then _ else _ : RiskDecision).adjustedQty = none
            split <;> rfl
  · refine ⟨rfl, ?_⟩
    show (buyingPowerCheck o books).adjustedQty = none
    unfold buyingPowerCheck
    split
    · rfl
    · split
      · rfl
      · split <;> rfl

/-- An order with nothing left is not in the books. -/
theorem booksOf_append (hw : x.remainingQty ≤ 0) : booksOf p (w ++ [x]) = booksOf p w := by
  have hprojected : projected p (w ++ [x]) = projected p w := by
    simp [projected, List.filter_append, not_lt.2 hw]
  have hcommitted : projectPending p (w ++ [x]) = projectPending p w := by
    rw [projectPending_eq, projectPending_eq, hprojected]
  have hflight : inFlightBySymbol (w ++ [x]) = inFlightBySymbol w := by
    unfold inFlightBySymbol
    rw [List.foldl_append, List.foldl_cons, List.foldl_nil, addInFlight, if_pos hw]
  unfold booksOf
  rw [hcommitted, hflight]

/-- The chain is the five rules. -/
theorem exists_backtestRules {dayStart : Option ℚ} {limits : RiskLimits} {books : RiskBooks} :
    (∃ r ∈ backtestRules, (r.check o books limits dayStart).1.approved = false) ↔
      ∃ m : Measure, (m.check limits dayStart o books).approved = false := by
  unfold backtestRules
  simp only [List.exists_mem_cons_iff, List.not_mem_nil, false_and, exists_false, or_false]
  constructor
  · rintro (hd | hd | hd | hd | hd)
    · exact ⟨.positionSize, hd⟩
    · exact ⟨.exposure, hd⟩
    · exact ⟨.openPositions, hd⟩
    · exact ⟨.dailyLoss, hd⟩
    · exact ⟨.buyingPower, hd⟩
  · rintro ⟨m, hd⟩
    cases m with
    | positionSize => exact .inl hd
    | exposure => exact .inr (.inl hd)
    | openPositions => exact .inr (.inr (.inl hd))
    | dailyLoss => exact .inr (.inr (.inr (.inl hd)))
    | buyingPower => exact .inr (.inr (.inr (.inr hd)))

/-- **The chain denies exactly when a rule does.** -/
theorem validate_denied {dayStart : Option ℚ} {limits : RiskLimits} :
    (validate limits backtestRules o p w dayStart).1.approved = false ↔
      ∃ m : Measure, (m.check limits dayStart o (booksOf p w)).approved = false :=
  (runRules_denied backtestRules_plain).trans exists_backtestRules

/-- **No denial is undone by one order more in flight**, rule by rule, where the order leaves alone what that rule reads; and
so for the chain, where it does of a rule that denies. -/
theorem denial_persists {limits : RiskLimits} (dayStart : Option ℚ) (he : reducesPosition x p = false) :
    (∀ m : Measure, (0 < x.remainingQty → m.Spared limits p w o x) →
      (m.check limits dayStart o (booksOf p w)).approved = false →
        (m.check limits dayStart o (booksOf p (w ++ [x]))).approved = false) ∧
    ((∃ m : Measure, (0 < x.remainingQty → m.Spared limits p w o x) ∧
        (m.check limits dayStart o (booksOf p w)).approved = false) →
      (validate limits backtestRules o p (w ++ [x]) dayStart).1.approved = false) := by
  have hrules : ∀ m : Measure, (0 < x.remainingQty → m.Spared limits p w o x) →
      (m.check limits dayStart o (booksOf p w)).approved = false →
        (m.check limits dayStart o (booksOf p (w ++ [x]))).approved = false := by
    intro m hspared hd
    by_cases hw : 0 < x.remainingQty
    · have h := hspared hw
      cases m with
      | positionSize => exact maxPositionSize_append hw he h.1 h.2.1 h.2.2 hd
      | exposure => exact maxExposure_append hw he h.1 h.2.1 h.2.2.1 h.2.2.2 hd
      | openPositions => exact maxOpenPositions_append hw he h hd
      | dailyLoss => exact dailyLossLimit_append hw he h.1 h.2 hd
      | buyingPower => exact buyingPower_append hw he h.1 h.2 hd
    · rwa [booksOf_append (not_lt.1 hw)]
  refine ⟨hrules, fun ⟨m, hspared, hd⟩ => ?_⟩
  exact validate_denied.2 ⟨m, hrules m hspared hd⟩

/-- A hundred shares of one symbol at 100, and two flat symbols at the same mark. -/
def longBook : Portfolio where
  cash := 1000
  startingEquity := 11000
  positions := ((Dict.empty.set "SPY" { symbol := "SPY", qty := 100, avgEntryPrice := 100, lastPrice := some 100 }).set
    "AAPL" { symbol := "AAPL", lastPrice := some 100 }).set "MSFT" { symbol := "MSFT", lastPrice := some 100 }

def limits200 : RiskLimits where
  maxPositionPct := 1
  maxGrossExposurePct := 2
  maxDailyLossPct := 3 / 100
  maxOpenPositions := 20
  positionPct_pos := by decide +kernel
  positionPct_le := le_refl _
  grossPct_le := by decide +kernel
  position_le_gross := by decide +kernel
  lossPct_pos := limits95.lossPct_pos
  lossPct_le := limits95.lossPct_le
  openPositions_pos := limits95.openPositions_pos

def buyFifteen : Order where
  symbol := "AAPL"
  side := .buy
  qty := 15
  id := "o-3"
  clientOrderId := "c-3"

def workingIn (symbol : String) (side : Side) : Order where
  symbol := symbol
  side := side
  qty := 10
  id := "o-4"
  clientOrderId := "c-4"
  status := .submitted

/-- A purchase the account cannot pay for, with one more working in another symbol; and two purchases of the one flat symbol,
past the cap on a position. -/
theorem denial_persists_buy :
    (validate limits200 backtestRules buyFifteen longBook [workingIn "MSFT" .buy] (some 11000)).1.approved = false ∧
    (maxPositionSizeCheck { buyFifteen with qty := 200 } (booksOf longBook [workingIn "AAPL" .buy]) limits200).approved =
      false := by
  constructor
  · have hcredit : NoCredit longBook (workingIn "MSFT" .buy) := by
      unfold NoCredit
      decide +kernel
    have hpriced : LeavesUnpriced longBook [] buyFifteen (workingIn "MSFT" .buy) := fun _ hs => absurd hs (by decide +kernel)
    exact (denial_persists (some 11000) (x := workingIn "MSFT" .buy) (w := []) (by decide +kernel)).2
      ⟨.buyingPower, fun _ => ⟨hpriced, hcredit⟩, by decide +kernel⟩
  · have hunmarked : LeavesUnmarked longBook [] (workingIn "AAPL" .buy) := fun _ hheld _ => absurd hheld (by decide +kernel)
    have hgain : NoGain longBook [] (workingIn "AAPL" .buy) := by
      intro mark hmark
      have h100 : markIn (projectPending longBook []).positions "AAPL" = some 100 := by decide +kernel
      obtain rfl : 100 = mark := Option.some.inj (h100.symm.trans hmark)
      decide +kernel
    have hpriced : LeavesUnpriced longBook [] { buyFifteen with qty := 200 } (workingIn "AAPL" .buy) := fun _ _ hmark =>
      absurd hmark (by decide +kernel)
    exact (denial_persists none (x := workingIn "AAPL" .buy) (w := []) (by decide +kernel)).1 .positionSize
      (fun _ => ⟨hunmarked, hgain, hpriced⟩) (by decide +kernel)

/-- A purchase the account cannot pay for is refused with nothing in flight, and approved while a short entry works. -/
theorem short_entry_pays : ¬ ∀ (p : Portfolio) (w : List Order) (o x : Order) (limits : RiskLimits)
    (dayStart : Option ℚ), reducesPosition x p = false → 0 < x.remainingQty →
    (validate limits backtestRules o p w dayStart).1.approved = false →
      (validate limits backtestRules o p (w ++ [x]) dayStart).1.approved = false := by
  intro h
  have hdenied := h longBook [] buyFifteen (workingIn "MSFT" .sell) limits200 (some 11000) (by decide +kernel)
    (by decide +kernel) (by decide +kernel)
  exact absurd hdenied (by decide +kernel)

end Denials
end Atp
