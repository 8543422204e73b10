import Mathlib.Algebra.BigOperators.Ring.Finset
import AlgoTrading.Denials
import AlgoTrading.InFlightBound
import AlgoTrading.Runs
/-!
# Approvals — orders approved one after the other, before any of them fills

The book moves on a fill, so every order of a batch is validated against the same settled portfolio; what the chain has
approved already reaches the next call only as `pending`.  A run of `approves` is such a batch, and two ceilings are
followed along it:
- `positions_capped`: the cap on a position.  Its exemption of an exit is asked of the settled book alone, so exits that
  pass it one by one may together reverse the holding.
- `open_positions_capped`: the cap on how many symbols are open.  It counts the projected book, where a buy and a sell in
  flight of a symbol that is not held cancel out.
-/
namespace Atp
namespace Approvals

open Ceilings InFlight Projection Runs

/-- An order as it is when it is submitted: a size, and nothing filled. -/
structure IsNew (o : Order) : Prop where
  qty : 0 < o.qty
  filled : o.filledQty = 0

section
variable {L σ : Type}

/-- **One approval**: `o` is what the chain leaves of an order it approves beside what it has approved before, whatever
the state its rules are in. -/
def approves (limits : L) (rules : List (RiskRule L σ)) (p : Portfolio) (pending : List Order) (o : Order)
    (pending' : List Order) : Prop :=
  ∃ asked s, IsNew asked ∧ (validate limits rules asked p pending s).1.approved = true ∧
    (validate limits rules asked p pending s).2.1 = o ∧ pending' = pending ++ [o]

/-- **What an approval says of one rule of the chain**: it approved the order at a size that is no smaller than the one
the order is left with. -/
theorem runRules_approved {books : RiskBooks} {limits : L} {r : RiskRule L σ} {rules : List (RiskRule L σ)} {o : Order}
    {adjusted : Option { q : ℚ // 0 < q }} {s : σ} (hrules : ∀ x ∈ rules, x.OnlyShrinks) (hadj : ∀ q ∈ adjusted, q.1 = o.qty)
    (ha : (runRules books limits rules o adjusted s).1.approved = true) (hr : r ∈ rules) :
    ∃ q s', (runRules books limits rules o adjusted s).2.1.qty ≤ q ∧
      (r.check { o with qty := q } books limits s').1.approved = true := by
  induction rules generalizing o adjusted s with
  | nil => cases hr
  | cons x rules ih =>
    have hrest : ∀ x ∈ rules, x.OnlyShrinks := fun y hy => hrules y (List.mem_cons_of_mem _ hy)
    have hsize := (runRules_shrinks books limits (x :: rules) o adjusted s hrules hadj).1
    rcases List.mem_cons.1 hr with rfl | hr
    · have hd : (r.check o books limits s).1.approved = true := by
        cases hd : (r.check o books limits s).1.approved with
        | true => rfl
        | false => simp [runRules, hd] at ha
      exact ⟨o.qty, s, hsize, hd⟩
    · unfold runRules at ha ⊢
      cases hd : (x.check o books limits s).1.approved with
      | false => simp [hd] at ha
      | true =>
        cases hq : (x.check o books limits s).1.adjustedQty with
        | none =>
          simp only [hd, hq] at ha ⊢
          exact ih hrest hadj ha hr
        | some y =>
          simp only [hd, hq] at ha ⊢
          exact ih (o := { o with qty := y.1 }) hrest (by simp) ha hr

variable {limits : L} {rules : List (RiskRule L σ)} {p : Portfolio} {w w' : List Order} {o : Order}

/-- **What one approval says**: the order is as new as the one that was validated, and each rule of the chain approved it
at a size no smaller than its own. -/
theorem approves_spec (hrules : ∀ r ∈ rules, r.OnlyShrinks) (h : approves limits rules p w o w') :
    IsNew o ∧ w' = w ++ [o] ∧ ∀ r ∈ rules, ∃ q s, o.qty ≤ q ∧
      (r.check { o with qty := q } (booksOf p w) limits s).1.approved = true := by
  obtain ⟨asked, s, hnew, ha, rfl, rfl⟩ := h
  obtain ⟨q, hleft, hpos, -⟩ := validate_order limits rules asked p w s
  refine ⟨?_, rfl, fun r hr => ?_⟩
  · rw [hleft]
    exact ⟨hpos hnew.qty, hnew.filled⟩
  · obtain ⟨Q, s', hle, hcheck⟩ := runRules_approved hrules (by simp) ha hr
    refine ⟨Q, s', hle, ?_⟩
    rw [hleft]
    exact hcheck

end

theorem IsNew.remainingQty {o : Order} (h : IsNew o) : o.remainingQty = o.qty := by
  unfold Order.remainingQty
  rw [h.filled, sub_zero]

theorem IsNew.working {o : Order} (h : IsNew o) : 0 < o.remainingQty := by
  rw [h.remainingQty]
  exact h.qty

/-! ## How far a symbol can go -/

variable {p : Portfolio} {w w' : List Order} {o : Order}

/-- Where a symbol ends if all that works on one side of it fills, and nothing else. -/
def edge (p : Portfolio) (w : List Order) (symbol : String) (side : Side) : ℚ :=
  p.held symbol + workingOn side symbol w * side.sign

theorem workingOn_snoc (h : IsNew o) (side : Side) (symbol : String) : workingOn side symbol (w ++ [o]) =
    workingOn side symbol w + if o.symbol = symbol ∧ o.side = side then o.qty else 0 := by
  simp only [workingOn_append, workingOn_cons, workingOn_nil, add_zero, h.remainingQty, h.qty, and_true]

theorem edge_snoc (h : IsNew o) (symbol : String) (side : Side) : edge p (w ++ [o]) symbol side =
    edge p w symbol side + (if o.symbol = symbol ∧ o.side = side then o.qty else 0) * side.sign := by
  unfold edge
  rw [workingOn_snoc h]
  ring

theorem workingOn_absent (side : Side) {symbol : String} (h : ∀ o ∈ w, o.symbol ≠ symbol) : workingOn side symbol w = 0 := by
  refine List.sum_eq_zero fun x hx => ?_
  obtain ⟨o, ho, rfl⟩ := List.mem_map.1 hx
  exact if_neg fun hs => h o ho hs.1

/-- An outcome leaves a symbol between its two edges. -/
theorem outcome_between {fills : List (Order × ℚ)} (h : Outcome w fills) (symbol : String) :
    edge p w symbol .sell ≤ (filledBook p fills).held symbol ∧ (filledBook p fills).held symbol ≤ edge p w symbol .buy := by
  obtain ⟨hlo, hhi⟩ := held_filledBook symbol fills p fun f hf => ⟨(h.2 f hf).1, (h.2 f hf).2.trans (le_max_right _ _)⟩
  rw [h.1] at hlo hhi
  constructor
  · simpa [edge, Side.sign, sub_eq_add_neg] using hlo
  · simpa [edge, Side.sign] using hhi

/-- Some orders fill in full, and no other. -/
def chosenFills (chosen : Order → Bool) (w : List Order) : List (Order × ℚ) :=
  w.map fun o => (o, if chosen o then o.remainingQty else 0)

theorem chosenFills_outcome (hnew : ∀ o ∈ w, IsNew o) (chosen : Order → Bool) : Outcome w (chosenFills chosen w) := by
  refine ⟨by simp [chosenFills, Function.comp_def], fun f hf => ?_⟩
  obtain ⟨o, ho, rfl⟩ := List.mem_map.1 hf
  have hpos := (hnew o ho).working
  dsimp only
  split
  · exact ⟨hpos.le, le_rfl⟩
  · exact ⟨le_rfl, hpos.le⟩

/-- What a choice of orders leaves of a symbol, of which it takes one side or none. -/
theorem held_chosenFills {chosen : Order → Bool} {symbol : String} (side : Side) (b : Bool) : ∀ (w : List Order)
    (p : Portfolio), (∀ o ∈ w, IsNew o) → (∀ o ∈ w, o.symbol = symbol → chosen o = (b && decide (o.side = side))) →
      (filledBook p (chosenFills chosen w)).held symbol =
        p.held symbol + (if b then workingOn side symbol w else 0) * side.sign
  | [], p, _, _ => by simp [chosenFills, filledBook]
  | o :: w, p, hnew, hchosen => by
    have ih := held_chosenFills side b w (moved p (o, if chosen o then o.remainingQty else 0))
      (fun x hx => hnew x (List.mem_cons_of_mem _ hx)) (fun x hx => hchosen x (List.mem_cons_of_mem _ hx))
    have hpos := (hnew o (by simp)).working
    show (filledBook (moved p _) (chosenFills chosen w)).held symbol = _
    rw [ih, held_moved, workingOn_cons]
    by_cases hs : o.symbol = symbol
    · have hthis := hchosen o (by simp) hs
      by_cases hside : o.side = side
      · cases b <;> simp [hthis, hs, hside, hpos]
        ring
      · cases b <;> simp [hthis, hs, hside]
    · simp [hs]

/-- An edge is reached. -/
theorem edge_reached (hnew : ∀ o ∈ w, IsNew o) (symbol : String) (side : Side) :
    (filledBook p (chosenFills (fun o => decide (o.side = side)) w)).held symbol = edge p w symbol side :=
  held_chosenFills side true w p hnew fun _ _ _ => (Bool.true_and _).symm

/-! ## The cap on a position -/

/-- `MaxPositionSizeRule`. -/
def maxPositionSizeRule {σ : Type} : RiskRule RiskLimits σ where
  name := maxPositionSize
  check o books limits s := (maxPositionSizeCheck o books limits, s)

/-- What a symbol may be worth: what it was, or the cap. -/
def allowance (limits : RiskLimits) (p : Portfolio) (symbol : String) (mark : ℚ) : ℚ :=
  max (|p.held symbol| * mark) (limits.maxPositionPct * p.equity)

/-- **No symbol is worth more than its allowance**, at the marks of the settled book; one without a mark is flat. -/
def Capped (limits : RiskLimits) (p b : Portfolio) : Prop :=
  ∀ s, b.held s ≠ 0 → ∃ mark, markIn p.positions s = some mark ∧ |b.held s| * mark ≤ allowance limits p s mark

/-- Every outcome of the orders in flight is capped. -/
def CapHolds (limits : RiskLimits) (p : Portfolio) (w : List Order) : Prop :=
  ∀ fills, Outcome w fills → Capped limits p (filledBook p fills)

/-- By how much an order goes past the settled holding, together with what its side has in flight. -/
def overrun (p : Portfolio) (w : List Order) (o : Order) : ℚ := workingOn o.side o.symbol w + o.qty - |p.held o.symbol|

/-- **An exit fits beside the exits in flight**: where together they reverse the holding, the reversal is within the
allowance. -/
def ExitFits (limits : RiskLimits) (p : Portfolio) (w : List Order) (o : Order) : Prop :=
  closesWithoutReversing o p = true → 0 < overrun p w o →
    overrun p w o * markOf p o.symbol ≤ allowance limits p o.symbol (markOf p o.symbol)

/-- A quantity that is within the allowance of a symbol. -/
def Within (limits : RiskLimits) (p : Portfolio) (s : String) (q : ℚ) : Prop :=
  |q| * markOf p s ≤ allowance limits p s (markOf p s)

variable {limits : RiskLimits}

theorem allowance_nonneg (he : 0 < p.equity) (symbol : String) (mark : ℚ) : 0 ≤ allowance limits p symbol mark :=
  le_max_of_le_right (mul_nonneg limits.positionPct_pos.le he.le)

/-- What is no larger than one of two quantities within the allowance. -/
theorem Within.of_le {s : String} {a b q : ℚ} (he : 0 < p.equity) (h : |q| ≤ max |a| |b|) (ha : Within limits p s a)
    (hb : Within limits p s b) : Within limits p s q := by
  rcases le_total 0 (markOf p s) with hm | hm
  · rcases le_max_iff.1 h with h | h
    · exact (mul_le_mul_of_nonneg_right h hm).trans ha
    · exact (mul_le_mul_of_nonneg_right h hm).trans hb
  · exact (mul_nonpos_of_nonneg_of_nonpos (abs_nonneg q) hm).trans (allowance_nonneg he s _)

theorem Within.held (s : String) : Within limits p s (p.held s) := le_max_left _ _

/-- Every order in flight is new, at the market, and in a symbol with a mark. -/
def AtMarket (p : Portfolio) (w : List Order) : Prop :=
  ∀ o ∈ w, IsNew o ∧ IsMarket o ∧ (markIn p.positions o.symbol).isSome

theorem AtMarket.marked (hw : AtMarket p w) (hmarked : ∀ q ∈ p.openPositions, q.lastPrice.isSome) {fills : List (Order × ℚ)}
    (hf : Outcome w fills) {s : String} (hs : (filledBook p fills).held s ≠ 0) : (markIn p.positions s).isSome := by
  by_contra hnone
  rw [Option.not_isSome_iff_eq_none] at hnone
  -- neither an order in flight nor a holding is in a symbol without a mark
  have habsent : ∀ o ∈ w, o.symbol ≠ s := by
    rintro o ho rfl
    have h := (hw o ho).2.2
    rw [hnone] at h
    cases h
  have hheld : p.held s = 0 := by
    unfold Portfolio.held Portfolio.position
    cases hg : p.positions.get? s with
    | none => rfl
    | some q =>
      refine marked_of_openPositions hmarked s q hg ?_
      simpa [markIn, hg] using hnone
  obtain ⟨hlo, hhi⟩ := outcome_between (p := p) hf s
  unfold edge at hlo hhi
  rw [workingOn_absent _ habsent, zero_mul, add_zero, hheld] at hlo hhi
  exact hs (le_antisymm hhi hlo)

/-- **Every outcome is capped exactly when both edges of every symbol are.** -/
theorem capped_iff (he : 0 < p.equity) (hmarked : ∀ q ∈ p.openPositions, q.lastPrice.isSome) (hw : AtMarket p w) :
    CapHolds limits p w ↔ ∀ s side, Within limits p s (edge p w s side) := by
  constructor
  · intro h s side
    have hnew : ∀ o ∈ w, IsNew o := fun o ho => (hw o ho).1
    have houtcome := chosenFills_outcome hnew fun o => decide (o.side = side)
    have hheld := edge_reached (p := p) hnew s side
    by_cases h0 : edge p w s side = 0
    · unfold Within
      rw [h0, abs_zero, zero_mul]
      exact allowance_nonneg he s _
    · obtain ⟨mark, hmark, hle⟩ := h _ houtcome s (by rwa [hheld])
      have hof : markOf p s = mark := by simp [markOf, hmark]
      unfold Within
      rwa [hof, ← hheld]
  · intro h fills hf s hs
    obtain ⟨mark, hmark⟩ := Option.isSome_iff_exists.1 (hw.marked hmarked hf hs)
    obtain ⟨hlo, hhi⟩ := outcome_between (p := p) hf s
    have hwithin : Within limits p s ((filledBook p fills).held s) :=
      .of_le he (abs_le_max_abs_abs hlo hhi) (h s .sell) (h s .buy)
    have hof : markOf p s = mark := by simp [markOf, hmark]
    refine ⟨mark, hmark, ?_⟩
    unfold Within at hwithin
    rwa [hof] at hwithin

/-- The projection of market orders in marked symbols is worth what the book is. -/
theorem AtMarket.equity (hw : AtMarket p w) (hmarked : ∀ q ∈ p.openPositions, q.lastPrice.isSome) :
    (projectPending p w).equity = p.equity := by
  have hprojected : ∀ o ∈ projected p w, IsMarket o ∧ (markIn p.positions o.symbol).isSome :=
    fun o ho => (hw o (List.mem_filter.1 ho).1).2
  have hprice : ∀ o ∈ projected p w, priceOf p o = markIn p.positions o.symbol := fun o ho => (hprojected o ho).1.priceOf
  refine (projectPending_conserves hmarked fun o ho => ?_).2 (List.sum_eq_zero fun x hx => ?_)
  · rw [hprice o ho]
    exact (hprojected o ho).2
  · obtain ⟨o, ho, rfl⟩ := List.mem_map.1 hx
    obtain ⟨mark, hmark⟩ := Option.isSome_iff_exists.1 (hprojected o ho).2
    simp [markAfter, hprice o ho, hmark]

/-- What a reducing order opposes: the holding is on the other side. -/
theorem held_reduced (h : reducesPosition o p = true) : p.held o.symbol = -(|p.held o.symbol| * o.side.sign) := by
  obtain ⟨hne, hside⟩ := reducesPosition_side h
  rcases lt_or_gt_of_ne hne with hneg | hpos
  · rw [if_neg (not_lt.2 hneg.le)] at hside
    rw [hside, abs_of_neg hneg]
    simp [Side.sign]
  · rw [if_pos hpos] at hside
    rw [hside, abs_of_pos hpos]
    simp [Side.sign]

theorem closesWithoutReversing_iff :
    closesWithoutReversing o p = true ↔ reducesPosition o p = true ∧ o.qty ≤ |p.held o.symbol| := by
  unfold closesWithoutReversing
  rw [Bool.and_eq_true, decide_eq_true_eq]

/-- The edge an exit moves, once it has moved it. -/
theorem edge_overrun (hnew : IsNew o) (h : reducesPosition o p = true) :
    edge p (w ++ [o]) o.symbol o.side = overrun p w o * o.side.sign := by
  rw [edge_snoc hnew, if_pos ⟨rfl, rfl⟩]
  unfold edge overrun
  have hheld := held_reduced h
  linear_combination hheld

theorem abs_mul_sign (q : ℚ) (side : Side) : |q * side.sign| = |q| := by
  cases side <;> simp [Side.sign]

section
variable {σ : Type} {rules : List (RiskRule RiskLimits σ)}

/-- An approval of a market order. -/
def approvesMarket (limits : RiskLimits) (rules : List (RiskRule RiskLimits σ)) (p : Portfolio) (w : List Order) (o : Order)
    (w' : List Order) : Prop :=
  IsMarket o ∧ approves limits rules p w o w'

/-- **What an approval by the cap says** of a market order: its symbol has a mark, and unless it is an exit it leaves the
symbol within the cap in every outcome. -/
theorem cap_spec (hrules : ∀ r ∈ rules, r.OnlyShrinks) (hcap : maxPositionSizeRule ∈ rules) (he : 0 < p.equity)
    (hmarked : ∀ q ∈ p.openPositions, q.lastPrice.isSome) (hw : AtMarket p w) (hmarket : IsMarket o)
    (h : approves limits rules p w o w') : (markIn p.positions o.symbol).isSome ∧
      (closesWithoutReversing o p = false → ∃ Q, o.qty ≤ Q ∧
        Within limits p o.symbol (edge p w o.symbol o.side + Q * o.side.sign)) := by
  obtain ⟨hnew, -, hchecked⟩ := approves_spec hrules h
  obtain ⟨Q, s, hle, hcheck⟩ := hchecked _ hcap
  have hcheck : (maxPositionSizeCheck { o with qty := Q } (booksOf p w) limits).approved = true := hcheck
  have hmark (s : String) : markIn (projectPending p w).positions s = markIn p.positions s :=
    markIn_projectPending (fun x hx => (hw x hx).2.1) s
  cases hexit : closesWithoutReversing { o with qty := Q } p with
  | true =>
    obtain ⟨hreduces, hQ⟩ := closesWithoutReversing_iff.1 hexit
    have hreduces : reducesPosition o p = true := hreduces
    refine ⟨?_, fun hnot => ?_⟩
    · by_contra hnone
      rw [Option.not_isSome_iff_eq_none] at hnone
      obtain ⟨hne, -⟩ := reducesPosition_side hreduces
      unfold Portfolio.held Portfolio.position at hne
      cases hg : p.positions.get? o.symbol with
      | none => simp [hg] at hne
      | some q =>
        rw [hg] at hne
        exact hne (marked_of_openPositions hmarked _ q hg (by simpa [markIn, hg] using hnone))
    · have hcloses : closesWithoutReversing o p = true := closesWithoutReversing_iff.2 ⟨hreduces, hle.trans hQ⟩
      rw [hcloses] at hnot
      cases hnot
  | false =>
    obtain ⟨price, hprice, hbound⟩ := maxPositionSizeCheck_approved hexit hcheck
    have hown : markIn p.positions o.symbol = some price := by
      rw [← hmark, ← hprice]
      simp [priceFor, referencePrice, hmarket.2, markIn, booksOf]
    have hequity : (booksOf p w).committed.equity = p.equity := hw.equity hmarked
    refine ⟨by rw [hown]; rfl, fun _ => ⟨Q, hle, ?_⟩⟩
    unfold Within
    have hof : markOf p o.symbol = price := by simp [markOf, hown]
    rw [hof]
    rcases le_total 0 price with hp | hp
    · refine le_max_of_le_right (le_trans (mul_le_mul_of_nonneg_right ?_ hp) (hbound.trans_eq (by rw [hequity])))
      refine abs_le_worst_of_mem ((mem_producible o.symbol _).2 ?_)
      unfold edge
      cases hside : o.side
      · exact .inr (.inl (by simp [Side.sign]))
      · exact .inr (.inr (.inl (by simp [Side.sign, sub_eq_add_neg])))
    · exact (mul_nonpos_of_nonneg_of_nonpos (abs_nonneg _) hp).trans (allowance_nonneg he o.symbol price)

/-- An edge lies between the holding and where one more order takes it. -/
theorem Within.edge_of_snoc (he : 0 < p.equity) (hnew : IsNew o) {s : String} {side : Side}
    (h : Within limits p s (edge p (w ++ [o]) s side)) : Within limits p s (edge p w s side) := by
  have h0 := workingOn_nonneg side s w
  have hle : workingOn side s w ≤ workingOn side s (w ++ [o]) := by
    rw [workingOn_snoc hnew]
    split
    · linarith [hnew.qty]
    · linarith
  exact .of_le he (abs_part_le h0 hle) h (.held s)

/-- **One approval keeps every symbol within its allowance exactly when it is no exit that does not fit.** -/
theorem cap_step (hrules : ∀ r ∈ rules, r.OnlyShrinks) (hcap : maxPositionSizeRule ∈ rules) (he : 0 < p.equity)
    (hmarked : ∀ q ∈ p.openPositions, q.lastPrice.isSome) (hw : AtMarket p w) (hmarket : IsMarket o)
    (h : approves limits rules p w o w') : (∀ s side, Within limits p s (edge p w' s side)) ↔
      (∀ s side, Within limits p s (edge p w s side)) ∧ ExitFits limits p w o := by
  obtain ⟨hnew, rfl, -⟩ := approves_spec hrules h
  constructor
  · intro hafter
    refine ⟨fun s side => (hafter s side).edge_of_snoc he hnew, fun hcloses hover => ?_⟩
    have hedge := hafter o.symbol o.side
    unfold Within at hedge
    rwa [edge_overrun hnew (closesWithoutReversing_iff.1 hcloses).1, abs_mul_sign, abs_of_pos hover] at hedge
  · rintro ⟨hbefore, hfits⟩ s side
    by_cases hmoved : o.symbol = s ∧ o.side = side
    · obtain ⟨rfl, rfl⟩ := hmoved
      cases hexit : closesWithoutReversing o p with
      | false =>
        -- the rule measured it, at a size no smaller
        obtain ⟨Q, hle, hQ⟩ := (cap_spec hrules hcap he hmarked hw hmarket h).2 hexit
        rw [edge_snoc hnew, if_pos ⟨rfl, rfl⟩]
        exact .of_le he (abs_part_le hnew.qty.le hle) hQ (hbefore _ _)
      | true =>
        have hreduces := (closesWithoutReversing_iff.1 hexit).1
        unfold Within
        rw [edge_overrun hnew hreduces, abs_mul_sign]
        rcases le_or_gt (overrun p w o) 0 with hover | hover
        · -- the exits together stop at flat
          have hsmall : |overrun p w o| ≤ |p.held o.symbol| := by
            rw [abs_of_nonpos hover]
            unfold overrun
            linarith [workingOn_nonneg o.side o.symbol w, hnew.qty]
          have hheld : Within limits p o.symbol (overrun p w o) :=
            .of_le he (hsmall.trans (le_max_left _ _)) (.held o.symbol) (.held o.symbol)
          exact hheld
        · rw [abs_of_pos hover]
          exact hfits hexit hover
    · rw [edge_snoc hnew, if_neg hmoved, zero_mul, add_zero]
      exact hbefore s side

/-- **The cap on a position holds over a batch exactly when every exit in it fits** beside the exits it follows. -/
theorem positions_capped (hrules : ∀ r ∈ rules, r.OnlyShrinks) (hcap : maxPositionSizeRule ∈ rules)
    (he : 0 < p.equity) (hmarked : ∀ q ∈ p.openPositions, q.lastPrice.isSome) {l : List Order}
    (h : Run (approvesMarket limits rules p) [] l w) :
    CapHolds limits p w ↔ Run (guarded (approvesMarket limits rules p) (ExitFits limits p)) [] l w := by
  have hkept : ∀ w o w', AtMarket p w → approvesMarket limits rules p w o w' → AtMarket p w' := by
    rintro w o w' hw ⟨hmarket, hstep⟩ x hx
    have hmark := (cap_spec hrules hcap he hmarked hw hmarket hstep).1
    obtain ⟨hnew, rfl, -⟩ := approves_spec hrules hstep
    rcases List.mem_append.1 hx with hx | hx
    · exact hw x hx
    · rw [List.mem_singleton.1 hx]
      exact ⟨hnew, hmarket, hmark⟩
  have hempty : AtMarket p [] := by
    intro x hx
    cases hx
  have hstart : ∀ s side, Within limits p s (edge p [] s side) := by
    intro s side
    unfold edge
    rw [workingOn_nil, zero_mul, add_zero]
    exact .held s
  rw [capped_iff he hmarked (run_invariant (AtMarket p) hkept hempty h)]
  have hiff := run_guarded_iff (P := fun w => ∀ s side, Within limits p s (edge p w s side)) hkept
    (fun w o w' hw hstep => cap_step hrules hcap he hmarked hw hstep.1 hstep.2) hempty h
  exact hiff.trans ⟨fun h => h.2, fun h => ⟨hstart, h⟩⟩

end

theorem backtestRules_shrink : ∀ r ∈ backtestRules, r.OnlyShrinks := by
  intro r hr o books limits s q hq
  rw [(Denials.backtestRules_plain r hr o books limits s).2] at hq
  cases hq

/-- A hundred shares at 100, and the same exit of all of them sent again and again. -/
def heldBook : Portfolio where
  cash := 1000
  startingEquity := 11000
  positions := Dict.empty.set "AAPL" { symbol := "AAPL", qty := 100, avgEntryPrice := 100, lastPrice := some 100 }

def sellAll : Order where
  symbol := "AAPL"
  side := .sell
  qty := 100
  id := "o-1"
  clientOrderId := "c-1"

theorem sellAll_approved {w : List Order}
    (h : (validate limits95 backtestRules sellAll heldBook w (some 11000)).1.approved = true ∧
      (validate limits95 backtestRules sellAll heldBook w (some 11000)).2.1 = sellAll) :
    approvesMarket limits95 backtestRules heldBook w sellAll (w ++ [sellAll]) :=
  ⟨⟨rfl, rfl⟩, sellAll, some 11000, ⟨by decide +kernel, rfl⟩, h.1, h.2, rfl⟩

/-- Twice is still no more than was held, on the other side. -/
theorem positions_capped_twice : CapHolds limits95 heldBook [sellAll, sellAll] := by
  have hfirst := sellAll_approved (w := []) (by decide +kernel)
  have hsecond := sellAll_approved (w := [sellAll]) (by decide +kernel)
  refine (positions_capped backtestRules_shrink (List.mem_cons_self) (by decide +kernel) (by decide +kernel)
    (.cons hfirst (.cons hsecond (.nil _)))).2 (.cons ⟨hfirst, fun _ hover => ?_⟩ (.cons ⟨hsecond, fun _ _ => ?_⟩ (.nil _)))
  · exact absurd hover (by decide +kernel)
  · decide +kernel

/-- Three times the whole holding leaves a short of twice its size: no order of the three was measured. -/
theorem exits_sent_thrice : ¬ ∀ (p : Portfolio) (limits : RiskLimits) (l w : List Order), 0 < p.equity →
    (∀ q ∈ p.openPositions, q.lastPrice.isSome) → Run (approvesMarket limits backtestRules p) [] l w → CapHolds limits p w := by
  intro h
  have hfirst := sellAll_approved (w := []) (by decide +kernel)
  have hsecond := sellAll_approved (w := [sellAll]) (by decide +kernel)
  have hthird := sellAll_approved (w := [sellAll, sellAll]) (by decide +kernel)
  have hcapped := h heldBook limits95 _ _ (by decide +kernel) (by decide +kernel)
    (.cons hfirst (.cons hsecond (.cons hthird (.nil _)))) [(sellAll, 100), (sellAll, 100), (sellAll, 100)]
    ⟨rfl, by decide +kernel⟩ "AAPL" (by decide +kernel)
  obtain ⟨mark, hmark, hle⟩ := hcapped
  have h100 : mark = 100 := (Option.some.inj (hmark.symm.trans (by decide +kernel : markIn heldBook.positions "AAPL" = some 100)))
  rw [h100] at hle
  exact absurd hle (by decide +kernel)

/-! ## The cap on open positions -/

/-- `MaxOpenPositionsRule`. -/
def maxOpenPositionsRule {σ : Type} : RiskRule RiskLimits σ where
  name := maxOpenPositions
  check o books limits s := (maxOpenPositionsCheck o books limits, s)

/-- The symbols that may be open: held, or with an order in flight. -/
def mayOpen (p : Portfolio) (w : List Order) : Finset String :=
  ((p.positions.keys.filter fun s => p.held s ≠ 0) ++ w.map Order.symbol).toFinset

/-- Of these, the symbols the projection shows flat. -/
def nettedOut (p : Portfolio) (w : List Order) : Finset String :=
  (mayOpen p w).filter fun s => (projectPending p w).held s = 0

/-- No outcome of the orders in flight has more positions open than the limit. -/
def CountHolds (limits : RiskLimits) (p : Portfolio) (w : List Order) : Prop :=
  ∀ fills, Outcome w fills → (filledBook p fills).openPositions.length ≤ limits.maxOpenPositions

/-- **A new symbol finds room**: none is netted out, or the count with those that are is still below the limit. -/
def FindsRoom (limits : RiskLimits) (p : Portfolio) (w : List Order) (o : Order) : Prop :=
  o.symbol ∉ mayOpen p w → nettedOut p w = ∅ ∨
    (projectPending p w).openPositions.length + (nettedOut p w).card < limits.maxOpenPositions

theorem openPositions_card (b : Portfolio) {S : Finset String} (hS : ∀ s, b.held s ≠ 0 → s ∈ S) :
    b.openPositions.length = (S.filter fun s => b.held s ≠ 0).card := by
  have hopen : (S.filter fun s => b.held s ≠ 0) = (b.positions.keys.toFinset ∪ S).filter fun s => b.held s ≠ 0 := by
    ext s
    simp only [Finset.mem_filter, Finset.mem_union]
    exact ⟨fun h => ⟨.inr h.1, h.2⟩, fun h => ⟨hS s h.2, h.2⟩⟩
  have htotal := Denials.openPositions_length b
  rw [Dict.sum_values_eq (fun q => if q.qty = 0 then 0 else (1 : ℤ)) b.positions (b.positions.keys.toFinset ∪ S)
    fun s hs => Finset.mem_union_left _ (List.mem_toFinset.2 hs)] at htotal
  rw [hopen, Finset.card_filter, ← Nat.cast_inj (R := ℤ), htotal, Nat.cast_sum]
  refine Finset.sum_congr rfl fun s _ => ?_
  unfold Portfolio.held Portfolio.position
  cases hg : b.positions.get? s with
  | none => simp
  | some q => by_cases hq : q.qty = 0 <;> simp [hq]

theorem mem_mayOpen {s : String} : s ∈ mayOpen p w ↔ p.held s ≠ 0 ∨ ∃ o ∈ w, o.symbol = s := by
  have hkeys : p.held s ≠ 0 → s ∈ p.positions.keys := by
    intro h
    rw [Dict.mem_keys_iff, Option.isSome_iff_ne_none]
    exact fun hnone => h (Portfolio.held_none _ hnone)
  simp only [mayOpen, List.mem_toFinset, List.mem_append, List.mem_filter, decide_eq_true_eq, List.mem_map]
  exact or_congr_left ⟨fun h => h.2, fun h => ⟨hkeys h, h⟩⟩

theorem mayOpen_snoc : mayOpen p (w ++ [o]) = insert o.symbol (mayOpen p w) := by
  ext s
  simp only [mem_mayOpen, Finset.mem_insert, List.mem_append, List.mem_singleton, or_and_right, exists_or, exists_eq_left,
    eq_comm (a := s)]
  exact or_assoc.symm.trans or_comm

/-- What stands between two edges of a symbol that cannot open is nothing. -/
theorem flat_of_not_mayOpen {s : String} {q : ℚ} (hs : s ∉ mayOpen p w) (hlo : p.held s - workingOn .sell s w ≤ q)
    (hhi : q ≤ p.held s + workingOn .buy s w) : q = 0 := by
  rw [mem_mayOpen, not_or, not_not, not_exists] at hs
  obtain ⟨hheld, habsent⟩ := hs
  have habsent : ∀ o ∈ w, o.symbol ≠ s := fun o ho hsym => habsent o ⟨ho, hsym⟩
  rw [workingOn_absent _ habsent, hheld] at hlo hhi
  linarith

/-- **The projection counts every symbol that may be open, but those it nets out.** -/
theorem projected_count (p : Portfolio) (w : List Order) :
    (projectPending p w).openPositions.length + (nettedOut p w).card = (mayOpen p w).card := by
  have hopen : ∀ s, (projectPending p w).held s ≠ 0 → s ∈ mayOpen p w := by
    intro s hs
    by_contra hnot
    obtain ⟨hlo, hhi⟩ := held_projectPending_mem (p := p) (w := w) s
    exact hs (flat_of_not_mayOpen hnot hlo hhi)
  rw [openPositions_card _ hopen, add_comm]
  exact Finset.card_filter_add_card_filter_not _

/-- A side on which a symbol has orders in flight, if it has any. -/
def leading (w : List Order) (symbol : String) : Side := if 0 < workingOn .buy symbol w then .buy else .sell

/-- The orders that open something: of a symbol not held, the ones on its leading side. -/
def opens (p : Portfolio) (w : List Order) (o : Order) : Bool :=
  decide (p.held o.symbol = 0) && decide (o.side = leading w o.symbol)

theorem workingOn_pos {x : Order} (hnew : ∀ o ∈ w, IsNew o) (hx : x ∈ w) : 0 < workingOn x.side x.symbol w := by
  obtain ⟨a, b, rfl⟩ := List.append_of_mem hx
  have hpos := (hnew x hx).working
  rw [workingOn_append, workingOn_cons, if_pos ⟨rfl, rfl, hpos⟩]
  have ha := workingOn_nonneg x.side x.symbol a
  have hb := workingOn_nonneg x.side x.symbol b
  linarith

theorem leading_pos {s : String} (hnew : ∀ o ∈ w, IsNew o) (hs : ∃ o ∈ w, o.symbol = s) : 0 < workingOn (leading w s) s w := by
  obtain ⟨o, ho, rfl⟩ := hs
  have hpos := workingOn_pos hnew ho
  unfold leading
  split
  · assumption
  · rename_i hbuys
    cases hside : o.side with
    | buy =>
      rw [hside] at hpos
      exact absurd hpos hbuys
    | sell => rwa [hside] at hpos

/-- **One outcome opens every symbol that may be open.** -/
theorem opened (hnew : ∀ o ∈ w, IsNew o) {s : String} (hs : s ∈ mayOpen p w) :
    (filledBook p (chosenFills (opens p w) w)).held s ≠ 0 := by
  rw [held_chosenFills (leading w s) (decide (p.held s = 0)) w p hnew fun o _ hsym => by rw [← hsym]; rfl]
  by_cases hheld : p.held s = 0
  · have hpos := leading_pos hnew ((mem_mayOpen.1 hs).resolve_left (not_not.2 hheld))
    rw [if_pos (decide_eq_true hheld), hheld, zero_add]
    refine mul_ne_zero hpos.ne' ?_
    cases leading w s <;> simp [Side.sign]
  · rw [if_neg (by simp [hheld]), zero_mul, add_zero]
    exact hheld

/-- **The worst outcome has every symbol open that may be.** -/
theorem countHolds_iff {limits : RiskLimits} (hnew : ∀ o ∈ w, IsNew o) :
    CountHolds limits p w ↔ (mayOpen p w).card ≤ limits.maxOpenPositions := by
  have houtcome : ∀ fills, Outcome w fills → ∀ s, (filledBook p fills).held s ≠ 0 → s ∈ mayOpen p w := by
    intro fills hf s hs
    by_contra hnot
    obtain ⟨hlo, hhi⟩ := held_filledBook s fills p fun f hmem => ⟨(hf.2 f hmem).1, (hf.2 f hmem).2.trans (le_max_right _ _)⟩
    rw [hf.1] at hlo hhi
    exact hs (flat_of_not_mayOpen hnot hlo hhi)
  constructor
  · intro h
    have hf := chosenFills_outcome hnew (opens p w)
    have hle := h _ hf
    rw [openPositions_card _ (houtcome _ hf), Finset.filter_true_of_mem fun s hs => opened hnew hs] at hle
    exact hle
  · intro h fills hf
    rw [openPositions_card _ (houtcome _ hf)]
    exact (Finset.card_filter_le _ _).trans h

section
variable {σ : Type} {rules : List (RiskRule RiskLimits σ)} {limits : RiskLimits}

/-- **One approval keeps the count exactly when it finds room.** -/
theorem count_step (hrules : ∀ r ∈ rules, r.OnlyShrinks) (hcap : maxOpenPositionsRule ∈ rules)
    (h : approves limits rules p w o w') : (mayOpen p w').card ≤ limits.maxOpenPositions ↔
      (mayOpen p w).card ≤ limits.maxOpenPositions ∧ FindsRoom limits p w o := by
  obtain ⟨-, rfl, hchecked⟩ := approves_spec hrules h
  rw [mayOpen_snoc]
  have hcount := projected_count p w
  by_cases hmem : o.symbol ∈ mayOpen p w
  · rw [Finset.insert_eq_of_mem hmem]
    exact ⟨fun hle => ⟨hle, fun hnot => absurd hmem hnot⟩, fun hle => hle.1⟩
  · rw [Finset.card_insert_of_notMem hmem]
    constructor
    · intro hle
      exact ⟨by omega, fun _ => .inr (by omega)⟩
    · rintro ⟨-, hroom⟩
      rcases hroom hmem with hnone | hroom
      · -- the rule counted every symbol that may be open
        obtain ⟨Q, s, -, hcheck⟩ := hchecked _ hcap
        have hcheck : (maxOpenPositionsCheck { o with qty := Q } (booksOf p w) limits).approved = true := hcheck
        have hflat : (projectPending p w).held o.symbol = 0 := by
          obtain ⟨hlo, hhi⟩ := held_projectPending_mem (p := p) (w := w) o.symbol
          exact flat_of_not_mayOpen hmem hlo hhi
        have hbelow : (projectPending p w).openPositions.length < limits.maxOpenPositions := by
          by_contra hge
          simp [maxOpenPositionsCheck, booksOf, hflat, not_lt.1 hge, RiskDecision.deny] at hcheck
        rw [hnone, Finset.card_empty] at hcount
        omega
      · omega

/-- **The limit on open positions holds over a batch exactly when every new symbol in it finds room.** -/
theorem open_positions_capped (hrules : ∀ r ∈ rules, r.OnlyShrinks) (hcap : maxOpenPositionsRule ∈ rules)
    (hsettled : p.openPositions.length ≤ limits.maxOpenPositions) {l : List Order}
    (h : Run (approves limits rules p) [] l w) :
    CountHolds limits p w ↔ Run (guarded (approves limits rules p) (FindsRoom limits p)) [] l w := by
  have hkept : ∀ w o w', (∀ x ∈ w, IsNew x) → approves limits rules p w o w' → ∀ x ∈ w', IsNew x := by
    rintro w o w' hw hstep x hx
    obtain ⟨hnew, rfl, -⟩ := approves_spec hrules hstep
    rcases List.mem_append.1 hx with hx | hx
    · exact hw x hx
    · exact List.mem_singleton.1 hx ▸ hnew
  have hempty : ∀ x ∈ ([] : List Order), IsNew x := by
    intro x hx
    cases hx
  have hstart : (mayOpen p []).card ≤ limits.maxOpenPositions := by
    rw [← countHolds_iff hempty]
    intro fills hf
    rw [List.map_eq_nil_iff.1 hf.1]
    exact hsettled
  rw [countHolds_iff (run_invariant (fun w => ∀ x ∈ w, IsNew x) hkept hempty h)]
  have hiff := run_guarded_iff (P := fun w => (mayOpen p w).card ≤ limits.maxOpenPositions) hkept
    (fun w o w' _ hstep => count_step hrules hcap hstep) hempty h
  exact hiff.trans ⟨fun h => h.2, fun h => ⟨hstart, h⟩⟩

end

/-- A flat book with two symbols marked at 100. -/
def pairBook : Portfolio where
  cash := 10000
  startingEquity := 10000
  positions := (Dict.empty.set "AAPL" { symbol := "AAPL", lastPrice := some 100 }).set "MSFT"
    { symbol := "MSFT", lastPrice := some 100 }

def buyTen : Order where
  symbol := "AAPL"
  side := .buy
  qty := 10
  id := "o-1"
  clientOrderId := "c-1"

def oppose : Order := { buyTen with side := .sell, id := "o-2", clientOrderId := "c-2" }

def buyOther : Order := { buyTen with symbol := "MSFT", id := "o-3", clientOrderId := "c-3" }

/-- One position at a time. -/
def oneOpen : RiskLimits := { limits95 with maxOpenPositions := 1, openPositions_pos := one_pos }

theorem pairBook_approved {w : List Order} {o : Order} (hnew : IsNew o)
    (h : (validate oneOpen backtestRules o pairBook w (some 10000)).1.approved = true ∧
      (validate oneOpen backtestRules o pairBook w (some 10000)).2.1 = o) :
    approves oneOpen backtestRules pairBook w o (w ++ [o]) :=
  ⟨o, some 10000, hnew, h.1, h.2, rfl⟩

/-- A buy and a sell of one symbol leave at most one open. -/
theorem open_positions_capped_pair : CountHolds oneOpen pairBook [buyTen, oppose] := by
  have hbuy := pairBook_approved (w := []) (o := buyTen) ⟨by decide +kernel, rfl⟩ (by decide +kernel)
  have hsell := pairBook_approved (w := [buyTen]) (o := oppose) ⟨by decide +kernel, rfl⟩ (by decide +kernel)
  refine (open_positions_capped backtestRules_shrink (List.mem_cons_of_mem _ (List.mem_cons_of_mem _ List.mem_cons_self))
    (by decide +kernel) (.cons hbuy (.cons hsell (.nil _)))).2 (.cons ⟨hbuy, fun _ => .inl ?_⟩ (.cons ⟨hsell, fun hnot => ?_⟩ (.nil _)))
  · decide +kernel
  · exact absurd (by decide +kernel) hnot

/-- With the buy and the sell both in flight the projection shows the symbol flat, and a second one is let in. -/
theorem netted_symbol_uncounted : ¬ ∀ (p : Portfolio) (limits : RiskLimits) (l w : List Order),
    p.openPositions.length ≤ limits.maxOpenPositions → Run (approves limits backtestRules p) [] l w →
      CountHolds limits p w := by
  intro h
  have hbuy := pairBook_approved (w := []) (o := buyTen) ⟨by decide +kernel, rfl⟩ (by decide +kernel)
  have hsell := pairBook_approved (w := [buyTen]) (o := oppose) ⟨by decide +kernel, rfl⟩ (by decide +kernel)
  have hother := pairBook_approved (w := [buyTen, oppose]) (o := buyOther) ⟨by decide +kernel, rfl⟩ (by decide +kernel)
  have hcount := h pairBook oneOpen _ _ (by decide +kernel) (.cons hbuy (.cons hsell (.cons hother (.nil _))))
    [(buyTen, 10), (oppose, 0), (buyOther, 10)] ⟨rfl, by decide +kernel⟩
  exact absurd hcount (by decide +kernel)

end Approvals
end Atp
