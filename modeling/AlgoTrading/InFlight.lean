import Mathlib.Algebra.BigOperators.Group.Finset.Piecewise
import Mathlib.Algebra.Order.BigOperators.Group.Finset
import Mathlib.Algebra.Order.Ring.Abs
import AlgoTrading.Ceilings
import AlgoTrading.Projection
/-!
# InFlight — what the orders in flight can do to a book, and what the ceilings make of it

Whatever part of the orders in flight fills, a symbol ends inside the interval `_producible_quantities` spans, and a
magnitude over an interval is greatest at an end (`abs_le_worst`).  `exposure_bounded` is the result for the exposure
ceiling; `denial_persists` says what one more order in flight does to the five rules.
-/
namespace Atp
namespace InFlight

open Ceilings Projection

/-! ## The largest magnitude -/

theorem le_foldr_max : ∀ {l : List ℚ} {x : ℚ}, x ∈ l → x ≤ l.foldr max 0
  | y :: l, x, h => by
    rcases List.mem_cons.1 h with rfl | h
    · exact le_max_left _ _
    · exact (le_foldr_max h).trans (le_max_right _ _)

theorem foldr_max_le : ∀ {l : List ℚ} {b : ℚ}, 0 ≤ b → (∀ x ∈ l, x ≤ b) → l.foldr max 0 ≤ b
  | [], _, hb, _ => hb
  | y :: l, b, hb, h => max_le (h y (by simp)) (foldr_max_le hb (fun x hx => h x (by simp [hx])))

theorem worst_nonneg (k : ℚ) : ∀ l : List ℚ, 0 ≤ worst k l
  | [] => le_refl _
  | x :: _ => (abs_nonneg (x + k)).trans (le_max_left _ _)

theorem abs_le_worst_of_mem {k q : ℚ} {l : List ℚ} (h : q ∈ l) : |q + k| ≤ worst k l :=
  le_foldr_max (List.mem_map.2 ⟨q, h, rfl⟩)

theorem worst_le {k b : ℚ} {l : List ℚ} (hb : 0 ≤ b) (h : ∀ q ∈ l, |q + k| ≤ b) : worst k l ≤ b := by
  refine foldr_max_le hb fun x hx => ?_
  obtain ⟨q, hq, rfl⟩ := List.mem_map.1 hx
  exact h q hq

/-- **A magnitude over an interval is greatest at an end.** -/
theorem abs_le_worst {k lo hi q : ℚ} {l : List ℚ} (hlo : lo ∈ l) (hhi : hi ∈ l) (h1 : lo ≤ q) (h2 : q ≤ hi) :
    |q + k| ≤ worst k l := by
  have h := abs_le_max_abs_abs (a := lo + k) (b := q + k) (c := hi + k) (by linarith) (by linarith)
  exact h.trans (max_le (abs_le_worst_of_mem hlo) (abs_le_worst_of_mem hhi))

/-! ## What is committed -/

variable {p : Portfolio} {w : List Order} {o : Order}

/-- The projection is the fold over what it projects, nothing projected included. -/
theorem projectPending_eq : projectPending p w =
    { p with cash := ((projected p w).foldl (commitOrder p) (p.cash, p.positions)).1
             positions := ((projected p w).foldl (commitOrder p) (p.cash, p.positions)).2 } := by
  unfold projectPending projected
  generalize w.filter _ = l
  cases l <;> rfl

/-- What some positions hold of a symbol. -/
def heldIn (positions : Dict String Position) (symbol : String) : ℚ := ((positions.get? symbol).map Position.qty).getD 0

theorem heldIn_positions (p : Portfolio) (symbol : String) : heldIn p.positions symbol = p.held symbol := by
  unfold heldIn Portfolio.held Portfolio.position
  cases p.positions.get? symbol <;> rfl

theorem heldIn_commitOrder (acc : ℚ × Dict String Position) (symbol : String) :
    heldIn (commitOrder p acc o).2 symbol =
      heldIn acc.2 symbol + if o.symbol = symbol then signedRemaining o else 0 := by
  unfold commitOrder heldIn signedRemaining
  by_cases hs : symbol = o.symbol
  · subst hs
    cases referencePrice o.symbol p o.limitPrice <;> cases acc.2.get? o.symbol <;> simp
  · cases referencePrice o.symbol p o.limitPrice <;> simp [Dict.get?_set, hs, Ne.symm hs]

theorem signedRemaining_working (h : 0 < o.remainingQty) (symbol : String) :
    (if o.symbol = symbol then signedRemaining o else 0) =
      workingOn .buy symbol [o] - workingOn .sell symbol [o] := by
  unfold signedRemaining
  cases hside : o.side <;> by_cases hs : o.symbol = symbol <;> simp [workingOn, hside, hs, h, Side.sign]

theorem heldIn_foldl (symbol : String) : ∀ (l : List Order) (acc : ℚ × Dict String Position),
    (∀ o ∈ l, 0 < o.remainingQty) → heldIn (l.foldl (commitOrder p) acc).2 symbol =
      heldIn acc.2 symbol + workingOn .buy symbol l - workingOn .sell symbol l
  | [], acc, _ => by simp
  | o :: l, acc, h => by
    have hfirst := signedRemaining_working (h o (by simp)) symbol
    rw [List.foldl_cons, heldIn_foldl symbol l _ (fun o' h' => h o' (by simp [h'])), heldIn_commitOrder, hfirst,
      workingOn_cons .buy symbol o l, workingOn_cons .sell symbol o l]
    simp only [workingOn_cons, workingOn_nil]
    ring

theorem projected_remaining (h : o ∈ projected p w) : 0 < o.remainingQty := by
  have hkept := (List.mem_filter.1 h).2
  rw [Bool.and_eq_true, decide_eq_true_eq] at hkept
  exact hkept.1

theorem held_projectPending (symbol : String) : (projectPending p w).held symbol =
    p.held symbol + workingOn .buy symbol (projected p w) - workingOn .sell symbol (projected p w) := by
  rw [← heldIn_positions, ← heldIn_positions, projectPending_eq]
  exact heldIn_foldl symbol _ _ (fun o h => projected_remaining h)

theorem workingOn_filter_le (side : Side) (symbol : String) (f : Order → Bool) : ∀ l : List Order,
    workingOn side symbol (l.filter f) ≤ workingOn side symbol l
  | [] => le_refl _
  | o :: l => by
    have hl := workingOn_filter_le side symbol f l
    have ho := workingOn_nonneg side symbol [o]
    simp only [workingOn_cons, workingOn_nil, add_zero] at ho
    rw [workingOn_cons side symbol o l]
    cases hf : f o with
    | true =>
      rw [List.filter_cons_of_pos hf, workingOn_cons]
      linarith
    | false =>
      rw [List.filter_cons_of_neg (by simp [hf])]
      linarith

/-- The interval a symbol can end in. -/
theorem held_projectPending_mem (symbol : String) :
    p.held symbol - workingOn .sell symbol w ≤ (projectPending p w).held symbol ∧
      (projectPending p w).held symbol ≤ p.held symbol + workingOn .buy symbol w := by
  have hb := workingOn_filter_le .buy symbol (fun o => decide (0 < o.remainingQty) && !reducesPosition o p) w
  have hs := workingOn_filter_le .sell symbol (fun o => decide (0 < o.remainingQty) && !reducesPosition o p) w
  have hb0 := workingOn_nonneg .buy symbol (projected p w)
  have hs0 := workingOn_nonneg .sell symbol (projected p w)
  rw [held_projectPending]
  unfold projected at *
  constructor <;> linarith

theorem mem_producible (symbol : String) (q : ℚ) : q ∈ producibleQuantities symbol (booksOf p w) ↔
    q = p.held symbol ∨ q = p.held symbol + workingOn .buy symbol w ∨
      q = p.held symbol - workingOn .sell symbol w ∨ q = (projectPending p w).held symbol := by
  unfold producibleQuantities booksOf
  simp only [inFlightBySymbol_get, List.mem_cons, List.not_mem_nil, or_false]

/-- **Every quantity the orders in flight can leave is inside the bound.** -/
theorem abs_le_worst_interval {symbol : String} {k q : ℚ} (h1 : p.held symbol - workingOn .sell symbol w ≤ q)
    (h2 : q ≤ p.held symbol + workingOn .buy symbol w) :
    |q + k| ≤ worst k (producibleQuantities symbol (booksOf p w)) :=
  abs_le_worst ((mem_producible symbol _).2 (.inr (.inr (.inl rfl)))) ((mem_producible symbol _).2 (.inr (.inl rfl)))
    h1 h2

/-! ## How the orders in flight may fill -/

/-- A part of one order filled, and nothing else of the book moved. -/
def moved (p : Portfolio) (f : Order × ℚ) : Portfolio :=
  p.setPosition f.1.symbol { p.position f.1.symbol with qty := p.held f.1.symbol + f.2 * f.1.side.sign }

def filledBook (p : Portfolio) (fills : List (Order × ℚ)) : Portfolio := fills.foldl moved p

/-- A choice of how much fills of each order in flight. -/
def Outcome (w : List Order) (fills : List (Order × ℚ)) : Prop :=
  fills.map Prod.fst = w ∧ ∀ f ∈ fills, 0 ≤ f.2 ∧ f.2 ≤ f.1.remainingQty

/-- The mark of a symbol; one without a mark is worth nothing. -/
def markOf (p : Portfolio) (symbol : String) : ℚ := (markIn p.positions symbol).getD 0

theorem held_moved (p : Portfolio) (f : Order × ℚ) (symbol : String) :
    (moved p f).held symbol = p.held symbol + if f.1.symbol = symbol then f.2 * f.1.side.sign else 0 := by
  unfold moved
  rw [Portfolio.held_setPosition]
  by_cases hs : symbol = f.1.symbol
  · simp [hs]
  · simp [hs, Ne.symm hs]

theorem markIn_moved (p : Portfolio) (f : Order × ℚ) (symbol : String) :
    markIn (moved p f).positions symbol = markIn p.positions symbol := by
  unfold moved markIn Portfolio.setPosition Portfolio.position
  rw [Dict.get?_set]
  by_cases hs : symbol = f.1.symbol
  · subst hs
    cases p.positions.get? f.1.symbol <;> simp
  · rw [if_neg hs]

theorem markIn_filledBook (symbol : String) : ∀ (fills : List (Order × ℚ)) (p : Portfolio),
    markIn (filledBook p fills).positions symbol = markIn p.positions symbol
  | [], _ => rfl
  | f :: fills, p => (markIn_filledBook symbol fills (moved p f)).trans (markIn_moved p f symbol)

/-- **Whatever fills, a symbol ends between its sells and its buys.** -/
theorem held_filledBook (symbol : String) : ∀ (fills : List (Order × ℚ)) (p : Portfolio),
    (∀ f ∈ fills, 0 ≤ f.2 ∧ f.2 ≤ max 0 f.1.remainingQty) →
      p.held symbol - workingOn .sell symbol (fills.map Prod.fst) ≤ (filledBook p fills).held symbol ∧
        (filledBook p fills).held symbol ≤ p.held symbol + workingOn .buy symbol (fills.map Prod.fst)
  | [], _, _ => by simp [filledBook]
  | f :: fills, p, h => by
    obtain ⟨h0, hle⟩ := h f (by simp)
    obtain ⟨hlo, hhi⟩ := held_filledBook symbol fills (moved p f) (fun g hg => h g (by simp [hg]))
    have hstep : -workingOn .sell symbol [f.1] ≤ (if f.1.symbol = symbol then f.2 * f.1.side.sign else 0) ∧
        (if f.1.symbol = symbol then f.2 * f.1.side.sign else 0) ≤ workingOn .buy symbol [f.1] := by
      rcases h0.eq_or_lt with h0 | h0
      · have hb := workingOn_nonneg .buy symbol [f.1]
        have hs := workingOn_nonneg .sell symbol [f.1]
        rw [← h0]
        simp only [zero_mul, ite_self]
        constructor <;> linarith
      · have hpos : 0 < f.1.remainingQty := (lt_max_iff.1 (h0.trans_le hle)).resolve_left (lt_irrefl 0)
        rw [max_eq_right hpos.le] at hle
        cases hside : f.1.side <;> by_cases hs : f.1.symbol = symbol <;>
          simp [workingOn, hside, hs, hpos, Side.sign, hle, h0.le]
    rw [held_moved] at hlo hhi
    show _ ≤ (filledBook (moved p f) fills).held symbol ∧ (filledBook (moved p f) fills).held symbol ≤ _
    rw [List.map_cons, workingOn_cons .sell, workingOn_cons .buy]
    simp only [workingOn_cons, workingOn_nil, add_zero] at hstep
    constructor <;> linarith

/-! ## Gross exposure, symbol by symbol -/

theorem grossExposure_eq (p : Portfolio) (S : Finset String) (hS : ∀ s ∈ p.positions.keys, s ∈ S) :
    p.grossExposure = ∑ s ∈ S, |p.held s| * |markOf p s| := by
  unfold Portfolio.grossExposure
  rw [Dict.sum_values_eq Position.exposure p.positions S hS]
  refine Finset.sum_congr rfl fun s _ => ?_
  unfold markOf markIn Portfolio.held Portfolio.position
  cases hg : p.positions.get? s with
  | none => simp
  | some q =>
    cases hl : q.lastPrice <;> simp [Position.exposure, Position.marketValue, hl, abs_mul]

/-- What the orders in flight can add to a symbol's committed magnitude. -/
def extra (symbol : String) (books : RiskBooks) : ℚ := worstMagnitude symbol books - |books.committed.held symbol|

theorem extra_nonneg (symbol : String) (books : RiskBooks) : 0 ≤ extra symbol books := by
  have h := abs_le_worst_of_mem (k := 0) (l := producibleQuantities symbol books) (q := books.committed.held symbol)
    (by simp [producibleQuantities])
  unfold extra worstMagnitude
  rw [add_zero] at h
  linarith

/-- A symbol with nothing in flight has no more to come. -/
theorem extra_of_idle {symbol : String} (h : symbol ∉ (inFlightBySymbol w).keys) :
    extra symbol (booksOf p w) = 0 := by
  rw [Dict.mem_keys_iff, Option.not_isSome_iff_eq_none] at h
  have hget := inFlightBySymbol_get w symbol
  rw [h, Option.getD_none, Prod.mk.injEq] at hget
  obtain ⟨hlo, hhi⟩ := held_projectPending_mem (p := p) (w := w) symbol
  rw [← hget.1, add_zero] at hhi
  rw [← hget.2, sub_zero] at hlo
  have hheld : (projectPending p w).held symbol = p.held symbol := le_antisymm hhi hlo
  have hle : worstMagnitude symbol (booksOf p w) ≤ |p.held symbol| := by
    refine worst_le (abs_nonneg _) fun q hq => ?_
    rcases (mem_producible symbol q).1 hq with rfl | rfl | rfl | rfl
    · simp
    · simp [← hget.1]
    · simp [← hget.2]
    · simp [hheld]
  refine le_antisymm ?_ (extra_nonneg _ _)
  show worstMagnitude symbol (booksOf p w) - |(projectPending p w).held symbol| ≤ 0
  rw [hheld]
  linarith

/-- The loop of the exposure rule adds what each other symbol can still grow by, at a mark it needs to find. -/
theorem addWorking_ok {books : RiskBooks} : ∀ {l : List String} {total resulting : ℚ},
    addWorking o books l total = .ok resulting →
      resulting = total + (l.map (fun s => if s = o.symbol then 0 else extra s books * markOf books.committed s)).sum ∧
        ∀ s ∈ l, s ≠ o.symbol → 0 < extra s books → (markIn books.committed.positions s).isSome
  | [], total, resulting, h => by
    injection h with h
    simp [h]
  | s :: l, total, resulting, h => by
    unfold addWorking at h
    by_cases hs : s = o.symbol
    · rw [if_pos hs] at h
      obtain ⟨hsum, hmarks⟩ := addWorking_ok h
      refine ⟨by simp [hsum, hs], fun t ht hne hpos => ?_⟩
      rcases List.mem_cons.1 ht with rfl | ht
      · exact absurd hs hne
      · exact hmarks t ht hne hpos
    · rw [if_neg hs] at h
      by_cases hx : extra s books ≤ 0
      · have h0 : extra s books = 0 := le_antisymm hx (extra_nonneg s books)
        unfold extra at hx
        simp only [if_pos hx] at h
        obtain ⟨hsum, hmarks⟩ := addWorking_ok h
        refine ⟨by simp [hsum, hs, h0], fun t ht hne hpos => ?_⟩
        rcases List.mem_cons.1 ht with rfl | ht
        · linarith
        · exact hmarks t ht hne hpos
      · have hx' := hx
        unfold extra at hx'
        simp only [if_neg hx'] at h
        cases hm : (books.committed.positions.get? s).bind Position.lastPrice with
        | none => simp [hm] at h
        | some mark =>
          simp only [hm] at h
          obtain ⟨hsum, hmarks⟩ := addWorking_ok h
          have hmark : markOf books.committed s = mark := by simp [markOf, markIn, hm]
          refine ⟨?_, fun t ht hne hpos => ?_⟩
          · rw [hsum, List.map_cons, List.sum_cons, if_neg hs, hmark]
            unfold extra
            ring
          · rcases List.mem_cons.1 ht with rfl | ht
            · simp [markIn, hm]
            · exact hmarks t ht hne hpos

/-! ## The exposure ceiling -/

def IsMarket (o : Order) : Prop := o.orderType = .market ∧ o.limitPrice = none

theorem IsMarket.priceOf (h : IsMarket o) : priceOf p o = markIn p.positions o.symbol := by
  simp [Projection.priceOf, referencePrice, h.2, markIn]

/-- Market orders in flight change no mark. -/
theorem markIn_projectPending (hpending : ∀ x ∈ w, IsMarket x) (symbol : String) :
    markIn (projectPending p w).positions symbol = markIn p.positions symbol := by
  rw [projectPending_eq]
  have hl : ∀ x ∈ projected p w, IsMarket x := fun x hx => hpending x (List.mem_filter.1 hx).1
  have hfold : ∀ (l : List Order) (acc : ℚ × Dict String Position), (∀ x ∈ l, IsMarket x) →
      markIn acc.2 symbol = markIn p.positions symbol →
        markIn (l.foldl (commitOrder p) acc).2 symbol = markIn p.positions symbol := by
    intro l
    induction l with
    | nil => exact fun acc _ h => h
    | cons x l ih =>
      intro acc hx h
      refine ih _ (fun y hy => hx y (by simp [hy])) ?_
      rw [markIn_commitOrder, h, (hx x (by simp)).priceOf]
      by_cases hs : x.symbol = symbol
      · rw [if_pos hs, hs, Option.or_self]
      · rw [if_neg hs, Option.or_none]
  exact hfold _ _ hl rfl

/-- **What an approval by an exposure ceiling says**, of an order that is no pure exit: the book can be valued, the order
priced, and the measure allows it. -/
theorem valued_approved {rule : String} {books : RiskBooks} {measure : ℚ → ℚ → RiskDecision}
    (hexit : closesWithoutReversing o books.settled = false) (h : (valued rule o books measure).approved = true) :
    books.committed.unmarkedSymbols = [] ∧ ∃ price, priceFor o books.committed = some price ∧
      (measure price books.committed.equity).approved = true := by
  unfold valued unpricedBook at h
  rw [hexit] at h
  cases hu : books.committed.unmarkedSymbols with
  | cons _ _ => simp [hu, RiskDecision.deny] at h
  | nil =>
    refine ⟨rfl, ?_⟩
    cases hp : priceFor o books.committed with
    | none => simp [hu, hp, RiskDecision.deny] at h
    | some price =>
      by_cases he : books.committed.equity ≤ 0
      · simp [hu, hp, he, RiskDecision.deny] at h
      · simp only [hu, hp, he, Bool.false_eq_true, if_false] at h
        exact ⟨price, rfl, h⟩

theorem maxPositionSizeCheck_approved {books : RiskBooks} {limits : RiskLimits}
    (hexit : closesWithoutReversing o books.settled = false) (h : (maxPositionSizeCheck o books limits).approved = true) :
    ∃ price, priceFor o books.committed = some price ∧
      worstResultingQty o books * price ≤ limits.maxPositionPct * books.committed.equity := by
  obtain ⟨-, price, hprice, hmeasured⟩ := valued_approved hexit h
  refine ⟨price, hprice, not_lt.1 fun hlt => ?_⟩
  simp [hlt, RiskDecision.deny] at hmeasured

theorem maxExposureCheck_approved {books : RiskBooks} {limits : RiskLimits}
    (hexit : closesWithoutReversing o books.settled = false) (h : (maxExposureCheck o books limits).approved = true) :
    books.committed.unmarkedSymbols = [] ∧ ∃ price resulting, priceFor o books.committed = some price ∧
      addWorking o books books.inFlight.keys (ownExposure o books price) = .ok resulting ∧
        resulting ≤ limits.maxGrossExposurePct * books.committed.equity := by
  obtain ⟨hmarked, price, hprice, hmeasured⟩ := valued_approved hexit h
  refine ⟨hmarked, price, ?_⟩
  cases hw : addWorking o books books.inFlight.keys (ownExposure o books price) with
  | error symbol => simp [hw, RiskDecision.deny] at hmeasured
  | ok resulting =>
    refine ⟨resulting, hprice, rfl, not_lt.1 fun hlt => ?_⟩
    simp [hw, hlt, RiskDecision.deny] at hmeasured

/-- What the loop adds, over any set that has the symbols in flight. -/
theorem sum_working {S : Finset String} (hW : ∀ s ∈ (inFlightBySymbol w).keys, s ∈ S) :
    ((inFlightBySymbol w).keys.map (fun s => if s = o.symbol then 0 else
      extra s (booksOf p w) * markOf (projectPending p w) s)).sum =
        ∑ s ∈ S, if s = o.symbol then 0 else extra s (booksOf p w) * markOf (projectPending p w) s := by
  have hnodup : (inFlightBySymbol w).keys.Nodup := (inFlightBySymbol w).nodup
  rw [← List.sum_toFinset _ hnodup]
  refine Finset.sum_subset (fun s hs => hW s (List.mem_toFinset.1 hs)) fun s _ hs => ?_
  rw [extra_of_idle (fun hmem => hs (List.mem_toFinset.2 hmem)), zero_mul, ite_self]

/-- What the rule measures, symbol by symbol. -/
theorem resulting_eq {price resulting : ℚ} (hprice : price = markOf (projectPending p w) o.symbol)
    (hmarks : ∀ s, 0 ≤ markOf (projectPending p w) s)
    (h : addWorking o (booksOf p w) (inFlightBySymbol w).keys (ownExposure o (booksOf p w) price)
      = .ok resulting) {S : Finset String} (ho : o.symbol ∈ S) (hS : ∀ s ∈ (projectPending p w).positions.keys, s ∈ S)
    (hW : ∀ s ∈ (inFlightBySymbol w).keys, s ∈ S) :
    resulting = ∑ s ∈ S, (if s = o.symbol then worstResultingQty o (booksOf p w)
      else worstMagnitude s (booksOf p w)) * markOf (projectPending p w) s := by
  have hgross := grossExposure_eq (projectPending p w) S hS
  have hloop := sum_working (p := p) (o := o) hW
  have hown : ∑ s ∈ S, (if s = o.symbol then (worstResultingQty o (booksOf p w)
      - |(projectPending p w).held s|) * price else 0) =
        (worstResultingQty o (booksOf p w) - |(projectPending p w).held o.symbol|) * price := by
    rw [Finset.sum_ite_eq' S o.symbol, if_pos ho]
  have hmeasured := (addWorking_ok h).1
  have htotal : resulting = (projectPending p w).grossExposure
      + (worstResultingQty o (booksOf p w) - |(projectPending p w).held o.symbol|) * price
      + ((inFlightBySymbol w).keys.map (fun s => if s = o.symbol then 0 else
        extra s (booksOf p w) * markOf (projectPending p w) s)).sum := by
    rw [hmeasured]
    simp only [ownExposure, booksOf]
    ring
  rw [htotal, hgross, hloop, ← hown, ← Finset.sum_add_distrib, ← Finset.sum_add_distrib]
  refine Finset.sum_congr rfl fun s _ => ?_
  rw [abs_of_nonneg (hmarks s)]
  by_cases hs : s = o.symbol
  · subst hs
    simp only [if_true, hprice]
    ring
  · simp only [if_neg hs, extra]
    show _ + 0 + (worstMagnitude s (booksOf p w) - |(projectPending p w).held s|) * _ = _
    ring

/-- A book inside the bound, at the same marks, has no more exposure than the rule measured. -/
theorem grossExposure_le {b : Portfolio} {price resulting : ℚ}
    (hprice : price = markOf (projectPending p w) o.symbol) (hmarks : ∀ s, 0 ≤ markOf (projectPending p w) s)
    (h : addWorking o (booksOf p w) (inFlightBySymbol w).keys (ownExposure o (booksOf p w) price)
      = .ok resulting) (hb : ∀ s, markOf b s = markOf (projectPending p w) s)
    (hown : |b.held o.symbol| ≤ worstResultingQty o (booksOf p w))
    (hrest : ∀ s, s ≠ o.symbol → |b.held s| ≤ worstMagnitude s (booksOf p w)) : b.grossExposure ≤ resulting := by
  let S : Finset String := b.positions.keys.toFinset ∪ (projectPending p w).positions.keys.toFinset ∪
    (inFlightBySymbol w).keys.toFinset ∪ {o.symbol}
  have hmeasured := resulting_eq (S := S) hprice hmarks h (by simp [S]) (fun s hs => by simp [S, hs])
    (fun s hs => by simp [S, hs])
  rw [grossExposure_eq b S (fun s hs => by simp [S, hs]), hmeasured]
  refine Finset.sum_le_sum fun s _ => ?_
  rw [hb s, abs_of_nonneg (hmarks s)]
  refine mul_le_mul_of_nonneg_right ?_ (hmarks s)
  by_cases hs : s = o.symbol
  · rw [if_pos hs, hs]
    exact hown
  · rw [if_neg hs]
    exact hrest s hs

/-- **Nothing open is unmarked** exactly when whatever is held has a mark. -/
theorem unmarkedSymbols_eq_nil (p : Portfolio) :
    p.unmarkedSymbols = [] ↔ ∀ s, p.held s ≠ 0 → (markIn p.positions s).isSome := by
  have hmem (symbol : String) : symbol ∈ p.unmarkedSymbols ↔
      ∃ q ∈ p.positions.values, (q.qty ≠ 0 ∧ q.lastPrice = none) ∧ q.symbol = symbol := by
    simp [Portfolio.unmarkedSymbols, List.mem_insertionSort, Position.isFlat, and_assoc]
  rw [List.eq_nil_iff_forall_not_mem]
  simp only [hmem, Dict.mem_values_iff]
  constructor
  · intro h s hheld
    cases hg : p.positions.get? s with
    | none => exact absurd (Portfolio.held_none p hg) hheld
    | some q =>
      rw [Portfolio.held_eq p hg] at hheld
      cases hl : q.lastPrice with
      | none => exact absurd ⟨q, ⟨s, hg⟩, ⟨hheld, hl⟩, rfl⟩ (h q.symbol)
      | some mark => simp [markIn, hg, hl]
  · rintro h symbol ⟨q, ⟨s, hg⟩, ⟨hheld, hl⟩, -⟩
    have hs := h s (by rwa [Portfolio.held_eq p hg])
    simp [markIn, hg, hl] at hs

theorem grossExposure_moved (p : Portfolio) (f : Order × ℚ) : (moved p f).grossExposure = p.grossExposure
    + (|p.held f.1.symbol + f.2 * f.1.side.sign| - |p.held f.1.symbol|) * |markOf p f.1.symbol| := by
  have hset := Dict.sum_values_set Position.exposure p.positions f.1.symbol
    { p.position f.1.symbol with qty := p.held f.1.symbol + f.2 * f.1.side.sign }
  unfold Portfolio.grossExposure moved Portfolio.setPosition
  rw [hset]
  unfold markOf markIn Portfolio.held Portfolio.position
  cases hg : p.positions.get? f.1.symbol with
  | none => simp [Position.exposure, Position.marketValue]
  | some q =>
    cases hl : q.lastPrice with
    | none => simp [Position.exposure, Position.marketValue, hl]
    | some mark =>
      simp [Position.exposure, Position.marketValue, hl, abs_mul]
      ring

/-- A magnitude on the way from `h` to `h + q` is at most that of one of the two. -/
theorem abs_part_le {h q part e : ℚ} (h0 : 0 ≤ part) (hle : part ≤ q) :
    |h + part * e| ≤ max |h + q * e| |h| := by
  rcases le_total 0 e with hs | hs
  · have hlo : h ≤ h + part * e := by nlinarith
    have hhi : h + part * e ≤ h + q * e := by nlinarith
    exact (abs_le_max_abs_abs hlo hhi).trans_eq (max_comm _ _)
  · have hhi : h + part * e ≤ h := by nlinarith
    have hlo : h + q * e ≤ h + part * e := by nlinarith
    exact abs_le_max_abs_abs hlo hhi

/-- **An order filled in part leaves at most the exposure it leaves filled, or not at all.** -/
theorem grossExposure_part (p : Portfolio) (o : Order) {part : ℚ} (h0 : 0 ≤ part) (hle : part ≤ o.qty) :
    (moved p (o, part)).grossExposure ≤ max (moved p (o, o.qty)).grossExposure p.grossExposure := by
  have hmark := abs_nonneg (markOf p o.symbol)
  rw [grossExposure_moved, grossExposure_moved]
  rcases le_max_iff.1 (abs_part_le (h := p.held o.symbol) (e := o.side.sign) h0 hle) with h | h
  · refine le_max_of_le_left ?_
    have := mul_le_mul_of_nonneg_right h hmark
    linarith
  · refine le_max_of_le_right ?_
    have := mul_le_mul_of_nonneg_right h hmark
    linarith

/-- Whatever fills of the orders in flight, the quantity left is one the rules count on. -/
theorem Outcome.worst_le {fills : List (Order × ℚ)} (h : Outcome w fills) (s : String) (k : ℚ) :
    |(filledBook p fills).held s + k| ≤ worst k (producibleQuantities s (booksOf p w)) := by
  obtain ⟨hlo, hhi⟩ := held_filledBook s fills p fun f hf => ⟨(h.2 f hf).1, (h.2 f hf).2.trans (le_max_right _ _)⟩
  rw [h.1] at hlo hhi
  exact abs_le_worst_interval hlo hhi

theorem Outcome.beside_le {fills : List (Order × ℚ)} (h : Outcome w fills) (part : ℚ) {s : String} (hs : s ≠ o.symbol) :
    |(moved (filledBook p fills) (o, part)).held s| ≤ worstMagnitude s (booksOf p w) := by
  rw [held_moved, if_neg (Ne.symm hs)]
  exact h.worst_le s 0

/-- **An approved order leaves nothing unmarked**: a symbol of which the rules count on anything has a mark. -/
theorem approved_marked {price resulting : ℚ} (hunmarked : (projectPending p w).unmarkedSymbols = [])
    (hown : (markIn (projectPending p w).positions o.symbol).isSome)
    (hworking : addWorking o (booksOf p w) (inFlightBySymbol w).keys (ownExposure o (booksOf p w) price) = .ok resulting)
    {s : String} (hheld : s ≠ o.symbol → 0 < worstMagnitude s (booksOf p w)) :
    (markIn (projectPending p w).positions s).isSome := by
  by_cases hsym : s = o.symbol
  · rw [hsym]
    exact hown
  by_cases hextra : 0 < extra s (booksOf p w)
  · have hmem : s ∈ (inFlightBySymbol w).keys := by
      by_contra hidle
      rw [extra_of_idle hidle] at hextra
      exact lt_irrefl _ hextra
    exact (addWorking_ok hworking).2 s hmem hsym hextra
  · -- what the orders in flight add nothing to is held already
    have hle : worstMagnitude s (booksOf p w) ≤ |(projectPending p w).held s| := by
      unfold extra at hextra
      simpa [booksOf] using hextra
    exact (unmarkedSymbols_eq_nil _).1 hunmarked s (abs_pos.1 ((hheld hsym).trans_le hle))

/-- **The exposure ceiling bounds every outcome of an order that fills**: of market orders in flight any part may fill,
and where the order under test fills in part only, the exposure is at most the ceiling or what the outcome has without it. -/
theorem exposure_bounded {limits : RiskLimits} (fills : List (Order × ℚ)) (part : ℚ)
    (hmarks : ∀ s mark, markIn p.positions s = some mark → 0 ≤ mark) (hpending : ∀ x ∈ w, IsMarket x) (ho : IsMarket o)
    (hexit : closesWithoutReversing o p = false)
    (happroved : (maxExposureCheck o (booksOf p w) limits).approved = true)
    (hfills : Outcome w fills) (h0 : 0 ≤ part) (hle : part ≤ o.qty) :
    (∀ q ∈ (moved (filledBook p fills) (o, part)).openPositions, q.lastPrice.isSome) ∧
      (moved (filledBook p fills) (o, o.qty)).grossExposure ≤
        limits.maxGrossExposurePct * (projectPending p w).equity ∧
      (moved (filledBook p fills) (o, part)).grossExposure ≤
        max (limits.maxGrossExposurePct * (projectPending p w).equity) (filledBook p fills).grossExposure := by
  obtain ⟨hunmarked, price, resulting, hprice, hworking, hceiling⟩ := maxExposureCheck_approved hexit happroved
  have hsame (s : String) : markIn (projectPending p w).positions s = markIn p.positions s :=
    markIn_projectPending hpending s
  have hnonneg (s : String) : 0 ≤ markOf (projectPending p w) s := by
    unfold markOf
    rw [hsame]
    cases hm : markIn p.positions s with
    | none => exact le_refl _
    | some mark => exact hmarks s mark hm
  have hown : markIn (projectPending p w).positions o.symbol = some price := by
    rw [← hprice]
    simp [priceFor, referencePrice, ho.2, markIn, booksOf]
  have hfull : (moved (filledBook p fills) (o, o.qty)).grossExposure ≤ resulting := by
    refine grossExposure_le (by simp [markOf, hown]) hnonneg hworking (fun s => ?_) ?_ (fun s => hfills.beside_le o.qty)
    · unfold markOf
      rw [markIn_moved, markIn_filledBook, hsame]
    · rw [held_moved, if_pos rfl]
      exact hfills.worst_le o.symbol _
  have hbounded := hfull.trans hceiling
  refine ⟨fun q hq => ?_, hbounded, (grossExposure_part _ o h0 hle).trans (max_le_max_right _ hbounded)⟩
  obtain ⟨hq, hopen⟩ := List.mem_filter.1 hq
  obtain ⟨s, hs⟩ := (Dict.mem_values_iff _ _).1 hq
  have hmark : markIn (projectPending p w).positions s = q.lastPrice := by
    have h := markIn_moved (filledBook p fills) (o, part) s
    rw [markIn_filledBook, ← hsame] at h
    rw [← h]
    simp [markIn, hs]
  have hheld : (moved (filledBook p fills) (o, part)).held s = q.qty := Portfolio.held_eq _ hs
  have hne : q.qty ≠ 0 := by simpa [Position.isFlat] using hopen
  rw [← hmark]
  refine approved_marked hunmarked (by rw [hown]; rfl) hworking fun hsym => ?_
  have hle := hfills.beside_le (p := p) part hsym
  rw [hheld] at hle
  exact (abs_pos.2 hne).trans_le hle

/-- A flat book with one symbol marked at 100, a buy of a hundred shares in flight, and a sell of ten. -/
def flatBook : Portfolio where
  cash := 10000
  startingEquity := 10000
  positions := Dict.empty.set "AAPL" { symbol := "AAPL", lastPrice := some 100 }

def workingBuy : Order where
  symbol := "AAPL"
  side := .buy
  qty := 100
  id := "o-1"
  clientOrderId := "c-1"
  status := .submitted

def sellTen : Order where
  symbol := "AAPL"
  side := .sell
  qty := 10
  id := "o-2"
  clientOrderId := "c-2"

def limits95 : RiskLimits where
  maxPositionPct := 19 / 20
  maxGrossExposurePct := 19 / 20
  maxDailyLossPct := 3 / 100
  maxOpenPositions := 20
  positionPct_pos := by decide +kernel
  positionPct_le := by decide +kernel
  grossPct_le := by decide +kernel
  position_le_gross := le_refl _
  lossPct_pos := by decide +kernel
  lossPct_le := by decide +kernel
  openPositions_pos := by decide

theorem flatBook_marks (s : String) (mark : ℚ) (h : markIn flatBook.positions s = some mark) : 0 ≤ mark := by
  simp only [markIn, flatBook, Dict.get?_set, Dict.get?_empty] at h
  by_cases hs : s = "AAPL"
  · rw [if_pos hs] at h
    have hmark : mark = 100 := (Option.some.inj h).symm
    rw [hmark]
    decide +kernel
  · rw [if_neg hs] at h
    cases h

theorem exposure_bounded_sell : (moved (filledBook flatBook [(workingBuy, 60)]) (sellTen, sellTen.qty)).grossExposure ≤
    limits95.maxGrossExposurePct * (projectPending flatBook [workingBuy]).equity := by
  have happroved : (maxExposureCheck sellTen (booksOf flatBook [workingBuy]) limits95).approved = true := by
    decide +kernel
  exact (exposure_bounded [(workingBuy, 60)] 10 flatBook_marks (fun x hx => by simp_all [IsMarket, workingBuy])
    ⟨rfl, rfl⟩ (by decide +kernel) happroved ⟨rfl, fun f hf => by rw [List.mem_singleton.1 hf]; decide +kernel⟩
    (by decide +kernel) (by decide +kernel)).2.1

/-- The buy fills and the sell does not: the book stands at its whole equity, over a ceiling of 95% of it. -/
theorem unfilled_order_over_ceiling : ¬ ∀ (p : Portfolio) (w : List Order) (o : Order) (limits : RiskLimits)
    (fills : List (Order × ℚ)) (part : ℚ), (∀ q ∈ p.openPositions, q.lastPrice.isSome) →
    (∀ s mark, markIn p.positions s = some mark → 0 ≤ mark) → (∀ x ∈ w, IsMarket x) → IsMarket o →
    closesWithoutReversing o p = false → (maxExposureCheck o (booksOf p w) limits).approved = true →
    Outcome w fills → 0 ≤ part → part ≤ o.qty → (moved (filledBook p fills) (o, part)).grossExposure ≤
      limits.maxGrossExposurePct * (projectPending p w).equity := by
  intro h
  have hle := h flatBook [workingBuy] sellTen limits95 [(workingBuy, 100)] 0 (by decide +kernel) flatBook_marks
    (fun x hx => by simp_all [IsMarket, workingBuy]) ⟨rfl, rfl⟩ (by decide +kernel) (by decide +kernel)
    ⟨rfl, fun f hf => by rw [List.mem_singleton.1 hf]; decide +kernel⟩ (le_refl 0) (by decide +kernel)
  exact absurd hle (by decide +kernel)

end InFlight
end Atp
