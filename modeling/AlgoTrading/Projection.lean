import Mathlib.Tactic.LinearCombination
import AlgoTrading.RiskEngine
/-!
# Projection — what a book is worth with its orders in flight

`project_pending` moves cash at the price an order is measured by and holds what the order adds at the mark of its
symbol.  `projectPending_equity` says what that does to the equity: it drifts by the signed quantity of each projected
order, times the difference of the two prices.
-/
namespace Atp
namespace Projection

/-- The orders `project_pending` projects: what is still to fill of what does not reduce the book. -/
def projected (p : Portfolio) (pending : List Order) : List Order :=
  pending.filter (fun o => decide (0 < o.remainingQty) && !reducesPosition o p)

def signedRemaining (o : Order) : ℚ := o.remainingQty * o.side.sign

/-- The price an order in flight is measured by. -/
def priceOf (p : Portfolio) (o : Order) : Option ℚ := referencePrice o.symbol p o.limitPrice

/-- The mark a symbol has among some positions. -/
def markIn (positions : Dict String Position) (symbol : String) : Option ℚ :=
  (positions.get? symbol).bind Position.lastPrice

/-- The mark a symbol is projected at: the one it has, or else the price of its first order. -/
def markAfter (p : Portfolio) (positions : Dict String Position) (l : List Order) (symbol : String) : Option ℚ :=
  (markIn positions symbol).or (l.findSome? (fun o => if o.symbol = symbol then priceOf p o else none))

/-- By how much marks and prices disagree about what is projected. -/
def driftFrom (p : Portfolio) (positions : Dict String Position) (l marks : List Order) : ℚ :=
  (l.map (fun o => signedRemaining o * ((markAfter p positions marks o.symbol).getD 0 - (priceOf p o).getD 0))).sum

def drift (p : Portfolio) (pending : List Order) : ℚ :=
  driftFrom p p.positions (projected p pending) (projected p pending)

/-- What cash and positions are worth together. -/
def worth (acc : ℚ × Dict String Position) : ℚ := acc.1 + (acc.2.values.map Position.marketValue).sum

/-- Nothing is held without a mark. -/
def Marked (positions : Dict String Position) : Prop :=
  ∀ symbol q, positions.get? symbol = some q → q.lastPrice = none → q.qty = 0

theorem marked_of_openPositions {p : Portfolio} (h : ∀ q ∈ p.openPositions, q.lastPrice.isSome) : Marked p.positions := by
  intro symbol q hq hnone
  by_contra hne
  have hopen : q ∈ p.openPositions := by
    rw [Portfolio.openPositions, List.mem_filter]
    exact ⟨(Dict.mem_values_iff _ _).2 ⟨symbol, hq⟩, by simp [Position.isFlat, hne]⟩
  simpa [hnone] using h q hopen

/-! ## One order -/

variable {p : Portfolio} {acc : ℚ × Dict String Position} {o : Order} {price : ℚ}

theorem markIn_commitOrder (symbol : String) : markIn (commitOrder p acc o).2 symbol =
    (markIn acc.2 symbol).or (if o.symbol = symbol then priceOf p o else none) := by
  unfold commitOrder markIn priceOf
  by_cases hs : symbol = o.symbol
  · subst hs
    cases referencePrice o.symbol p o.limitPrice <;> cases acc.2.get? o.symbol <;> simp
  · cases referencePrice o.symbol p o.limitPrice <;> simp [Dict.get?_set, hs, Ne.symm hs]

theorem marked_commitOrder (hm : Marked acc.2) (h : priceOf p o = some price) : Marked (commitOrder p acc o).2 := by
  have hc : referencePrice o.symbol p o.limitPrice = some price := h
  intro symbol q hq hnone
  by_cases hs : symbol = o.symbol
  · subst hs
    simp only [commitOrder, hc, Dict.get?_set_self, Option.some.injEq] at hq
    subst hq
    simp at hnone
  · simp only [commitOrder, hc, Dict.get?_set, if_neg hs] at hq
    exact hm symbol q hq hnone

/-- **One order in flight moves the worth of the book by its quantity, times mark less price.** -/
theorem worth_commitOrder (hm : Marked acc.2) (h : priceOf p o = some price) :
    worth (commitOrder p acc o) =
      worth acc + signedRemaining o * (((markIn acc.2 o.symbol).or (some price)).getD 0 - price) := by
  have hc : referencePrice o.symbol p o.limitPrice = some price := h
  have hval (q : Position) := Dict.sum_values_set Position.marketValue acc.2 o.symbol q
  simp only [worth, commitOrder, hc, hval, signedRemaining, markIn]
  cases hg : acc.2.get? o.symbol with
  | none => simp [Position.marketValue]
  | some q =>
    cases hl : q.lastPrice with
    | some mark =>
      simp [Position.marketValue, hl]
      ring
    | none =>
      have h0 : q.qty = 0 := hm _ q hg hl
      simp [Position.marketValue, hl, h0]

/-! ## All of them -/

theorem markAfter_cons {a : ℚ × Dict String Position} (l : List Order) (h : priceOf p o = some price) (symbol : String) :
    markAfter p a.2 (o :: l) symbol = markAfter p (commitOrder p a o).2 l symbol := by
  unfold markAfter
  rw [markIn_commitOrder, List.findSome?_cons]
  by_cases hs : o.symbol = symbol
  · simp only [if_pos hs, h]
    rw [Option.or_assoc, Option.some_or]
  · simp only [if_neg hs, Option.or_none]

theorem worth_foldl : ∀ (l : List Order) (acc : ℚ × Dict String Position), Marked acc.2 →
    (∀ o ∈ l, (priceOf p o).isSome) → worth (l.foldl (commitOrder p) acc) = worth acc + driftFrom p acc.2 l l
  | [], acc, _, _ => by simp [driftFrom]
  | o :: l, acc, hm, hp => by
    obtain ⟨price, hprice⟩ := Option.isSome_iff_exists.1 (hp o (by simp))
    have hrest := worth_foldl l (commitOrder p acc o) (marked_commitOrder hm hprice) (fun o' h' => hp o' (by simp [h']))
    have hmarks : driftFrom p acc.2 l (o :: l) = driftFrom p (commitOrder p acc o).2 l l := by
      unfold driftFrom
      have hcons (s : String) := markAfter_cons (a := acc) l hprice s
      simp only [hcons]
    have hfirst : markAfter p acc.2 (o :: l) o.symbol = (markIn acc.2 o.symbol).or (some price) := by
      unfold markAfter
      rw [List.findSome?_cons, if_pos rfl, hprice]
    have hcons : driftFrom p acc.2 (o :: l) (o :: l) =
        signedRemaining o * ((markAfter p acc.2 (o :: l) o.symbol).getD 0 - (priceOf p o).getD 0)
          + driftFrom p acc.2 l (o :: l) := by simp [driftFrom]
    rw [List.foldl_cons, hrest, worth_commitOrder hm hprice, hcons, hmarks, hfirst, hprice, Option.getD_some]
    ring

/-- **What the projection does to the equity**: it drifts by what marks and prices disagree about. -/
theorem projectPending_equity {pending : List Order} (hmarked : ∀ q ∈ p.openPositions, q.lastPrice.isSome)
    (hpriced : ∀ o ∈ projected p pending, (priceOf p o).isSome) :
    (projectPending p pending).equity = p.equity + drift p pending := by
  have h := worth_foldl (projected p pending) (p.cash, p.positions) (marked_of_openPositions hmarked) hpriced
  unfold projectPending drift
  unfold projected at h ⊢
  generalize pending.filter _ = l at h ⊢
  cases l with
  | nil => simp [driftFrom]
  | cons o l => exact h

/-- **The projection conserves equity exactly when what is projected is priced, on balance, at the marks.** -/
theorem projectPending_conserves {pending : List Order} (hmarked : ∀ q ∈ p.openPositions, q.lastPrice.isSome)
    (hpriced : ∀ o ∈ projected p pending, (priceOf p o).isSome) :
    (projectPending p pending).equity = p.equity ↔ drift p pending = 0 := by
  rw [projectPending_equity hmarked hpriced]
  exact add_eq_left

/-- A book of ten shares marked at 100, and two buys of ten more: at the market, and at a limit of 90. -/
def book : Portfolio where
  cash := 1000
  startingEquity := 2000
  positions := Dict.empty.set "AAPL" { symbol := "AAPL", qty := 10, avgEntryPrice := 95, lastPrice := some 100 }

def buy : Order where
  symbol := "AAPL"
  side := .buy
  qty := 10
  id := "o-1"
  clientOrderId := "c-1"
  status := .submitted

def limitBuy : Order := { buy with orderType := .limit, limitPrice := some 90 }

/-- A market order is priced at the mark. -/
theorem market_conserves : (∀ q ∈ book.openPositions, q.lastPrice.isSome) ∧
    (∀ o ∈ projected book [buy], (priceOf book o).isSome) ∧ (projectPending book [buy]).equity = book.equity := by
  have hmarked : ∀ q ∈ book.openPositions, q.lastPrice.isSome := by decide +kernel
  have hpriced : ∀ o ∈ projected book [buy], (priceOf book o).isSome := by decide +kernel
  exact ⟨hmarked, hpriced, (projectPending_conserves hmarked hpriced).2 (by decide +kernel)⟩

/-- Ten shares bought at 90 and held at 100 are a hundred of equity no one has made. -/
theorem limit_inflates : ¬ ∀ (p : Portfolio) (pending : List Order), (∀ q ∈ p.openPositions, q.lastPrice.isSome) →
    (∀ o ∈ projected p pending, (priceOf p o).isSome) → (projectPending p pending).equity = p.equity := by
  intro h
  have heq := h book [limitBuy] (by decide +kernel) (by decide +kernel)
  have hne : (projectPending book [limitBuy]).equity ≠ book.equity := by decide +kernel
  exact hne heq

end Projection
end Atp
