import AlgoTrading.InFlight
/-!
# InFlightBound — the bound over the orders in flight is exact

A symbol can end anywhere its buys and its sells in flight, each filled in part, in full or not at all, take it.  The four
candidates of `_producible_quantities` bound that set (`InFlight`), and its two ends are in it, so what the ceilings measure
is attained.
-/
namespace Atp
namespace InFlight

open Ceilings

/-- The quantities a symbol can end at: each order in flight fills any amount up to what remains of it. -/
def reachable (p : Portfolio) (w : List Order) (symbol : String) : Set ℚ :=
  {q | ∃ fills : List (Order × ℚ), fills.map Prod.fst = w ∧ (∀ f ∈ fills, 0 ≤ f.2 ∧ f.2 ≤ max 0 f.1.remainingQty) ∧
    (filledBook p fills).held symbol = q}

/-- Every order of one side fills in full, and no other. -/
def sideFills (side : Side) (w : List Order) : List (Order × ℚ) :=
  w.map fun o => (o, if o.side = side then max 0 o.remainingQty else 0)

variable {p : Portfolio} {w : List Order}

theorem held_sideFills (side : Side) (symbol : String) : ∀ (w : List Order) (p : Portfolio),
    (filledBook p (sideFills side w)).held symbol = p.held symbol + workingOn side symbol w * side.sign
  | [], p => by simp [sideFills, filledBook]
  | o :: w, p => by
    have hfirst : (if o.symbol = symbol then (if o.side = side then max 0 o.remainingQty else 0) * o.side.sign else 0) =
        workingOn side symbol [o] * side.sign := by
      rw [workingOn_cons, workingOn_nil, add_zero]
      by_cases hs : o.symbol = symbol
      · by_cases hside : o.side = side
        · rw [if_pos hs, if_pos hside, hside]
          obtain hpos | hnone := lt_or_ge 0 o.remainingQty
          · rw [if_pos ⟨hs, rfl, hpos⟩, max_eq_right hpos.le]
          · rw [if_neg (fun h => absurd h.2.2 (not_lt.2 hnone)), max_eq_left hnone]
        · rw [if_pos hs, if_neg hside, if_neg (fun h => hside h.2.1)]
          simp
      · rw [if_neg hs, if_neg (fun h => hs h.1), zero_mul]
    show (filledBook (moved p _) (sideFills side w)).held symbol = _
    rw [held_sideFills side symbol w, held_moved, workingOn_cons]
    rw [workingOn_cons, workingOn_nil, add_zero] at hfirst
    dsimp only
    rw [hfirst]
    ring

theorem held_sideFills_mem (side : Side) (symbol : String) :
    p.held symbol + workingOn side symbol w * side.sign ∈ reachable p w symbol := by
  refine ⟨sideFills side w, ?_, fun f hf => ?_, held_sideFills side symbol w p⟩
  · simp [sideFills, Function.comp_def]
  · obtain ⟨o, -, rfl⟩ := List.mem_map.1 hf
    dsimp only
    split
    · exact ⟨le_max_left _ _, le_rfl⟩
    · exact ⟨le_rfl, le_max_left _ _⟩

/-- The ends of the interval are reached, and nothing outside it. -/
theorem reachable_bounds (symbol : String) : p.held symbol - workingOn .sell symbol w ∈ reachable p w symbol ∧
    p.held symbol + workingOn .buy symbol w ∈ reachable p w symbol ∧
      ∀ q ∈ reachable p w symbol, p.held symbol - workingOn .sell symbol w ≤ q ∧ q ≤ p.held symbol + workingOn .buy symbol w := by
  refine ⟨?_, ?_, ?_⟩
  · simpa [Side.sign, sub_eq_add_neg] using held_sideFills_mem (p := p) (w := w) .sell symbol
  · simpa [Side.sign] using held_sideFills_mem (p := p) (w := w) .buy symbol
  · rintro q ⟨fills, rfl, hfills, rfl⟩
    exact held_filledBook symbol fills p hfills

/-- **Whatever the shift, the worst of the candidates is the greatest magnitude reached.** -/
theorem worst_isGreatest (k : ℚ) (symbol : String) :
    IsGreatest ((fun q => |q + k|) '' reachable p w symbol) (worst k (producibleQuantities symbol (booksOf p w))) := by
  obtain ⟨hlo, hhi, hbounds⟩ := reachable_bounds (p := p) (w := w) symbol
  refine ⟨?_, ?_⟩
  · have hsells := workingOn_nonneg .sell symbol w
    have hbuys := workingOn_nonneg .buy symbol w
    -- every candidate lies between the two ends, so one of those is the worst
    have hmax : worst k (producibleQuantities symbol (booksOf p w)) =
        max |p.held symbol - workingOn .sell symbol w + k| |p.held symbol + workingOn .buy symbol w + k| := by
      refine le_antisymm (worst_le (le_max_of_le_left (abs_nonneg _)) fun q hq => ?_) (max_le ?_ ?_)
      · have hin : p.held symbol - workingOn .sell symbol w ≤ q ∧ q ≤ p.held symbol + workingOn .buy symbol w := by
          obtain ⟨hclo, hchi⟩ := held_projectPending_mem (p := p) (w := w) symbol
          obtain rfl | rfl | rfl | rfl := (mem_producible symbol q).1 hq <;> constructor <;> linarith
        exact abs_le_max_abs_abs (by linarith [hin.1]) (by linarith [hin.2])
      · exact abs_le_worst_of_mem ((mem_producible symbol _).2 (.inr (.inr (.inl rfl))))
      · exact abs_le_worst_of_mem ((mem_producible symbol _).2 (.inr (.inl rfl)))
    rw [hmax]
    obtain h | h := max_choice |p.held symbol - workingOn .sell symbol w + k| |p.held symbol + workingOn .buy symbol w + k|
    · exact ⟨_, hlo, h.symm⟩
    · exact ⟨_, hhi, h.symm⟩
  · rintro _ ⟨q, hq, rfl⟩
    obtain ⟨h1, h2⟩ := hbounds q hq
    exact abs_le_worst_interval h1 h2

/-- **The in-flight bound is exact**: what the ceilings measure an order by is the greatest magnitude it can leave, and what
they measure another symbol by the greatest that symbol can reach. -/
theorem bound_exact (p : Portfolio) (w : List Order) (o : Order) (symbol : String) :
    IsGreatest ((fun q => |q + signed o|) '' reachable p w o.symbol) (worstResultingQty o (booksOf p w)) ∧
      IsGreatest ((fun q => |q|) '' reachable p w symbol) (worstMagnitude symbol (booksOf p w)) := by
  refine ⟨worst_isGreatest (signed o) o.symbol, ?_⟩
  have h := worst_isGreatest (p := p) (w := w) 0 symbol
  simp only [add_zero] at h
  exact h

end InFlight
end Atp
