import Mathlib.Algebra.Order.Field.Basic
import AlgoTrading.Intervals
import AlgoTrading.RoundTrips
/-!
# Exposure — how much of the reported period the book held something

`_exposure_pct` of `analytics/performance.py`, over exact rationals.  The length that is swept is that of the trades; the
period it is divided by is the equity curve's, and nothing cuts the one to the other (`exposurePct_iff`).
-/
namespace Atp
namespace PerformanceAnalyzer

open Intervals

/-- The intervals of the closed trades. -/
def periods (trades : List TradeRecord) : List (ℤ × ℤ) := trades.filterMap fun t => t.exitTs.map fun x => (t.entryTs, x)

/-- Those with a length, in order. -/
def sortedPeriods (trades : List TradeRecord) : List (ℤ × ℤ) :=
  ((periods trades).filter fun i => i.1 < i.2).insertionSort fun i j => toLex i ≤ toLex j

/-- From the curve's first point to its last. -/
def span (equityCurve : List (ℤ × ℚ)) : ℤ :=
  match equityCurve.head?, equityCurve.getLast? with
  | some first, some last => last.1 - first.1
  | _, _ => 0

/-- **`_exposure_pct`.** -/
def exposurePct (trades : List TradeRecord) (equityCurve : List (ℤ × ℚ)) : ℚ :=
  if equityCurve.length < 2 ∨ trades = [] then 0
  else if span equityCurve ≤ 0 then 0
  else min ((sweep (sortedPeriods trades) : ℚ) / span equityCurve) 1

theorem mem_periods {trades : List TradeRecord} {i : ℤ × ℤ} :
    i ∈ periods trades ↔ ∃ t ∈ trades, t.entryTs = i.1 ∧ t.exitTs = some i.2 := by
  unfold periods
  rw [List.mem_filterMap]
  refine exists_congr fun t => and_congr_right fun _ => ?_
  rw [Option.map_eq_some_iff]
  constructor
  · rintro ⟨x, hx, rfl⟩
    exact ⟨rfl, hx⟩
  · rintro ⟨hentry, hexit⟩
    exact ⟨i.2, hexit, Prod.ext hentry rfl⟩

theorem sweep_sortedPeriods (trades : List TradeRecord) : sweep (sortedPeriods trades) = (cover (periods trades)).card := by
  have hperm := List.perm_insertionSort (fun i j : ℤ × ℤ => toLex i ≤ toLex j) ((periods trades).filter fun i => i.1 < i.2)
  have hlen : ∀ i ∈ sortedPeriods trades, i.1 < i.2 := by
    intro i hi
    have := List.mem_filter.1 (hperm.mem_iff.1 hi)
    simpa using this.2
  have hsorted : (sortedPeriods trades).Pairwise fun i j => i.1 ≤ j.1 := by
    refine (List.pairwise_insertionSort (fun i j : ℤ × ℤ => toLex i ≤ toLex j) _).imp ?_
    intro i j hij
    rcases Prod.Lex.toLex_le_toLex.1 hij with h | h
    · exact h.le
    · exact h.1.le
  rw [sweep_eq hsorted fun i hi => (hlen i hi).le]
  congr 2
  refine cover_congr fun i hi => ?_
  refine hperm.mem_iff.trans ?_
  simp [List.mem_filter, hi]

/-- What the docstring promises: the part of the window the trades' intervals cover. -/
def exposure (trades : List TradeRecord) (first last : ℤ) : ℚ :=
  ((cover (periods trades) ∩ ticks first last).card : ℚ) / (last - first : ℤ)

section
variable {trades : List TradeRecord} {equityCurve : List (ℤ × ℚ)} {first last : ℤ × ℚ}

theorem mem_cover_periods {k : ℤ} :
    k ∈ cover (periods trades) ↔ ∃ t ∈ trades, ∃ x, t.exitTs = some x ∧ t.entryTs ≤ k ∧ k < x := by
  rw [mem_cover]
  constructor
  · rintro ⟨i, hi, hk⟩
    obtain ⟨t, ht, hentry, hexit⟩ := mem_periods.1 hi
    exact ⟨t, ht, i.2, hexit, hentry ▸ hk⟩
  · rintro ⟨t, ht, x, hx, hk⟩
    exact ⟨(t.entryTs, x), mem_periods.2 ⟨t, ht, rfl, hx⟩, hk⟩

theorem cover_periods_subset {a b : ℤ} : cover (periods trades) ⊆ ticks a b ↔
    ∀ t ∈ trades, ∀ x, t.exitTs = some x → t.entryTs < x → a ≤ t.entryTs ∧ x ≤ b := by
  constructor
  · intro h t ht x hx hlt
    have hstart := mem_ticks.1 (h (mem_cover_periods.2 ⟨t, ht, x, hx, le_rfl, hlt⟩))
    have hend := mem_ticks.1 (h (mem_cover_periods.2 ⟨t, ht, x, hx, by omega, Int.sub_one_lt_of_le le_rfl⟩))
    omega
  · intro h k hk
    obtain ⟨t, ht, x, hx, hle, hlt⟩ := mem_cover_periods.1 hk
    have := h t ht x hx (by omega)
    rw [mem_ticks]
    omega

/-- The ratio that is reported, whichever branch reports it. -/
theorem exposurePct_eq (hfirst : equityCurve.head? = some first) (hlast : equityCurve.getLast? = some last)
    (hspan : first.1 < last.1) :
    exposurePct trades equityCurve =
      (min (cover (periods trades)).card (ticks first.1 last.1).card : ℕ) / (last.1 - first.1 : ℤ) := by
  have hcurve : span equityCurve = last.1 - first.1 := by
    unfold span
    rw [hfirst, hlast]
  have hlength : ¬equityCurve.length < 2 := by
    intro hshort
    match equityCurve, hfirst, hlast, hshort with
    | [p], hfirst, hlast, _ =>
      cases hfirst
      cases hlast
      exact lt_irrefl _ hspan
  have hpos : (0 : ℚ) < (last.1 - first.1 : ℤ) := by exact_mod_cast sub_pos.2 hspan
  have hcard : ((ticks first.1 last.1).card : ℚ) = (last.1 - first.1 : ℤ) := by
    exact_mod_cast card_ticks hspan.le
  unfold exposurePct
  by_cases hnone : trades = []
  · rw [if_pos (.inr hnone), hnone]
    simp [periods, cover]
  · rw [if_neg (not_or.2 ⟨hlength, hnone⟩), hcurve, if_neg (by omega), sweep_sortedPeriods, Nat.cast_min, hcard,
      ← min_div_div_right hpos.le, div_self hpos.ne', Int.cast_natCast]

/-- **Exposure is the time held inside the report** exactly when no trade reaches outside it, or the trades fill it. -/
theorem exposurePct_iff (trades : List TradeRecord) (equityCurve : List (ℤ × ℚ)) (first last : ℤ × ℚ)
    (hfirst : equityCurve.head? = some first) (hlast : equityCurve.getLast? = some last) (hspan : first.1 < last.1) :
    exposurePct trades equityCurve = exposure trades first.1 last.1 ↔
      (∀ t ∈ trades, ∀ x, t.exitTs = some x → t.entryTs < x → first.1 ≤ t.entryTs ∧ x ≤ last.1) ∨
      (∀ k, first.1 ≤ k → k < last.1 → ∃ t ∈ trades, ∃ x, t.exitTs = some x ∧ t.entryTs ≤ k ∧ k < x) := by
  have hne : ((last.1 - first.1 : ℤ) : ℚ) ≠ 0 := by exact_mod_cast (sub_pos.2 hspan).ne'
  have hfill : ticks first.1 last.1 ⊆ cover (periods trades) ↔
      ∀ k, first.1 ≤ k → k < last.1 → ∃ t ∈ trades, ∃ x, t.exitTs = some x ∧ t.entryTs ≤ k ∧ k < x := by
    constructor
    · exact fun h k h1 h2 => mem_cover_periods.1 (h (mem_ticks.2 ⟨h1, h2⟩))
    · exact fun h k hk => mem_cover_periods.2 (h k (mem_ticks.1 hk).1 (mem_ticks.1 hk).2)
  rw [exposurePct_eq hfirst hlast hspan, exposure, div_left_inj' hne, Nat.cast_inj, capped_card_iff, cover_periods_subset,
    hfill]

end

/-- A trade of one share held over an interval. -/
def heldOver (entry exit : ℤ) : TradeRecord where
  tradeId := []
  strategyId := "s"
  symbol := "AAPL"
  side := "long"
  entryTs := entry
  exitTs := some exit
  entryPrice := 100
  exitPrice := some 100
  qty := 1
  grossPnl := 0
  fees := 0
  netPnl := 0
  returnPct := 0
  holdingPeriodHours := 0
  exitReason := "signal"

/-- Two overlapping trades inside the report: held for half of it. -/
theorem exposurePct_iff_inside :
    exposurePct [heldOver 0 30, heldOver 20 50] [(0, 1), (100, 1)] = exposure [heldOver 0 30, heldOver 20 50] 0 100 := by
  refine (exposurePct_iff _ _ (0, 1) (100, 1) rfl rfl (by decide)).2 (.inl ?_)
  intro t ht x hx _
  simp only [List.mem_cons, List.not_mem_nil, or_false] at ht
  rcases ht with rfl | rfl
  · cases hx
    decide
  · cases hx
    decide

/-- **A trade opened before the report counts from its opening**: held for half of it, and reported for all of it. -/
theorem exposure_before_report : exposurePct [heldOver (-50) 50] [(0, 1), (100, 1)] = 1 ∧ exposure [heldOver (-50) 50] 0 100 = 1 / 2 := by
  decide +kernel

end PerformanceAnalyzer
end Atp
