import Mathlib.Algebra.Order.Field.Rat
import Mathlib.Tactic.Linarith
import Mathlib.Tactic.FieldSimp
import AlgoTrading.Extremes
/-!
# Drawdowns — the worst fall of an equity curve

`max_drawdown` of `backtest/metrics.py`, over exact rationals.  A fall is measured from the running peak.
-/
namespace Atp
namespace Metrics

open Extremes

/-- `np.maximum.accumulate`. -/
def accumulateMax : List ℚ → List ℚ
  | [] => []
  | x :: xs => xs.scanl (best true) x

/-- The fall from a peak as a fraction of it, and none from a peak that is not positive. -/
def fall (e peak : ℚ) : ℚ := if 0 < peak then (e - peak) / peak else 0

def drawdowns (equity : List ℚ) : List ℚ := List.zipWith fall equity (accumulateMax equity)

/-- **`max_drawdown`**: the worst fall, its peak and its trough. -/
def maxDrawdown (equity : List ℚ) : ℚ × ℕ × ℕ :=
  if equity = [] then (0, 0, 0)
  else
    let trough := argBest false (drawdowns equity)
    let worst := (drawdowns equity).getD trough 0
    if worst = 0 then (0, 0, 0) else (worst, argBest true (equity.take (trough + 1)), trough)

variable {equity : List ℚ} {i j : ℕ} {x y peak : ℚ}

/-- The peak a series has reached at a place. -/
def IsPeak (equity : List ℚ) (i : ℕ) (peak : ℚ) : Prop := IsGreatest {x | x ∈ equity.take (i + 1)} peak

/-- **What stands at a place of the drawdowns**: the fall from the peak reached there. -/
theorem getElem?_drawdowns (h : equity[i]? = some x) :
    ∃ peak, IsPeak equity i peak ∧ (drawdowns equity)[i]? = some (fall x peak) := by
  cases equity with
  | nil => cases h
  | cons e es =>
    have hle : i ≤ es.length := by
      have hlt := (List.getElem?_eq_some_iff.1 h).1
      rw [List.length_cons] at hlt
      omega
    refine ⟨(es.take i).foldl (best true) e, ?_, ?_⟩
    · have hbest := isBest_foldl true e (es.take i)
      have hset : {x | x ∈ (e :: es).take (i + 1)} = {x | x = e ∨ x ∈ es.take i} := by
        ext x
        exact List.mem_cons
      unfold IsPeak
      rw [hset]
      exact hbest
    · unfold drawdowns accumulateMax
      rw [List.getElem?_zipWith, h, List.getElem?_scanl, if_pos hle]

theorem length_drawdowns : (drawdowns equity).length = equity.length := by
  unfold drawdowns accumulateMax
  cases equity with
  | nil => rfl
  | cons e es => rw [List.length_zipWith, List.length_scanl, List.length_cons, Nat.min_self]

theorem mem_take_succ (h : equity[i]? = some x) (hij : i ≤ j) : x ∈ equity.take (j + 1) := by
  refine List.mem_iff_getElem?.2 ⟨i, ?_⟩
  rw [List.getElem?_take_of_lt (by omega)]
  exact h

theorem IsPeak.bound (h : IsPeak equity j peak) (hx : equity[i]? = some x) (hij : i ≤ j) : x ≤ peak := h.2 (mem_take_succ hx hij)

/-- A series that begins above zero has a peak above zero throughout. -/
theorem IsPeak.pos {e : ℚ} {es : List ℚ} (h : IsPeak (e :: es) i peak) (he : 0 < e) : 0 < peak :=
  lt_of_lt_of_le he (h.bound (i := 0) rfl (Nat.zero_le _))

theorem isPeak_zero (e : ℚ) (es : List ℚ) : IsPeak (e :: es) 0 e := by
  have hset : {x | x ∈ (e :: es).take 1} = {e} := by
    ext x
    simp
  unfold IsPeak
  rw [hset]
  exact isGreatest_singleton

theorem IsPeak.fall_nonpos (h : IsPeak equity i peak) (hx : equity[i]? = some x) : fall x peak ≤ 0 := by
  unfold fall
  split
  · rename_i hpos
    exact div_nonpos_of_nonpos_of_nonneg (sub_nonpos.2 (h.bound hx le_rfl)) hpos.le
  · exact le_rfl

/-- A fall from the peak is no shallower than one from a lower start, unless it ends below zero. -/
theorem fall_le (hpeak : 0 < peak) (hx : 0 < x) (hle : x ≤ peak) (hy : 0 ≤ y ∨ x = peak) : fall y peak ≤ (y - x) / x := by
  unfold fall
  rw [if_pos hpeak]
  rcases hy with hy | rfl
  · rw [div_le_div_iff₀ hpeak hx]
    nlinarith [mul_le_mul_of_nonneg_left hle hy]
  · exact le_rfl

theorem IsPeak.fall_zero (h : IsPeak equity i peak) (hpos : 0 < peak) (hx : equity[i]? = some x) :
    fall x peak = 0 ↔ ∀ y ∈ equity.take (i + 1), y ≤ x := by
  unfold fall
  rw [if_pos hpos, div_eq_zero_iff, or_iff_left hpos.ne', sub_eq_zero]
  constructor
  · rintro rfl y hy
    exact h.2 hy
  · exact fun hle => le_antisymm (h.bound hx le_rfl) (hle peak h.1)

/-- **What `max_drawdown` found**: the least of the drawdowns, at its trough. -/
theorem worst_drawdown (hne : equity ≠ []) : ∃ x peak,
    equity[argBest false (drawdowns equity)]? = some x ∧ IsPeak equity (argBest false (drawdowns equity)) peak ∧
      (drawdowns equity).getD (argBest false (drawdowns equity)) 0 = fall x peak ∧
      ∀ j y peak', equity[j]? = some y → IsPeak equity j peak' → fall x peak ≤ fall y peak' := by
  have hdne : drawdowns equity ≠ [] := by
    rw [← List.length_pos_iff, length_drawdowns]
    exact List.length_pos_iff.2 hne
  obtain ⟨worst, hat, hleast⟩ := argBest_isBest false hdne
  have hlt : argBest false (drawdowns equity) < equity.length := by
    rw [← length_drawdowns]
    exact argBest_lt false hdne
  obtain ⟨peak, hpeak, hfall⟩ := getElem?_drawdowns (List.getElem?_eq_getElem hlt)
  have hworst : worst = fall _ peak := Option.some.inj (hat.symm.trans hfall)
  refine ⟨_, peak, List.getElem?_eq_getElem hlt, hpeak, ?_, fun j y peak' hy hpeak' => ?_⟩
  · rw [List.getD_eq_getElem?_getD, hfall, Option.getD_some]
  · obtain ⟨peak'', hpeak'', hj⟩ := getElem?_drawdowns hy
    rw [hpeak'.unique hpeak'', ← hworst]
    exact hleast.2 (List.mem_of_getElem? hj)

theorem argBest_peak (hne : equity ≠ []) : ∃ peak, equity[argBest true (equity.take (i + 1))]? = some peak ∧
    IsPeak equity i peak ∧ argBest true (equity.take (i + 1)) ≤ i := by
  have htake : equity.take (i + 1) ≠ [] := by
    obtain ⟨e, es, rfl⟩ := List.exists_cons_of_ne_nil hne
    exact List.cons_ne_nil _ _
  obtain ⟨peak, hat, hpeak⟩ := argBest_isBest true htake
  have hlt : argBest true (equity.take (i + 1)) < i + 1 := by
    have h := argBest_lt true htake
    rw [List.length_take] at h
    omega
  refine ⟨peak, ?_, hpeak, by omega⟩
  rwa [List.getElem?_take_of_lt hlt] at hat

/-- A series that never falls below an earlier value. -/
def NeverFalls (equity : List ℚ) : Prop :=
  ∀ (i j : ℕ) (x y : ℚ), i ≤ j → equity[i]? = some x → equity[j]? = some y → x ≤ y

theorem neverFalls_iff : NeverFalls equity ↔ ∀ j y, equity[j]? = some y → ∀ x ∈ equity.take (j + 1), x ≤ y := by
  constructor
  · intro h j y hy x hx
    obtain ⟨i, hi⟩ := List.mem_iff_getElem?.1 hx
    have hlt : i < j + 1 := by
      by_contra hge
      rw [List.getElem?_take, if_neg hge] at hi
      cases hi
    rw [List.getElem?_take_of_lt hlt] at hi
    exact h i j x y (by omega) hi hy
  · exact fun h i j x y hij hx hy => h j y hy x (mem_take_succ hx hij)

/-- **Drawdown is the worst fall from the running peak.** -/
theorem maxDrawdown_worst (e : ℚ) (es : List ℚ) (he : 0 < e) :
    let equity := e :: es
    let d := (maxDrawdown equity).1
    let p := (maxDrawdown equity).2.1
    let t := (maxDrawdown equity).2.2
    p ≤ t ∧
    (∃ x peak, equity[t]? = some x ∧ equity[p]? = some peak ∧ IsPeak equity t peak ∧ d = (x - peak) / peak) ∧
    (∀ i j x y, i ≤ j → equity[i]? = some x → equity[j]? = some y → 0 < x → 0 ≤ y ∨ IsPeak equity j x → d ≤ (y - x) / x) ∧
    (d = 0 ↔ NeverFalls equity) ∧ (d = 0 → p = 0 ∧ t = 0) := by
  intro equity d p t
  have hne : equity ≠ [] := List.cons_ne_nil _ _
  obtain ⟨x, peak, hx, hpeak, hworst, hleast⟩ := worst_drawdown hne
  have hrun : maxDrawdown equity = if fall x peak = 0 then (0, 0, 0) else
      (fall x peak, argBest true (equity.take (argBest false (drawdowns equity) + 1)), argBest false (drawdowns equity)) := by
    unfold maxDrawdown
    dsimp only
    rw [if_neg hne, hworst]
  have hpos : 0 < peak := hpeak.pos he
  have hd : d = fall x peak := by
    show (maxDrawdown equity).1 = _
    rw [hrun]
    split
    · rename_i h0
      exact h0.symm
    · rfl
  have hbound : ∀ i j x' y, i ≤ j → equity[i]? = some x' → equity[j]? = some y → 0 < x' → 0 ≤ y ∨ IsPeak equity j x' →
      d ≤ (y - x') / x' := by
    intro i j x' y hij hx' hy hx'pos hcase
    obtain ⟨peak', hpeak', -⟩ := getElem?_drawdowns hy
    rw [hd]
    refine (hleast j y peak' hy hpeak').trans (fall_le (hpeak'.pos he) hx'pos (hpeak'.bound hx' hij) ?_)
    exact hcase.imp_right fun h => h.unique hpeak'
  have hzero : d = 0 ↔ NeverFalls equity := by
    rw [neverFalls_iff, hd]
    constructor
    · intro h0 j y hy
      obtain ⟨peak', hpeak', -⟩ := getElem?_drawdowns hy
      have hle := hleast j y peak' hy hpeak'
      rw [h0] at hle
      exact (hpeak'.fall_zero (hpeak'.pos he) hy).1 (le_antisymm (hpeak'.fall_nonpos hy) hle)
    · exact fun h => (hpeak.fall_zero hpos hx).2 (h _ x hx)
  have hstart : d = 0 → p = 0 ∧ t = 0 := by
    intro h0
    have hall : maxDrawdown equity = (0, 0, 0) := by rw [hrun, if_pos (hd.symm.trans h0)]
    constructor
    · show (maxDrawdown equity).2.1 = 0
      rw [hall]
    · show (maxDrawdown equity).2.2 = 0
      rw [hall]
  by_cases h0 : d = 0
  · obtain ⟨hp, ht⟩ := hstart h0
    refine ⟨by omega, ⟨e, e, ?_, ?_, ?_, ?_⟩, hbound, hzero, hstart⟩
    · rw [ht]
      rfl
    · rw [hp]
      rfl
    · rw [ht]
      exact isPeak_zero e es
    · rw [h0, sub_self, zero_div]
  · have hall : maxDrawdown equity = _ := hrun.trans (if_neg fun h => h0 (hd.trans h))
    obtain ⟨peak', hat, hpeak', hle⟩ := argBest_peak (i := argBest false (drawdowns equity)) hne
    have hp : p = argBest true (equity.take (argBest false (drawdowns equity) + 1)) := congrArg (fun r => r.2.1) hall
    have ht : t = argBest false (drawdowns equity) := congrArg (fun r => r.2.2) hall
    refine ⟨by rw [hp, ht]; exact hle, ⟨x, peak, by rw [ht]; exact hx, ?_, by rw [ht]; exact hpeak, ?_⟩, hbound, hzero, hstart⟩
    · rw [hp, hat, hpeak'.unique hpeak]
    · rw [hd, fall, if_pos hpos]

/-- A rise to 120, a fall to 80 and a rise again. -/
theorem maxDrawdown_worst_third : maxDrawdown [100, 120, 80, 110] = (-1 / 3, 1, 2) ∧ (-1 / 3 : ℚ) ≤ (110 - 120) / 120 := by
  have hrun : maxDrawdown [100, 120, 80, 110] = (-1 / 3, 1, 2) := by decide +kernel
  have h := (maxDrawdown_worst 100 [120, 80, 110] (by norm_num)).2.2.1 1 3 120 110 (by omega) rfl rfl (by norm_num)
    (.inl (by norm_num))
  rw [hrun] at h
  exact ⟨hrun, h⟩

/-- **An account below zero has fallen further from a low than from its peak**: what is reported is the fall from the peak. -/
theorem fall_below_zero_from_low : maxDrawdown [100, 1, -50] = (-3 / 2, 0, 2) ∧ ((-50 - 1) / 1 : ℚ) < -3 / 2 := by
  decide +kernel

end Metrics
end Atp
