import Mathlib.Tactic.FieldSimp
import Mathlib.Tactic.Ring
import AlgoTrading.Indicators
/-!
# IndicatorTails — which indicators read only the last bars of a series

A simple average and a deviation read the last `period` values (`compute_of_slice`), and so does any indicator of
period one (`compute_of_one`).  The other recurrences remember their seed: a first bar that stands out is in the EMA,
the RSI and the ATR at any later bar (`compute_spike`, `compute_flat`).
-/
namespace Atp
namespace Ta

/-! ## Suffixes -/

theorem getLast?_drop {α : Type} {l : List α} {d : ℕ} (h : d < l.length) : (l.drop d).getLast? = l.getLast? := by
  rw [List.getLast?_drop, if_neg (by omega)]

theorem lastSlice_drop {α : Type} {l : List α} {d n : ℕ} (hn : n ≠ 0) (h : n ≤ (l.drop d).length) :
    lastSlice n (l.drop d) = lastSlice n l := by
  rw [List.length_drop] at h
  rw [lastSlice, lastSlice, if_neg hn, if_neg hn, List.length_drop, List.drop_drop]
  congr 1
  omega

theorem diff_drop : ∀ (l : List ℚ) (d : ℕ), diff (l.drop d) = (diff l).drop d
  | _, 0 => rfl
  | [], d + 1 => by simp [diff]
  | [a], d + 1 => by simp [diff]
  | a :: b :: l, d + 1 => by rw [List.drop_succ_cons, diff_drop (b :: l) d, diff, List.drop_succ_cons]

theorem trueRanges_drop : ∀ (l : List Bar) (d : ℕ), trueRanges (l.drop d) = (trueRanges l).drop d
  | _, 0 => rfl
  | [], d + 1 => by simp [trueRanges]
  | [a], d + 1 => by simp [trueRanges]
  | a :: b :: l, d + 1 => by rw [List.drop_succ_cons, trueRanges_drop (b :: l) d, trueRanges, List.drop_succ_cons]

theorem length_diff : ∀ l : List ℚ, (diff l).length = l.length - 1
  | [] => rfl
  | [_] => rfl
  | a :: b :: l => by
    rw [diff, List.length_cons, length_diff (b :: l)]
    simp

theorem length_trueRanges : ∀ l : List Bar, (trueRanges l).length = l.length - 1
  | [] => rfl
  | [_] => rfl
  | a :: b :: l => by
    rw [trueRanges, List.length_cons, length_trueRanges (b :: l)]
    simp

theorem gains_drop (l : List ℚ) (d : ℕ) : gains (l.drop d) = (gains l).drop d := by
  rw [gains, diff_drop, List.map_drop, gains]

theorem losses_drop (l : List ℚ) (d : ℕ) : losses (l.drop d) = (losses l).drop d := by
  rw [losses, diff_drop, List.map_drop, losses]

theorem length_gains (l : List ℚ) : (gains l).length = l.length - 1 := by
  rw [gains, List.length_map, length_diff]

theorem length_losses (l : List ℚ) : (losses l).length = l.length - 1 := by
  rw [losses, List.length_map, length_diff]

/-! ## Recurrences -/

theorem length_recurrence (step : ℚ → ℚ → ℚ) : ∀ (l : List ℚ) (seed : ℚ), (recurrence step seed l).length = l.length + 1
  | [], _ => rfl
  | x :: l, seed => by rw [recurrence, List.length_cons, length_recurrence step l, List.length_cons]

theorem getLast?_recurrence (step : ℚ → ℚ → ℚ) : ∀ (l : List ℚ) (seed : ℚ),
    (recurrence step seed l).getLast? = some (l.foldl step seed)
  | [], _ => rfl
  | x :: l, seed => by
    rw [recurrence, List.getLast?_cons, getLast?_recurrence step l, List.foldl_cons]
    rfl

/-- The last value a series seeded with the average of its first `period` values takes. -/
def settled (step : ℚ → ℚ → ℚ) (period : ℕ) (l : List ℚ) : ℚ := (l.drop period).foldl step (mean (l.take period))

theorem lastValue_some (n : ℕ) {l : List ℚ} {x : ℚ} (h : l.getLast? = some x) :
    lastValue (List.replicate n none ++ l.map some) = x := by
  rw [lastValue, List.getLast?_append, List.getLast?_map, h]
  rfl

/-- Two recurrences of one length, read together, end in their last values. -/
theorem getLast?_zipWith (f : ℚ → ℚ → ℚ) : ∀ (xs ys : List ℚ) {x y : ℚ}, xs.length = ys.length → xs.getLast? = some x →
    ys.getLast? = some y → (List.zipWith f xs ys).getLast? = some (f x y)
  | [], _, _, _, _, hx, _ => by cases hx
  | _ :: _, [], _, _, _, _, hy => by cases hy
  | [a], [b], _, _, _, hx, hy => by cases hx; cases hy; rfl
  | [_], _ :: _ :: _, _, _, h, _, _ => by simp at h
  | _ :: _ :: _, [_], _, _, h, _, _ => by simp at h
  | a :: a' :: xs, b :: b' :: ys, x, y, h, hx, hy => by
    have h' : (a' :: xs).length = (b' :: ys).length := by simpa using h
    have := getLast?_zipWith f (a' :: xs) (b' :: ys) h' (by simpa [List.getLast?_cons_cons] using hx)
      (by simpa [List.getLast?_cons_cons] using hy)
    simpa [List.getLast?_cons_cons] using this

theorem ema_eq {values : List ℚ} {period : ℕ} (hp : 1 ≤ period) (h : period ≤ values.length) :
    ema values period = .ok (settled (emaStep period) period values) := by
  have hp' : ¬period < 1 := by omega
  have h' : ¬values.length < period := by omega
  rw [ema, requirePeriod, if_neg hp', requireLength, if_neg h', emaSeries, if_neg h']
  exact congrArg Except.ok (lastValue_some _ (getLast?_recurrence _ _ _))

theorem rsi_eq {values : List ℚ} {period : ℕ} (hp : 1 ≤ period) (h : period + 1 ≤ values.length) :
    rsi values period = .ok (rsiOf (settled (wilderStep period) period (gains values))
      (settled (wilderStep period) period (losses values))) := by
  have hp' : ¬period < 1 := by omega
  have h' : ¬values.length < period + 1 := by omega
  rw [rsi, requirePeriod, if_neg hp', requireLength, if_neg h', rsiSeries, if_neg h']
  apply congrArg Except.ok
  apply lastValue_some
  apply getLast?_zipWith
  · simp only [wilderSmooth, length_recurrence, List.length_drop, gains, losses, List.length_map]
  · exact getLast?_recurrence _ _ _
  · exact getLast?_recurrence _ _ _

theorem atr_eq {bars : List Bar} {period : ℕ} (hp : 1 ≤ period) (h : period + 1 ≤ bars.length) :
    atr bars period = .ok (settled (wilderStep period) period (trueRanges bars)) := by
  have hp' : ¬period < 1 := by omega
  have h' : ¬bars.length < period + 1 := by omega
  rw [atr, requirePeriod, if_neg hp', requireLength, if_neg h', atrSeries, if_neg h']
  exact congrArg Except.ok (lastValue_some _ (getLast?_recurrence _ _ _))

/-! ## Period one: the recurrence forgets all but its last value -/

theorem foldl_forgets {step : ℚ → ℚ → ℚ} (hs : ∀ p x, step p x = x) : ∀ (l : List ℚ) (seed : ℚ),
    l.foldl step seed = l.getLast?.getD seed
  | [], _ => rfl
  | x :: l, seed => by rw [List.foldl_cons, foldl_forgets hs l, hs, List.getLast?_cons, Option.getD_some]

theorem settled_one {step : ℚ → ℚ → ℚ} (hs : ∀ p x, step p x = x) (l : List ℚ) : settled step 1 l = l.getLast?.getD 0 := by
  rw [settled, foldl_forgets hs]
  cases l with
  | nil => simp [mean]
  | cons x l => cases l <;> simp [mean, List.getLast?_cons]

theorem settled_one_drop {step : ℚ → ℚ → ℚ} (hs : ∀ p x, step p x = x) {l : List ℚ} {d : ℕ} (h : d < l.length) :
    settled step 1 (l.drop d) = settled step 1 l := by
  rw [settled_one hs, settled_one hs, getLast?_drop h]

theorem emaStep_one (p x : ℚ) : emaStep 1 p x = x := by
  rw [emaStep]
  norm_num

theorem wilderStep_one (p x : ℚ) : wilderStep 1 p x = x := by
  rw [wilderStep]
  norm_num

/-! ## A spike at the seed -/

/-- A step that goes a fixed part of the way to its input. -/
def Damps (step : ℚ → ℚ → ℚ) (r : ℚ) : Prop := ∀ p x, step p x = x + r * (p - x)

theorem emaStep_damps (period : ℕ) : Damps (emaStep period) (1 - 2 / (period + 1)) := by
  intro p x
  rw [emaStep]
  ring

theorem wilderStep_damps {period : ℕ} (hp : 1 ≤ period) : Damps (wilderStep period) ((period - 1) / period) := by
  intro p x
  have : (period : ℚ) ≠ 0 := by positivity
  rw [wilderStep]
  field_simp
  ring

theorem foldl_damped {step : ℚ → ℚ → ℚ} {r : ℚ} (h : Damps step r) (c : ℚ) : ∀ (n : ℕ) (seed : ℚ),
    (List.replicate n c).foldl step seed = c + r ^ n * (seed - c)
  | 0, seed => by simp
  | n + 1, seed => by
    rw [List.replicate_succ, List.foldl_cons, foldl_damped h c n, h]
    ring

theorem mean_replicate {n : ℕ} (hn : n ≠ 0) (c : ℚ) : mean (List.replicate n c) = c := by
  have : (n : ℚ) ≠ 0 := by exact_mod_cast hn
  rw [mean, List.sum_replicate, List.length_replicate, nsmul_eq_mul]
  field_simp

/-- A flat series settles where it is. -/
theorem settled_flat {step : ℚ → ℚ → ℚ} {r : ℚ} (h : Damps step r) {period n : ℕ} (hp : 1 ≤ period) (hn : period ≤ n) (c : ℚ) :
    settled step period (List.replicate n c) = c := by
  rw [settled, List.take_replicate, List.drop_replicate, Nat.min_eq_left hn, mean_replicate (by omega), foldl_damped h]
  ring

/-- A spike of one at the seed is still there at the end, damped. -/
theorem settled_spike {step : ℚ → ℚ → ℚ} {r : ℚ} (h : Damps step r) {period n : ℕ} (hp : 1 ≤ period) (hn : period ≤ n + 1)
    (c : ℚ) : settled step period ((c + 1) :: List.replicate n c) = c + r ^ (n + 1 - period) / period := by
  obtain ⟨k, rfl⟩ := Nat.exists_eq_add_of_le' hp
  have hk : ((k : ℚ) + 1) ≠ 0 := by positivity
  have hseed : mean (((c + 1) :: List.replicate n c).take (k + 1)) = c + 1 / (k + 1) := by
    rw [List.take_succ_cons, List.take_replicate, Nat.min_eq_left (by omega), mean, List.sum_cons, List.sum_replicate,
      List.length_cons, List.length_replicate, nsmul_eq_mul]
    push_cast
    field_simp
    ring
  rw [settled, hseed, List.drop_succ_cons, List.drop_replicate, foldl_damped h, Nat.add_sub_add_right]
  push_cast
  ring

/-! ## Flat bars -/

/-- A bar whose prices are all one. -/
def FlatAt (c : ℚ) (bar : Bar) : Prop := bar.high = c ∧ bar.low = c ∧ bar.close = c

theorem closes_flat {c : ℚ} : ∀ {bars : List Bar}, (∀ b ∈ bars, FlatAt c b) →
    bars.map Bar.close = List.replicate bars.length c
  | [], _ => rfl
  | b :: bars, h => by
    rw [List.map_cons, closes_flat fun b hb => h b (List.mem_cons_of_mem _ hb), (h b (by simp)).2.2]
    rfl

theorem rangeAfter_flat {c d : ℚ} {a b : Bar} (ha : FlatAt d a) (hb : FlatAt c b) : rangeAfter a b = |c - d| := by
  rw [rangeAfter, hb.1, hb.2.1, ha.2.2, max_self, sub_self]
  exact max_eq_right (abs_nonneg _)

theorem trueRanges_flat {c : ℚ} : ∀ {bars : List Bar}, (∀ b ∈ bars, FlatAt c b) →
    trueRanges bars = List.replicate (bars.length - 1) 0
  | [], _ => rfl
  | [_], _ => rfl
  | a :: b :: bars, h => by
    rw [trueRanges, trueRanges_flat fun b hb => h b (List.mem_cons_of_mem _ hb), rangeAfter_flat (h a (by simp)) (h b (by simp)),
      sub_self, abs_zero]
    rfl

theorem trueRanges_spike {c : ℚ} {a b : Bar} {bars : List Bar} (ha : FlatAt (c + 1) a) (h : ∀ x ∈ b :: bars, FlatAt c x) :
    trueRanges (a :: b :: bars) = (0 + 1) :: List.replicate bars.length 0 := by
  rw [trueRanges, trueRanges_flat h, rangeAfter_flat ha (h b (by simp))]
  simp

theorem diff_replicate (c : ℚ) : ∀ n, diff (List.replicate n c) = List.replicate (n - 1) 0
  | 0 => rfl
  | 1 => rfl
  | n + 2 => by
    rw [List.replicate_succ, List.replicate_succ, diff, ← List.replicate_succ, diff_replicate c (n + 1), sub_self]
    rfl

theorem gains_flat (c : ℚ) (n : ℕ) : gains (List.replicate n c) = List.replicate (n - 1) 0 := by
  simp [gains, diff_replicate]

theorem losses_flat (c : ℚ) (n : ℕ) : losses (List.replicate n c) = List.replicate (n - 1) 0 := by
  simp [losses, diff_replicate]

theorem diff_spike (c : ℚ) (n : ℕ) : diff ((c + 1) :: List.replicate (n + 1) c) = -1 :: List.replicate n 0 := by
  rw [List.replicate_succ, diff, ← List.replicate_succ, diff_replicate, Nat.add_sub_cancel]
  congr 1
  ring

theorem gains_spike (c : ℚ) (n : ℕ) : gains ((c + 1) :: List.replicate (n + 1) c) = List.replicate (n + 1) 0 := by
  rw [gains, diff_spike]
  simp [List.replicate_succ]

theorem losses_spike (c : ℚ) (n : ℕ) : losses ((c + 1) :: List.replicate (n + 1) c) = (0 + 1) :: List.replicate n 0 := by
  rw [losses, diff_spike]
  simp

end Ta

namespace Dispatch

open Ta

/-- **An indicator that reads only the last bars.** -/
def ReadsTail (name : String) (period : ℕ) : Prop := name = "sma" ∨ name = "stddev" ∨ period = 1

theorem minBars_cases {name : String} {period n : ℕ} (h : minBars name period = .ok n) :
    (name = "sma" ∨ name = "ema" ∨ name = "stddev") ∧ n = period ∨ (name = "rsi" ∨ name = "atr") ∧ n = period + 1 := by
  unfold minBars at h
  split at h
  · cases h
  · rename_i hname
    have hname : name ∈ knownIndicators := not_not.1 hname
    simp only [knownIndicators, List.mem_cons, List.not_mem_nil, or_false] at hname
    obtain rfl | rfl | rfl | rfl | rfl := hname <;> cases h <;> simp [needsAPriorBar]

section
variable {sqrt : ℚ → ℚ} {bars : List Bar} {period d : ℕ}

theorem compute_ema (hp : 1 ≤ period) (h : period ≤ bars.length) :
    compute sqrt "ema" bars period = .ok (some (settled (emaStep period) period (bars.map Bar.close))) := by
  have h' : period ≤ (bars.map Bar.close).length := by simpa using h
  simp only [compute, String.reduceEq, if_false, if_true, ema_eq hp h', orNone]

theorem compute_rsi (hp : 1 ≤ period) (h : period + 1 ≤ bars.length) :
    compute sqrt "rsi" bars period = .ok (some (rsiOf (settled (wilderStep period) period (gains (bars.map Bar.close)))
      (settled (wilderStep period) period (losses (bars.map Bar.close))))) := by
  have h' : period + 1 ≤ (bars.map Bar.close).length := by simpa using h
  simp only [compute, String.reduceEq, if_false, if_true, rsi_eq hp h', orNone]

theorem compute_atr (hp : 1 ≤ period) (h : period + 1 ≤ bars.length) :
    compute sqrt "atr" bars period = .ok (some (settled (wilderStep period) period (trueRanges bars))) := by
  simp only [compute, String.reduceEq, if_false, if_true, atr_eq hp h, orNone]

/-- The averages of a slice. -/
theorem compute_of_slice {name : String} (hname : name = "sma" ∨ name = "stddev") (hp : 1 ≤ period)
    (h : period ≤ (bars.drop d).length) : compute sqrt name (bars.drop d) period = compute sqrt name bars period := by
  have hslice : lastSlice period ((bars.drop d).map Bar.close) = lastSlice period (bars.map Bar.close) := by
    rw [List.map_drop]
    exact lastSlice_drop (by omega) (by simpa using h)
  have hlen : period ≤ bars.length := h.trans (by simp)
  obtain rfl | rfl := hname
  · simp only [compute, if_true, sma, requireLength, List.length_map, not_lt.2 h, not_lt.2 hlen, hslice, if_false]
  · simp only [compute, String.reduceEq, if_true, stddev, requireLength, List.length_map, not_lt.2 h, not_lt.2 hlen, hslice,
      if_false]

/-- At period one the recurrences read a value, and the one before it. -/
theorem compute_of_one {name : String} {n : ℕ} (hmin : minBars name 1 = .ok n) (h : n ≤ (bars.drop d).length) :
    compute sqrt name (bars.drop d) 1 = compute sqrt name bars 1 := by
  have hlen : n ≤ bars.length := h.trans (by simp)
  have hd := h
  rw [List.length_drop] at hd
  obtain ⟨rfl | rfl | rfl, rfl⟩ | ⟨rfl | rfl, rfl⟩ := minBars_cases hmin
  · exact compute_of_slice (.inl rfl) le_rfl h
  · rw [compute_ema le_rfl h, compute_ema le_rfl hlen, List.map_drop]
    rw [settled_one_drop emaStep_one (by rw [List.length_map]; omega)]
  · exact compute_of_slice (.inr rfl) le_rfl h
  · rw [compute_rsi le_rfl h, compute_rsi le_rfl hlen, List.map_drop, gains_drop, losses_drop]
    rw [settled_one_drop wilderStep_one (by rw [length_gains, List.length_map]; omega),
      settled_one_drop wilderStep_one (by rw [length_losses, List.length_map]; omega)]
  · rw [compute_atr le_rfl h, compute_atr le_rfl hlen, trueRanges_drop]
    rw [settled_one_drop wilderStep_one (by rw [length_trueRanges]; omega)]

/-- **What reads only the last bars reads the same from a window as from the whole history.** -/
theorem compute_drop {name : String} {n : ℕ} (hmin : minBars name period = .ok n) (hp : 1 ≤ period)
    (htail : ReadsTail name period) (h : n ≤ (bars.drop d).length) :
    compute sqrt name (bars.drop d) period = compute sqrt name bars period := by
  have hn : period ≤ n := by
    obtain ⟨-, rfl⟩ | ⟨-, rfl⟩ := minBars_cases hmin <;> omega
  obtain rfl | rfl | rfl := htail
  · exact compute_of_slice (.inl rfl) hp (hn.trans h)
  · exact compute_of_slice (.inr rfl) hp (hn.trans h)
  · exact compute_of_one hmin h

end

/-! ## What the other indicators keep of a first bar -/

theorem emaDamp_pos {period : ℕ} (hp : 2 ≤ period) : (0 : ℚ) < 1 - 2 / (period + 1) := by
  have hp' : (2 : ℚ) ≤ period := by exact_mod_cast hp
  have hne : (period : ℚ) + 1 ≠ 0 := by positivity
  have : (1 : ℚ) - 2 / (period + 1) = (period - 1) / (period + 1) := by
    field_simp
    ring
  rw [this]
  exact div_pos (by linarith) (by linarith)

theorem wilderDamp_pos {period : ℕ} (hp : 2 ≤ period) : (0 : ℚ) < (period - 1) / period := by
  have hp' : (2 : ℚ) ≤ period := by exact_mod_cast hp
  exact div_pos (by linarith) (by linarith)

theorem remnant_pos {r : ℚ} (hr : 0 < r) (n : ℕ) {period : ℕ} (hp : 2 ≤ period) : 0 < r ^ n / period := by
  have hp' : (0 : ℚ) < period := by exact_mod_cast Nat.lt_of_lt_of_le two_pos hp
  exact div_pos (pow_pos hr n) hp'

section
variable {sqrt : ℚ → ℚ} {period : ℕ} {a : Bar} {l bars : List Bar} (ha : FlatAt (1 + 1) a) (hl : ∀ b ∈ l, FlatAt 1 b)
  (hbars : ∀ b ∈ bars, FlatAt 1 b)
include ha hl hbars

theorem compute_ema_spike (hp : 2 ≤ period) (hlen : period ≤ l.length) (h : period ≤ bars.length) :
    compute sqrt "ema" bars period ≠ compute sqrt "ema" (a :: l) period := by
  have hp1 : 1 ≤ period := by omega
  have hlen' : period ≤ (a :: l).length := by rw [List.length_cons]; omega
  rw [compute_ema hp1 h, closes_flat hbars, settled_flat (emaStep_damps _) hp1 h]
  rw [compute_ema hp1 hlen', List.map_cons, closes_flat hl, ha.2.2, settled_spike (emaStep_damps _) hp1 hlen']
  intro heq
  simp only [Except.ok.injEq, Option.some.injEq] at heq
  have := remnant_pos (emaDamp_pos hp) (l.length + 1 - period) hp
  linarith

theorem compute_rsi_spike (hp : 2 ≤ period) (hlen : period + 1 ≤ l.length) (h : period + 1 ≤ bars.length) :
    compute sqrt "rsi" bars period ≠ compute sqrt "rsi" (a :: l) period := by
  have hp1 : 1 ≤ period := by omega
  have hlen' : period + 1 ≤ (a :: l).length := by rw [List.length_cons]; omega
  obtain ⟨k, hk⟩ : ∃ k, l.length = k + 1 := Nat.exists_eq_add_of_le' (by omega)
  rw [compute_rsi hp1 h, closes_flat hbars, gains_flat, losses_flat, settled_flat (wilderStep_damps hp1) hp1 (by omega)]
  rw [compute_rsi hp1 hlen', List.map_cons, closes_flat hl, ha.2.2, hk, gains_spike, losses_spike,
    settled_flat (wilderStep_damps hp1) hp1 (by omega), settled_spike (wilderStep_damps hp1) hp1 (by omega), zero_add]
  have := (remnant_pos (wilderDamp_pos hp) (k + 1 - period) hp).ne'
  -- no loss is the top of the scale, and a loss without a gain the bottom
  simp [rsiOf, this]

theorem compute_atr_spike (hp : 2 ≤ period) (hlen : period + 1 ≤ l.length) (h : period + 1 ≤ bars.length) :
    compute sqrt "atr" bars period ≠ compute sqrt "atr" (a :: l) period := by
  have hp1 : 1 ≤ period := by omega
  have hlen' : period + 1 ≤ (a :: l).length := by rw [List.length_cons]; omega
  cases l with
  | nil => simp at hlen
  | cons b l =>
    have hlen : period ≤ l.length := by simpa using hlen
    rw [compute_atr hp1 h, trueRanges_flat hbars, settled_flat (wilderStep_damps hp1) hp1 (by omega)]
    rw [compute_atr hp1 hlen', trueRanges_spike ha hl, settled_spike (wilderStep_damps hp1) hp1 (by omega), zero_add]
    intro heq
    simp only [Except.ok.injEq, Option.some.injEq] at heq
    have := remnant_pos (wilderDamp_pos hp) (l.length + 1 - period) hp
    linarith

/-- **What remembers its seed does not**: a first bar that stands out is in its value at any later bar. -/
theorem compute_spike {name : String} {n : ℕ} (hmin : minBars name period = .ok n) (hp : 1 ≤ period)
    (htail : ¬ReadsTail name period) (hlen : n ≤ l.length) (h : n ≤ bars.length) :
    compute sqrt name bars period ≠ compute sqrt name (a :: l) period := by
  have hp2 : 2 ≤ period := by
    by_contra hone
    exact htail (.inr (.inr (by omega)))
  obtain ⟨rfl | rfl | rfl, rfl⟩ | ⟨rfl | rfl, rfl⟩ := minBars_cases hmin
  · exact absurd (.inl rfl) htail
  · exact compute_ema_spike ha hl hbars hp2 hlen h
  · exact absurd (.inr (.inl rfl)) htail
  · exact compute_rsi_spike ha hl hbars hp2 hlen h
  · exact compute_atr_spike ha hl hbars hp2 hlen h

end

/-! ## A known indicator raises nothing -/

/-- A computation whose only raise is a `ValueError`. -/
def Guarded {α : Type} (x : Except Exc α) : Prop := ∀ e, x = .error e → e.cls = .valueError

theorem guarded_bind {α β : Type} {x : Except Exc α} {f : α → Except Exc β} (hx : Guarded x) (hf : ∀ a, Guarded (f a)) :
    Guarded (x >>= f) := by
  intro e he
  cases x with
  | error e' => cases he; exact hx _ rfl
  | ok a => exact hf a e he

theorem guarded_pure {α : Type} (a : α) : Guarded (pure a : Except Exc α) := fun _ h => by cases h

theorem guarded_period (name : String) (period : ℕ) : Guarded (requirePeriod name period) := by
  intro e he
  unfold requirePeriod at he
  split at he <;> cases he
  rfl

theorem guarded_length (name : String) (needed got : ℕ) : Guarded (requireLength name needed got) := by
  intro e he
  unfold requireLength at he
  split at he <;> cases he
  rfl

theorem orNone_guarded {x : Except Exc ℚ} (h : Guarded x) : ∃ v, orNone x = .ok v := by
  cases x with
  | ok v => exact ⟨some v, rfl⟩
  | error e =>
    refine ⟨none, ?_⟩
    rw [orNone, h e rfl]
    rfl

theorem compute_total {name : String} (hname : name ∈ knownIndicators) (sqrt : ℚ → ℚ) (bars : List Bar) (period : ℕ) :
    ∃ v, compute sqrt name bars period = .ok v := by
  simp only [knownIndicators, List.mem_cons, List.not_mem_nil, or_false] at hname
  obtain rfl | rfl | rfl | rfl | rfl := hname
  · exact orNone_guarded (guarded_bind (guarded_length _ _ _) fun _ => guarded_pure _)
  all_goals
    exact orNone_guarded (guarded_bind (guarded_period _ _) fun _ => guarded_bind (guarded_length _ _ _) fun _ =>
      guarded_pure _)

end Dispatch
end Atp
