import Mathlib.Data.List.ReduceOption
import Mathlib.Tactic.FieldSimp
import Mathlib.Tactic.Ring
import Mathlib.Tactic.Positivity
import AlgoTrading.IndicatorTails
import AlgoTrading.PrefixSeries
/-!
# IndicatorSeries — the indicators over a whole input

The `*_series` functions of `indicators/ta.py`, in the source's own arithmetic: sums taken once and subtracted, the mean of the
squares less the square of the mean, ranges and differences one shorter than their input, and a signal line that is an average
of a line with an undefined head.  Each is shown to be a `prefixSeries` of a function its scalar form also computes.
-/
namespace Atp
namespace Ta

open Series

/-! ## The series -/

/-- A series function, behind its check of the period. -/
def ofPeriod {α : Type} (name : String) (series : List α → ℕ → List (Option ℚ)) (period : ℕ) (values : List α) :
    Except Exc (List (Option ℚ)) := do
  requirePeriod (called name period) period
  return series values period

/-- `np.cumsum(np.insert(values, 0, 0.0))`. -/
def cumulative (values : List ℚ) : List ℚ := values.scanl (· + ·) 0

/-- **`sma_series`**: every window in one pass. -/
def smaSeries (values : List ℚ) (period : ℕ) : List (Option ℚ) :=
  if values.length < period then List.replicate values.length none
  else
    let sums := cumulative values
    List.replicate (period - 1) none ++
      (List.zipWith (fun upper lower : ℚ => (upper - lower) / period) (sums.drop period)
        (sums.take (sums.length - period))).map some

/-- The variance of each window, as `stddev_series` has it before the root. -/
def varianceSeries (values : List ℚ) (period : ℕ) : List (Option ℚ) :=
  List.zipWith (lift₂ fun squares means => max (squares - means * means) 0) (smaSeries (values.map fun x => x * x) period)
    (smaSeries values period)

/-- **`stddev_series`.** -/
def stddevSeries (sqrt : ℚ → ℚ) (values : List ℚ) (period : ℕ) : List (Option ℚ) :=
  (varianceSeries values period).map (Option.map sqrt)

/-- One row of the three arrays `true_range` is given, which it insists are of one length. -/
structure Hlc where
  high : ℚ
  low : ℚ
  close : ℚ

namespace Hlc

def rangeAfter (previous row : Hlc) : ℚ :=
  max (row.high - row.low) (max |row.high - previous.close| |row.low - previous.close|)

/-- The ranges there are: the first row has no previous close. -/
def ranges : List Hlc → List ℚ
  | a :: b :: l => rangeAfter a b :: ranges (b :: l)
  | _ => []

/-- **`true_range`.** -/
def trueRange (rows : List Hlc) : List (Option ℚ) :=
  if rows.length < 2 then List.replicate rows.length none else none :: (ranges rows).map some

/-- **`atr_series`.** -/
def atrSeries (rows : List Hlc) (period : ℕ) : List (Option ℚ) :=
  let ranges := trueRange rows
  if ranges.length < period + 1 then List.replicate ranges.length none
  else List.replicate period none ++ (wilderSmooth period (ranges.drop 1).reduceOption).map some

/-- **`atr`.** -/
def atr (rows : List Hlc) (period : ℕ) : Except Exc ℚ := do
  requirePeriod (called "atr" period) period
  requireLength (called "atr" period) (period + 1) rows.length
  return lastValue (atrSeries rows period)

end Hlc

/-- What `macd_series` returns. -/
structure Macd (β : Type) where
  line : β
  signal : β
  histogram : β

def macdLine (values : List ℚ) (fast slow : ℕ) : List (Option ℚ) :=
  List.zipWith (lift₂ (· - ·)) (emaSeries values fast) (emaSeries values slow)

/-- The average of the line from where it is defined; nothing from there on is `nan`. -/
def signalLine (values : List ℚ) (fast slow signal : ℕ) : List (Option ℚ) :=
  let defined := ((macdLine values fast slow).drop (slow - 1)).reduceOption
  if defined.length < signal then List.replicate values.length none
  else List.replicate (slow - 1) none ++ emaSeries defined signal

/-- **`macd_series`.** -/
def macdSeries (fast slow signal : ℕ) (values : List ℚ) : Except Exc (Macd (List (Option ℚ))) := do
  requirePeriod ("macd(fast=" ++ toString fast ++ ")") fast
  requirePeriod ("macd(slow=" ++ toString slow ++ ")") slow
  requirePeriod ("macd(signal=" ++ toString signal ++ ")") signal
  if slow ≤ fast then
    throw ⟨.valueError, [.lit "macd needs fast < slow, got fast=", .dec fast, .lit " slow=", .dec slow]⟩
  let line := macdLine values fast slow
  let signals := signalLine values fast slow signal
  return { line, signal := signals, histogram := List.zipWith (lift₂ (· - ·)) line signals }

/-- **`macd`.** -/
def macd (fast slow signal : ℕ) (values : List ℚ) : Except Exc (Macd ℚ) := do
  requireLength ("macd(" ++ toString fast ++ "," ++ toString slow ++ "," ++ toString signal ++ ")") (slow + signal - 1) values.length
  let series ← macdSeries fast slow signal values
  return { line := lastValue series.line, signal := lastValue series.signal, histogram := lastValue series.histogram }

/-! ## Recurrences -/

theorem getElem?_recurrence (step : ℚ → ℚ → ℚ) : ∀ (l : List ℚ) (seed : ℚ) {j : ℕ}, j ≤ l.length →
    (recurrence step seed l)[j]? = some ((l.take j).foldl step seed)
  | [], seed, 0, _ => rfl
  | x :: l, seed, 0, _ => rfl
  | x :: l, seed, j + 1, h => by
    rw [recurrence, List.getElem?_cons_succ, getElem?_recurrence step l (step seed x) (Nat.le_of_succ_le_succ h), List.take_succ_cons,
      List.foldl_cons]

/-- **An entry of a seeded recurrence is what the values so far settle at.** -/
theorem getElem?_settled (step : ℚ → ℚ → ℚ) {period j : ℕ} {l : List ℚ} (h : period + j ≤ l.length) :
    (recurrence step (mean (l.take period)) (l.drop period))[j]? = some (settled step period (l.take (period + j))) := by
  rw [getElem?_recurrence step _ _ (by rw [List.length_drop]; omega), settled, List.take_take, Nat.min_eq_left (Nat.le_add_right _ _),
    List.drop_take, Nat.add_sub_cancel_left]

theorem emaSeries_eq {period : ℕ} (hp : 1 ≤ period) (values : List ℚ) :
    emaSeries values period = prefixSeries (period - 1) (settled (emaStep period) period) values := by
  unfold emaSeries
  split
  · exact (prefixSeries_short (by omega)).symm
  · rename_i hlen
    refine settles (by omega) ?_ fun j hj => ?_
    · rw [length_recurrence, List.length_drop]
      omega
    · rw [getElem?_settled _ (by omega), show period - 1 + j + 1 = period + j by omega]

/-! ## Differences and ranges -/

theorem diff_take : ∀ (l : List ℚ) (k : ℕ), diff (l.take (k + 1)) = (diff l).take k
  | [], k => by simp [diff]
  | [a], k => by cases k <;> simp [diff]
  | a :: b :: l, 0 => by simp [diff]
  | a :: b :: l, k + 1 => by
    have hrest := diff_take (b :: l) k
    rw [List.take_succ_cons] at hrest
    rw [List.take_succ_cons, List.take_succ_cons, diff, diff, List.take_succ_cons, hrest]

theorem gains_take (l : List ℚ) (k : ℕ) : gains (l.take (k + 1)) = (gains l).take k := by
  rw [gains, gains, diff_take, List.map_take]

theorem losses_take (l : List ℚ) (k : ℕ) : losses (l.take (k + 1)) = (losses l).take k := by
  rw [losses, losses, diff_take, List.map_take]

theorem ranges_take : ∀ (l : List Hlc) (k : ℕ), Hlc.ranges (l.take (k + 1)) = (Hlc.ranges l).take k
  | [], k => by simp [Hlc.ranges]
  | [a], k => by cases k <;> simp [Hlc.ranges]
  | a :: b :: l, 0 => by simp [Hlc.ranges]
  | a :: b :: l, k + 1 => by
    have hrest := ranges_take (b :: l) k
    rw [List.take_succ_cons] at hrest
    rw [List.take_succ_cons, List.take_succ_cons, Hlc.ranges, Hlc.ranges, List.take_succ_cons, hrest]

theorem length_ranges : ∀ l : List Hlc, (Hlc.ranges l).length = l.length - 1
  | [] => rfl
  | [_] => rfl
  | a :: b :: l => by
    rw [Hlc.ranges, List.length_cons, length_ranges (b :: l)]
    rfl

/-- What a seeded average of `l` settles at, entry by entry. -/
theorem getElem?_wilderSmooth {period j : ℕ} {l : List ℚ} (h : period + j ≤ l.length) :
    (wilderSmooth period l)[j]? = some (settled (wilderStep period) period (l.take (period + j))) := getElem?_settled _ h

theorem length_wilderSmooth (period : ℕ) (l : List ℚ) : (wilderSmooth period l).length = l.length - period + 1 := by
  rw [wilderSmooth, length_recurrence, List.length_drop]

/-- The RSI of the values so far. -/
def rsiLast (period : ℕ) (values : List ℚ) : ℚ :=
  rsiOf (settled (wilderStep period) period (gains values)) (settled (wilderStep period) period (losses values))

theorem rsiSeries_eq (period : ℕ) (values : List ℚ) : rsiSeries values period = prefixSeries period (rsiLast period) values := by
  unfold rsiSeries
  split
  · exact (prefixSeries_short (by omega)).symm
  · rename_i hlen
    have hgains := length_gains values
    have hlosses := length_losses values
    refine settles (by omega) ?_ fun j hj => ?_
    · rw [List.length_zipWith, length_wilderSmooth, length_wilderSmooth, hgains, hlosses, Nat.min_self]
      omega
    · rw [List.getElem?_zipWith, getElem?_wilderSmooth (by omega), getElem?_wilderSmooth (by omega), ← gains_take, ← losses_take]
      rfl

theorem trueRange_eq (rows : List Hlc) :
    Hlc.trueRange rows = prefixSeries 1 (fun l => (Hlc.ranges l).getLast?.getD 0) rows := by
  unfold Hlc.trueRange
  split
  · exact (prefixSeries_short (by omega)).symm
  · have hranges := length_ranges rows
    refine settles (w := 1) (by omega) (by omega) fun j hj => ?_
    have hlt : j < (Hlc.ranges rows).length := by omega
    rw [ranges_take, Nat.add_comm 1 j, List.getLast?_take]
    simp [hlt]

theorem length_trueRange (rows : List Hlc) : (Hlc.trueRange rows).length = rows.length := by
  rw [trueRange_eq, length_prefixSeries]

theorem defined_trueRange (rows : List Hlc) : ((Hlc.trueRange rows).drop 1).reduceOption = Hlc.ranges rows := by
  have hranges := length_ranges rows
  unfold Hlc.trueRange
  split
  · rw [List.drop_replicate, List.reduceOption_replicate_none, eq_comm, ← List.length_eq_zero_iff]
    omega
  · exact reduceOption_map_some _

theorem atrSeries_eq (period : ℕ) (rows : List Hlc) :
    Hlc.atrSeries rows period = prefixSeries period (fun l => settled (wilderStep period) period (Hlc.ranges l)) rows := by
  unfold Hlc.atrSeries
  dsimp only
  rw [length_trueRange, defined_trueRange]
  split
  · exact (prefixSeries_short (by omega)).symm
  · have hranges := length_ranges rows
    refine settles (by omega) ?_ fun j hj => ?_
    · rw [length_wilderSmooth]
      omega
    · rw [getElem?_wilderSmooth (by omega), ← ranges_take]

/-! ## Windows -/

theorem getElem?_cumulative {values : List ℚ} {i : ℕ} (h : i ≤ values.length) :
    (cumulative values)[i]? = some (values.take i).sum := by
  rw [cumulative, List.getElem?_scanl, if_pos h, List.sum_eq_foldl]

theorem length_cumulative (values : List ℚ) : (cumulative values).length = values.length + 1 := List.length_scanl

/-- **A difference of two sums is the sum of the window between them.** -/
theorem smaSeries_eq {period : ℕ} (hp : 1 ≤ period) (values : List ℚ) :
    smaSeries values period = prefixSeries (period - 1) (fun l => mean (lastSlice period l)) values := by
  unfold smaSeries
  split
  · exact (prefixSeries_short (by omega)).symm
  · have hsums := length_cumulative values
    refine settles (by omega) ?_ fun j hj => ?_
    · rw [List.length_zipWith, List.length_drop, List.length_take]
      omega
    · have hlast : period - 1 + j + 1 = j + period := by omega
      have hwindow : lastSlice period (values.take (j + period)) = (values.take (j + period)).drop j := by
        rw [lastSlice, if_neg (by omega), List.length_take, Nat.min_eq_left (by omega), Nat.add_sub_cancel]
      have hsum : (values.take (j + period)).sum = (values.take j).sum + ((values.take (j + period)).drop j).sum := by
        rw [← List.sum_take_add_sum_drop (values.take (j + period)) j, List.take_take, Nat.min_eq_left (Nat.le_add_right j period)]
      have hlength : ((values.take (j + period)).drop j).length = period := by
        rw [List.length_drop, List.length_take]
        omega
      rw [hlast, hwindow, mean, hlength, List.getElem?_zipWith, List.getElem?_drop, List.getElem?_take, if_pos (by omega),
        Nat.add_comm period j, getElem?_cumulative (by omega), getElem?_cumulative (by omega)]
      simp only [hsum, add_sub_cancel_left]

theorem sum_sub_sq (m : ℚ) : ∀ l : List ℚ,
    (l.map fun x => (x - m) ^ 2).sum = (l.map fun x => x * x).sum - 2 * m * l.sum + l.length * m ^ 2
  | [] => by simp
  | x :: l => by
    simp only [List.map_cons, List.sum_cons, List.length_cons, sum_sub_sq m l]
    push_cast
    ring

theorem variance_nonneg (l : List ℚ) : 0 ≤ variance l := by
  refine div_nonneg (List.sum_nonneg fun y hy => ?_) (Nat.cast_nonneg _)
  obtain ⟨x, -, rfl⟩ := List.mem_map.1 hy
  exact sq_nonneg _

/-- **The mean of the squares less the square of the mean** is the variance, and never below zero. -/
theorem variance_eq {l : List ℚ} (h : l ≠ []) : max (mean (l.map fun x => x * x) - mean l * mean l) 0 = variance l := by
  have hn : (l.length : ℚ) ≠ 0 := by
    simpa using h
  have hsum : mean l * l.length = l.sum := div_mul_cancel₀ _ hn
  have hsquares : mean (l.map fun x => x * x) = (l.map fun x => x * x).sum / l.length := by
    rw [mean, List.length_map]
  have hvariance : variance l = ((l.map fun x => x * x).sum - 2 * mean l * l.sum + l.length * mean l ^ 2) / l.length := by
    rw [← sum_sub_sq, variance]
    generalize mean l = m
    rw [mean, List.length_map]
  have heq : mean (l.map fun x => x * x) - mean l * mean l = variance l := by
    rw [hsquares, hvariance, eq_div_iff hn, sub_mul, div_mul_cancel₀ _ hn, ← hsum]
    ring
  rw [heq, max_eq_left (variance_nonneg l)]

theorem lastSlice_map {α β : Type} (f : α → β) (n : ℕ) (l : List α) : lastSlice n (l.map f) = (lastSlice n l).map f := by
  unfold lastSlice
  split
  · rfl
  · rw [List.length_map, List.map_drop]

theorem lastSlice_ne_nil {α : Type} {n : ℕ} {l : List α} (hn : 1 ≤ n) (h : n ≤ l.length) : lastSlice n l ≠ [] := by
  rw [lastSlice, if_neg (by omega), Ne, ← List.length_eq_zero_iff, List.length_drop]
  omega

theorem varianceSeries_eq {period : ℕ} (hp : 1 ≤ period) (values : List ℚ) :
    varianceSeries values period = prefixSeries (period - 1) (fun l => variance (lastSlice period l)) values := by
  rw [varianceSeries, smaSeries_eq hp, smaSeries_eq hp, prefixSeries_map, zipWith_prefixSeries, Nat.max_self]
  refine prefixSeries_congr fun i hw hi => ?_
  have hlen : period ≤ (values.take (i + 1)).length := by
    rw [List.length_take]
    omega
  rw [lastSlice_map, variance_eq (lastSlice_ne_nil hp hlen)]

theorem stddevSeries_eq (sqrt : ℚ → ℚ) {period : ℕ} (hp : 1 ≤ period) (values : List ℚ) :
    stddevSeries sqrt values period = prefixSeries (period - 1) (fun l => sqrt (variance (lastSlice period l))) values := by
  rw [stddevSeries, varianceSeries_eq hp, map_prefixSeries]

/-! ## The MACD -/

section macd
variable {fast slow signal : ℕ}

/-- The MACD of the values so far, and the average of it. -/
def lineLast (fast slow : ℕ) (values : List ℚ) : ℚ := settled (emaStep fast) fast values - settled (emaStep slow) slow values

def signalLast (fast slow signal : ℕ) (values : List ℚ) : ℚ :=
  settled (emaStep signal) signal (tailValues (slow - 1) (lineLast fast slow) values)

theorem macdLine_eq (hf : 1 ≤ fast) (h : fast < slow) (values : List ℚ) :
    macdLine values fast slow = prefixSeries (slow - 1) (lineLast fast slow) values := by
  rw [macdLine, emaSeries_eq hf, emaSeries_eq (by omega), zipWith_prefixSeries, Nat.max_eq_right (by omega)]
  rfl

theorem signalLine_eq (hf : 1 ≤ fast) (h : fast < slow) (hs : 1 ≤ signal) (values : List ℚ) :
    signalLine values fast slow signal = prefixSeries (slow - 1 + (signal - 1)) (signalLast fast slow signal) values := by
  unfold signalLine
  dsimp only
  rw [macdLine_eq hf h, reduceOption_drop_prefixSeries, length_tailValues]
  split
  · exact (prefixSeries_short (by omega)).symm
  · rw [emaSeries_eq hs, prefixSeries_tailValues _ (by omega)]
    rfl

/-- The three values of a bar, where all are defined. -/
def Macd.rows (m : Macd (List (Option ℚ))) : List (Option (Macd ℚ)) :=
  List.zipWith (lift₂ fun line (rest : ℚ × ℚ) => { line, signal := rest.1, histogram := rest.2 }) m.line
    (List.zipWith (lift₂ Prod.mk) m.signal m.histogram)

def macdLast (fast slow signal : ℕ) (values : List ℚ) : Macd ℚ where
  line := lineLast fast slow values
  signal := signalLast fast slow signal values
  histogram := lineLast fast slow values - signalLast fast slow signal values

theorem macdSeries_ok (hf : 1 ≤ fast) (h : fast < slow) (hs : 1 ≤ signal) (values : List ℚ) :
    macdSeries fast slow signal values = .ok {
      line := prefixSeries (slow - 1) (lineLast fast slow) values
      signal := prefixSeries (slow - 1 + (signal - 1)) (signalLast fast slow signal) values
      histogram := prefixSeries (slow - 1 + (signal - 1))
        (fun l => lineLast fast slow l - signalLast fast slow signal l) values } := by
  have hslow : ¬slow < 1 := by omega
  unfold macdSeries
  simp only [requirePeriod, if_neg (not_lt.2 hf), if_neg hslow, if_neg (not_lt.2 hs), if_neg (not_le.2 h), macdLine_eq hf h,
    signalLine_eq hf h hs, zipWith_prefixSeries, Nat.max_eq_right (Nat.le_add_right (slow - 1) (signal - 1))]
  rfl

/-- Periods it refuses, it refuses whatever the values. -/
theorem macdSeries_error (h : ¬(1 ≤ fast ∧ fast < slow ∧ 1 ≤ signal)) :
    ∃ e, ∀ values, macdSeries fast slow signal values = .error e := by
  unfold macdSeries requirePeriod
  by_cases hf : fast < 1
  · exact ⟨_, fun values => by rw [if_pos hf]; rfl⟩
  by_cases hslow : slow < 1
  · exact ⟨_, fun values => by rw [if_neg hf, if_pos hslow]; rfl⟩
  by_cases hs : signal < 1
  · exact ⟨_, fun values => by rw [if_neg hf, if_neg hslow, if_pos hs]; rfl⟩
  by_cases hle : slow ≤ fast
  · exact ⟨_, fun values => by rw [if_neg hf, if_neg hslow, if_neg hs, if_pos hle]; rfl⟩
  · exact absurd ⟨not_lt.1 hf, not_le.1 hle, not_lt.1 hs⟩ h

theorem lastValue_prefixSeries {α : Type} {w : ℕ} {f : List α → ℚ} {l : List α} (h : w < l.length) :
    lastValue (prefixSeries w f l) = f l := by
  rw [lastValue, List.getLast?_eq_getElem?, length_prefixSeries, getElem?_prefixSeries (by omega), if_pos (by omega),
    Nat.sub_add_cancel (by omega), List.take_length]
  rfl

theorem macd_long (hf : 1 ≤ fast) (h : fast < slow) (hs : 1 ≤ signal) {values : List ℚ}
    (hlen : slow - 1 + (signal - 1) < values.length) : macd fast slow signal values = .ok (macdLast fast slow signal values) := by
  have hneeded : ¬values.length < slow + signal - 1 := by omega
  unfold macd
  rw [requireLength, if_neg hneeded, macdSeries_ok hf h hs]
  show Except.ok _ = Except.ok _
  rw [lastValue_prefixSeries (by omega), lastValue_prefixSeries hlen, lastValue_prefixSeries hlen]
  rfl

theorem macd_short (hf : 1 ≤ fast) (h : fast < slow) (hs : 1 ≤ signal) {values : List ℚ} {x : Macd ℚ}
    (hlen : values.length ≤ slow - 1 + (signal - 1)) : macd fast slow signal values ≠ .ok x := by
  have hneeded : values.length < slow + signal - 1 := by omega
  unfold macd
  rw [requireLength, if_pos hneeded]
  intro h
  cases h

/-- **The MACD's three series and its scalar form.** -/
theorem macd_oneDefinition (fast slow signal : ℕ) :
    Causal (fun values => (macdSeries fast slow signal values).map Macd.line) (slow - 1) ∧
      Causal (fun values => (macdSeries fast slow signal values).map Macd.signal) (slow - 1 + (signal - 1)) ∧
      Causal (fun values => (macdSeries fast slow signal values).map Macd.histogram) (slow - 1 + (signal - 1)) ∧
      OneDefinition (fun values => (macdSeries fast slow signal values).map Macd.rows) (macd fast slow signal)
        (slow - 1 + (signal - 1)) := by
  by_cases hvalid : 1 ≤ fast ∧ fast < slow ∧ 1 ≤ signal
  · obtain ⟨hf, h, hs⟩ := hvalid
    have hseries := macdSeries_ok hf h hs
    refine ⟨.ofPrefix fun values => by rw [hseries]; rfl, .ofPrefix fun values => by rw [hseries]; rfl,
      .ofPrefix (f := fun l => lineLast fast slow l - signalLast fast slow signal l) fun values => by rw [hseries]; rfl,
      .ofPrefix (f := macdLast fast slow signal) (fun values => ?_) (fun values x => macd_short hf h hs)
        (fun values => macd_long hf h hs)⟩
    rw [hseries]
    show Except.ok _ = Except.ok _
    rw [Macd.rows]
    dsimp only
    rw [zipWith_prefixSeries, zipWith_prefixSeries, Nat.max_self, Nat.max_eq_right (Nat.le_add_right _ _)]
    rfl
  · obtain ⟨e, he⟩ := macdSeries_error hvalid
    refine ⟨.ofError (e := e) fun values => by rw [he]; rfl, .ofError (e := e) fun values => by rw [he]; rfl,
      .ofError (e := e) fun values => by rw [he]; rfl, .ofError (e := e) (fun values => by rw [he]; rfl) fun values x hx => ?_⟩
    unfold macd at hx
    rw [he] at hx
    cases hlen : requireLength ("macd(" ++ toString fast ++ "," ++ toString slow ++ "," ++ toString signal ++ ")") (slow + signal - 1)
      values.length <;> rw [hlen] at hx <;> cases hx

end macd

/-! ## The others -/

theorem ofPeriod_ok {α : Type} {name : String} {series : List α → ℕ → List (Option ℚ)} {period : ℕ} (hp : 1 ≤ period)
    (values : List α) : ofPeriod name series period values = .ok (series values period) := by
  rw [ofPeriod, requirePeriod, if_neg (not_lt.2 hp)]
  rfl

theorem ofPeriod_zero {α : Type} {name : String} {series : List α → ℕ → List (Option ℚ)} (values : List α) :
    ofPeriod name series 0 values = .error ⟨.valueError, [.lit (called name 0), .lit " needs period >= 1, got ", .dec (0 : ℕ)]⟩ := rfl

/-- An indicator that checks its period before its length, in both its forms. -/
theorem oneDefinition_checked {α : Type} {name : String} {series : List α → ℕ → List (Option ℚ)} (body : List α → ℕ → ℚ)
    (needed : ℕ → ℕ) {f : ℕ → List α → ℚ} (hneeded : ∀ period, 1 ≤ period → 1 ≤ needed period)
    (hseries : ∀ period, 1 ≤ period → ∀ l, series l period = prefixSeries (needed period - 1) (f period) l)
    (hbody : ∀ period, 1 ≤ period → ∀ l, needed period ≤ l.length → body l period = f period l) (period : ℕ) :
    OneDefinition (ofPeriod name series period) (fun l => do
      requirePeriod (called name period) period
      requireLength (called name period) (needed period) l.length
      return body l period) (needed period - 1) := by
  obtain rfl | hp := Nat.eq_zero_or_pos period
  · exact .ofError ofPeriod_zero fun l x h => by cases h
  · have hpos := hneeded period hp
    refine .ofPrefix (fun l => by rw [ofPeriod_ok hp, hseries _ hp]) (fun l x hlen => ?_) fun l hlen => ?_
    · rw [requirePeriod, if_neg (not_lt.2 hp), requireLength, if_pos (by omega)]
      intro h
      cases h
    · rw [requirePeriod, if_neg (not_lt.2 hp), requireLength, if_neg (by omega)]
      exact congrArg Except.ok (hbody period hp l (by omega))

theorem sma_oneDefinition_iff (period : ℕ) :
    OneDefinition (ofPeriod "sma" smaSeries period) (fun l => sma l period) (period - 1) ↔ 1 ≤ period := by
  constructor
  · intro h
    by_contra hp
    obtain rfl : period = 0 := by omega
    obtain ⟨s, i, hs, -⟩ := (h.scalar [1] 1 1 le_rfl).1 (by decide +kernel)
    rw [ofPeriod_zero] at hs
    cases hs
  · intro hp
    refine .ofPrefix (fun l => by rw [ofPeriod_ok hp, smaSeries_eq hp]) (fun l x hlen => ?_) fun l hlen => ?_
    · rw [sma, requireLength, if_pos (by omega)]
      intro h
      cases h
    · rw [sma, requireLength, if_neg (by omega)]
      rfl

theorem ema_oneDefinition (period : ℕ) : OneDefinition (ofPeriod "ema" emaSeries period) (fun l => ema l period) (period - 1) := by
  refine oneDefinition_checked (fun l p => lastValue (emaSeries l p)) (fun p => p) (fun p hp => hp) (fun p hp l => emaSeries_eq hp l)
    (fun p hp l hlen => ?_) period
  rw [emaSeries_eq hp, lastValue_prefixSeries (by omega)]

theorem rsi_oneDefinition (period : ℕ) : OneDefinition (ofPeriod "rsi" rsiSeries period) (fun l => rsi l period) period := by
  refine oneDefinition_checked (fun l p => lastValue (rsiSeries l p)) (· + 1) (fun p _ => Nat.succ_pos p)
    (fun p _ l => rsiSeries_eq p l) (fun p _ l hlen => ?_) period
  rw [rsiSeries_eq, lastValue_prefixSeries hlen]

theorem stddev_oneDefinition (sqrt : ℚ → ℚ) (period : ℕ) :
    OneDefinition (ofPeriod "stddev" (stddevSeries sqrt) period) (fun l => stddev sqrt l period) (period - 1) := by
  exact oneDefinition_checked (fun l p => sqrt (variance (lastSlice p l))) (fun p => p) (fun p hp => hp)
    (fun p hp l => stddevSeries_eq sqrt hp l) (fun _ _ _ _ => rfl) period

theorem atr_oneDefinition (period : ℕ) :
    OneDefinition (ofPeriod "atr" Hlc.atrSeries period) (fun l => Hlc.atr l period) period := by
  refine oneDefinition_checked (fun l p => lastValue (Hlc.atrSeries l p)) (· + 1) (fun p _ => Nat.succ_pos p)
    (fun p _ l => atrSeries_eq p l) (fun p _ l hlen => ?_) period
  rw [atrSeries_eq, lastValue_prefixSeries hlen]

/-! ## The scale of the RSI -/

theorem settled_nonneg {period : ℕ} (hp : 1 ≤ period) {l : List ℚ} (h : ∀ x ∈ l, 0 ≤ x) :
    0 ≤ settled (wilderStep period) period l := by
  have hp' : (0 : ℚ) ≤ period - 1 := by
    have : (1 : ℚ) ≤ period := by exact_mod_cast hp
    linarith
  have hfold : ∀ (l : List ℚ) (seed : ℚ), 0 ≤ seed → (∀ x ∈ l, 0 ≤ x) → 0 ≤ l.foldl (wilderStep period) seed := by
    intro l
    induction l with
    | nil => exact fun seed hseed _ => hseed
    | cons x l ih =>
      intro seed hseed hl
      obtain ⟨hx, hl⟩ := List.forall_mem_cons.1 hl
      refine ih _ (div_nonneg ?_ (Nat.cast_nonneg _)) hl
      have hprod := mul_nonneg hseed hp'
      linarith
  refine hfold _ _ (div_nonneg (List.sum_nonneg fun x hx => h x (List.mem_of_mem_take hx)) (Nat.cast_nonneg _)) ?_
  exact fun x hx => h x (List.mem_of_mem_drop hx)

theorem gains_nonneg (values : List ℚ) : ∀ x ∈ gains values, 0 ≤ x := by
  intro x hx
  obtain ⟨d, -, rfl⟩ := List.mem_map.1 hx
  split
  · exact le_of_lt ‹_›
  · exact le_rfl

theorem losses_nonneg (values : List ℚ) : ∀ x ∈ losses values, 0 ≤ x := by
  intro x hx
  obtain ⟨d, -, rfl⟩ := List.mem_map.1 hx
  split
  · linarith
  · exact le_rfl

theorem rsiOf_mem {a b : ℚ} (ha : 0 ≤ a) (hb : 0 ≤ b) : 0 ≤ rsiOf a b ∧ rsiOf a b ≤ 100 := by
  unfold rsiOf
  split
  · norm_num
  · have hone : 1 ≤ 1 + a / b := le_add_of_nonneg_right (div_nonneg ha hb)
    have hpos : 0 < 1 + a / b := zero_lt_one.trans_le hone
    have hle : 100 / (1 + a / b) ≤ 100 := div_le_self (by norm_num) hone
    have hge : 0 ≤ 100 / (1 + a / b) := div_nonneg (by norm_num) hpos.le
    exact ⟨by linarith, by linarith⟩

/-- **An RSI is on its scale.** -/
theorem rsiSeries_mem {period : ℕ} {values : List ℚ} {s : List (Option ℚ)} {x : ℚ}
    (hs : ofPeriod "rsi" rsiSeries period values = .ok s) (hx : some x ∈ s) : 0 ≤ x ∧ x ≤ 100 := by
  obtain rfl | hp := Nat.eq_zero_or_pos period
  · rw [ofPeriod_zero] at hs
    cases hs
  · rw [ofPeriod_ok hp, rsiSeries_eq, Except.ok.injEq] at hs
    rw [← hs] at hx
    obtain ⟨i, -, hi⟩ := List.mem_map.1 hx
    split at hi
    · cases hi
      exact rsiOf_mem (settled_nonneg hp (gains_nonneg _)) (settled_nonneg hp (losses_nonneg _))
    · cases hi

end Ta

/-! ## The warm-up the dispatch states -/

namespace Dispatch

open Ta Series

def hlc (bar : Bar) : Hlc where
  high := bar.high
  low := bar.low
  close := bar.close

theorem trueRanges_hlc : ∀ bars : List Bar, trueRanges bars = Hlc.ranges (bars.map hlc)
  | [] => rfl
  | [_] => rfl
  | a :: b :: bars => by
    have hrest := trueRanges_hlc (b :: bars)
    rw [List.map_cons] at hrest
    rw [trueRanges, List.map_cons, List.map_cons, Hlc.ranges, hrest]
    rfl

/-- The range indicators of a list of bars are those of its rows. -/
theorem atr_hlc (bars : List Bar) (period : ℕ) : Ta.atr bars period = Hlc.atr (bars.map hlc) period := by
  rw [Ta.atr, Hlc.atr, atrSeries, Hlc.atrSeries]
  rw [length_trueRange, defined_trueRange, List.length_map, trueRanges_hlc]

theorem orNone_some {y : Except Exc ℚ} {x : ℚ} : orNone y = .ok (some x) ↔ y = .ok x := by
  cases y with
  | ok v => simp [orNone]
  | error e =>
    unfold orNone
    dsimp only
    split <;> simp

/-- A scalar form is defined on more values than its warm-up. -/
theorem scalar_defined {α : Type} {name : String} {series : List α → ℕ → List (Option ℚ)} {scalar : List α → Except Exc ℚ}
    {w period : ℕ} (hp : 1 ≤ period) (h : OneDefinition (ofPeriod name series period) scalar w) (l : List α) :
    (∃ x, scalar l = .ok x) ↔ w < l.length := by
  have hs : ofPeriod name series period l = .ok (series l period) := ofPeriod_ok hp l
  have hlast := h.scalar l l.length
  simp only [List.take_length, le_refl, forall_const] at hlast
  simp only [hlast]
  constructor
  · rintro ⟨x, s, i, hs', hi, hx⟩
    exact Nat.lt_of_le_of_lt ((h.defined l s hs' i (by omega)).1 ⟨x, hx⟩) (by omega)
  · intro hw
    obtain ⟨x, hx⟩ := (h.defined l _ hs (l.length - 1) (by omega)).2 (by omega)
    exact ⟨x, _, l.length - 1, hs, by omega, hx⟩

/-- **`min_bars` is the shortest series `compute` answers for.** -/
theorem compute_defined_iff (sqrt : ℚ → ℚ) {name : String} {period n : ℕ} (hp : 1 ≤ period)
    (hmin : minBars name period = .ok n) (bars : List Bar) : (∃ x, compute sqrt name bars period = .ok (some x)) ↔ n ≤ bars.length := by
  obtain ⟨rfl | rfl | rfl, rfl⟩ | ⟨rfl | rfl, rfl⟩ := minBars_cases hmin
  · have h := scalar_defined hp ((sma_oneDefinition_iff n).2 hp) (bars.map Bar.close)
    simp only [compute, if_true, orNone_some, h, List.length_map]
    omega
  · have h := scalar_defined hp (ema_oneDefinition n) (bars.map Bar.close)
    simp only [compute, String.reduceEq, if_false, if_true, orNone_some, h, List.length_map]
    omega
  · have h := scalar_defined hp (stddev_oneDefinition sqrt n) (bars.map Bar.close)
    simp only [compute, String.reduceEq, if_false, if_true, orNone_some, h, List.length_map]
    omega
  · have h := scalar_defined hp (rsi_oneDefinition period) (bars.map Bar.close)
    simp only [compute, String.reduceEq, if_false, if_true, orNone_some, h, List.length_map]
    omega
  · have h := scalar_defined hp (atr_oneDefinition period) (bars.map hlc)
    simp only [compute, String.reduceEq, if_false, if_true, orNone_some, atr_hlc, h, List.length_map]
    omega

/-- **Every indicator is causal and has one definition**, whatever its period, but for the scalar `sma`, which takes a period of
zero that its series refuses; each is defined from its warm-up on, which is the one `min_bars` states, and an RSI is on its scale. -/
theorem one_definition (sqrt : ℚ → ℚ) (period fast slow signal : ℕ) :
    (OneDefinition (ofPeriod "sma" smaSeries period) (fun l => sma l period) (period - 1) ↔ 1 ≤ period) ∧
      OneDefinition (ofPeriod "ema" emaSeries period) (fun l => ema l period) (period - 1) ∧
      OneDefinition (ofPeriod "rsi" rsiSeries period) (fun l => rsi l period) period ∧
      (∀ values s x, ofPeriod "rsi" rsiSeries period values = .ok s → some x ∈ s → 0 ≤ x ∧ x ≤ 100) ∧
      Causal (fun rows => (.ok (Hlc.trueRange rows) : Except Exc (List (Option ℚ)))) 1 ∧
      OneDefinition (ofPeriod "atr" Hlc.atrSeries period) (fun rows => Hlc.atr rows period) period ∧
      OneDefinition (ofPeriod "stddev" (stddevSeries sqrt) period) (fun l => stddev sqrt l period) (period - 1) ∧
      (Causal (fun l => (macdSeries fast slow signal l).map Macd.line) (slow - 1) ∧
        Causal (fun l => (macdSeries fast slow signal l).map Macd.signal) (slow - 1 + (signal - 1)) ∧
        Causal (fun l => (macdSeries fast slow signal l).map Macd.histogram) (slow - 1 + (signal - 1)) ∧
        OneDefinition (fun l => (macdSeries fast slow signal l).map Macd.rows) (macd fast slow signal) (slow - 1 + (signal - 1))) ∧
      ∀ name n bars, 1 ≤ period → minBars name period = .ok n →
        ((∃ x, compute sqrt name bars period = .ok (some x)) ↔ n ≤ bars.length) := by
  refine ⟨sma_oneDefinition_iff period, ema_oneDefinition period, rsi_oneDefinition period, fun values s x => rsiSeries_mem,
    .ofPrefix fun rows => congrArg Except.ok (trueRange_eq rows), atr_oneDefinition period, stddev_oneDefinition sqrt period,
    macd_oneDefinition fast slow signal, fun name n bars hp hmin => compute_defined_iff sqrt hp hmin bars⟩

/-- **The scalar `sma` of a period of zero** is the average of everything, where `sma_series` raises. -/
theorem sma_of_zero : sma [1, 3] 0 = .ok 2 ∧ ∀ s, ofPeriod "sma" smaSeries 0 [1, 3] ≠ .ok s := by
  refine ⟨by decide +kernel, fun s hs => ?_⟩
  rw [ofPeriod_zero] at hs
  cases hs

end Dispatch
end Atp
