import AlgoTrading.Extremes
import AlgoTrading.Stops
/-!
# TrailingLevels — what a trailing stop has been raised to

`update_trailing` fed bar after bar.  The high-water mark and the stop are two running extremes, the second of the levels
that hang from the first; the closed form is read off one call (`updateTrailing_step`) and carried along the bars.
-/
namespace Atp
namespace TrailingLevels

open Raising Extremes

/-- A trailing stop with the number its type needs. -/
def Configured (c : StopConfig) : Prop :=
  (c.stopType = .trailingPct ∧ ∃ pct, c.value = some pct ∧ 0 < pct) ∨
    (c.stopType = .chandelier ∧ ∃ k, c.multiplier = some k ∧ 0 < k)

/-- The extreme of a bar a trailing stop hangs from. -/
def extreme (long : Bool) (bar : Bar) : ℚ := if long then bar.high else bar.low

/-- The level that hangs from an anchor. -/
def hung (c : StopConfig) (long : Bool) (anchor atr : ℚ) : ℚ :=
  let away : ℚ := if long then -1 else 1
  if c.stopType = .trailingPct then anchor * (1 + away * c.value.getD 0) else anchor + away * c.multiplier.getD 0 * atr

/-- Where the stop hangs from before the first bar. -/
def anchor (p : Position) : ℚ := p.highWaterMark.getD p.avgEntryPrice

/-- The levels justified along the bars, each hung from the anchor its bar has reached. -/
def justified (c : StopConfig) (long : Bool) : ℚ → List (Bar × ℚ) → List ℚ
  | _, [] => []
  | a, (bar, atr) :: xs =>
    let a' := best long a (extreme long bar)
    hung c long a' atr :: justified c long a' xs

/-- The levels that are prices. -/
def prices (levels : List ℚ) : List ℚ := levels.filter fun level => 0 < level

/-- The position after the bars have been fed, with the ATR of each. -/
def trailed (c : StopConfig) (p : Position) (xs : List (Bar × ℚ)) : Position :=
  xs.foldl (fun p x => (exec (updateTrailing x.1 c (some x.2)) p).2) p

theorem trailingAnchor_eq (p : Position) (bar : Bar) :
    trailingAnchor p bar = best p.isLong (anchor p) (extreme p.isLong bar) := by
  unfold trailingAnchor best extreme anchor
  cases p.isLong <;> rfl

theorem Configured.isTrailing {c : StopConfig} (h : Configured c) : c.stopType.isTrailing = true := by
  rcases h with ⟨htype, -⟩ | ⟨htype, -⟩ <;> rw [htype] <;> rfl

theorem Configured.candidate {c : StopConfig} (h : Configured c) (long : Bool) (a : ℚ) {atr : ℚ} (hatr : 0 < atr) :
    trailingCandidate long a c (some atr) = .ok (hung c long a atr) := by
  unfold trailingCandidate hung
  rcases h with ⟨htype, pct, hpct, hpos⟩ | ⟨htype, k, hk, hpos⟩
  · simp [htype, hpct, requirePositive, not_le.2 hpos, bind, Except.bind, pure, Except.pure]
  · simp [htype, hk, requirePositive, requireAtr, not_le.2 hpos, not_le.2 hatr, bind, Except.bind, pure, Except.pure]

/-- The stop a candidate leaves. -/
def raised (long : Bool) (stop : Option ℚ) (level : ℚ) : Option ℚ := if 0 < level then keep long stop level else stop

theorem raised_of_tighter {long : Bool} {stop : Option ℚ} {level : ℚ} (hpos : 0 < level)
    (h : ∀ current, stop = some current → ¬NoBetter long level current) : raised long stop level = some level := by
  unfold raised
  rw [if_pos hpos]
  cases stop with
  | none => rfl
  | some current =>
    show some (best long current level) = _
    rw [best_eq_right (h current rfl)]

theorem raised_of_looser {long : Bool} {current level : ℚ} (h : NoBetter long level current) :
    raised long (some current) level = some current := by
  unfold raised
  split
  · show some (best long current level) = _
    rw [best_eq_left h]
  · rfl

/-- **One call**: the mark takes the bar in, the stop the level that hangs from it if that is a price and tighter, and the
level is returned exactly if it was taken. -/
theorem updateTrailing_step {c : StopConfig} (hc : Configured c) {p : Position} (hopen : p.isFlat = false) (bar : Bar) {atr : ℚ}
    (hatr : 0 < atr) :
    let a := best p.isLong (anchor p) (extreme p.isLong bar)
    let stop := raised p.isLong p.stopLossPrice (hung c p.isLong a atr)
    exec (updateTrailing bar c (some atr)) p =
      (.ok (if stop = p.stopLossPrice then none else stop), { p with highWaterMark := some a, stopLossPrice := stop }) := by
  intro a stop
  have ha : trailingAnchor p bar = a := trailingAnchor_eq p bar
  clear_value a
  unfold updateTrailing
  rw [exec_bind, exec_get]
  simp only [hc.isTrailing, hopen, ha, Bool.not_false, Bool.and_self, if_true, exec_bind, exec_set, exec_fromExcept,
    hc.candidate p.isLong _ hatr]
  by_cases hpos : 0 < hung c p.isLong a atr
  · rw [if_neg (not_le.2 hpos)]
    have htest (current : ℚ) : (if p.isLong = true then decide (hung c p.isLong a atr ≤ current)
        else decide (current ≤ hung c p.isLong a atr)) = true ↔ NoBetter p.isLong (hung c p.isLong a atr) current := by
      unfold NoBetter
      cases p.isLong <;> simp
    cases hcurrent : p.stopLossPrice with
    | none =>
      have htaken : stop = some (hung c p.isLong a atr) := raised_of_tighter hpos fun current h => by rw [hcurrent] at h; cases h
      rw [htaken, if_neg (Option.some_ne_none _)]
      simp
    | some current =>
      by_cases hlooser : NoBetter p.isLong (hung c p.isLong a atr) current
      · -- the level armed already is as tight
        have hstays : stop = some current := by
          show raised p.isLong p.stopLossPrice _ = _
          rw [hcurrent, raised_of_looser hlooser]
        rw [hstays, if_pos rfl, Option.any_some, if_pos ((htest current).2 hlooser), exec_pure]
      · have htaken : stop = some (hung c p.isLong a atr) := by
          refine raised_of_tighter hpos fun x hx => ?_
          rw [hcurrent] at hx
          cases hx
          exact hlooser
        have hne : hung c p.isLong a atr ≠ current := fun heq => hlooser (heq ▸ noBetter_refl _ _)
        rw [htaken, if_neg (fun heq => hne (Option.some.inj heq))]
        simp [(htest current).not.2 hlooser]
  · have hstop : stop = p.stopLossPrice := if_neg hpos
    rw [if_pos (not_lt.1 hpos), hstop, if_pos rfl]
    rfl

/-! ### Bar after bar -/

variable {c : StopConfig} {p : Position} {xs : List (Bar × ℚ)}

/-- The position with another mark and stop. -/
def levelled (p : Position) (mark stop : Option ℚ) : Position := { p with highWaterMark := mark, stopLossPrice := stop }

theorem trailed_cons (hc : Configured c) (hopen : p.isFlat = false) (bar : Bar) {atr : ℚ} (hatr : 0 < atr) (xs : List (Bar × ℚ)) :
    let a := best p.isLong (anchor p) (extreme p.isLong bar)
    trailed c p ((bar, atr) :: xs) =
      trailed c (levelled p (some a) (raised p.isLong p.stopLossPrice (hung c p.isLong a atr))) xs := by
  intro a
  unfold trailed
  rw [List.foldl_cons, updateTrailing_step hc hopen bar hatr]
  rfl

theorem foldl_prices (long : Bool) (stop : Option ℚ) (level : ℚ) (levels : List ℚ) :
    (prices (level :: levels)).foldl (keep long) stop = (prices levels).foldl (keep long) (raised long stop level) := by
  unfold prices raised
  by_cases hpos : 0 < level
  · rw [List.filter_cons_of_pos (by simpa using hpos), if_pos hpos, List.foldl_cons]
  · rw [List.filter_cons_of_neg (by simpa using hpos), if_neg hpos]

/-- **The position after the bars**: the mark and the stop as running extremes, and the rest as it was. -/
theorem trailed_eq (hc : Configured c) (hopen : p.isFlat = false) (hatr : ∀ x ∈ xs, 0 < x.2) :
    trailed c p xs = levelled p
      (if xs = [] then p.highWaterMark else some ((xs.map fun x => extreme p.isLong x.1).foldl (best p.isLong) (anchor p)))
      ((prices (justified c p.isLong (anchor p) xs)).foldl (keep p.isLong) p.stopLossPrice) := by
  induction xs generalizing p with
  | nil => rfl
  | cons x xs ih =>
    obtain ⟨bar, atr⟩ := x
    obtain ⟨hfirst, hrest⟩ := List.forall_mem_cons.1 hatr
    let a := best p.isLong (anchor p) (extreme p.isLong bar)
    let q := levelled p (some a) (raised p.isLong p.stopLossPrice (hung c p.isLong a atr))
    have hq : trailed c p ((bar, atr) :: xs) = trailed c q xs := trailed_cons hc hopen bar hfirst xs
    have hside : q.isLong = p.isLong := rfl
    have hanchor : anchor q = a := rfl
    rw [hq, ih (p := q) hopen hrest, hside, hanchor, if_neg (List.cons_ne_nil _ _), List.map_cons, List.foldl_cons]
    have hstop : (prices (justified c p.isLong (anchor p) ((bar, atr) :: xs))).foldl (keep p.isLong) p.stopLossPrice =
        (prices (justified c p.isLong a xs)).foldl (keep p.isLong) q.stopLossPrice := foldl_prices _ _ _ _
    rw [hstop]
    unfold levelled
    congr 1
    cases xs with
    | nil => rfl
    | cons y ys => rw [if_neg (List.cons_ne_nil _ _)]

theorem anchor_trailed (hc : Configured c) (hopen : p.isFlat = false) (hatr : ∀ x ∈ xs, 0 < x.2) :
    anchor (trailed c p xs) = (xs.map fun x => extreme p.isLong x.1).foldl (best p.isLong) (anchor p) := by
  rw [trailed_eq hc hopen hatr]
  cases xs with
  | nil => rfl
  | cons x xs =>
    rw [if_neg (List.cons_ne_nil _ _)]
    rfl

theorem trailed_concat (x : Bar × ℚ) : trailed c p (xs ++ [x]) = (exec (updateTrailing x.1 c (some x.2)) (trailed c p xs)).2 := by
  unfold trailed
  rw [List.foldl_append]
  rfl

/-- The stop a call left is no further from the price than the one it found. -/
theorem noBetter_raised {long : Bool} {current level : ℚ} : ∃ s, raised long (some current) level = some s ∧ NoBetter long current s := by
  unfold raised
  split
  · exact ⟨_, rfl, noBetter_best long current level⟩
  · exact ⟨_, rfl, noBetter_refl long current⟩

/-- **A trailing stop is the best level ever justified.** -/
theorem trailing_best (c : StopConfig) (hc : Configured c) (p : Position) (hopen : p.isFlat = false) (xs : List (Bar × ℚ))
    (hatr : ∀ x ∈ xs, 0 < x.2) :
    let q := trailed c p xs
    let levels := prices (justified c p.isLong (anchor p) xs)
    -- the mark
    IsBest p.isLong {m | m = anchor p ∨ ∃ x ∈ xs, m = extreme p.isLong x.1} (anchor q) ∧
    (xs ≠ [] → q.highWaterMark = some (anchor q)) ∧
    -- the stop
    (q.stopLossPrice = none ↔ p.stopLossPrice = none ∧ levels = []) ∧
    (∀ stop, q.stopLossPrice = some stop → IsBest p.isLong {s | p.stopLossPrice = some s ∨ s ∈ levels} stop) ∧
    -- the next call
    ∀ bar atr, 0 < atr →
      let q' := trailed c p (xs ++ [(bar, atr)])
      exec (updateTrailing bar c (some atr)) q = (.ok (if q'.stopLossPrice = q.stopLossPrice then none else q'.stopLossPrice), q') ∧
      ∀ stop, q.stopLossPrice = some stop → ∃ stop', q'.stopLossPrice = some stop' ∧ NoBetter p.isLong stop stop' := by
  intro q levels
  have hq := trailed_eq hc hopen hatr
  have hside : q.isLong = p.isLong := by
    show (trailed c p xs).isLong = _
    rw [hq]
    rfl
  have hflat : q.isFlat = false := by
    show (trailed c p xs).isFlat = _
    rw [hq]
    exact hopen
  have hstop : q.stopLossPrice = levels.foldl (keep p.isLong) p.stopLossPrice := by
    show (trailed c p xs).stopLossPrice = _
    rw [hq]
    rfl
  have hkept := isBest_foldl_keep p.isLong p.stopLossPrice levels
  refine ⟨?_, fun hne => ?_, ?_, fun stop h => ?_, fun bar atr hpos => ?_⟩
  · have hmark := isBest_foldl p.isLong (anchor p) (xs.map fun x => extreme p.isLong x.1)
    have hset : {m | m = anchor p ∨ ∃ x ∈ xs, m = extreme p.isLong x.1} =
        {m | m = anchor p ∨ m ∈ xs.map fun x => extreme p.isLong x.1} := by
      ext m
      simp [eq_comm]
    rw [hset]
    show IsBest p.isLong _ (anchor (trailed c p xs))
    rw [anchor_trailed hc hopen hatr]
    exact hmark
  · show (trailed c p xs).highWaterMark = some (anchor (trailed c p xs))
    rw [anchor_trailed hc hopen hatr, hq, if_neg hne]
    rfl
  · rw [hstop]
    exact hkept.1
  · rw [hstop] at h
    exact hkept.2 stop h
  · intro q'
    have hstep := updateTrailing_step hc hflat bar hpos
    have hq' : q' = (exec (updateTrailing bar c (some atr)) q).2 := trailed_concat (bar, atr)
    refine ⟨?_, fun stop h => ?_⟩
    · rw [hq', hstep]
    · rw [hq', hstep, ← hside]
      show ∃ stop', raised q.isLong q.stopLossPrice _ = some stop' ∧ _
      rw [h]
      exact noBetter_raised

def tenPercent : StopConfig := { stopType := .trailingPct, value := some (1 / 10) }

def longAt100 : Position := { symbol := "AAPL", qty := 1, avgEntryPrice := 100 }

def flatBar (ts : ℤ) (price : ℚ) : Bar :=
  ⟨"AAPL", ts, .m1, price, price, price, price, 1, none, flat_inside price, flat_inside price⟩

/-- A rise to 110 and a fall back to 105, with no stop at first. -/
theorem trailing_best_rise : (trailed tenPercent longAt100 [(flatBar 0 110, 1), (flatBar 60 105, 1)]).stopLossPrice = some 99 ∧
    IsBest true {s | longAt100.stopLossPrice = some s ∨ s ∈ ([99, 99] : List ℚ)} 99 := by
  have hstop : (trailed tenPercent longAt100 [(flatBar 0 110, 1), (flatBar 60 105, 1)]).stopLossPrice = some 99 := by
    decide +kernel
  have hlevels : prices (justified tenPercent longAt100.isLong (anchor longAt100) [(flatBar 0 110, 1), (flatBar 60 105, 1)]) =
      [99, 99] := by decide +kernel
  have h := trailing_best tenPercent (.inl ⟨rfl, _, rfl, by norm_num⟩) longAt100 (by decide +kernel)
    [(flatBar 0 110, 1), (flatBar 60 105, 1)] (by decide +kernel)
  rw [hlevels] at h
  exact ⟨hstop, h.2.2.2.1 99 hstop⟩

end TrailingLevels
end Atp
