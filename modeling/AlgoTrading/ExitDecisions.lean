import AlgoTrading.BacktestExits
import AlgoTrading.Tracking
/-!
# ExitDecisions — the runner and the backtest on the same bar

Both ratchet a trailing stop and then ask the position what the bar is due.  Each decision is taken apart here into what it
computes, and `exits_alike_iff` says on which inputs the two agree.
-/
namespace Atp

open Raising

/-! ## The trailing update -/

/-- The distance a trailing stop needs is there and positive: its percentage, or its multiplier and the ATR. -/
def Ratchetable (c : StopConfig) (atr : Option ℚ) : Prop :=
  c.stopType.isTrailing = true →
    if c.stopType = .trailingPct then ∃ x, c.value = some x ∧ 0 < x
    else (∃ x, c.multiplier = some x ∧ 0 < x) ∧ ∃ x, atr = some x ∧ 0 < x

/-- A refusal of `risk/stops.py`. -/
def Refused {α : Type} (x : Except Exc α) : Prop := ∃ e, x = .error e ∧ e.cls = .valueError

theorem requirePositive_cases (value : Option ℚ) (field : String) (c : StopConfig) :
    (∃ x, requirePositive value field c = .ok x ∧ value = some x ∧ 0 < x) ∨
      Refused (requirePositive value field c) ∧ ¬ ∃ x, value = some x ∧ 0 < x := by
  unfold requirePositive
  cases value with
  | none => exact .inr ⟨⟨_, rfl, rfl⟩, by simp⟩
  | some x =>
    by_cases hx : x ≤ 0
    · simp only [if_pos hx]
      exact .inr ⟨⟨_, rfl, rfl⟩, by simpa using hx⟩
    · simp only [if_neg hx]
      exact .inl ⟨x, rfl, rfl, not_le.1 hx⟩

theorem requireAtr_cases (atr : Option ℚ) (c : StopConfig) :
    (∃ x, requireAtr atr c = .ok x ∧ atr = some x ∧ 0 < x) ∨ Refused (requireAtr atr c) ∧ ¬ ∃ x, atr = some x ∧ 0 < x := by
  unfold requireAtr
  cases atr with
  | none => exact .inr ⟨⟨_, rfl, rfl⟩, by simp⟩
  | some x =>
    by_cases hx : x ≤ 0
    · simp only [if_pos hx]
      exact .inr ⟨⟨_, rfl, rfl⟩, by simpa using hx⟩
    · simp only [if_neg hx]
      exact .inl ⟨x, rfl, rfl, not_le.1 hx⟩

theorem trailingCandidate_cases (long : Bool) (anchor : ℚ) {c : StopConfig} (atr : Option ℚ) (htrail : c.stopType.isTrailing = true) :
    (∃ x, trailingCandidate long anchor c atr = .ok x ∧ Ratchetable c atr) ∨
      Refused (trailingCandidate long anchor c atr) ∧ ¬ Ratchetable c atr := by
  unfold trailingCandidate
  by_cases hpct : c.stopType = .trailingPct
  · simp only [if_pos hpct]
    rcases requirePositive_cases c.value "value" c with ⟨x, hx, hvalue⟩ | ⟨⟨e, he, hcls⟩, hvalue⟩
    · rw [hx]
      refine .inl ⟨_, rfl, fun _ => ?_⟩
      rw [if_pos hpct]
      exact ⟨x, hvalue⟩
    · rw [he]
      refine .inr ⟨⟨e, rfl, hcls⟩, fun h => hvalue ?_⟩
      have hdistance := h htrail
      rwa [if_pos hpct] at hdistance
  · simp only [if_neg hpct]
    have hmissing (h : Ratchetable c atr) : (∃ x, c.multiplier = some x ∧ 0 < x) ∧ ∃ x, atr = some x ∧ 0 < x := by
      have hdistance := h htrail
      rwa [if_neg hpct] at hdistance
    rcases requirePositive_cases c.multiplier "multiplier" c with ⟨m, hm, hmultiplier⟩ | ⟨⟨e, he, hcls⟩, hmultiplier⟩
    · rw [hm]
      rcases requireAtr_cases atr c with ⟨a, ha, hatr⟩ | ⟨⟨e, he, hcls⟩, hatr⟩
      · refine .inl ⟨_, by rw [ha]; rfl, fun _ => ?_⟩
        rw [if_neg hpct]
        exact ⟨⟨m, hmultiplier⟩, a, hatr⟩
      · exact .inr ⟨⟨e, by rw [he]; rfl, hcls⟩, fun h => hatr (hmissing h).2⟩
    · rw [he]
      exact .inr ⟨⟨e, rfl, hcls⟩, fun h => hmultiplier (hmissing h).1⟩

/-- **The update of an open position raises exactly where its distance cannot be computed**, and then raises `ValueError`. -/
theorem updateTrailing_cases {p : Position} (hopen : p.qty ≠ 0) (bar : Bar) (c : StopConfig) (atr : Option ℚ) :
    (∃ x, (exec (updateTrailing bar c atr) p).1 = .ok x ∧ Ratchetable c atr) ∨
      Refused (exec (updateTrailing bar c atr) p).1 ∧ ¬ Ratchetable c atr := by
  have hflat : p.isFlat = false := by simpa [Position.isFlat] using hopen
  unfold updateTrailing
  rw [exec_bind, exec_get]
  dsimp only
  by_cases htrail : c.stopType.isTrailing = true
  · rw [if_pos (by simp [htrail, hflat]), exec_bind, exec_set]
    dsimp only
    rw [exec_bind, exec_fromExcept]
    rcases trailingCandidate_cases p.isLong (trailingAnchor p bar) atr htrail with ⟨x, hx, hr⟩ | ⟨⟨e, he, hcls⟩, hr⟩
    · rw [hx]
      dsimp only
      by_cases hfloor : x ≤ 0
      · rw [if_pos hfloor]
        exact .inl ⟨_, rfl, hr⟩
      rw [if_neg hfloor]
      by_cases hstays : (p.stopLossPrice.any fun current =>
          if p.isLong then decide (x ≤ current) else decide (current ≤ x)) = true
      · rw [if_pos hstays]
        exact .inl ⟨_, rfl, hr⟩
      · rw [if_neg hstays, exec_bind, exec_modify]
        exact .inl ⟨_, rfl, hr⟩
    · rw [he]
      exact .inr ⟨⟨e, rfl, hcls⟩, hr⟩
  · rw [if_neg (by simp [htrail])]
    exact .inl ⟨_, rfl, fun h => absurd h htrail⟩

/-! ## The two decisions -/

namespace StrategyRunner

variable {β L σ ω : Type} (w : StrategyRunner β L σ ω)

open RunnerState

/-- The position of a symbol as the ratchet leaves it, and what it raised. -/
def ratchetOf (pass : Pass σ) (s : RunnerState β σ ω) (symbol : String) (bar : Bar) : Except Exc (Option ℚ) × Position :=
  exec (updateTrailing bar w.stopConfig (pass.atr symbol)) (s.desk.portfolio.position symbol)

theorem exitReason_setPosition (pass : Pass σ) (s : RunnerState β σ ω) (symbol : String) (p q : Position) (bar : Bar) :
    w.exitReason pass (s.setPosition symbol p) q bar = w.exitReason pass s q bar := rfl

theorem updateTrailing_idle {bar : Bar} {c : StopConfig} {atr : Option ℚ} (h : c.stopType.isTrailing = false) (p : Position) :
    exec (updateTrailing bar c atr) p = (.ok none, p) := by
  unfold updateTrailing
  rw [exec_bind, exec_get]
  simp [h]

/-- **What the runner decides**: nothing when the ratchet raises, else the reason for the position it left. -/
theorem exec_decideStop (pass : Pass σ) (s : RunnerState β σ ω) (symbol : String) (bar : Bar) :
    (∀ e, (w.ratchetOf pass s symbol bar).1 = .error e → (exec (w.decideStop pass symbol bar) s).1 = .error e) ∧
      ∀ x, (w.ratchetOf pass s symbol bar).1 = .ok x →
        (exec (w.decideStop pass symbol bar) s).1 = w.exitReason pass s (w.ratchetOf pass s symbol bar).2 bar := by
  unfold ratchetOf decideStop
  cases htrail : w.stopConfig.stopType.isTrailing with
  | true =>
    simp only [if_true, exec_bind, onPosition, exec_within]
    rcases exec (updateTrailing bar w.stopConfig (pass.atr symbol)) (s.desk.portfolio.position symbol) with ⟨x, p⟩
    cases x with
    | error e =>
      refine ⟨fun e' he => ?_, fun x hx => by cases hx⟩
      cases he
      rfl
    | ok x =>
      refine ⟨fun e he => (by cases he), fun y _ => ?_⟩
      have hp : (s.setPosition symbol p).desk.portfolio.position symbol = p := by
        simp [RunnerState.setPosition, Desk.setPosition, Portfolio.setPosition, Portfolio.position]
      simp [hp, exitReason_setPosition]
  | false =>
    rw [updateTrailing_idle htrail]
    refine ⟨fun e he => (by cases he), fun x _ => ?_⟩
    simp [exec_bind]

end StrategyRunner

namespace Backtest

variable {L σ τ : Type} (eng : BacktestEngine L σ τ) (bars : Dict String (List Bar))

/-- What `_check_stops` of the engine decides for an open position, with the state it decided in. -/
def decideExit (bar : Bar) : Prog (Replay σ τ) Exc (EngineState σ τ × Option (Purpose × ℚ)) := do
  maintainTrailing eng bars bar
  let s ← observe
  let due ← fromExcept (dueExit eng (s.barsHeld.get? bar.symbol) bar (s.portfolio.position bar.symbol))
  return (s, due)

/-- What is due is executed at its price. -/
def exitAt (bar : Bar) (s : EngineState σ τ) : Option (Purpose × ℚ) → Prog (Replay σ τ) Exc PUnit
  | none => return ⟨⟩
  | some (reason, price) => do
    let o ← fromExcept (closingOrder eng (eng.newId s.drawn) bar (s.portfolio.position bar.symbol) reason).postInit
    update fun s => { s with drawn := s.drawn + 1 }
    let o' ← execute eng bars o bar price
    update (EngineState.record o')

theorem checkStops_eq (bar : Bar) : checkStops eng bars bar = (do
    let met ← observe
    note (.bar bar met)
    if (met.portfolio.position bar.symbol).isFlat then return ⟨⟩
    else decideExit eng bars bar >>= fun d => exitAt eng bars bar d.1 d.2) := by
  unfold checkStops decideExit
  refine bind_congr fun met => bind_congr fun _ => ?_
  split_ifs
  · rfl
  · simp only [bind_assoc, pure_bind]
    refine bind_congr fun _ => bind_congr fun s => bind_congr fun due => ?_
    cases due <;> rfl

theorem ratchet_eq {c : StopConfig} (h : eng.stopConfig = some c) (t : EngineState σ τ) (bar : Bar) :
    ratchet eng bars t bar = exec (updateTrailing bar c (atrOf eng bars t bar.symbol)) (t.portfolio.position bar.symbol) := by
  unfold ratchet
  rw [h]

/-- **What the engine decides**: a ratchet that refuses is let go, and the position it left is asked. -/
theorem exec_decideExit {c : StopConfig} (h : eng.stopConfig = some c) (r : Replay σ τ) (bar : Bar)
    (hopen : (r.state.portfolio.position bar.symbol).qty ≠ 0) :
    ((exec (decideExit eng bars bar) r).1.map fun d => d.2.map Prod.fst) =
      (dueExit eng (r.state.barsHeld.get? bar.symbol) bar (ratchet eng bars r.state bar).2).map (Option.map Prod.fst) := by
  have hcases := updateTrailing_cases hopen bar c (atrOf eng bars r.state bar.symbol)
  rw [← ratchet_eq eng bars h] at hcases
  obtain ⟨x, p, hratchet⟩ : ∃ x p, ratchet eng bars r.state bar = (x, p) := ⟨_, _, rfl⟩
  rw [hratchet] at hcases ⊢
  have hlet : exec (maintainTrailing eng bars bar) r =
      (.ok ⟨⟩, { r with state := { r.state with portfolio := r.state.portfolio.setPosition bar.symbol p } }) := by
    unfold maintainTrailing observe update
    simp only [exec_bind, exec_map, exec_get, exec_modify, hratchet]
    obtain ⟨y, hy, -⟩ | ⟨⟨e, he, hcls⟩, -⟩ := hcases
    · rw [show x = .ok y from hy]
      rfl
    · rw [show x = .error e from he]
      dsimp only
      rw [hcls]
      rfl
  have hp : (r.state.portfolio.setPosition bar.symbol p).position bar.symbol = p := by
    simp [Portfolio.setPosition, Portfolio.position]
  unfold decideExit observe
  simp only [exec_bind, hlet, exec_map, exec_get, exec_fromExcept, hp]
  cases dueExit eng (r.state.barsHeld.get? bar.symbol) bar p <;> rfl

/-- The time a position may be held, as a reason. -/
def timeReason (held : ℤ) (c : StopConfig) : Except Exc (Option Purpose) :=
  (fun due => if due then some .timeExit else none) <$> timeExitDue held c

theorem timeReason_ne (held : ℤ) (c : StopConfig) :
    timeReason held c ≠ .ok (some .stopLoss) ∧ timeReason held c ≠ .ok (some .takeProfit) := by
  unfold timeReason
  cases timeExitDue held c with
  | error e => exact ⟨fun h => (by cases h), fun h => (by cases h)⟩
  | ok due => cases due <;> exact ⟨fun h => (by cases h), fun h => (by cases h)⟩

theorem timeReason_other {held : ℤ} {c : StopConfig} (h : c.stopType ≠ .time) : timeReason held c = .ok none := by
  unfold timeReason timeExitDue
  rw [if_pos h]
  rfl

/-- **The engine's order of reasons**: the stop, then the target, then the time. -/
theorem dueExit_reason {c : StopConfig} (h : eng.stopConfig = some c) (n : ℕ) (bar : Bar) (p : Position) :
    (dueExit eng (some n) bar p).map (Option.map Prod.fst) =
      if shouldTrigger p bar then .ok (some .stopLoss) else if targetHit p bar then .ok (some .takeProfit)
      else timeReason n c := by
  have htime : (dueExit eng (some n) bar p).map (Option.map Prod.fst) = timeReason n c ∨ shouldTrigger p bar = true ∨
      targetHit p bar = true := by
    cases hstop : shouldTrigger p bar <;> cases htarget : targetHit p bar <;> simp only [reduceCtorEq, or_true, or_false]
    unfold dueExit timeReason
    rw [hstop, htarget, h]
    dsimp only
    cases timeExitDue n c with
    | error e => rfl
    | ok due => cases due <;> rfl
  cases hstop : shouldTrigger p bar with
  | true =>
    obtain ⟨level, hlevel⟩ : ∃ level, p.stopLossPrice = some level := by
      unfold shouldTrigger at hstop
      cases hl : p.stopLossPrice with
      | none => simp [hl] at hstop
      | some level => exact ⟨level, rfl⟩
    unfold dueExit
    rw [hstop, hlevel]
    rfl
  | false =>
    cases htarget : targetHit p bar with
    | true =>
      obtain ⟨level, hlevel⟩ : ∃ level, p.takeProfitPrice = some level := by
        unfold targetHit at htarget
        cases hl : p.takeProfitPrice with
        | none => simp [hl] at htarget
        | some level => exact ⟨level, rfl⟩
      unfold dueExit
      rw [hstop, htarget, hlevel]
      rfl
    | false => simpa [hstop, htarget] using htime

end Backtest

namespace ExitDecisions

open Backtest

variable {β L σ ω L' σ' τ : Type}

/-- **One bar, met by both**: the same configuration, open position, ATR and number of bars held. -/
structure SameBar (w : StrategyRunner β L σ ω) (eng : BacktestEngine L' σ' τ) (bars : Dict String (List Bar)) (pass : Pass σ)
    (s : RunnerState β σ ω) (r : Replay σ' τ) (bar : Bar) : Prop where
  config : eng.stopConfig = some w.stopConfig
  position : s.desk.portfolio.position bar.symbol = r.state.portfolio.position bar.symbol
  opened : (r.state.portfolio.position bar.symbol).qty ≠ 0
  atr : pass.atr bar.symbol = atrOf eng bars r.state bar.symbol
  held : ∃ n : ℕ, r.state.barsHeld.get? bar.symbol = some n ∧
    ∀ q, q.openedAt = (r.state.portfolio.position bar.symbol).openedAt → pass.barsHeld q = some n

/-- What the runner's decision needs to be the engine's: the ratchet can be computed; under a time stop the bar reaches no armed
level; and a stop the runner leaves to the venue is not reached. -/
structure Watched (w : StrategyRunner β L σ ω) (s : RunnerState β σ ω) (atr : Option ℚ) (p : Position) (bar : Bar) : Prop where
  ratchets : Ratchetable w.stopConfig atr
  time : w.stopConfig.stopType = .time → shouldTrigger p bar = false ∧ targetHit p bar = false
  venue : w.stopConfig.stopType ≠ .time → w.stopConfig.brokerSide = true → s.stopIsMissing p = false →
    shouldTrigger p bar = false

variable {w : StrategyRunner β L σ ω} {eng : BacktestEngine L' σ' τ} {bars : Dict String (List Bar)} {pass : Pass σ}
  {s : RunnerState β σ ω} {r : Replay σ' τ} {bar : Bar}

/-- `_exit_reason`, on a position held for `n` bars. -/
theorem exitReason_eq {p : Position} {n : ℤ} (h : pass.barsHeld p = some n) : w.exitReason pass s p bar =
    if w.stopConfig.stopType = .time then timeReason n w.stopConfig
    else if w.stopConfig.brokerSide && !s.stopIsMissing p then .ok (if targetHit p bar then some .takeProfit else none)
    else if shouldTrigger p bar then .ok (some .stopLoss)
    else .ok (if targetHit p bar then some .takeProfit else none) := by
  unfold StrategyRunner.exitReason timeReason
  rw [h]

/-- **Live and backtest take the same exit decision exactly when the stop is watched**: both decide after the same trailing
update of the same position. -/
theorem exits_alike_iff (h : SameBar w eng bars pass s r bar) :
    (exec (w.decideStop pass bar.symbol bar) s).1 =
        (exec (decideExit eng bars bar) r).1.map (fun d => d.2.map Prod.fst) ↔
      Watched w s (pass.atr bar.symbol) (ratchet eng bars r.state bar).2 bar := by
  obtain ⟨n, hn, hheld⟩ := h.held
  have hratchet : w.ratchetOf pass s bar.symbol bar = ratchet eng bars r.state bar := by
    rw [ratchet_eq eng bars h.config]
    unfold StrategyRunner.ratchetOf
    rw [h.position, h.atr]
  obtain ⟨hraised, hdecided⟩ := w.exec_decideStop pass s bar.symbol bar
  rw [hratchet] at hraised hdecided
  have hcases := updateTrailing_cases h.opened bar w.stopConfig (pass.atr bar.symbol)
  rw [h.atr, ← ratchet_eq eng bars h.config, ← h.atr] at hcases
  rw [exec_decideExit eng bars h.config r bar h.opened, hn, dueExit_reason eng h.config]
  obtain ⟨x, hx, hable⟩ | ⟨⟨e, he, -⟩, hunable⟩ := hcases
  · have hopened : (ratchet eng bars r.state bar).2.openedAt = (r.state.portfolio.position bar.symbol).openedAt := by
      obtain ⟨mark, stop, hp⟩ := ratchet_ratcheted eng bars r.state bar
      rw [hp]
    rw [hdecided x hx]
    generalize (ratchet eng bars r.state bar).2 = p at *
    rw [exitReason_eq (hheld p hopened)]
    obtain ⟨hstop, htarget⟩ := timeReason_ne n w.stopConfig
    by_cases htime : w.stopConfig.stopType = .time
    · rw [if_pos htime]
      constructor
      · intro heq
        refine ⟨hable, fun _ => ?_, fun hne => absurd htime hne⟩
        cases ht : shouldTrigger p bar with
        | true => exact absurd (by simpa [ht] using heq) hstop
        | false =>
          cases hh : targetHit p bar with
          | true => exact absurd (by simpa [ht, hh] using heq) htarget
          | false => exact ⟨rfl, rfl⟩
      · intro hw
        obtain ⟨ht, hh⟩ := hw.time htime
        simp [ht, hh]
    · rw [if_neg htime, timeReason_other htime]
      constructor
      · intro heq
        refine ⟨hable, fun hyes => absurd hyes htime, fun _ hbroker hmissing => ?_⟩
        cases ht : shouldTrigger p bar with
        | false => rfl
        | true => cases hh : targetHit p bar <;> simp [hbroker, hmissing, ht, hh] at heq
      · intro hw
        cases hbroker : w.stopConfig.brokerSide <;> cases hmissing : s.stopIsMissing p <;>
          cases ht : shouldTrigger p bar <;> cases hh : targetHit p bar <;> simp
        all_goals exact absurd (hw.venue htime hbroker hmissing) (by simp [ht])
  · rw [hraised e he]
    have htrail : w.stopConfig.stopType ≠ .time := by
      intro htime
      exact hunable fun htrail => by simp [htime, StopType.isTrailing] at htrail
    refine iff_of_false (fun heq => ?_) fun hw => hunable hw.ratchets
    rw [timeReason_other htrail] at heq
    split_ifs at heq

/-! ## A stop under a time limit -/

open StopRatchet (openRouter)
open Tracking (runnerOf bootedWith)

def stoppedAt95 : Dict String Position :=
  Dict.empty.set "SPY" { symbol := "SPY", qty := 10, avgEntryPrice := 100, openedAt := some 0, stopLossPrice := some 95 }

def liveWith (c : StopConfig) : StrategyRunner Unit Unit Unit Unit := { runnerOf openRouter with stopConfig := c }

def replayWith (c : StopConfig) : BacktestEngine Unit Unit ℕ := { buyThenExit with stopConfig := some c }

def secondBar : Pass Unit where
  closed := [dayBar 3 90 rat_ninety_le]
  marks := .ok []
  atr _ := none
  barsHeld _ := some 1
  lastPrice _ := none
  signals := .ok []

def replayed : Replay Unit ℕ :=
  { state := { freshBook.state with
      portfolio := { cash := 9000, startingEquity := 10000, positions := stoppedAt95 }
      barsHeld := Dict.empty.set "SPY" 1 } }

theorem secondBar_same (c : StopConfig) : SameBar (liveWith c) (replayWith c) fallingDays secondBar (bootedWith stoppedAt95)
    replayed (dayBar 3 90 rat_ninety_le) where
  config := rfl
  position := rfl
  opened := by decide +kernel
  atr := by
    show none = atrOf _ _ _ _
    unfold atrOf
    rfl
  held := ⟨1, rfl, fun _ _ => rfl⟩

def fiveBars : StopConfig := { stopType := .time, bars := some 5, brokerSide := false }

def fixedHere : StopConfig := { stopType := .fixedPct, value := some (1 / 20), brokerSide := false }

/-- The bar falls through the stop, and both leave for it. -/
theorem exits_alike_fixed : (exec ((liveWith fixedHere).decideStop secondBar "SPY" (dayBar 3 90 rat_ninety_le))
      (bootedWith stoppedAt95)).1 = .ok (some .stopLoss) ∧
    (exec ((liveWith fixedHere).decideStop secondBar "SPY" (dayBar 3 90 rat_ninety_le)) (bootedWith stoppedAt95)).1 =
      (exec (decideExit (replayWith fixedHere) fallingDays (dayBar 3 90 rat_ninety_le)) replayed).1.map
        (fun d => d.2.map Prod.fst) :=
  ⟨by decide +kernel, (exits_alike_iff (secondBar_same fixedHere)).2 ⟨fun h => by simp [liveWith, fixedHere,
    StopType.isTrailing] at h, fun h => by simp [liveWith, fixedHere] at h, fun _ h => by simp [liveWith, fixedHere] at h⟩⟩

/-- **Under a time stop an armed stop is not watched live**: the bar falls through it, the engine leaves and the runner stays. -/
theorem time_stop_ignores_levels : (¬ ∀ (w : StrategyRunner Unit Unit Unit Unit) (eng : BacktestEngine Unit Unit ℕ)
      (bars : Dict String (List Bar)) (pass : Pass Unit) (s : RunnerState Unit Unit Unit) (r : Replay Unit ℕ) (bar : Bar),
      SameBar w eng bars pass s r bar →
        s.desk.brokerSideProtectedQty (s.desk.portfolio.position bar.symbol) = 0 → w.stopConfig.brokerSide = false →
          (exec (w.decideStop pass bar.symbol bar) s).1 =
            (exec (decideExit eng bars bar) r).1.map fun d => d.2.map Prod.fst) ∧
    (exec ((liveWith fiveBars).decideStop secondBar "SPY" (dayBar 3 90 rat_ninety_le)) (bootedWith stoppedAt95)).1 = .ok none ∧
    (exec (decideExit (replayWith fiveBars) fallingDays (dayBar 3 90 rat_ninety_le)) replayed).1.map
      (fun d => d.2.map Prod.fst) = .ok (some .stopLoss) := by
  have hlive : (exec ((liveWith fiveBars).decideStop secondBar "SPY" (dayBar 3 90 rat_ninety_le))
      (bootedWith stoppedAt95)).1 = .ok none := by decide +kernel
  have hreplay : (exec (decideExit (replayWith fiveBars) fallingDays (dayBar 3 90 rat_ninety_le)) replayed).1.map
      (fun d => d.2.map Prod.fst) = .ok (some .stopLoss) := by decide +kernel
  refine ⟨fun h => ?_, hlive, hreplay⟩
  have heq := h _ _ _ _ _ _ _ (secondBar_same fiveBars) (by decide +kernel) rfl
  rw [hreplay] at heq
  exact absurd (hlive.symm.trans heq) (by decide)

end ExitDecisions
end Atp
