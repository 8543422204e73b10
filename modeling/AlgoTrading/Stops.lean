import AlgoTrading.Market
import AlgoTrading.Position
import AlgoTrading.Raising
/-!
# Stops — protective levels and when a bar reaches them

`risk/stops.py`.  The levels are computed from a `StopConfig`; what a bar triggers is read from the levels armed on the
position.  `updateTrailing` is a program over the position because it moves the high-water mark before it may raise.
-/
namespace Atp

open Raising

def StopType.value : StopType → String
  | .fixedPct => "fixed_pct"
  | .fixedAmount => "fixed_amount"
  | .trailingPct => "trailing_pct"
  | .atr => "atr"
  | .time => "time"
  | .chandelier => "chandelier"

/-- `TRAILING_TYPES`. -/
def StopType.isTrailing : StopType → Bool
  | .trailingPct | .chandelier => true
  | _ => false

/-- `FROM_ENTRY_TYPES`. -/
def StopType.fromEntry : StopType → Bool
  | .fixedPct | .fixedAmount => true
  | _ => false

structure StopConfig where
  stopType : StopType
  value : Option ℚ := none
  multiplier : Option ℚ := none
  period : ℕ := 14
  bars : Option ℤ := none
  brokerSide : Bool := true
deriving DecidableEq

/-- `_require`: a configured number that is there and positive. -/
def requirePositive (value : Option ℚ) (field : String) (config : StopConfig) : Except Exc ℚ :=
  match value with
  | none => .error ⟨.valueError, [.lit config.stopType.value, .lit " stops need `", .lit field, .lit "`"]⟩
  | some x =>
    if x ≤ 0 then
      .error ⟨.valueError, [.lit config.stopType.value, .lit " `", .lit field, .lit "` must be positive, got ", .dec x]⟩
    else .ok x

/-- `_guard_level`: a protective level has to be a real price. -/
def guardLevel (level : ℚ) (what : List Piece) : Except Exc ℚ :=
  if level ≤ 0 then .error ⟨.valueError, what ++ [.lit " of ", .dec level, .lit " is not a price"]⟩ else .ok level

/-- A positive ATR, or the refusal to default one. -/
def requireAtr (atr : Option ℚ) (config : StopConfig) : Except Exc ℚ :=
  match atr with
  | none => .error ⟨.valueError, [.lit config.stopType.value, .lit " stops need a positive ATR, got ", .lit "None"]⟩
  | some x =>
    if x ≤ 0 then
      .error ⟨.valueError, [.lit config.stopType.value, .lit " stops need a positive ATR, got ", .dec x]⟩
    else .ok x

/-- **`initial_stop`**: below the entry for a long, above it for a short. -/
def initialStop (entryPrice : ℚ) (side : Side) (config : StopConfig) (atr : Option ℚ) : Except Exc ℚ :=
  let direction : ℚ := -side.sign
  let guarded (level : ℚ) := guardLevel level [.lit config.stopType.value, .lit " stop"]
  match config.stopType with
  | .time =>
    .error ⟨.valueError, [.lit "a time stop has no price level — it exits after a number of ",
      .lit "bars regardless of price. Use time_exit_due()"]⟩
  | .fixedPct | .trailingPct => do
    let pct ← requirePositive config.value "value" config
    guarded (entryPrice * (1 + direction * pct))
  | .fixedAmount => do
    let amount ← requirePositive config.value "value" config
    guarded (entryPrice + direction * amount)
  | .atr | .chandelier => do
    let multiplier ← requirePositive config.multiplier "multiplier" config
    let atr ← requireAtr atr config
    guarded (entryPrice + direction * multiplier * atr)

/-- `take_profit_level`: mirrored from entry, for the fixed distances only. -/
def takeProfitLevel (entryPrice : ℚ) (side : Side) (config : StopConfig) : Except Exc ℚ :=
  if !config.stopType.fromEntry then
    .error ⟨.valueError, [.lit "a take-profit must be a fixed distance from entry; ", .lit config.stopType.value,
      .lit " describes when to exit, not where. Use fixed_amount, fixed_pct"]⟩
  else do
    let value ← requirePositive config.value "value" config
    let direction : ℚ := side.sign
    guardLevel (if config.stopType = .fixedPct then entryPrice * (1 + direction * value)
      else entryPrice + direction * value) [.lit "take-profit"]

/-- The extreme a trailing stop hangs from, with this bar in it. -/
def trailingAnchor (p : Position) (bar : Bar) : ℚ :=
  let anchor := p.highWaterMark.getD p.avgEntryPrice
  if p.isLong then max anchor bar.high else min anchor bar.low

def trailingCandidate (long : Bool) (anchor : ℚ) (config : StopConfig) (atr : Option ℚ) : Except Exc ℚ :=
  let direction : ℚ := if long then -1 else 1
  if config.stopType = .trailingPct then do
    let pct ← requirePositive config.value "value" config
    return anchor * (1 + direction * pct)
  else do
    let multiplier ← requirePositive config.multiplier "multiplier" config
    let atr ← requireAtr atr config
    return anchor + direction * multiplier * atr

/-- **`update_trailing`**: ratchet the stop, never away from the price. -/
def updateTrailing (bar : Bar) (config : StopConfig) (atr : Option ℚ) : Prog Position Exc (Option ℚ) := do
  let p ← get
  if config.stopType.isTrailing && !p.isFlat then
    let anchor := trailingAnchor p bar
    set { p with highWaterMark := some anchor }
    let candidate ← fromExcept (trailingCandidate p.isLong anchor config atr)
    if candidate ≤ 0 then return none
    else if p.stopLossPrice.any (fun current => if p.isLong then candidate ≤ current else current ≤ candidate) then
      return none
    else
      modify fun q => { q with stopLossPrice := some candidate }
      return some candidate
  else return none

/-- `time_exit_due`: a time stop counts bars and reads no price. -/
def timeExitDue (barsHeld : ℤ) (config : StopConfig) : Except Exc Bool :=
  if config.stopType ≠ .time then .ok false
  else match config.bars with
    | none => .error ⟨.valueError, [.lit "time stops need a positive `bars`, got ", .lit "None"]⟩
    | some bars =>
      if bars ≤ 0 then .error ⟨.valueError, [.lit "time stops need a positive `bars`, got ", .dec bars]⟩
      else .ok (decide (bars ≤ barsHeld))

/-- `should_trigger`: the bar's low for a long, its high for a short. -/
def shouldTrigger (p : Position) (bar : Bar) : Bool :=
  match p.stopLossPrice with
  | none => false
  | some stop => !p.isFlat && if p.isLong then decide (bar.low ≤ stop) else decide (stop ≤ bar.high)

def targetHit (p : Position) (bar : Bar) : Bool :=
  match p.takeProfitPrice with
  | none => false
  | some target => !p.isFlat && if p.isLong then decide (target ≤ bar.high) else decide (bar.low ≤ target)

/-- A position that differs from `p` in its high-water mark and its stop at most. -/
def Ratcheted (p q : Position) : Prop := ∃ mark stop, q = { p with highWaterMark := mark, stopLossPrice := stop }

/-- **Only the levels move**: whether it returns or raises, `update_trailing` leaves the rest of the position alone. -/
theorem updateTrailing_ratcheted (p : Position) (bar : Bar) (config : StopConfig) (atr : Option ℚ) :
    Triple (fun s => s = p) (updateTrailing bar config atr) (fun _ => Ratcheted p) (fun _ => Ratcheted p) := by
  unfold updateTrailing
  refine triple_get_bind fun r hr => ?_
  subst hr
  refine triple_ite (fun _ => ?_) (fun _ => triple_pure _ fun s hs => ⟨_, _, hs⟩)
  refine triple_bind (R := fun _ => Ratcheted r) (triple_set _ fun s _ => ⟨_, _, rfl⟩) fun _ => ?_
  refine triple_bind (R := fun _ => Ratcheted r) (triple_fromExcept _ (fun _ _ _ h => h) (fun _ _ _ h => h)) fun c => ?_
  refine triple_ite (fun _ => triple_pure _ fun s h => h) (fun _ => ?_)
  refine triple_ite (fun _ => triple_pure _ fun s h => h) (fun _ => ?_)
  refine triple_bind (R := fun _ => Ratcheted r) (triple_modify _ ?_) (fun _ => triple_pure _ fun s h => h)
  rintro s ⟨mark, stop, rfl⟩
  exact ⟨mark, some c, rfl⟩

end Atp
