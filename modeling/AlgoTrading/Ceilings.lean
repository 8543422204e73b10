import Mathlib.Data.List.Sort
import AlgoTrading.RiskEngine
/-!
# Ceilings — the rules that measure the shape of the book

From `risk/rules.py` the five rules of `backtest_rules`: two ceilings on exposure, the cap on open positions, the daily
loss limit and buying power.  A ceiling reads the committed book, and for what the orders in flight can still do the
outcomes of `_producible_quantities`; a permission reads the settled one.
-/
namespace Atp

/-- `RiskLimits`: the fields these rules read, with what `__post_init__` checks of them. -/
structure RiskLimits where
  maxPositionPct : ℚ
  maxGrossExposurePct : ℚ
  maxDailyLossPct : ℚ
  maxOpenPositions : ℕ
  positionPct_pos : 0 < maxPositionPct
  positionPct_le : maxPositionPct ≤ 1
  grossPct_le : maxGrossExposurePct ≤ 4
  position_le_gross : maxPositionPct ≤ maxGrossExposurePct
  lossPct_pos : 0 < maxDailyLossPct
  lossPct_le : maxDailyLossPct ≤ 1
  openPositions_pos : 0 < maxOpenPositions

theorem RiskLimits.grossPct_pos (l : RiskLimits) : 0 < l.maxGrossExposurePct := l.positionPct_pos.trans_le l.position_le_gross

/-- `unmarked_symbols`. -/
def Portfolio.unmarkedSymbols (p : Portfolio) : List String :=
  ((p.positions.values.filter (fun q => !q.isFlat && q.lastPrice.isNone)).map Position.symbol).insertionSort (· ≤ ·)

namespace Ceilings

/-- The books of one validation. -/
def booksOf (p : Portfolio) (pending : List Order) : RiskBooks where
  committed := projectPending p pending
  settled := p
  inFlight := inFlightBySymbol pending

/-- `_price_for`. -/
def priceFor (o : Order) (p : Portfolio) : Option ℚ := referencePrice o.symbol p o.limitPrice

/-- `_producible_quantities`: nothing fills, every buy does, every sell does, or what is committed. -/
def producibleQuantities (symbol : String) (books : RiskBooks) : List ℚ :=
  let held := books.settled.held symbol
  let working := (books.inFlight.get? symbol).getD (0, 0)
  [held, held + working.1, held - working.2, books.committed.held symbol]

/-- The largest magnitude a list of quantities takes when they all move by `shift`. -/
def worst (shift : ℚ) (l : List ℚ) : ℚ := (l.map (fun q => |q + shift|)).foldr max 0

def signed (o : Order) : ℚ := o.qty * o.side.sign

def worstResultingQty (o : Order) (books : RiskBooks) : ℚ := worst (signed o) (producibleQuantities o.symbol books)

def worstMagnitude (symbol : String) (books : RiskBooks) : ℚ := worst 0 (producibleQuantities symbol books)

/-- `_unpriced_book`. -/
def unpricedBook (rule : String) (p : Portfolio) : Option RiskDecision :=
  match p.unmarkedSymbols with
  | [] => none
  | symbols => some (.deny rule (.lit "cannot value the book: no mark for " ::
      (symbols.map Piece.lit).intersperse (.lit ", ")))

def maxPositionSize : String := "max_position_size"

def maxGrossExposure : String := "max_gross_exposure"

def dailyLossLimit : String := "daily_loss_limit"

def maxOpenPositions : String := "max_open_positions"

def buyingPower : String := "buying_power"

/-- The start the two exposure ceilings share: a pure exit passes, and what cannot be valued is refused. -/
def valued (rule : String) (o : Order) (books : RiskBooks) (measure : ℚ → ℚ → RiskDecision) : RiskDecision :=
  if closesWithoutReversing o books.settled then .allow
  else match unpricedBook rule books.committed with
    | some denial => denial
    | none =>
      match priceFor o books.committed with
      | none => .deny rule [.lit "no price available for ", .lit o.symbol]
      | some price =>
        if books.committed.equity ≤ 0 then .deny rule [.lit "equity is ", .dec books.committed.equity]
        else measure price books.committed.equity

/-- **`MaxPositionSizeRule.check`**. -/
def maxPositionSizeCheck (o : Order) (books : RiskBooks) (limits : RiskLimits) : RiskDecision :=
  valued maxPositionSize o books fun price equity =>
    let resulting := worstResultingQty o books * price
    if limits.maxPositionPct * equity < resulting then
      .deny maxPositionSize [.lit o.symbol, .lit " would be ", .dec resulting, .lit " (", .dec (resulting / equity),
        .lit " of equity), over the ", .dec limits.maxPositionPct, .lit " cap of ", .dec (limits.maxPositionPct * equity)]
    else .allow

/-- The loop of `MaxExposureRule`: what the orders in flight can add in the other symbols, or one without a mark. -/
def addWorking (o : Order) (books : RiskBooks) : List String → ℚ → Except String ℚ
  | [], total => .ok total
  | symbol :: rest, total =>
    if symbol = o.symbol then addWorking o books rest total
    else
      let extra := worstMagnitude symbol books - |books.committed.held symbol|
      if extra ≤ 0 then addWorking o books rest total
      else match (books.committed.positions.get? symbol).bind Position.lastPrice with
        | none => .error symbol
        | some mark => addWorking o books rest (total + extra * mark)

/-- What the order leaves of its own symbol and of the rest of the committed book. -/
def ownExposure (o : Order) (books : RiskBooks) (price : ℚ) : ℚ :=
  let held := books.committed.held o.symbol
  let without := books.committed.grossExposure - |held| * price
  without + |held + signed o| * price + (worstResultingQty o books - |held + signed o|) * price

/-- **`MaxExposureRule.check`**. -/
def maxExposureCheck (o : Order) (books : RiskBooks) (limits : RiskLimits) : RiskDecision :=
  valued maxGrossExposure o books fun price equity =>
    match addWorking o books books.inFlight.keys (ownExposure o books price) with
    | .error symbol => .deny maxGrossExposure [.lit "cannot value the working quantity in ", .lit symbol, .lit ": no mark"]
    | .ok resulting =>
      if limits.maxGrossExposurePct * equity < resulting then
        .deny maxGrossExposure [.lit "gross exposure would be ", .dec resulting, .lit " (", .dec (resulting / equity),
          .lit " of equity), over the ", .dec limits.maxGrossExposurePct, .lit " cap of ",
          .dec (limits.maxGrossExposurePct * equity)]
      else .allow

/-- **`DailyLossLimitRule.check`**, against the equity the day started on. -/
def dailyLossLimitCheck (dayStart : Option ℚ) (o : Order) (books : RiskBooks) (limits : RiskLimits) : RiskDecision :=
  if reducesPosition o books.settled then .allow
  else match dayStart with
    | none => .deny dailyLossLimit [.lit "the day's starting equity has not been anchored, so the loss ",
        .lit "limit cannot be evaluated"]
    | some start =>
      if start ≤ 0 then .deny dailyLossLimit [.lit "day-start equity is ", .dec start]
      else match unpricedBook dailyLossLimit books.committed with
        | some denial => denial
        | none =>
          let change := (books.committed.equity - start) / start
          if change ≤ -limits.maxDailyLossPct then
            .deny dailyLossLimit [.lit "down ", .dec change, .lit " on the day, at or past the ",
              .dec limits.maxDailyLossPct, .lit " limit — entries are blocked, exits are not"]
          else .allow

/-- **`MaxOpenPositionsRule.check`**: a symbol the committed book holds adds nothing to the count. -/
def maxOpenPositionsCheck (o : Order) (books : RiskBooks) (limits : RiskLimits) : RiskDecision :=
  if books.committed.held o.symbol ≠ 0 then .allow
  else if limits.maxOpenPositions ≤ books.committed.openPositions.length then
    .deny maxOpenPositions [.lit "already holding ", .dec books.committed.openPositions.length,
      .lit " positions, at the limit of ", .dec limits.maxOpenPositions]
  else .allow

/-- **`BuyingPowerRule.check`**. -/
def buyingPowerCheck (o : Order) (books : RiskBooks) : RiskDecision :=
  if reducesPosition o books.settled then .allow
  else match priceFor o books.committed with
    | none => .deny buyingPower [.lit "no price available for ", .lit o.symbol]
    | some price =>
      if books.committed.cash < o.qty * price then
        .deny buyingPower [.lit o.symbol, .lit " would cost ", .dec (o.qty * price), .lit " against ",
          .dec books.committed.cash, .lit " cash"]
      else .allow

/-- `backtest_rules`; the state of the chain is the equity the day started on. -/
def backtestRules : List (RiskRule RiskLimits (Option ℚ)) := [
  { name := maxPositionSize, check := fun o books limits s => (maxPositionSizeCheck o books limits, s) },
  { name := maxGrossExposure, check := fun o books limits s => (maxExposureCheck o books limits, s) },
  { name := maxOpenPositions, check := fun o books limits s => (maxOpenPositionsCheck o books limits, s) },
  { name := dailyLossLimit, check := fun o books limits s => (dailyLossLimitCheck s o books limits, s) },
  { name := buyingPower, check := fun o books _ s => (buyingPowerCheck o books, s) }]

end Ceilings
end Atp
