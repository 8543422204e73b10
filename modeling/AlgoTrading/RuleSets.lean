import AlgoTrading.Backtest
import AlgoTrading.Indicators
/-!
# RuleSets — declarative rule specs and their interpreter

`strategy/rules.py`, as a backtest drives it: the tree of a rule set, the warm-up it asks for, what compiling refuses,
the walk of one tree over one symbol's bars and the strategy a compiled rule set is.  The walk is a program over its
memo and its trace.  A label is an f-string, kept as its pieces.  Of the `risk` block the parts a strategy reads are
modelled; a signal's reason text is not.
-/
namespace Atp
namespace Rules

open Raising Backtest

inductive PriceField
  | «open»
  | high
  | low
  | close
  | volume
deriving DecidableEq, Repr

def PriceField.value : PriceField → String
  | .open => "open"
  | .high => "high"
  | .low => "low"
  | .close => "close"
  | .volume => "volume"

def PriceField.of (bar : Bar) : PriceField → ℚ
  | .open => bar.open
  | .high => bar.high
  | .low => bar.low
  | .close => bar.close
  | .volume => bar.volume

/-- A computed value.  Of the extra params only the names matter: any is refused. -/
structure IndicatorOperand where
  indicator : String
  period : Option ℤ := none
  field : PriceField := .close
  offset : ℕ := 0
  params : List String := []
deriving DecidableEq

inductive Operand
  | indicator (x : IndicatorOperand)
  | price (field : PriceField) (offset : ℕ)
  | constant (value : ℚ)
deriving DecidableEq

inductive Comparator
  | lt
  | le
  | gt
  | ge
  | eq
  | ne
  | crossesAbove
  | crossesBelow
deriving DecidableEq, Repr

/-- `_CROSSINGS`: the comparators that read two bars. -/
def Comparator.isCrossing : Comparator → Bool
  | .crossesAbove | .crossesBelow => true
  | _ => false

/-- `_COMPARISONS`. -/
def Comparator.holds (left right : ℚ) : Comparator → Bool
  | .lt => left < right
  | .le => left ≤ right
  | .gt => right < left
  | .ge => right ≤ left
  | .eq => left = right
  | .ne => left ≠ right
  | _ => false

structure Condition where
  left : Operand
  op : Comparator
  right : Operand
deriving DecidableEq

/-- Which of `all`, `any` and `none` a group sets: the validator lets through exactly one. -/
inductive GroupKind
  | all
  | any
  | none
deriving DecidableEq, Repr

inductive ConditionNode
  | condition (c : Condition)
  | group (kind : GroupKind) (children : List ConditionNode)

structure StopSpec where
  period : Option ℤ := none

structure RiskSpec where
  stopLoss : Option StopSpec := none
  takeProfit : Option StopSpec := none
  maxHoldingBars : Option ℤ := none
  flattenAtClose : Bool := false

structure RuleSet where
  name : String
  «universe» : List String
  timeframe : Timeframe := .d1
  entryLong : Option ConditionNode := none
  entryShort : Option ConditionNode := none
  exit : Option ConditionNode := none
  risk : RiskSpec := {}
  maxConcurrentPositions : ℕ := 5
  cooldownBars : ℕ := 0

/-- `operand.period or 0`; a period below one is refused before it is used. -/
def IndicatorOperand.periodOr0 (x : IndicatorOperand) : ℕ := (x.period.getD 0).toNat

/-! ## Warm-up -/

/-- **`_operand_bars`.** -/
def operandBars : Operand → Except Exc ℕ
  | .indicator x => do
    let bars ← Dispatch.minBars x.indicator x.periodOr0
    return bars + x.offset
  | .price _ offset => return offset + 1
  | .constant _ => return 0

mutual
/-- **`_bars_needed`.** -/
def barsNeeded : ConditionNode → Except Exc ℕ
  | .condition c => do
    let left ← operandBars c.left
    let right ← operandBars c.right
    return max left right + if c.op.isCrossing then 1 else 0
  | .group _ children => barsNeededAll children

/-- The largest need among the children; none need nothing. -/
def barsNeededAll : List ConditionNode → Except Exc ℕ
  | [] => return 0
  | node :: rest => do
    let here ← barsNeeded node
    let there ← barsNeededAll rest
    return max here there
end

namespace RuleSet

/-- The trees a rule set has. -/
def trees (spec : RuleSet) : List ConditionNode := spec.entryLong.toList ++ spec.entryShort.toList ++ spec.exit.toList

/-- The ATR lookbacks of the `risk` block. -/
def stopPeriods (spec : RuleSet) : List ℤ :=
  ([spec.risk.stopLoss, spec.risk.takeProfit].filterMap fun stop => stop.bind StopSpec.period)

/-- **`required_warmup`.** -/
def requiredWarmup (spec : RuleSet) : Except Exc ℕ := do
  let needed ← barsNeededAll spec.trees
  return spec.stopPeriods.foldl (fun needed period => max needed (period + 1).toNat) needed

end RuleSet

/-! ## The interpreter -/

/-- `_label`. -/
def label : Operand → List Piece
  | .constant v => [.dec v]
  | .indicator x => [.lit x.indicator, .lit "(", .dec (x.period.getD 0), .lit ")"] ++ back x.offset
  | .price field offset => [.lit field.value] ++ back offset
where
  back (offset : ℕ) : List Piece := if offset = 0 then [] else [.lit "[-", .dec offset, .lit "]"]

/-- `_Evaluation`: the memo, and the values traced for the signal. -/
structure Evaluation where
  memo : Dict (List Piece × ℕ) (Option ℚ) := .empty
  values : Dict (List Piece) ℚ := .empty

/-- `bars[: len(bars) - offset]`; an end below zero counts from the back. -/
def cutBack (offset : ℕ) (bars : List Bar) : List Bar :=
  if offset ≤ bars.length then bars.take (bars.length - offset)
  else bars.take (bars.length - (offset - bars.length))

section
variable (sqrt : ℚ → ℚ) (bars : List Bar)

/-- **`_compute`**: truncated from the back, never the front. -/
def computeOperand (x : Operand) (back : ℕ) : Except Exc (Option ℚ) :=
  match x with
  | .constant v => .ok (some v)
  | .price field offset => .ok ((cutBack (offset + back) bars).getLast?.map fun bar => field.of bar)
  | .indicator x =>
    let window := cutBack (x.offset + back) bars
    if window = [] then .ok none else Dispatch.compute sqrt x.indicator window x.periodOr0

/-- The trace of a current-bar leg. -/
def traced (x : Operand) (back : ℕ) (found : Option ℚ) (w : Evaluation) : Evaluation :=
  match x, back, found with
  | .constant _, _, _ => w
  | _, 0, some v => { w with values := w.values.set (label x) v }
  | _, _, _ => w

/-- **`value`**: from the memo, or computed into it. -/
def value (x : Operand) (back : ℕ) : Prog Evaluation Exc (Option ℚ) := do
  let w ← get
  match w.memo.get? (label x, back) with
  | some found =>
    modify (traced x back found)
    return found
  | none =>
    let found ← fromExcept (computeOperand sqrt bars x back)
    modify fun w => { w with memo := w.memo.set (label x, back) found }
    modify (traced x back found)
    return found

/-- A crossing is a transition: the other side, or level, on the bar before. -/
def crossed (op : Comparator) (wasLeft wasRight left right : ℚ) : Bool :=
  if op = .crossesAbove then wasLeft ≤ wasRight && right < left else wasRight ≤ wasLeft && left < right

/-- **`_compare`.** -/
def compare (c : Condition) : Prog Evaluation Exc (Option Bool) := do
  let left ← value sqrt bars c.left 0
  let right ← value sqrt bars c.right 0
  match left, right with
  | some l, some r =>
    if c.op.isCrossing then
      let wasLeft ← value sqrt bars c.left 1
      let wasRight ← value sqrt bars c.right 1
      match wasLeft, wasRight with
      | some wl, some wr => return some (crossed c.op wl wr l r)
      | _, _ => return none
    else return some (c.op.holds l r)
  | _, _ => return none

/-- What a group answers: one verdict may settle it, whatever is unknown. -/
def groupVerdict (kind : GroupKind) (verdicts : List (Option Bool)) : Option Bool :=
  match kind with
  | .all => if some false ∈ verdicts then some false else if none ∈ verdicts then none else some true
  | .any => if some true ∈ verdicts then some true else if none ∈ verdicts then none else some false
  | .none => if some true ∈ verdicts then some false else if none ∈ verdicts then none else some true

mutual
/-- **`verdict`.** -/
def verdict : ConditionNode → Prog Evaluation Exc (Option Bool)
  | .condition c => compare sqrt bars c
  | .group kind children => do
    let verdicts ← verdicts children
    return groupVerdict kind verdicts

/-- Every child's, in order. -/
def verdicts : List ConditionNode → Prog Evaluation Exc (List (Option Bool))
  | [] => return []
  | node :: rest => do
    let here ← verdict node
    let there ← verdicts rest
    return here :: there
end

end

/-! ## Compilation -/

def refused (site : String) (message : List Piece) : Exc := ⟨.invalidRuleError, [.lit site, .lit ": "] ++ message⟩

/-- `_refuse_operand`. -/
def refuseOperand (site : String) : Operand → Except Exc Unit
  | .indicator x =>
    if x.indicator ∉ Dispatch.knownIndicators then
      .error (refused site [.lit "unknown indicator '", .lit x.indicator, .lit "'"])
    else if !x.period.any (1 ≤ ·) then
      .error (refused site [.lit "indicator '", .lit x.indicator, .lit "' needs a period of at least 1"])
    else if x.field ≠ .close then
      .error (refused site [.lit "'", .lit x.indicator, .lit "' on '", .lit x.field.value, .lit "' is not available"])
    else if x.params ≠ [] then
      .error (refused site [.lit "'", .lit x.indicator, .lit "' takes no extra params"])
    else .ok ()
  | _ => .ok ()

mutual
/-- `_refuse_node`. -/
def refuseNode (site : String) : ConditionNode → Except Exc Unit
  | .condition c => do
    refuseOperand site c.left
    refuseOperand site c.right
  | .group _ [] => .error (refused site [.lit "an empty condition group is never what was meant"])
  | .group _ (child :: children) => do
    refuseNode site child
    refuseNodes site children

def refuseNodes (site : String) : List ConditionNode → Except Exc Unit
  | [] => .ok ()
  | node :: rest => do
    refuseNode site node
    refuseNodes site rest
end

/-- **`_refuse_what_cannot_run`.** -/
def refuseWhatCannotRun (spec : RuleSet) : Except Exc Unit := do
  refuseNodes "entry_long" spec.entryLong.toList
  refuseNodes "entry_short" spec.entryShort.toList
  refuseNodes "exit" spec.exit.toList
  if spec.risk.flattenAtClose then .error ⟨.invalidRuleError, [.lit "flatten_at_close is not modelled yet"]⟩
  else .ok ()

/-- A compiled rule set: its spec and the window its bars are read in. -/
structure RuleSetStrategy where
  spec : RuleSet
  window : ℕ

/-- **`compile_ruleset`**, with the constructor of the strategy: the window is the warm-up, and the current bar at
least. -/
def compileRuleset (spec : RuleSet) : Except Exc RuleSetStrategy := do
  refuseWhatCannotRun spec
  let warmup ← spec.requiredWarmup
  return { spec := spec, window := max warmup 1 }

/-! ## The strategy -/

/-- The bar counters, and how many signals were built. -/
structure Counters where
  seen : Dict String ℕ := .empty
  enteredAt : Dict String ℕ := .empty
  exitedAt : Dict String ℕ := .empty
  drawn : ℕ := 0

/-- `history`: the last `lookback` completed bars, refused while there are fewer. -/
def history (visible : List Bar) (lookback : ℕ) : Option (List Bar) :=
  if visible.length < lookback then none else some (Ta.lastSlice lookback visible)

/-- `_track`. -/
def Counters.track (symbol : String) (index : ℕ) (flat : Bool) (c : Counters) : Counters :=
  if flat then
    match c.enteredAt.get? symbol with
    | none => c
    | some _ => { c with enteredAt := c.enteredAt.erase symbol, exitedAt := c.exitedAt.set symbol index }
  else { c with enteredAt := c.enteredAt.setdefault symbol index }

section
variable (sqrt : ℚ → ℚ) (signalId : ℕ → String) (x : RuleSetStrategy)

/-- `_signal`. -/
def signal (ctx : BacktestContext) (bar : Bar) (action : SignalAction) : Prog Counters Exc (List Signal) := do
  let c ← get
  modify fun c => { c with drawn := c.drawn + 1 }
  return [{ strategyId := x.spec.name, symbol := bar.symbol, action := action, ts := ctx.now, id := signalId c.drawn }]

/-- A walk of one tree from an empty memo, for its verdict. -/
def walk (bars : List Bar) (tree : ConditionNode) : Except Exc (Option Bool) := (exec (verdict sqrt bars tree) {}).1

/-- `_exit_signals`. -/
def exitSignals (ctx : BacktestContext) (bar : Bar) (bars : List Bar) (index : ℕ) : Prog Counters Exc (List Signal) := do
  let c ← get
  let overheld := match x.spec.risk.maxHoldingBars, c.enteredAt.get? bar.symbol with
    | some limit, some entered => decide (limit ≤ (index : ℤ) - entered)
    | _, _ => false
  if overheld then signal signalId x ctx bar .exit
  else
    match x.spec.exit with
    | none => return []
    | some tree =>
      let held ← fromExcept (walk sqrt bars tree)
      if held = some true then signal signalId x ctx bar .exit else return []

/-- `_open_positions`: over the set of the universe's symbols. -/
def openPositions (ctx : BacktestContext) : ℕ :=
  (x.spec.universe.dedup.filter fun symbol => !(ctx.portfolio.position symbol).isFlat).length

/-- `_entry_signals`. -/
def entrySignals (ctx : BacktestContext) (bar : Bar) (bars : List Bar) (index : ℕ) : Prog Counters Exc (List Signal) := do
  let c ← get
  let cooling := (c.exitedAt.get? bar.symbol).any fun exited => (index : ℤ) - exited < x.spec.cooldownBars
  if cooling then return []
  else if x.spec.maxConcurrentPositions ≤ openPositions x ctx then return []
  else
    let long ← match x.spec.entryLong with
      | none => pure none
      | some tree => fromExcept (walk sqrt bars tree)
    if long = some true then signal signalId x ctx bar .enterLong
    else
      let short ← match x.spec.entryShort with
        | none => pure none
        | some tree => fromExcept (walk sqrt bars tree)
      if short = some true then signal signalId x ctx bar .enterShort else return []

/-- **`on_bar`.** -/
def onBar (ctx : BacktestContext) (bar : Bar) : Prog Counters Exc (List Signal) := do
  if bar.symbol ∉ x.spec.universe then return []
  else
    let c ← get
    let index := (c.seen.get? bar.symbol).getD 0 + 1
    let flat := (ctx.portfolio.position bar.symbol).isFlat
    modify fun c => ({ c with seen := c.seen.set bar.symbol index }).track bar.symbol index flat
    match history (ctx.visible bar.symbol) x.window with
    | none => return []
    | some bars =>
      if flat then entrySignals sqrt signalId x ctx bar bars index
      else exitSignals sqrt signalId x ctx bar bars index

end

end Rules
end Atp
