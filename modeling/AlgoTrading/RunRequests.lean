import AlgoTrading.DecimalText
import AlgoTrading.Lookahead
import AlgoTrading.RuleSets
import AlgoTrading.Settling
import AlgoTrading.WorkerConfig
/-!
# RunRequests — a stored request, built into an engine or refused

`build_engine` of `backtest/runner.py` and what it resolves a `BacktestRunSpec` with.  A decimal text may spell a NaN, whose
comparison raises, or an infinity, which is positive: a request is refused by name or built sanely exactly where neither is
reached (`buildEngine_settles_iff`).
-/
namespace Atp
namespace BacktestRunner

open Decimals (Decimal Finite numDigits)
open JsonValues (Value)
open Rules (RuleSet RuleSetStrategy compileRuleset refuseWhatCannotRun)
open Settling
open Worker (compared quoted stopTypeOf)

/-- A datetime: the seconds its clock shows, and how many of them it is ahead of UTC, if it is aware. -/
structure Stamp where
  wall : ℤ
  utcoffset : Option ℤ

/-- The instant of an aware datetime. -/
def Stamp.instant (s : Stamp) : Option ℤ := s.utcoffset.map fun offset => s.wall - offset

/-- `date()`, as the midnight it begins at. -/
def Stamp.date (s : Stamp) : ℤ := s.wall / 86400 * 86400

/-- `BacktestRunSpec`. -/
structure BacktestRunSpec where
  strategyId : String
  symbols : List String
  start : Stamp
  stop : Stamp
  timeframe : String
  startingCash : String
  costModel : String
  params : Value := .dict []
  ruleset : Option Value := none
  qty : String := "100"
  sizingMethod : String := "fixed_qty"
  sizingValue : String := ""
  stopType : String := ""
  stopValue : String := ""
  stopPeriod : ℤ := 14
  stopBars : ℤ := 0

def refuse {α : Type} (message : List Piece) : Except Exc α := .error ⟨.configError, message⟩

/-! ### Decimals of a text -/

/-- `MAX_EMAX`. -/
def maxEmax : ℤ := 999999999999999999

/-- `MIN_ETINY`. -/
def minEtiny : ℤ := -1999999999999999997

/-- What a constructor holds exactly; it refuses what it would have to round. -/
def fits : Decimal → Bool
  | .finite d => minEtiny ≤ d.exponent ∧ d.exponent + numDigits d.coefficient - 1 ≤ maxEmax
  | _ => true

section
-- what a character counts as among the ASCII ones: a digit of any script is that digit, a space of any kind a space
variable (ascii : Char → Char)

/-- **`Decimal(raw)`**; `none` is `InvalidOperation`. -/
def decimalOf (raw : String) : Option Decimal := (Decimal.ofText (raw.toList.map ascii)).filter fits

/-- **`_positive_decimal`.** -/
def positiveDecimal (raw field : String) : Except Exc Decimal :=
  match decimalOf ascii raw with
  | none => refuse [.lit field, .lit " must be a decimal number, got '", .lit raw, .lit "'"]
  | some value => do
    if ← compared (value.le? 0) then refuse [.lit field, .lit " must be positive, got ", .lit raw]
    else return value

/-! ### What a request resolves to -/

def known (values : List String) : Piece := .lit (String.intercalate ", " values)

/-- **`parse_spec_dates`.** -/
def parseSpecDates (spec : BacktestRunSpec) : Except Exc (Stamp × Stamp) :=
  match spec.start.instant with
  | none => refuse [.lit "backtest start must be timezone-aware (CLAUDE.md §1.2)"]
  | some start =>
    match spec.stop.instant with
    | none => refuse [.lit "backtest end must be timezone-aware (CLAUDE.md §1.2)"]
    | some stop =>
      if stop ≤ start then
        refuse [.lit "backtest start must be before end (", .ts spec.start.date, .lit " >= ", .ts spec.stop.date, .lit ")"]
      else .ok (spec.start, spec.stop)

/-- `Timeframe(value)`. -/
def timeframeOf (s : String) : Option Timeframe :=
  [Timeframe.m1, .m5, .m15, .m30, .h1, .h4, .d1].find? fun t => Backtest.Timeframe.label t = s

/-- `SIZING_METHODS`, sorted. -/
def sizingMethods : List String := ["equity_pct", "fixed_notional", "fixed_qty", "risk_pct", "volatility_target"]

/-- The names of `COST_MODELS`, sorted. -/
def costModels : List String := ["alpaca_equities", "zero"]

/-- `STOP_TYPES`, sorted. -/
def stopTypes : List String := ["atr", "chandelier", "fixed_amount", "fixed_pct", "time", "trailing_pct"]

/-- `_MULTIPLIER_TYPES`. -/
def multiplied : StopType → Bool
  | .atr | .chandelier => true
  | _ => false

/-- `StopConfig`, with its numbers as they were read. -/
structure StopConfig where
  stopType : StopType
  value : Option Decimal := none
  multiplier : Option Decimal := none
  period : ℤ := 14
  bars : Option ℤ := none
  brokerSide : Bool

/-- **`resolve_stop_config`.** -/
def resolveStopConfig (spec : BacktestRunSpec) : Except Exc (Option StopConfig) :=
  if spec.stopType = "" then .ok none
  else
    match stopTypeOf spec.stopType with
    | none => refuse [.lit "stop_type must be one of: ", known stopTypes]
    | some stopType =>
      if stopType = .time then
        if spec.stopBars ≤ 0 then refuse [.lit "a time stop needs a positive stop_bars"]
        else .ok (some { stopType := .time, bars := some spec.stopBars, brokerSide := false })
      else if spec.stopValue = "" then refuse [.lit "a ", .lit spec.stopType, .lit " stop needs stop_value"]
      else do
        let value ← positiveDecimal ascii spec.stopValue "stop_value"
        if spec.stopPeriod ≤ 0 then refuse [.lit "stop_period must be positive, got ", .dec spec.stopPeriod]
        else
          return some
            { stopType := stopType
              value := if multiplied stopType then none else some value
              multiplier := if multiplied stopType then some value else none
              period := spec.stopPeriod
              brokerSide := false }

def BacktestRunSpec.method (spec : BacktestRunSpec) : String := if spec.sizingMethod = "" then "fixed_qty" else spec.sizingMethod

def BacktestRunSpec.sizeText (spec : BacktestRunSpec) : String := if spec.sizingValue = "" then spec.qty else spec.sizingValue

/-- **`resolve_sizing`.** -/
def resolveSizing (spec : BacktestRunSpec) : Except Exc (String × Decimal) :=
  if spec.method ∉ sizingMethods then refuse [.lit "sizing_method must be one of: ", known sizingMethods]
  else return (spec.method, ← positiveDecimal ascii spec.sizeText "sizing_value")

/-- A type of this name cannot be made. -/
def nulNamed (rules : RuleSet) : Bool := rules.name.toList.contains (Char.ofNat 0)

/-- **`compile_ruleset`**, with the class it makes: a name with a null character raises as it is set. -/
def compile (rules : RuleSet) : Except Exc RuleSetStrategy := do
  refuseWhatCannotRun rules
  if nulNamed rules then .error ⟨.valueError, [.lit "type name must not contain null characters"]⟩
  else compileRuleset rules

inductive Strategy (σ : Type)
  | compiled (rules : RuleSetStrategy)
  | coded (strategy : σ)

variable {σ L : Type}
-- `RuleSet.model_validate`, which raises a `ValidationError` and nothing else, and the registered classes
variable (modelValidate : Value → Except (List Piece) RuleSet) (registry : Dict String (Value → Except Exc σ))

/-- What `compile_ruleset` raises, raised as where it came from, if it is an `ATPError`. -/
def compiledStrategy (rules : RuleSet) : Except Exc (Strategy σ) :=
  match compile rules with
  | .ok strategy => .ok (.compiled strategy)
  | .error e =>
    if e.cls.isA .atpError then refuse ([.lit "the run's stored rule set does not compile: "] ++ e.message) else .error e

/-- **`_resolve_strategy`.** -/
def resolveStrategy (spec : BacktestRunSpec) : Except Exc (Strategy σ) :=
  match spec.ruleset with
  | some stored =>
    match modelValidate stored with
    | .error text => refuse ([.lit "the run's stored rule set is malformed: "] ++ text)
    | .ok rules => compiledStrategy rules
  | none =>
    match registry.get? spec.strategyId with
    | none =>
      .error ⟨.strategyError, [.lit "unknown strategy '", .lit spec.strategyId, .lit "'; registered: ", Worker.listed registry.keys]⟩
    | some cls =>
      match cls spec.params with
      | .ok strategy => .ok (.coded strategy)
      | .error e => refuse ([.lit "strategy rejected its params: "] ++ e.message)

/-- What `BacktestEngine` is built of. -/
structure EngineParts (σ L : Type) where
  strategy : Strategy σ
  symbols : List String
  start : Stamp
  stop : Stamp
  timeframe : Timeframe
  startingCash : Decimal
  costModel : String
  limits : L
  withRules : Bool
  method : String
  sizingValue : Decimal
  stopConfig : Option StopConfig

/-- **`build_engine`.** -/
def buildEngine (limits : L) (withRules : Bool) (spec : BacktestRunSpec) : Except Exc (EngineParts σ L) := do
  let window ← parseSpecDates spec
  match timeframeOf spec.timeframe with
  | none => refuse [.lit "timeframe must be one of: ", known ["1m", "5m", "15m", "30m", "1h", "4h", "1d"]]
  | some timeframe =>
    if spec.costModel ∉ costModels then refuse [.lit "cost_model must be one of: ", known costModels]
    else if spec.symbols = [] then refuse [.lit "a backtest needs at least one symbol"]
    else
      let cash ← positiveDecimal ascii spec.startingCash "starting_cash"
      let sizing ← resolveSizing ascii spec
      let strategy ← resolveStrategy modelValidate registry spec
      let stopConfig ← resolveStopConfig ascii spec
      return {
        strategy := strategy
        symbols := spec.symbols
        start := window.1
        stop := window.2
        timeframe := timeframe
        startingCash := cash
        costModel := spec.costModel
        limits := limits
        withRules := withRules
        method := sizing.1
        sizingValue := sizing.2
        stopConfig := stopConfig }

/-! ### Refused by name, or sane -/

/-- An `ATPError`. -/
def Named (e : Exc) : Prop := e.cls.isA .atpError = true

/-- A finite positive number. -/
def Proper (d : Decimal) : Prop := ∃ x, d = .finite x ∧ 0 < x.value

/-- **A sane engine**: its amounts are finite and positive, and its window is one. -/
structure Sane (e : EngineParts σ L) : Prop where
  cash : Proper e.startingCash
  sizing : Proper e.sizingValue
  stop : ∀ c ∈ e.stopConfig, ∀ x, c.value = some x ∨ c.multiplier = some x → Proper x
  window : ∃ a ∈ e.start.instant, ∃ b ∈ e.stop.instant, a < b

/-- A text of a NaN. -/
def Nan (raw : String) : Prop := decimalOf ascii raw = some .nan

/-- A text of a positive infinity. -/
def Unbounded (raw : String) : Prop := decimalOf ascii raw = some (.infinity false)

/-- A text of what is above zero. -/
def Admitted (raw : String) (d : Decimal) : Prop := decimalOf ascii raw = some d ∧ d.le? 0 = some false

/-- What is above zero is a number, or infinite. -/
theorem proper_iff {raw : String} {d : Decimal} (h : Admitted ascii raw d) : Proper d ↔ ¬Unbounded ascii raw := by
  obtain ⟨hread, habove⟩ := h
  unfold Unbounded
  rw [hread, Option.some_inj]
  cases d with
  | finite x =>
    have hpos : 0 < x.value := by simpa [Decimals.Decimal.le?] using habove
    refine iff_of_true ⟨x, rfl, hpos⟩ ?_
    exact Decimal.noConfusion
  | infinity negative =>
    cases negative with
    | true => cases habove
    | false =>
      refine iff_of_false ?_ fun h => h rfl
      rintro ⟨x, hx, -⟩
      cases hx
  | nan => cases habove

theorem invalidOperation_unnamed (message : List Piece) : ¬Named ⟨.invalidOperation, message⟩ := Bool.false_ne_true

@[simp] theorem named_refusal (message : List Piece) : Named ⟨.configError, message⟩ := rfl

/-- **A decimal of a text, exactly**: what raises is a NaN, and what is returned is above zero. -/
theorem settles_positiveDecimal {P : Decimal → Prop} (raw field : String) :
    Settles Named P (positiveDecimal ascii raw field) ↔ ¬Nan ascii raw ∧ ∀ d, Admitted ascii raw d → P d := by
  unfold positiveDecimal Nan Admitted
  cases hread : decimalOf ascii raw with
  | none =>
    refine iff_of_true (settles_error.2 (named_refusal _)) ⟨(fun h => nomatch h), fun d hd => ?_⟩
    cases hd.1
  | some value =>
    dsimp only
    rw [settles_bind, Option.some_inj]
    cases hle : value.le? 0 with
    | none =>
      have hnan : value = .nan := by
        cases value <;> first
          | rfl
          | cases hle
      rw [hnan]
      refine iff_of_false (fun h => ?_) fun h => h.1 rfl
      exact invalidOperation_unnamed _ (settles_error.1 h)
    | some b =>
      have hnumber : value ≠ .nan := by
        rintro rfl
        cases hle
      rw [and_iff_right hnumber]
      refine Iff.trans settles_ok ?_
      cases b with
      | true =>
        refine iff_of_true (settles_error.2 (named_refusal _)) fun d hd => ?_
        obtain ⟨hd, habove⟩ := hd
        cases hd
        rw [hle] at habove
        cases habove
      | false =>
        refine Iff.trans settles_ok ⟨fun h d hd => ?_, fun h => h value ⟨rfl, hle⟩⟩
        cases hd.1
        exact h

/-! ### The steps of a build -/

/-- Both ends are aware, and the window is one. -/
def Windowed (spec : BacktestRunSpec) : Prop := ∃ a ∈ spec.start.instant, ∃ b ∈ spec.stop.instant, a < b

theorem settles_parseSpecDates {P : Stamp × Stamp → Prop} (spec : BacktestRunSpec) :
    Settles Named P (parseSpecDates spec) ↔ (Windowed spec → P (spec.start, spec.stop)) := by
  unfold parseSpecDates Windowed
  cases hstart : spec.start.instant with
  | none => exact iff_of_true (settles_error.2 (named_refusal _)) fun ⟨a, ha, _⟩ => nomatch ha
  | some start =>
    cases hstop : spec.stop.instant with
    | none => exact iff_of_true (settles_error.2 (named_refusal _)) fun ⟨_, _, b, hb, _⟩ => nomatch hb
    | some stop =>
      dsimp only
      refine Iff.trans (settles_unless (named_refusal _)) ?_
      rw [settles_ok, not_le]
      refine imp_congr_left ⟨fun h => ⟨start, rfl, stop, rfl, h⟩, ?_⟩
      rintro ⟨a, ⟨⟩, b, ⟨⟩, h⟩
      exact h

theorem settles_resolveSizing {P : String × Decimal → Prop} (spec : BacktestRunSpec) :
    Settles Named P (resolveSizing ascii spec) ↔
      (spec.method ∈ sizingMethods → ¬Nan ascii spec.sizeText ∧ ∀ d, Admitted ascii spec.sizeText d → P (spec.method, d)) := by
  unfold resolveSizing
  refine Iff.trans (settles_unless (named_refusal _)) ?_
  rw [not_not, settles_bind, settles_positiveDecimal]
  simp only [pure, Except.pure, settles_ok]

/-! What a rule set is refused with is an `ATPError`. -/

theorem refuseOperand_named (site : String) (x : Rules.Operand) : Settles Named (fun _ => True) (Rules.refuseOperand site x) := by
  cases x with
  | indicator x =>
    unfold Rules.refuseOperand
    dsimp only
    split_ifs <;> first
      | exact settles_error.2 rfl
      | exact settles_ok.2 trivial
  | price _ _ => exact settles_ok.2 trivial
  | constant _ => exact settles_ok.2 trivial

mutual

theorem refuseNode_named (site : String) : ∀ node, Settles Named (fun _ => True) (Rules.refuseNode site node)
  | .condition c => (refuseOperand_named site c.left).bind fun _ _ => refuseOperand_named site c.right
  | .group _ [] => settles_error.2 rfl
  | .group _ (child :: children) => (refuseNode_named site child).bind fun _ _ => refuseNodes_named site children

theorem refuseNodes_named (site : String) : ∀ nodes, Settles Named (fun _ => True) (Rules.refuseNodes site nodes)
  | [] => settles_ok.2 trivial
  | node :: rest => (refuseNode_named site node).bind fun _ _ => refuseNodes_named site rest

end

theorem refuseWhatCannotRun_named (rules : RuleSet) : Settles Named (fun _ => True) (refuseWhatCannotRun rules) := by
  refine (refuseNodes_named _ _).bind fun _ _ => (refuseNodes_named _ _).bind fun _ _ => ?_
  refine (refuseNodes_named _ _).bind fun _ _ => ?_
  split
  · exact settles_error.2 rfl
  · exact settles_ok.2 trivial

theorem operandBars_named (x : Rules.Operand) : Settles Named (fun _ => True) (Rules.operandBars x) := by
  cases x with
  | indicator x =>
    refine Settles.bind (P := fun _ => True) ?_ fun _ _ => settles_ok.2 trivial
    unfold Dispatch.minBars
    split
    · exact settles_error.2 rfl
    · exact settles_ok.2 trivial
  | price _ _ => exact settles_ok.2 trivial
  | constant _ => exact settles_ok.2 trivial

mutual

theorem barsNeeded_named : ∀ node, Settles Named (fun _ => True) (Rules.barsNeeded node)
  | .condition c =>
    (operandBars_named c.left).bind fun _ _ => (operandBars_named c.right).bind fun _ _ => settles_pure trivial
  | .group _ children => barsNeededAll_named children

theorem barsNeededAll_named : ∀ nodes, Settles Named (fun _ => True) (Rules.barsNeededAll nodes)
  | [] => settles_ok.2 trivial
  | node :: rest => (barsNeeded_named node).bind fun _ _ => (barsNeededAll_named rest).bind fun _ _ => settles_pure trivial

end

theorem compileRuleset_named (rules : RuleSet) : Settles Named (fun _ => True) (compileRuleset rules) := by
  refine (refuseWhatCannotRun_named rules).bind fun _ _ => ?_
  refine Settles.bind (P := fun _ => True) ?_ fun _ _ => settles_ok.2 trivial
  exact (barsNeededAll_named _).bind fun _ _ => settles_pure trivial

/-- A rule set that could be compiled, and is named so that its class cannot be made. -/
def Nameless (rules : RuleSet) : Prop := refuseWhatCannotRun rules = .ok () ∧ nulNamed rules = true

theorem compile_named_iff (rules : RuleSet) : Settles Named (fun _ => True) (compile rules) ↔ ¬Nameless rules := by
  unfold compile Nameless
  rw [settles_bind]
  cases hrefused : refuseWhatCannotRun rules with
  | error e => exact iff_of_true (settles_error.2 (settles_error.1 (hrefused ▸ refuseWhatCannotRun_named rules))) fun h => nomatch h.1
  | ok u =>
    rw [settles_ok]
    by_cases hnul : nulNamed rules = true
    · rw [if_pos hnul, settles_error]
      exact iff_of_false Bool.false_ne_true fun h => h ⟨rfl, hnul⟩
    · rw [if_neg hnul]
      exact iff_of_true (compileRuleset_named rules) fun h => hnul h.2

/-- **The stored rule set of a request is valid, can run, and is named so that its class cannot be made.** -/
def NamelessRules (spec : BacktestRunSpec) : Prop :=
  ∃ stored ∈ spec.ruleset, ∃ rules, modelValidate stored = .ok rules ∧ Nameless rules

theorem settles_compiled (rules : RuleSet) :
    Settles Named (fun _ => True) (compiledStrategy rules : Except Exc (Strategy σ)) ↔ ¬Nameless rules := by
  unfold compiledStrategy
  rw [← compile_named_iff]
  cases compile rules with
  | ok strategy => exact iff_of_true (settles_ok.2 trivial) (settles_ok.2 trivial)
  | error e =>
    dsimp only
    rw [settles_error]
    by_cases he : e.cls.isA .atpError = true
    · rw [if_pos he]
      exact iff_of_true (settles_error.2 (named_refusal _)) he
    · rw [if_neg he]
      exact settles_error

/-- **A request's strategy is resolved or refused by name**, unless its rules are named so that no class can be made. -/
theorem resolveStrategy_named_iff (spec : BacktestRunSpec) :
    Settles Named (fun _ => True) (resolveStrategy modelValidate registry spec) ↔ ¬NamelessRules modelValidate spec := by
  unfold resolveStrategy NamelessRules
  cases spec.ruleset with
  | none =>
    refine iff_of_true ?_ fun ⟨_, h, _⟩ => nomatch h
    cases registry.get? spec.strategyId with
    | none => exact settles_error.2 rfl
    | some cls =>
      dsimp only
      cases cls spec.params with
      | ok strategy => exact settles_ok.2 trivial
      | error e => exact settles_error.2 (named_refusal _)
  | some stored =>
    dsimp only
    cases hvalid : modelValidate stored with
    | error text =>
      refine iff_of_true (settles_error.2 (named_refusal _)) ?_
      rintro ⟨_, ⟨⟩, rules, hrules, -⟩
      rw [hvalid] at hrules
      cases hrules
    | ok rules =>
      rw [settles_compiled, not_iff_not]
      refine ⟨fun h => ⟨stored, rfl, rules, hvalid, h⟩, ?_⟩
      rintro ⟨_, ⟨⟩, rules', hrules, h⟩
      rw [hvalid] at hrules
      cases hrules
      exact h

theorem settles_resolveStrategy {P : Strategy σ → Prop} (spec : BacktestRunSpec) :
    Settles Named P (resolveStrategy modelValidate registry spec) ↔
      ¬NamelessRules modelValidate spec ∧ ∀ s, resolveStrategy modelValidate registry spec = .ok s → P s := by
  rw [← resolveStrategy_named_iff modelValidate registry]
  exact and_congr_left fun _ => (and_iff_left fun _ _ => trivial).symm

/-- **The request asks for a stop that is a level**, and gives it a number. -/
def ReadsLevel (spec : BacktestRunSpec) : Prop := ∃ t ∈ stopTypeOf spec.stopType, t ≠ .time ∧ spec.stopValue ≠ ""

/-- The stop it asks for is not refused: none, a time stop of some bars, or a level of a number above zero. -/
def StopAllowed (spec : BacktestRunSpec) : Prop :=
  spec.stopType = "" ∨ (stopTypeOf spec.stopType = some .time ∧ 0 < spec.stopBars) ∨
    (ReadsLevel spec ∧ (∃ d, Admitted ascii spec.stopValue d) ∧ 0 < spec.stopPeriod)

/-- The numbers a stop was configured with are finite and positive. -/
def StopSane (stop : Option StopConfig) : Prop := ∀ c ∈ stop, ∀ x, c.value = some x ∨ c.multiplier = some x → Proper x

theorem stopSane_level (t : StopType) (period : ℤ) (x : Decimal) :
    StopSane (some ⟨t, if multiplied t then none else some x, if multiplied t then some x else none, period, none, false⟩) ↔ Proper x := by
  constructor
  · intro h
    refine h _ rfl x ?_
    cases multiplied t with
    | true => exact .inr rfl
    | false => exact .inl rfl
  · rintro h _ ⟨⟩ y hy
    have hyx : x = y := by
      cases hm : multiplied t with
      | true => simpa [hm] using hy
      | false => simpa [hm] using hy
    exact hyx ▸ h

theorem settles_resolveStopConfig {A : Prop} (spec : BacktestRunSpec) :
    Settles Named (fun stop => A ∧ StopSane stop) (resolveStopConfig ascii spec) ↔
      (ReadsLevel spec → ¬Nan ascii spec.stopValue) ∧
        (StopAllowed ascii spec → A ∧ (ReadsLevel spec → ¬Unbounded ascii spec.stopValue)) := by
  have hempty : stopTypeOf "" = none := by decide
  unfold resolveStopConfig
  by_cases htype : spec.stopType = ""
  · have hlevel : ¬ReadsLevel spec := by
      rintro ⟨t, ht, -⟩
      rw [htype, hempty] at ht
      cases ht
    rw [if_pos htype, settles_ok]
    constructor
    · exact fun h => ⟨fun hl => absurd hl hlevel, fun _ => ⟨h.1, fun hl => absurd hl hlevel⟩⟩
    · intro h
      refine ⟨(h.2 (.inl htype)).1, ?_⟩
      rintro c ⟨⟩
  · rw [if_neg htype]
    cases hstop : stopTypeOf spec.stopType with
    | none =>
      refine iff_of_true (settles_error.2 (named_refusal _)) ⟨?_, ?_⟩
      · rintro ⟨t, ht, -⟩
        rw [hstop] at ht
        cases ht
      · rintro (h | ⟨h, -⟩ | ⟨⟨t, ht, -⟩, -⟩)
        · exact absurd h htype
        · rw [hstop] at h
          cases h
        · rw [hstop] at ht
          cases ht
    | some t =>
      dsimp only
      by_cases htime : t = .time
      · have hlevel : ¬ReadsLevel spec := by
          rintro ⟨t', ht', hne, -⟩
          rw [hstop] at ht'
          cases ht'
          exact hne htime
        have hallowed : StopAllowed ascii spec ↔ 0 < spec.stopBars := by
          unfold StopAllowed
          rw [hstop, htime]
          simp [htype, hlevel]
        rw [if_pos htime, hallowed]
        refine Iff.trans (settles_unless (named_refusal _)) ?_
        rw [settles_ok, not_le]
        constructor
        · exact fun h => ⟨fun hl => absurd hl hlevel, fun hbars => ⟨(h hbars).1, fun hl => absurd hl hlevel⟩⟩
        · intro h hbars
          refine ⟨(h.2 hbars).1, ?_⟩
          rintro c ⟨⟩ x (hx | hx) <;> cases hx
      · rw [if_neg htime]
        have hlevel : ReadsLevel spec ↔ spec.stopValue ≠ "" := by
          constructor
          · exact fun ⟨_, _, _, h⟩ => h
          · exact fun h => ⟨t, hstop, htime, h⟩
        have hallowed : StopAllowed ascii spec ↔
            spec.stopValue ≠ "" ∧ (∃ d, Admitted ascii spec.stopValue d) ∧ 0 < spec.stopPeriod := by
          unfold StopAllowed
          rw [hlevel, hstop, Option.some_inj]
          simp [htype, htime]
        rw [hallowed, hlevel]
        refine Iff.trans (settles_unless (named_refusal _)) ?_
        rw [settles_bind, settles_positiveDecimal]
        have hthen (d : Decimal) (hd : Admitted ascii spec.stopValue d) :
            Settles Named (fun stop => A ∧ StopSane stop)
              (if spec.stopPeriod ≤ 0 then refuse [.lit "stop_period must be positive, got ", .dec spec.stopPeriod]
                else return some ⟨t, if multiplied t then none else some d, if multiplied t then some d else none,
                  spec.stopPeriod, none, false⟩) ↔ (0 < spec.stopPeriod → A ∧ ¬Unbounded ascii spec.stopValue) := by
          refine Iff.trans (settles_unless (named_refusal _)) ?_
          rw [not_le, ← proper_iff ascii hd, ← stopSane_level t spec.stopPeriod d]
          exact imp_congr_right fun _ => settles_ok
        constructor
        · intro h
          refine ⟨fun hvalue => (h hvalue).1, ?_⟩
          rintro ⟨hvalue, ⟨d, hd⟩, hperiod⟩
          have hread := (hthen d hd).1 ((h hvalue).2 d hd) hperiod
          exact ⟨hread.1, fun _ => hread.2⟩
        · intro h hvalue
          refine ⟨h.1 hvalue, fun d hd => (hthen d hd).2 fun hperiod => ?_⟩
          have hread := h.2 ⟨hvalue, ⟨d, hd⟩, hperiod⟩
          exact ⟨hread.1, hread.2 hvalue⟩

/-! ### The build -/

/-- The request names a window, a timeframe, a cost model and a symbol. -/
def Opened (spec : BacktestRunSpec) : Prop :=
  Windowed spec ∧ timeframeOf spec.timeframe ≠ none ∧ spec.costModel ∈ costModels ∧ spec.symbols ≠ []

/-- And its starting cash is above zero, and its sizing method is known. -/
def Funded (spec : BacktestRunSpec) : Prop :=
  Opened spec ∧ (∃ d, Admitted ascii spec.startingCash d) ∧ spec.method ∈ sizingMethods

/-- And its sizing value is above zero. -/
def Sized (spec : BacktestRunSpec) : Prop := Funded ascii spec ∧ ∃ d, Admitted ascii spec.sizeText d

/-- And its strategy is one. -/
def Planned (spec : BacktestRunSpec) : Prop := Sized ascii spec ∧ ∃ s, resolveStrategy modelValidate registry spec = .ok s

/-- **No text of a request is read that is no number.**  What is read as the checks before it pass is no NaN, the name of a
stored rule set has no null character, and a request that passes them all has no infinity. -/
structure Numeric (spec : BacktestRunSpec) : Prop where
  cash : Opened spec → ¬Nan ascii spec.startingCash
  sizing : Funded ascii spec → ¬Nan ascii spec.sizeText
  rules : Sized ascii spec → ¬NamelessRules modelValidate spec
  stop : Planned ascii modelValidate registry spec → ReadsLevel spec → ¬Nan ascii spec.stopValue
  bounded : Planned ascii modelValidate registry spec → StopAllowed ascii spec →
    ¬Unbounded ascii spec.startingCash ∧ ¬Unbounded ascii spec.sizeText ∧ (ReadsLevel spec → ¬Unbounded ascii spec.stopValue)

theorem Numeric.of_unopened {spec : BacktestRunSpec} (h : ¬Opened spec) : Numeric ascii modelValidate registry spec where
  cash hopen := absurd hopen h
  sizing hfunded := absurd hfunded.1 h
  rules hsized := absurd hsized.1.1 h
  stop hplanned := absurd hplanned.1.1.1 h
  bounded hplanned := absurd hplanned.1.1.1 h

/-- What an opened request settles under, check by check. -/
theorem numeric_iff {spec : BacktestRunSpec} (hopen : Opened spec) : Numeric ascii modelValidate registry spec ↔
    ¬Nan ascii spec.startingCash ∧ ∀ cash, Admitted ascii spec.startingCash cash → spec.method ∈ sizingMethods →
      ¬Nan ascii spec.sizeText ∧ ∀ size, Admitted ascii spec.sizeText size →
        ¬NamelessRules modelValidate spec ∧ ∀ s, resolveStrategy modelValidate registry spec = .ok s →
          (ReadsLevel spec → ¬Nan ascii spec.stopValue) ∧
            (StopAllowed ascii spec → (Proper cash ∧ Proper size) ∧ (ReadsLevel spec → ¬Unbounded ascii spec.stopValue)) := by
  constructor
  · intro h
    refine ⟨h.cash hopen, fun cash hcash hmethod => ?_⟩
    have hfunded : Funded ascii spec := ⟨hopen, ⟨cash, hcash⟩, hmethod⟩
    refine ⟨h.sizing hfunded, fun size hsize => ?_⟩
    have hsized : Sized ascii spec := ⟨hfunded, size, hsize⟩
    refine ⟨h.rules hsized, fun s hs => ?_⟩
    have hplanned : Planned ascii modelValidate registry spec := ⟨hsized, s, hs⟩
    refine ⟨h.stop hplanned, fun hallowed => ?_⟩
    obtain ⟨hbcash, hbsize, hbstop⟩ := h.bounded hplanned hallowed
    exact ⟨⟨(proper_iff ascii hcash).2 hbcash, (proper_iff ascii hsize).2 hbsize⟩, hbstop⟩
  · rintro ⟨hcash, hrest⟩
    constructor
    case cash => exact fun _ => hcash
    case sizing =>
      rintro ⟨-, ⟨cash, hc⟩, hmethod⟩
      exact (hrest cash hc hmethod).1
    case rules =>
      rintro ⟨⟨-, ⟨cash, hc⟩, hmethod⟩, size, hsize⟩
      exact ((hrest cash hc hmethod).2 size hsize).1
    case stop =>
      rintro ⟨⟨⟨-, ⟨cash, hc⟩, hmethod⟩, size, hsize⟩, s, hs⟩
      exact (((hrest cash hc hmethod).2 size hsize).2 s hs).1
    case bounded =>
      rintro ⟨⟨⟨-, ⟨cash, hc⟩, hmethod⟩, size, hsize⟩, s, hs⟩ hallowed
      obtain ⟨⟨hpcash, hpsize⟩, hbstop⟩ := (((hrest cash hc hmethod).2 size hsize).2 s hs).2 hallowed
      exact ⟨(proper_iff ascii hc).1 hpcash, (proper_iff ascii hsize).1 hpsize, hbstop⟩

/-- **A request is refused by name or builds a sane engine exactly where no text is read that is no number.** -/
theorem buildEngine_settles_iff (limits : L) (withRules : Bool) (spec : BacktestRunSpec) :
    Settles Named Sane (buildEngine ascii modelValidate registry limits withRules spec) ↔ Numeric ascii modelValidate registry spec := by
  unfold buildEngine
  rw [settles_bind, settles_parseSpecDates]
  by_cases hwindow : Windowed spec
  · rw [imp_iff_right hwindow]
    cases htimeframe : timeframeOf spec.timeframe with
    | none => exact iff_of_true (settles_error.2 (named_refusal _)) (Numeric.of_unopened _ _ _ fun h => h.2.1 htimeframe)
    | some timeframe =>
      dsimp only
      by_cases hcost : spec.costModel ∈ costModels
      · by_cases hsymbols : spec.symbols = []
        · rw [if_neg (not_not.2 hcost), if_pos hsymbols]
          exact iff_of_true (settles_error.2 (named_refusal _)) (Numeric.of_unopened _ _ _ fun h => h.2.2.2 hsymbols)
        · have hopen : Opened spec := ⟨hwindow, by rw [htimeframe]; exact Option.some_ne_none _, hcost, hsymbols⟩
          rw [if_neg (not_not.2 hcost), if_neg hsymbols, numeric_iff ascii modelValidate registry hopen, settles_bind,
            settles_positiveDecimal]
          refine and_congr_right fun _ => forall_congr' fun cash => imp_congr_right fun _ => ?_
          rw [settles_bind, settles_resolveSizing]
          refine imp_congr_right fun _ => and_congr_right fun _ => forall_congr' fun size => imp_congr_right fun _ => ?_
          rw [settles_bind, settles_resolveStrategy]
          refine and_congr_right fun _ => forall_congr' fun s => imp_congr_right fun _ => ?_
          rw [settles_bind, ← settles_resolveStopConfig]
          refine settles_congr fun stop _ => Iff.trans settles_ok ?_
          constructor
          · exact fun h => ⟨⟨h.cash, h.sizing⟩, h.stop⟩
          · exact fun h => ⟨h.1.1, h.1.2, h.2, hwindow⟩
      · rw [if_pos hcost]
        exact iff_of_true (settles_error.2 (named_refusal _)) (Numeric.of_unopened _ _ _ fun h => hcost h.2.2.1)
  · exact iff_of_true (fun h => absurd h hwindow) (Numeric.of_unopened _ _ _ fun h => hwindow h.1)

end

/-! ### Two requests -/

/-- A registry of one strategy, which takes any parameters. -/
def holding : Dict String (Value → Except Exc Unit) := (Dict.empty).set "hold" fun _ => .ok ()

/-- A request for a day of one symbol. -/
def aDay (startingCash : List Char) : BacktestRunSpec where
  strategyId := "hold"
  symbols := ["AAPL"]
  start := ⟨0, some 0⟩
  stop := ⟨86400, some 0⟩
  timeframe := "1d"
  startingCash := String.ofList startingCash
  costModel := "zero"
  qty := String.ofList ['5']

/-- A validator that takes no rule set. -/
def noRules (_ : Value) : Except (List Piece) RuleSet := .error []

theorem decimalOf_chars (ascii : Char → Char) (chars : List Char) :
    decimalOf ascii (String.ofList chars) = (Decimal.ofText (chars.map ascii)).filter fits := by
  unfold decimalOf
  rw [String.toList_ofList]

/-- All that such a request can be refused for is its cash. -/
theorem aDay_built (startingCash : List Char) : buildEngine id noRules holding () true (aDay startingCash) =
    positiveDecimal id (String.ofList startingCash) "starting_cash" >>= fun cash =>
      .ok ⟨.coded (), ["AAPL"], ⟨0, some 0⟩, ⟨86400, some 0⟩, .d1, cash, "zero", (), true, "fixed_qty", .finite ⟨false, 5, 0⟩, none⟩ := by
  have hfive : decimalOf id (String.ofList ['5']) = some (.finite ⟨false, 5, 0⟩) := by
    rw [decimalOf_chars]
    decide +kernel
  have hpositive : positiveDecimal id (String.ofList ['5']) "sizing_value" = .ok (.finite ⟨false, 5, 0⟩) := by
    unfold positiveDecimal
    rw [hfive]
    decide +kernel
  have hsizing : resolveSizing id (aDay startingCash) = .ok ("fixed_qty", .finite ⟨false, 5, 0⟩) := by
    show (positiveDecimal id (String.ofList ['5']) "sizing_value" >>= fun d => .ok ("fixed_qty", d)) = _
    rw [hpositive]
    rfl
  have hwindow : parseSpecDates (aDay startingCash) = .ok (⟨0, some 0⟩, ⟨86400, some 0⟩) := rfl
  have htimeframe : timeframeOf (aDay startingCash).timeframe = some .d1 := by
    show timeframeOf "1d" = _
    decide +kernel
  have hcost : ¬(aDay startingCash).costModel ∉ costModels := by
    show ¬"zero" ∉ costModels
    decide +kernel
  have hsymbols : (aDay startingCash).symbols ≠ [] := List.cons_ne_nil _ _
  have hregistered : holding.get? (aDay startingCash).strategyId = some fun _ => .ok () := Dict.get?_set_self _ _ _
  have hstrategy : resolveStrategy noRules holding (aDay startingCash) = .ok (.coded ()) := by
    unfold resolveStrategy
    rw [show (aDay startingCash).ruleset = none from rfl, hregistered]
  have hstop : resolveStopConfig id (aDay startingCash) = .ok none := if_pos rfl
  unfold buildEngine
  rw [hwindow, htimeframe, hsizing, hstrategy, hstop]
  simp only [if_neg hcost, if_neg hsymbols]
  dsimp only [aDay]
  cases positiveDecimal id (String.ofList startingCash) "starting_cash" <;> rfl

/-- **A cash of `NaN` raises what is no `ATPError`, and one of `Infinity` builds an engine with it.** -/
theorem cash_unnumbered :
    (∃ e, buildEngine id noRules holding () true (aDay ['N', 'a', 'N']) = .error e ∧ ¬Named e) ∧
      ∃ engine, buildEngine id noRules holding () true (aDay ['I', 'n', 'f', 'i', 'n', 'i', 't', 'y']) = .ok engine ∧
        engine.startingCash = .infinity false := by
  have hnan : decimalOf id (String.ofList ['N', 'a', 'N']) = some .nan := by
    rw [decimalOf_chars]
    decide +kernel
  have hinfinity : decimalOf id (String.ofList ['I', 'n', 'f', 'i', 'n', 'i', 't', 'y']) = some (.infinity false) := by
    rw [decimalOf_chars]
    decide +kernel
  constructor
  · rw [aDay_built]
    unfold positiveDecimal
    rw [hnan]
    exact ⟨_, rfl, invalidOperation_unnamed _⟩
  · rw [aDay_built]
    unfold positiveDecimal
    rw [hinfinity]
    exact ⟨_, rfl, rfl⟩

end BacktestRunner
end Atp
