import AlgoTrading.Ceilings
import AlgoTrading.Decimals
import AlgoTrading.JsonValues
import AlgoTrading.Stops
/-!
# WorkerConfig — what a worker trades and risks, and what of it is refused

`risk/limits.py`, `worker/config.py` and `resolve_stop_config` of the worker's `trading.py`.  Both value objects are checked
when they are built (`__post_init__`), so a `RiskLimits` and a `WorkerConfig` here carry the proof that their check passed.
The stop a configuration resolves to is usable for every stop type but one: a time stop's bar count is never set
(`resolved_usable`).
-/
namespace Atp
namespace Worker

open Decimals (Decimal)
open JsonValues (Value)
open Raising

/-! ## Checks -/

/-- A decimal in a message. -/
def quoted : Decimal → Piece
  | .finite d => .dec d.value
  | .infinity false => .lit "Infinity"
  | .infinity true => .lit "-Infinity"
  | .nan => .lit "NaN"

/-- A decimal formatted as `:%`. -/
def percent : Decimal → List Piece
  | .finite d => [.dec (d.value * 100), .lit "%"]
  | d => [quoted d, .lit "%"]

def refuse (message : List Piece) : Except Exc Unit := .error ⟨.configError, message⟩

/-- An ordering of a decimal against a number, which a NaN raises from. -/
def compared (answer : Option Bool) : Except Exc Bool :=
  match answer with
  | some b => .ok b
  | none => .error ⟨.invalidOperation, [.lit "[<class 'decimal.InvalidOperation'>]"]⟩

/-- `sorted(...)` of a vocabulary, as a message shows it. -/
def listed (values : List String) : Piece :=
  .lit ("[" ++ String.intercalate ", " (values.map fun v => "'" ++ v ++ "'") ++ "]")

/-- `STORED_DECIMAL_PLACES`. -/
def storedDecimalPlaces : ℤ := 8

/-- `MAX_COUNT`. -/
def maxCount : ℤ := 2147483647

theorem check_seq {x : Except Exc Unit} {y : Unit → Except Exc Unit} :
    (x >>= y) = .ok () ↔ x = .ok () ∧ y () = .ok () := by
  cases x <;> simp [bind, Except.bind]

@[simp] theorem ok_bind {α β : Type} (a : α) (f : α → Except Exc β) : (Except.ok a >>= f) = f a := rfl

@[simp] theorem error_bind {α β : Type} (e : Exc) (f : α → Except Exc β) : (Except.error e >>= f) = .error e := rfl

@[simp] theorem refuse_ne_ok {m : List Piece} : refuse m ≠ .ok () := fun h => by cases h

theorem check_ite {c : Prop} [Decidable c] {m : List Piece} : (if c then refuse m else .ok ()) = .ok () ↔ ¬c := by
  by_cases h : c <;> simp [h]

/-! ## Risk limits -/

/-- The fields of `RiskLimits`, with their defaults. -/
structure RiskLimitFields where
  maxPositionPct : Decimal := .finite ⟨false, 10, -2⟩
  maxGrossExposurePct : Decimal := .finite ⟨false, 100, -2⟩
  maxDailyLossPct : Decimal := .finite ⟨false, 3, -2⟩
  maxOrdersPerMinute : ℤ := 30
  maxOpenPositions : ℤ := 20
  maxQuoteAgeSeconds : ℤ := 30
  defaultStopLossPct : Decimal := .finite ⟨false, 2, -2⟩
  defaultTakeProfitPct : Decimal := .finite ⟨false, 6, -2⟩

/-- `_check_fraction`: positive, finite, no wider than the ceiling, and storable as it is written. -/
def checkFraction (name : String) (value : Decimal) (ceiling : ℚ) (exclusive : Bool) : Except Exc Unit :=
  match value with
  | .finite d =>
    if d.value ≤ 0 then
      refuse [.lit name, .lit " must be greater than zero, got ", .dec d.value,
        .lit " — zero is not 'no limit', it is a limit nothing can satisfy"]
    else if ceiling < d.value ∨ (exclusive = true ∧ d.value = ceiling) then
      refuse [.lit name, .lit " of ", .dec d.value, .lit " is ", .dec (d.value * 100),
        .lit "% of the value it measures; this refuses anything ", .lit (if exclusive then "at or above" else "above"),
        .lit " ", .dec (ceiling * 100), .lit "%. Fractions are written as 0.10 for 10%."]
    else if storedDecimalPlaces < -d.exponent then
      refuse [.lit name, .lit " of ", .dec d.value, .lit " has more than ", .dec storedDecimalPlaces,
        .lit " decimal places, which is the precision it is stored at — the value that came back would not ",
        .lit "be the value you typed, and could fall outside the bound this just checked"]
    else .ok ()
  | value => refuse [.lit name, .lit " must be a finite number, got ", quoted value]

/-- `_check_count`: at least one, and no more than the column holds. -/
def checkCount (name : String) (value : ℤ) : Except Exc Unit :=
  if value < 1 then
    refuse [.lit name, .lit " must be at least 1, got ", .dec value,
      .lit " — zero would refuse every order rather than lifting the limit"]
  else if maxCount < value then
    refuse [.lit name, .lit " of ", .dec value, .lit " is larger than the ", .dec maxCount,
      .lit " this can store; a number that size is a slipped keystroke rather than a limit"]
  else .ok ()

/-- **`RiskLimits.__post_init__`**. -/
def RiskLimitFields.postInit (l : RiskLimitFields) : Except Exc Unit := do
  checkFraction "max_position_pct" l.maxPositionPct 1 false
  checkFraction "max_gross_exposure_pct" l.maxGrossExposurePct 4 false
  checkFraction "max_daily_loss_pct" l.maxDailyLossPct 1 false
  checkFraction "default_stop_loss_pct" l.defaultStopLossPct 1 true
  checkFraction "default_take_profit_pct" l.defaultTakeProfitPct 10 false
  checkCount "max_orders_per_minute" l.maxOrdersPerMinute
  checkCount "max_open_positions" l.maxOpenPositions
  checkCount "max_quote_age_seconds" l.maxQuoteAgeSeconds
  if ← compared (l.maxPositionPct.gt? l.maxGrossExposurePct) then
    refuse [.lit "max_position_pct of ", quoted l.maxPositionPct, .lit " lets one symbol exceed max_gross_exposure_pct of ",
      quoted l.maxGrossExposurePct, .lit ", which caps the whole book — the gross limit would refuse first, so the position ",
      .lit "limit you typed is not the one in force"]
  else .ok ()

/-- `RiskLimits`, as it can be built. -/
structure RiskLimits extends RiskLimitFields where
  valid : toRiskLimitFields.postInit = .ok ()

/-- A number in `(0, ceiling]` with at most eight decimals. -/
def Fraction (value : Decimal) (ceiling : ℚ) (exclusive : Bool) : Prop :=
  ∃ d, value = .finite d ∧ 0 < d.value ∧ d.value ≤ ceiling ∧ (exclusive = true → d.value ≠ ceiling) ∧ -8 ≤ d.exponent

theorem checkFraction_iff {name : String} {value : Decimal} {ceiling : ℚ} {exclusive : Bool} :
    checkFraction name value ceiling exclusive = .ok () ↔ Fraction value ceiling exclusive := by
  constructor
  · intro h
    unfold checkFraction at h
    cases value with
    | finite d =>
      simp only at h
      split at h
      · cases h
      · split at h
        · cases h
        · split at h
          · cases h
          · next h0 h1 h2 =>
            push Not at h0 h1 h2
            exact ⟨d, rfl, h0, h1.1, fun he => h1.2 he, by rw [storedDecimalPlaces] at h2; omega⟩
    | _ => cases h
  · rintro ⟨d, rfl, h0, h1, h2, h3⟩
    have hle : ¬storedDecimalPlaces < -d.exponent := by rw [storedDecimalPlaces]; omega
    unfold checkFraction
    simp only [not_le.2 h0, not_lt.2 h1, hle, if_false, false_or]
    rw [if_neg fun h => h2 h.1 h.2]

theorem checkCount_iff {name : String} {value : ℤ} : checkCount name value = .ok () ↔ 1 ≤ value ∧ value ≤ maxCount := by
  unfold checkCount
  split
  · simp [refuse]; omega
  · rw [check_ite]; omega

/-- What `RiskLimits.__post_init__` lets through. -/
theorem RiskLimitFields.postInit_iff {l : RiskLimitFields} : l.postInit = .ok () ↔
    Fraction l.maxPositionPct 1 false ∧ Fraction l.maxGrossExposurePct 4 false ∧ Fraction l.maxDailyLossPct 1 false ∧
    Fraction l.defaultStopLossPct 1 true ∧ Fraction l.defaultTakeProfitPct 10 false ∧
    (1 ≤ l.maxOrdersPerMinute ∧ l.maxOrdersPerMinute ≤ maxCount) ∧ (1 ≤ l.maxOpenPositions ∧ l.maxOpenPositions ≤ maxCount) ∧
    (1 ≤ l.maxQuoteAgeSeconds ∧ l.maxQuoteAgeSeconds ≤ maxCount) ∧
    compared (l.maxPositionPct.gt? l.maxGrossExposurePct) = .ok false := by
  unfold RiskLimitFields.postInit
  simp only [check_seq, checkFraction_iff, checkCount_iff]
  cases compared (l.maxPositionPct.gt? l.maxGrossExposurePct) with
  | error e => simp
  | ok b => cases b <;> simp

theorem RiskLimitFields.default_valid : ({} : RiskLimitFields).postInit = .ok () := by decide +kernel

/-- `DEFAULT_RISK_LIMITS`. -/
def defaultRiskLimits : RiskLimits where
  valid := RiskLimitFields.default_valid

/-- The number of a decimal, where it is one. -/
def number (d : Decimal) : ℚ :=
  match d with
  | .finite d => d.value
  | _ => 0

theorem Fraction.number_pos {d : Decimal} {ceiling : ℚ} {exclusive : Bool} (h : Fraction d ceiling exclusive) :
    0 < number d := by
  obtain ⟨x, rfl, h, -⟩ := h
  exact h

theorem Fraction.number_le {d : Decimal} {ceiling : ℚ} {exclusive : Bool} (h : Fraction d ceiling exclusive) :
    number d ≤ ceiling := by
  obtain ⟨x, rfl, -, h, -⟩ := h
  exact h

theorem RiskLimits.position_le_gross (l : RiskLimits) : number l.maxPositionPct ≤ number l.maxGrossExposurePct := by
  obtain ⟨⟨p, hp, -⟩, ⟨g, hg, -⟩, -, -, -, -, -, -, h⟩ := RiskLimitFields.postInit_iff.1 l.valid
  rw [hp, hg] at h ⊢
  simp only [compared, Decimal.gt?, Except.ok.injEq, decide_eq_false_iff_not, not_lt] at h
  exact h

/-- **The ceilings the rules read**, from a validated object: each of the bounds they rely on was checked. -/
def RiskLimits.ceilings (l : RiskLimits) : Atp.RiskLimits where
  maxPositionPct := number l.maxPositionPct
  maxGrossExposurePct := number l.maxGrossExposurePct
  maxDailyLossPct := number l.maxDailyLossPct
  maxOpenPositions := l.maxOpenPositions.toNat
  positionPct_pos := (RiskLimitFields.postInit_iff.1 l.valid).1.number_pos
  positionPct_le := (RiskLimitFields.postInit_iff.1 l.valid).1.number_le
  grossPct_le := (RiskLimitFields.postInit_iff.1 l.valid).2.1.number_le
  position_le_gross := l.position_le_gross
  lossPct_pos := (RiskLimitFields.postInit_iff.1 l.valid).2.2.1.number_pos
  lossPct_le := (RiskLimitFields.postInit_iff.1 l.valid).2.2.1.number_le
  openPositions_pos := by
    have := (RiskLimitFields.postInit_iff.1 l.valid).2.2.2.2.2.2.1
    omega

/-! ## The configuration -/

/-- A dictionary of parameters: a dictionary holds a key once, at every depth. -/
structure Params where
  value : Value
  distinct : JsonValues.distinct value = true

theorem empty_distinct : JsonValues.distinct (.dict []) = true := rfl

/-- `{}`. -/
def noParams : Params := ⟨.dict [], empty_distinct⟩

/-- The fields of `WorkerConfig`, with their defaults. -/
structure WorkerConfigFields where
  symbols : List String := []
  maxSilenceSeconds : ℤ := 60
  strategy : String := ""
  strategyParams : Params := noParams
  timeframe : String := "1m"
  sizingMethod : String := "risk_pct"
  sizingValue : Decimal := .finite ⟨false, 1, -2⟩
  stopType : String := "atr"
  stopMultiplier : Decimal := .finite ⟨false, 2, 0⟩
  stopPeriod : ℤ := 14
  allowLiveOrders : Bool := false
  risk : RiskLimits := defaultRiskLimits

/-- `MAX_SYMBOLS`. -/
def maxSymbols : ℕ := 100

/-- `MAX_STRATEGY_NAME`. -/
def maxStrategyName : ℕ := 36

def sizingValues : List String := ["equity_pct", "fixed_notional", "fixed_qty", "risk_pct", "volatility_target"]

def stopValues : List String := ["atr", "chandelier", "fixed_amount", "fixed_pct", "time", "trailing_pct"]

def timeframeValues : List String := ["15m", "1d", "1h", "1m", "30m", "4h", "5m"]

def multiplierStops : List String := ["atr", "chandelier"]

def fractionalStops : List String := ["fixed_pct", "trailing_pct"]

def fractionalSizing : List String := ["equity_pct", "risk_pct", "volatility_target"]

/-- `MAX_FRACTIONAL_SIZING`. -/
def maxFractionalSizing : ℚ := 1 / 10

def tickerLetter (c : Char) : Bool := decide ('A' ≤ c) && decide (c ≤ 'Z')

def tickerChar (c : Char) : Bool := tickerLetter c || (decide ('0' ≤ c) && decide (c ≤ '9')) || c == '.' || c == '-'

/-- `[A-Z][A-Z0-9.-]{0,19}`. -/
def ticker : List Char → Bool
  | [] => false
  | c :: l => tickerLetter c && decide (l.length ≤ 19) && l.all tickerChar

/-- **`SYMBOL.match`**: the `$` matches at the end, and just before a newline that ends the string. -/
def symbolMatch (s : String) : Bool :=
  ticker s.toList || (s.toList.getLast? == some '\n' && ticker s.toList.dropLast)

/-- The loop of `_check_symbols`, with the symbols it has seen. -/
def checkTickers (seen : List String) : List String → Except Exc Unit
  | [] => .ok ()
  | symbol :: l => do
    if !symbolMatch symbol then
      refuse [.lit "'", .lit symbol, .lit "' is not a ticker this platform can store: uppercase letters, digits, dot and dash, ",
        .lit "at most 20 characters"]
    else if symbol ∈ seen then refuse [.lit symbol, .lit " appears twice in the watchlist"]
    else checkTickers (symbol :: seen) l

/-- `_check_symbols`. -/
def checkSymbols (symbols : List String) : Except Exc Unit :=
  if maxSymbols < symbols.length then
    refuse [.dec symbols.length, .lit " symbols is more than the ", .dec maxSymbols,
      .lit " this accepts; a watchlist that long is usually a paste rather than a choice"]
  else checkTickers [] symbols

/-- A Python type's name, of what `json.dumps` knows. -/
def typeName : Value → String
  | .none => "NoneType"
  | .bool _ => "bool"
  | .int _ => "int"
  | .float _ => "float"
  | .str _ => "str"
  | .list _ => "list"
  | .tuple _ => "tuple"
  | .dict _ => "dict"
  | .object name => name

/-- `_check_strategy`. -/
def checkStrategy (strategy : String) (params : Value) : Except Exc Unit :=
  if maxStrategyName < strategy.length then
    refuse [.lit "strategy name is ", .dec strategy.length, .lit " characters; the strategies table stores ",
      .dec maxStrategyName]
  else match params with
    | .dict fields =>
      match JsonValues.dumps (.dict fields) with
      | .error e => refuse [.lit "strategy parameters are not storable as JSON: ", .lit e]
      | .ok _ => .ok ()
    | v => refuse [.lit "strategy parameters must be a JSON object, got ", .lit (typeName v)]

/-- `_check_timeframe`. -/
def checkTimeframe (timeframe : String) : Except Exc Unit :=
  if timeframe ∉ timeframeValues then
    refuse [.lit "unknown timeframe '", .lit timeframe, .lit "'; one of ", listed timeframeValues]
  else .ok ()

/-- `_check_storable`. -/
def checkStorable (name : String) (value : Decimal) : Except Exc Unit :=
  match value with
  | .finite d =>
    if storedDecimalPlaces < -d.exponent then
      refuse [.lit name, .lit " of ", .dec d.value, .lit " has more than ", .dec storedDecimalPlaces,
        .lit " decimal places, which is the precision it is stored at — the value that came back would not be the value ",
        .lit "you typed"]
    else .ok ()
  | value => refuse [.lit name, .lit " must be a finite number, got ", quoted value]

/-- `_check_sizing`. -/
def checkSizing (method : String) (value : Decimal) : Except Exc Unit := do
  if method ∉ sizingValues then
    refuse [.lit "unknown sizing method '", .lit method, .lit "'; one of ", listed sizingValues]
  else
    if ← compared (value.le? 0) then refuse [.lit "sizing value must be positive, got ", quoted value]
    else
      checkStorable "sizing value" value
      if ← (if method ∈ fractionalSizing then (! ·) <$> compared (value.le? maxFractionalSizing) else .ok false) then
        refuse ([.lit method, .lit " of ", quoted value, .lit " is "] ++ percent value ++
          [.lit " of equity per trade; this refuses anything above ", .dec (maxFractionalSizing * 100),
            .lit "%, because docs/RISK.md's range is 0.5 to 2% and a decimal point in the wrong place is the ",
            .lit "mistake worth catching here"])
      else .ok ()

/-- `_check_stop`. -/
def checkStop (stopType : String) (multiplier : Decimal) (period : ℤ) : Except Exc Unit := do
  if stopType ∉ stopValues then
    refuse [.lit "unknown stop type '", .lit stopType, .lit "'; one of ", listed stopValues]
  else
    if ← compared (multiplier.le? 0) then
      refuse [.lit "stop multiplier must be positive, got ", quoted multiplier,
        .lit " — a stop at or through the entry price would be hit immediately"]
    else
      if ← (if stopType ∈ fractionalStops then compared (multiplier.ge? 1) else .ok false) then
        refuse ([.lit stopType, .lit " reads the multiplier as a fraction, so ", quoted multiplier, .lit " means "] ++
          percent multiplier ++ [.lit " below entry — a level price cannot reach. Use 0.02 for 2%."])
      else
        checkStorable "stop multiplier" multiplier
        if period < 1 then refuse [.lit "stop period must be at least 1 bar, got ", .dec period] else .ok ()

/-- **`WorkerConfig.__post_init__`**.  `_check_risk` asks for a `RiskLimits`, which the field's type already is. -/
def WorkerConfigFields.postInit (c : WorkerConfigFields) : Except Exc Unit := do
  checkSymbols c.symbols
  checkStrategy c.strategy c.strategyParams.value
  checkTimeframe c.timeframe
  checkSizing c.sizingMethod c.sizingValue
  checkStop c.stopType c.stopMultiplier c.stopPeriod
  if c.maxSilenceSeconds < 1 then
    refuse [.lit "max silence must be at least 1 second, got ", .dec c.maxSilenceSeconds,
      .lit " — zero would halt trading on the first quiet moment"]
  else .ok ()

/-- `WorkerConfig`, as it can be built. -/
structure WorkerConfig extends WorkerConfigFields where
  valid : toWorkerConfigFields.postInit = .ok ()

/-! ### What the checks let through -/

/-- A positive number with at most eight decimals. -/
def Storable (value : Decimal) : Prop := ∃ d, value = .finite d ∧ 0 < d.value ∧ -8 ≤ d.exponent

theorem checkTickers_iff {l seen : List String} : checkTickers seen l = .ok () ↔
    (∀ s ∈ l, symbolMatch s = true) ∧ l.Nodup ∧ ∀ s ∈ l, s ∉ seen := by
  induction l generalizing seen with
  | nil => simp [checkTickers]
  | cons s l ih =>
    unfold checkTickers
    split
    · next h => simp [Bool.not_eq_true' _ |>.mp h]
    · next h =>
      split
      · next hs => simp [hs]
      · next hs =>
        rw [ih]
        simp only [Bool.not_eq_true, Bool.not_eq_false'] at h
        simp only [List.nodup_cons, List.mem_cons, not_or]
        grind

theorem checkSymbols_iff {l : List String} : checkSymbols l = .ok () ↔
    l.length ≤ maxSymbols ∧ (∀ s ∈ l, symbolMatch s = true) ∧ l.Nodup := by
  unfold checkSymbols
  split
  · next h => simp [h]
  · next h => simp [checkTickers_iff, not_lt.1 h]

theorem checkStrategy_iff {strategy : String} {params : Value} : checkStrategy strategy params = .ok () ↔
    strategy.length ≤ maxStrategyName ∧ ∃ fields d, params = .dict fields ∧ JsonValues.dumps params = .ok d := by
  unfold checkStrategy
  split
  · next h => simp [h]
  · next h =>
    cases params with
    | dict fields =>
      cases hd : JsonValues.dumps (.dict fields) with
      | error e => simp [hd]
      | ok d => simp [hd, not_lt.1 h]
    | _ => simp

theorem checkTimeframe_iff {timeframe : String} : checkTimeframe timeframe = .ok () ↔ timeframe ∈ timeframeValues := by
  unfold checkTimeframe
  rw [check_ite, not_not]

theorem checkStorable_iff {name : String} {value : Decimal} :
    checkStorable name value = .ok () ↔ ∃ d, value = .finite d ∧ -8 ≤ d.exponent := by
  unfold checkStorable
  cases value with
  | finite d =>
    simp only [Decimal.finite.injEq, exists_eq_left']
    rw [check_ite, storedDecimalPlaces]
    omega
  | _ => simp

theorem checkSizing_iff {method : String} {value : Decimal} : checkSizing method value = .ok () ↔
    method ∈ sizingValues ∧ Storable value ∧ (method ∈ fractionalSizing → number value ≤ maxFractionalSizing) := by
  unfold checkSizing
  by_cases hm : method ∈ sizingValues
  · cases value with
    | finite d =>
      by_cases h0 : d.value ≤ 0
      · simp [hm, compared, Decimal.le?, h0, Storable]
      · by_cases hf : method ∈ fractionalSizing <;> by_cases hle : d.value ≤ maxFractionalSizing <;>
          simp [hm, compared, Decimal.le?, h0, not_le.1 h0, Storable, check_seq, checkStorable_iff, hf, hle, number]
    | infinity s => cases s <;> simp [hm, compared, Decimal.le?, Storable, check_seq, checkStorable_iff]
    | nan => simp [hm, compared, Decimal.le?, Storable]
  · simp [hm]

theorem checkStop_iff {stopType : String} {multiplier : Decimal} {period : ℤ} :
    checkStop stopType multiplier period = .ok () ↔ stopType ∈ stopValues ∧ Storable multiplier ∧
      (stopType ∈ fractionalStops → number multiplier < 1) ∧ 1 ≤ period := by
  unfold checkStop
  by_cases hm : stopType ∈ stopValues
  · cases multiplier with
    | finite d =>
      by_cases h0 : d.value ≤ 0
      · simp [hm, compared, Decimal.le?, h0, Storable]
      · by_cases hf : stopType ∈ fractionalStops
        · by_cases hle : 1 ≤ d.value
          · simp [hm, compared, Decimal.le?, Decimal.ge?, h0, not_le.1 h0, Storable, hf, hle, number]
          · simp [hm, compared, Decimal.le?, Decimal.ge?, h0, not_le.1 h0, Storable, check_seq, checkStorable_iff, hf, hle,
              not_le.1 hle, number]
        · simp [hm, compared, Decimal.le?, h0, not_le.1 h0, Storable, check_seq, checkStorable_iff, hf]
    | infinity s => cases s <;> by_cases hf : stopType ∈ fractionalStops <;>
        simp [hm, compared, Decimal.le?, Decimal.ge?, Storable, check_seq, checkStorable_iff, hf]
    | nan => simp [hm, compared, Decimal.le?, Storable]
  · simp [hm]

/-- What every configuration that can be built satisfies. -/
structure Checked (c : WorkerConfigFields) : Prop where
  symbols : c.symbols.length ≤ maxSymbols ∧ (∀ s ∈ c.symbols, symbolMatch s = true) ∧ c.symbols.Nodup
  strategy : c.strategy.length ≤ maxStrategyName
  params : ∃ fields d, c.strategyParams.value = .dict fields ∧ JsonValues.dumps c.strategyParams.value = .ok d
  timeframe : c.timeframe ∈ timeframeValues
  sizing : c.sizingMethod ∈ sizingValues
  sizingValue : Storable c.sizingValue
  sizingFraction : c.sizingMethod ∈ fractionalSizing → number c.sizingValue ≤ maxFractionalSizing
  stop : c.stopType ∈ stopValues
  stopMultiplier : Storable c.stopMultiplier
  stopFraction : c.stopType ∈ fractionalStops → number c.stopMultiplier < 1
  stopPeriod : 1 ≤ c.stopPeriod
  silence : 1 ≤ c.maxSilenceSeconds

/-- **What `WorkerConfig.__post_init__` lets through.** -/
theorem WorkerConfigFields.postInit_iff {c : WorkerConfigFields} : c.postInit = .ok () ↔ Checked c := by
  unfold WorkerConfigFields.postInit
  simp only [check_seq, checkSymbols_iff, checkStrategy_iff, checkTimeframe_iff, checkSizing_iff, checkStop_iff, check_ite,
    not_lt]
  constructor
  · rintro ⟨h₁, ⟨h₂, h₃⟩, h₄, ⟨h₅, h₆, h₇⟩, ⟨h₈, h₉, h₁₀, h₁₁⟩, h₁₂⟩
    exact ⟨h₁, h₂, h₃, h₄, h₅, h₆, h₇, h₈, h₉, h₁₀, h₁₁, h₁₂⟩
  · rintro ⟨h₁, h₂, h₃, h₄, h₅, h₆, h₇, h₈, h₉, h₁₀, h₁₁, h₁₂⟩
    exact ⟨h₁, ⟨h₂, h₃⟩, h₄, ⟨h₅, h₆, h₇⟩, ⟨h₈, h₉, h₁₀, h₁₁⟩, h₁₂⟩

theorem WorkerConfig.checked (c : WorkerConfig) : Checked c.toWorkerConfigFields :=
  WorkerConfigFields.postInit_iff.1 c.valid

theorem WorkerConfigFields.default_valid : ({} : WorkerConfigFields).postInit = .ok () :=
  WorkerConfigFields.postInit_iff.2
    ⟨by simp [maxSymbols], by simp [maxStrategyName], ⟨[], _, rfl, rfl⟩, by decide, by decide,
      ⟨_, rfl, by decide +kernel, by decide⟩, fun _ => by decide +kernel, by decide, ⟨_, rfl, by decide +kernel, by decide⟩,
      fun h => absurd h (by decide), by decide, by decide⟩

/-! ## The stop a configuration arms -/

/-- `StopType(value)`. -/
def stopTypeOf (s : String) : Option StopType :=
  [StopType.fixedPct, .fixedAmount, .trailingPct, .atr, .time, .chandelier].find? fun t => t.value = s

/-- **`resolve_stop_config`**: one number, read as the multiple or the distance its stop type takes. -/
def resolveStopConfig (c : WorkerConfig) : Except Exc StopConfig :=
  match stopTypeOf c.stopType with
  | none => .error ⟨.valueError, [.lit "'", .lit c.stopType, .lit "' is not a valid StopType"]⟩
  | some stopType => .ok {
      stopType := stopType
      value := if c.stopType ∈ multiplierStops then none else some (number c.stopMultiplier)
      multiplier := if c.stopType ∈ multiplierStops then some (number c.stopMultiplier) else none
      period := c.stopPeriod.toNat }

/-- No call the runner and the engine make of this configuration's `StopManager` raises, but to refuse a level that is not
a price. -/
structure Usable (config : StopConfig) : Prop where
  places : config.stopType ≠ .time → ∀ price side atr, 0 < price → 0 < atr →
    ∃ level, initialStop price side config (some atr) = guardLevel level [.lit config.stopType.value, .lit " stop"]
  trails : ∀ p bar atr, 0 < atr → ∃ moved, (exec (updateTrailing bar config (some atr)) p).1 = .ok moved
  aims : config.stopType.fromEntry = true → ∀ price side, 0 < price →
    ∃ level, takeProfitLevel price side config = guardLevel level [.lit "take-profit"]
  times : ∀ held, ∃ due, timeExitDue held config = .ok due

theorem requirePositive_some {x : ℚ} (h : 0 < x) (field : String) (config : StopConfig) :
    requirePositive (some x) field config = .ok x := if_neg (not_le.2 h)

theorem requireAtr_some {x : ℚ} (h : 0 < x) (config : StopConfig) : requireAtr (some x) config = .ok x :=
  if_neg (not_le.2 h)

/-- The stop types that read a multiple of the ATR. -/
def readsMultiple : StopType → Bool
  | .atr | .chandelier => true
  | _ => false

/-- A ratchet whose candidate can be computed does not raise. -/
theorem updateTrailing_returns {p : Position} {bar : Bar} {config : StopConfig} {atr : Option ℚ}
    (h : config.stopType.isTrailing = true → ∀ long anchor, ∃ level, trailingCandidate long anchor config atr = .ok level) :
    ∃ moved, (exec (updateTrailing bar config atr) p).1 = .ok moved := by
  have hreturns : Triple (fun s => s = p) (updateTrailing bar config atr) (fun _ _ => True) (fun _ _ => False) := by
    unfold updateTrailing
    refine triple_get_bind fun q _ => triple_ite (fun ht => ?_) (fun _ => triple_pure _ fun _ _ => trivial)
    rw [Bool.and_eq_true] at ht
    obtain ⟨level, hl⟩ := h ht.1 q.isLong (trailingAnchor q bar)
    refine triple_bind (R := fun _ _ => True) (triple_set _ fun _ _ => trivial) fun _ => ?_
    refine triple_bind (R := fun _ _ => True)
      (triple_fromExcept _ (fun _ _ _ _ => trivial) fun e he _ _ => by rw [hl] at he; cases he) fun c => ?_
    refine triple_ite (fun _ => triple_pure _ fun _ _ => trivial) (fun _ => ?_)
    refine triple_ite (fun _ => triple_pure _ fun _ _ => trivial) (fun _ => ?_)
    exact triple_bind (R := fun _ _ => True) (triple_modify _ fun _ _ => trivial) fun _ => triple_pure _ fun _ _ => trivial
  have hp := hreturns p rfl
  cases hx : exec (updateTrailing bar config atr) p with
  | mk r t =>
    rw [hx] at hp
    cases r with
    | ok moved => exact ⟨moved, rfl⟩
    | error e => exact absurd hp id

/-- **A stop type that is a level is usable once its number is there and positive.** -/
theorem usable_of_number {config : StopConfig} {x : ℚ} (hx : 0 < x) (ht : config.stopType ≠ .time)
    (hn : (if readsMultiple config.stopType then config.multiplier else config.value) = some x) : Usable config := by
  obtain ⟨stopType, value, multiplier, period, bars, brokerSide⟩ := config
  refine ⟨fun _ price side atr _ ha => ?_, fun p bar atr ha => updateTrailing_returns fun htrail long anchor => ?_,
    fun hentry price side _ => ?_, fun held => ⟨false, if_pos ht⟩⟩
  · cases stopType with
    | time => exact absurd rfl ht
    | _ =>
      simp only [readsMultiple, if_true, Bool.false_eq_true, if_false] at hn
      subst hn
      simp only [initialStop, requirePositive_some hx, requireAtr_some ha, ok_bind]
      exact ⟨_, rfl⟩
  · cases stopType with
    | trailingPct =>
      simp only [readsMultiple, Bool.false_eq_true, if_false] at hn
      subst hn
      simp only [trailingCandidate, if_true, requirePositive_some hx, ok_bind]
      exact ⟨_, rfl⟩
    | chandelier =>
      simp only [readsMultiple, if_true] at hn
      subst hn
      simp only [trailingCandidate, reduceCtorEq, if_false, requirePositive_some hx, requireAtr_some ha, ok_bind]
      exact ⟨_, rfl⟩
    | _ => cases htrail
  · cases stopType with
    | fixedPct | fixedAmount =>
      simp only [readsMultiple, Bool.false_eq_true, if_false] at hn
      subst hn
      simp only [takeProfitLevel, hentry, Bool.not_true, Bool.false_eq_true, if_false, requirePositive_some hx, ok_bind]
      exact ⟨_, rfl⟩
    | _ => cases hentry

theorem Storable.number_pos {d : Decimal} (h : Storable d) : 0 < number d := by
  obtain ⟨x, rfl, h, -⟩ := h
  exact h

theorem stopTypeOf_checked {s : String} (h : s ∈ stopValues) (ht : s ≠ "time") :
    ∃ t, stopTypeOf s = some t ∧ t ≠ .time ∧ readsMultiple t = decide (s ∈ multiplierStops) := by
  simp only [stopValues, List.mem_cons, List.not_mem_nil, or_false] at h
  rcases h with rfl | rfl | rfl | rfl | rfl | rfl
  · exact ⟨.atr, by decide, by decide, by decide⟩
  · exact ⟨.chandelier, by decide, by decide, by decide⟩
  · exact ⟨.fixedAmount, by decide, by decide, by decide⟩
  · exact ⟨.fixedPct, by decide, by decide, by decide⟩
  · exact absurd rfl ht
  · exact ⟨.trailingPct, by decide, by decide, by decide⟩

/-- **A configuration that validates can run, unless its stop is a time stop**: `resolve_stop_config` never sets the number of
bars a time stop counts, and `time_exit_due` raises without it. -/
theorem resolved_usable (c : WorkerConfig) :
    (∃ config, resolveStopConfig c = .ok config ∧ Usable config) ↔ c.stopType ≠ "time" := by
  have hpos := c.checked.stopMultiplier.number_pos
  have hstop := c.checked.stop
  constructor
  · rintro ⟨config, hc, hu⟩ htime
    have hof : stopTypeOf "time" = some .time := by decide
    rw [resolveStopConfig, htime, hof] at hc
    cases hc
    obtain ⟨due, hdue⟩ := hu.times 0
    cases hdue
  · intro htime
    obtain ⟨t, ht, hne, hmult⟩ := stopTypeOf_checked hstop htime
    refine ⟨_, by rw [resolveStopConfig, ht], usable_of_number hpos hne ?_⟩
    rw [hmult]
    by_cases hm : c.stopType ∈ multiplierStops <;> simp [hm]

/-- The configuration of a time stop after fourteen bars, everything else at its default. -/
def timeStopFields : WorkerConfigFields := { stopType := "time" }

theorem timeStop_valid : timeStopFields.postInit = .ok () :=
  WorkerConfigFields.postInit_iff.2 { WorkerConfigFields.postInit_iff.1 WorkerConfigFields.default_valid with
    stop := by decide
    stopFraction := fun h => absurd h (by decide) }

def timeStopConfig : WorkerConfig := ⟨timeStopFields, timeStop_valid⟩

/-- **A time stop validates and cannot run**: the first bar its holder is asked about raises. -/
theorem time_stop_raises : ∃ config, resolveStopConfig timeStopConfig = .ok config ∧ ¬Usable config ∧
    timeExitDue 1 config = .error ⟨.valueError, [.lit "time stops need a positive `bars`, got ", .lit "None"]⟩ := by
  refine ⟨_, rfl, ?_, rfl⟩
  intro hu
  obtain ⟨due, hdue⟩ := hu.times 1
  cases hdue

end Worker
end Atp
