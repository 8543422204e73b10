import AlgoTrading.StrMethods
import AlgoTrading.WorkerConfig
/-!
# WorkerStorage — a worker configuration in its row, and read back out of it

`_values`, `_trimmed` and `_to_stored` of `persistence/worker_config.py` over the columns of `WorkerConfigRow`.  A column
refuses what it cannot hold and rounds what it can only hold shorter; the validators guard the risk limits against both, and
the two other decimals against the rounding only.  A configuration that validates comes back equal exactly when every field
`fits` its column (`survives_iff`).
-/
namespace Atp
namespace Worker

open Decimals (Decimal Finite)

/-! ## Columns -/

/-- What the driver raises where a column refuses a value. -/
def dataError (message : String) : Exc := ⟨.exception, [.lit message]⟩

/-- The coefficient of a decimal at eight decimals, rounded half away from zero. -/
def scaled (d : Finite) : ℕ :=
  if -8 ≤ d.exponent then d.coefficient * 10 ^ (d.exponent + 8).toNat
  else (2 * d.coefficient + 10 ^ (-8 - d.exponent).toNat) / (2 * 10 ^ (-8 - d.exponent).toNat)

/-- `NUMERIC(20, 8)`. -/
def numericColumn : Decimal → Except Exc Decimal
  | .finite d =>
    if scaled d < 10 ^ 20 then .ok (.finite ⟨d.negative && scaled d != 0, scaled d, -8⟩)
    else .error (dataError "numeric field overflow")
  | .infinity _ => .error (dataError "numeric field overflow")
  | .nan => .ok .nan

/-- `INTEGER`. -/
def integerColumn (n : ℤ) : Except Exc ℤ :=
  if -2147483648 ≤ n ∧ n ≤ 2147483647 then .ok n else .error (dataError "value out of int32 range")

/-- `VARCHAR(width)`: text holds no NUL. -/
def varcharColumn (width : ℕ) (s : String) : Except Exc String :=
  if '\x00' ∈ s.toList then .error (dataError "invalid byte sequence for encoding \"UTF8\": 0x00")
  else if width < s.length then .error (dataError "value too long for type character varying")
  else .ok s

/-- `JSON`, of an object. -/
def jsonColumn (fields : List (String × JsonValues.Doc)) : Except Exc (List (String × JsonValues.Doc)) :=
  if JsonValues.wellFormedFields fields then .ok fields else .error (dataError "invalid input syntax for type json")

/-- `WorkerConfigRow`, less the columns that are not the configuration's. -/
structure WorkerConfigRow where
  symbols : List String
  maxSilenceSeconds : ℤ
  strategy : String
  strategyParams : List (String × JsonValues.Doc)
  timeframe : String
  sizingMethod : String
  sizingValue : Decimal
  stopType : String
  stopMultiplier : Decimal
  stopPeriod : ℤ
  allowLiveOrders : Bool
  riskMaxPositionPct : Decimal
  riskMaxGrossExposurePct : Decimal
  riskMaxDailyLossPct : Decimal
  riskMaxOrdersPerMinute : ℤ
  riskMaxOpenPositions : ℤ
  riskMaxQuoteAgeSeconds : ℤ
  riskDefaultStopLossPct : Decimal
  riskDefaultTakeProfitPct : Decimal

/-! ## Writing -/

/-- `strategy_params` as the driver hands it to its column: `json.dumps` of the dictionary. -/
def paramsText (v : JsonValues.Value) : Except Exc (List (String × JsonValues.Doc)) :=
  match JsonValues.dumps v with
  | .ok (.object fields) => jsonColumn fields
  | .ok _ => .error (dataError "not an object")
  | .error e => .error (dataError e)

/-- **`save`**: `_values`, each in its column. -/
def save (c : WorkerConfig) : Except Exc WorkerConfigRow := do
  return {
    symbols := c.symbols
    maxSilenceSeconds := ← integerColumn c.maxSilenceSeconds
    strategy := ← varcharColumn 36 c.strategy
    strategyParams := ← paramsText c.strategyParams.value
    timeframe := ← varcharColumn 8 c.timeframe
    sizingMethod := ← varcharColumn 20 c.sizingMethod
    sizingValue := ← numericColumn c.sizingValue
    stopType := ← varcharColumn 20 c.stopType
    stopMultiplier := ← numericColumn c.stopMultiplier
    stopPeriod := ← integerColumn c.stopPeriod
    allowLiveOrders := c.allowLiveOrders
    riskMaxPositionPct := ← numericColumn c.risk.maxPositionPct
    riskMaxGrossExposurePct := ← numericColumn c.risk.maxGrossExposurePct
    riskMaxDailyLossPct := ← numericColumn c.risk.maxDailyLossPct
    riskMaxOrdersPerMinute := ← integerColumn c.risk.maxOrdersPerMinute
    riskMaxOpenPositions := ← integerColumn c.risk.maxOpenPositions
    riskMaxQuoteAgeSeconds := ← integerColumn c.risk.maxQuoteAgeSeconds
    riskDefaultStopLossPct := ← numericColumn c.risk.defaultStopLossPct
    riskDefaultTakeProfitPct := ← numericColumn c.risk.defaultTakeProfitPct }

/-! ## Reading -/

/-- `normalise_symbols`: the first of each, stripped and uppercase, without the blank ones. -/
def normaliseSymbols (str : StrMethods) (symbols : List String) : List String :=
  symbols.foldl (fun out raw =>
    if str.stripUpper raw = "" ∨ str.stripUpper raw ∈ out then out else out ++ [str.stripUpper raw]) []

/-- `_trimmed`: the padding of the column dropped, and no exponent above zero. -/
def trimmed : Decimal → Except Exc Decimal
  | .finite d =>
    if 0 < d.normalize.exponent then
      match d.normalize.rescale 0 with
      | some r => .ok (.finite r)
      | none => .error ⟨.invalidOperation, [.lit "[<class 'decimal.InvalidOperation'>]"]⟩
    else .ok (.finite d.normalize)
  | d => .ok d

/-- `RiskLimits(...)`. -/
def RiskLimits.make (l : RiskLimitFields) : Except Exc RiskLimits :=
  match h : l.postInit with
  | .ok () => .ok ⟨l, h⟩
  | .error e => .error e

/-- `WorkerConfig(...)`. -/
def WorkerConfig.make (c : WorkerConfigFields) : Except Exc WorkerConfig :=
  match h : c.postInit with
  | .ok () => .ok ⟨c, h⟩
  | .error e => .error e

/-- The dictionary loaded from the column. -/
def loadedParams (fields : List (String × JsonValues.Doc)) : Params :=
  ⟨JsonValues.loads (.object fields), JsonValues.distinct_loads (.object fields)⟩

/-- The ceilings of a row. -/
def loadRisk (row : WorkerConfigRow) : Except Exc RiskLimits := do
  let maxPositionPct ← trimmed row.riskMaxPositionPct
  let maxGrossExposurePct ← trimmed row.riskMaxGrossExposurePct
  let maxDailyLossPct ← trimmed row.riskMaxDailyLossPct
  let defaultStopLossPct ← trimmed row.riskDefaultStopLossPct
  let defaultTakeProfitPct ← trimmed row.riskDefaultTakeProfitPct
  RiskLimits.make {
    maxPositionPct, maxGrossExposurePct, maxDailyLossPct, defaultStopLossPct, defaultTakeProfitPct
    maxOrdersPerMinute := row.riskMaxOrdersPerMinute
    maxOpenPositions := row.riskMaxOpenPositions
    maxQuoteAgeSeconds := row.riskMaxQuoteAgeSeconds }

/-- **`_to_stored`**: the row rebuilt as the value object, which validates it again. -/
def load (str : StrMethods) (row : WorkerConfigRow) : Except Exc WorkerConfig := do
  let sizingValue ← trimmed row.sizingValue
  let stopMultiplier ← trimmed row.stopMultiplier
  let risk ← loadRisk row
  WorkerConfig.make {
    sizingValue, stopMultiplier, risk
    symbols := normaliseSymbols str row.symbols
    maxSilenceSeconds := row.maxSilenceSeconds
    strategy := row.strategy
    strategyParams := loadedParams row.strategyParams
    timeframe := row.timeframe
    sizingMethod := row.sizingMethod
    stopType := row.stopType
    stopPeriod := row.stopPeriod
    allowLiveOrders := row.allowLiveOrders }

/-! ## Equality -/

/-- `==` of two `RiskLimits`: field by field, decimals by their numbers. -/
structure RiskLimits.Same (l m : RiskLimits) : Prop where
  maxPositionPct : l.maxPositionPct.eqv m.maxPositionPct
  maxGrossExposurePct : l.maxGrossExposurePct.eqv m.maxGrossExposurePct
  maxDailyLossPct : l.maxDailyLossPct.eqv m.maxDailyLossPct
  maxOrdersPerMinute : l.maxOrdersPerMinute = m.maxOrdersPerMinute
  maxOpenPositions : l.maxOpenPositions = m.maxOpenPositions
  maxQuoteAgeSeconds : l.maxQuoteAgeSeconds = m.maxQuoteAgeSeconds
  defaultStopLossPct : l.defaultStopLossPct.eqv m.defaultStopLossPct
  defaultTakeProfitPct : l.defaultTakeProfitPct.eqv m.defaultTakeProfitPct

/-- `==` of two configurations. -/
structure WorkerConfig.Same (c d : WorkerConfig) : Prop where
  symbols : c.symbols = d.symbols
  maxSilenceSeconds : c.maxSilenceSeconds = d.maxSilenceSeconds
  strategy : c.strategy = d.strategy
  strategyParams : JsonValues.eqv c.strategyParams.value d.strategyParams.value = true
  timeframe : c.timeframe = d.timeframe
  sizingMethod : c.sizingMethod = d.sizingMethod
  sizingValue : c.sizingValue.eqv d.sizingValue
  stopType : c.stopType = d.stopType
  stopMultiplier : c.stopMultiplier.eqv d.stopMultiplier
  stopPeriod : c.stopPeriod = d.stopPeriod
  allowLiveOrders : c.allowLiveOrders = d.allowLiveOrders
  risk : c.risk.Same d.risk

/-- A configuration that is written and read back as an equal one. -/
def Survives (str : StrMethods) (c : WorkerConfig) : Prop :=
  ∃ row, save c = .ok row ∧ ∃ c', load str row = .ok c' ∧ c'.Same c

/-- What the columns need of a configuration and the validators do not ask. -/
structure Fits (c : WorkerConfig) : Prop where
  symbols : ∀ s ∈ c.symbols, s.toList.getLast? ≠ some '\n'
  maxSilenceSeconds : c.maxSilenceSeconds ≤ 2147483647
  strategy : '\x00' ∉ c.strategy.toList
  strategyParams : JsonValues.plain c.strategyParams.value = true
  sizingValue : number c.sizingValue < 10 ^ 12
  stopMultiplier : number c.stopMultiplier < 10 ^ 12
  stopPeriod : c.stopPeriod ≤ 2147483647

/-! ## Numbers in their column -/

theorem scaled_value {d : Finite} (h : -8 ≤ d.exponent) : (scaled d : ℚ) = d.coefficient * (10 : ℚ) ^ d.exponent * 10 ^ 8 := by
  have hexp : d.exponent + 8 = ((d.exponent + 8).toNat : ℤ) := by omega
  rw [scaled, if_pos h]
  push_cast
  rw [mul_assoc, ← zpow_natCast (10 : ℚ) 8, ← zpow_add₀ (by norm_num), ← zpow_natCast, ← hexp]
  rfl

/-- A positive decimal of at most eight decimals is in the column as it is, if it is below `10 ^ 12`. -/
theorem numericColumn_iff {d e : Decimal} (h : Storable d) : numericColumn d = .ok e ↔
    number d < 10 ^ 12 ∧ ∃ n, e = .finite ⟨false, n, -8⟩ ∧ (n : ℚ) = number d * 10 ^ 8 := by
  obtain ⟨x, rfl, hpos, hexp⟩ := h
  obtain ⟨hsign, -⟩ := Finite.value_pos_iff.1 hpos
  have hn : (scaled x : ℚ) = x.value * 10 ^ 8 := by rw [scaled_value hexp, Finite.value, hsign]; simp
  have hlt : scaled x < 10 ^ 20 ↔ x.value < 10 ^ 12 := by
    rw [← Nat.cast_lt (α := ℚ), hn]
    push_cast
    constructor <;> intro h <;> linarith
  unfold numericColumn
  simp only [number, hsign, Bool.false_and]
  by_cases hx : x.value < 10 ^ 12
  · rw [if_pos (hlt.2 hx)]
    constructor
    · intro h
      cases h
      exact ⟨hx, _, rfl, hn⟩
    · rintro ⟨-, n, rfl, hn'⟩
      rw [← hn, Nat.cast_inj] at hn'
      rw [hn']
  · rw [if_neg fun h => hx (hlt.1 h)]
    exact ⟨fun h => absurd h (by simp), fun h => absurd h.1 hx⟩

theorem numericColumn_total {d : Decimal} (h : Storable d) (hlt : number d < 10 ^ 12) : ∃ e, numericColumn d = .ok e := by
  obtain ⟨x, rfl, hpos, hexp⟩ := h
  obtain ⟨hsign, -⟩ := Finite.value_pos_iff.1 hpos
  refine ⟨_, (numericColumn_iff ⟨x, rfl, hpos, hexp⟩).2 ⟨hlt, scaled x, rfl, ?_⟩⟩
  rw [scaled_value hexp, number, Finite.value, hsign]
  simp

/-- **Trimming keeps the number**, and leaves no more decimals than the column has. -/
theorem trimmed_stored {n : ℕ} (h0 : 0 < n) (h : n < 10 ^ 20) : ∃ e, trimmed (.finite ⟨false, n, -8⟩) = .ok e ∧
    Storable e ∧ number e = (n : ℚ) * 10 ^ (-8 : ℤ) := by
  have hdigits : Decimals.numDigits (Finite.mk false n (-8)).coefficient ≤ Finite.precision :=
    (Decimals.numDigits_le (by norm_num) h).trans (by decide)
  have hvalue : (Finite.mk false n (-8)).normalize.value = (n : ℚ) * 10 ^ (-8 : ℤ) := by
    rw [Finite.normalize_value hdigits]
    simp [Finite.value]
  have hpos : 0 < (Finite.mk false n (-8)).normalize.value := by
    rw [hvalue]
    positivity
  have hexp : -8 ≤ (Finite.mk false n (-8)).normalize.exponent := Finite.le_normalize_exponent hdigits
  simp only [trimmed]
  generalize (Finite.mk false n (-8)).normalize = r at hvalue hpos hexp ⊢
  split
  · next he =>
    obtain ⟨hsign, -⟩ := Finite.value_pos_iff.1 hpos
    have hc : ((r.coefficient * 10 ^ (r.exponent - 0).toNat : ℕ) : ℚ) = (n : ℚ) * 10 ^ (-8 : ℤ) := by
      have hexp' : r.exponent = ((r.exponent - 0).toNat : ℤ) := by omega
      rw [← hvalue, Finite.value, hsign]
      push_cast
      rw [← zpow_natCast, ← hexp']
      simp
    have hsmall : r.coefficient * 10 ^ (r.exponent - 0).toNat < 10 ^ 12 := by
      have hn : (n : ℚ) < 10 ^ 20 := by exact_mod_cast h
      rw [← Nat.cast_lt (α := ℚ), hc]
      push_cast
      norm_num
      linarith
    have hfits : Decimals.numDigits (r.coefficient * 10 ^ (r.exponent - 0).toNat) ≤ Finite.precision :=
      (Decimals.numDigits_le (by norm_num) hsmall).trans (by decide)
    cases hr : r.rescale 0 with
    | none =>
      rw [Finite.rescale, if_pos hfits] at hr
      cases hr
    | some q =>
      obtain ⟨hq, hq0⟩ := Finite.rescale_value he.le hr
      exact ⟨_, rfl, ⟨q, rfl, hq ▸ hpos, by omega⟩, hq.trans hvalue⟩
  · exact ⟨_, rfl, ⟨r, rfl, hpos, hexp⟩, hvalue⟩

/-- **A number that is written reads back as the number it was.** -/
theorem trimmed_numeric {d e : Decimal} (h : Storable d) (he : numericColumn d = .ok e) :
    ∃ e', trimmed e = .ok e' ∧ Storable e' ∧ number e' = number d := by
  obtain ⟨hlt, n, rfl, hn⟩ := (numericColumn_iff h).1 he
  have hpos := h.number_pos
  have h0 : 0 < n := by
    have : (0 : ℚ) < n := by rw [hn]; positivity
    exact_mod_cast this
  have h20 : n < 10 ^ 20 := by
    have : (n : ℚ) < 10 ^ 20 := by rw [hn]; linarith
    exact_mod_cast this
  obtain ⟨e', htrim, hs, hv⟩ := trimmed_stored h0 h20
  exact ⟨e', htrim, hs, by rw [hv, hn]; norm_num; ring⟩

theorem eqv_of_number {d e : Decimal} (hd : Storable d) (he : Storable e) (h : number d = number e) : d.eqv e := by
  obtain ⟨x, rfl, -⟩ := hd
  obtain ⟨y, rfl, -⟩ := he
  exact h

theorem Fraction.storable {d : Decimal} {ceiling : ℚ} {exclusive : Bool} (h : Fraction d ceiling exclusive) : Storable d := by
  obtain ⟨x, rfl, hpos, -, -, hexp⟩ := h
  exact ⟨x, rfl, hpos, hexp⟩

/-- A ceiling is a property of the number. -/
theorem Fraction.of_number {d e : Decimal} {ceiling : ℚ} {exclusive : Bool} (h : Fraction d ceiling exclusive)
    (he : Storable e) (hn : number e = number d) : Fraction e ceiling exclusive := by
  obtain ⟨x, rfl, hpos, hle, hne, -⟩ := h
  obtain ⟨y, rfl, hpos', hexp⟩ := he
  have hxy : y.value = x.value := hn
  exact ⟨y, rfl, hpos', hxy ▸ hle, hxy ▸ hne, hexp⟩

/-! ## Symbols in their list -/

variable {str : StrMethods}

theorem tickerChar_plain {c : Char} (h : tickerChar c = true) : Graphic c ∧ c.toUpper = c := by
  have hascii : ∀ n : Fin 128, tickerChar (Char.ofNat n) = true →
      Graphic (Char.ofNat n) ∧ (Char.ofNat n).toUpper = Char.ofNat n := by decide +kernel
  have hc : c.toNat < 128 := by
    simp only [tickerChar, tickerLetter, Bool.or_eq_true, Bool.and_eq_true, decide_eq_true_eq, beq_iff_eq] at h
    rcases h with ((h | h) | rfl) | rfl
    · exact (show c.toNat ≤ 90 from h.2).trans_lt (by norm_num)
    · exact (show c.toNat ≤ 57 from h.2).trans_lt (by norm_num)
    · decide
    · decide
  have := hascii ⟨c.toNat, hc⟩
  rw [Char.ofNat_toNat] at this
  exact this h

theorem ticker_chars {l : List Char} (h : ticker l = true) : l ≠ [] ∧ ∀ c ∈ l, tickerChar c = true := by
  cases l with
  | nil => cases h
  | cons c l =>
    simp only [ticker, Bool.and_eq_true, List.all_eq_true] at h
    refine ⟨List.cons_ne_nil _ _, List.forall_mem_cons.2 ⟨?_, h.2⟩⟩
    rw [tickerChar, h.1.1]
    rfl

/-- A ticker is already as `normalise_symbols` holds it. -/
theorem stripUpper_ticker {s : String} (h : ticker s.toList = true) : str.stripUpper s = s ∧ s ≠ "" := by
  obtain ⟨hne, hchars⟩ := ticker_chars h
  refine ⟨?_, fun hs => hne (by simp [hs])⟩
  rw [str.stripUpper_graphic fun c hc => (tickerChar_plain (hchars c hc)).1,
    List.map_congr_left (fun c hc => (tickerChar_plain (hchars c hc)).2), List.map_id', String.ofList_toList]

/-- Distinct tickers are kept in the order they were typed. -/
theorem normaliseSymbols_tickers {l : List String} (hl : ∀ s ∈ l, ticker s.toList = true) (hn : l.Nodup) :
    normaliseSymbols str l = l := by
  suffices h : ∀ l out : List String, (∀ s ∈ l, ticker s.toList = true) → (out ++ l).Nodup →
      l.foldl (fun out raw =>
          if str.stripUpper raw = "" ∨ str.stripUpper raw ∈ out then out else out ++ [str.stripUpper raw]) out =
        out ++ l from h l [] hl hn
  intro l
  induction l with
  | nil => simp
  | cons s l ih =>
    intro out hl hn
    rw [List.forall_mem_cons] at hl
    obtain ⟨hstrip, hblank⟩ := stripUpper_ticker hl.1
    have hfresh : s ∉ out := fun hs => (List.nodup_append.1 hn).2.2 s hs s List.mem_cons_self rfl
    rw [List.foldl_cons, hstrip, if_neg (by simp [hblank, hfresh]), ih _ hl.2 (by simpa using hn)]
    simp

/-- Everything the list holds once normalised was stripped. -/
theorem mem_normaliseSymbols {l : List String} {s : String} (h : s ∈ normaliseSymbols str l) : ∃ raw, s = str.stripUpper raw := by
  suffices hall : ∀ l out : List String, (∀ s ∈ out, ∃ raw, s = str.stripUpper raw) →
      ∀ s ∈ l.foldl (fun out raw =>
          if str.stripUpper raw = "" ∨ str.stripUpper raw ∈ out then out else out ++ [str.stripUpper raw]) out,
        ∃ raw, s = str.stripUpper raw from hall l [] (by simp) s h
  intro l
  induction l with
  | nil => exact fun out h => h
  | cons raw l ih =>
    intro out hout
    rw [List.foldl_cons]
    apply ih
    split
    · exact hout
    · intro s hs
      rcases List.mem_append.1 hs with hs | hs
      · exact hout s hs
      · exact ⟨raw, List.mem_singleton.1 hs⟩

/-! ## The row as a whole -/

theorem bind_ok_iff {α β : Type} {x : Except Exc α} {f : α → Except Exc β} {b : β} :
    (x >>= f) = .ok b ↔ ∃ a, x = .ok a ∧ f a = .ok b := by
  cases x <;> simp

/-- A row whose columns took the configuration's values. -/
structure Saved (c : WorkerConfig) (row : WorkerConfigRow) : Prop where
  symbols : row.symbols = c.symbols
  maxSilenceSeconds : integerColumn c.maxSilenceSeconds = .ok row.maxSilenceSeconds
  strategy : varcharColumn 36 c.strategy = .ok row.strategy
  strategyParams : paramsText c.strategyParams.value = .ok row.strategyParams
  timeframe : varcharColumn 8 c.timeframe = .ok row.timeframe
  sizingMethod : varcharColumn 20 c.sizingMethod = .ok row.sizingMethod
  sizingValue : numericColumn c.sizingValue = .ok row.sizingValue
  stopType : varcharColumn 20 c.stopType = .ok row.stopType
  stopMultiplier : numericColumn c.stopMultiplier = .ok row.stopMultiplier
  stopPeriod : integerColumn c.stopPeriod = .ok row.stopPeriod
  allowLiveOrders : row.allowLiveOrders = c.allowLiveOrders
  maxPositionPct : numericColumn c.risk.maxPositionPct = .ok row.riskMaxPositionPct
  maxGrossExposurePct : numericColumn c.risk.maxGrossExposurePct = .ok row.riskMaxGrossExposurePct
  maxDailyLossPct : numericColumn c.risk.maxDailyLossPct = .ok row.riskMaxDailyLossPct
  maxOrdersPerMinute : integerColumn c.risk.maxOrdersPerMinute = .ok row.riskMaxOrdersPerMinute
  maxOpenPositions : integerColumn c.risk.maxOpenPositions = .ok row.riskMaxOpenPositions
  maxQuoteAgeSeconds : integerColumn c.risk.maxQuoteAgeSeconds = .ok row.riskMaxQuoteAgeSeconds
  defaultStopLossPct : numericColumn c.risk.defaultStopLossPct = .ok row.riskDefaultStopLossPct
  defaultTakeProfitPct : numericColumn c.risk.defaultTakeProfitPct = .ok row.riskDefaultTakeProfitPct

theorem save_iff {c : WorkerConfig} {row : WorkerConfigRow} : save c = .ok row ↔ Saved c row := by
  unfold save
  simp only [bind_ok_iff, pure, Except.pure, Except.ok.injEq]
  constructor
  · rintro ⟨a, ha, b, hb, d, hd, e, he, f, hf, g, hg, i, hi, j, hj, k, hk, l, hl, m, hm, n, hn, o, ho, p, hp, q, hq, r, hr,
      s, hs, rfl⟩
    exact ⟨rfl, ha, hb, hd, he, hf, hg, hi, hj, hk, rfl, hl, hm, hn, ho, hp, hq, hr, hs⟩
  · rintro ⟨h, ha, hb, hd, he, hf, hg, hi, hj, hk, h', hl, hm, hn, ho, hp, hq, hr, hs⟩
    refine ⟨_, ha, _, hb, _, hd, _, he, _, hf, _, hg, _, hi, _, hj, _, hk, _, hl, _, hm, _, hn, _, ho, _, hp, _, hq, _, hr,
      _, hs, ?_⟩
    rw [← h, ← h']

theorem RiskLimits.make_iff {f : RiskLimitFields} {l : RiskLimits} : RiskLimits.make f = .ok l ↔ l.toRiskLimitFields = f := by
  unfold RiskLimits.make
  constructor
  · intro h
    split at h
    · cases h
      rfl
    · cases h
  · rintro rfl
    split
    · rfl
    · next h => exact absurd (h.symm.trans l.valid) (by simp)

theorem WorkerConfig.make_iff {f : WorkerConfigFields} {c : WorkerConfig} :
    WorkerConfig.make f = .ok c ↔ c.toWorkerConfigFields = f := by
  unfold WorkerConfig.make
  constructor
  · intro h
    split at h
    · cases h
      rfl
    · cases h
  · rintro rfl
    split
    · rfl
    · next h => exact absurd (h.symm.trans c.valid) (by simp)

theorem integerColumn_ok {n : ℤ} (h : 1 ≤ n) (h' : n ≤ 2147483647) : integerColumn n = .ok n :=
  if_pos ⟨by omega, h'⟩

theorem integerColumn_iff {n m : ℤ} : integerColumn n = .ok m ↔ (-2147483648 ≤ n ∧ n ≤ 2147483647) ∧ m = n := by
  unfold integerColumn
  split <;> simp_all [eq_comm]

theorem varcharColumn_iff {width : ℕ} {s t : String} :
    varcharColumn width s = .ok t ↔ ('\x00' ∉ s.toList ∧ s.length ≤ width) ∧ t = s := by
  unfold varcharColumn
  split
  · next h => simp [h]
  · next h =>
    split
    · next h' => simp [h']
    · next h' => simp [h, not_lt.1 h', eq_comm]

theorem paramsText_iff {v : JsonValues.Value} {fields : List (String × JsonValues.Doc)} : paramsText v = .ok fields ↔
    JsonValues.dumps v = .ok (.object fields) ∧ JsonValues.wellFormedFields fields = true := by
  unfold paramsText jsonColumn
  cases JsonValues.dumps v with
  | error e => simp
  | ok d =>
    cases d with
    | object fs =>
      simp only [Except.ok.injEq, JsonValues.Doc.object.injEq]
      split
      · next h =>
        constructor
        · rintro h'
          cases h'
          exact ⟨rfl, h⟩
        · rintro ⟨rfl, -⟩
          rfl
      · next h =>
        refine ⟨fun h' => by simp at h', ?_⟩
        rintro ⟨rfl, h'⟩
        exact absurd h' h
    | _ => simp

/-- The names of the vocabularies fit their columns. -/
theorem vocabulary_fits {s : String} (h : s ∈ sizingValues ∨ s ∈ stopValues) : varcharColumn 20 s = .ok s := by
  have hall : ∀ s ∈ sizingValues ++ stopValues, '\x00' ∉ s.toList ∧ s.length ≤ 20 := by
    simp [sizingValues, stopValues, ← String.length_toList]
  exact varcharColumn_iff.2 ⟨hall s (List.mem_append.2 h), rfl⟩

theorem timeframe_fits {s : String} (h : s ∈ timeframeValues) : varcharColumn 8 s = .ok s := by
  have hall : ∀ s ∈ timeframeValues, '\x00' ∉ s.toList ∧ s.length ≤ 8 := by
    simp [timeframeValues, ← String.length_toList]
  exact varcharColumn_iff.2 ⟨hall s h, rfl⟩

/-- **The risk limits always survive**: their validator guards every column they are stored in. -/
theorem risk_reads {c : WorkerConfig} {row : WorkerConfigRow} (h : Saved c row) :
    ∃ l, loadRisk row = .ok l ∧ l.Same c.risk := by
  obtain ⟨hpos, hgross, hloss, hstop, hprofit, hrate, hopen, hage, hinside⟩ := RiskLimitFields.postInit_iff.1 c.risk.valid
  obtain ⟨p, hp, hps, hpn⟩ := trimmed_numeric hpos.storable h.maxPositionPct
  obtain ⟨g, hg, hgs, hgn⟩ := trimmed_numeric hgross.storable h.maxGrossExposurePct
  obtain ⟨l, hl, hls, hln⟩ := trimmed_numeric hloss.storable h.maxDailyLossPct
  obtain ⟨s, hs, hss, hsn⟩ := trimmed_numeric hstop.storable h.defaultStopLossPct
  obtain ⟨t, ht, hts, htn⟩ := trimmed_numeric hprofit.storable h.defaultTakeProfitPct
  obtain ⟨-, hrate'⟩ := integerColumn_iff.1 h.maxOrdersPerMinute
  obtain ⟨-, hopen'⟩ := integerColumn_iff.1 h.maxOpenPositions
  obtain ⟨-, hage'⟩ := integerColumn_iff.1 h.maxQuoteAgeSeconds
  have hcompare : compared (p.gt? g) = .ok false := by
    obtain ⟨x, rfl, -⟩ := hps
    obtain ⟨y, rfl, -⟩ := hgs
    have hle : x.value ≤ y.value := by
      have := c.risk.position_le_gross
      rwa [← hpn, ← hgn] at this
    simp [compared, Decimal.gt?, hle]
  have hvalid : RiskLimitFields.postInit ⟨p, g, l, row.riskMaxOrdersPerMinute, row.riskMaxOpenPositions,
      row.riskMaxQuoteAgeSeconds, s, t⟩ = .ok () :=
    RiskLimitFields.postInit_iff.2 ⟨hpos.of_number hps hpn, hgross.of_number hgs hgn, hloss.of_number hls hln,
      hstop.of_number hss hsn, hprofit.of_number hts htn, hrate' ▸ hrate, hopen' ▸ hopen, hage' ▸ hage, hcompare⟩
  refine ⟨⟨_, hvalid⟩, ?_, ?_⟩
  · rw [loadRisk, hp, hg, hl, hs, ht]
    exact RiskLimits.make_iff.2 rfl
  · exact ⟨eqv_of_number hps hpos.storable hpn, eqv_of_number hgs hgross.storable hgn, eqv_of_number hls hloss.storable hln,
      hrate', hopen', hage', eqv_of_number hss hstop.storable hsn, eqv_of_number hts hprofit.storable htn⟩

theorem save_total {c : WorkerConfig} (h : Fits c) : ∃ row, save c = .ok row := by
  have hc := c.checked
  obtain ⟨hpos, hgross, hloss, hstop, hprofit, hrate, hopen, hage, -⟩ := RiskLimitFields.postInit_iff.1 c.risk.valid
  obtain ⟨fields, d, hdict, hd⟩ := hc.params
  rw [hdict] at hd
  obtain ⟨fs, hfs, rfl⟩ := JsonValues.dumps_dict hd
  have hwf : JsonValues.wellFormedFields fs = true := by
    have hplain := h.strategyParams
    have hdistinct := c.strategyParams.distinct
    rw [hdict] at hplain hdistinct
    exact (JsonValues.loads_dumps _ _ hplain hdistinct hd).1
  obtain ⟨sizing, hsizing⟩ := numericColumn_total hc.sizingValue h.sizingValue
  obtain ⟨multiplier, hmultiplier⟩ := numericColumn_total hc.stopMultiplier h.stopMultiplier
  have hcolumn {d : Decimal} {ceiling : ℚ} {exclusive : Bool} (hf : Fraction d ceiling exclusive) (hle : ceiling ≤ 10) :
      ∃ e, numericColumn d = .ok e :=
    numericColumn_total hf.storable ((hf.number_le.trans hle).trans_lt (by norm_num))
  obtain ⟨p, hp⟩ := hcolumn hpos (by norm_num)
  obtain ⟨g, hg⟩ := hcolumn hgross (by norm_num)
  obtain ⟨l, hl⟩ := hcolumn hloss (by norm_num)
  obtain ⟨s, hs⟩ := hcolumn hstop (by norm_num)
  obtain ⟨t, ht⟩ := hcolumn hprofit le_rfl
  exact ⟨⟨c.symbols, c.maxSilenceSeconds, c.strategy, fs, c.timeframe, c.sizingMethod, sizing, c.stopType, multiplier,
    c.stopPeriod, c.allowLiveOrders, p, g, l, c.risk.maxOrdersPerMinute, c.risk.maxOpenPositions,
    c.risk.maxQuoteAgeSeconds, s, t⟩, save_iff.2 {
      symbols := rfl
      maxSilenceSeconds := integerColumn_ok hc.silence h.maxSilenceSeconds
      strategy := varcharColumn_iff.2 ⟨⟨h.strategy, hc.strategy⟩, rfl⟩
      strategyParams := paramsText_iff.2 ⟨by rw [hdict, hd], hwf⟩
      timeframe := timeframe_fits hc.timeframe
      sizingMethod := vocabulary_fits (.inl hc.sizing)
      sizingValue := hsizing
      stopType := vocabulary_fits (.inr hc.stop)
      stopMultiplier := hmultiplier
      stopPeriod := integerColumn_ok hc.stopPeriod h.stopPeriod
      allowLiveOrders := rfl
      maxPositionPct := hp
      maxGrossExposurePct := hg
      maxDailyLossPct := hl
      maxOrdersPerMinute := integerColumn_ok hrate.1 hrate.2
      maxOpenPositions := integerColumn_ok hopen.1 hopen.2
      maxQuoteAgeSeconds := integerColumn_ok hage.1 hage.2
      defaultStopLossPct := hs
      defaultTakeProfitPct := ht }⟩

/-- A symbol that matches and does not end in a newline is a ticker. -/
theorem ticker_of_match {s : String} (h : symbolMatch s = true) (hn : s.toList.getLast? ≠ some '\n') :
    ticker s.toList = true := by
  rw [symbolMatch, Bool.or_eq_true, Bool.and_eq_true, beq_iff_eq] at h
  exact h.resolve_right fun h => hn h.1

theorem load_saved {c : WorkerConfig} {row : WorkerConfigRow} (h : Fits c) (hs : Saved c row) :
    ∃ c', load str row = .ok c' ∧ c'.Same c := by
  have hc := c.checked
  obtain ⟨value, hvalue, hvs, hvn⟩ := trimmed_numeric hc.sizingValue hs.sizingValue
  obtain ⟨multiplier, hmultiplier, hms, hmn⟩ := trimmed_numeric hc.stopMultiplier hs.stopMultiplier
  obtain ⟨risk, hrisk, hsame⟩ := risk_reads hs
  obtain ⟨hsilence, hperiod⟩ := And.intro (integerColumn_iff.1 hs.maxSilenceSeconds).2 (integerColumn_iff.1 hs.stopPeriod).2
  have hstrategy := (varcharColumn_iff.1 hs.strategy).2
  have htimeframe := (varcharColumn_iff.1 hs.timeframe).2
  have hmethod := (varcharColumn_iff.1 hs.sizingMethod).2
  have hstop := (varcharColumn_iff.1 hs.stopType).2
  have hsymbols : normaliseSymbols str row.symbols = c.symbols := by
    rw [hs.symbols]
    exact normaliseSymbols_tickers (fun s hm => ticker_of_match (hc.symbols.2.1 s hm) (h.symbols s hm)) hc.symbols.2.2
  have hparams : (loadedParams row.strategyParams).value = c.strategyParams.value :=
    (JsonValues.loads_dumps _ _ h.strategyParams c.strategyParams.distinct (paramsText_iff.1 hs.strategyParams).1).2
  have heqv : JsonValues.eqv (loadedParams row.strategyParams).value c.strategyParams.value = true := by
    rw [hparams]
    exact JsonValues.eqv_self _ h.strategyParams c.strategyParams.distinct
  have hvalid : WorkerConfigFields.postInit ⟨normaliseSymbols str row.symbols, row.maxSilenceSeconds, row.strategy,
      loadedParams row.strategyParams, row.timeframe, row.sizingMethod, value, row.stopType, multiplier, row.stopPeriod,
      row.allowLiveOrders, risk⟩ = .ok () :=
    WorkerConfigFields.postInit_iff.2 {
      symbols := hsymbols ▸ hc.symbols
      strategy := hstrategy ▸ hc.strategy
      params := hparams ▸ hc.params
      timeframe := htimeframe ▸ hc.timeframe
      sizing := hmethod ▸ hc.sizing
      sizingValue := hvs
      sizingFraction := fun hm => hvn ▸ hc.sizingFraction (hmethod ▸ hm)
      stop := hstop ▸ hc.stop
      stopMultiplier := hms
      stopFraction := fun hm => hmn ▸ hc.stopFraction (hstop ▸ hm)
      stopPeriod := hperiod ▸ hc.stopPeriod
      silence := hsilence ▸ hc.silence }
  refine ⟨⟨_, hvalid⟩, ?_, ?_⟩
  · rw [load, hvalue, hmultiplier, hrisk]
    exact WorkerConfig.make_iff.2 rfl
  · exact {
      symbols := hsymbols
      maxSilenceSeconds := hsilence
      strategy := hstrategy
      strategyParams := heqv
      timeframe := htimeframe
      sizingMethod := hmethod
      sizingValue := eqv_of_number hvs hc.sizingValue hvn
      stopType := hstop
      stopMultiplier := eqv_of_number hms hc.stopMultiplier hmn
      stopPeriod := hperiod
      allowLiveOrders := hs.allowLiveOrders
      risk := hsame }

theorem fits_of_survives {c : WorkerConfig} (h : Survives str c) : Fits c := by
  obtain ⟨row, hsave, c', hload, hsame⟩ := h
  have hs := save_iff.1 hsave
  have hc := c.checked
  rw [load] at hload
  simp only [bind_ok_iff, WorkerConfig.make_iff] at hload
  obtain ⟨value, -, multiplier, -, risk, -, hfields⟩ := hload
  have hsymbols : normaliseSymbols str row.symbols = c.symbols := by
    rw [← hsame.symbols, hfields]
  have hparams := hsame.strategyParams
  rw [hfields] at hparams
  obtain ⟨hdumps, hwf⟩ := paramsText_iff.1 hs.strategyParams
  exact {
    symbols := fun s hm => by
      rw [← hsymbols] at hm
      obtain ⟨raw, rfl⟩ := mem_normaliseSymbols hm
      exact str.ends raw
    maxSilenceSeconds := (integerColumn_iff.1 hs.maxSilenceSeconds).1.2
    strategy := (varcharColumn_iff.1 hs.strategy).1.1
    strategyParams := JsonValues.plain_of_eqv _ _ c.strategyParams.distinct hdumps hwf hparams
    sizingValue := ((numericColumn_iff hc.sizingValue).1 hs.sizingValue).1
    stopMultiplier := ((numericColumn_iff hc.stopMultiplier).1 hs.stopMultiplier).1
    stopPeriod := (integerColumn_iff.1 hs.stopPeriod).1.2 }

/-- **A configuration that validates survives storage exactly when it fits its columns.** -/
theorem survives_iff (str : StrMethods) (c : WorkerConfig) : Survives str c ↔ Fits c :=
  ⟨fits_of_survives, fun h => by
    obtain ⟨row, hsave⟩ := save_total h
    exact ⟨row, hsave, load_saved h (save_iff.1 hsave)⟩⟩

/-- A watchdog budget one second past what its column holds, everything else at its default. -/
def longSilenceFields : WorkerConfigFields := { maxSilenceSeconds := 2147483648 }

theorem longSilence_valid : longSilenceFields.postInit = .ok () :=
  WorkerConfigFields.postInit_iff.2 { WorkerConfigFields.postInit_iff.1 WorkerConfigFields.default_valid with
    silence := by decide }

def longSilence : WorkerConfig := ⟨longSilenceFields, longSilence_valid⟩

/-- **A configuration that validates and is refused by its row.** -/
theorem long_silence_refused :
    save longSilence = .error (dataError "value out of int32 range") ∧ ∀ str, ¬Survives str longSilence := by
  have hrefused : save longSilence = .error (dataError "value out of int32 range") := rfl
  refine ⟨hrefused, ?_⟩
  rintro str ⟨row, hsave, -⟩
  cases hrefused.symm.trans hsave

end Worker
end Atp
