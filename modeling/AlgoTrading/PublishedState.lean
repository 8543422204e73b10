import AlgoTrading.Documents
import AlgoTrading.HaltStorage
import AlgoTrading.SessionAnchors
/-!
# PublishedState — the book and the quotes as they are published, and what is read of them

`encode_snapshot` and `decode_snapshot` of `dashboard/snapshot.py`, `RedisSnapshotStore` of `persistence/dashboard.py` and
`RedisQuoteCache` of `persistence/quotes.py`.  Every number travels as a text and comes back digit for digit; a document of an
older writer comes back with the defaults of the fields it did not know.  The text of an instant is a parameter.  Documents whose
texts hold anything but strings are left out: the worker is the only writer.
-/
namespace Atp
namespace PublishedState

open JsonValues (Value Doc document item getOr iter dumps loads Stored)
open Decimals (Decimal)
open HaltStorage (epochFormat)

/-! ## Numbers, texts and instants -/

/-- `str(value)`. -/
def decimalText : Decimal → String
  | .finite d => String.ofList d.str
  | .infinity false => "Infinity"
  | .infinity true => "-Infinity"
  | .nan => "NaN"

/-- `_money`. -/
def money : Option Decimal → Value
  | none => .none
  | some d => .str (decimalText d)

/-- `str(value)` of what is no list and no dictionary. -/
def pyText : Value → Option String
  | .str s => some s
  | .int n => some (toString n)
  | .bool b => some (if b then "True" else "False")
  | .float (.finite _ repr) => some repr
  | .float (.infinity negative) => some (if negative then "-inf" else "inf")
  | .float .nan => some "nan"
  | _ => none

/-- **`_decimal`**; `none` outside is what it raises. -/
def decimal : Value → Option (Option Decimal)
  | .none => some none
  | v => (pyText v).bind fun text => (Decimal.ofText text.toList).map some

/-- `_require_decimal`. -/
def requireDecimal (v : Value) : Option Decimal := (decimal v).bind id

def string? : Value → Option String
  | .str s => some s
  | _ => none

/-- A text or `None`. -/
def stringOrNone : Value → Option (Option String)
  | .none => some none
  | .str s => some (some s)
  | _ => none

def ofString : Option String → Value
  | none => .none
  | some s => .str s

def strings (v : Value) : Option (List String) := (iter v).bind fun items => items.mapM string?

/-- `int(value)` of an integer. -/
def int? : Value → Option ℤ
  | .int n => some n
  | .bool b => some (if b then 1 else 0)
  | _ => none

/-- `bool(value)`. -/
def truthy : Value → Bool
  | .none => false
  | .bool b => b
  | .int n => n ≠ 0
  | .float (.finite x _) => x ≠ 0
  | .str s => s ≠ ""
  | .list items => !items.isEmpty
  | .tuple items => !items.isEmpty
  | .dict fields => !fields.isEmpty
  | _ => true

def textField : JsonValues.Key × Value → Option (String × String)
  | (.str name, .str text) => some (name, text)
  | _ => none

/-- `dict(value)` of names and texts. -/
def texts : Value → Option (Dict String String)
  | .dict fields => (fields.mapM textField).bind fun l => if h : (l.map Prod.fst).Nodup then some ⟨l, h⟩ else none
  | _ => none

def ofTexts (d : Dict String String) : Value := .dict (d.entries.map fun f => (.str f.1, .str f.2))

section Instants

variable (iso : IsoFormat)

/-- `_ts`. -/
def tsText : Option ℤ → Value
  | none => .none
  | some t => .str (iso.isoformat t)

/-- **`_parse_ts`**. -/
def parseTs : Value → Option (Option ℤ)
  | .none => some none
  | .str s => (iso.fromisoformat s).map some
  | _ => none

/-- `_require_ts`. -/
def requireTs (v : Value) : Option ℤ := (parseTs iso v).bind id

end Instants

/-! ## The snapshot -/

structure PositionSummary where
  symbol : String
  qty : Decimal
  avgEntryPrice : Decimal
  lastPrice : Option Decimal
  marketValue : Option Decimal
  unrealizedPnl : Option Decimal
  unrealizedPnlPct : Option Decimal
  realizedPnl : Decimal
  feesPaid : Decimal
  stopLossPrice : Option Decimal
  takeProfitPrice : Option Decimal
  distanceToStopPct : Option Decimal
  brokerProtectedQty : Decimal
  unprotectedQty : Decimal
  protection : String
  strategyId : Option String
  openedAt : Option ℤ

structure SignalSummary where
  id : String
  ts : ℤ
  strategyId : String
  symbol : String
  action : String
  reason : String
  indicators : Dict String String
  actedOn : Bool
  rejectionReason : Option String := none
  rejectedBy : Option String := none

structure OrderSummary where
  id : String
  clientOrderId : String
  ts : Option ℤ
  symbol : String
  side : String
  orderType : String
  qty : Decimal
  filledQty : Decimal
  limitPrice : Option Decimal
  stopPrice : Option Decimal
  avgFillPrice : Option Decimal
  status : String
  strategyId : Option String

structure AccountSummary where
  equity : Decimal
  cash : Decimal
  grossExposure : Decimal
  netExposure : Decimal
  leverage : Option Decimal
  realizedPnl : Decimal
  unrealizedPnl : Decimal
  openPositionCount : ℤ
  unmarkedSymbols : List String := []

structure LiveSnapshot where
  asOf : ℤ
  runMode : RunMode
  account : AccountSummary
  positions : List PositionSummary := []
  recentSignals : List SignalSummary := []
  workingOrders : List OrderSummary := []
  strategy : Option String := none
  lastDataAt : Option ℤ := none
  symbols : List String := []

def PROTECTION_NONE : String := "none"

/-- The fields a reader has a default for. -/
def optional : List String :=
  ["unmarked_symbols", "broker_protected_qty", "unprotected_qty", "protection", "rejected_by", "strategy", "last_data_at",
    "symbols"]

section Documents

variable (iso : IsoFormat) (unknown : String → Bool)

/-- A document of a writer that did not know some of the optional fields. -/
def written (fields : List (String × Value)) : Value := document (fun name => optional.contains name && unknown name) fields

def encodeAccount (account : AccountSummary) : Value :=
  written unknown
    [("equity", .str (decimalText account.equity)),
     ("cash", .str (decimalText account.cash)),
     ("gross_exposure", .str (decimalText account.grossExposure)),
     ("net_exposure", .str (decimalText account.netExposure)),
     ("leverage", money account.leverage),
     ("realized_pnl", .str (decimalText account.realizedPnl)),
     ("unrealized_pnl", .str (decimalText account.unrealizedPnl)),
     ("open_position_count", .int account.openPositionCount),
     ("unmarked_symbols", .list (account.unmarkedSymbols.map .str))]

def encodePosition (p : PositionSummary) : Value :=
  written unknown
    [("symbol", .str p.symbol),
     ("qty", .str (decimalText p.qty)),
     ("avg_entry_price", .str (decimalText p.avgEntryPrice)),
     ("last_price", money p.lastPrice),
     ("market_value", money p.marketValue),
     ("unrealized_pnl", money p.unrealizedPnl),
     ("unrealized_pnl_pct", money p.unrealizedPnlPct),
     ("realized_pnl", .str (decimalText p.realizedPnl)),
     ("fees_paid", .str (decimalText p.feesPaid)),
     ("stop_loss_price", money p.stopLossPrice),
     ("take_profit_price", money p.takeProfitPrice),
     ("distance_to_stop_pct", money p.distanceToStopPct),
     ("broker_protected_qty", .str (decimalText p.brokerProtectedQty)),
     ("unprotected_qty", .str (decimalText p.unprotectedQty)),
     ("protection", .str p.protection),
     ("strategy_id", ofString p.strategyId),
     ("opened_at", tsText iso p.openedAt)]

def encodeSignal (s : SignalSummary) : Value :=
  written unknown
    [("id", .str s.id),
     ("ts", .str (iso.isoformat s.ts)),
     ("strategy_id", .str s.strategyId),
     ("symbol", .str s.symbol),
     ("action", .str s.action),
     ("reason", .str s.reason),
     ("indicators", ofTexts s.indicators),
     ("acted_on", .bool s.actedOn),
     ("rejection_reason", ofString s.rejectionReason),
     ("rejected_by", ofString s.rejectedBy)]

def encodeOrder (o : OrderSummary) : Value :=
  written unknown
    [("id", .str o.id),
     ("client_order_id", .str o.clientOrderId),
     ("ts", tsText iso o.ts),
     ("symbol", .str o.symbol),
     ("side", .str o.side),
     ("order_type", .str o.orderType),
     ("qty", .str (decimalText o.qty)),
     ("filled_qty", .str (decimalText o.filledQty)),
     ("limit_price", money o.limitPrice),
     ("stop_price", money o.stopPrice),
     ("avg_fill_price", money o.avgFillPrice),
     ("status", .str o.status),
     ("strategy_id", ofString o.strategyId)]

/-- **`encode_snapshot`**, by a writer that knows every field or an older one. -/
def encodeSnapshot (s : LiveSnapshot) : Value :=
  written unknown
    [("version", .int 1),
     ("as_of", .str (iso.isoformat s.asOf)),
     ("run_mode", .str s.runMode.value),
     ("strategy", ofString s.strategy),
     ("last_data_at", tsText iso s.lastDataAt),
     ("symbols", .list (s.symbols.map .str)),
     ("account", encodeAccount unknown s.account),
     ("positions", .list (s.positions.map (encodePosition iso unknown))),
     ("recent_signals", .list (s.recentSignals.map (encodeSignal iso unknown))),
     ("working_orders", .list (s.workingOrders.map (encodeOrder iso unknown)))]

/-- `RunMode(value)`. -/
def runModeOf (v : Value) : Option RunMode := do
  let text ← string? v
  [RunMode.backtest, .paper, .live].find? fun mode => mode.value = text

def decodeAccount (account : Value) : Option AccountSummary := do
  return {
    equity := ← requireDecimal (← item account "equity")
    cash := ← requireDecimal (← item account "cash")
    grossExposure := ← requireDecimal (← item account "gross_exposure")
    netExposure := ← requireDecimal (← item account "net_exposure")
    leverage := ← decimal (← item account "leverage")
    realizedPnl := ← requireDecimal (← item account "realized_pnl")
    unrealizedPnl := ← requireDecimal (← item account "unrealized_pnl")
    openPositionCount := ← int? (← item account "open_position_count")
    unmarkedSymbols := ← strings (← getOr account "unmarked_symbols" (.tuple [])) }

def decodePosition (p : Value) : Option PositionSummary := do
  return {
    symbol := ← string? (← item p "symbol")
    qty := ← requireDecimal (← item p "qty")
    avgEntryPrice := ← requireDecimal (← item p "avg_entry_price")
    lastPrice := ← decimal (← item p "last_price")
    marketValue := ← decimal (← item p "market_value")
    unrealizedPnl := ← decimal (← item p "unrealized_pnl")
    unrealizedPnlPct := ← decimal (← item p "unrealized_pnl_pct")
    realizedPnl := ← requireDecimal (← item p "realized_pnl")
    feesPaid := ← requireDecimal (← item p "fees_paid")
    stopLossPrice := ← decimal (← item p "stop_loss_price")
    takeProfitPrice := ← decimal (← item p "take_profit_price")
    distanceToStopPct := ← decimal (← item p "distance_to_stop_pct")
    brokerProtectedQty := ← requireDecimal (← getOr p "broker_protected_qty" (.str "0"))
    unprotectedQty := ← requireDecimal (← getOr p "unprotected_qty" (.str "0"))
    protection := ← string? (← getOr p "protection" (.str PROTECTION_NONE))
    strategyId := ← stringOrNone (← item p "strategy_id")
    openedAt := ← parseTs iso (← item p "opened_at") }

def decodeSignal (s : Value) : Option SignalSummary := do
  return {
    id := ← string? (← item s "id")
    ts := ← requireTs iso (← item s "ts")
    strategyId := ← string? (← item s "strategy_id")
    symbol := ← string? (← item s "symbol")
    action := ← string? (← item s "action")
    reason := ← string? (← item s "reason")
    indicators := ← texts (← item s "indicators")
    actedOn := truthy (← item s "acted_on")
    rejectionReason := ← stringOrNone (← item s "rejection_reason")
    rejectedBy := ← stringOrNone (← getOr s "rejected_by" .none) }

def decodeOrder (o : Value) : Option OrderSummary := do
  return {
    id := ← string? (← item o "id")
    clientOrderId := ← string? (← item o "client_order_id")
    ts := ← parseTs iso (← item o "ts")
    symbol := ← string? (← item o "symbol")
    side := ← string? (← item o "side")
    orderType := ← string? (← item o "order_type")
    qty := ← requireDecimal (← item o "qty")
    filledQty := ← requireDecimal (← item o "filled_qty")
    limitPrice := ← decimal (← item o "limit_price")
    stopPrice := ← decimal (← item o "stop_price")
    avgFillPrice := ← decimal (← item o "avg_fill_price")
    status := ← string? (← item o "status")
    strategyId := ← stringOrNone (← item o "strategy_id") }

/-- **`decode_snapshot`**; `none` where it raises. -/
def decodeSnapshot (payload : Value) : Option LiveSnapshot := do
  return {
    asOf := ← requireTs iso (← item payload "as_of")
    runMode := ← runModeOf (← item payload "run_mode")
    account := ← decodeAccount (← item payload "account")
    positions := ← (← iter (← item payload "positions")).mapM (decodePosition iso)
    recentSignals := ← (← iter (← item payload "recent_signals")).mapM (decodeSignal iso)
    workingOrders := ← (← iter (← item payload "working_orders")).mapM (decodeOrder iso)
    strategy := ← stringOrNone (← getOr payload "strategy" .none)
    lastDataAt := ← parseTs iso (← getOr payload "last_data_at" .none)
    symbols := ← strings (← getOr payload "symbols" (.tuple [])) }

end Documents

/-! ## Reading back -/

theorem decimal_text (d : Decimal) : decimal (.str (decimalText d)) = some (some d) := by
  unfold decimal pyText decimalText
  cases d with
  | finite d => simp [Decimal.ofText_str]
  | infinity negative => cases negative <;> rfl
  | nan => rfl

@[simp] theorem decimal_money (o : Option Decimal) : decimal (money o) = some o := by
  cases o with
  | none => rfl
  | some d => exact decimal_text d

@[simp] theorem requireDecimal_text (d : Decimal) : requireDecimal (.str (decimalText d)) = some d := by
  unfold requireDecimal
  rw [decimal_text]
  rfl

@[simp] theorem stringOrNone_ofString (o : Option String) : stringOrNone (ofString o) = some o := by
  cases o <;> rfl

@[simp] theorem parseTs_tsText (iso : IsoFormat) (o : Option ℤ) : parseTs iso (tsText iso o) = some o := by
  cases o with
  | none => rfl
  | some t => simp [parseTs, tsText, iso.inverse]

@[simp] theorem requireTs_text (iso : IsoFormat) (t : ℤ) : requireTs iso (.str (iso.isoformat t)) = some t := by
  simp [requireTs, parseTs, iso.inverse]

@[simp] theorem strings_list (l : List String) : strings (.list (l.map .str)) = some l := by
  unfold strings iter
  rw [Option.bind_some]
  induction l with
  | nil => rfl
  | cons s l ih =>
    rw [List.map_cons, List.mapM_cons, ih]
    rfl

@[simp] theorem string?_str (s : String) : string? (.str s) = some s := rfl

@[simp] theorem stringOrNone_none : stringOrNone .none = some none := rfl

@[simp] theorem parseTs_none (iso : IsoFormat) : parseTs iso .none = some none := rfl

@[simp] theorem strings_nil : strings (.tuple []) = some [] := rfl

@[simp] theorem requireDecimal_zero : requireDecimal (.str "0") = some (.finite ⟨false, 0, 0⟩) := by decide

@[simp] theorem texts_ofTexts (d : Dict String String) : texts (ofTexts d) = some d := by
  have hfields : ∀ l : List (String × String),
      (l.map fun f => (JsonValues.Key.str f.1, Value.str f.2)).mapM textField = some l := by
    intro l
    induction l with
    | nil => rfl
    | cons f l ih =>
      rw [List.map_cons, List.mapM_cons, ih]
      rfl
  unfold texts ofTexts
  simp only [hfields, Option.bind_some, d.nodup, dite_true]

@[simp] theorem runModeOf_value (mode : RunMode) : runModeOf (.str mode.value) = some mode := by
  cases mode <;> decide

section Written

variable {iso : IsoFormat} {unknown : String → Bool} {fields : List (String × Value)} {name : String}

theorem item_written (h : optional.contains name = false) : item (written unknown fields) name = fields.lookup name := by
  unfold written
  rw [JsonValues.item_document, h]
  rfl

theorem getOr_written (h : optional.contains name = true) (default : Value) : getOr (written unknown fields) name default =
    some (if unknown name then default else (fields.lookup name).getD default) := by
  unfold written
  rw [JsonValues.getOr_document, h, Bool.true_and]
  cases unknown name <;> rfl

/-- What is read of an older document: the fields it did not know as they are defaulted. -/
def AccountSummary.since (unknown : String → Bool) (a : AccountSummary) : AccountSummary :=
  { a with unmarkedSymbols := if unknown "unmarked_symbols" then [] else a.unmarkedSymbols }

def zero : Decimal := .finite ⟨false, 0, 0⟩

def PositionSummary.since (unknown : String → Bool) (p : PositionSummary) : PositionSummary :=
  { p with
    brokerProtectedQty := if unknown "broker_protected_qty" then zero else p.brokerProtectedQty
    unprotectedQty := if unknown "unprotected_qty" then zero else p.unprotectedQty
    protection := if unknown "protection" then PROTECTION_NONE else p.protection }

def SignalSummary.since (unknown : String → Bool) (s : SignalSummary) : SignalSummary :=
  { s with rejectedBy := if unknown "rejected_by" then none else s.rejectedBy }

def LiveSnapshot.since (unknown : String → Bool) (s : LiveSnapshot) : LiveSnapshot :=
  { s with
    account := s.account.since unknown
    positions := s.positions.map (PositionSummary.since unknown)
    recentSignals := s.recentSignals.map (SignalSummary.since unknown)
    strategy := if unknown "strategy" then none else s.strategy
    lastDataAt := if unknown "last_data_at" then none else s.lastDataAt
    symbols := if unknown "symbols" then [] else s.symbols }

theorem decodeAccount_encode (a : AccountSummary) : decodeAccount (encodeAccount unknown a) = some (a.since unknown) := by
  unfold decodeAccount encodeAccount AccountSummary.since
  simp (disch := decide) only [item_written, getOr_written]
  cases unknown "unmarked_symbols" <;> simp [List.lookup_cons, int?]

theorem decodePosition_encode (p : PositionSummary) :
    decodePosition iso (encodePosition iso unknown p) = some (p.since unknown) := by
  unfold decodePosition encodePosition PositionSummary.since zero
  simp (disch := decide) only [item_written, getOr_written]
  cases unknown "broker_protected_qty" <;> cases unknown "unprotected_qty" <;> cases unknown "protection" <;>
    simp [List.lookup_cons]

theorem decodeSignal_encode (s : SignalSummary) : decodeSignal iso (encodeSignal iso unknown s) = some (s.since unknown) := by
  unfold decodeSignal encodeSignal SignalSummary.since
  simp (disch := decide) only [item_written, getOr_written]
  cases unknown "rejected_by" <;> simp [List.lookup_cons, truthy]

variable (iso unknown) in
theorem decodeOrder_encode (o : OrderSummary) : decodeOrder iso (encodeOrder iso unknown o) = some o := by
  unfold decodeOrder encodeOrder
  simp (disch := decide) only [item_written]
  simp [List.lookup_cons]

theorem mapM_read {α : Type} {enc : α → Value} {dec : Value → Option α} {f : α → α} (h : ∀ a, dec (enc a) = some (f a)) :
    ∀ l : List α, (l.map enc).mapM dec = some (l.map f)
  | [] => rfl
  | a :: l => by
    rw [List.map_cons, List.mapM_cons, h, mapM_read h l]
    rfl

/-- **A snapshot reads back as it was taken**, and one of an older writer with the defaults of what it did not know. -/
theorem decodeSnapshot_encode (s : LiveSnapshot) :
    decodeSnapshot iso (encodeSnapshot iso unknown s) = some (s.since unknown) := by
  have horders := mapM_read (f := id) (decodeOrder_encode iso unknown) s.workingOrders
  rw [List.map_id] at horders
  unfold decodeSnapshot encodeSnapshot LiveSnapshot.since
  simp (disch := decide) only [item_written, getOr_written]
  cases unknown "strategy" <;> cases unknown "last_data_at" <;> cases unknown "symbols" <;>
    simp [List.lookup_cons, iter, decodeAccount_encode, mapM_read decodePosition_encode, mapM_read decodeSignal_encode,
      horders]

/-! ## What may be written -/

theorem stored_money (o : Option Decimal) : Stored (money o) := by
  cases o with
  | none => exact .none
  | some d => exact .str _

theorem stored_ofString (o : Option String) : Stored (ofString o) := by
  cases o with
  | none => exact .none
  | some s => exact .str s

theorem stored_tsText (iso : IsoFormat) (o : Option ℤ) : Stored (tsText iso o) := by
  cases o with
  | none => exact .none
  | some t => exact .str _

theorem stored_strings (l : List String) : Stored (.list (l.map .str)) :=
  .list fun v hv => by
    obtain ⟨s, -, rfl⟩ := List.mem_map.1 hv
    exact .str s

theorem stored_ofTexts (d : Dict String String) : Stored (ofTexts d) := by
  have hnames : ((d.entries.map fun f => (f.1, Value.str f.2)).map Prod.fst).Nodup := by
    rw [List.map_map]
    exact d.nodup
  have hstored := Stored.document (fun _ => false) hnames fun f hf => by
    obtain ⟨g, -, rfl⟩ := List.mem_map.1 hf
    exact .str _
  have heq : document (fun _ => false) (d.entries.map fun f => (f.1, Value.str f.2)) = ofTexts d := by
    unfold document ofTexts
    simp
  exact heq ▸ hstored

/-- A count that can be printed. -/
def Printable (s : LiveSnapshot) : Prop := s.account.openPositionCount.natAbs < 10 ^ 4300

theorem stored_items {α : Type} {enc : α → Value} (h : ∀ a, Stored (enc a)) (l : List α) : Stored (.list (l.map enc)) :=
  .list fun v hv => by
    obtain ⟨a, -, rfl⟩ := List.mem_map.1 hv
    exact h a

/-- **Every snapshot can be written.** -/
theorem stored_snapshot {s : LiveSnapshot} (h : Printable s) : Stored (encodeSnapshot iso unknown s) := by
  have haccount : Stored (encodeAccount unknown s.account) := by
    unfold encodeAccount written
    refine .document _ (by simp) ?_
    simp [Stored.str, stored_money, stored_strings, Stored.int h]
  have hposition : ∀ p, Stored (encodePosition iso unknown p) := fun p => by
    unfold encodePosition written
    refine .document _ (by simp) ?_
    simp [Stored.str, stored_money, stored_ofString, stored_tsText]
  have hsignal : ∀ s, Stored (encodeSignal iso unknown s) := fun s => by
    unfold encodeSignal written
    refine .document _ (by simp) ?_
    simp [Stored.str, stored_ofString, stored_ofTexts, Stored.bool]
  have horder : ∀ o, Stored (encodeOrder iso unknown o) := fun o => by
    unfold encodeOrder written
    refine .document _ (by simp) ?_
    simp [Stored.str, stored_money, stored_ofString, stored_tsText]
  have hversion : Stored (.int 1) := .int (by norm_num)
  unfold encodeSnapshot written
  refine .document _ (by simp) ?_
  simp [Stored.str, stored_ofString, stored_tsText, stored_strings, haccount, hversion, stored_items hposition,
    stored_items hsignal, stored_items horder]

end Written

/-! ## Quotes -/

structure Quote where
  symbol : String
  ts : ℤ
  bid : Decimal
  ask : Decimal
  bidSize : Decimal := zero
  askSize : Decimal := zero

section Store

variable (iso : IsoFormat)

/-- **`_encode`**. -/
def encodeQuote (q : Quote) : Value :=
  document (fun _ => false)
    [("symbol", .str q.symbol),
     ("ts", .str (iso.isoformat q.ts)),
     ("bid", .str (decimalText q.bid)),
     ("ask", .str (decimalText q.ask)),
     ("bid_size", .str (decimalText q.bidSize)),
     ("ask_size", .str (decimalText q.askSize))]

/-- `Decimal(payload[name])` of a text. -/
def decimalItem (payload : Value) (name : String) : Option Decimal := do
  let text ← string? (← item payload name)
  Decimal.ofText text.toList

/-- **`_decode`**; `none` where it logs. -/
def decodeQuote (payload : Value) : Option Quote := do
  return {
    symbol := ← string? (← item payload "symbol")
    ts := ← (string? (← item payload "ts")).bind iso.fromisoformat
    bid := ← decimalItem payload "bid"
    ask := ← decimalItem payload "ask"
    bidSize := ← decimalItem payload "bid_size"
    askSize := ← decimalItem payload "ask_size" }

/-! ## The store -/

/-- What Redis keeps under a key: a text, and when it goes. -/
structure Entry where
  text : Doc
  expireAt : ℤ

abbrev Redis := Dict String Entry

/-- Seven days of microseconds. -/
def ttl : ℤ := 7 * 24 * 60 * 60 * 1000000

def quoteKey (symbol : String) : String := "atp:md:quote:" ++ symbol

def snapshotKey (runMode : RunMode) : String := "atp:dashboard:live:" ++ runMode.value

/-- A write of the worker: a quote, or a snapshot by a writer of some age. -/
inductive Published where
  | quote (q : Quote)
  | snapshot (unknown : String → Bool) (s : LiveSnapshot)

def Published.key : Published → String
  | quote q => quoteKey q.symbol
  | snapshot _ s => snapshotKey s.runMode

def Published.payload : Published → Value
  | quote q => encodeQuote iso q
  | snapshot unknown s => encodeSnapshot iso unknown s

/-- **`set_quote` and `put`**: what `json.dumps` refuses is not written. -/
def publish (redis : Redis) (p : Published) (now : ℤ) : Redis :=
  match dumps (p.payload iso) with
  | .ok text => redis.set p.key ⟨text, now + ttl⟩
  | .error _ => redis

/-- `GET`. -/
def fetch (redis : Redis) (key : String) (now : ℤ) : Option Doc :=
  ((redis.get? key).filter fun e => now < e.expireAt).map Entry.text

/-- **`get_quote`**: an unreadable payload is none. -/
def getQuote (redis : Redis) (symbol : String) (now : ℤ) : Option Quote :=
  (fetch redis (quoteKey symbol) now).bind fun text => decodeQuote iso (loads text)

/-- **`get_quotes`**: the symbols once each, and of them the ones that are read. -/
def getQuotes (redis : Redis) (symbols : List String) (now : ℤ) : Dict String Quote :=
  let ordered := (symbols.foldl (fun d s => d.set s ()) (Dict.empty : Dict String Unit)).keys
  ordered.foldl (fun quotes symbol => (getQuote iso redis symbol now).elim quotes (quotes.set symbol)) .empty

/-- **`RedisSnapshotStore.get`**: nothing, a snapshot, or the refusal of what does not parse. -/
def getSnapshot (redis : Redis) (runMode : RunMode) (now : ℤ) : Except Unit (Option LiveSnapshot) :=
  match fetch redis (snapshotKey runMode) now with
  | none => .ok none
  | some text =>
    match decodeSnapshot iso (loads text) with
    | some s => .ok (some s)
    | none => .error ()

/-- What a run of writes leaves, each with its instant. -/
def run (writes : List (Published × ℤ)) : Redis := writes.foldl (fun redis w => publish iso redis w.1 w.2) .empty

variable {iso}

theorem decodeQuote_encode (q : Quote) : decodeQuote iso (encodeQuote iso q) = some q := by
  have htext (d : Decimal) : Decimal.ofText (decimalText d).toList = some d := by
    have hread := decimal_text d
    unfold decimal pyText at hread
    simpa using hread
  unfold decodeQuote encodeQuote decimalItem
  simp only [JsonValues.item_document]
  simp [List.lookup_cons, iso.inverse, htext]

theorem stored_quote (q : Quote) : Stored (encodeQuote iso q) := by
  unfold encodeQuote
  refine .document _ (by simp) ?_
  simp [Stored.str]

/-- A write whose document JSON carries. -/
def Published.Sendable : Published → Prop
  | quote _ => True
  | snapshot _ s => Printable s

variable (iso) in
theorem stored_payload {p : Published} (h : p.Sendable) : Stored (p.payload iso) := by
  cases p with
  | quote q => exact stored_quote q
  | snapshot unknown s => exact stored_snapshot h

theorem run_concat (writes : List (Published × ℤ)) (w : Published × ℤ) :
    run iso (writes ++ [w]) = publish iso (run iso writes) w.1 w.2 := by
  unfold run
  rw [List.foldl_append, List.foldl_cons, List.foldl_nil]

variable (iso) in
/-- **Under a key stands the last write of it.** -/
theorem run_fetch (writes : List (Published × ℤ)) (h : ∀ w ∈ writes, w.1.Sendable) (key : String) (now : ℤ) :
    (fetch (run iso writes) key now).map loads =
      ((writes.filter fun w => w.1.key = key).getLast?.filter fun w => now < w.2 + ttl).map fun w => w.1.payload iso := by
  induction writes using List.reverseRecOn with
  | nil => rfl
  | append_singleton writes w ih =>
    obtain ⟨text, hdumps, -, hloads⟩ := (stored_payload iso (h w (by simp))).loads
    have hpublish (redis : Redis) : publish iso redis w.1 w.2 = redis.set w.1.key ⟨text, w.2 + ttl⟩ := by
      unfold publish
      rw [hdumps]
    rw [run_concat, hpublish, List.filter_append, List.filter_cons, List.filter_nil]
    unfold fetch
    by_cases hkey : w.1.key = key
    · -- the last write is of this key
      rw [hkey, Dict.get?_set_self, if_pos (by simp), List.getLast?_concat]
      by_cases hlive : now < w.2 + ttl <;> simp [Option.filter, hlive, hloads]
    · rw [Dict.get?_set_ne _ _ (Ne.symm hkey), if_neg (by simpa using hkey), List.append_nil]
      exact ih fun v hv => h v (by simp [hv])

/-! ## What was published for one reader -/

/-- The snapshot of a mode that a write carries, as it is read. -/
def Published.book (runMode : RunMode) : Published → Option LiveSnapshot
  | quote _ => none
  | snapshot unknown s => if s.runMode = runMode then some (s.since unknown) else none

/-- The quote of a symbol that a write carries. -/
def Published.quoteOf (symbol : String) : Published → Option Quote
  | quote q => if q.symbol = symbol then some q else none
  | snapshot _ _ => none

/-- The last of what the writes carry for a reader, while it is kept. -/
def lastKept {α : Type} (carries : Published → Option α) (writes : List (Published × ℤ)) (now : ℤ) : Option α :=
  ((writes.filterMap fun w => (carries w.1).map fun a => (a, w.2)).getLast?.filter fun w => now < w.2 + ttl).map Prod.fst

theorem getLast?_filterMap {α β : Type} {f : α → Option β} {p : α → Bool} (h : ∀ a, p a = (f a).isSome) (l : List α) :
    (l.filterMap f).getLast? = (l.filter p).getLast?.bind f := by
  induction l using List.reverseRecOn with
  | nil => rfl
  | append_singleton l a ih =>
    rw [List.filterMap_append, List.filter_append, List.filter_cons, List.filter_nil, h a]
    cases hf : f a with
    | none => simpa [hf] using ih
    | some b => simp [hf]

variable (iso) in
/-- **What a reader finds under its key is the last thing published for it.** -/
theorem run_read {α : Type} {carries : Published → Option α} (read : Value → Option α) {key : String}
    (hkey : ∀ p, p.key = key ↔ (carries p).isSome) (hread : ∀ p, p.key = key → read (p.payload iso) = carries p)
    {writes : List (Published × ℤ)} (h : ∀ w ∈ writes, w.1.Sendable) (now : ℤ) :
    (fetch (run iso writes) key now).map (fun text => read (loads text)) =
      (lastKept carries writes now).map some := by
  have hfetch := congrArg (Option.map read) (run_fetch iso writes h key now)
  rw [Option.map_map, Option.map_map] at hfetch
  unfold lastKept
  rw [getLast?_filterMap (p := fun w => decide (w.1.key = key)) (fun w => by
    rw [Bool.eq_iff_iff, decide_eq_true_eq, hkey, Option.isSome_map])]
  refine hfetch.trans ?_
  cases hlast : (writes.filter fun w => w.1.key = key).getLast? with
  | none => rfl
  | some w =>
    have hmem := List.mem_of_getLast? hlast
    have hw : w.1.key = key := by simpa using (List.mem_filter.1 hmem).2
    obtain ⟨a, ha⟩ := Option.isSome_iff_exists.1 ((hkey w.1).1 hw)
    by_cases hlive : now < w.2 + ttl <;> simp [Option.filter, hlive, hread w.1 hw, ha]

theorem quoteKey_inj {a b : String} : quoteKey a = quoteKey b ↔ a = b := by
  unfold quoteKey
  simp

theorem snapshotKey_inj {a b : RunMode} : snapshotKey a = snapshotKey b ↔ a = b := by
  cases a <;> cases b <;> decide

theorem quoteKey_ne (symbol : String) (runMode : RunMode) : quoteKey symbol ≠ snapshotKey runMode := by
  intro h
  have hlist := congrArg String.toList h
  unfold quoteKey snapshotKey at hlist
  simp at hlist

theorem book_key (runMode : RunMode) (p : Published) : p.key = snapshotKey runMode ↔ (p.book runMode).isSome := by
  cases p with
  | quote q => simp [Published.key, Published.book, quoteKey_ne]
  | snapshot unknown s =>
    simp only [Published.key, Published.book, snapshotKey_inj]
    split <;> simp [*]

theorem quote_key (symbol : String) (p : Published) : p.key = quoteKey symbol ↔ (p.quoteOf symbol).isSome := by
  cases p with
  | quote q =>
    simp only [Published.key, Published.quoteOf, quoteKey_inj]
    split <;> simp [*]
  | snapshot unknown s => simp [Published.key, Published.quoteOf, (quoteKey_ne _ _).symm]

/-- **The book that is read is the last one published for the mode**, every figure digit for digit: not an older one, not another
mode's, never a mixture of two, and never a refusal. -/
theorem book_read (iso : IsoFormat) (writes : List (Published × ℤ)) (h : ∀ w ∈ writes, w.1.Sendable) (runMode : RunMode)
    (now : ℤ) : getSnapshot iso (run iso writes) runMode now = .ok (lastKept (Published.book runMode) writes now) := by
  have hread := run_read iso (decodeSnapshot iso) (book_key runMode) (fun p hp => by
    cases p with
    | quote q => exact absurd hp (quoteKey_ne _ _)
    | snapshot unknown s =>
      rw [Published.book, if_pos (snapshotKey_inj.1 hp)]
      exact decodeSnapshot_encode s) h now
  unfold getSnapshot
  cases hfetch : fetch (run iso writes) (snapshotKey runMode) now with
  | none =>
    rw [hfetch] at hread
    cases hkept : lastKept (Published.book runMode) writes now with
    | none => rfl
    | some s => rw [hkept] at hread; cases hread
  | some text =>
    rw [hfetch] at hread
    cases hkept : lastKept (Published.book runMode) writes now with
    | none => rw [hkept] at hread; cases hread
    | some s =>
      rw [hkept] at hread
      rw [Option.map_some, Option.map_some, Option.some.injEq] at hread
      simp only [hread]

def ten : Decimal := .finite ⟨false, 10, 0⟩

def hundred : Decimal := .finite ⟨false, 1000000, -4⟩

/-- Ten shares that stand at ten dollars, covered by a stop. -/
def held : PositionSummary where
  symbol := "SPY"
  qty := ten
  avgEntryPrice := ten
  lastPrice := some ten
  marketValue := some hundred
  unrealizedPnl := some zero
  unrealizedPnlPct := none
  realizedPnl := zero
  feesPaid := zero
  stopLossPrice := some zero
  takeProfitPrice := none
  distanceToStopPct := none
  brokerProtectedQty := ten
  unprotectedQty := zero
  protection := "broker"
  strategyId := some "s"
  openedAt := some 0

def seen : SignalSummary where
  id := "n"
  ts := 0
  strategyId := "s"
  symbol := "SPY"
  action := "enter_long"
  reason := "crossed"
  indicators := Dict.empty.set "sma" "9.5"
  actedOn := false
  rejectionReason := some "too large"
  rejectedBy := some "max_position_size"

def stop : OrderSummary where
  id := "o"
  clientOrderId := "c"
  ts := some 0
  symbol := "SPY"
  side := "sell"
  orderType := "stop"
  qty := ten
  filledQty := zero
  limitPrice := none
  stopPrice := some zero
  avgFillPrice := none
  status := "accepted"
  strategyId := some "s"

/-- A book of two hundred, half of it in one position. -/
def opening : LiveSnapshot where
  asOf := 0
  runMode := .paper
  account := ⟨.finite ⟨false, 2000000, -4⟩, hundred, hundred, hundred, none, zero, zero, 1, []⟩
  positions := [held]
  recentSignals := [seen]
  workingOrders := [stop]
  strategy := some "sma"
  lastDataAt := some 0
  symbols := ["SPY"]

/-- Another mode's book on top of it, and both read by a reader that knows more than the writer did. -/
theorem book_read_older :
    let writes := [(Published.snapshot (fun name => name ∈ ["strategy", "protection", "rejected_by"]) opening, 0),
      (.snapshot (fun _ => false) { opening with runMode := .live }, 1)]
    getSnapshot epochFormat (run epochFormat writes) .paper 5 =
      .ok (some { opening with
        positions := [{ held with protection := PROTECTION_NONE }]
        recentSignals := [{ seen with rejectedBy := none }]
        strategy := none }) :=
  (book_read epochFormat _ (fun w hw => by
    have hlimit (n : ℕ) (hn : n ≠ 0) : 1 < 10 ^ n := Nat.one_lt_pow hn (by decide)
    obtain rfl | rfl : w = _ ∨ w = _ := by simpa using hw
    all_goals exact hlimit 4300 (by decide)) .paper 5).trans rfl

theorem getQuote_run {writes : List (Published × ℤ)} (h : ∀ w ∈ writes, w.1.Sendable) (symbol : String) (now : ℤ) :
    getQuote iso (run iso writes) symbol now = lastKept (Published.quoteOf symbol) writes now := by
  have hread := run_read iso (decodeQuote iso) (quote_key symbol) (fun p hp => by
    cases p with
    | quote q =>
      rw [Published.quoteOf, if_pos (quoteKey_inj.1 hp)]
      exact decodeQuote_encode q
    | snapshot unknown s => exact absurd hp (quoteKey_ne _ _).symm) h now
  unfold getQuote
  have hbind : ((fetch (run iso writes) (quoteKey symbol) now).bind fun text => decodeQuote iso (loads text)) =
      ((fetch (run iso writes) (quoteKey symbol) now).map fun text => decodeQuote iso (loads text)).join := by
    cases fetch (run iso writes) (quoteKey symbol) now <;> rfl
  rw [hbind, hread]
  cases lastKept (Published.quoteOf symbol) writes now <;> rfl

theorem get?_foldl_read {α : Type} (read : String → Option α) (symbol : String) : ∀ (l : List String) (d : Dict String α),
    (l.foldl (fun d s => (read s).elim d (d.set s)) d).get? symbol =
      if symbol ∈ l then (read symbol).or (d.get? symbol) else d.get? symbol
  | [], d => by simp
  | s :: l, d => by
    rw [List.foldl_cons, get?_foldl_read read symbol l]
    by_cases hs : symbol = s
    · subst hs
      cases hread : read symbol <;> simp
    · cases hread : read s <;> simp [hs, Dict.get?_set_ne]

theorem mem_ordered (symbol : String) (symbols : List String) :
    symbol ∈ (symbols.foldl (fun d s => d.set s ()) (Dict.empty : Dict String Unit)).keys ↔ symbol ∈ symbols := by
  rw [Dict.mem_keys_iff, Dict.get?_foldl_set (fun s => s) (fun _ => ())]
  by_cases h : symbol ∈ symbols
  · have hne : symbols.filter (fun s => s = symbol) ≠ [] := fun hnil =>
      List.filter_eq_nil_iff.1 hnil symbol h (decide_eq_true rfl)
    simp [List.getLast?_eq_some_getLast hne, h]
  · have hnil : symbols.filter (fun s => s = symbol) = [] :=
      List.filter_eq_nil_iff.2 fun s hs heq => h (of_decide_eq_true heq ▸ hs)
    simp [hnil, h]

/-- **One read of the watchlist** gives, of every symbol asked for, the last quote published for it, digit for digit, and nothing of
any other symbol. -/
theorem quotes_read (iso : IsoFormat) (writes : List (Published × ℤ)) (h : ∀ w ∈ writes, w.1.Sendable) (symbols : List String)
    (symbol : String) (now : ℤ) : (getQuotes iso (run iso writes) symbols now).get? symbol =
      if symbol ∈ symbols then lastKept (Published.quoteOf symbol) writes now else none := by
  simp only [getQuotes, get?_foldl_read, mem_ordered, getQuote_run h, Dict.get?_empty, Option.or_none]

theorem quotes_read_newest :
    let first : Quote := ⟨"SPY", 0, .finite ⟨false, 50010, -2⟩, .finite ⟨false, 50020, -2⟩, zero, zero⟩
    let second : Quote := ⟨"SPY", 0, .finite ⟨false, 500100, -3⟩, .finite ⟨false, 50030, -2⟩, zero, zero⟩
    let other : Quote := ⟨"QQQ", 0, zero, zero, zero, zero⟩
    let writes := [(Published.quote first, 0), (.quote other, 1), (.quote second, 2)]
    (getQuotes epochFormat (run epochFormat writes) ["IWM", "SPY"] 5).get? "SPY" = some second :=
  (quotes_read epochFormat _ (fun w hw => by
    obtain rfl | rfl | rfl : w = _ ∨ w = _ ∨ w = _ := by simpa using hw
    all_goals trivial) ["IWM", "SPY"] "SPY" 5).trans rfl

end Store

end PublishedState
end Atp
