import AlgoTrading.Levels
import AlgoTrading.Lookahead
import AlgoTrading.SimulatedBroker
import AlgoTrading.TradeStreams
/-!
# TradeAccounts — the round trips a backtest tallies, and the trades rebuilt from its orders

`_execute` records a profit when a position is flat again; `build_trades` closes a trade there and at every fill that carries
the position through zero.  Over one history the two mirror each other fill by fill, so they tell the same as long as no
fill crosses, and the orders of a run hold its history (`accounts_agree_iff`).
-/
namespace Atp
namespace Backtest
namespace TradeAccounts

open Raising PerformanceAnalyzer

variable {L σ τ α : Type}

/-- A fill as the run's log has it: the order it was for, and what was held before and after. -/
structure Booking where
  order : Order
  fill : Fill
  before : ℚ
  after : ℚ

def bookingOf : Event σ τ → Option Booking
  | .booked order fill before after => some { order := order, fill := fill, before := before, after := after }
  | .bar _ _ => none

def bookings (log : List (Event σ τ)) : List Booking := log.filterMap bookingOf

def Booking.print (b : Booking) : Print := printOf b.order b.fill

/-- The fills, as they happened. -/
def history (l : List Booking) : List Print := l.map Booking.print

/-- The fill carried its position through zero. -/
def Booking.Crosses (b : Booking) : Prop := b.before * b.after < 0

instance : DecidablePred Booking.Crosses := fun b => inferInstanceAs (Decidable (b.before * b.after < 0))

def crossings (l : List Booking) : ℕ := l.countP fun b => b.Crosses

/-- **The two accounts agree**: up to the order of trades closed at one instant, the profits recorded are the net profits of
the trades rebuilt. -/
def Agree (s : EngineState σ τ) : Prop :=
  ∃ l : List TradeRecord, l.Perm (buildTrades s.orders.values) ∧
    l.map TradeRecord.exitTs = (buildTrades s.orders.values).map TradeRecord.exitTs ∧ l.map TradeRecord.netPnl = s.tradePnls

/-! ## What a fill does to the tallies -/

section
variable {eng : BacktestEngine L σ τ} {bars : Dict String (List Bar)} {s t : EngineState σ τ} {o : Order} {f : Fill}

theorem armed_account (atr : Option ℚ) (levels : Option (Option ℚ × Option ℚ)) (p : Position) :
    (armFromConfig eng atr (Levels.withLevels p levels)).account = p.account := by
  rw [Levels.armFromConfig_eq]
  cases levels <;> rfl

/-- What is recorded as the base of a symbol, once a fill has met a position. -/
def baseAt (s : EngineState σ τ) (symbol : String) : ℚ :=
  if (s.portfolio.position symbol).qty = 0 then (s.portfolio.position symbol).net
  else (s.tradeBase.get? symbol).getD (s.portfolio.position symbol).net

/-- **What booking a fill records**: at the first fill of a position its base, and at the last one the profit since. -/
structure Tallied (s : EngineState σ τ) (o : Order) (f : Fill) (t : EngineState σ τ) : Prop where
  positive : 0 < f.qty
  position : (t.portfolio.position o.symbol).account = (Levels.settledBy s o f).account
  others : ∀ symbol, symbol ≠ o.symbol → t.portfolio.position symbol = s.portfolio.position symbol
  pnls : t.tradePnls = s.tradePnls ++
    if (Levels.settledBy s o f).qty = 0 then [(Levels.settledBy s o f).net - baseAt s o.symbol] else []
  base : (Levels.settledBy s o f).qty ≠ 0 → t.tradeBase.get? o.symbol =
    if (s.portfolio.position o.symbol).qty = 0 then some (s.portfolio.position o.symbol).net else s.tradeBase.get? o.symbol
  bases : ∀ symbol, symbol ≠ o.symbol → t.tradeBase.get? symbol = s.tradeBase.get? symbol
  orders : t.orders = s.orders
  drawn : t.drawn = s.drawn

theorem applyToPortfolio_positive {b b' : Portfolio} (h : b.applyToPortfolio o f = .ok b') : 0 < f.qty := by
  unfold Portfolio.applyToPortfolio at h
  cases hf : (b.position o.symbol).applyFill f (f.qty * o.side.sign) with
  | error e => simp [hf] at h
  | ok a => exact (Position.applyFill_ok.1 hf).1

theorem applyToPortfolio_position {b b' : Portfolio} (h : b.applyToPortfolio o f = .ok b') :
    b'.position o.symbol = (b.position o.symbol).settled f (f.qty * o.side.sign) := by
  unfold Portfolio.applyToPortfolio at h
  cases hf : (b.position o.symbol).applyFill f (f.qty * o.side.sign) with
  | error e => simp [hf] at h
  | ok a =>
    obtain ⟨q, realized⟩ := a
    simp only [hf, Except.ok.injEq] at h
    obtain ⟨-, -, -, hq, -⟩ := Position.applyFill_ok.1 hf
    rw [← h, hq]
    simp [Portfolio.position, Portfolio.setPosition]

/-- The bases once a fill has met its position. -/
theorem based_get? (p : Position) (bases : Dict String ℚ) (x : ℚ) (symbol other : String) :
    (if p.isFlat then bases.set symbol x else bases).get? other =
      if other = symbol ∧ p.qty = 0 then some x else bases.get? other := by
  unfold Position.isFlat
  by_cases hflat : p.qty = 0
  · by_cases hs : other = symbol
    · simp [hflat, hs]
    · simp [hflat, hs, Dict.get?_set_ne _ _ hs]
  · simp [hflat]

theorem bookFill_tallied (h : bookFill eng bars o f s = .ok t) : Tallied s o f t := by
  obtain ⟨hposition, hothers, -⟩ := Levels.bookFill_positions h
  have haccount : (t.portfolio.position o.symbol).account = (Levels.settledBy s o f).account := by
    rw [hposition]
    split
    · rfl
    · exact armed_account _ _ _
  unfold bookFill at h
  cases hp : s.portfolio.applyToPortfolio o f with
  | error e => simp [hp] at h
  | ok b =>
    have hb : b.position o.symbol = Levels.settledBy s o f := applyToPortfolio_position hp
    simp only [hp, hb] at h
    by_cases hflat : (Levels.settledBy s o f).qty = 0
    · have hisflat : (Levels.settledBy s o f).isFlat = true := by simp [Position.isFlat, hflat]
      simp only [hisflat, if_true, Except.ok.injEq] at h
      subst h
      refine ⟨applyToPortfolio_positive hp, haccount, hothers, ?_, fun hopen => absurd hflat hopen, ?_, rfl, rfl⟩
      · rw [if_pos hflat, based_get?, baseAt]
        by_cases hwas : (s.portfolio.position o.symbol).qty = 0 <;> simp [hwas, Position.net]
      · intro symbol hs
        rw [Dict.get?_erase, if_neg hs, based_get?, if_neg fun h => hs h.1]
    · have hisflat : (Levels.settledBy s o f).isFlat = false := by simp [Position.isFlat, hflat]
      simp only [hisflat, Bool.false_eq_true, if_false, Except.ok.injEq] at h
      subst h
      refine ⟨applyToPortfolio_positive hp, haccount, hothers, by simp [hflat], fun _ => ?_, ?_, rfl, rfl⟩
      · rw [based_get?]
        simp [Position.net]
      · intro symbol hs
        rw [based_get?, if_neg fun h => hs h.1]

theorem signed_ne_zero (o : Order) (h : 0 < f.qty) : f.qty * o.side.sign ≠ 0 := by
  cases o.side <;> simp [Side.sign, h.ne']

/-! ## Two tellings of one history -/

/-- **The tallies of a run and the pass over its fills**: as much is held, a trade more is closed for every crossing, and
without a crossing the profits are the trades' and each open episode is worth what its position made since its base. -/
structure Told (l : List Booking) (s : EngineState σ τ) : Prop where
  moves : ∀ x ∈ history l, x.event.signedQty ≠ 0
  held : ∀ symbol, s.portfolio.held symbol = (⟨(rounds (history l)).episodes symbol, []⟩ : Scan).held
  based : ∀ symbol, s.portfolio.held symbol ≠ 0 → (s.tradeBase.get? symbol).isSome
  count : (rounds (history l)).trades.length = s.tradePnls.length + crossings l
  pnls : (∀ b ∈ l, ¬b.Crosses) → (rounds (history l)).trades.map TradeRecord.netPnl = s.tradePnls
  mirrors : (∀ b ∈ l, ¬b.Crosses) → ∀ symbol, Mirrors (s.portfolio.position symbol) ((s.tradeBase.get? symbol).getD 0)
    ⟨(rounds (history l)).episodes symbol, []⟩

variable {l : List Booking}

theorem Told.same (h : Told l s) (haccount : ∀ symbol, (t.portfolio.position symbol).account = (s.portfolio.position symbol).account)
    (hpnls : t.tradePnls = s.tradePnls) (hbase : t.tradeBase = s.tradeBase) : Told l t := by
  have hheld (symbol : String) : t.portfolio.held symbol = s.portfolio.held symbol := congrArg Prod.fst (haccount symbol)
  refine ⟨h.moves, fun symbol => (hheld symbol).trans (h.held symbol), fun symbol hne => ?_, hpnls ▸ h.count, hpnls ▸ h.pnls,
    fun hno symbol => ?_⟩
  · rw [hbase]
    exact h.based symbol (hheld symbol ▸ hne)
  · rw [hbase]
    exact (h.mirrors hno symbol).of_account (haccount symbol)

theorem history_append (l : List Booking) (b : Booking) : history (l ++ [b]) = history l ++ [b.print] := by simp [history]

theorem crossings_append (l : List Booking) (b : Booking) :
    crossings (l ++ [b]) = crossings l + if b.before * b.after < 0 then 1 else 0 := by
  unfold crossings
  rw [List.countP_append]
  by_cases h : b.before * b.after < 0 <;> simp [Booking.Crosses, h]

/-- A symbol's episode, before a fill. -/
def scanOf (l : List Booking) (symbol : String) : Scan := ⟨(rounds (history l)).episodes symbol, []⟩

theorem Told.baseAt_eq (h : Told l s) (symbol : String) : baseAt s symbol =
    if (s.portfolio.position symbol).qty = 0 then (s.portfolio.position symbol).net else (s.tradeBase.get? symbol).getD 0 := by
  unfold baseAt
  split
  · rfl
  · rename_i hwas
    obtain ⟨base, hget⟩ := Option.isSome_iff_exists.1 (h.based symbol hwas)
    rw [hget]
    rfl

/-- A fill of no crossing: the position mirrors the episode it leaves, and what it recorded is what closed. -/
theorem Told.mirrored (h : Told l s) (hno : ∀ b ∈ l, ¬b.Crosses) (hpos : 0 < f.qty)
    (hside : 0 ≤ s.portfolio.held o.symbol * (Levels.settledBy s o f).qty) :
    Mirrors (Levels.settledBy s o f) (baseAt s o.symbol) (absorb o.symbol (scanOf l o.symbol) (fillEvent o f)) ∧
      (absorb o.symbol (scanOf l o.symbol) (fillEvent o f)).trades.map TradeRecord.netPnl =
        if (Levels.settledBy s o f).qty = 0 then [(Levels.settledBy s o f).net - baseAt s o.symbol] else [] := by
  have hqty : (Levels.settledBy s o f).qty = (s.portfolio.position o.symbol).qty + (fillEvent o f).signedQty :=
    Position.settled_qty _ _ _
  have hevent : Prints f (fillEvent o f) := ⟨rfl, rfl, signed_ne_zero o hpos⟩
  rw [hqty] at hside
  obtain ⟨hmirror, htrades⟩ := (h.mirrors hno o.symbol).absorbed (rounds_open h.moves o.symbol) hevent hside
  rw [h.baseAt_eq, hqty]
  exact ⟨hmirror, htrades⟩

/-- A fill closes a trade where it records a profit, and where it crosses. -/
theorem Told.closes (h : Told l s) (hpos : 0 < f.qty) :
    (absorb o.symbol (scanOf l o.symbol) (fillEvent o f)).trades.length =
      (if (Levels.settledBy s o f).qty = 0 then 1 else 0) +
        if s.portfolio.held o.symbol * (Levels.settledBy s o f).qty < 0 then 1 else 0 := by
  have hx : (fillEvent o f).signedQty ≠ 0 := signed_ne_zero o hpos
  have hqty : (Levels.settledBy s o f).qty = s.portfolio.held o.symbol + (fillEvent o f).signedQty := Position.settled_qty _ _ _
  have hopen : (scanOf l o.symbol).Open o.symbol := rounds_open h.moves o.symbol
  obtain ⟨-, -, closed, hclosed, -, hlength⟩ := absorb_moves hopen hx
  have hheld : (scanOf l o.symbol).held = s.portfolio.held o.symbol := (h.held o.symbol).symm
  have htrades : (absorb o.symbol (scanOf l o.symbol) (fillEvent o f)).trades = closed := hclosed.trans (List.nil_append _)
  simp only [htrades, hlength, hheld, hqty]
  generalize s.portfolio.held o.symbol = held at *
  generalize (fillEvent o f).signedQty = x at *
  by_cases hflat : held + x = 0
  · have hheld : held ≠ 0 := fun h0 => hx (by rw [h0, zero_add] at hflat; exact hflat)
    simp [hflat, hheld]
  · by_cases hheld : held = 0
    · simp [hheld, hx]
    · have hne : held * (held + x) ≠ 0 := mul_ne_zero hheld hflat
      simp [hflat, hheld, lt_iff_le_and_ne, hne]

/-- **A booked fill keeps the two tellings together.** -/
theorem Told.booked (h : Told l s) (hb : bookFill eng bars o f s = .ok t) :
    Told (l ++ [⟨o, f, s.portfolio.held o.symbol, t.portfolio.held o.symbol⟩]) t := by
  have ht := bookFill_tallied hb
  have hx : (fillEvent o f).signedQty ≠ 0 := signed_ne_zero o ht.positive
  have hopen : (scanOf l o.symbol).Open o.symbol := rounds_open h.moves o.symbol
  obtain ⟨hopen', hmoved, -⟩ := absorb_moves hopen hx
  have hafter : t.portfolio.held o.symbol = (Levels.settledBy s o f).qty := congrArg Prod.fst ht.position
  have hqty : (Levels.settledBy s o f).qty = s.portfolio.held o.symbol + (fillEvent o f).signedQty := Position.settled_qty _ _ _
  have hepisode : (rounds (history l ++ [printOf o f])).episodes o.symbol =
      (absorb o.symbol (scanOf l o.symbol) (fillEvent o f)).episode := by
    rw [rounds_append, print_episodes]
    exact Function.update_self _ _ _
  have hothers (symbol : String) (hs : symbol ≠ o.symbol) :
      (rounds (history l ++ [printOf o f])).episodes symbol = (rounds (history l)).episodes symbol := by
    rw [rounds_append, print_episodes]
    exact Function.update_of_ne hs _ _
  have htrades : (rounds (history l ++ [printOf o f])).trades =
      (rounds (history l)).trades ++ (absorb o.symbol (scanOf l o.symbol) (fillEvent o f)).trades := by
    rw [rounds_append, print_trades]
    rfl
  have hheldElse (symbol : String) (hs : symbol ≠ o.symbol) : t.portfolio.held symbol = s.portfolio.held symbol :=
    congrArg Position.qty (ht.others symbol hs)
  have hhistory : history (l ++ [⟨o, f, s.portfolio.held o.symbol, t.portfolio.held o.symbol⟩]) = history l ++ [printOf o f] :=
    history_append _ _
  have hmirrored (hno : ∀ b ∈ l ++ [⟨o, f, s.portfolio.held o.symbol, t.portfolio.held o.symbol⟩], ¬b.Crosses) :=
    h.mirrored (fun b hb => hno b (List.mem_append_left _ hb)) ht.positive
      (hafter ▸ not_lt.1 (hno _ (List.mem_append_right _ (List.mem_singleton_self _))))
  constructor
  case moves =>
    rw [hhistory]
    exact fun y hy => (List.mem_append.1 hy).elim (h.moves y) fun hy => List.mem_singleton.1 hy ▸ hx
  case held =>
    intro symbol
    rw [hhistory]
    by_cases hs : symbol = o.symbol
    · subst hs
      rw [hafter, hepisode, hqty, h.held o.symbol]
      exact hmoved.symm
    · rw [hothers symbol hs, ← h.held symbol, hheldElse symbol hs]
  case based =>
    intro symbol hne
    by_cases hs : symbol = o.symbol
    · subst hs
      rw [ht.base (hafter ▸ hne)]
      split
      · rfl
      · rename_i hwas
        exact h.based o.symbol hwas
    · rw [ht.bases symbol hs]
      exact h.based symbol (hheldElse symbol hs ▸ hne)
  case count =>
    rw [hhistory, htrades, List.length_append, h.closes ht.positive, h.count, ht.pnls, List.length_append, crossings_append, hafter]
    have hrecorded : (if (Levels.settledBy s o f).qty = 0 then [(Levels.settledBy s o f).net - baseAt s o.symbol] else []).length =
        if (Levels.settledBy s o f).qty = 0 then 1 else 0 := by split <;> rfl
    rw [hrecorded]
    ring
  case pnls =>
    intro hno
    rw [hhistory, htrades, List.map_append, (hmirrored hno).2, ht.pnls, h.pnls fun b hb => hno b (List.mem_append_left _ hb)]
  case mirrors =>
    intro hno symbol
    rw [hhistory]
    by_cases hs : symbol = o.symbol
    · subst hs
      rw [hepisode]
      have hhere : Mirrors (Levels.settledBy s o f) (baseAt s o.symbol)
          ⟨(absorb o.symbol (scanOf l o.symbol) (fillEvent o f)).episode, []⟩ := ⟨(hmirrored hno).1.held, (hmirrored hno).1.worth⟩
      refine Mirrors.of_account ?_ ht.position
      by_cases hflat : (Levels.settledBy s o f).qty = 0
      · exact hhere.of_flat hopen' hflat
      · rw [ht.base hflat, apply_ite (fun base => Option.getD base 0), Option.getD_some, ← h.baseAt_eq]
        exact hhere
    · rw [hothers symbol hs, ht.bases symbol hs, ht.others symbol hs]
      exact h.mirrors (fun b hb => hno b (List.mem_append_left _ hb)) symbol

/-! ## The orders of a run -/

/-- The order is the result's own row. -/
def Row (o : Order) (s : EngineState σ τ) : Prop := s.orders.get? o.id = some o

/-- **A run keeps its accounts**: the two tellings mirror each other, every order of the result holds its own fills and no fill
is held elsewhere, and the orders queued are the result's own. -/
structure Kept (eng : BacktestEngine L σ τ) (now : ℤ) (queue : List Order) (r : Replay σ τ) : Prop where
  told : Told (bookings r.log) r.state
  filed : ∀ id o, r.state.orders.get? id = some o → o.id = id ∧
    o.fills.map (printOf o) = (history (bookings r.log)).filter (fun x => x.orderId = id) ∧ ∃ n < r.state.drawn, eng.newId n = id
  held : ∀ x ∈ history (bookings r.log), (r.state.orders.get? x.orderId).isSome
  sorted : (history (bookings r.log)).Pairwise fun x y => x.event.ts ≤ y.event.ts
  dated : ∀ x ∈ history (bookings r.log), x.event.ts ≤ now
  rests : ∀ o ∈ queue, Row o r.state
  apart : (queue.map Order.id).Nodup

/-- An order to be filled that is not of the queue: the result's own, or one it has not been given yet. -/
structure Ready (eng : BacktestEngine L σ τ) (queue : List Order) (o : Order) (s : EngineState σ τ) : Prop where
  apart : o.id ∉ queue.map Order.id
  drawn : ∃ n < s.drawn, eng.newId n = o.id
  row : Row o s ∨ s.orders.get? o.id = none ∧ o.fills = []

/-- Nothing the accounts look at has changed. -/
structure Quiet (r q : Replay σ τ) : Prop where
  bookings : bookings q.log = bookings r.log
  accounts : ∀ symbol, (q.state.portfolio.position symbol).account = (r.state.portfolio.position symbol).account
  pnls : q.state.tradePnls = r.state.tradePnls
  bases : q.state.tradeBase = r.state.tradeBase
  orders : q.state.orders = r.state.orders
  drawn : r.state.drawn ≤ q.state.drawn

variable {r q : Replay σ τ} {now : ℤ} {queue rest : List Order}

theorem Kept.quiet (h : Kept eng now queue r) (hq : Quiet r q) : Kept eng now queue q := by
  constructor
  case told => exact hq.bookings ▸ h.told.same hq.accounts hq.pnls hq.bases
  case filed =>
    rw [hq.bookings, hq.orders]
    intro id o ho
    obtain ⟨hid, hfills, n, hn, hnew⟩ := h.filed id o ho
    exact ⟨hid, hfills, n, hn.trans_le hq.drawn, hnew⟩
  case held =>
    rw [hq.bookings, hq.orders]
    exact h.held
  case sorted => exact hq.bookings ▸ h.sorted
  case dated => exact hq.bookings ▸ h.dated
  case rests =>
    unfold Row
    rw [hq.orders]
    exact h.rests
  case apart => exact h.apart

theorem Ready.quiet (h : Ready eng queue o r.state) (hq : Quiet r q) : Ready eng queue o q.state := by
  obtain ⟨n, hn, hnew⟩ := h.drawn
  refine ⟨h.apart, ⟨n, hn.trans_le hq.drawn, hnew⟩, ?_⟩
  unfold Row
  rw [hq.orders]
  exact h.row

theorem printOf_accumulate (o : Order) (f : Fill) : printOf (o.accumulate f) = printOf o := by
  unfold Order.accumulate
  dsimp only
  split <;> rfl

/-- The fills of an order to be filled are the history's. -/
theorem Kept.fills (h : Kept eng now queue r) (ho : Ready eng queue o r.state) :
    o.fills.map (printOf o) = (history (bookings r.log)).filter fun x => x.orderId = o.id := by
  rcases ho.row with hrow | ⟨hnone, hnil⟩
  · exact (h.filed o.id o hrow).2.1
  · have hempty : (history (bookings r.log)).filter (fun x => x.orderId = o.id) = [] := by
      refine List.filter_eq_nil_iff.2 fun x hx heq => ?_
      have hsome := h.held x hx
      rw [of_decide_eq_true heq, hnone] at hsome
      cases hsome
    rw [hnil, hempty]
    rfl

/-- A row written over its own fills. -/
theorem Kept.recorded {o' : Order} (h : Kept eng now queue r) (ho : Ready eng queue o r.state) (hid : o'.id = o.id)
    (hfills : o'.fills.map (printOf o') = o.fills.map (printOf o)) :
    Kept eng now queue { r with state := r.state.record o' } := by
  constructor
  case told => exact h.told.same (fun _ => rfl) rfl rfl
  case filed =>
    intro id row hrow
    change (r.state.orders.set o'.id o').get? id = some row at hrow
    rw [Dict.get?_set] at hrow
    split at hrow
    · rename_i heq
      obtain rfl := Option.some.inj hrow
      rw [heq, hid]
      exact ⟨rfl, hfills.trans (h.fills ho), ho.drawn⟩
    · exact h.filed id row hrow
  case held =>
    intro x hx
    show ((r.state.orders.set o'.id o').get? x.orderId).isSome
    rw [Dict.get?_set]
    split
    · rfl
    · exact h.held x hx
  case sorted => exact h.sorted
  case dated => exact h.dated
  case rests =>
    intro row hrow
    have hne : row.id ≠ o'.id := fun heq => ho.apart (hid ▸ heq ▸ List.mem_map_of_mem hrow)
    exact (Dict.get?_set_ne _ _ hne).trans (h.rests row hrow)
  case apart => exact h.apart

/-- What a booked fill leaves of a run. -/
def afterFill (r : Replay σ τ) (o : Order) (f : Fill) (t : EngineState σ τ) : Replay σ τ where
  state := t.record (o.accumulate f)
  log := r.log ++ [.booked o f (r.state.portfolio.held o.symbol) (t.portfolio.held o.symbol)]

theorem bookings_afterFill : bookings (afterFill r o f t).log =
    bookings r.log ++ [⟨o, f, r.state.portfolio.held o.symbol, t.portfolio.held o.symbol⟩] := by
  simp [afterFill, bookings, bookingOf]

theorem history_afterFill : history (bookings (afterFill r o f t).log) = history (bookings r.log) ++ [printOf o f] := by
  rw [bookings_afterFill, history_append]
  rfl

theorem Kept.booked (h : Kept eng now queue r) (ho : Ready eng queue o r.state) (hb : bookFill eng bars o f r.state = .ok t)
    (hts : f.ts = now) : Kept eng now queue (afterFill r o f t) := by
  have ht := bookFill_tallied hb
  have hget (id : String) : (afterFill r o f t).state.orders.get? id =
      if id = o.id then some (o.accumulate f) else r.state.orders.get? id := by
    show (t.orders.set (o.accumulate f).id (o.accumulate f)).get? id = _
    rw [Order.accumulate_id, Dict.get?_set, ht.orders]
  have hdrawn : (afterFill r o f t).state.drawn = r.state.drawn := ht.drawn
  constructor
  case told =>
    rw [bookings_afterFill]
    exact (h.told.booked hb).same (fun _ => rfl) rfl rfl
  case filed =>
    intro id o' ho'
    rw [hget] at ho'
    rw [history_afterFill, hdrawn, List.filter_append]
    split at ho'
    · rename_i hid
      obtain rfl := Option.some.inj ho'
      refine ⟨(Order.accumulate_id o f).trans hid.symm, ?_, hid ▸ ho.drawn⟩
      rw [Order.accumulate_fills, List.map_append, printOf_accumulate, h.fills ho, hid]
      simp [printOf]
    · rename_i hid
      obtain ⟨hid', hfills, hnew⟩ := h.filed id o' ho'
      have hother : [printOf o f].filter (fun x => x.orderId = id) = [] := by simp [printOf, Ne.symm hid]
      exact ⟨hid', by rw [hother, List.append_nil, hfills], hnew⟩
  case held =>
    intro x hx
    rw [hget]
    split
    · rfl
    · rename_i hid
      rw [history_afterFill] at hx
      rcases List.mem_append.1 hx with hx | hx
      · exact h.held x hx
      · exact absurd (congrArg Print.orderId (List.mem_singleton.1 hx)) hid
  case sorted =>
    rw [history_afterFill, List.pairwise_append]
    refine ⟨h.sorted, List.pairwise_singleton _ _, fun x hx y hy => ?_⟩
    rw [List.mem_singleton.1 hy]
    exact (h.dated x hx).trans hts.ge
  case dated =>
    rw [history_afterFill]
    intro x hx
    rcases List.mem_append.1 hx with hx | hx
    · exact h.dated x hx
    · rw [List.mem_singleton.1 hx]
      exact hts.le
  case rests =>
    intro o' ho'
    have hne : o'.id ≠ o.id := fun heq => ho.apart (heq ▸ List.mem_map_of_mem ho')
    exact (hget o'.id).trans ((if_neg hne).trans (h.rests o' ho'))
  case apart => exact h.apart

theorem Ready.filled (ho : Ready eng queue o r.state) (hb : bookFill eng bars o f r.state = .ok t) :
    Ready eng queue (o.accumulate f) (afterFill r o f t).state ∧ Row (o.accumulate f) (afterFill r o f t).state := by
  have hrow : Row (o.accumulate f) (afterFill r o f t).state := Dict.get?_set_self _ _ _
  refine ⟨⟨?_, ?_, .inl hrow⟩, hrow⟩
  · rw [Order.accumulate_id]
    exact ho.apart
  · rw [Order.accumulate_id]
    show ∃ n < t.drawn, _
    rw [(bookFill_tallied hb).drawn]
    exact ho.drawn

/-! ## The engine's statements -/

variable {bar : Bar}

theorem warnCapped_quiet (o : Order) (bar : Bar) (r : Replay σ τ) : Quiet r { r with state := warnCapped eng o bar r.state } := by
  unfold warnCapped
  split <;> exact ⟨rfl, fun _ => rfl, rfl, rfl, rfl, le_refl _⟩

/-- **`_execute` keeps the accounts.** -/
theorem execute_kept (h : Kept eng now queue r) (ho : Ready eng queue o r.state) (hts : bar.ts = now) (intended : ℚ) :
    Triple (fun q => q = r) (execute eng bars o bar intended)
      (fun o' q => Kept eng now queue q ∧ Ready eng queue o' q.state ∧ (Row o r.state → Row o' q.state)) (fun _ _ => True) := by
  have hrow {q : Replay σ τ} (hq : Quiet r q) (hr : Row o r.state) : Row o q.state := by
    unfold Row
    rw [hq.orders]
    exact hr
  unfold execute
  refine triple_ite (fun _ => triple_throw _ fun _ _ => trivial) fun _ => ?_
  refine triple_bind (R := fun _ q => Quiet r q) (triple_update _ fun q hq => hq ▸ warnCapped_quiet o bar q) fun _ => ?_
  refine triple_ite (fun _ => triple_pure _ fun q hq => ⟨h.quiet hq, ho.quiet hq, hrow hq⟩) fun _ => ?_
  refine triple_bind (R := fun o' q => o' = o.accumulate (fillFor eng o bar intended) ∧ Quiet r q)
    (triple_fromExcept _ (fun o' ho' q hq => ⟨(Order.applyFill_ok.1 ho').2.2, hq⟩) fun _ _ _ _ => trivial) fun o' => ?_
  refine triple_observe fun q hq => ?_
  obtain ⟨rfl, hquiet⟩ := hq
  refine triple_bind (R := fun t u => u = q ∧ bookFill eng bars o (fillFor eng o bar intended) q.state = .ok t)
    (triple_fromExcept _ (fun t ht u hu => ⟨hu, ht⟩) fun _ _ _ _ => trivial) fun t => ?_
  intro u hu
  obtain ⟨rfl, hb⟩ := hu
  obtain ⟨hready, hfiled⟩ := (ho.quiet hquiet).filled hb
  exact ⟨(h.quiet hquiet).booked (ho.quiet hquiet) hb hts, hready, fun _ => hfiled⟩

theorem setPosition_account (b : Portfolio) {symbol : String} {p : Position} (hp : p.account = (b.position symbol).account)
    (other : String) : ((b.setPosition symbol p).position other).account = (b.position other).account := by
  by_cases hs : other = symbol
  · subst hs
    simpa [Portfolio.position, Portfolio.setPosition] using hp
  · simp [Portfolio.position, Portfolio.setPosition, Dict.get?_set_ne _ _ hs]

theorem ratchet_account (s : EngineState σ τ) (bar : Bar) :
    (ratchet eng bars s bar).2.account = (s.portfolio.position bar.symbol).account := by
  obtain ⟨mark, stop, hp⟩ := ratchet_ratcheted eng bars s bar
  rw [hp]
  rfl

theorem maintainTrailing_kept (bar : Bar) :
    Triple (Kept eng now queue) (maintainTrailing eng bars bar) (fun _ => Kept eng now queue) (fun _ _ => True) := by
  unfold maintainTrailing
  refine triple_observe fun r hr => ?_
  refine triple_bind (R := fun _ => Kept eng now queue) (triple_update _ ?_) fun _ => ?_
  · rintro q rfl
    exact hr.quiet ⟨rfl, setPosition_account _ (ratchet_account _ _), rfl, rfl, rfl, le_refl _⟩
  · cases (ratchet eng bars r.state bar).1 with
    | ok x => exact triple_pure _ fun _ h => h
    | error e => exact triple_ite (fun _ => triple_pure _ fun _ h => h) fun _ => triple_throw _ fun _ _ => trivial

/-- An order with the next id is new to the result and to the queue. -/
theorem Kept.fresh (hid : Function.Injective eng.newId) (h : Kept eng now queue r) (ho : o.id = eng.newId r.state.drawn)
    (hfills : o.fills = []) : Ready eng queue o { r.state with drawn := r.state.drawn + 1 } := by
  have hnew : r.state.orders.get? o.id = none := by
    cases hget : r.state.orders.get? o.id with
    | none => rfl
    | some o' =>
      obtain ⟨-, -, n, hn, hdrawn⟩ := h.filed _ _ hget
      exact absurd (hid (hdrawn.trans ho)) hn.ne
  refine ⟨fun hmem => ?_, ⟨r.state.drawn, Nat.lt_succ_self _, ho.symm⟩, .inr ⟨hnew, hfills⟩⟩
  obtain ⟨o', ho', heq⟩ := List.mem_map.1 hmem
  have hrow := h.rests o' ho'
  unfold Row at hrow
  rw [heq, hnew] at hrow
  cases hrow

theorem drawn_quiet (r : Replay σ τ) : Quiet r { r with state := { r.state with drawn := r.state.drawn + 1 } } :=
  ⟨rfl, fun _ => rfl, rfl, rfl, rfl, Nat.le_succ _⟩

/-- **`_check_stops` keeps the accounts**: its order is new, filled before it is listed. -/
theorem checkStops_kept (hid : Function.Injective eng.newId) (hts : bar.ts = now) :
    Triple (Kept eng now queue) (checkStops eng bars bar) (fun _ => Kept eng now queue) (fun _ _ => True) := by
  unfold checkStops
  refine triple_observe fun r hr => ?_
  refine triple_bind (R := fun _ => Kept eng now queue) (triple_note _ fun q hq => ?_) fun _ => ?_
  · rw [hq]
    exact hr.quiet ⟨by simp [bookings, bookingOf], fun _ => rfl, rfl, rfl, rfl, le_refl _⟩
  refine triple_ite (fun _ => triple_pure _ fun _ h => h) fun _ => ?_
  refine triple_bind (maintainTrailing_kept bar) fun _ => ?_
  refine triple_observe fun q hq => ?_
  refine triple_bind (R := fun _ u => u = q) (triple_fromExcept _ (fun _ _ _ hu => hu) fun _ _ _ _ => trivial) fun due => ?_
  cases due with
  | none => exact triple_pure _ fun u hu => hu ▸ hq
  | some due =>
    refine triple_bind (R := fun o u => u = q ∧ o.id = eng.newId q.state.drawn ∧ o.fills = [])
      (triple_fromExcept _ (fun o ho u hu => ⟨hu, ?_⟩) fun _ _ _ _ => trivial) fun o => ?_
    · rw [(Order.postInit_ok ho).1]
      exact ⟨rfl, rfl⟩
    refine triple_bind (R := fun _ u => Kept eng now queue u ∧ Ready eng queue o u.state) (triple_update _ ?_) fun _ => ?_
    · rintro u ⟨rfl, hnew, hfills⟩
      exact ⟨hq.quiet (drawn_quiet _), hq.fresh hid hnew hfills⟩
    refine triple_at fun u hu => ?_
    refine triple_bind (execute_kept hu.1 hu.2 hts due.2) fun o' => ?_
    exact triple_update _ fun v hv => hv.1.recorded hv.2.1 rfl rfl

/-- The order at one place of a queue, and the rest of it. -/
theorem Kept.at (h : Kept eng now (queue ++ o :: rest) r) : Kept eng now (queue ++ rest) r ∧
    Ready eng (queue ++ rest) o r.state ∧ Row o r.state := by
  have hrow : Row o r.state := h.rests o (by simp)
  obtain ⟨-, -, n, hn, hnew⟩ := h.filed o.id o hrow
  have hids : ((queue ++ o :: rest).map Order.id).Perm (o.id :: (queue ++ rest).map Order.id) := by
    have hperm : (queue ++ o :: rest).Perm (o :: (queue ++ rest)) := List.perm_middle
    exact hperm.map Order.id
  have hapart := List.nodup_cons.1 (hids.nodup_iff.1 h.apart)
  exact ⟨{ h with rests := fun o' ho' => h.rests o' (by grind), apart := hapart.2 }, ⟨hapart.1, ⟨n, hn, hnew⟩, .inl hrow⟩, hrow⟩

/-- A row that is ready takes a place in the queue. -/
theorem Kept.insert (h : Kept eng now (queue ++ rest) r) (ho : Ready eng (queue ++ rest) o r.state) (hrow : Row o r.state) :
    Kept eng now (queue ++ o :: rest) r := by
  have hids : ((queue ++ o :: rest).map Order.id).Perm (o.id :: (queue ++ rest).map Order.id) := by
    have hperm : (queue ++ o :: rest).Perm (o :: (queue ++ rest)) := List.perm_middle
    exact hperm.map Order.id
  refine { h with rests := fun o' ho' => ?_, apart := hids.nodup_iff.2 (List.nodup_cons.2 ⟨ho.apart, h.apart⟩) }
  by_cases heq : o' = o
  · exact heq ▸ hrow
  · exact h.rests o' (by grind)

/-- **The loop over the queue keeps the accounts**, with what it keeps resting after what it has kept. -/
theorem fillResting_kept (hts : bar.ts = now) : ∀ (rest kept : List Order),
    Triple (Kept eng now (kept ++ rest)) (fillResting eng bars bar rest)
      (fun resting => Kept eng now (kept ++ resting)) (fun _ _ => True)
  | [], kept => triple_pure _ fun _ h => h
  | o :: rest, kept => by
    have hkeep (o' : Order) : Triple (Kept eng now (kept ++ o' :: rest)) (do
        let resting ← fillResting eng bars bar rest
        return o' :: resting) (fun resting => Kept eng now (kept ++ resting)) (fun _ _ => True) := by
      have hrest := fillResting_kept hts rest (kept ++ [o'])
      simp only [List.append_assoc, List.singleton_append] at hrest
      exact triple_bind hrest fun resting => triple_pure _ fun _ h => h
    have hdrop := fillResting_kept hts rest kept
    unfold fillResting
    refine triple_ite (fun _ => hkeep o) fun _ => ?_
    refine triple_bind (R := fun _ => Kept eng now (kept ++ o :: rest))
      (triple_fromExcept _ (fun _ _ _ h => h) fun _ _ _ _ => trivial) fun price => ?_
    cases price with
    | none =>
      refine triple_ite (fun _ => ?_) fun _ => hkeep o
      refine triple_bind (R := fun _ => Kept eng now (kept ++ rest)) (triple_update _ fun r hr => ?_) fun _ => hdrop
      obtain ⟨hkept, hready, -⟩ := hr.at
      exact hkept.recorded hready rfl rfl
    | some price =>
      refine triple_at fun r hr => ?_
      obtain ⟨hkept, hready, hrow⟩ := hr.at
      refine triple_bind (execute_kept hkept hready hts price) fun o' => ?_
      refine triple_ite (fun _ => triple_ite (fun _ => ?_) fun _ => ?_) fun _ => ?_
      · refine triple_bind (R := fun _ => Kept eng now (kept ++ rest)) (triple_update _ fun q hq => ?_) fun _ => hdrop
        exact hq.1.recorded hq.2.1 rfl rfl
      · exact triple_conseq (hkeep o') (fun q hq => hq.1.insert hq.2.1 (hq.2.2 hrow)) (fun _ _ h => h) fun _ _ h => h
      · exact triple_conseq hdrop (fun q hq => hq.1) (fun _ _ h => h) fun _ _ h => h

/-- **Between two bars** the queue is the pending orders. -/
def Between (eng : BacktestEngine L σ τ) (now : ℤ) (r : Replay σ τ) : Prop := Kept eng now r.state.pending r

theorem Between.quiet (h : Between eng now r) (hq : Quiet r q) (hpending : q.state.pending = r.state.pending) :
    Between eng now q := by
  unfold Between
  rw [hpending]
  exact Kept.quiet h hq

theorem checkStops_pending (bar : Bar) (l : List Order) :
    Triple (fun q => q.state.pending = l) (checkStops eng bars bar) (fun _ q => q.state.pending = l) (fun _ _ => True) := by
  unfold checkStops
  refine triple_observe fun r hr => ?_
  refine triple_bind (R := fun _ q => q.state.pending = l) (triple_note _ fun q hq => hq ▸ hr) fun _ => ?_
  refine triple_ite (fun _ => triple_pure _ fun _ h => h) fun _ => ?_
  refine triple_bind (R := fun _ q => q.state.pending = l) ?_ fun _ => ?_
  · refine triple_at fun q hq => triple_conseq (maintainTrailing_still eng bars bar q) (fun _ h => h) (fun _ u hu => ?_)
      fun _ _ _ => trivial
    exact hu.1.pending.trans hq
  refine triple_observe fun q hq => ?_
  refine triple_bind (R := fun _ u => u.state.pending = l) (triple_fromExcept _ (fun _ _ u hu => hu ▸ hq) fun _ _ _ _ => trivial)
    fun due => ?_
  cases due with
  | none => exact triple_pure _ fun _ h => h
  | some due =>
    refine triple_bind (R := fun _ u => u.state.pending = l) (triple_fromExcept _ (fun _ _ _ hu => hu) fun _ _ _ _ => trivial)
      fun o => ?_
    refine triple_bind (R := fun _ u => u.state.pending = l) (triple_update _ fun _ hu => hu) fun _ => ?_
    refine triple_bind (R := fun _ u => u.state.pending = l) ?_ fun o' => triple_update _ fun _ hu => hu
    refine triple_at fun u hu => triple_conseq (execute_executed eng bars o bar due.2 u) (fun _ h => h) (fun o' v hv => ?_)
      fun _ _ _ => trivial
    rcases hv with ⟨-, -, hstill⟩ | ⟨-, -, hpending, -⟩
    · exact hstill.pending.trans hu
    · exact hpending.trans hu

/-- **A symbol's bar keeps the accounts.** -/
theorem barPhase_between (hid : Function.Injective eng.newId) (x : String × ℕ × Bar) (hts : x.2.2.ts = now) :
    Triple (Between eng now) (barPhase eng bars x) (fun _ => Between eng now) (fun _ _ => True) := by
  unfold barPhase
  refine triple_bind (R := fun _ => Between eng now) ?_ fun _ => ?_
  · unfold openBar
    refine triple_observe fun r hr => triple_ite (fun _ => triple_throw _ fun _ _ => trivial) fun _ => triple_update _ fun q hq => ?_
    rw [hq]
    exact hr.quiet ⟨rfl, setPosition_account _ rfl, rfl, rfl, rfl, le_refl _⟩ rfl
  refine triple_bind (R := fun _ => Between eng now) ?_ fun _ => ?_
  · refine triple_at fun r hr => ?_
    have hkept : Triple (Kept eng now r.state.pending) (checkStops eng bars x.2.2) (fun _ => Kept eng now r.state.pending)
        (fun _ _ => True) := checkStops_kept hid hts
    refine triple_conseq (triple_and hkept (checkStops_pending x.2.2 r.state.pending)) (fun q hq => ?_) (fun _ q hq => ?_)
      fun _ _ _ => trivial
    · subst hq
      exact ⟨hr, rfl⟩
    · unfold Between
      rw [hq.2]
      exact hq.1
  · unfold fillPendingFor
    refine triple_observe fun r hr => ?_
    refine triple_bind (triple_from (fillResting_kept hts r.state.pending []) hr)
      fun resting => ?_
    exact triple_update _ fun q hq => Kept.quiet hq ⟨rfl, fun _ => rfl, rfl, rfl, rfl, le_refl _⟩

/-! ## Decisions -/

theorem bookRefusal_between (hr : Between eng now r) (ho : Ready eng r.state.pending o r.state) (rule : String)
    (reason : List Piece) : Triple (fun q => q = r) (bookRefusal eng o bar rule reason) (fun _ => Between eng now) (fun _ _ => True) := by
  refine triple_update _ fun q hq => ?_
  subst hq
  let refused : Order := { o with status := .rejectedRisk, rejectReason := some (eng.text reason), rejectedBy := some rule }
  have hrecorded : Kept eng now q.state.pending { q with state := q.state.record refused } := Kept.recorded hr ho rfl rfl
  exact hrecorded.quiet ⟨rfl, fun _ => rfl, rfl, rfl, rfl, le_refl _⟩

/-- A new order joins the result and the queue. -/
theorem Between.queued (hr : Between eng now r) (ho : Ready eng r.state.pending o r.state) :
    Kept eng now (r.state.pending ++ [o]) { r with state := r.state.record o } := by
  have hrecorded := Kept.recorded hr ho rfl rfl
  have hrow : Row o (r.state.record o) := Dict.get?_set_self _ _ _
  have hready : Ready eng (r.state.pending ++ []) o (r.state.record o) := ⟨by simpa using ho.apart, ho.drawn, .inl hrow⟩
  rw [← List.append_nil r.state.pending] at hrecorded
  exact hrecorded.insert hready hrow

theorem queueOrder_between (hid : Function.Injective eng.newId) (signal : Signal) (bar : Bar) (side : Side) (qty : ℚ)
    (purpose : Purpose) :
    Triple (Between eng now) (queueOrder eng signal bar side qty purpose) (fun _ => Between eng now) (fun _ _ => True) := by
  unfold queueOrder
  refine triple_ite (fun _ => triple_pure _ fun _ h => h) fun _ => ?_
  refine triple_observe fun r hr => ?_
  refine triple_bind (R := fun o q => q = r ∧ o.id = eng.newId r.state.drawn ∧ o.fills = [])
    (triple_fromExcept _ (fun o ho q hq => ⟨hq, ?_⟩) fun _ _ _ _ => trivial) fun o => ?_
  · rw [(Order.postInit_ok ho).1]
    exact ⟨rfl, rfl⟩
  refine triple_at fun q hq => ?_
  obtain ⟨rfl, hnew, hnil⟩ := hq
  obtain ⟨size, hsize, -⟩ := validate_order eng.limits eng.rules o q.state.portfolio q.state.pending q.state.rules
  generalize validate eng.limits eng.rules o q.state.portfolio q.state.pending q.state.rules = v at hsize ⊢
  obtain ⟨d, o', rules⟩ := v
  dsimp only at hsize ⊢
  have hquiet (x : σ) : Quiet q { q with state := { q.state with drawn := q.state.drawn + 1, rules := x } } :=
    ⟨rfl, fun _ => rfl, rfl, rfl, rfl, Nat.le_succ _⟩
  have hready (x : Order) (hx : x.id = o.id) (hxnil : x.fills = o.fills) :
      Ready eng q.state.pending x { q.state with drawn := q.state.drawn + 1, rules := rules } := by
    obtain ⟨hapart, hdrawn, hrow⟩ := Kept.fresh hid hr (hx.trans hnew) (hxnil.trans hnil)
    exact ⟨hapart, hdrawn, hrow⟩
  have horder : o'.id = o.id ∧ o'.fills = o.fills := by rw [hsize]; exact ⟨rfl, rfl⟩
  have happroved : (approvedOrder d o' bar).id = o'.id ∧ (approvedOrder d o' bar).fills = o'.fills := by
    unfold approvedOrder
    split <;> exact ⟨rfl, rfl⟩
  refine triple_bind (R := fun _ u => u = { q with state := { q.state with drawn := q.state.drawn + 1, rules := rules } })
    (triple_update _ fun u hu => hu ▸ rfl) fun _ => ?_
  have hbetween := hr.quiet (hquiet rules) rfl
  refine triple_ite (fun _ => bookRefusal_between hbetween (hready o' horder.1 horder.2) d.rule d.reason) fun _ =>
    triple_update _ ?_
  rintro u rfl
  exact (hbetween.queued (hready _ (happroved.1.trans horder.1) (happroved.2.trans horder.2))).quiet
    ⟨rfl, fun _ => rfl, rfl, rfl, rfl, le_refl _⟩

theorem enter_between (hid : Function.Injective eng.newId) (signal : Signal) (bar : Bar) (side : Side) (hr : Between eng now r) :
    Triple (fun q => q = r) (enter eng r.state signal bar side) (fun _ => Between eng now) (fun _ _ => True) := by
  refine triple_enter (fun _ => trivial) (fun qty => triple_from (queueOrder_between hid signal bar side qty .entry) hr)
    fun message => ?_
  exact bookRefusal_between (hr.quiet (drawn_quiet r) rfl) (Kept.fresh hid hr rfl rfl) "sizing" message

theorem handleSignal_between (hid : Function.Injective eng.newId) (signal : Signal) (bar : Bar) :
    Triple (Between eng now) (handleSignal eng bars signal bar) (fun _ => Between eng now) (fun _ _ => True) := by
  refine triple_at fun r hr => ?_
  refine triple_handleSignal hr (fun _ => trivial) (fun _ side => enter_between hid _ bar side hr) fun _ => ?_
  exact triple_from (queueOrder_between hid signal bar _ _ .exit) hr

theorem signalPhase_between (hid : Function.Injective eng.newId) (x : String × ℕ × Bar) :
    Triple (Between eng now) (signalPhase eng bars x) (fun _ => Between eng now) (fun _ _ => True) := by
  refine triple_signalPhase (fun _ _ _ => trivial) (fun q _ h => ?_) (fun q _ h => ?_) x fun signal =>
    handleSignal_between hid signal x.2.2
  · exact Between.quiet h ⟨rfl, fun _ => rfl, rfl, rfl, rfl, le_refl _⟩ rfl
  · exact Between.quiet h ⟨rfl, fun _ => rfl, rfl, rfl, rfl, le_refl _⟩ rfl

/-! ## The run -/

theorem printedAt_ts {ts : ℤ} {symbol : String} {x : String × ℕ × Bar} (h : printedAt bars ts symbol = some x) : x.2.2.ts = ts := by
  unfold printedAt at h
  dsimp only at h
  split at h
  · cases h
  · rename_i i hi
    obtain ⟨b, hb, rfl⟩ := Option.map_eq_some_iff.1 h
    obtain ⟨hlt, hts, -⟩ := List.findIdx?_eq_some_iff_getElem.1 hi
    obtain ⟨_, hget⟩ := List.getElem?_eq_some_iff.1 hb
    rw [← hget]
    exact of_decide_eq_true hts

theorem Quiet.trans {u : Replay σ τ} (h : Quiet r q) (h' : Quiet q u) : Quiet r u :=
  ⟨h'.bookings.trans h.bookings, fun symbol => (h'.accounts symbol).trans (h.accounts symbol), h'.pnls.trans h.pnls,
    h'.bases.trans h.bases, h'.orders.trans h.orders, h.drawn.trans h'.drawn⟩

theorem marks_quiet : ∀ (printed : List (String × ℕ × Bar)) (r : Replay σ τ),
    Quiet r { r with state := printed.foldl markClose r.state }
  | [], _ => ⟨rfl, fun _ => rfl, rfl, rfl, rfl, le_refl _⟩
  | x :: printed, r => by
    have hmark : Quiet r { r with state := markClose r.state x } := ⟨rfl, setPosition_account _ rfl, rfl, rfl, rfl, le_refl _⟩
    exact hmark.trans (marks_quiet printed _)

/-- **An instant keeps the accounts**, and moves the clock to it. -/
theorem stepAt_between (hid : Function.Injective eng.newId) {ts : ℤ} (hts : now ≤ ts) :
    Triple (Between eng now) (stepAt eng bars ts) (fun _ => Between eng ts) (fun _ _ => True) := by
  unfold stepAt
  refine triple_bind (R := fun _ => Between eng ts) (triple_update _ fun r hr => ?_) fun _ => ?_
  · have hopened : Quiet r { r with state := openInstant eng ts r.state } ∧ (openInstant eng ts r.state).pending = r.state.pending := by
      unfold openInstant
      dsimp only
      split <;> exact ⟨⟨rfl, fun _ => rfl, rfl, rfl, rfl, le_refl _⟩, rfl⟩
    have hbetween := Between.quiet hr hopened.1 hopened.2
    exact { hbetween with dated := fun x hx => (hbetween.dated x hx).trans hts }
  refine triple_bind (triple_forM _ fun x hx => ?_) fun _ => ?_
  · obtain ⟨symbol, -, hprinted⟩ := List.mem_filterMap.1 hx
    exact barPhase_between hid x (printedAt_ts hprinted)
  refine triple_bind (R := fun _ => Between eng ts) (triple_update _ fun r hr => ?_) fun _ =>
    triple_forM _ fun x _ => signalPhase_between hid x
  have hclosed : Quiet r { r with state := closeBook ts (eng.config.symbols.filterMap (printedAt bars ts)) r.state } :=
    (marks_quiet _ r).trans ⟨rfl, fun _ => rfl, rfl, rfl, rfl, le_refl _⟩
  exact Between.quiet hr hclosed (held_closeBook ts _ r.state "").2

theorem forM_between (hid : Function.Injective eng.newId) : ∀ {l : List ℤ} {now : ℤ}, (∀ ts ∈ l, now ≤ ts) → l.Pairwise (· < ·) →
    Triple (Between eng now) (l.forM (stepAt eng bars)) (fun _ q => ∃ ts, Between eng ts q) (fun _ _ => True)
  | [], now, _, _ => triple_pure _ fun _ h => ⟨now, h⟩
  | ts :: l, now, hle, hl => by
    rw [List.pairwise_cons] at hl
    exact triple_bind (stepAt_between hid (hle ts (by simp))) fun _ => forM_between hid (fun t ht => (hl.1 t ht).le) hl.2

/-! ## The two accounts -/

theorem Kept.holds (h : Kept eng now queue r) : Holds r.state.orders.values (history (bookings r.log)) := by
  have hrow (o : Order) (ho : o ∈ r.state.orders.values) : r.state.orders.get? o.id = some o := by
    obtain ⟨id, hget⟩ := (Dict.mem_values_iff _ _).1 ho
    rwa [(h.filed id o hget).1]
  have hkeys : r.state.orders.values.map Order.id = r.state.orders.keys := by
    unfold Dict.values Dict.keys
    rw [List.map_map]
    exact List.map_congr_left fun e he => (h.filed e.1 e.2 ((Dict.mem_entries_iff _ _ _).1 he)).1
  have hnodup : r.state.orders.keys.Nodup := r.state.orders.nodup
  refine ⟨hkeys ▸ hnodup, fun o ho => (h.filed o.id o (hrow o ho)).2.1, fun x hx => ?_⟩
  rw [hkeys, Dict.mem_keys_iff]
  exact h.held x hx

instance (ids : List String) : DecidableRel (InOrder ids) := fun _ _ => inferInstanceAs (Decidable (_ → _ → _))

/-- Fills of one symbol at one instant happened in the order the result lists their orders. -/
def InListedOrder (r : Replay σ τ) : Prop :=
  (history (bookings r.log)).Pairwise (InOrder (r.state.orders.values.map Order.id))

instance (r : Replay σ τ) : Decidable (InListedOrder r) := inferInstanceAs (Decidable (List.Pairwise _ _))

theorem Agree.perm (h : Agree s) : ((buildTrades s.orders.values).map TradeRecord.netPnl).Perm s.tradePnls := by
  obtain ⟨l, hl, -, hpnls⟩ := h
  exact hpnls ▸ (hl.map TradeRecord.netPnl).symm

theorem crossings_eq_zero : crossings l = 0 ↔ ∀ b ∈ l, ¬b.Crosses := by
  unfold crossings
  simp [List.countP_eq_zero]

/-- A run that keeps its accounts and fills in listed order: they agree exactly when no fill crosses. -/
theorem Kept.agree_iff (h : Kept eng now queue r) (horder : InListedOrder r) :
    Agree r.state ↔ ∀ b ∈ bookings r.log, ¬b.Crosses := by
  obtain ⟨hperm, hexits⟩ := buildTrades_rounds h.holds h.told.moves (h.sorted.and horder)
  constructor
  · rintro ⟨l, hl, -, hpnls⟩
    have hlength : (rounds (history (bookings r.log))).trades.length = r.state.tradePnls.length := by
      rw [hperm.length_eq, ← hl.length_eq, ← hpnls, List.length_map]
    have hcount := h.told.count
    exact crossings_eq_zero.1 (by omega)
  · exact fun hno => ⟨_, hperm, hexits, h.told.pnls hno⟩

end

/-- A flat book tells nothing yet. -/
theorem between_fresh (eng : BacktestEngine L σ τ) {portfolio : Portfolio} (rules : σ) (strategy : τ) (now : ℤ)
    (hflat : ∀ symbol, (portfolio.position symbol).qty = 0) : Between eng now (fresh portfolio rules strategy : Replay σ τ) where
  told :=
    { moves := fun _ hx => by cases hx
      held := hflat
      based := fun symbol hne => absurd (hflat symbol) hne
      count := rfl
      pnls := fun _ => rfl
      mirrors := fun _ symbol => ⟨hflat symbol, fun _ he => by cases he⟩ }
  filed := fun _ _ ho => by cases ho
  held := fun _ hx => by cases hx
  sorted := .nil
  dated := fun _ hx => by cases hx
  rests := fun _ ho => by cases ho
  apart := .nil

theorem run_between (eng : BacktestEngine L σ τ) (bars : Dict String (List Bar)) {portfolio : Portfolio} (rules : σ) (strategy : τ)
    (hid : Function.Injective eng.newId) (hflat : ∀ symbol, (portfolio.position symbol).qty = 0) :
    Triple (fun q => q = fresh portfolio rules strategy) (run eng bars) (fun _ q => ∃ ts, Between eng ts q) (fun _ _ => True) := by
  have hsorted := timeline_ascending bars
  obtain ⟨now, hnow⟩ : ∃ now, ∀ ts ∈ timeline bars, now ≤ ts := by
    cases htimeline : timeline bars with
    | nil => exact ⟨0, fun _ h => by cases h⟩
    | cons first later =>
      rw [htimeline, List.pairwise_cons] at hsorted
      refine ⟨first, fun ts hts => ?_⟩
      rcases List.mem_cons.1 hts with rfl | hts
      · exact le_refl _
      · exact (hsorted.1 ts hts).le
  unfold run
  exact triple_conseq (forM_between hid hnow hsorted) (fun q hq => hq ▸ between_fresh eng rules strategy now hflat)
    (fun _ _ h => h) fun _ _ h => h

/-- **The two accounts of a completed run agree exactly when no fill carries its position through zero**, if fills of one
symbol on one bar happen in the order their orders are listed: whatever the strategy, the sizer, the chain, the costs and the
bars, from a book that is flat. -/
theorem accounts_agree_iff (eng : BacktestEngine L σ τ) (bars : Dict String (List Bar)) (portfolio : Portfolio) (rules : σ)
    (strategy : τ) (r : Replay σ τ) (hid : Function.Injective eng.newId)
    (hflat : ∀ symbol, (portfolio.position symbol).qty = 0)
    (hrun : exec (run eng bars) (fresh portfolio rules strategy) = (.ok ⟨⟩, r)) (horder : InListedOrder r) :
    Agree r.state ↔ ∀ b ∈ bookings r.log, ¬b.Crosses := by
  have hreached := run_between eng bars rules strategy hid hflat _ rfl
  rw [hrun] at hreached
  obtain ⟨ts, hbetween⟩ := hreached
  exact Kept.agree_iff hbetween horder

/-! ## A round trip, a reversal, and a stop on the day of an exit -/

def started : Replay Unit ℕ := fresh { cash := 10000, startingEquity := 10000 } () 0

def risingDays : Dict String (List Bar) := Dict.empty.set "SPY" [Levels.flatDay 1 100 1000, Levels.flatDay 2 100 1000, Levels.flatDay 3 104 1000]

/-- A completed run, what it recorded and what is rebuilt. -/
def Completed (eng : BacktestEngine Unit Unit ℕ) (bars : Dict String (List Bar)) (r : Replay Unit ℕ) (recorded rebuilt : List ℚ) :
    Prop :=
  exec (run eng bars) started = (.ok ⟨⟩, r) ∧ r.state.tradePnls = recorded ∧
    (buildTrades r.state.orders.values).map TradeRecord.netPnl = rebuilt

theorem completed_of {eng : BacktestEngine Unit Unit ℕ} {bars : Dict String (List Bar)} {recorded rebuilt : List ℚ}
    (hok : (exec (run eng bars) started).1.isOk = true) (hpnls : (exec (run eng bars) started).2.state.tradePnls = recorded)
    (htrades : (buildTrades (exec (run eng bars) started).2.state.orders.values).map TradeRecord.netPnl = rebuilt) :
    Completed eng bars (exec (run eng bars) started).2 recorded rebuilt := by
  refine ⟨?_, hpnls, htrades⟩
  rcases h : exec (run eng bars) started with ⟨_ | _, r⟩
  · rw [h] at hok
    cases hok
  · rfl

theorem accounts_agree_profit : ∃ r, Completed buyThenExit risingDays r [40] [40] ∧ Agree r.state := by
  have hdone : Completed buyThenExit risingDays _ [40] [40] := completed_of (by decide +kernel) (by decide +kernel) (by decide +kernel)
  refine ⟨_, hdone, (accounts_agree_iff buyThenExit risingDays _ () 0 _ (fun _ _ h => natRepr_inj h) (fun _ => rfl) hdone.1
    (by decide +kernel)).2 (by decide +kernel)⟩

/-- **The accounts differ**: a sale of twenty that reverses a long of ten closes a trade the tally does not have; and a stop that
fires on the day of a queued exit is rebuilt after it, at the exit's price. -/
theorem accounts_differ : (∃ r, Completed (Levels.enters .enterLong .enterShort) risingDays r [] [40] ∧ ¬Agree r.state) ∧
    ∃ r, Completed buyThenExit fallingDays r [-50] [0] ∧ ¬Agree r.state := by
  constructor
  · refine ⟨_, completed_of (by decide +kernel) (by decide +kernel) (by decide +kernel), fun h => ?_⟩
    exact absurd h.perm (by decide +kernel)
  · refine ⟨_, completed_of (by decide +kernel) (by decide +kernel) (by decide +kernel), fun h => ?_⟩
    exact absurd h.perm (by decide +kernel)

end TradeAccounts
end Backtest
end Atp
