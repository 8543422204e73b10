import Mathlib.Data.List.Sort
import Mathlib.Data.Prod.Lex
import Mathlib.Data.String.Basic
import AlgoTrading.Position
/-!
# RoundTrips — trades rebuilt from the fills of stored orders

`analytics/performance.py`: `build_trades`, with `_fill_stream`, `_Leg`, `_Episode` and `_to_trade`.  A trade is a
position episode, flat to flat; a fill that carries the position through zero closes one and opens the next.
-/
namespace Atp

namespace Position

/-- What a position has realised, net of the fees it paid. -/
def net (p : Position) : ℚ := p.realizedPnl - p.feesPaid

/-- What a position has to do with trades. -/
def account (p : Position) : ℚ × ℚ × ℚ := (p.qty, p.avgEntryPrice, p.net)

theorem settled_net (p : Position) (f : Fill) (x : ℚ) : (p.settled f x).net = p.net + (p.settle f x).2.2 - f.fee := by
  unfold settled net
  dsimp only
  split <;> ring

theorem settled_avg (p : Position) (f : Fill) (x : ℚ) (h : p.qty + x ≠ 0) :
    (p.settled f x).avgEntryPrice = (p.settle f x).1 := by
  unfold settled
  simp [h]

theorem settle_flat {p : Position} {f : Fill} {x : ℚ} (h : p.qty = 0) : p.settle f x = (f.price, some f.ts, 0) := by
  unfold settle
  rw [if_pos h]

section
variable {p : Position} {f : Fill} {x k o a : ℚ}

theorem abs_signed (hk : k = 1 ∨ k = -1) {b : ℚ} (hb : 0 < b) : |k * b| = b := by
  rcases hk with rfl | rfl <;> simp [abs_of_pos hb]

theorem signed_ne_zero (hk : k = 1 ∨ k = -1) (hq : p.qty = k * o) (ho : 0 < o) : p.qty ≠ 0 := by
  rw [hq, ← abs_pos, abs_signed hk ho]
  exact ho

/-- A fill on the side of an open position averages its price into the basis. -/
theorem settle_along (hk : k = 1 ∨ k = -1) (hq : p.qty = k * o) (hx : x = k * a) (ho : 0 < o) (ha : 0 < a) :
    (p.settle f x).1 * (o + a) = p.avgEntryPrice * o + f.price * a ∧ (p.settle f x).2.2 = 0 := by
  have hsum : o + a ≠ 0 := (add_pos ho ha).ne'
  have hsame : (0 < p.qty) = (0 < x) := by rw [hq, hx, mul_pos_iff_of_pos_right ho, mul_pos_iff_of_pos_right ha]
  unfold settle
  rw [if_neg (signed_ne_zero hk hq ho), if_pos hsame, hq, hx, abs_signed hk ho, abs_signed hk ha]
  exact ⟨div_mul_cancel₀ _ hsum, rfl⟩

/-- A fill against an open position realises what of it was held, and one of more opens the other side at its own price. -/
theorem settle_opposed (hk : k = 1 ∨ k = -1) (hq : p.qty = k * o) (hx : x = -(k * a)) (ho : 0 < o) (ha : 0 < a) :
    (p.settle f x).1 = (if o < a then f.price else p.avgEntryPrice) ∧
      (p.settle f x).2.2 = min a o * (f.price - p.avgEntryPrice) * k := by
  have habs : |p.qty| = o := by rw [hq, abs_signed hk ho]
  have habsx : |x| = a := by rw [hx, abs_neg, abs_signed hk ha]
  have hside : (0 < p.qty) ↔ k = 1 := by
    rw [hq, mul_pos_iff_of_pos_right ho]
    rcases hk with rfl | rfl <;> norm_num
  have hxside : (0 < x) ↔ ¬k = 1 := by
    rw [hx, ← neg_mul, mul_pos_iff_of_pos_right ha]
    rcases hk with rfl | rfl <;> norm_num
  have hopposite : ¬(0 < p.qty) = (0 < x) := by
    rw [hside, hxside]
    by_cases h : k = 1 <;> simp [h]
  unfold settle
  rw [if_neg (signed_ne_zero hk hq ho), if_neg hopposite, habs, habsx]
  simp only [gt_iff_lt, hside]
  rcases hk with rfl | rfl
  · split <;> simp
  · split <;> norm_num

/-- One of no more than is held leaves the basis, and realises the difference. -/
theorem settle_against (hk : k = 1 ∨ k = -1) (hq : p.qty = k * o) (hx : x = -(k * a)) (ho : 0 < o) (ha : 0 < a)
    (hle : a ≤ o) : (p.settle f x).1 = p.avgEntryPrice ∧ (p.settle f x).2.2 = a * (f.price - p.avgEntryPrice) * k := by
  have h := settle_opposed (f := f) hk hq hx ho ha
  rwa [if_neg (not_lt.2 hle), min_eq_left hle] at h

/-- One of more than is held realises all of it, and opens the other side at its own price. -/
theorem settle_through (hk : k = 1 ∨ k = -1) (hq : p.qty = k * o) (hx : x = -(k * a)) (ho : 0 < o) (hlt : o < a) :
    (p.settle f x).1 = f.price ∧ (p.settle f x).2.2 = o * (f.price - p.avgEntryPrice) * k := by
  have h := settle_opposed (f := f) hk hq hx ho (ho.trans hlt)
  rwa [if_pos hlt, min_eq_right hlt.le] at h

end

end Position

/-- One side of an episode, across the fills that built it.  A leg before its first fill is no leg. -/
structure Leg where
  qty : ℚ
  notional : ℚ
  fees : ℚ
  firstTs : ℤ
  lastTs : ℤ
deriving DecidableEq

def Leg.add (leg : Option Leg) (qty price fee : ℚ) (ts : ℤ) : Leg :=
  match leg with
  | none => { qty := qty, notional := qty * price, fees := fee, firstTs := ts, lastTs := ts }
  | some l => { l with qty := l.qty + qty, notional := l.notional + qty * price, fees := l.fees + fee, lastTs := ts }

def Leg.vwap (l : Leg) : ℚ := if l.qty = 0 then 0 else l.notional / l.qty

/-- A position from flat to flat, in the middle of being reconstructed. -/
structure Episode where
  symbol : String
  long : Bool
  strategyId : String
  entry : Leg
  exit : Option Leg := none
  exitPurpose : Option Purpose := none
deriving DecidableEq

namespace Episode

def openQty (e : Episode) : ℚ := e.entry.qty - e.exit.elim 0 Leg.qty

def sign (e : Episode) : ℚ := if e.long then 1 else -1

/-- What is open, signed. -/
def held (e : Episode) : ℚ := e.sign * e.openQty

/-- What the episode has made, net of fees, with what is open at its cost: a basis of `avg` a share. -/
def worth (e : Episode) (avg : ℚ) : ℚ :=
  e.sign * (e.exit.elim 0 Leg.notional - (e.entry.notional - avg * e.openQty)) - (e.entry.fees + e.exit.elim 0 Leg.fees)

theorem sign_cases (e : Episode) : e.sign = 1 ∨ e.sign = -1 := by
  unfold sign
  cases e.long <;> simp

theorem sign_mul_mul (e : Episode) (a b : ℚ) : e.sign * a * (e.sign * b) = a * b := by
  rcases e.sign_cases with h | h <;> rw [h] <;> ring

end Episode

/-- A completed round trip.  `trade_id` is the name its uuid is derived from. -/
structure TradeRecord where
  tradeId : List Piece
  strategyId : String
  symbol : String
  side : String
  entryTs : ℤ
  exitTs : Option ℤ
  entryPrice : ℚ
  exitPrice : Option ℚ
  qty : ℚ
  grossPnl : ℚ
  fees : ℚ
  netPnl : ℚ
  returnPct : ℚ
  holdingPeriodHours : ℚ
  exitReason : String
  maxFavorableExcursion : Option ℚ := none
  maxAdverseExcursion : Option ℚ := none
deriving DecidableEq

/-- A fill, with what its order was for and which strategy asked for it. -/
structure FillEvent where
  ts : ℤ
  signedQty : ℚ
  price : ℚ
  fee : ℚ
  purpose : Purpose
  strategyId : String
deriving DecidableEq

/-- The fill's instant, its order's place in the input, its own place in the order. -/
abbrev FillKey := ℤ ×ₗ ℕ ×ₗ ℕ

namespace PerformanceAnalyzer

/-! ## The stream of fills -/

/-- `order.strategy_id or UNATTRIBUTED`. -/
def strategyOf (o : Order) : String :=
  match o.strategyId with
  | none | some "" => "unattributed"
  | some id => id

def fillEvent (o : Order) (f : Fill) : FillEvent where
  ts := f.ts
  signedQty := f.qty * o.side.sign
  price := f.price
  fee := f.fee
  purpose := o.purpose
  strategyId := strategyOf o

def fillKey (index position : ℕ) (ts : ℤ) : FillKey := toLex (ts, toLex (index, position))

/-- The fills of the order at an index of the input, with their keys. -/
def keyedFills (index : ℕ) (o : Order) : List (FillKey × FillEvent) :=
  o.fills.zipIdx.map fun p => (fillKey index p.2 p.1.ts, fillEvent o p.1)

/-- `sorted(..., key=...)`. -/
def sortByKey (l : List (FillKey × FillEvent)) : List (FillKey × FillEvent) := l.insertionSort fun a b => a.1 ≤ b.1

/-- **`_fill_stream`**: every fill, by symbol, in the order of their keys. -/
def fillStream (orders : List Order) : Dict String (List FillEvent) :=
  (Dict.group (orders.zipIdx.flatMap fun p => (keyedFills p.2 p.1).map (Prod.mk p.1.symbol))).filterMap fun l =>
    some ((sortByKey l).map Prod.snd)

/-! ## Trades -/

/-- `_EXIT_REASONS`. -/
def exitReasons : Purpose → String
  | .entry | .exit => "signal"
  | .stopLoss => "stop_loss"
  | .takeProfit => "take_profit"
  | .timeExit => "time"
  | .flatten | .manual => "manual"
  | .unknownPurpose => "unknown"

def sideName (long : Bool) : String := if long then "long" else "short"

/-- `_trade_id`. -/
def tradeId (symbol : String) (entryTs exitTs : ℤ) (long : Bool) : List Piece :=
  [.lit symbol, .lit ":", .lit (sideName long), .lit ":", .ts entryTs, .lit ":", .ts exitTs]

/-- **`_to_trade`**, with the leg that closed the episode. -/
def toTrade (e : Episode) (exit : Leg) : TradeRecord :=
  let direction : ℚ := if e.long then 1 else -1
  let gross := (exit.notional - e.entry.notional) * direction
  let fees := e.entry.fees + exit.fees
  let net := gross - fees
  { tradeId := tradeId e.symbol e.entry.firstTs exit.lastTs e.long
    strategyId := e.strategyId
    symbol := e.symbol
    side := sideName e.long
    entryTs := e.entry.firstTs
    exitTs := some exit.lastTs
    entryPrice := e.entry.vwap
    exitPrice := some exit.vwap
    qty := e.entry.qty
    grossPnl := gross
    fees := fees
    netPnl := net
    returnPct := if e.entry.notional = 0 then 0 else net / e.entry.notional
    holdingPeriodHours := ((exit.lastTs - e.entry.firstTs : ℤ) : ℚ) / 3600
    exitReason := e.exitPurpose.elim "unknown" exitReasons }

/-- Where the fold over a symbol's fills stands: the episode being built, and the trades closed. -/
structure Scan where
  episode : Option Episode
  trades : List TradeRecord

/-- `_Episode(...)`, with the fill that opens it. -/
def openEpisode (symbol : String) (x : FillEvent) (remaining fee : ℚ) : Episode where
  symbol := symbol
  long := decide (0 < x.signedQty)
  strategyId := x.strategyId
  entry := Leg.add none remaining x.price fee x.ts

def extend (e : Episode) (x : FillEvent) (remaining fee : ℚ) : Episode :=
  { e with entry := Leg.add (some e.entry) remaining x.price fee x.ts }

/-- What is left of a fill opens an episode, or extends the one there is. -/
def enter (symbol : String) (x : FillEvent) (remaining fee : ℚ) (s : Scan) : Scan :=
  if remaining = 0 then s
  else
    match s.episode with
    | none => { s with episode := some (openEpisode symbol x remaining fee) }
    | some e => { s with episode := some (extend e x remaining fee) }

def exitLeg (e : Episode) (x : FillEvent) (closing fee : ℚ) : Leg := Leg.add e.exit closing x.price fee x.ts

def withExit (e : Episode) (x : FillEvent) (closing fee : ℚ) : Episode :=
  { e with exit := some (exitLeg e x closing fee), exitPurpose := some x.purpose }

/-- An episode with one more exit fill: closed when nothing is open. -/
def leave (e : Episode) (x : FillEvent) (closing fee : ℚ) (s : Scan) : Scan :=
  if (withExit e x closing fee).openQty = 0 then
    { episode := none, trades := s.trades ++ [toTrade (withExit e x closing fee) (exitLeg e x closing fee)] }
  else { s with episode := some (withExit e x closing fee) }

/-- **One fill of the fold of `build_trades`**: what it opposes it closes, its fee pro rata, and the rest it opens. -/
def absorb (symbol : String) (s : Scan) (x : FillEvent) : Scan :=
  match s.episode with
  | none => enter symbol x |x.signedQty| x.fee s
  | some e =>
    if e.long = decide (0 < x.signedQty) then enter symbol x |x.signedQty| x.fee s
    else
      let closing := min |x.signedQty| e.openQty
      let closingFee := if |x.signedQty| = 0 then 0 else x.fee * closing / |x.signedQty|
      enter symbol x (|x.signedQty| - closing) (x.fee - closingFee) (leave e x closing closingFee s)

/-- The fold over one symbol's fills. -/
def scan (symbol : String) (l : List FillEvent) : Scan := l.foldl (absorb symbol) ⟨none, []⟩

/-- `t.exit_ts or t.entry_ts`. -/
def closeTs (t : TradeRecord) : ℤ := t.exitTs.getD t.entryTs

/-- The key trades are sorted by. -/
def closeKey (t : TradeRecord) : ℤ ×ₗ String := toLex (closeTs t, t.symbol)

/-- **`build_trades`.** -/
def buildTrades (orders : List Order) : List TradeRecord :=
  ((fillStream orders).entries.flatMap fun p => (scan p.1 p.2).trades).insertionSort fun a b => closeKey a ≤ closeKey b

/-! ## One fill -/

section
variable {symbol : String} {s : Scan} {e : Episode} {x : FillEvent}

theorem absorb_opens (hs : s.episode = none) (hx : x.signedQty ≠ 0) :
    absorb symbol s x = ⟨some (openEpisode symbol x |x.signedQty| x.fee), s.trades⟩ := by
  unfold absorb enter
  simp [hs, hx]

theorem absorb_extends (hs : s.episode = some e) (hside : e.long = decide (0 < x.signedQty)) (hx : x.signedQty ≠ 0) :
    absorb symbol s x = ⟨some (extend e x |x.signedQty| x.fee), s.trades⟩ := by
  unfold absorb enter
  simp [hs, hside, hx]

/-- A fill that opposes no more than is open goes into the exit leg, with all of its fee. -/
theorem absorb_leaves (hs : s.episode = some e) (hside : e.long ≠ decide (0 < x.signedQty)) (hx : x.signedQty ≠ 0)
    (hle : |x.signedQty| ≤ e.openQty) : absorb symbol s x = leave e x |x.signedQty| x.fee s := by
  have hfee : x.fee * |x.signedQty| / |x.signedQty| = x.fee := mul_div_cancel_right₀ _ (abs_ne_zero.2 hx)
  unfold absorb enter
  simp [hs, hside, hx, min_eq_left hle, hfee]

@[simp] theorem withExit_openQty (closing fee : ℚ) : (withExit e x closing fee).openQty = e.openQty - closing := by
  unfold withExit exitLeg Episode.openQty Leg.add
  cases e.exit with
  | none => simp
  | some l =>
    simp only [Option.elim_some]
    ring

theorem exitLeg_lastTs (closing fee : ℚ) : (exitLeg e x closing fee).lastTs = x.ts := by
  unfold exitLeg Leg.add
  cases e.exit <;> rfl

theorem leave_closes (fee : ℚ) : leave e x e.openQty fee s =
    ⟨none, s.trades ++ [toTrade (withExit e x e.openQty fee) (exitLeg e x e.openQty fee)]⟩ := by
  unfold leave
  rw [withExit_openQty, if_pos (sub_self _)]

theorem leave_reduces {closing : ℚ} (h : closing < e.openQty) (fee : ℚ) :
    leave e x closing fee s = ⟨some (withExit e x closing fee), s.trades⟩ := by
  unfold leave
  rw [withExit_openQty, if_neg (sub_ne_zero.2 h.ne')]

/-- A fill that opposes more than is open closes the episode and opens the opposite one. -/
theorem absorb_flips (hs : s.episode = some e) (hside : e.long ≠ decide (0 < x.signedQty)) (hx : x.signedQty ≠ 0)
    (hlt : e.openQty < |x.signedQty|) : ∃ closingFee, absorb symbol s x =
      ⟨some (openEpisode symbol x (|x.signedQty| - e.openQty) (x.fee - closingFee)),
        s.trades ++ [toTrade (withExit e x e.openQty closingFee) (exitLeg e x e.openQty closingFee)]⟩ := by
  have hrest : |x.signedQty| - e.openQty ≠ 0 := sub_ne_zero.2 hlt.ne'
  refine ⟨x.fee * e.openQty / |x.signedQty|, ?_⟩
  unfold absorb enter
  simp [hs, hside, hx, min_eq_right hlt.le, hrest, leave_closes]

/-! ## What is held over the fills -/

def Scan.held (s : Scan) : ℚ := s.episode.elim 0 Episode.held

/-- The episode of a scan is of its symbol, and something of it is open. -/
def Scan.Open (symbol : String) (s : Scan) : Prop := ∀ e ∈ s.episode, e.symbol = symbol ∧ 0 < e.openQty

@[simp] theorem held_none (l : List TradeRecord) : (⟨none, l⟩ : Scan).held = 0 := rfl

@[simp] theorem held_some (e : Episode) (l : List TradeRecord) : (⟨some e, l⟩ : Scan).held = e.sign * e.openQty := rfl

theorem open_none (l : List TradeRecord) : (⟨none, l⟩ : Scan).Open symbol := fun _ h => by cases h

theorem open_some {l : List TradeRecord} (hsymbol : e.symbol = symbol) (ho : 0 < e.openQty) :
    (⟨some e, l⟩ : Scan).Open symbol := fun _ h => Option.some.inj h ▸ ⟨hsymbol, ho⟩

theorem signed_along (hside : e.long = decide (0 < x.signedQty)) : x.signedQty = e.sign * |x.signedQty| := by
  unfold Episode.sign
  rw [hside]
  by_cases h : 0 < x.signedQty
  · simp [h, abs_of_pos h]
  · simp [h, abs_of_nonpos (not_lt.1 h)]

theorem signed_against (hside : e.long ≠ decide (0 < x.signedQty)) : x.signedQty = -(e.sign * |x.signedQty|) := by
  have hnot : e.long = !decide (0 < x.signedQty) := Bool.eq_not.2 hside
  unfold Episode.sign
  rw [hnot]
  by_cases h : 0 < x.signedQty
  · simp [h, abs_of_pos h]
  · simp [h, abs_of_nonpos (not_lt.1 h)]

@[simp] theorem openEpisode_openQty (remaining fee : ℚ) : (openEpisode symbol x remaining fee).openQty = remaining := by
  simp [openEpisode, Episode.openQty, Leg.add]

@[simp] theorem extend_openQty (remaining fee : ℚ) : (extend e x remaining fee).openQty = e.openQty + remaining := by
  simp only [extend, Episode.openQty, Leg.add]
  ring

@[simp] theorem extend_sign (remaining fee : ℚ) : (extend e x remaining fee).sign = e.sign := rfl

@[simp] theorem withExit_sign (closing fee : ℚ) : (withExit e x closing fee).sign = e.sign := rfl

@[simp] theorem openEpisode_along (remaining fee : ℚ) : x.signedQty =
    (openEpisode symbol x remaining fee).sign * |x.signedQty| := signed_along rfl

theorem openEpisode_against (remaining fee : ℚ) (hside : e.long ≠ decide (0 < x.signedQty)) :
    (openEpisode symbol x remaining fee).sign = -e.sign := by
  have hnot : e.long = !decide (0 < x.signedQty) := Bool.eq_not.2 hside
  simp only [Episode.sign, openEpisode, hnot]
  by_cases h : 0 < x.signedQty <;> simp [h]

/-- A fill on the side of an episode adds to what is held. -/
theorem held_along (hside : e.long = decide (0 < x.signedQty)) :
    e.sign * e.openQty + x.signedQty = e.sign * (e.openQty + |x.signedQty|) := by
  rw [mul_add, ← signed_along hside]

theorem held_against (hside : e.long ≠ decide (0 < x.signedQty)) :
    e.sign * e.openQty + x.signedQty = e.sign * (e.openQty - |x.signedQty|) := by
  have h := signed_against hside
  rw [mul_sub]
  linarith

/-- **What one fill does to a scan**: what is held moves by it, something stays open of every episode there is, and a trade is
closed exactly when what was held is closed or carried through zero. -/
theorem absorb_moves (hopen : s.Open symbol) (hx : x.signedQty ≠ 0) :
    (absorb symbol s x).Open symbol ∧ (absorb symbol s x).held = s.held + x.signedQty ∧
      ∃ l, (absorb symbol s x).trades = s.trades ++ l ∧ (∀ t ∈ l, t.exitTs = some x.ts ∧ t.symbol = symbol) ∧
        l.length = if s.held ≠ 0 ∧ s.held * (s.held + x.signedQty) ≤ 0 then 1 else 0 := by
  have hpos : 0 < |x.signedQty| := abs_pos.2 hx
  obtain ⟨episode, trades⟩ := s
  cases episode with
  | none =>
    rw [absorb_opens rfl hx, held_none, zero_add]
    refine ⟨open_some rfl (by simpa using hpos), ?_, [], by simp, by simp, by simp⟩
    rw [held_some, openEpisode_openQty, ← openEpisode_along]
  | some e =>
    obtain ⟨hsymbol, ho⟩ := hopen e rfl
    have hheld : e.sign * e.openQty ≠ 0 := by
      rcases e.sign_cases with h | h <;> rw [h] <;> simp [ho.ne']
    rw [held_some]
    by_cases hside : e.long = decide (0 < x.signedQty)
    · rw [held_along hside, e.sign_mul_mul, absorb_extends rfl hside hx]
      have hkept : ¬e.openQty * (e.openQty + |x.signedQty|) ≤ 0 := not_le.2 (mul_pos ho (add_pos ho hpos))
      exact ⟨open_some hsymbol (by simpa using add_pos ho hpos), by simp, [], by simp, by simp, by simp [hkept]⟩
    · rw [held_against hside, e.sign_mul_mul]
      have hclosed (fee : ℚ) : ∀ t ∈ [toTrade (withExit e x e.openQty fee) (exitLeg e x e.openQty fee)],
          t.exitTs = some x.ts ∧ t.symbol = symbol := by
        intro t ht
        rw [List.mem_singleton.1 ht]
        exact ⟨congrArg some (exitLeg_lastTs _ _), hsymbol⟩
      rcases lt_trichotomy |x.signedQty| e.openQty with hlt | heq | hgt
      · have hkept : ¬e.openQty * (e.openQty - |x.signedQty|) ≤ 0 := not_le.2 (mul_pos ho (sub_pos.2 hlt))
        rw [absorb_leaves rfl hside hx hlt.le, leave_reduces hlt]
        exact ⟨open_some hsymbol (by simpa using hlt), by simp, [], by simp, by simp, by simp [hkept]⟩
      · rw [absorb_leaves rfl hside hx heq.le, heq, leave_closes]
        exact ⟨open_none _, by simp, [_], rfl, hclosed _, by simp [hheld]⟩
      · have hcrossed : e.openQty * (e.openQty - |x.signedQty|) ≤ 0 :=
          mul_nonpos_of_nonneg_of_nonpos ho.le (sub_nonpos.2 hgt.le)
        obtain ⟨fee, hflip⟩ := @absorb_flips symbol ⟨some e, trades⟩ e x rfl hside hx hgt
        rw [hflip]
        refine ⟨open_some rfl (by simpa using hgt), ?_, [_], rfl, hclosed _, by simp [hheld, hcrossed]⟩
        rw [held_some, openEpisode_openQty, openEpisode_against _ _ hside]
        ring

/-! ## A position over the same fills -/

theorem openEpisode_worth (remaining fee : ℚ) : (openEpisode symbol x remaining fee).worth x.price = -fee := by
  simp only [Episode.worth, openEpisode_openQty]
  simp only [openEpisode, Leg.add, Option.elim_none]
  ring

/-- A basis that averages the fill in leaves the worth of the episode, less the fee. -/
theorem extend_worth {avg avg' remaining : ℚ} (fee : ℚ)
    (havg : avg' * (e.openQty + remaining) = avg * e.openQty + x.price * remaining) :
    (extend e x remaining fee).worth avg' = e.worth avg - fee := by
  simp only [Episode.worth, extend_openQty, extend_sign, havg]
  simp only [extend, Leg.add]
  ring

theorem withExit_worth (avg closing fee : ℚ) :
    (withExit e x closing fee).worth avg = e.worth avg + closing * (x.price - avg) * e.sign - fee := by
  simp only [Episode.worth, withExit_openQty, withExit_sign]
  unfold withExit exitLeg Leg.add
  cases e.exit with
  | none =>
    simp only [Option.elim_some, Option.elim_none]
    ring
  | some l =>
    simp only [Option.elim_some]
    ring

/-- A trade makes what its episode is worth with nothing open, whatever the basis. -/
theorem toTrade_netPnl (avg fee : ℚ) : (toTrade (withExit e x e.openQty fee) (exitLeg e x e.openQty fee)).netPnl =
    (withExit e x e.openQty fee).worth avg := by
  simp only [Episode.worth, withExit_openQty, sub_self, mul_zero, sub_zero]
  simp only [toTrade, withExit, Episode.sign, Option.elim_some]
  ring

/-- A position and a scan over the same fills: the same is held, and what the position has realised net of fees since its
account stood at `base` is what the episode is worth at the position's basis. -/
structure Mirrors (p : Position) (base : ℚ) (s : Scan) : Prop where
  held : p.qty = s.held
  worth : ∀ e ∈ s.episode, p.net - base = e.worth p.avgEntryPrice

/-- The event a fill of a signed quantity is. -/
structure Prints (f : Fill) (x : FillEvent) : Prop where
  price : x.price = f.price
  fee : x.fee = f.fee
  moves : x.signedQty ≠ 0

variable {p : Position} {base : ℚ} {f : Fill}

theorem Mirrors.of_account {q : Position} (h : Mirrors p base s) (hq : q.account = p.account) :
    Mirrors q base s := by
  obtain ⟨hqty, havg, hnet⟩ : q.qty = p.qty ∧ q.avgEntryPrice = p.avgEntryPrice ∧ q.net = p.net := by
    simpa [Position.account] using hq
  exact ⟨hqty.trans h.held, fun e he => by rw [hnet, havg]; exact h.worth e he⟩

/-- A flat position mirrors its scan from any base. -/
theorem Mirrors.of_flat {other : ℚ} (h : Mirrors p base s)
    (hopen : s.Open symbol) (hflat : p.qty = 0) : Mirrors p other s := by
  refine ⟨h.held, fun e he => ?_⟩
  obtain ⟨-, ho⟩ := hopen e he
  have hheld : e.sign * e.openQty = 0 := by
    have hs : s.held = e.sign * e.openQty := by simp [Scan.held, Option.mem_def.1 he, Episode.held]
    rw [← hs, ← h.held, hflat]
  rcases mul_eq_zero.1 hheld with hsign | hzero
  · rcases e.sign_cases with hs | hs <;> rw [hs] at hsign <;> norm_num at hsign
  · exact absurd hzero ho.ne'

/-- **A fill that does not carry the position through zero keeps the mirror**, and closes a trade, of what the position has made
since it was last flat, exactly when the position is flat again. -/
theorem Mirrors.absorbed (h : Mirrors p base s) (hopen : s.Open symbol) (hf : Prints f x)
    (hside : 0 ≤ p.qty * (p.qty + x.signedQty)) :
    Mirrors (p.settled f x.signedQty) (if p.qty = 0 then p.net else base) (absorb symbol s x) ∧
      (absorb symbol s x).trades.map TradeRecord.netPnl = s.trades.map TradeRecord.netPnl ++
        if p.qty + x.signedQty = 0 then [(p.settled f x.signedQty).net - if p.qty = 0 then p.net else base] else [] := by
  have hpos : 0 < |x.signedQty| := abs_pos.2 hf.moves
  obtain ⟨episode, trades⟩ := s
  cases episode with
  | none =>
    have hflat : p.qty = 0 := h.held
    have hheld : p.qty + x.signedQty ≠ 0 := by simpa [hflat] using hf.moves
    rw [absorb_opens rfl hf.moves, if_pos hflat, if_neg hheld]
    refine ⟨⟨?_, ?_⟩, by simp⟩
    · rw [Position.settled_qty, hflat, zero_add, held_some, openEpisode_openQty, ← openEpisode_along]
    · rintro _ ⟨⟩
      rw [Position.settled_net, Position.settled_avg _ _ _ hheld, Position.settle_flat hflat, ← hf.price, openEpisode_worth, hf.fee]
      ring
  | some e =>
    obtain ⟨hsymbol, ho⟩ := hopen e rfl
    have hworth := h.worth e rfl
    have hheld : p.qty = e.sign * e.openQty := h.held
    have hsign : e.sign ≠ 0 := by rcases e.sign_cases with h | h <;> rw [h] <;> norm_num
    rw [if_neg (Position.signed_ne_zero e.sign_cases hheld ho)]
    rw [hheld] at hside
    by_cases hdir : e.long = decide (0 < x.signedQty)
    · obtain ⟨havg, hreal⟩ := Position.settle_along (f := f) e.sign_cases hheld (signed_along hdir) ho hpos
      have hqty : p.qty + x.signedQty = e.sign * (e.openQty + |x.signedQty|) := by rw [hheld, held_along hdir]
      have hopened : p.qty + x.signedQty ≠ 0 := by
        rw [hqty]
        exact mul_ne_zero hsign (add_pos ho hpos).ne'
      rw [absorb_extends rfl hdir hf.moves, if_neg hopened]
      refine ⟨⟨?_, ?_⟩, by simp⟩
      · rw [Position.settled_qty, hqty, held_some, extend_openQty, extend_sign]
      · rintro _ ⟨⟩
        rw [← hf.price] at havg
        rw [Position.settled_net, Position.settled_avg _ _ _ hopened, hreal, extend_worth _ havg, ← hworth, hf.fee]
        ring
    · have hqty : p.qty + x.signedQty = e.sign * (e.openQty - |x.signedQty|) := by rw [hheld, held_against hdir]
      rw [held_against hdir, e.sign_mul_mul] at hside
      have hle : |x.signedQty| ≤ e.openQty := sub_nonneg.1 (nonneg_of_mul_nonneg_right hside ho)
      obtain ⟨havg, hreal⟩ := Position.settle_against (f := f) e.sign_cases hheld (signed_against hdir) ho hpos hle
      have hnet : (p.settled f x.signedQty).net - base =
          e.worth p.avgEntryPrice + |x.signedQty| * (x.price - p.avgEntryPrice) * e.sign - x.fee := by
        rw [Position.settled_net, hreal, ← hworth, hf.price, hf.fee]
        ring
      rw [absorb_leaves rfl hdir hf.moves hle]
      rcases hle.lt_or_eq with hlt | heq
      · have hopened : p.qty + x.signedQty ≠ 0 := by
          rw [hqty]
          exact mul_ne_zero hsign (sub_pos.2 hlt).ne'
        rw [leave_reduces hlt, if_neg hopened]
        refine ⟨⟨?_, ?_⟩, by simp⟩
        · rw [Position.settled_qty, hqty, held_some, withExit_openQty, withExit_sign]
        · rintro _ ⟨⟩
          rw [Position.settled_avg _ _ _ hopened, havg, withExit_worth, hnet]
      · have hflat : p.qty + x.signedQty = 0 := by rw [hqty, heq, sub_self, mul_zero]
        rw [heq, leave_closes, if_pos hflat]
        refine ⟨⟨?_, ?_⟩, ?_⟩
        · rw [Position.settled_qty, hflat, held_none]
        · rintro _ ⟨⟩
        · rw [List.map_append, List.map_singleton, toTrade_netPnl p.avgEntryPrice, withExit_worth, hnet, heq]

end

end PerformanceAnalyzer
end Atp
