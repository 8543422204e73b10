import AlgoTrading.Extremes
import AlgoTrading.Market
import AlgoTrading.TradeIds
import Mathlib.Algebra.BigOperators.Ring.List
/-!
# Excursions — how far a trade went for and against, read off its bars

`with_excursions` and `_bars_in` of `analytics/performance.py`.  The extremes are those of the bars stamped within the
holding period.  A bar is stamped when it opens, so the one an entry falls into may be stamped before the entry, and is
then not among them: the excursions bound the trade exactly when that bar adds nothing (`excursions_bound_iff`).
-/
namespace Atp
namespace PerformanceAnalyzer

open Extremes

def TradeRecord.isLong (t : TradeRecord) : Bool := decide (t.side = "long")

/-- **`_bars_in`**: the bars stamped within a trade's holding period. -/
def barsIn (bars : List Bar) (t : TradeRecord) : List Bar :=
  match t.exitTs with
  | none => []
  | some end_ => bars.filter fun bar => t.entryTs ≤ bar.ts ∧ bar.ts ≤ end_

/-- A trade with its excursions, where it has bars. -/
def excursionsOf (bars : List Bar) (t : TradeRecord) : TradeRecord :=
  match barsIn bars t with
  | [] => t
  | first :: rest =>
    let high := (rest.map Bar.high).foldl (best true) first.high
    let low := (rest.map Bar.low).foldl (best false) first.low
    let top := if TradeRecord.isLong t then high - t.entryPrice else t.entryPrice - low
    let bottom := if TradeRecord.isLong t then low - t.entryPrice else t.entryPrice - high
    { t with
      maxFavorableExcursion := some (max top 0 * t.qty)
      maxAdverseExcursion := some (min bottom 0 * t.qty) }

/-- **`with_excursions`.** -/
def withExcursions (trades : List TradeRecord) (barsBySymbol : Dict String (List Bar)) : List TradeRecord :=
  trades.map fun t => excursionsOf ((barsBySymbol.get? t.symbol).getD []) t

/-! ### What a trade is made of -/

/-- Parts of fills: a fill that carries a position through zero is part of two trades. -/
abbrev Parts := List (FillEvent × ℚ)

def Parts.qty (parts : Parts) : ℚ := (parts.map Prod.snd).sum

def Parts.cost (parts : Parts) : ℚ := (parts.map fun p => p.2 * p.1.price).sum

/-- A leg and the parts it adds up. -/
structure Sums (leg : Leg) (parts : Parts) : Prop where
  qty : leg.qty = parts.qty
  notional : leg.notional = parts.cost
  pos : ∀ p ∈ parts, 0 < p.2

def direction (long : Bool) : ℚ := if long then 1 else -1

/-- **A trade and the parts it was made of**: as much in as out, priced and timed by them. -/
structure Made (t : TradeRecord) (entry exit : Parts) : Prop where
  open_ : 0 < t.qty
  entered : entry.qty = t.qty
  left : exit.qty = t.qty
  pos : ∀ p ∈ entry ++ exit, 0 < p.2
  price : t.entryPrice * t.qty = entry.cost
  gross : t.grossPnl = direction (TradeRecord.isLong t) * (exit.cost - entry.cost)
  closed : t.exitTs = some (closeTs t)
  during : ∀ p ∈ entry ++ exit, t.entryTs ≤ p.1.ts ∧ p.1.ts ≤ closeTs t

section
variable {symbol : String} {s : Scan} {e : Episode} {x : FillEvent} {l : List FillEvent} {t : TradeRecord} {entry exit : Parts}

theorem Sums.add {leg : Leg} {parts : Parts} (h : Sums leg parts) {q : ℚ} (hq : 0 < q) (fee : ℚ) (x : FillEvent) :
    Sums (Leg.add (some leg) q x.price fee x.ts) (parts ++ [(x, q)]) where
  qty := by simp [Leg.add, Parts.qty, h.qty]
  notional := by simp [Leg.add, Parts.cost, h.notional]
  pos p hp := by
    rcases List.mem_append.1 hp with hp | hp
    · exact h.pos p hp
    · rw [List.mem_singleton.1 hp]
      exact hq

theorem Sums.first {q : ℚ} (hq : 0 < q) (fee : ℚ) (x : FillEvent) : Sums (Leg.add none q x.price fee x.ts) [(x, q)] where
  qty := by simp [Leg.add, Parts.qty]
  notional := by simp [Leg.add, Parts.cost]
  pos p hp := by
    rw [List.mem_singleton.1 hp]
    exact hq

/-- **An episode in the middle of being rebuilt**, and the parts it has been built of. -/
structure Building (l : List FillEvent) (e : Episode) (entry exit : Parts) : Prop where
  begun : entry ≠ []
  entered : Sums e.entry entry
  left : (e.exit = none ∧ exit = []) ∨ ∃ leg, e.exit = some leg ∧ Sums leg exit
  among : ∀ p ∈ entry ++ exit, p.1 ∈ l
  since : ∀ p ∈ entry ++ exit, e.entry.firstTs ≤ p.1.ts

theorem Building.later (h : Building l e entry exit) (x : FillEvent) : Building (l ++ [x]) e entry exit where
  begun := h.begun
  entered := h.entered
  left := h.left
  among p hp := List.mem_append_left _ (h.among p hp)
  since := h.since

theorem building_open {q : ℚ} (hq : 0 < q) (symbol : String) (fee : ℚ) (x : FillEvent) :
    Building (l ++ [x]) (openEpisode symbol x q fee) [(x, q)] [] where
  begun := List.cons_ne_nil _ _
  entered := .first hq fee x
  left := .inl ⟨rfl, rfl⟩
  among p hp := by
    rw [List.mem_singleton.1 hp]
    exact List.mem_append_right _ (List.mem_singleton_self x)
  since p hp := by
    rw [List.mem_singleton.1 hp]
    exact le_rfl

/-- The instant an episode was opened at is not after a fill that comes. -/
theorem Building.opened_le (h : Building l e entry exit) (hx : ∀ y ∈ l, y.ts ≤ x.ts) : e.entry.firstTs ≤ x.ts := by
  obtain ⟨p, hp⟩ := List.exists_mem_of_ne_nil _ h.begun
  have hmem : p ∈ entry ++ exit := List.mem_append_left _ hp
  exact (h.since p hmem).trans (hx _ (h.among p hmem))

theorem Building.extended {q : ℚ} (h : Building l e entry exit) (hq : 0 < q) (fee : ℚ) (hts : e.entry.firstTs ≤ x.ts) :
    Building (l ++ [x]) (extend e x q fee) (entry ++ [(x, q)]) exit where
  begun := by simp
  entered := h.entered.add hq fee x
  left := h.left
  among p hp := by
    rw [List.mem_append, List.mem_append, List.mem_singleton] at hp
    rcases hp with (hp | rfl) | hp
    · exact List.mem_append_left _ (h.among p (List.mem_append_left _ hp))
    · exact List.mem_append_right _ (List.mem_singleton_self x)
    · exact List.mem_append_left _ (h.among p (List.mem_append_right _ hp))
  since p hp := by
    rw [List.mem_append, List.mem_append, List.mem_singleton] at hp
    rcases hp with (hp | rfl) | hp
    · exact h.since p (List.mem_append_left _ hp)
    · exact hts
    · exact h.since p (List.mem_append_right _ hp)

/-- The exit leg after a fill into it. -/
theorem Building.outLeg {q : ℚ} (h : Building l e entry exit) (hq : 0 < q) (fee : ℚ) :
    Sums (exitLeg e x q fee) (exit ++ [(x, q)]) := by
  unfold exitLeg
  rcases h.left with ⟨hnone, rfl⟩ | ⟨leg, hleg, hsums⟩
  · rw [hnone]
    exact .first hq fee x
  · rw [hleg]
    exact hsums.add hq fee x

theorem Building.exited {q : ℚ} (h : Building l e entry exit) (hq : 0 < q) (fee : ℚ) (hts : e.entry.firstTs ≤ x.ts) :
    Building (l ++ [x]) (withExit e x q fee) entry (exit ++ [(x, q)]) where
  begun := h.begun
  entered := h.entered
  left := .inr ⟨_, rfl, h.outLeg hq fee⟩
  among p hp := by
    rw [← List.append_assoc, List.mem_append, List.mem_singleton] at hp
    rcases hp with hp | rfl
    · exact List.mem_append_left _ (h.among p hp)
    · exact List.mem_append_right _ (List.mem_singleton_self x)
  since p hp := by
    rw [← List.append_assoc, List.mem_append, List.mem_singleton] at hp
    rcases hp with hp | rfl
    · exact h.since p hp
    · exact hts

/-- An exit of nothing is no part of an episode. -/
theorem Building.marked (h : Building l e entry exit) (x : FillEvent) : Building (l ++ [x]) (withExit e x 0 0) entry exit where
  begun := h.begun
  entered := h.entered
  left := by
    refine .inr ⟨_, rfl, ?_⟩
    unfold exitLeg
    rcases h.left with ⟨hnone, rfl⟩ | ⟨leg, hleg, hsums⟩
    · rw [hnone]
      exact ⟨by simp [Leg.add, Parts.qty], by simp [Leg.add, Parts.cost], fun p hp => (List.not_mem_nil hp).elim⟩
    · rw [hleg]
      exact ⟨by simp [Leg.add, hsums.qty], by simp [Leg.add, hsums.notional], hsums.pos⟩
  among p hp := List.mem_append_left _ (h.among p hp)
  since := h.since

/-- **The trade an episode becomes**, when a fill takes all that is open. -/
theorem Building.made (h : Building l e entry exit) (ho : 0 < e.openQty) (hx : ∀ y ∈ l, y.ts ≤ x.ts) (fee : ℚ) :
    Made (toTrade (withExit e x e.openQty fee) (exitLeg e x e.openQty fee)) entry (exit ++ [(x, e.openQty)]) := by
  have hout := h.outLeg (x := x) ho fee
  have hbuilt := h.exited ho fee (h.opened_le hx)
  have hqty : (exitLeg e x e.openQty fee).qty = e.entry.qty := exitLeg_qty fee
  have hpos : ∀ p ∈ entry ++ (exit ++ [(x, e.openQty)]), 0 < p.2 := by
    intro p hp
    rcases List.mem_append.1 hp with hp | hp
    · exact h.entered.pos p hp
    · exact hout.pos p hp
  have hentered : 0 < e.entry.qty := by
    rw [h.entered.qty]
    refine List.sum_pos _ ?_ (by simpa using h.begun)
    intro q hq
    obtain ⟨p, hp, rfl⟩ := List.mem_map.1 hq
    exact h.entered.pos p hp
  constructor
  case open_ => exact hentered
  case entered => exact h.entered.qty.symm
  case left => exact hout.qty.symm.trans hqty
  case pos => exact hpos
  case price =>
    show e.entry.vwap * e.entry.qty = _
    unfold Leg.vwap
    rw [if_neg hentered.ne', div_mul_cancel₀ _ hentered.ne', h.entered.notional]
  case gross =>
    have hside : TradeRecord.isLong (toTrade (withExit e x e.openQty fee) (exitLeg e x e.openQty fee)) = e.long := by
      show decide (sideName e.long = "long") = e.long
      cases e.long <;> decide
    rw [hside, ← hout.notional, ← h.entered.notional]
    show (_ - _) * (if e.long then (1 : ℚ) else -1) = _
    rw [mul_comm]
    rfl
  case closed => rfl
  case during =>
    intro p hp
    have hclose : closeTs (toTrade (withExit e x e.openQty fee) (exitLeg e x e.openQty fee)) = x.ts := exitLeg_lastTs _ _
    refine ⟨hbuilt.since p hp, ?_⟩
    rw [hclose]
    rcases List.mem_append.1 (hbuilt.among p hp) with hmem | hmem
    · exact hx _ hmem
    · rw [List.mem_singleton.1 hmem]

/-- A trade made of the given fills, with no excursions yet. -/
def Told (l : List FillEvent) (t : TradeRecord) : Prop :=
  t.maxAdverseExcursion = none ∧ ∃ entry exit, Made t entry exit ∧ ∀ p ∈ entry ++ exit, p.1 ∈ l

/-- **What a scan has built**, of the fills so far. -/
structure Built (l : List FillEvent) (s : Scan) : Prop where
  episode : ∀ e ∈ s.episode, ∃ entry exit, Building l e entry exit
  trades : ∀ t ∈ s.trades, Told l t

theorem Built.later (h : Built l s) (x : FillEvent) : ∀ t ∈ s.trades, Told (l ++ [x]) t := by
  intro t ht
  obtain ⟨hplain, entry, exit, hmade, hmem⟩ := h.trades t ht
  exact ⟨hplain, entry, exit, hmade, fun p hp => List.mem_append_left _ (hmem p hp)⟩

/-- The trades after a fill that closes an episode. -/
theorem Built.closed (h : Built l s) (hs : s.episode = some e) (ho : 0 < e.openQty) (hx : ∀ y ∈ l, y.ts ≤ x.ts) (fee : ℚ) :
    ∀ t ∈ s.trades ++ [toTrade (withExit e x e.openQty fee) (exitLeg e x e.openQty fee)], Told (l ++ [x]) t := by
  intro t ht
  rcases List.mem_append.1 ht with ht | ht
  · exact h.later x t ht
  · rw [List.mem_singleton.1 ht]
    obtain ⟨entry, exit, hbuilding⟩ := h.episode e hs
    exact ⟨rfl, entry, _, hbuilding.made ho hx fee, (hbuilding.exited ho fee (hbuilding.opened_le hx)).among⟩

/-- **Every fill keeps what is built.** -/
theorem Built.moved (h : Built l s) (hopen : s.Open symbol) (hx : x.signedQty ≠ 0) (hts : ∀ y ∈ l, y.ts ≤ x.ts) :
    Built (l ++ [x]) (absorb symbol s x) := by
  have hpos : 0 < |x.signedQty| := abs_pos.2 hx
  have hstep := absorb_absorbed symbol s hx
  generalize absorb symbol s x = s' at hstep ⊢
  cases hstep with
  | opens hs =>
    refine ⟨?_, h.later x⟩
    intro e he
    cases he
    exact ⟨_, _, building_open hpos symbol x.fee x⟩
  | adds e hs hside =>
    obtain ⟨entry, exit, hbuilding⟩ := h.episode e hs
    refine ⟨?_, h.later x⟩
    intro e' he
    cases he
    exact ⟨_, exit, hbuilding.extended hpos x.fee (hbuilding.opened_le hts)⟩
  | reduces e hs hside hlt =>
    obtain ⟨entry, exit, hbuilding⟩ := h.episode e hs
    refine ⟨?_, h.later x⟩
    intro e' he
    cases he
    exact ⟨entry, _, hbuilding.exited hpos x.fee (hbuilding.opened_le hts)⟩
  | closes e hs hside heq => exact ⟨(fun e' he => nomatch he), h.closed hs (hopen e hs).2 hts x.fee⟩
  | reverses e fee hs hside hgt =>
    refine ⟨?_, h.closed hs (hopen e hs).2 hts fee⟩
    intro e' he
    cases he
    exact ⟨_, _, building_open (sub_pos.2 hgt) symbol _ x⟩

theorem Built.absorbed (h : Built l s) (hopen : s.Open symbol) (hts : ∀ y ∈ l, y.ts ≤ x.ts) :
    Built (l ++ [x]) (absorb symbol s x) := by
  by_cases hx : x.signedQty = 0
  · rcases absorb_empty hopen hx with hkept | ⟨e, hs, hleft⟩
    · rw [hkept]
      refine ⟨?_, h.later x⟩
      intro e he
      obtain ⟨entry, exit, hbuilding⟩ := h.episode e he
      exact ⟨entry, exit, hbuilding.later x⟩
    · obtain ⟨entry, exit, hbuilding⟩ := h.episode e hs
      rw [hleft]
      refine ⟨?_, h.later x⟩
      intro e' he
      cases he
      exact ⟨entry, exit, hbuilding.marked x⟩
  · exact h.moved hopen hx hts

theorem scan_built (symbol : String) (hl : l.Pairwise fun x y => x.ts ≤ y.ts) :
    Built l (scan symbol l) := by
  induction l using List.reverseRecOn with
  | nil => exact ⟨(fun _ h => nomatch h), fun _ h => nomatch h⟩
  | append_singleton l x ih =>
    obtain ⟨hbefore, -, hlast⟩ := List.pairwise_append.1 hl
    rw [scan_append]
    exact (ih hbefore).absorbed (scan_closes symbol l).1 fun y hy => hlast y hy x (List.mem_singleton_self x)

/-- **Every trade rebuilt was made of fills of its symbol.** -/
theorem trades_told (orders : List Order) (ht : t ∈ buildTrades orders) : Told (stream orders t.symbol) t := by
  have hmem : t ∈ (buildTrades orders).filter fun u => u.symbol = t.symbol := List.mem_filter.2 ⟨ht, by simp⟩
  exact (scan_built t.symbol (stream_ascending orders t.symbol)).trades t ((buildTrades_symbol orders t.symbol).mem_iff.1 hmem)

end

/-! ### What a trade's bars bound -/

def CoversInstant (step : ℤ) (b : Bar) (i : ℤ) : Prop := b.ts ≤ i ∧ i < b.ts + step

/-- **A contiguous series of bars that covers a trade's holding period.** -/
structure Series (step : ℤ) (bars : List Bar) (t : TradeRecord) : Prop where
  contiguous : bars.IsChain fun a b => b.ts = a.ts + step
  covering : ∀ i, t.entryTs ≤ i → i ≤ closeTs t → ∃ b ∈ bars, CoversInstant step b i

/-- Every part printed within the bar its instant falls into. -/
def PrintedWithin (step : ℤ) (bars : List Bar) (parts : Parts) : Prop :=
  ∀ p ∈ parts, ∀ b ∈ bars, CoversInstant step b p.1.ts → b.low ≤ p.1.price ∧ p.1.price ≤ b.high

/-- The unrealised P&L of a trade's full quantity at a price. -/
def unrealised (t : TradeRecord) (price : ℚ) : ℚ := direction (TradeRecord.isLong t) * (price - t.entryPrice) * t.qty

/-- **The excursions bound the trade**: what it made, and all it could have shown at a price of a bar it was held in. -/
structure BoundedBy (step : ℤ) (bars : List Bar) (t : TradeRecord) (worst best_ : ℚ) : Prop where
  adverse : t.maxAdverseExcursion = some worst
  favorable : t.maxFavorableExcursion = some best_
  gross : worst ≤ t.grossPnl ∧ t.grossPnl ≤ best_
  inside : ∀ b ∈ bars, ∀ i, t.entryTs ≤ i → i ≤ closeTs t → CoversInstant step b i →
    ∀ price, b.low ≤ price → price ≤ b.high → worst ≤ unrealised t price ∧ unrealised t price ≤ best_

/-- **The bar a trade was entered in adds nothing**, where it opened before the entry: neither of its extremes lies beyond
the entry price and every bar stamped within the holding period. -/
def EntryBarWithin (step : ℤ) (bars : List Bar) (t : TradeRecord) : Prop :=
  barsIn bars t ≠ [] ∧ ∀ b ∈ bars, b.ts < t.entryTs → t.entryTs < b.ts + step →
    (b.high ≤ t.entryPrice ∨ ∃ w ∈ barsIn bars t, b.high ≤ w.high) ∧ (t.entryPrice ≤ b.low ∨ ∃ w ∈ barsIn bars t, w.low ≤ b.low)

instance (step : ℤ) (bars : List Bar) (t : TradeRecord) : Decidable (EntryBarWithin step bars t) := by
  delta EntryBarWithin
  infer_instance

section
variable {step : ℤ} {bars : List Bar} {t : TradeRecord} {entry exit : Parts} {high low : ℚ}

/-- The favourable excursion of one share, from the extremes of the bars, and the adverse one. -/
def favorable (t : TradeRecord) (high low : ℚ) : ℚ :=
  max (if TradeRecord.isLong t then high - t.entryPrice else t.entryPrice - low) 0

def adverse (t : TradeRecord) (high low : ℚ) : ℚ :=
  min (if TradeRecord.isLong t then low - t.entryPrice else t.entryPrice - high) 0

theorem excursionsOf_empty (h : barsIn bars t = []) : excursionsOf bars t = t := by
  unfold excursionsOf
  rw [h]

/-- **The excursions read the extremes of the bars stamped within the holding period.** -/
theorem excursionsOf_measured (h : barsIn bars t ≠ []) :
    ∃ high low, IsBest true {x | ∃ w ∈ barsIn bars t, x = w.high} high ∧ IsBest false {x | ∃ w ∈ barsIn bars t, x = w.low} low ∧
      excursionsOf bars t = { t with
        maxFavorableExcursion := some (favorable t high low * t.qty)
        maxAdverseExcursion := some (adverse t high low * t.qty) } := by
  unfold excursionsOf
  obtain ⟨first, rest, hcons⟩ := List.exists_cons_of_ne_nil h
  have hset (f : Bar → ℚ) : {x | ∃ w ∈ barsIn bars t, x = f w} = {x | x = f first ∨ x ∈ rest.map f} := by
    ext x
    simp [hcons, eq_comm]
  rw [hset, hset, hcons]
  exact ⟨_, _, isBest_foldl true first.high (rest.map Bar.high), isBest_foldl false first.low (rest.map Bar.low), rfl⟩

/-- **A price is within the excursions** when it is beyond neither the entry price nor the extremes. -/
theorem within_excursions (hqty : 0 < t.qty) (price : ℚ) :
    adverse t high low * t.qty ≤ unrealised t price ∧ unrealised t price ≤ favorable t high low * t.qty ↔
      (price ≤ high ∨ price ≤ t.entryPrice) ∧ (low ≤ price ∨ t.entryPrice ≤ price) := by
  unfold unrealised direction adverse favorable
  rw [mul_le_mul_iff_left₀ hqty, mul_le_mul_iff_left₀ hqty, min_le_iff, le_max_iff]
  cases TradeRecord.isLong t with
  | true => simp [and_comm]
  | false =>
    simp only [Bool.false_eq_true, if_false, neg_mul, one_mul, neg_sub, sub_le_sub_iff_left, sub_nonneg, sub_nonpos]

/-- What a trade made is the mean of what its exit parts show for the full quantity. -/
theorem Made.gross_mean (h : Made t entry exit) :
    t.grossPnl * t.qty = (exit.map fun p => p.2 * unrealised t p.1.price).sum := by
  have hshow (p : FillEvent × ℚ) : p.2 * unrealised t p.1.price = direction (TradeRecord.isLong t) * t.qty * (p.2 * p.1.price) +
      -(direction (TradeRecord.isLong t) * t.qty * t.entryPrice) * p.2 := by
    unfold unrealised
    ring
  have hsum : (exit.map fun p => p.2 * unrealised t p.1.price).sum = direction (TradeRecord.isLong t) * t.qty * exit.cost +
      -(direction (TradeRecord.isLong t) * t.qty * t.entryPrice) * exit.qty := by
    unfold Parts.cost Parts.qty
    rw [← List.sum_map_mul_left, ← List.sum_map_mul_left, ← List.sum_map_add]
    exact congrArg List.sum (List.map_congr_left fun p _ => hshow p)
  rw [hsum, h.gross, h.left, ← h.price]
  ring

/-- **What a trade made lies between bounds on what its exit parts show.** -/
theorem Made.gross_between (h : Made t entry exit) {worst best_ : ℚ}
    (hexit : ∀ p ∈ exit, worst ≤ unrealised t p.1.price ∧ unrealised t p.1.price ≤ best_) :
    worst ≤ t.grossPnl ∧ t.grossPnl ≤ best_ := by
  have hpos : ∀ p ∈ exit, 0 ≤ p.2 := fun p hp => (h.pos p (List.mem_append_right _ hp)).le
  have hconst (c : ℚ) : (exit.map fun p => p.2 * c).sum = c * t.qty := by
    rw [List.sum_map_mul_right, mul_comm, ← h.left]
    rfl
  constructor
  · refine le_of_mul_le_mul_right ?_ h.open_
    rw [h.gross_mean, ← hconst]
    exact List.sum_le_sum fun p hp => mul_le_mul_of_nonneg_left (hexit p hp).1 (hpos p hp)
  · refine le_of_mul_le_mul_right ?_ h.open_
    rw [h.gross_mean, ← hconst]
    exact List.sum_le_sum fun p hp => mul_le_mul_of_nonneg_left (hexit p hp).2 (hpos p hp)

theorem Made.entry_le_close (h : Made t entry exit) : t.entryTs ≤ closeTs t := by
  have hne : exit ≠ [] := by
    rintro rfl
    exact h.open_.ne h.left
  obtain ⟨p, hp⟩ := List.exists_mem_of_ne_nil _ hne
  have hduring := h.during p (List.mem_append_right _ hp)
  exact hduring.1.trans hduring.2

/-- A bar a trade was held in is stamped within the holding period, or opened before the entry and covers it. -/
theorem Made.held_in (h : Made t entry exit) {b : Bar} {i : ℤ} (hb : b ∈ bars) (hentry : t.entryTs ≤ i) (hclose : i ≤ closeTs t)
    (hcovers : CoversInstant step b i) : b ∈ barsIn bars t ∨ b.ts < t.entryTs ∧ t.entryTs < b.ts + step := by
  obtain ⟨hfrom, hto⟩ := hcovers
  rcases lt_or_ge b.ts t.entryTs with hlt | hge
  · exact .inr ⟨hlt, hentry.trans_lt hto⟩
  · refine .inl ?_
    unfold barsIn
    rw [h.closed]
    exact List.mem_filter.2 ⟨hb, by simpa using ⟨hge, hfrom.trans hclose⟩⟩

/-- **The excursions bound the trade exactly when the bar it was entered in adds nothing.** -/
theorem Made.bounded_iff (h : Made t entry exit) (hplain : t.maxAdverseExcursion = none) (hseries : Series step bars t)
    (hprinted : PrintedWithin step bars (entry ++ exit)) :
    (∃ worst best_, BoundedBy step bars (excursionsOf bars t) worst best_) ↔ EntryBarWithin step bars t := by
  by_cases hstamped : barsIn bars t = []
  · rw [excursionsOf_empty hstamped]
    refine iff_of_false ?_ fun hwithin => hwithin.1 hstamped
    rintro ⟨worst, best_, hbounded⟩
    have hsome := hbounded.adverse
    rw [hplain] at hsome
    exact Option.some_ne_none worst hsome.symm
  obtain ⟨high, low, hhigh, hlow, hmeasured⟩ := excursionsOf_measured hstamped
  have hreach (x : ℚ) : x ≤ high ↔ ∃ w ∈ barsIn bars t, x ≤ w.high := by
    obtain ⟨w, hw, heq⟩ := hhigh.mem
    exact ⟨fun hx => ⟨w, hw, heq ▸ hx⟩, fun ⟨v, hv, hx⟩ => hx.trans (hhigh.bound ⟨v, hv, rfl⟩)⟩
  have hsink (x : ℚ) : low ≤ x ↔ ∃ w ∈ barsIn bars t, w.low ≤ x := by
    obtain ⟨w, hw, heq⟩ := hlow.mem
    exact ⟨fun hx => ⟨w, hw, heq ▸ hx⟩, fun ⟨v, hv, hx⟩ => (hlow.bound ⟨v, hv, rfl⟩).trans hx⟩
  rw [hmeasured]
  constructor
  · rintro ⟨worst, best_, hbounded⟩
    obtain rfl : adverse t high low * t.qty = worst := Option.some.inj hbounded.adverse
    obtain rfl : favorable t high low * t.qty = best_ := Option.some.inj hbounded.favorable
    refine ⟨hstamped, fun b hb hlt hgt => ?_⟩
    have hordered : b.low ≤ b.high := b.openInside.1.trans b.openInside.2
    have hinside := hbounded.inside b hb t.entryTs le_rfl h.entry_le_close ⟨hlt.le, hgt⟩
    have htop := (within_excursions h.open_ b.high).1 (hinside b.high hordered le_rfl)
    have hbottom := (within_excursions h.open_ b.low).1 (hinside b.low le_rfl hordered)
    exact ⟨(htop.1.imp_left (hreach _).1).symm, (hbottom.2.imp_left (hsink _).1).symm⟩
  · rintro ⟨-, hwithin⟩
    have hinside : ∀ b ∈ bars, ∀ i, t.entryTs ≤ i → i ≤ closeTs t → CoversInstant step b i → ∀ price, b.low ≤ price →
        price ≤ b.high → adverse t high low * t.qty ≤ unrealised t price ∧ unrealised t price ≤ favorable t high low * t.qty := by
      intro b hb i hentry hclose hcovers price hge hle
      rw [within_excursions h.open_]
      rcases h.held_in hb hentry hclose hcovers with hmem | ⟨hlt, hgt⟩
      · exact ⟨.inl ((hreach _).2 ⟨b, hmem, hle⟩), .inl ((hsink _).2 ⟨b, hmem, hge⟩)⟩
      · obtain ⟨htop, hbottom⟩ := hwithin b hb hlt hgt
        rw [← hreach] at htop
        rw [← hsink] at hbottom
        exact ⟨(htop.imp hle.trans hle.trans).symm, (hbottom.imp hge.trans' hge.trans').symm⟩
    refine ⟨_, _, rfl, rfl, ?_, hinside⟩
    refine h.gross_between fun p hp => ?_
    have hmem : p ∈ entry ++ exit := List.mem_append_right _ hp
    obtain ⟨hentry, hclose⟩ := h.during p hmem
    obtain ⟨b, hb, hcovers⟩ := hseries.covering p.1.ts hentry hclose
    have hprice := hprinted p hmem b hb hcovers
    exact hinside b hb p.1.ts hentry hclose hcovers p.1.price hprice.1 hprice.2

end

/-- Nothing of a trade but its excursions is touched. -/
theorem excursionsOf_kept (bars : List Bar) (t : TradeRecord) :
    ∃ mae mfe, excursionsOf bars t = { t with maxAdverseExcursion := mae, maxFavorableExcursion := mfe } := by
  by_cases hstamped : barsIn bars t = []
  · exact ⟨_, _, excursionsOf_empty hstamped⟩
  · obtain ⟨high, low, -, -, hmeasured⟩ := excursionsOf_measured hstamped
    exact ⟨_, _, hmeasured⟩

/-- **The excursions of a trade rebuilt bound it, exactly when the bar it was entered in adds nothing** to the entry price
and to the bars stamped within the holding period. -/
theorem excursions_bound_iff (orders : List Order) (barsBySymbol : Dict String (List Bar)) :
    ∀ t ∈ withExcursions (buildTrades orders) barsBySymbol,
      ∃ entry exit, Made t entry exit ∧ (∀ p ∈ entry ++ exit, p.1 ∈ stream orders t.symbol) ∧
        ∀ step bars, barsBySymbol.get? t.symbol = some bars → Series step bars t → PrintedWithin step bars (entry ++ exit) →
          ((∃ worst best_, BoundedBy step bars t worst best_) ↔ EntryBarWithin step bars t) := by
  intro t' ht'
  obtain ⟨t, ht, rfl⟩ := List.mem_map.1 ht'
  obtain ⟨hplain, entry, exit, hmade, hmem⟩ := trades_told orders ht
  obtain ⟨mae, mfe, hkept⟩ := excursionsOf_kept ((barsBySymbol.get? t.symbol).getD []) t
  have hmade' : Made { t with maxAdverseExcursion := mae, maxFavorableExcursion := mfe } entry exit :=
    ⟨hmade.open_, hmade.entered, hmade.left, hmade.pos, hmade.price, hmade.gross, hmade.closed, hmade.during⟩
  have hiff (step : ℤ) (hseries : Series step ((barsBySymbol.get? t.symbol).getD []) t) := hmade.bounded_iff hplain hseries
  rw [hkept] at hiff ⊢
  refine ⟨entry, exit, hmade', hmem, ?_⟩
  intro step bars hbars hseries hprinted
  have hget : (barsBySymbol.get? t.symbol).getD [] = bars := by
    rw [show barsBySymbol.get? t.symbol = some bars from hbars]
    rfl
  rw [hget] at hiff
  exact hiff step ⟨hseries.contiguous, hseries.covering⟩ hprinted

/-- An order for one share at a hundred, filled at one instant. -/
def filledAt (id : String) (side : Side) (ts : ℤ) : Order where
  symbol := "AAPL"
  side := side
  qty := 1
  id := id
  clientOrderId := "atp-" ++ id
  fills := [⟨id, ts, 1, 100, 0, none⟩]

/-- A bar that opens and closes at a hundred. -/
def barAround (ts : ℤ) (width : ℕ) : Bar where
  symbol := "AAPL"
  ts := ts
  timeframe := .m1
  «open» := 100
  high := 100 + width
  low := 100 - width
  close := 100
  volume := 1
  openInside := ⟨sub_le_self _ width.cast_nonneg, le_add_of_nonneg_right width.cast_nonneg⟩
  closeInside := ⟨sub_le_self _ width.cast_nonneg, le_add_of_nonneg_right width.cast_nonneg⟩

/-- Entered in the middle of one bar and left in the middle of the next. -/
def midBarTrade (mae mfe : ℚ) : TradeRecord where
  tradeId := Atp.PerformanceAnalyzer.tradeId "AAPL" 5 15 true
  strategyId := "unattributed"
  symbol := "AAPL"
  side := "long"
  entryTs := 5
  exitTs := some 15
  entryPrice := 100
  exitPrice := some 100
  qty := 1
  grossPnl := 0
  fees := 0
  netPnl := 0
  returnPct := 0
  holdingPeriodHours := 1 / 360
  exitReason := "signal"
  maxFavorableExcursion := some mfe
  maxAdverseExcursion := some mae

theorem midBar_series (w w' : ℕ) (mae mfe : ℚ) :
    Series 10 [barAround 0 w, barAround 10 w'] (midBarTrade mae mfe) where
  contiguous := by simp [barAround]
  covering i hfrom hto := by
    have hfrom' : 5 ≤ i := hfrom
    have hto' : i ≤ 15 := hto
    rcases lt_or_ge i 10 with hlt | hge
    · exact ⟨barAround 0 w, by simp, by simp only [CoversInstant, barAround]; omega⟩
    · exact ⟨barAround 10 w', by simp, by simp only [CoversInstant, barAround]; omega⟩

theorem midBar_printed (w w' : ℕ) {parts : Parts} (hparts : ∀ p ∈ parts, p.1.price = 100) :
    PrintedWithin 10 [barAround 0 w, barAround 10 w'] parts := by
  intro p hp b hb _
  rw [hparts p hp]
  simp only [List.mem_cons, List.not_mem_nil, or_false] at hb
  rcases hb with rfl | rfl
  · exact (barAround 0 w).openInside
  · exact (barAround 10 w').openInside

theorem excursions_bound_iff_quiet_entry :
    ∃ t ∈ withExcursions (buildTrades [filledAt "a" .buy 5, filledAt "b" .sell 15])
        ((Dict.empty).set "AAPL" [barAround 0 1, barAround 10 2]),
      ∃ worst best_, BoundedBy 10 [barAround 0 1, barAround 10 2] t worst best_ := by
  have hmem : midBarTrade (-2) 2 ∈ withExcursions (buildTrades [filledAt "a" .buy 5, filledAt "b" .sell 15])
      ((Dict.empty).set "AAPL" [barAround 0 1, barAround 10 2]) := by
    decide +kernel
  obtain ⟨entry, exit, -, hstream, hiff⟩ := excursions_bound_iff _ _ _ hmem
  have hprice : ∀ x ∈ stream [filledAt "a" .buy 5, filledAt "b" .sell 15] "AAPL", x.price = 100 := by decide +kernel
  refine ⟨_, hmem, (hiff 10 _ rfl (midBar_series 1 2 _ _) (midBar_printed 1 2 fun p hp => hprice _ (hstream p hp))).2 ?_⟩
  decide +kernel

/-- **The bar an entry falls into is not read**: its low would have been a loss of ten, and the worst reported is one. -/
theorem entry_bar_unread :
    midBarTrade (-1) 1 ∈ withExcursions (buildTrades [filledAt "a" .buy 5, filledAt "b" .sell 15])
        ((Dict.empty).set "AAPL" [barAround 0 10, barAround 10 1]) ∧
      Series 10 [barAround 0 10, barAround 10 1] (midBarTrade (-1) 1) ∧
      (∀ x ∈ stream [filledAt "a" .buy 5, filledAt "b" .sell 15] "AAPL", x.price = 100) ∧
      CoversInstant 10 (barAround 0 10) 5 ∧ (barAround 0 10).low = 90 ∧
      unrealised (midBarTrade (-1) 1) 90 = -10 := by
  refine ⟨by decide +kernel, midBar_series 10 1 _ _, by decide +kernel, ⟨by decide, by decide⟩, by decide +kernel, by decide +kernel⟩

end PerformanceAnalyzer
end Atp
