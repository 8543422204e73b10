import AlgoTrading.Columns
import AlgoTrading.Position
/-!
# BookStorage — the book as it is written, and the newest one read back

`PostgresPortfolioRepository` of `persistence/positions.py`.  A snapshot is one equity row and a row for every open position,
all at one instant; what is read back is the newest equity row of a run mode and every position row at its instant.  No
order is asked of rows that tie, so a read is a relation.  It returns the last book written exactly when every earlier book of
the same instant agrees with it (`restores_iff`).
-/
namespace Atp
namespace BookStorage

open Columns (rounded Holds Exact)

structure EquityRow where
  ts : ℤ
  equity : ℚ
  cash : ℚ
  grossExposure : ℚ
  feesSettled : ℚ
  runMode : RunMode

structure PositionRow where
  ts : ℤ
  symbol : String
  qty : ℚ
  avgEntryPrice : ℚ
  lastPrice : ℚ
  unrealizedPnl : ℚ
  realizedPnl : ℚ
  stopLossPrice : Option ℚ
  takeProfitPrice : Option ℚ
  highWaterMark : Option ℚ
  brokerProtectedQty : ℚ
  openedAt : Option ℤ
  feesPaid : ℚ
  runMode : RunMode

/-- The two tables, in the order their rows were inserted. -/
structure Store where
  equity : List EquityRow := []
  positions : List PositionRow := []

/-- A position whose numbers have at most eight decimals. -/
structure Representable (p : Position) : Prop where
  qty : Exact p.qty
  avgEntryPrice : Exact p.avgEntryPrice
  lastPrice : ∀ x ∈ p.lastPrice, Exact x
  realizedPnl : Exact p.realizedPnl
  feesPaid : Exact p.feesPaid
  stopLossPrice : ∀ x ∈ p.stopLossPrice, Exact x
  takeProfitPrice : ∀ x ∈ p.takeProfitPrice, Exact x
  highWaterMark : ∀ x ∈ p.highWaterMark, Exact x
  brokerProtectedQty : Exact p.brokerProtectedQty

/-- **A snapshot**: a book held under its positions' own symbols, its open positions marked, its numbers representable. -/
structure Snapshot where
  book : Portfolio
  ts : ℤ
  runMode : RunMode
  keyed : ∀ s q, book.positions.get? s = some q → q.symbol = s
  marked : ∀ q ∈ book.openPositions, q.lastPrice.isSome = true
  cash : Exact book.cash
  feesSettled : Exact book.feesSettled
  representable : ∀ q ∈ book.openPositions, Representable q

def equityRow (w : Snapshot) : EquityRow where
  ts := w.ts
  equity := rounded w.book.equity
  cash := rounded w.book.cash
  grossExposure := rounded w.book.grossExposure
  feesSettled := rounded w.book.feesSettled
  runMode := w.runMode

/-- A position's row: an unmarked one falls back to its own basis. -/
def positionRow (ts : ℤ) (runMode : RunMode) (p : Position) : PositionRow where
  ts := ts
  symbol := p.symbol
  qty := rounded p.qty
  avgEntryPrice := rounded p.avgEntryPrice
  lastPrice := rounded (p.lastPrice.getD p.avgEntryPrice)
  unrealizedPnl := rounded p.unrealizedPnl
  realizedPnl := rounded p.realizedPnl
  stopLossPrice := p.stopLossPrice.map rounded
  takeProfitPrice := p.takeProfitPrice.map rounded
  highWaterMark := p.highWaterMark.map rounded
  brokerProtectedQty := rounded p.brokerProtectedQty
  openedAt := p.openedAt
  feesPaid := rounded p.feesPaid
  runMode := runMode

/-- The numbers of a position that its row stores. -/
def stored (p : Position) : List ℚ :=
  [p.qty, p.avgEntryPrice, p.lastPrice.getD p.avgEntryPrice, p.unrealizedPnl, p.realizedPnl, p.feesPaid, p.brokerProtectedQty] ++
    p.stopLossPrice.toList ++ p.takeProfitPrice.toList ++ p.highWaterMark.toList

/-- Every column takes its value. -/
def Accepted (w : Snapshot) : Prop :=
  (∀ x ∈ [w.book.equity, w.book.cash, w.book.grossExposure, w.book.feesSettled], Holds x) ∧
    ∀ p ∈ w.book.openPositions, p.symbol.length ≤ 20 ∧ ∀ x ∈ stored p, Holds x

instance (w : Snapshot) : Decidable (Accepted w) := inferInstanceAs (Decidable (_ ∧ _))

/-- **`snapshot`**: one transaction, refused whole where a column refuses a value. -/
def snapshot (s : Store) (w : Snapshot) : Option Store :=
  if Accepted w then
    some ⟨s.equity ++ [equityRow w], s.positions ++ w.book.openPositions.map (positionRow w.ts w.runMode)⟩
  else none

/-- A row as the position it is restored as. -/
def restoredPosition (r : PositionRow) : Position where
  symbol := r.symbol
  qty := r.qty
  avgEntryPrice := r.avgEntryPrice
  realizedPnl := r.realizedPnl
  feesPaid := r.feesPaid
  openedAt := r.openedAt
  lastPrice := some r.lastPrice
  stopLossPrice := r.stopLossPrice
  takeProfitPrice := r.takeProfitPrice
  highWaterMark := r.highWaterMark
  brokerProtectedQty := r.brokerProtectedQty

/-- The portfolio of an equity row and the position rows read with it, in the order they came. -/
def restored (e : EquityRow) (rows : List PositionRow) : Portfolio where
  cash := e.cash
  startingEquity := e.equity
  feesSettled := e.feesSettled
  positions := rows.foldl (fun d r => d.set r.symbol (restoredPosition r)) .empty

/-- **`latest_snapshot`**: a newest equity row of the run mode, and the position rows at its instant in any order. -/
def Latest (s : Store) (runMode : RunMode) (ts : ℤ) (b : Portfolio) : Prop :=
  ∃ e ∈ s.equity, e.runMode = runMode ∧ (∀ e' ∈ s.equity, e'.runMode = runMode → e'.ts ≤ e.ts) ∧ e.ts = ts ∧
    ∃ rows, rows.Perm (s.positions.filter fun r => decide (r.ts = e.ts ∧ r.runMode = runMode)) ∧ b = restored e rows

/-- The open position of a symbol. -/
def openAt (b : Portfolio) (symbol : String) : Option Position := (b.positions.get? symbol).filter fun q => !q.isFlat

/-- A portfolio with the cash, the settled fees and the open positions of a book, and no others. -/
structure Agrees (b book : Portfolio) : Prop where
  cash : b.cash = book.cash
  feesSettled : b.feesSettled = book.feesSettled
  positions : ∀ symbol, b.positions.get? symbol = openAt book symbol

/-- Something is read, and whatever is read is the book. -/
def Restores (s : Store) (w : Snapshot) : Prop :=
  (∃ b, Latest s w.runMode w.ts b) ∧ ∀ ts b, Latest s w.runMode ts b → ts = w.ts ∧ Agrees b w.book

/-- An earlier snapshot that a read at the last one's instant cannot tell from it. -/
def Harmless (w last : Snapshot) : Prop :=
  w.book.cash = last.book.cash ∧ w.book.feesSettled = last.book.feesSettled ∧
    ∀ p ∈ w.book.openPositions, p ∈ last.book.openPositions

/-! ## Rows of a history -/

/-- **A row is the position it was written from.** -/
theorem restoredPosition_row {p : Position} (h : Representable p) (hm : p.lastPrice.isSome = true) (ts : ℤ)
    (runMode : RunMode) : restoredPosition (positionRow ts runMode p) = p := by
  obtain ⟨price, hprice⟩ := Option.isSome_iff_exists.1 hm
  have hlast := h.lastPrice price hprice
  obtain ⟨symbol, qty, avg, realized, fees, opened, last, stop, target, mark, cover⟩ := p
  cases hprice
  simp only [restoredPosition, positionRow, h.qty.rounded_eq, h.avgEntryPrice.rounded_eq, h.realizedPnl.rounded_eq,
    h.feesPaid.rounded_eq, h.brokerProtectedQty.rounded_eq, Exact.map_rounded h.stopLossPrice,
    Exact.map_rounded h.takeProfitPrice, Exact.map_rounded h.highWaterMark, Option.getD_some, hlast.rounded_eq]

theorem Snapshot.restored_row (w : Snapshot) {p : Position} (hp : p ∈ w.book.openPositions) :
    restoredPosition (positionRow w.ts w.runMode p) = p :=
  restoredPosition_row (w.representable p hp) (w.marked p hp) _ _

/-- The rows a history wrote. -/
theorem run_rows {ws : List Snapshot} : ∀ {s s' : Store}, ws.foldlM snapshot s = some s' →
    s'.equity = s.equity ++ ws.map equityRow ∧
      s'.positions = s.positions ++ ws.flatMap fun w => w.book.openPositions.map (positionRow w.ts w.runMode) := by
  induction ws with
  | nil =>
    intro s s' h
    cases h
    simp
  | cons w ws ih =>
    intro s s' h
    rw [List.foldlM_cons, Option.bind_eq_bind, Option.bind_eq_some_iff] at h
    obtain ⟨t, ht, hrest⟩ := h
    rw [snapshot, Option.ite_none_right_eq_some] at ht
    obtain ⟨-, ht⟩ := ht
    cases ht
    obtain ⟨he, hp⟩ := ih hrest
    exact ⟨by rw [he]; simp, by rw [hp]; simp⟩

/-- An open position is the one its book holds under its symbol. -/
theorem Snapshot.mem_open_iff (w : Snapshot) {p : Position} :
    p ∈ w.book.openPositions ↔ openAt w.book p.symbol = some p := by
  rw [Portfolio.openPositions, List.mem_filter, Dict.mem_values_iff, openAt, Option.filter_eq_some_iff]
  refine and_congr_left fun _ => ⟨?_, fun h => ⟨_, h⟩⟩
  rintro ⟨k, hk⟩
  rwa [w.keyed k p hk]

theorem Snapshot.openAt_symbol (w : Snapshot) {symbol : String} {p : Position} (h : openAt w.book symbol = some p) :
    p.symbol = symbol := w.keyed _ _ (Option.filter_eq_some_iff.1 h).1

/-- A restored portfolio has, at a symbol, the last row read of it. -/
theorem restored_get? (e : EquityRow) (rows : List PositionRow) (symbol : String) :
    (restored e rows).positions.get? symbol = (rows.filter fun r => r.symbol = symbol).getLast?.map restoredPosition := by
  unfold restored
  rw [Dict.get?_foldl_set (fun r : PositionRow => r.symbol) restoredPosition]
  exact Option.or_none

section history

variable {ws earlier : List Snapshot} {last : Snapshot} {s : Store}

/-- The position rows of a run mode's instant: those of its snapshots at that instant. -/
theorem mem_rows_iff (hrun : ws.foldlM snapshot {} = some s)
    (hmode : (ws.filter fun w => w.runMode = last.runMode) = earlier ++ [last]) {ts : ℤ} {r : PositionRow} :
    r ∈ s.positions.filter (fun r => decide (r.ts = ts ∧ r.runMode = last.runMode)) ↔
      ∃ w ∈ earlier ++ [last], w.ts = ts ∧ ∃ p ∈ w.book.openPositions, r = positionRow w.ts w.runMode p := by
  rw [(run_rows hrun).2, List.nil_append, List.mem_filter, List.mem_flatMap, ← hmode]
  constructor
  · rintro ⟨⟨w, hw, hr⟩, hts⟩
    obtain ⟨p, hp, rfl⟩ := List.mem_map.1 hr
    obtain ⟨hts, hm⟩ := of_decide_eq_true hts
    exact ⟨w, List.mem_filter.2 ⟨hw, decide_eq_true hm⟩, hts, p, hp, rfl⟩
  · rintro ⟨w, hw, hts, p, hp, rfl⟩
    obtain ⟨hw, hm⟩ := List.mem_filter.1 hw
    exact ⟨⟨w, hw, List.mem_map_of_mem hp⟩, decide_eq_true ⟨hts, of_decide_eq_true hm⟩⟩

/-- The newest equity rows of the run mode: those of its snapshots at the last one's instant. -/
theorem newest_iff (hrun : ws.foldlM snapshot {} = some s)
    (hmode : (ws.filter fun w => w.runMode = last.runMode) = earlier ++ [last]) (hmono : ∀ w ∈ earlier, w.ts ≤ last.ts)
    {e : EquityRow} : (e ∈ s.equity ∧ e.runMode = last.runMode ∧
        ∀ e' ∈ s.equity, e'.runMode = last.runMode → e'.ts ≤ e.ts) ↔
      ∃ w ∈ earlier ++ [last], w.ts = last.ts ∧ e = equityRow w := by
  have hrows : ∀ e, e ∈ s.equity ∧ e.runMode = last.runMode ↔ ∃ w ∈ earlier ++ [last], e = equityRow w := by
    intro e
    rw [(run_rows hrun).1, List.nil_append, List.mem_map, ← hmode]
    constructor
    · rintro ⟨⟨w, hw, rfl⟩, hm⟩
      exact ⟨w, List.mem_filter.2 ⟨hw, decide_eq_true hm⟩, rfl⟩
    · rintro ⟨w, hw, rfl⟩
      exact ⟨⟨w, (List.mem_filter.1 hw).1, rfl⟩, of_decide_eq_true (List.mem_filter.1 hw).2⟩
  have hlast : last ∈ earlier ++ [last] := List.mem_append_right _ (List.mem_singleton_self _)
  have hle : ∀ w ∈ earlier ++ [last], w.ts ≤ last.ts :=
    List.forall_mem_append.2 ⟨hmono, by simp⟩
  constructor
  · rintro ⟨he, hm, hmax⟩
    obtain ⟨w, hw, rfl⟩ := (hrows e).1 ⟨he, hm⟩
    obtain ⟨hl, hlm⟩ := (hrows (equityRow last)).2 ⟨last, hlast, rfl⟩
    exact ⟨w, hw, le_antisymm (hle w hw) (hmax _ hl hlm), rfl⟩
  · rintro ⟨w, hw, hts, rfl⟩
    obtain ⟨he, hm⟩ := (hrows (equityRow w)).2 ⟨w, hw, rfl⟩
    refine ⟨he, hm, fun e' he' hm' => ?_⟩
    obtain ⟨w', hw', rfl⟩ := (hrows e').1 ⟨he', hm'⟩
    exact (hle w' hw').trans_eq hts.symm

/-- The rows at the last instant, once every tied snapshot is harmless: the last book's open positions and no others. -/
theorem restored_agrees (hrun : ws.foldlM snapshot {} = some s)
    (hmode : (ws.filter fun w => w.runMode = last.runMode) = earlier ++ [last])
    (hties : ∀ w ∈ earlier ++ [last], w.ts = last.ts → Harmless w last) {w : Snapshot} (hw : w ∈ earlier ++ [last])
    (hts : w.ts = last.ts) {rows : List PositionRow}
    (hrows : rows.Perm (s.positions.filter fun r => decide (r.ts = last.ts ∧ r.runMode = last.runMode))) :
    Agrees (restored (equityRow w) rows) last.book := by
  obtain ⟨hcash, hfees, -⟩ := hties w hw hts
  refine ⟨w.cash.rounded_eq.trans hcash, w.feesSettled.rounded_eq.trans hfees, fun symbol => ?_⟩
  have hmem : ∀ r ∈ rows, ∃ p ∈ last.book.openPositions, restoredPosition r = p ∧ r.symbol = p.symbol := by
    intro r hr
    obtain ⟨w', hw', hts', p, hp, rfl⟩ := (mem_rows_iff hrun hmode).1 (hrows.mem_iff.1 hr)
    exact ⟨p, (hties w' hw' hts').2.2 p hp, w'.restored_row hp, rfl⟩
  rw [restored_get?]
  cases hlast : (rows.filter fun r => r.symbol = symbol).getLast? with
  | none =>
    rw [List.getLast?_eq_none_iff] at hlast
    cases hopen : openAt last.book symbol with
    | none => rfl
    | some p =>
      have hsymbol := last.openAt_symbol hopen
      have hp : p ∈ last.book.openPositions := last.mem_open_iff.2 (by rwa [hsymbol])
      have hrow : positionRow last.ts last.runMode p ∈ rows := hrows.mem_iff.2 ((mem_rows_iff hrun hmode).2
        ⟨last, List.mem_append_right _ (List.mem_singleton_self _), rfl, p, hp, rfl⟩)
      have hfound := List.mem_filter (p := fun r => decide (r.symbol = symbol)) |>.2 ⟨hrow, decide_eq_true hsymbol⟩
      rw [hlast] at hfound
      cases hfound
  | some r =>
    obtain ⟨hr, hsymbol⟩ := List.mem_filter.1 (List.mem_of_getLast? hlast)
    obtain ⟨p, hp, hrestored, hrs⟩ := hmem r hr
    rw [Option.map_some, hrestored, ← of_decide_eq_true hsymbol, hrs]
    exact (last.mem_open_iff.1 hp).symm

/-- **A restored book is the last book written, exactly when no earlier snapshot of its instant disagrees with it.** -/
theorem restores_iff (hrun : ws.foldlM snapshot {} = some s)
    (hmode : (ws.filter fun w => w.runMode = last.runMode) = earlier ++ [last]) (hmono : ∀ w ∈ earlier, w.ts ≤ last.ts) :
    Restores s last ↔ ∀ w ∈ earlier, w.ts = last.ts → Harmless w last := by
  have hlast : last ∈ earlier ++ [last] := List.mem_append_right _ (List.mem_singleton_self _)
  constructor
  · rintro ⟨-, hall⟩ w hw hts
    have hw' : w ∈ earlier ++ [last] := List.mem_append_left _ hw
    have hread : ∀ rows, rows.Perm (s.positions.filter fun r => decide (r.ts = last.ts ∧ r.runMode = last.runMode)) →
        Agrees (restored (equityRow w) rows) last.book := by
      intro rows hrows
      obtain ⟨he, hm, hmax⟩ := (newest_iff hrun hmode hmono).2 ⟨w, hw', hts, rfl⟩
      have hets : (equityRow w).ts = last.ts := hts
      exact (hall last.ts _ ⟨equityRow w, he, hm, hmax, hets, rows, by rwa [hets], rfl⟩).2
    have hagrees := hread _ (List.Perm.refl _)
    refine ⟨w.cash.rounded_eq.symm.trans hagrees.cash, w.feesSettled.rounded_eq.symm.trans hagrees.feesSettled,
      fun p hp => ?_⟩
    -- the tied row may be the last one read of its symbol
    obtain ⟨a, b, hsplit⟩ := List.append_of_mem ((mem_rows_iff hrun hmode).2 ⟨w, hw', hts, p, hp, rfl⟩)
    have hperm : (a ++ b ++ [positionRow w.ts w.runMode p]).Perm
        (s.positions.filter fun r => decide (r.ts = last.ts ∧ r.runMode = last.runMode)) := by
      rw [hsplit, List.append_assoc]
      exact (List.perm_append_singleton _ _).append_left a
    have hget := (hread _ hperm).positions p.symbol
    rw [restored_get?, List.filter_append, List.filter_cons_of_pos (by exact decide_eq_true rfl), List.filter_nil,
      List.getLast?_concat, Option.map_some, w.restored_row hp] at hget
    exact last.mem_open_iff.2 hget.symm
  · intro hties
    have hties' : ∀ w ∈ earlier ++ [last], w.ts = last.ts → Harmless w last :=
      List.forall_mem_append.2 ⟨hties, by simp [Harmless]⟩
    refine ⟨?_, ?_⟩
    · obtain ⟨he, hm, hmax⟩ := (newest_iff hrun hmode hmono).2 ⟨last, hlast, rfl, rfl⟩
      exact ⟨_, equityRow last, he, hm, hmax, rfl, _, List.Perm.refl _, rfl⟩
    · rintro ts b ⟨e, he, hm, hmax, rfl, rows, hrows, rfl⟩
      obtain ⟨w, hw, hts, rfl⟩ := (newest_iff hrun hmode hmono).1 ⟨he, hm, hmax⟩
      have hets : (equityRow w).ts = last.ts := hts
      rw [hets] at hrows
      exact ⟨hets, restored_agrees hrun hmode hties' hw hts hrows⟩

end history

/-! ## Two snapshots -/

/-- A marked holding at a whole price. -/
def holding (symbol : String) (qty : ℤ) : Position := { symbol, qty, avgEntryPrice := 100, lastPrice := some 100 }

def bookOf (l : List (String × ℤ)) : Portfolio where
  cash := 1000
  startingEquity := 1000
  positions := l.foldl (fun d x => d.set x.1 (holding x.1 x.2)) .empty

theorem bookOf_get? {l : List (String × ℤ)} {symbol : String} {q : Position} (h : (bookOf l).positions.get? symbol = some q) :
    ∃ qty, q = holding symbol qty := by
  rw [bookOf, Dict.get?_foldl_set (fun x : String × ℤ => x.1) (fun x => holding x.1 x.2)] at h
  cases hl : (l.filter fun x => x.1 = symbol).getLast? with
  | none =>
    rw [hl] at h
    cases h
  | some x =>
    rw [hl] at h
    cases h
    obtain ⟨-, hx⟩ := List.mem_filter.1 (List.mem_of_getLast? hl)
    exact ⟨x.2, by dsimp only; rw [of_decide_eq_true hx]⟩

theorem bookOf_open {l : List (String × ℤ)} {q : Position} (h : q ∈ (bookOf l).openPositions) :
    ∃ symbol qty, q = holding symbol qty := by
  obtain ⟨k, hk⟩ := (Dict.mem_values_iff _ _).1 (List.mem_filter.1 h).1
  obtain ⟨qty, rfl⟩ := bookOf_get? hk
  exact ⟨k, qty, rfl⟩

/-- A snapshot of whole holdings. -/
def snapshotOf (l : List (String × ℤ)) (ts : ℤ) : Snapshot where
  book := bookOf l
  ts := ts
  runMode := .paper
  keyed := fun s q h => by
    obtain ⟨qty, rfl⟩ := bookOf_get? h
    rfl
  marked := fun q h => by
    obtain ⟨symbol, qty, rfl⟩ := bookOf_open h
    rfl
  cash := Columns.exact_int 1000
  feesSettled := Columns.exact_zero
  representable := fun q h => by
    obtain ⟨symbol, qty, rfl⟩ := bookOf_open h
    have h100 : Exact 100 := Columns.exact_int 100
    exact ⟨Columns.exact_int qty, h100, fun x hx => by cases hx; exact h100, Columns.exact_zero, Columns.exact_zero,
      nofun, nofun, nofun, Columns.exact_zero⟩

/-- Two holdings, of which one is closed between the snapshots. -/
def before (ts : ℤ) : Snapshot := snapshotOf [("SPY", 10), ("QQQ", 5)] ts

def after (ts : ℤ) : Snapshot := snapshotOf [("SPY", 10)] ts

theorem before_accepted (ts : ℤ) : Accepted (before ts) := by
  show Accepted (before 0)
  decide +kernel

theorem after_accepted (ts : ℤ) : Accepted (after ts) := by
  show Accepted (after 0)
  decide +kernel

/-- The tables after both snapshots. -/
def both (t₁ t₂ : ℤ) : Store :=
  ⟨[equityRow (before t₁), equityRow (after t₂)],
    (before t₁).book.openPositions.map (positionRow t₁ .paper) ++ (after t₂).book.openPositions.map (positionRow t₂ .paper)⟩

theorem both_run (t₁ t₂ : ℤ) : [before t₁, after t₂].foldlM snapshot {} = some (both t₁ t₂) := by
  simp only [List.foldlM_cons, List.foldlM_nil, snapshot, if_pos (before_accepted t₁), if_pos (after_accepted t₂)]
  rfl

/-- A minute apart, the restored book is the last one. -/
theorem restores_iff_minute : Restores (both 0 60) (after 60) := by
  have hmode : ([before 0, after 60].filter fun w => w.runMode = (after 60).runMode) = [before 0] ++ [after 60] := rfl
  exact (restores_iff (both_run 0 60) hmode (by simp [before, after, snapshotOf])).2 (by simp [before, after, snapshotOf])

/-- **A closed position reappears** when its book and the next are written at one instant. -/
theorem closed_reappears : [before 0, after 0].foldlM snapshot {} = some (both 0 0) ∧ openAt (after 0).book "QQQ" = none ∧
    ∃ b, Latest (both 0 0) .paper 0 b ∧ b.positions.get? "QQQ" = some (holding "QQQ" 5) := by
  refine ⟨both_run 0 0, by decide +kernel, _, ⟨equityRow (after 0), by simp [both], rfl, ?_, rfl, _, List.Perm.refl _, rfl⟩, ?_⟩
  · simp [both, equityRow, before, after, snapshotOf]
  · decide +kernel

end BookStorage
end Atp
