import AlgoTrading.Conservation
import AlgoTrading.Crossings
import AlgoTrading.Sorting
/-!
# TradeIds — the ids of reconstructed trades

`_trade_id` names a trade by its symbol, its side and its two instants.  A scan names its trades as a walk of what is held
names its stays (`scan_walks`), so two trades share an id exactly when a symbol turns twice within one instant.
-/
namespace Atp
namespace PerformanceAnalyzer

open Crossings

/-- What a fill moves the position by, and when. -/
def move (x : FillEvent) : ℤ × ℚ := (x.ts, x.signedQty)

/-- The id of the trade a stay is. -/
def stayId (symbol : String) (s : Stay ℤ) : List Piece := Atp.PerformanceAnalyzer.tradeId symbol s.opened s.closed s.side

/-- **A scan and the walk over the same fills.** -/
structure WalksAs (symbol : String) (s : Scan) (w : Walk ℤ ℚ) : Prop where
  held : s.held = w.held
  opened : ∀ e ∈ s.episode, e.entry.firstTs = w.opened
  ids : s.trades.map TradeRecord.tradeId = w.stays.map (stayId symbol)

section
variable {symbol : String} {s : Scan} {w : Walk ℤ ℚ} {e : Episode} {x : FillEvent}

theorem Episode.above_iff {q : ℚ} : Above e.long (e.sign * q) ↔ 0 < q := by
  unfold Above Episode.sign
  cases e.long <;> simp

theorem exitLeg_id (fee : ℚ) : (toTrade (withExit e x e.openQty fee) (exitLeg e x e.openQty fee)).tradeId =
    Atp.PerformanceAnalyzer.tradeId e.symbol e.entry.firstTs x.ts e.long := by
  simp only [toTrade, exitLeg_lastTs]
  rfl

/-- A fill of nothing leaves the episode dated as it was. -/
theorem absorb_nothing_dated (hopen : s.Open symbol) (hx : x.signedQty = 0) :
    ∀ e' ∈ (absorb symbol s x).episode, ∃ e ∈ s.episode, e'.entry.firstTs = e.entry.firstTs := by
  rcases absorb_empty hopen hx with hkept | ⟨e, hs, hleft⟩
  · rw [hkept]
    exact fun e' h => ⟨e', h, rfl⟩
  · rw [hleft]
    intro e' h
    cases h
    exact ⟨e, hs, rfl⟩

theorem WalksAs.base (h : WalksAs symbol s w) (hopen : s.Open symbol) (hs : s.episode = some e) :
    w.held = e.sign * e.openQty ∧ 0 < e.openQty ∧ e.symbol = symbol :=
  ⟨by rw [← h.held, Scan.held, hs, Option.elim_some, Episode.held], (hopen e hs).2, (hopen e hs).1⟩

theorem WalksAs.above (h : WalksAs symbol s w) (hopen : s.Open symbol) (hs : s.episode = some e) : Above e.long w.held := by
  obtain ⟨hqty, ho, -⟩ := h.base hopen hs
  rw [hqty]
  exact Episode.above_iff.2 ho

/-- A fill that leaves some of the episode's side open stays on it. -/
theorem WalksAs.stays_on (h : WalksAs symbol s w) (hopen : s.Open symbol) (hs : s.episode = some e) {left : ℚ}
    (hmove : w.held + x.signedQty = e.sign * left) (hleft : 0 < left) :
    (w.step (move x)).opened = w.opened ∧ (w.step (move x)).stays = w.stays := by
  refine step_stays_on (h.above hopen hs) ?_
  show Above e.long (w.held + x.signedQty)
  rw [hmove]
  exact Episode.above_iff.2 hleft

/-- A fill that takes all that is open closes a stay, and names it. -/
theorem WalksAs.leaves (h : WalksAs symbol s w) (hopen : s.Open symbol) (hs : s.episode = some e)
    (hside : x.signedQty = -(e.sign * |x.signedQty|)) (hle : e.openQty ≤ |x.signedQty|) :
    (w.step (move x)).opened = x.ts ∧ ∀ fee,
      (s.trades ++ [toTrade (withExit e x e.openQty fee) (exitLeg e x e.openQty fee)]).map TradeRecord.tradeId =
        (w.step (move x)).stays.map (stayId symbol) := by
  obtain ⟨hqty, -, hsymbol⟩ := h.base hopen hs
  have hnow : ¬Above e.long (w.held + (move x).2) := by
    show ¬Above e.long (w.held + x.signedQty)
    rw [hqty, hside, ← sub_eq_add_neg, ← mul_sub, Episode.above_iff]
    exact not_lt.2 (sub_nonpos.2 hle)
  obtain ⟨hopened, hstays⟩ := step_leaves (h.above hopen hs) hnow
  refine ⟨hopened, fun fee => ?_⟩
  rw [hstays, List.map_append, List.map_append, h.ids, List.map_singleton, List.map_singleton, exitLeg_id, hsymbol, h.opened e hs]
  rfl

/-- **Every fill keeps the walk and the scan alike.** -/
theorem WalksAs.absorb (h : WalksAs symbol s w) (hopen : s.Open symbol) (x : FillEvent) :
    WalksAs symbol (absorb symbol s x) (w.step (move x)) := by
  obtain ⟨-, hmoved, -⟩ := absorb_closes hopen x
  have hheld : (PerformanceAnalyzer.absorb symbol s x).held = (w.step (move x)).held := by
    rw [hmoved, h.held]
    rfl
  by_cases hx : x.signedQty = 0
  · obtain ⟨-, -, htrades⟩ := absorb_nothing hopen hx
    have hdated := absorb_nothing_dated hopen hx
    have hstill : w.held + (move x).2 = w.held := by
      show w.held + x.signedQty = _
      rw [hx, add_zero]
    cases hs : s.episode with
    | none =>
      have hflat : w.held = 0 := by rw [← h.held, Scan.held, hs, Option.elim_none]
      obtain ⟨-, hstays⟩ := step_from_zero (x := move x) hflat
      refine ⟨hheld, fun e' he => ?_, by rw [htrades, hstays]; exact h.ids⟩
      obtain ⟨e, he, -⟩ := hdated e' he
      rw [hs] at he
      cases he
    | some e =>
      have hwas := h.above hopen hs
      obtain ⟨hopened, hstays⟩ := step_stays_on hwas (hstill ▸ hwas)
      refine ⟨hheld, fun e' he => ?_, by rw [htrades, hstays]; exact h.ids⟩
      obtain ⟨e'', he'', hsame⟩ := hdated e' he
      rw [hsame, h.opened e'' he'', hopened]
  have hpos : 0 < |x.signedQty| := abs_pos.2 hx
  have hstep := absorb_absorbed symbol s hx
  generalize PerformanceAnalyzer.absorb symbol s x = s' at hstep hheld ⊢
  cases hstep with
  | opens hs =>
    have hflat : w.held = 0 := by rw [← h.held, Scan.held, hs, Option.elim_none]
    obtain ⟨hopened, hstays⟩ := step_from_zero (x := move x) hflat
    refine ⟨hheld, fun e he => ?_, by rw [hstays]; exact h.ids⟩
    cases he
    exact hopened.symm
  | adds e hs hside =>
    obtain ⟨hqty, ho, -⟩ := h.base hopen hs
    have hmove : w.held + x.signedQty = e.sign * (e.openQty + |x.signedQty|) := by rw [hqty, mul_add, ← hside]
    obtain ⟨hopened, hstays⟩ := h.stays_on hopen hs hmove (by positivity)
    refine ⟨hheld, fun e' he => ?_, by rw [hstays]; exact h.ids⟩
    cases he
    exact (h.opened e hs).trans hopened.symm
  | reduces e hs hside hlt =>
    obtain ⟨hqty, -, -⟩ := h.base hopen hs
    have hmove : w.held + x.signedQty = e.sign * (e.openQty - |x.signedQty|) := by rw [hqty, mul_sub, sub_eq_add_neg, ← hside]
    obtain ⟨hopened, hstays⟩ := h.stays_on hopen hs hmove (sub_pos.2 hlt)
    refine ⟨hheld, fun e' he => ?_, by rw [hstays]; exact h.ids⟩
    cases he
    exact (h.opened e hs).trans hopened.symm
  | closes e hs hside heq =>
    obtain ⟨hopened, hids⟩ := h.leaves hopen hs hside heq.ge
    refine ⟨hheld, ?_, hids x.fee⟩
    rintro e' ⟨⟩
  | reverses e fee hs hside hgt =>
    obtain ⟨hopened, hids⟩ := h.leaves hopen hs hside hgt.le
    refine ⟨hheld, fun e' he => ?_, hids fee⟩
    cases he
    exact hopened.symm

theorem scan_walks (symbol : String) (l : List FillEvent) : WalksAs symbol (scan symbol l) (walk 0 (l.map move)) := by
  induction l using List.reverseRecOn with
  | nil => exact ⟨rfl, (fun _ h => nomatch h), rfl⟩
  | append_singleton l x ih =>
    rw [scan_append, List.map_append, List.map_singleton, walk_concat]
    exact ih.absorb (scan_closes symbol l).1 x

theorem stayId_injective (symbol : String) : Function.Injective (stayId symbol) := by
  rintro ⟨side, opened, closed⟩ ⟨side', opened', closed'⟩ h
  simp only [stayId, PerformanceAnalyzer.tradeId, List.cons.injEq, Piece.lit.injEq, Piece.ts.injEq, true_and, and_true] at h
  obtain ⟨hside, rfl, rfl⟩ := h
  congr
  cases side <;> cases side' <;> simp_all [sideName]

/-- The trades of a scan have distinct ids exactly when the symbol turns twice within no instant. -/
theorem scan_ids_nodup (symbol : String) {l : List FillEvent} (hl : l.Pairwise fun x y => x.ts ≤ y.ts) :
    ((scan symbol l).trades.map TradeRecord.tradeId).Nodup ↔ ¬TurnsTwice (l.map move) := by
  rw [(scan_walks symbol l).ids, List.nodup_map_iff (stayId_injective symbol), nodup_stays_iff]
  exact List.pairwise_map.2 hl

end

/-! ### The stream of a symbol, sorted by instant -/

section
variable {orders orders' : List Order} {symbol : String}

/-- The fills of a symbol as the orders list them. -/
def listed (orders : List Order) (symbol : String) : List FillEvent :=
  (orders.filter fun o => o.symbol = symbol).flatMap fun o => o.fills.map (fillEvent o)

/-- The fills of a symbol as the market printed them. -/
def stream (orders : List Order) (symbol : String) : List FillEvent := (printed orders symbol).map eventOf

/-- The keys of the fills follow the order they are listed in, but for the instants. -/
theorem keyedPairs_ascending (orders : List Order) :
    (keyedPairs orders).Pairwise fun p q => p.1 ≤ q.1 ↔ p.2.2.ts ≤ q.2.2.ts := by
  have hkeys {i j m n : ℕ} {s t : ℤ} (h : toLex (i, m) < toLex (j, n)) : fillKey i m s ≤ fillKey j n t ↔ s ≤ t := by
    unfold fillKey
    rw [Prod.Lex.toLex_le_toLex]
    constructor
    · rintro (hlt | ⟨heq, -⟩)
      · exact hlt.le
      · exact heq.le
    · intro hle
      exact hle.lt_or_eq.imp_right fun heq => ⟨heq, h.le⟩
  unfold keyedPairs
  rw [List.pairwise_flatMap]
  have hindices (l : List Order) : l.zipIdx.Pairwise fun p q => p.2 < q.2 := by
    refine List.pairwise_map.1 ?_
    rw [List.zipIdx_map_snd]
    exact List.pairwise_lt_range'
  have hplaces (l : List Fill) : l.zipIdx.Pairwise fun p q => p.2 < q.2 := by
    refine List.pairwise_map.1 ?_
    rw [List.zipIdx_map_snd]
    exact List.pairwise_lt_range'
  constructor
  · intro p _
    refine List.pairwise_map.2 ((hplaces p.1.fills).imp fun h => ?_)
    exact hkeys (Prod.Lex.toLex_lt_toLex.2 (.inr ⟨rfl, h⟩))
  · refine (hindices orders).imp fun h x hx y hy => ?_
    obtain ⟨f, -, rfl⟩ := List.mem_map.1 hx
    obtain ⟨g, -, rfl⟩ := List.mem_map.1 hy
    exact hkeys (Prod.Lex.toLex_lt_toLex.2 (.inl h))

theorem keyedPairs_listed (orders : List Order) (symbol : String) :
    ((keyedPairs orders).filter fun p => p.2.1.symbol = symbol).map (fun p => eventOf p.2) = listed orders symbol := by
  have hone (p : Order × ℕ) : ((p.1.fills.zipIdx.map fun q => (fillKey p.2 q.2 q.1.ts, p.1, q.1)).filter
      fun r => r.2.1.symbol = symbol).map (fun r => eventOf r.2) = if p.1.symbol = symbol then p.1.fills.map (fillEvent p.1) else [] := by
    rw [List.filter_map, List.map_map]
    by_cases h : p.1.symbol = symbol
    · rw [if_pos h]
      conv => rhs; rw [← List.zipIdx_map_fst 0 p.1.fills, List.map_map]
      simp [Function.comp_def, h, eventOf]
    · simp [Function.comp_def, h]
  have hlisted : listed orders symbol = orders.flatMap fun o => if o.symbol = symbol then o.fills.map (fillEvent o) else [] := by
    unfold listed
    induction orders with
    | nil => rfl
    | cons o orders ih =>
      rw [List.flatMap_cons, ← ih, List.filter_cons]
      by_cases h : o.symbol = symbol <;> simp [h]
  unfold keyedPairs
  rw [List.filter_flatMap, List.map_flatMap, List.flatMap_congr fun p _ => hone p, hlisted]
  conv => rhs; rw [← List.zipIdx_map_fst 0 orders, List.flatMap_map]

/-- **The stream is the listed fills, sorted by instant** and by nothing else: the sort is stable. -/
theorem stream_sorted (orders : List Order) (symbol : String) :
    stream orders symbol = (listed orders symbol).insertionSort fun x y => x.ts ≤ y.ts := by
  have hsort := Sorting.insertionSort_congr (fun a b => a.1 ≤ b.1) (fun a b : FillKey × Order × Fill => a.2.2.ts ≤ b.2.2.ts)
    ((keyedPairs_ascending orders).filter fun p => p.2.1.symbol = symbol)
  unfold stream printed
  rw [hsort, List.map_map, ← keyedPairs_listed]
  exact List.map_insertionSort _ _ _ _ fun _ _ _ _ => Iff.rfl

theorem stream_ascending (orders : List Order) (symbol : String) : (stream orders symbol).Pairwise fun x y => x.ts ≤ y.ts := by
  rw [stream_sorted]
  exact List.pairwise_insertionSort _ _

/-! ### A history that goes on -/

/-- **The orders of a history, and of the same history with later fills**: each order holds what it held, and what filled
since; an order that had not filled may stand anywhere among them. -/
inductive Continues (now : ℤ) : List Order → List Order → Prop
  | nil : Continues now [] []
  | fresh {l l' : List Order} (o : Order) (hlater : ∀ f ∈ o.fills, now < f.ts) (hl : Continues now l l') : Continues now l (o :: l')
  | more {l l' : List Order} (o o' : Order) (later : List Fill) (hsymbol : o'.symbol = o.symbol) (hside : o'.side = o.side)
      (hpurpose : o'.purpose = o.purpose) (hstrategy : o'.strategyId = o.strategyId) (hfills : o'.fills = o.fills ++ later)
      (hbefore : ∀ f ∈ o.fills, f.ts ≤ now) (hlater : ∀ f ∈ later, now < f.ts) (hl : Continues now l l') :
      Continues now (o :: l) (o' :: l')

variable {now : ℤ}

theorem listed_cons (o : Order) (l : List Order) (symbol : String) :
    listed (o :: l) symbol = (if o.symbol = symbol then o.fills.map (fillEvent o) else []) ++ listed l symbol := by
  unfold listed
  by_cases h : o.symbol = symbol <;> simp [h]

/-- What the later fills leave of a list is the list before them. -/
theorem Continues.listed (h : Continues now orders orders') (symbol : String) :
    (PerformanceAnalyzer.listed orders' symbol).filter (fun x => x.ts ≤ now) = PerformanceAnalyzer.listed orders symbol := by
  induction h with
  | nil => rfl
  | fresh o hlater _ ih =>
    have hnone : (if o.symbol = symbol then o.fills.map (fillEvent o) else []).filter (fun x => x.ts ≤ now) = [] := by
      refine List.filter_eq_nil_iff.2 fun x hx => ?_
      split at hx
      · obtain ⟨f, hf, rfl⟩ := List.mem_map.1 hx
        have hts : ¬(fillEvent o f).ts ≤ now := not_le.2 (hlater f hf)
        simpa using hts
      · cases hx
    rw [listed_cons, List.filter_append, ih, hnone, List.nil_append]
  | more o o' later hsymbol hside hpurpose hstrategy hfills hbefore hlater _ ih =>
    have hevent : fillEvent o' = fillEvent o := by
      funext f
      simp [fillEvent, strategyOf, hside, hpurpose, hstrategy]
    rw [listed_cons, listed_cons, List.filter_append, ih, hsymbol, hfills, hevent]
    congr 1
    split
    · rw [List.map_append, List.filter_append, List.filter_eq_self.2, List.filter_eq_nil_iff.2, List.append_nil]
      · intro x hx
        obtain ⟨f, hf, rfl⟩ := List.mem_map.1 hx
        have hts : ¬(fillEvent o f).ts ≤ now := not_le.2 (hlater f hf)
        simpa using hts
      · intro x hx
        obtain ⟨f, hf, rfl⟩ := List.mem_map.1 hx
        exact decide_eq_true (hbefore f hf)
    · rfl

/-- **The stream goes on from where it was.** -/
theorem Continues.stream (h : Continues now orders orders') (symbol : String) :
    PerformanceAnalyzer.stream orders symbol <+: PerformanceAnalyzer.stream orders' symbol := by
  rw [stream_sorted orders', Sorting.insertionSort_parts _ (fun x => x.ts ≤ now) (fun a _ b _ ha hb => ⟨by omega, by omega⟩),
    h.listed, ← stream_sorted]
  exact List.prefix_append _ _

theorem scan_grows {l l' : List FillEvent} (h : l <+: l') : (scan symbol l).trades <+: (scan symbol l').trades := by
  obtain ⟨m, rfl⟩ := h
  induction m using List.reverseRecOn with
  | nil => rw [List.append_nil]
  | append_singleton m x ih =>
    obtain ⟨-, -, new, hnew, -⟩ := absorb_closes (scan_closes symbol (l ++ m)).1 x
    rw [← List.append_assoc, scan_append, hnew]
    exact ih.trans (List.prefix_append _ _)

/-- **A trade once closed stays**, with its id and all else, however often another closes. -/
theorem Continues.trades (h : Continues now orders orders') : (buildTrades orders).Subperm (buildTrades orders') := by
  rw [List.subperm_ext_iff]
  intro t _
  have hcount (l : List TradeRecord) : l.count t = (l.filter fun u => u.symbol = t.symbol).count t :=
    (List.count_filter (p := fun u : TradeRecord => decide (u.symbol = t.symbol)) (by simp)).symm
  rw [hcount, hcount (buildTrades orders'), (buildTrades_symbol orders t.symbol).count_eq, (buildTrades_symbol orders' t.symbol).count_eq]
  exact (scan_grows (h.stream t.symbol)).sublist.count_le t

/-! ### Distinct ids -/

theorem nodup_by {α β κ : Type} [DecidableEq κ] (id : α → β) (key : α → κ) {l : List α}
    (h : ∀ a ∈ l, ∀ b ∈ l, id a = id b → key a = key b) :
    (l.map id).Nodup ↔ ∀ k, ((l.filter fun a => key a = k).map id).Nodup := by
  refine ⟨fun hall k => hall.sublist ((List.filter_sublist).map id), ?_⟩
  induction l with
  | nil => exact fun _ => .nil
  | cons a l ih =>
    intro hkeys
    rw [List.map_cons, List.nodup_cons]
    constructor
    · intro hmem
      obtain ⟨b, hb, heq⟩ := List.mem_map.1 hmem
      have hkey := h b (List.mem_cons_of_mem _ hb) a List.mem_cons_self heq
      have hnodup := hkeys (key a)
      rw [List.filter_cons_of_pos (by simp), List.map_cons, List.nodup_cons] at hnodup
      exact hnodup.1 (List.mem_map.2 ⟨b, List.mem_filter.2 ⟨hb, by simpa using hkey⟩, heq⟩)
    · refine ih (fun x hx y hy => h x (List.mem_cons_of_mem _ hx) y (List.mem_cons_of_mem _ hy)) fun k => ?_
      exact (hkeys k).sublist (((List.sublist_cons_self a l).filter _).map id)

theorem tradeId_symbol {t : TradeRecord} (h : t ∈ buildTrades orders) : ∃ s, t.tradeId = stayId t.symbol s := by
  have hmem := (buildTrades_symbol orders t.symbol).mem_iff.1 (List.mem_filter.2 ⟨h, decide_eq_true rfl⟩)
  have hid := List.mem_map_of_mem (f := TradeRecord.tradeId) hmem
  rw [(scan_walks t.symbol _).ids] at hid
  obtain ⟨s, -, hs⟩ := List.mem_map.1 hid
  exact ⟨s, hs.symm⟩

/-- **Trade ids name trades**, now and when the history goes on, exactly when no symbol turns twice within one instant. -/
theorem tradeIds_name_iff (orders : List Order) :
    (((buildTrades orders).map TradeRecord.tradeId).Nodup ∧
      ∀ now orders', Continues now orders orders' → (buildTrades orders).Subperm (buildTrades orders')) ↔
      ∀ symbol, ¬TurnsTwice ((PerformanceAnalyzer.stream orders symbol).map move) := by
  rw [and_iff_left fun _ _ h => h.trades, nodup_by TradeRecord.tradeId TradeRecord.symbol]
  · refine forall_congr' fun symbol => ?_
    rw [← scan_ids_nodup symbol (stream_ascending orders symbol), ((buildTrades_symbol orders symbol).map _).nodup_iff]
    rfl
  · intro t ht u hu heq
    obtain ⟨s, hs⟩ := tradeId_symbol ht
    obtain ⟨s', hs'⟩ := tradeId_symbol hu
    rw [hs, hs'] at heq
    simp only [stayId, PerformanceAnalyzer.tradeId, List.cons.injEq, Piece.lit.injEq] at heq
    exact heq.1

/-- An order for one share, filled at the first instant there is. -/
def filledAtOnce (id : String) (side : Side) : Order where
  symbol := "AAPL"
  side := side
  qty := 1
  id := id
  clientOrderId := "atp-" ++ id
  fills := [⟨id, 0, 1, 100, 0, none⟩]

/-- **Two round trips within one instant share an id.** -/
theorem two_trades_one_id : ¬((buildTrades [filledAtOnce "a" .buy, filledAtOnce "b" .sell, filledAtOnce "c" .buy,
    filledAtOnce "d" .sell]).map TradeRecord.tradeId).Nodup := by
  decide +kernel

end

end PerformanceAnalyzer
end Atp
