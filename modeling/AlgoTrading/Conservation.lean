import AlgoTrading.TradeStreams
/-!
# Conservation — the trades of a history against a position folded over it

`build_trades` rebuilds episodes leg by leg, `Position.apply_fill` keeps a running average cost.  Over the same fills in the
same order, `trades_conserve`: a trade for every fill that closes or reverses what is held, and, once flat, what the trades
made and paid is what the position realised and paid.
-/
namespace Atp

theorem Position.settled_realized (p : Position) (f : Fill) (x : ℚ) :
    (p.settled f x).realizedPnl = p.realizedPnl + (p.settle f x).2.2 := by
  unfold settled
  dsimp only
  split <;> rfl

theorem Position.settled_fees (p : Position) (f : Fill) (x : ℚ) : (p.settled f x).feesPaid = p.feesPaid + f.fee := by
  unfold settled
  dsimp only
  split <;> rfl

namespace Episode

/-- What the episode has made before fees, with what is open at its cost: a basis of `avg` a share. -/
def gross (e : Episode) (avg : ℚ) : ℚ := e.sign * (e.exit.elim 0 Leg.notional - (e.entry.notional - avg * e.openQty))

def fees (e : Episode) : ℚ := e.entry.fees + e.exit.elim 0 Leg.fees

end Episode

namespace PerformanceAnalyzer

/-! ## The fills of a symbol, in stream order -/

/-- Every fill with its order, under the key `_fill_stream` sorts by. -/
def keyedPairs (orders : List Order) : List (FillKey × Order × Fill) :=
  orders.zipIdx.flatMap fun p => p.1.fills.zipIdx.map fun q => (fillKey p.2 q.2 q.1.ts, p.1, q.1)

/-- The fills of a symbol as the market printed them, each with its order. -/
def printed (orders : List Order) (symbol : String) : List (Order × Fill) :=
  (((keyedPairs orders).filter fun p => p.2.1.symbol = symbol).insertionSort fun a b => a.1 ≤ b.1).map Prod.snd

def eventOf (p : Order × Fill) : FillEvent := fillEvent p.1 p.2

/-- What a fill moves its position by. -/
def signed (p : Order × Fill) : ℚ := p.2.qty * p.1.side.sign

theorem keyed_rows (orders : List Order) (symbol : String) :
    ((orders.zipIdx.flatMap fun p => (keyedFills p.2 p.1).map (Prod.mk p.1.symbol)).filter fun x => x.1 = symbol).map Prod.snd =
      ((keyedPairs orders).filter fun p => p.2.1.symbol = symbol).map fun p => (p.1, eventOf p.2) := by
  have hrows : (orders.zipIdx.flatMap fun p => (keyedFills p.2 p.1).map (Prod.mk p.1.symbol)) =
      (keyedPairs orders).map fun p => (p.2.1.symbol, p.1, eventOf p.2) := by
    unfold keyedPairs keyedFills
    rw [List.map_flatMap]
    simp only [List.map_map]
    rfl
  rw [hrows, List.filter_map, List.map_map]
  rfl

/-- **The stream of a symbol is its fills in that order.** -/
theorem fillStream_printed (orders : List Order) (symbol : String) :
    ((fillStream orders).get? symbol).getD [] = (printed orders symbol).map eventOf := by
  have hsort : ((printed orders symbol).map eventOf) =
      (sortByKey (((keyedPairs orders).filter fun p => p.2.1.symbol = symbol).map fun p => (p.1, eventOf p.2))).map Prod.snd := by
    unfold printed sortByKey
    generalize (keyedPairs orders).filter (fun p => decide (p.2.1.symbol = symbol)) = rows
    have hmap : (rows.insertionSort fun a b => a.1 ≤ b.1).map (fun p => (p.1, eventOf p.2)) =
        (rows.map fun p => (p.1, eventOf p.2)).insertionSort fun a b => a.1 ≤ b.1 :=
      List.map_insertionSort _ _ _ _ fun _ _ _ _ => Iff.rfl
    rw [← hmap, List.map_map, List.map_map]
    rfl
  unfold fillStream
  rw [Dict.get?_filterMap, Dict.get?_group, hsort, ← keyed_rows]
  split
  · next hnil => simp [hnil, sortByKey]
  · rfl

/-! ## The trades a fill closes -/

section
variable {symbol : String} {s : Scan} {e : Episode} {x : FillEvent}

/-- A fill takes a quantity that is held to zero, or across it. -/
def Closes (held x : ℚ) : Prop := held ≠ 0 ∧ held * (held + x) ≤ 0

instance (held x : ℚ) : Decidable (Closes held x) := inferInstanceAs (Decidable (_ ∧ _))

/-- The fills of a list that close what is held when they come. -/
def closings : ℚ → List ℚ → ℕ
  | _, [] => 0
  | held, x :: l => (if Closes held x then 1 else 0) + closings (held + x) l

theorem closings_append (l : List ℚ) (x : ℚ) : ∀ held, closings held (l ++ [x]) =
    closings held l + if Closes (held + l.sum) x then 1 else 0 := by
  induction l with
  | nil => simp [closings]
  | cons y l ih =>
    intro held
    rw [List.cons_append, closings, ih, closings, List.sum_cons, add_assoc held]
    omega

/-- **What a fill of something makes of a scan.** -/
inductive Absorbed (symbol : String) (s : Scan) (x : FillEvent) : Scan → Prop
  | opens (hs : s.episode = none) : Absorbed symbol s x ⟨some (openEpisode symbol x |x.signedQty| x.fee), s.trades⟩
  | adds (e : Episode) (hs : s.episode = some e) (hside : x.signedQty = e.sign * |x.signedQty|) :
      Absorbed symbol s x ⟨some (extend e x |x.signedQty| x.fee), s.trades⟩
  | reduces (e : Episode) (hs : s.episode = some e) (hside : x.signedQty = -(e.sign * |x.signedQty|))
      (hlt : |x.signedQty| < e.openQty) : Absorbed symbol s x ⟨some (withExit e x |x.signedQty| x.fee), s.trades⟩
  | closes (e : Episode) (hs : s.episode = some e) (hside : x.signedQty = -(e.sign * |x.signedQty|))
      (heq : |x.signedQty| = e.openQty) :
      Absorbed symbol s x ⟨none, s.trades ++ [toTrade (withExit e x e.openQty x.fee) (exitLeg e x e.openQty x.fee)]⟩
  | reverses (e : Episode) (fee : ℚ) (hs : s.episode = some e) (hside : x.signedQty = -(e.sign * |x.signedQty|))
      (hgt : e.openQty < |x.signedQty|) (hsign : (openEpisode symbol x (|x.signedQty| - e.openQty) (x.fee - fee)).sign = -e.sign) :
      Absorbed symbol s x ⟨some (openEpisode symbol x (|x.signedQty| - e.openQty) (x.fee - fee)),
        s.trades ++ [toTrade (withExit e x e.openQty fee) (exitLeg e x e.openQty fee)]⟩

theorem absorb_absorbed (symbol : String) (s : Scan) (hx : x.signedQty ≠ 0) : Absorbed symbol s x (absorb symbol s x) := by
  cases hs : s.episode with
  | none => exact absorb_opens hs hx ▸ .opens hs
  | some e =>
    by_cases hside : e.long = decide (0 < x.signedQty)
    · exact absorb_extends hs hside hx ▸ .adds e hs (signed_along hside)
    · rcases lt_trichotomy |x.signedQty| e.openQty with hlt | heq | hgt
      · rw [absorb_leaves hs hside hx hlt.le, leave_reduces hlt]
        exact .reduces e hs (signed_against hside) hlt
      · rw [absorb_leaves hs hside hx heq.le, heq, leave_closes]
        exact .closes e hs (signed_against hside) heq
      · obtain ⟨fee, hflip⟩ := absorb_flips hs hside hx hgt
        rw [hflip]
        exact .reverses e fee hs (signed_against hside) hgt (openEpisode_against _ _ hside)

/-- **A trade of an episode**: the fill takes all that is open, into the exit leg. -/
def ClosedBy (s : Scan) (x : FillEvent) (t : TradeRecord) : Prop :=
  ∃ e fee, s.episode = some e ∧ t = toTrade (withExit e x e.openQty fee) (exitLeg e x e.openQty fee)

/-- The legs of a closed episode are of one quantity. -/
theorem exitLeg_qty (fee : ℚ) : (exitLeg e x e.openQty fee).qty = e.entry.qty := by
  have h := withExit_openQty (e := e) (x := x) e.openQty fee
  rw [sub_self] at h
  exact (sub_eq_zero.1 h).symm

/-- **A fill of nothing** passes by, or leaves a mark of nothing on the exit of what is long. -/
theorem absorb_empty (hopen : s.Open symbol) (hx : x.signedQty = 0) :
    absorb symbol s x = s ∨ ∃ e, s.episode = some e ∧ absorb symbol s x = ⟨some (withExit e x 0 0), s.trades⟩ := by
  obtain ⟨episode, trades⟩ := s
  cases episode with
  | none => exact .inl (by simp [absorb, enter, hx])
  | some e =>
    obtain ⟨-, ho⟩ := hopen e rfl
    by_cases hside : e.long = false
    · exact .inl (by simp [absorb, enter, hx, hside])
    · exact .inr ⟨e, rfl, by simp [absorb, enter, hx, hside, min_eq_left ho.le, leave_reduces ho]⟩

/-- A fill of nothing opens nothing and closes nothing. -/
theorem absorb_nothing (hopen : s.Open symbol) (hx : x.signedQty = 0) :
    (absorb symbol s x).Open symbol ∧ (absorb symbol s x).held = s.held ∧ (absorb symbol s x).trades = s.trades := by
  rcases absorb_empty hopen hx with hkept | ⟨e, hs, hleft⟩
  · rw [hkept]
    exact ⟨hopen, rfl, rfl⟩
  · obtain ⟨hsymbol, ho⟩ := hopen e hs
    rw [hleft]
    refine ⟨open_some hsymbol ?_, ?_, rfl⟩
    · simpa using ho
    · simp [Scan.held, hs, Episode.held]

/-- **What one fill closes**: a trade of the episode it was held in, exactly when it closes what was held. -/
theorem absorb_closes (hopen : s.Open symbol) (x : FillEvent) :
    (absorb symbol s x).Open symbol ∧ (absorb symbol s x).held = s.held + x.signedQty ∧
      ∃ l, (absorb symbol s x).trades = s.trades ++ l ∧ (∀ t ∈ l, ClosedBy s x t) ∧
        l.length = if Closes s.held x.signedQty then 1 else 0 := by
  by_cases hx : x.signedQty = 0
  · obtain ⟨hstays, hheld, htrades⟩ := absorb_nothing hopen hx
    have hnot : ¬Closes s.held x.signedQty := by
      rintro ⟨hne, hle⟩
      rw [hx, add_zero] at hle
      exact absurd hle (not_le.2 (mul_self_pos.2 hne))
    rw [if_neg hnot, hheld, hx, add_zero]
    exact ⟨hstays, rfl, [], by simpa using htrades, by simp, rfl⟩
  · obtain ⟨hstays, hheld, l, htrades, -, hlength⟩ := absorb_moves hopen hx
    refine ⟨hstays, hheld, l, htrades, ?_, hlength⟩
    have hstep := absorb_absorbed symbol s hx
    generalize absorb symbol s x = s' at hstep htrades
    cases hstep with
    | opens | adds | reduces =>
      rw [List.self_eq_append_right.1 htrades]
      exact fun _ ht => (List.not_mem_nil ht).elim
    | closes e hs =>
      rw [← List.append_cancel_left htrades]
      exact fun t ht => ⟨e, x.fee, hs, List.mem_singleton.1 ht⟩
    | reverses e fee hs =>
      rw [← List.append_cancel_left htrades]
      exact fun t ht => ⟨e, fee, hs, List.mem_singleton.1 ht⟩

theorem scan_append (l : List FillEvent) (x : FillEvent) : scan symbol (l ++ [x]) = absorb symbol (scan symbol l) x := by
  unfold scan
  rw [List.foldl_append]
  rfl

/-- The trades of a scan: as many as fills close what is held, each of the episode held before the fill that closed it. -/
theorem scan_closes (symbol : String) (l : List FillEvent) : (scan symbol l).Open symbol ∧
    (scan symbol l).held = (l.map FillEvent.signedQty).sum ∧
    (scan symbol l).trades.length = closings 0 (l.map FillEvent.signedQty) ∧
    ∀ t ∈ (scan symbol l).trades, ∃ before x after, l = before ++ x :: after ∧ ClosedBy (scan symbol before) x t := by
  induction l using List.reverseRecOn with
  | nil => exact ⟨open_none _, rfl, rfl, fun t ht => by cases ht⟩
  | append_singleton l x ih =>
    obtain ⟨hopen, hheld, hcount, hclosed⟩ := ih
    obtain ⟨hstays, hmoved, new, htrades, hnew, hlength⟩ := absorb_closes hopen x
    rw [scan_append, List.map_append, List.map_singleton, closings_append, zero_add]
    refine ⟨hstays, ?_, ?_, ?_⟩
    · rw [hmoved, hheld, List.sum_append, List.sum_singleton]
    · rw [htrades, List.length_append, hcount, hlength, hheld]
    · intro t ht
      rw [htrades] at ht
      rcases List.mem_append.1 ht with ht | ht
      · obtain ⟨before, y, after, rfl, hby⟩ := hclosed t ht
        exact ⟨before, y, after ++ [x], by simp, hby⟩
      · exact ⟨l, x, [], rfl, hnew t ht⟩

/-! ## A position over the same fills -/

theorem openEpisode_gross (remaining fee : ℚ) : (openEpisode symbol x remaining fee).gross x.price = 0 := by
  simp only [Episode.gross, openEpisode_openQty]
  simp only [openEpisode, Leg.add, Option.elim_none]
  ring

theorem openEpisode_fees (remaining fee : ℚ) : (openEpisode symbol x remaining fee).fees = fee := add_zero fee

/-- A basis that averages the fill in leaves what the episode has made. -/
theorem extend_gross {avg avg' remaining : ℚ} (fee : ℚ)
    (havg : avg' * (e.openQty + remaining) = avg * e.openQty + x.price * remaining) :
    (extend e x remaining fee).gross avg' = e.gross avg := by
  simp only [Episode.gross, extend_openQty, extend_sign, havg]
  simp only [extend, Leg.add]
  ring

theorem extend_fees (remaining fee : ℚ) : (extend e x remaining fee).fees = e.fees + fee := by
  simp only [Episode.fees, extend, Leg.add]
  ring

theorem withExit_gross (avg closing fee : ℚ) :
    (withExit e x closing fee).gross avg = e.gross avg + closing * (x.price - avg) * e.sign := by
  simp only [Episode.gross, withExit_openQty, withExit_sign]
  unfold withExit exitLeg Leg.add
  cases e.exit with
  | none =>
    simp only [Option.elim_some, Option.elim_none]
    ring
  | some l =>
    simp only [Option.elim_some]
    ring

theorem withExit_fees (closing fee : ℚ) : (withExit e x closing fee).fees = e.fees + fee := by
  unfold Episode.fees withExit exitLeg Leg.add
  cases e.exit with
  | none =>
    simp only [Option.elim_some, Option.elim_none]
    ring
  | some l =>
    simp only [Option.elim_some]
    ring

/-- A trade makes what its episode made before its fill, and what the fill realises of the basis, whatever that was. -/
theorem toTrade_gross (avg fee : ℚ) : (toTrade (withExit e x e.openQty fee) (exitLeg e x e.openQty fee)).grossPnl =
    e.gross avg + e.openQty * (x.price - avg) * e.sign := by
  rw [← withExit_gross avg e.openQty fee]
  simp only [Episode.gross, withExit_openQty, sub_self, mul_zero, sub_zero]
  simp only [toTrade, withExit, Episode.sign, Option.elim_some]
  ring

theorem toTrade_fees (closing fee : ℚ) : (toTrade (withExit e x closing fee) (exitLeg e x closing fee)).fees = e.fees + fee := by
  rw [← withExit_fees (x := x) closing fee]
  rfl

/-- **A position and a scan over the same fills**: the same is held, and what the position has realised and paid is what the
trades closed made and paid, with what the open episode has made at the position's basis. -/
structure Balances (p : Position) (s : Scan) : Prop where
  held : p.qty = s.held
  gross : p.realizedPnl = (s.trades.map TradeRecord.grossPnl).sum + s.episode.elim 0 fun e => e.gross p.avgEntryPrice
  fees : p.feesPaid = (s.trades.map TradeRecord.fees).sum + s.episode.elim 0 Episode.fees

variable {p : Position} {f : Fill}

/-- **Every fill keeps the balance**: one that opens, adds, reduces, closes, or reverses. -/
theorem Balances.absorbed (h : Balances p s) (hopen : s.Open symbol) (hf : Prints f x) :
    Balances (p.settled f x.signedQty) (absorb symbol s x) := by
  have hpos : 0 < |x.signedQty| := abs_pos.2 hf.moves
  obtain ⟨-, hmoved, -⟩ := absorb_closes hopen x
  have hheld : (p.settled f x.signedQty).qty = (absorb symbol s x).held := by rw [Position.settled_qty, hmoved, h.held]
  have hgross := h.gross
  have hfees := h.fees
  have hbase (e : Episode) (hs : s.episode = some e) : p.qty = e.sign * e.openQty ∧ 0 < e.openQty ∧ e.sign ≠ 0 := by
    refine ⟨by rw [h.held, Scan.held, hs, Option.elim_some, Episode.held], (hopen e hs).2, ?_⟩
    rcases e.sign_cases with h | h <;> rw [h] <;> norm_num
  have hstep := absorb_absorbed symbol s hf.moves
  generalize absorb symbol s x = s' at hstep hheld ⊢
  refine ⟨hheld, ?_, ?_⟩
  · rw [Position.settled_realized, hgross]
    cases hstep with
    | opens hs =>
      have hflat : p.qty = 0 := by rw [h.held, Scan.held, hs, Option.elim_none]
      have hne : p.qty + x.signedQty ≠ 0 := by simpa [hflat] using hf.moves
      rw [hs, Position.settled_avg _ _ _ hne, Position.settle_flat hflat, ← hf.price]
      simp [openEpisode_gross]
    | adds e hs hside =>
      obtain ⟨hqty, ho, hsign⟩ := hbase e hs
      obtain ⟨havg, hreal⟩ := Position.settle_along (f := f) e.sign_cases hqty hside ho hpos
      have hne : p.qty + x.signedQty ≠ 0 := by
        rw [hqty, hside, ← mul_add]
        exact mul_ne_zero hsign (add_pos ho hpos).ne'
      rw [← hf.price] at havg
      simp [hs, hreal, Position.settled_avg _ _ _ hne, extend_gross _ havg]
    | reduces e hs hside hlt =>
      obtain ⟨hqty, ho, hsign⟩ := hbase e hs
      obtain ⟨havg, hreal⟩ := Position.settle_against (f := f) e.sign_cases hqty hside ho hpos hlt.le
      have hne : p.qty + x.signedQty ≠ 0 := by
        rw [hqty, hside, ← sub_eq_add_neg, ← mul_sub]
        exact mul_ne_zero hsign (sub_pos.2 hlt).ne'
      rw [hs, Position.settled_avg _ _ _ hne, havg, hreal, ← hf.price]
      simp only [Option.elim_some, withExit_gross]
      ring
    | closes e hs hside heq =>
      obtain ⟨hqty, ho, -⟩ := hbase e hs
      obtain ⟨-, hreal⟩ := Position.settle_against (f := f) e.sign_cases hqty hside ho hpos heq.le
      rw [hs, hreal, heq, ← hf.price]
      simp only [Option.elim_some, Option.elim_none, List.map_append, List.map_singleton, List.sum_append, List.sum_singleton,
        toTrade_gross p.avgEntryPrice]
      ring
    | reverses e fee hs hside hgt =>
      obtain ⟨hqty, ho, hsign⟩ := hbase e hs
      obtain ⟨havg, hreal⟩ := Position.settle_through (f := f) e.sign_cases hqty hside ho hgt
      have hne : p.qty + x.signedQty ≠ 0 := by
        rw [hqty, hside, ← sub_eq_add_neg, ← mul_sub]
        exact mul_ne_zero hsign (sub_neg.2 hgt).ne
      rw [hs, Position.settled_avg _ _ _ hne, havg, hreal, ← hf.price]
      simp only [Option.elim_some, List.map_append, List.map_singleton, List.sum_append, List.sum_singleton,
        toTrade_gross p.avgEntryPrice, openEpisode_gross]
      ring
  · rw [Position.settled_fees, hfees, ← hf.fee]
    cases hstep with
    | opens hs => simp [hs, openEpisode_fees]
    | adds e hs =>
      rw [hs, Option.elim_some, Option.elim_some, extend_fees]
      ring
    | reduces e hs =>
      rw [hs, Option.elim_some, Option.elim_some, withExit_fees]
      ring
    | closes e hs =>
      simp only [hs, Option.elim_some, Option.elim_none, List.map_append, List.map_singleton, List.sum_append, List.sum_singleton,
        toTrade_fees]
      ring
    | reverses e fee hs =>
      simp only [hs, Option.elim_some, List.map_append, List.map_singleton, List.sum_append, List.sum_singleton, toTrade_fees,
        openEpisode_fees]
      ring

end

/-- A `Position` folded over fills: the first the position refuses ends it. -/
def folded (symbol : String) (l : List (Order × Fill)) : Except Exc Position :=
  l.foldlM (fun p x => Prod.fst <$> p.applyFill x.2 (signed x)) { symbol := symbol }

theorem applyFill_signed {p q : Position} {x : Order × Fill} : Prod.fst <$> p.applyFill x.2 (signed x) = .ok q ↔
    0 < x.2.qty ∧ q = p.settled x.2 (signed x) := by
  have hsign : ((x.1.side.sign : ℤ) : ℚ) = 1 ∨ ((x.1.side.sign : ℤ) : ℚ) = -1 := by cases x.1.side <;> simp [Side.sign]
  constructor
  · intro h
    cases hf : p.applyFill x.2 (signed x) with
    | error e => simp [hf] at h
    | ok r =>
      obtain ⟨q', y⟩ := r
      obtain ⟨hpos, -, -, rfl, -⟩ := Position.applyFill_ok.1 hf
      rw [hf] at h
      exact ⟨hpos, (Except.ok.inj h).symm⟩
  · rintro ⟨hpos, rfl⟩
    have hne : signed x ≠ 0 := by
      unfold signed
      rcases hsign with hs | hs <;> rw [hs] <;> simp [hpos.ne']
    have habs : |signed x| = x.2.qty := by
      unfold signed
      rcases hsign with hs | hs <;> rw [hs] <;> simp [abs_of_pos hpos]
    rw [Position.applyFill_ok.2 ⟨hpos, hne, habs, rfl, rfl⟩]
    rfl

theorem folded_append (symbol : String) (l : List (Order × Fill)) (x : Order × Fill) {q : Position} :
    folded symbol (l ++ [x]) = .ok q ↔ ∃ p, folded symbol l = .ok p ∧ 0 < x.2.qty ∧ q = p.settled x.2 (signed x) := by
  unfold folded
  rw [List.foldlM_append]
  cases l.foldlM (fun (p : Position) x => Prod.fst <$> p.applyFill x.2 (signed x)) ({ symbol := symbol } : Position) with
  | error e => exact ⟨fun h => (nomatch h), fun ⟨_, h, _⟩ => (nomatch h)⟩
  | ok p =>
    show Prod.fst <$> p.applyFill x.2 (signed x) >>= pure = .ok q ↔ _
    rw [bind_pure, applyFill_signed]
    exact ⟨fun h => ⟨p, rfl, h⟩, fun ⟨_, hp, h⟩ => Except.ok.inj hp ▸ h⟩

/-- The fold is refused exactly when a fill is of nothing. -/
theorem folded_iff (symbol : String) (l : List (Order × Fill)) :
    (∃ p, folded symbol l = .ok p) ↔ ∀ x ∈ l, 0 < x.2.qty := by
  induction l using List.reverseRecOn with
  | nil => exact ⟨fun _ _ hx => (List.not_mem_nil hx).elim, fun _ => ⟨_, rfl⟩⟩
  | append_singleton l x ih =>
    simp only [folded_append, List.forall_mem_append, List.forall_mem_singleton, ← ih]
    exact ⟨fun ⟨_, p, hp, hpos, _⟩ => ⟨⟨p, hp⟩, hpos⟩, fun ⟨⟨p, hp⟩, hpos⟩ => ⟨_, p, hp, hpos, rfl⟩⟩

theorem folded_balances {symbol : String} {l : List (Order × Fill)} {p : Position} (h : folded symbol l = .ok p) :
    Balances p (scan symbol (l.map eventOf)) := by
  induction l using List.reverseRecOn generalizing p with
  | nil =>
    rw [← Except.ok.inj h]
    exact ⟨rfl, (add_zero _).symm, (add_zero _).symm⟩
  | append_singleton l x ih =>
    obtain ⟨q, hq, hpos, rfl⟩ := (folded_append symbol l x).1 h
    have hmoves : (eventOf x).signedQty ≠ 0 := by
      show x.2.qty * ((x.1.side.sign : ℤ) : ℚ) ≠ 0
      cases x.1.side <;> simp [Side.sign, hpos.ne']
    rw [List.map_append, List.map_singleton, scan_append]
    exact (ih hq).absorbed (scan_closes symbol _).1 ⟨rfl, rfl, hmoves⟩

/-! ## What `build_trades` returns -/

/-- The trades of a symbol are those of the scan of its stream. -/
theorem buildTrades_symbol (orders : List Order) (symbol : String) :
    ((buildTrades orders).filter fun t => t.symbol = symbol).Perm (scan symbol ((printed orders symbol).map eventOf)).trades := by
  have hof (p : String × List FillEvent) (t : TradeRecord) (ht : t ∈ (scan p.1 p.2).trades) : t.symbol = p.1 := by
    obtain ⟨before, x, -, -, e, fee, he, rfl⟩ := (scan_closes p.1 p.2).2.2.2 t ht
    exact ((scan_closes p.1 before).1 e he).1
  have hgroups : ((fillStream orders).entries.flatMap fun p => (scan p.1 p.2).trades).filter (fun t => t.symbol = symbol) =
      (fillStream orders).entries.flatMap fun p => if p.1 = symbol then (scan p.1 p.2).trades else [] := by
    rw [List.filter_flatMap]
    refine List.flatMap_congr fun p _ => ?_
    split
    · next hp => exact List.filter_eq_self.2 fun t ht => decide_eq_true ((hof p t ht).trans hp)
    · next hp => exact List.filter_eq_nil_iff.2 fun t ht => by simpa [hof p t ht] using hp
  unfold buildTrades
  refine ((List.perm_insertionSort _ _).filter _).trans ?_
  rw [hgroups, Dict.flatMap_lookup (fun k v => (scan k v).trades) symbol (fillStream orders).nodup, ← fillStream_printed, Dict.get?]
  cases Dict.lookup symbol (fillStream orders).entries <;> exact List.Perm.refl _

/-- **A round trip of a stream**: a fill took all that the episode before it had open, and the two legs are of one quantity. -/
def RoundTrip (symbol : String) (stream : List FillEvent) (t : TradeRecord) : Prop :=
  ∃ before x after e fee, stream = before ++ x :: after ∧ (scan symbol before).episode = some e ∧
    t = toTrade (withExit e x e.openQty fee) (exitLeg e x e.openQty fee) ∧
    t.qty = e.entry.qty ∧ (exitLeg e x e.openQty fee).qty = e.entry.qty

/-- **Trade reconstruction conserves the account**, whatever the orders and their fills, symbol by symbol: a trade for every fill
of the stream that takes what is held to zero or across it, each of one quantity in and out, and, when nothing is held at the
end, what the trades made and paid is what a position folded over the same fills realised and paid. -/
theorem trades_conserve (orders : List Order) (symbol : String) :
    ((fillStream orders).get? symbol).getD [] = (printed orders symbol).map eventOf ∧
    ((buildTrades orders).filter fun t => t.symbol = symbol).length = closings 0 ((printed orders symbol).map signed) ∧
    (∀ t ∈ buildTrades orders, t.symbol = symbol → RoundTrip symbol ((printed orders symbol).map eventOf) t) ∧
    ((∃ p, folded symbol (printed orders symbol) = .ok p) ↔ ∀ x ∈ printed orders symbol, 0 < x.2.qty) ∧
    ∀ p, folded symbol (printed orders symbol) = .ok p → ((printed orders symbol).map signed).sum = 0 →
      (((buildTrades orders).filter fun t => t.symbol = symbol).map TradeRecord.grossPnl).sum = p.realizedPnl ∧
      (((buildTrades orders).filter fun t => t.symbol = symbol).map TradeRecord.fees).sum = p.feesPaid := by
  have hsigned : ((printed orders symbol).map eventOf).map FillEvent.signedQty = (printed orders symbol).map signed := by
    rw [List.map_map]
    rfl
  obtain ⟨hopen, hheld, hcount, hclosed⟩ := scan_closes symbol ((printed orders symbol).map eventOf)
  have hperm := buildTrades_symbol orders symbol
  rw [hsigned] at hheld hcount
  refine ⟨fillStream_printed orders symbol, hperm.length_eq.trans hcount, fun t ht hsymbol => ?_, folded_iff symbol _, fun p hp hzero => ?_⟩
  · have hmem : t ∈ (scan symbol ((printed orders symbol).map eventOf)).trades :=
      hperm.mem_iff.1 (List.mem_filter.2 ⟨ht, decide_eq_true hsymbol⟩)
    obtain ⟨before, x, after, hsplit, e, fee, he, rfl⟩ := hclosed t hmem
    exact ⟨before, x, after, e, fee, hsplit, he, rfl, rfl, exitLeg_qty fee⟩
  · obtain ⟨-, hgross, hfees⟩ := folded_balances hp
    have hflat : (scan symbol ((printed orders symbol).map eventOf)).episode = none := by
      cases he : (scan symbol ((printed orders symbol).map eventOf)).episode with
      | none => rfl
      | some e =>
        have hnone : e.sign * e.openQty = 0 := by
          rw [← hzero, ← hheld]
          simp [Scan.held, he, Episode.held]
        rcases mul_eq_zero.1 hnone with hsign | hnothing
        · rcases e.sign_cases with hs | hs <;> rw [hs] at hsign <;> norm_num at hsign
        · exact absurd hnothing (hopen e he).2.ne'
    rw [hflat, Option.elim_none, add_zero] at hgross hfees
    exact ⟨(hperm.map _).sum_eq.trans hgross.symm, (hperm.map _).sum_eq.trans hfees.symm⟩

end PerformanceAnalyzer
end Atp
