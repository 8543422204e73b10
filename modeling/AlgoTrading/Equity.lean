import Mathlib.Tactic.FieldSimp
import AlgoTrading.Levels
/-!
# Equity — cash at cost is starting equity, plus what was realised, less what was paid

Cash is moved by the engine and the cost basis by the position, from the same fill.  `settled_spent` is the one fact about a
fill: whatever branch it takes, what the position has spent grows by the fill's signed notional and its fee.  The rest is a
sum over symbols and an induction on the acts of a run.
-/
namespace Atp

namespace Position

/-- The cash a position has taken: what is held at its basis, less the profit it has given back, with its fees. -/
def spent (p : Position) : ℚ := p.qty * p.avgEntryPrice - p.realizedPnl + p.feesPaid

/-- What is open carries a mark. -/
def Marked (p : Position) : Prop := p.qty ≠ 0 → p.lastPrice.isSome

/-- What a fill does to the basis and to the profit, before a position gone flat is cleared. -/
theorem settle_cost (p : Position) (f : Fill) (x : ℚ) :
    (p.qty + x) * (p.settle f x).1 - (p.settle f x).2.2 = p.qty * p.avgEntryPrice + x * f.price := by
  unfold settle
  split_ifs with hflat hsame hlong hflip hflip
  · rw [hflat]
    ring
  · -- adding to a side: the average weighs both lots, and the lots point the same way
    have hne : |p.qty| + |x| ≠ 0 := (add_pos_of_pos_of_nonneg (abs_pos.2 hflat) (abs_nonneg x)).ne'
    have hsum : (p.qty + x) * (p.avgEntryPrice * |p.qty| + f.price * |x|) =
        (p.qty * p.avgEntryPrice + x * f.price) * (|p.qty| + |x|) := by
      rcases lt_or_gt_of_ne hflat with hneg | hpos
      · have hx : x ≤ 0 := not_lt.1 fun hx => absurd (hsame.symm ▸ hx) (not_lt.2 hneg.le)
        rw [abs_of_neg hneg, abs_of_nonpos hx]
        ring
      · rw [abs_of_pos hpos, abs_of_pos (hsame ▸ hpos)]
        ring
    rw [sub_zero, ← mul_div_assoc, hsum, mul_div_assoc, div_self hne, mul_one]
  · rw [min_eq_right hflip.le, abs_of_pos hlong]
    ring
  · have hx : x ≤ 0 := not_lt.1 fun hx => hsame (by simp [hlong, hx])
    rw [min_eq_left (not_lt.1 hflip), abs_of_nonpos hx]
    ring
  · rw [min_eq_right hflip.le, abs_of_nonpos (not_lt.1 hlong)]
    ring
  · have hx : 0 < x := not_le.1 fun hx => hsame (by simp [hlong, not_lt.2 hx])
    rw [min_eq_left (not_lt.1 hflip), abs_of_pos hx]
    ring

/-- **What a position has spent grows by what the fill took out of cash.** -/
theorem settled_spent (p : Position) (f : Fill) (x : ℚ) : (p.settled f x).spent = p.spent + (x * f.price + f.fee) := by
  have hcost := settle_cost p f x
  unfold settled spent
  dsimp only
  split_ifs with hflat
  · rw [hflat, zero_mul] at hcost
    linarith
  · linarith

theorem settled_marked (p : Position) (f : Fill) (x : ℚ) : (p.settled f x).Marked := by
  intro _
  unfold settled
  dsimp only
  split_ifs <;> rfl

/-- A mark splits into the basis and what is not yet realised. -/
theorem marketValue_eq {p : Position} (h : p.Marked) : p.marketValue = p.qty * p.avgEntryPrice + p.unrealizedPnl := by
  unfold marketValue unrealizedPnl isFlat
  by_cases hflat : p.qty = 0
  · cases p.lastPrice <;> simp [hflat]
  · obtain ⟨price, hprice⟩ := Option.isSome_iff_exists.1 (h hflat)
    rw [hprice]
    simp only [hflat, decide_false, Bool.false_eq_true, if_false]
    ring

end Position

namespace Portfolio

/-- A total over the positions. -/
def total (g : Position → ℚ) (b : Portfolio) : ℚ := (b.positions.values.map g).sum

def costBasis (b : Portfolio) : ℚ := b.total fun p => p.qty * p.avgEntryPrice

def realizedPnl (b : Portfolio) : ℚ := b.total Position.realizedPnl

def unrealizedPnl (b : Portfolio) : ℚ := b.total Position.unrealizedPnl

def feesPaid (b : Portfolio) : ℚ := b.total Position.feesPaid

/-- **The identity of a book**: cash and cost on one side, where the account began and what it made on the other. -/
def Balanced (b : Portfolio) : Prop := b.cash + b.costBasis = b.startingEquity + b.realizedPnl - b.feesPaid

def Marked (b : Portfolio) : Prop := ∀ p ∈ b.positions.values, p.Marked

variable {b : Portfolio}

theorem total_setPosition (g : Position → ℚ) (symbol : String) (q : Position) (hg : g { symbol := symbol } = 0) :
    (b.setPosition symbol q).total g = b.total g - g (b.position symbol) + g q := by
  unfold total setPosition position
  rw [Dict.sum_values_set]
  cases b.positions.get? symbol with
  | none => simp [hg]
  | some p => rfl

theorem spent_total (b : Portfolio) : b.total Position.spent = b.costBasis - b.realizedPnl + b.feesPaid := by
  unfold costBasis realizedPnl feesPaid total
  induction b.positions.values with
  | nil => simp
  | cons p l ih =>
    simp only [List.map_cons, List.sum_cons, ih, Position.spent]
    ring

theorem balanced_iff : b.Balanced ↔ b.cash + b.total Position.spent = b.startingEquity := by
  rw [spent_total]
  unfold Balanced
  constructor <;> intro h <;> linarith

theorem marked_setPosition (h : b.Marked) (symbol : String) {q : Position} (hq : q.Marked) :
    (b.setPosition symbol q).Marked := by
  intro p hp
  obtain ⟨k, hk⟩ := (Dict.mem_values_iff _ p).1 hp
  unfold setPosition at hk
  rw [Dict.get?_set] at hk
  by_cases hs : k = symbol
  · rw [if_pos hs, Option.some.injEq] at hk
    exact hk ▸ hq
  · rw [if_neg hs] at hk
    exact h p ((Dict.mem_values_iff _ p).2 ⟨k, hk⟩)

theorem Marked.position (h : b.Marked) (symbol : String) : (b.position symbol).Marked := by
  unfold Portfolio.position
  cases hk : b.positions.get? symbol with
  | none => exact fun hq => absurd rfl hq
  | some p => exact h p ((Dict.mem_values_iff _ p).2 ⟨symbol, hk⟩)

/-- **Equity, decomposed.** -/
theorem Balanced.equity (h : b.Balanced) (hm : b.Marked) :
    b.equity = b.startingEquity + b.realizedPnl + b.unrealizedPnl - b.feesPaid := by
  have hvalue : b.totalMarketValue = b.costBasis + b.unrealizedPnl := by
    unfold Portfolio.totalMarketValue costBasis unrealizedPnl total
    rw [List.map_congr_left fun p hp => Position.marketValue_eq (hm p hp), List.sum_map_add]
  unfold Portfolio.equity
  unfold Balanced at h
  rw [hvalue]
  linarith

end Portfolio

namespace Backtest

open Raising Runs

variable {L σ τ : Type} {eng : BacktestEngine L σ τ} {bars : Dict String (List Bar)} {s t u : EngineState σ τ}

/-- **What every act keeps**: the book is balanced, what is open is marked, and the account began with `cash`. -/
structure Sums (cash : ℚ) (b : Portfolio) : Prop where
  balanced : b.Balanced
  marked : b.Marked
  starting : b.startingEquity = cash

variable {cash : ℚ} {b : Portfolio}

theorem Sums.equity (h : Sums cash b) : b.equity = cash + b.realizedPnl + b.unrealizedPnl - b.feesPaid := by
  rw [h.balanced.equity h.marked, h.starting]

/-- A position set back with the same cash in it. -/
theorem Sums.setPosition (h : Sums cash b) (symbol : String) {q : Position} (hspent : q.spent = (b.position symbol).spent)
    (hq : q.Marked) : Sums cash (b.setPosition symbol q) := by
  refine ⟨?_, Portfolio.marked_setPosition h.marked symbol hq, h.starting⟩
  have hbalanced := Portfolio.balanced_iff.1 h.balanced
  rw [Portfolio.balanced_iff, Portfolio.total_setPosition _ _ _ (by simp [Position.spent]), hspent]
  show b.cash + _ = b.startingEquity
  linarith

theorem Sums.remark (h : Sums cash b) (symbol : String) (price : ℚ) :
    Sums cash (b.setPosition symbol { b.position symbol with lastPrice := some price }) :=
  h.setPosition symbol rfl fun _ => rfl

/-- **What one fill takes out of cash, the position has spent.** -/
theorem Sums.apply {o : Order} {f : Fill} {b' : Portfolio} (h : Sums cash b) (hb : b.applyToPortfolio o f = .ok b') :
    Sums cash b' := by
  unfold Portfolio.applyToPortfolio at hb
  cases hf : (b.position o.symbol).applyFill f (f.qty * o.side.sign) with
  | error e => simp [hf] at hb
  | ok r =>
    obtain ⟨q, realized⟩ := r
    simp only [hf, Except.ok.injEq] at hb
    obtain ⟨-, -, -, hq, -⟩ := Position.applyFill_ok.1 hf
    have hspent := Position.settled_spent (b.position o.symbol) f (f.qty * o.side.sign)
    have hmarked := Position.settled_marked (b.position o.symbol) f (f.qty * o.side.sign)
    rw [← hq] at hspent hmarked
    have hbalanced := Portfolio.balanced_iff.1 h.balanced
    have htotal := Portfolio.total_setPosition (b := b) Position.spent o.symbol q (by simp [Position.spent])
    subst hb
    refine ⟨Portfolio.balanced_iff.2 ?_, Portfolio.marked_setPosition h.marked o.symbol hmarked, h.starting⟩
    show b.cash - _ + (b.setPosition o.symbol q).total Position.spent = b.startingEquity
    rw [htotal, hspent]
    linarith

theorem levels_spent (eng : BacktestEngine L σ τ) (atr : Option ℚ) (levels : Option (Option ℚ × Option ℚ)) (p : Position) :
    (armFromConfig eng atr (Levels.withLevels p levels)).spent = p.spent ∧
      ((armFromConfig eng atr (Levels.withLevels p levels)).Marked ↔ p.Marked) := by
  rw [Levels.armFromConfig_eq]
  cases levels <;> exact ⟨rfl, Iff.rfl⟩

/-- The book a fill leaves is the one `_apply_to_portfolio` leaves, with levels armed at most. -/
theorem bookFill_sums {o : Order} {f : Fill} (h : Sums cash s.portfolio) (hb : bookFill eng bars o f s = .ok t) :
    Sums cash t.portfolio := by
  unfold bookFill at hb
  cases hp : s.portfolio.applyToPortfolio o f with
  | error e => simp [hp] at hb
  | ok b =>
    have hsums := h.apply hp
    simp only [hp] at hb
    by_cases hflat : (b.position o.symbol).isFlat = true
    · simp only [hflat, if_true, Except.ok.injEq] at hb
      exact hb ▸ hsums
    · simp only [hflat, Bool.false_eq_true, if_false, Except.ok.injEq] at hb
      obtain ⟨hspent, hmarked⟩ := levels_spent eng (atrOf eng bars s o.symbol) (s.protection.get? o.id)
        (b.position o.symbol)
      have hmarked' := hmarked.2 (hsums.marked.position o.symbol)
      subst hb
      cases hlevels : s.protection.get? o.id <;> rw [hlevels] at hspent hmarked' <;>
        exact hsums.setPosition o.symbol hspent hmarked'

theorem ratchet_spent (eng : BacktestEngine L σ τ) (bars : Dict String (List Bar)) (s : EngineState σ τ) (bar : Bar) :
    (ratchet eng bars s bar).2.spent = (s.portfolio.position bar.symbol).spent ∧
      ((s.portfolio.position bar.symbol).Marked → (ratchet eng bars s bar).2.Marked) := by
  obtain ⟨mark, stop, hp⟩ := ratchet_ratcheted eng bars s bar
  rw [hp]
  exact ⟨rfl, id⟩

theorem closeBook_sums (ts : ℤ) (printed : List (String × ℕ × Bar)) (h : Sums cash s.portfolio) :
    Sums cash (closeBook ts printed s).portfolio := by
  suffices hmarks : Sums cash (printed.foldl markClose s).portfolio from ⟨hmarks.balanced, hmarks.marked, hmarks.starting⟩
  induction printed generalizing s with
  | nil => exact h
  | cons x l ih => exact ih (h.remark x.1 x.2.2.close)

/-- **Every act keeps the sums.** -/
theorem Act.sums {i : Deed} (h : Sums cash s.portfolio) (ha : Act eng bars s i t) : Sums cash t.portfolio := by
  have heffect := ha.effect
  have hbook {c : Books} (hc : t.books = c) : t.portfolio = c.portfolio := congrArg Books.portfolio hc
  cases i with
  | aside => exact (hbook heffect).symm ▸ h
  | opened symbol i bar => exact (hbook heffect).symm ▸ h.remark symbol bar.close
  | ratcheted bar =>
    obtain ⟨hspent, hmarked⟩ := ratchet_spent eng bars s bar
    exact (hbook heffect).symm ▸ h.setPosition bar.symbol hspent (hmarked (h.marked.position bar.symbol))
  | filled order fill =>
    obtain ⟨v, hv, hbooks⟩ := heffect
    exact (hbook hbooks).symm ▸ bookFill_sums h hv
  | queued order levels => exact (hbook heffect).symm ▸ h
  | closed ts =>
    obtain ⟨printed, hbooks⟩ := heffect
    exact (hbook hbooks).symm ▸ closeBook_sums ts printed h

/-- A point is only added to the curve, at the close of an instant, and it is the equity of the book there. -/
theorem Act.curve {i : Deed} (ha : Act eng bars s i t) : t.equityCurve = s.equityCurve ∨
    ∃ ts, t.equityCurve = s.equityCurve ++ [(ts, t.portfolio.equity)] := by
  have heffect := ha.effect
  have hbook {c : Books} (hc : t.books = c) : t.equityCurve = c.equityCurve := congrArg Books.equityCurve hc
  cases i with
  | aside => exact .inl (hbook heffect)
  | opened symbol i bar => exact .inl (hbook heffect)
  | ratcheted bar => exact .inl (hbook heffect)
  | filled order fill =>
    obtain ⟨v, hv, hbooks⟩ := heffect
    obtain ⟨-, -, -, hcurve⟩ := bookFill_frame hv
    exact .inl ((hbook hbooks).trans hcurve)
  | queued order levels => exact .inl (hbook heffect)
  | closed ts =>
    obtain ⟨printed, hbooks⟩ := heffect
    rw [hbook hbooks, show t.portfolio = _ from congrArg Books.portfolio hbooks]
    exact .inr ⟨ts, closeBook_curve ts printed s⟩

/-- The state `t` was reached through `u`. -/
def Through (eng : BacktestEngine L σ τ) (bars : Dict String (List Bar)) (s u t : EngineState σ τ) : Prop :=
  ∃ l m, Run (Act eng bars) s l u ∧ Run (Act eng bars) u m t

/-- A point recorded in a state that the run went through is the identity of the book it was recorded from. -/
def Recorded (eng : BacktestEngine L σ τ) (bars : Dict String (List Bar)) (cash : ℚ) (s t : EngineState σ τ)
    (point : ℤ × ℚ) : Prop :=
  ∃ u, Through eng bars s u t ∧ u.equityCurve.getLast? = some point ∧
    point.2 = cash + u.portfolio.realizedPnl + u.portfolio.unrealizedPnl - u.portfolio.feesPaid

theorem Recorded.onward {i : Deed} {point : ℤ × ℚ} (h : Recorded eng bars cash s t point) (ha : Act eng bars t i u) :
    Recorded eng bars cash s u point := by
  obtain ⟨v, ⟨l, m, hl, hm⟩, hpoint⟩ := h
  exact ⟨v, ⟨l, m ++ [i], hl, run_append_iff.2 ⟨t, hm, .cons ha (.nil _)⟩⟩, hpoint⟩

/-- The engine after some instants, whether it returned from them or raised. -/
def afterInstants (eng : BacktestEngine L σ τ) (bars : Dict String (List Bar)) (l : List ℤ) (r : Replay σ τ) :
    EngineState σ τ := (exec (l.forM (stepAt eng bars)) r).2.state

theorem through_sums {rules : σ} {strategy : τ} {m : List Deed} (h : Run (Act eng bars) (Levels.started cash rules strategy).1 m t) :
    Sums cash t.portfolio ∧
      ∀ point ∈ t.equityCurve, Recorded eng bars cash (Levels.started cash rules strategy).1 t point := by
  induction m using List.reverseRecOn generalizing t with
  | nil =>
    rw [← run_nil_iff.1 h]
    refine ⟨⟨?_, by simp [Levels.started, fresh, Portfolio.Marked, Dict.values, Dict.empty], rfl⟩, ?_⟩
    · simp [Levels.started, fresh, Portfolio.Balanced, Portfolio.costBasis, Portfolio.realizedPnl, Portfolio.feesPaid,
        Portfolio.total, Dict.values, Dict.empty]
    · simp [Levels.started, fresh]
  | append_singleton m i ih =>
    obtain ⟨v, hv, hlast⟩ := run_append_iff.1 h
    obtain ⟨w, ha, hw⟩ := run_cons_iff.1 hlast
    rw [run_nil_iff.1 hw] at ha
    obtain ⟨hsums, hpoints⟩ := ih hv
    refine ⟨ha.sums hsums, fun point hpoint => ?_⟩
    rcases ha.curve with hcurve | ⟨ts, hcurve⟩
    · exact (hpoints point (hcurve ▸ hpoint)).onward ha
    · rcases List.mem_append.1 (hcurve ▸ hpoint) with hpoint | hpoint
      · exact (hpoints point hpoint).onward ha
      · rw [List.mem_singleton.1 hpoint]
        exact ⟨t, ⟨m ++ [i], [], h, .nil t⟩, by simp [hcurve], (ha.sums hsums).equity⟩

/-- **The equity identity of a backtest**: in every state a run goes through, whatever it walks and however it ends, cash and
cost come to starting equity plus realised profit less fees; and every point of the curve is starting equity plus realised
and unrealised profit less fees, of the book it was recorded from. -/
theorem equity_identity (eng : BacktestEngine L σ τ) (bars : Dict String (List Bar)) (cash : ℚ) (rules : σ) (strategy : τ)
    (l : List ℤ) :
    let s := (Levels.started cash rules strategy).1
    let t := afterInstants eng bars l { state := s }
    Through eng bars s t t ∧ ∀ u, Through eng bars s u t →
      u.portfolio.cash + u.portfolio.costBasis = cash + u.portfolio.realizedPnl - u.portfolio.feesPaid ∧
        ∀ point ∈ u.equityCurve, Recorded eng bars cash s u point := by
  dsimp only
  obtain ⟨m, hm⟩ : ∃ m, Run (Act eng bars) (Levels.started cash rules strategy).1 m
      (afterInstants eng bars l { state := (Levels.started cash rules strategy).1 }) :=
    triple_left (run_acts l _) ⟨[], .nil _⟩
  refine ⟨⟨m, [], hm, .nil _⟩, fun u ⟨k, _, hk, _⟩ => ?_⟩
  obtain ⟨hsums, hpoints⟩ := through_sums hk
  have hbalanced := hsums.balanced
  unfold Portfolio.Balanced at hbalanced
  exact ⟨hsums.starting ▸ hbalanced, hpoints⟩

end Backtest
end Atp
