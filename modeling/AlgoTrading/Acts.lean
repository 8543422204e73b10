import AlgoTrading.BacktestExits
import AlgoTrading.Runs
/-!
# Acts — a backtest as a sequence of acts on its books

Whatever a run does, it does by a handful of acts: it opens a bar, ratchets a stop, books a fill, queues an order with its
levels, closes an instant, or leaves the books alone (`run_acts`).  What every act keeps therefore holds in every state a
run passes through.
-/
namespace Atp
namespace Backtest

open Raising Runs

variable {L σ τ α : Type}

/-- What the acts are about. -/
structure Books where
  portfolio : Portfolio
  protection : Dict String (Option ℚ × Option ℚ)
  cursor : Dict String ℕ
  equityCurve : List (ℤ × ℚ)

def EngineState.books (s : EngineState σ τ) : Books := ⟨s.portfolio, s.protection, s.cursor, s.equityCurve⟩

inductive Deed
  | aside
  | opened (symbol : String) (i : ℕ) (bar : Bar)
  | ratcheted (bar : Bar)
  | filled (order : Order) (fill : Fill)
  | queued (order : Order) (levels : Option ℚ × Option ℚ)
  | closed (ts : ℤ)

section
variable (eng : BacktestEngine L σ τ) (bars : Dict String (List Bar))

def effect (s : EngineState σ τ) : Deed → Books → Prop
  | .aside, b => b = s.books
  | .opened symbol i bar, b => b = { s.books with
      cursor := s.cursor.set symbol i
      portfolio := s.portfolio.setPosition symbol { s.portfolio.position symbol with lastPrice := some bar.close } }
  | .ratcheted bar, b => b = { s.books with portfolio := s.portfolio.setPosition bar.symbol (ratchet eng bars s bar).2 }
  | .filled order fill, b => ∃ t, bookFill eng bars order fill s = .ok t ∧ b = t.books
  | .queued order levels, b => b = { s.books with protection := s.protection.set order.id levels }
  | .closed ts, b => ∃ printed, b = (closeBook ts printed s).books

/-- **One act**: its effect on the books, with signals and warnings only added to. -/
structure Act (s : EngineState σ τ) (i : Deed) (t : EngineState σ τ) : Prop where
  effect : effect eng bars s i t.books
  signals : s.signals <+: t.signals
  warnings : s.warnings <+: t.warnings

/-- The acts of one instant. -/
def Deed.At (ts : ℤ) : Deed → Prop
  | .closed ts' => ts' = ts
  | _ => True

/-- The state is reached from `s` by acts of the instant `ts`. -/
def Acted (ts : ℤ) (s : EngineState σ τ) (r : Replay σ τ) : Prop :=
  ∃ l, Run (Act eng bars) s l r.state ∧ ∀ i ∈ l, i.At ts

variable {eng bars} {ts : ℤ} {s : EngineState σ τ}

theorem Acted.refl (ts : ℤ) (r : Replay σ τ) : Acted eng bars ts r.state r := ⟨[], .nil _, by simp⟩

theorem Acted.act {r q : Replay σ τ} {i : Deed} (h : Acted eng bars ts s r) (hi : i.At ts)
    (ha : Act eng bars r.state i q.state) : Acted eng bars ts s q := by
  obtain ⟨l, hrun, hl⟩ := h
  refine ⟨l ++ [i], run_append_iff.2 ⟨_, hrun, .cons ha (.nil _)⟩, fun j hj => ?_⟩
  rcases List.mem_append.1 hj with hj | hj
  · exact hl j hj
  · rw [List.mem_singleton.1 hj]
    exact hi

/-- What leaves the books, the signals and the warnings. -/
theorem Acted.aside {r q : Replay σ τ} (h : Acted eng bars ts s r) (hb : q.state.books = r.state.books)
    (hs : r.state.signals <+: q.state.signals) (hw : r.state.warnings <+: q.state.warnings) : Acted eng bars ts s q :=
  h.act (i := .aside) trivial ⟨hb, hs, hw⟩

/-- What booking a fill leaves alone. -/
theorem bookFill_frame {o : Order} {f : Fill} {s t : EngineState σ τ} (h : bookFill eng bars o f s = .ok t) :
    t.signals = s.signals ∧ t.warnings = s.warnings ∧ t.cursor = s.cursor ∧ t.equityCurve = s.equityCurve := by
  unfold bookFill at h
  cases hp : s.portfolio.applyToPortfolio o f with
  | error e => simp [hp] at h
  | ok p =>
    simp only [hp] at h
    split at h <;> cases h <;> exact ⟨rfl, rfl, rfl, rfl⟩

theorem keeps_observe {I : Replay σ τ → Prop} {f : EngineState σ τ → Prog (Replay σ τ) Exc α}
    (h : ∀ r, I r → Triple (fun s => s = r) (f r.state) (fun _ => I) (fun _ => I)) : Keeps I (observe >>= f) :=
  triple_observe h

/-! ## The engine's statements as acts -/

theorem execute_acted (o : Order) (bar : Bar) (intended : ℚ) : Keeps (Acted eng bars ts s) (execute eng bars o bar intended) := by
  unfold execute
  refine keeps_ite (keeps_throw _) ?_
  refine keeps_bind (triple_update _ fun _ h => ?_) fun _ => ?_
  · refine h.aside ?_ ?_ ?_ <;> unfold warnCapped <;> split <;> simp [EngineState.warn, EngineState.books]
  refine keeps_ite (keeps_pure _) ?_
  refine keeps_bind (keeps_fromExcept _) fun o' => ?_
  refine keeps_observe fun r hr => ?_
  refine triple_bind (R := fun t q => q = r ∧ bookFill eng bars o (fillFor eng o bar intended) r.state = .ok t)
    (triple_fromExcept _ (fun t ht q hq => ⟨hq, ht⟩) (fun _ _ q hq => hq ▸ hr)) fun t => ?_
  refine triple_bind (R := fun _ => Acted eng bars ts s) (triple_update _ ?_) fun _ =>
    triple_bind (R := fun _ => Acted eng bars ts s) (triple_note _ fun q hq => hq) fun _ => triple_pure _ fun q hq => hq
  rintro q ⟨rfl, ht⟩
  obtain ⟨hs, hw, -⟩ := bookFill_frame ht
  exact hr.act (i := .filled o (fillFor eng o bar intended)) trivial ⟨⟨t, ht, rfl⟩, by simp [EngineState.record, hs],
    by simp [EngineState.record, hw]⟩

theorem maintainTrailing_acted (bar : Bar) : Keeps (Acted eng bars ts s) (maintainTrailing eng bars bar) := by
  unfold maintainTrailing
  refine keeps_observe fun r hr => ?_
  refine triple_bind (R := fun _ => Acted eng bars ts s) (triple_update _ ?_) fun _ => ?_
  · rintro q rfl
    exact hr.act (i := .ratcheted bar) trivial ⟨rfl, List.prefix_rfl, List.prefix_rfl⟩
  · cases (ratchet eng bars r.state bar).1 with
    | ok x => exact keeps_pure _
    | error e => exact keeps_ite (keeps_pure _) (keeps_throw _)

theorem record_acted (o : Order) : Keeps (Acted eng bars ts s) (update (EngineState.record o)) :=
  triple_update _ fun _ h => h.aside rfl List.prefix_rfl List.prefix_rfl

theorem checkStops_acted (bar : Bar) : Keeps (Acted eng bars ts s) (checkStops eng bars bar) := by
  unfold checkStops
  refine keeps_observe fun r hr => ?_
  refine triple_bind (R := fun _ => Acted eng bars ts s) (triple_note _ fun q hq => hq ▸ hr) fun _ => ?_
  refine keeps_ite (keeps_pure _) (keeps_bind (maintainTrailing_acted bar) fun _ => ?_)
  refine keeps_observe fun q hq => ?_
  refine triple_bind (R := fun _ => Acted eng bars ts s) (triple_fromExcept _ (fun _ _ t ht => ht ▸ hq)
    (fun _ _ t ht => ht ▸ hq)) fun due => ?_
  cases due with
  | none => exact keeps_pure _
  | some due =>
    refine keeps_bind (keeps_fromExcept _) fun o => ?_
    refine keeps_bind (triple_update _ fun t ht => ht.aside rfl List.prefix_rfl List.prefix_rfl) fun _ => ?_
    exact keeps_bind (execute_acted o bar due.2) fun o' => record_acted o'

theorem fillResting_acted (bar : Bar) : ∀ l : List Order, Keeps (Acted eng bars ts s) (fillResting eng bars bar l)
  | [] => keeps_pure _
  | o :: rest => by
    have hrest := fillResting_acted bar rest
    have hkept (o' : Order) : Keeps (Acted eng bars ts s) (do
        let resting ← fillResting eng bars bar rest
        return o' :: resting) := keeps_bind hrest fun _ => keeps_pure _
    have hexpired (o' : Order) : Keeps (Acted eng bars ts s) (do
        update (EngineState.record o')
        fillResting eng bars bar rest) := keeps_bind (record_acted o') fun _ => hrest
    unfold fillResting
    refine keeps_ite (hkept o) (keeps_bind (keeps_fromExcept _) fun price => ?_)
    cases price with
    | none => exact keeps_ite (hexpired _) (hkept o)
    | some price =>
      exact keeps_bind (execute_acted o bar price) fun o' => keeps_ite (keeps_ite (hexpired _) (hkept o')) hrest

theorem fillPendingFor_acted (bar : Bar) : Keeps (Acted eng bars ts s) (fillPendingFor eng bars bar) := by
  unfold fillPendingFor
  refine keeps_observe fun r hr => ?_
  refine triple_bind (triple_conseq (fillResting_acted bar _) (fun q hq => hq ▸ hr) (fun _ _ h => h) (fun _ _ h => h))
    fun resting => ?_
  exact triple_update _ fun q hq => hq.aside rfl List.prefix_rfl List.prefix_rfl

theorem bookRefusal_acted (o : Order) (bar : Bar) (rule : String) (reason : List Piece) :
    Keeps (Acted eng bars ts s) (bookRefusal eng o bar rule reason) :=
  triple_update _ fun _ h => h.aside rfl List.prefix_rfl (List.prefix_append _ _)

theorem queueOrder_acted (signal : Signal) (bar : Bar) (side : Side) (qty : ℚ) (purpose : Purpose) :
    Keeps (Acted eng bars ts s) (queueOrder eng signal bar side qty purpose) := by
  unfold queueOrder
  refine keeps_ite (keeps_pure _) (keeps_observe fun r hr => ?_)
  refine triple_bind (R := fun _ => Acted eng bars ts s) (triple_fromExcept _ (fun _ _ q hq => hq ▸ hr)
    (fun _ _ q hq => hq ▸ hr)) fun o => ?_
  refine keeps_bind (triple_update _ fun q hq => hq.aside rfl List.prefix_rfl List.prefix_rfl) fun _ => ?_
  refine keeps_ite (bookRefusal_acted _ _ _ _) (triple_update _ fun q hq => ?_)
  let d := validate eng.limits eng.rules o r.state.portfolio r.state.pending r.state.rules
  by_cases hlevels : (signal.stopLossPrice.isSome || signal.takeProfitPrice.isSome) = true
  · refine hq.act (i := .queued (approvedOrder d.1 d.2.1 bar) (signal.stopLossPrice, signal.takeProfitPrice)) trivial
      ⟨?_, List.prefix_rfl, List.prefix_rfl⟩
    simp only [if_pos hlevels]
    rfl
  · refine hq.aside ?_ List.prefix_rfl List.prefix_rfl
    simp only [if_neg hlevels]
    rfl

theorem handleSignal_acted (signal : Signal) (bar : Bar) : Keeps (Acted eng bars ts s) (handleSignal eng bars signal bar) := by
  have hqueue (signal : Signal) (side : Side) (qty : ℚ) (purpose : Purpose) {r : Replay σ τ} (hr : Acted eng bars ts s r) :
      Triple (fun q => q = r) (queueOrder eng signal bar side qty purpose) (fun _ => Acted eng bars ts s)
        (fun _ => Acted eng bars ts s) := triple_from (queueOrder_acted signal bar side qty purpose) hr
  refine triple_at fun r hr => ?_
  refine triple_handleSignal hr (fun _ => hr) (fun _ side => ?_) fun _ => hqueue signal _ _ .exit hr
  refine triple_enter (fun _ => hr) (fun qty => hqueue _ side qty .entry hr) fun message => ?_
  exact triple_from (bookRefusal_acted _ _ _ _) (hr.aside rfl List.prefix_rfl List.prefix_rfl)

theorem barPhase_acted (x : String × ℕ × Bar) : Keeps (Acted eng bars ts s) (barPhase eng bars x) := by
  unfold barPhase
  refine keeps_bind ?_ fun _ => keeps_bind (checkStops_acted x.2.2) fun _ => fillPendingFor_acted x.2.2
  unfold openBar
  refine keeps_observe fun r hr => ?_
  refine triple_ite (fun _ => triple_throw _ fun q hq => hq ▸ hr) (fun _ => triple_update _ fun q hq => ?_)
  rw [hq]
  exact hr.act (i := .opened x.1 x.2.1 x.2.2) trivial ⟨rfl, List.prefix_rfl, List.prefix_rfl⟩

theorem signalPhase_acted (x : String × ℕ × Bar) : Keeps (Acted eng bars ts s) (signalPhase eng bars x) := by
  refine triple_signalPhase (fun _ _ h => h) (fun q _ h => ?_) (fun q _ h => ?_) x fun signal => handleSignal_acted signal x.2.2
  · exact h.aside rfl List.prefix_rfl List.prefix_rfl
  · exact h.aside rfl (List.prefix_append _ _) List.prefix_rfl

/-- What marking to the close leaves alone. -/
theorem marks_frame : ∀ (l : List (String × ℕ × Bar)) (s : EngineState σ τ),
    (l.foldl markClose s).signals = s.signals ∧ (l.foldl markClose s).warnings = s.warnings ∧
      (l.foldl markClose s).equityCurve = s.equityCurve
  | [], _ => ⟨rfl, rfl, rfl⟩
  | x :: l, s => marks_frame l (markClose s x)

theorem closeBook_growth (ts : ℤ) (printed : List (String × ℕ × Bar)) (s : EngineState σ τ) :
    (closeBook ts printed s).signals = s.signals ∧ (closeBook ts printed s).warnings = s.warnings :=
  ⟨(marks_frame printed s).1, (marks_frame printed s).2.1⟩

/-- The point a close adds is the equity of the book it leaves. -/
theorem closeBook_curve (ts : ℤ) (printed : List (String × ℕ × Bar)) (s : EngineState σ τ) :
    (closeBook ts printed s).equityCurve = s.equityCurve ++ [(ts, (closeBook ts printed s).portfolio.equity)] := by
  show (printed.foldl markClose s).equityCurve ++ _ = _
  rw [(marks_frame printed s).2.2]
  rfl

/-- **An instant is a sequence of acts.** -/
theorem stepAt_acted (ts : ℤ) : Keeps (Acted eng bars ts s) (stepAt eng bars ts) := by
  unfold stepAt
  refine keeps_bind (triple_update _ fun r h => ?_) fun _ => ?_
  · obtain ⟨hb, hs, hw⟩ : (openInstant eng ts r.state).books = r.state.books ∧
        (openInstant eng ts r.state).signals = r.state.signals ∧ (openInstant eng ts r.state).warnings = r.state.warnings := by
      unfold openInstant
      dsimp only
      split <;> exact ⟨rfl, rfl, rfl⟩
    exact h.aside hb (hs ▸ List.prefix_rfl) (hw ▸ List.prefix_rfl)
  refine keeps_bind (triple_forM _ fun x _ => barPhase_acted x) fun _ => ?_
  refine keeps_bind (triple_update _ fun r h => ?_) fun _ => triple_forM _ fun x _ => signalPhase_acted x
  obtain ⟨hs, hw⟩ := closeBook_growth ts (eng.config.symbols.filterMap (printedAt bars ts)) r.state
  exact h.act (i := .closed ts) rfl ⟨⟨_, rfl⟩, by simp [hs], by simp [hw]⟩

/-- **Every state a run leaves is reached by acts**, whatever instants it has walked and whether it ends or raises. -/
theorem run_acts (l : List ℤ) (s : EngineState σ τ) :
    Keeps (fun r : Replay σ τ => ∃ m, Run (Act eng bars) s m r.state) (l.forM (stepAt eng bars)) := by
  refine triple_forM _ fun ts _ => triple_at fun r hr => ?_
  obtain ⟨m, hm⟩ := hr
  have hreached (q : Replay σ τ) (h : Acted eng bars ts r.state q) : ∃ m, Run (Act eng bars) s m q.state := by
    obtain ⟨n, hn, -⟩ := h
    exact ⟨m ++ n, run_append_iff.2 ⟨_, hm, hn⟩⟩
  exact triple_conseq (stepAt_acted ts) (fun q hq => hq ▸ Acted.refl ts q) (fun _ q h => hreached q h)
    (fun _ q h => hreached q h)

/-- Before the first bar. -/
def fresh (portfolio : Portfolio) (rules : σ) (strategy : τ) : Replay σ τ :=
  { state := { portfolio := portfolio, rules := rules, strategy := strategy } }

end

end Backtest
end Atp
