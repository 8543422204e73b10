import AlgoTrading.Acts
import AlgoTrading.BacktestExits
/-!
# BarFills — which orders a bar fills, how much of each and at what price

The log of a backtest bar by bar: the bar, then one fill for each quantity asked of it that anything can be filled of, in
order (`Served`).  What is asked is read off the state the bar meets: the protective exit that is due, then the resting
orders its range touches.  A raise cuts the last bar's fills short, and nothing else.
-/
namespace Atp

/-- The better, for a side, of the open of a bar and a limit. -/
def betterOf (side : Side) (limit «open» : ℚ) : ℚ := if side = .buy then min «open» limit else max «open» limit

/-- A touched limit is touched at the better of the open and the limit. -/
theorem intendedPrice_limit {o : Order} {bar : Bar} {through : Bool} {x limit : ℚ}
    (h : intendedPrice o bar through = .ok (some x)) (htype : o.orderType = .limit) (hlimit : o.limitPrice = some limit) :
    x = betterOf o.side limit bar.open := by
  unfold intendedPrice at h
  rw [htype, hlimit] at h
  dsimp only at h
  unfold betterOf
  cases hside : o.side <;> rw [hside] at h <;> dsimp only at h <;> split at h <;> cases h <;> rfl

namespace Backtest

open Raising

section
variable {L σ τ : Type} (eng : BacktestEngine L σ τ) (bars : Dict String (List Bar))

/-- What the protective exit that is due on a bar asks of it. -/
def exitAsk (met : EngineState σ τ) (bar : Bar) : List ℚ :=
  match dueExit eng (met.barsHeld.get? bar.symbol) bar (ratchet eng bars met bar).2 with
  | .ok (some _) => [|met.portfolio.held bar.symbol|]
  | _ => []

/-- What the resting orders touched by a bar ask of it. -/
def restingAsks (bar : Bar) (l : List Order) : List ℚ :=
  (l.filter fun o => o.symbol = bar.symbol && touches o bar).map Order.remainingQty

/-- A bar has something for a quantity. -/
def answered (bar : Bar) (q : ℚ) : Bool := 0 < capped eng q bar

/-- **What is asked of a bar**, from the state it meets. -/
def asksAt (met : EngineState σ τ) (bar : Bar) : List ℚ :=
  (exitAsk eng bars met bar ++ restingAsks bar met.pending).filter (answered eng bar)

/-- An order is executed where its bar touches it: a limit, at the better of the open and the limit. -/
def AtTouch (o : Order) (bar : Bar) (x : ℚ) : Prop :=
  o.orderType = .limit → ∀ limit, o.limitPrice = some limit → x = betterOf o.side limit bar.open

/-- **A fill serves what is asked**: it is the execution, on the bar, of an order of its symbol with that much left. -/
def Serves (bar : Bar) (e : Event σ τ) (q : ℚ) : Prop :=
  ∃ o x before after, e = .booked o (fillFor eng o bar x) before after ∧ o.symbol = bar.symbol ∧ o.remainingQty = q ∧
    0 < fillQty eng o bar ∧ AtTouch o bar x

/-- **The log of a run**, bar by bar. -/
inductive Served : List (Event σ τ) → Prop
  | nil : Served []
  | bar {log fills : List (Event σ τ)} {bar : Bar} {met : EngineState σ τ} (h : Served log)
    (hfills : List.Forall₂ (Serves eng bar) fills (asksAt eng bars met bar)) : Served (log ++ .bar bar met :: fills)

/-- A log whose last bar may have been cut short. -/
def ServedPartly (log : List (Event σ τ)) : Prop :=
  Served eng bars log ∨ ∃ log' fills bar met asks, log = log' ++ .bar bar met :: fills ∧ Served eng bars log' ∧
    asks <+: asksAt eng bars met bar ∧ List.Forall₂ (Serves eng bar) fills asks

end

section
variable {L σ τ : Type} {eng : BacktestEngine L σ τ} {bars : Dict String (List Bar)} {bar : Bar} {r : Replay σ τ}

/-- What has been filled since some state, of what was asked. -/
def Filling (eng : BacktestEngine L σ τ) (bar : Bar) (r : Replay σ τ) (asks : List ℚ) (s : Replay σ τ) : Prop :=
  s.state.pending = r.state.pending ∧ ∃ fills, s.log = r.log ++ fills ∧ List.Forall₂ (Serves eng bar) fills asks

/-- What a raise leaves of it. -/
def FillingPartly (eng : BacktestEngine L σ τ) (bar : Bar) (r : Replay σ τ) (asks : List ℚ) (s : Replay σ τ) : Prop :=
  ∃ fills done, s.log = r.log ++ fills ∧ done <+: asks ∧ List.Forall₂ (Serves eng bar) fills done

theorem Filling.nil {s : Replay σ τ} (h : Still r s) : Filling eng bar r [] s :=
  ⟨h.pending, [], by rw [h.log, List.append_nil], .nil⟩

theorem FillingPartly.still {s : Replay σ τ} (h : s.log = r.log) (asks : List ℚ) : FillingPartly eng bar r asks s :=
  ⟨[], [], by rw [h, List.append_nil], List.nil_prefix, .nil⟩

theorem Filling.quiet {s t : Replay σ τ} {asks : List ℚ} (h : Filling eng bar r asks s) (hlog : t.log = s.log)
    (hpending : t.state.pending = s.state.pending) : Filling eng bar r asks t :=
  ⟨hpending.trans h.1, h.2.imp fun _ hf => ⟨hlog.trans hf.1, hf.2⟩⟩

/-- One stretch of fills after another. -/
theorem Filling.append {s t : Replay σ τ} {asks asks' : List ℚ} (h : Filling eng bar r asks s) (h' : Filling eng bar s asks' t) :
    Filling eng bar r (asks ++ asks') t := by
  obtain ⟨hpending, fills, hlog, hfills⟩ := h
  obtain ⟨hpending', fills', hlog', hfills'⟩ := h'
  exact ⟨hpending'.trans hpending, fills ++ fills', by rw [hlog', hlog, List.append_assoc], List.rel_append hfills hfills'⟩

theorem Filling.partly {s : Replay σ τ} {asks : List ℚ} (h : Filling eng bar r asks s) (more : List ℚ) :
    FillingPartly eng bar r (asks ++ more) s :=
  let ⟨_, fills, hlog, hfills⟩ := h
  ⟨fills, asks, hlog, List.prefix_append _ _, hfills⟩

theorem Filling.append_partly {s t : Replay σ τ} {asks asks' : List ℚ} (h : Filling eng bar r asks s)
    (h' : FillingPartly eng bar s asks' t) : FillingPartly eng bar r (asks ++ asks') t := by
  obtain ⟨-, fills, hlog, hfills⟩ := h
  obtain ⟨fills', done, hlog', hdone, hfills'⟩ := h'
  exact ⟨fills ++ fills', asks ++ done, by rw [hlog', hlog, List.append_assoc], (List.prefix_append_right_inj _).2 hdone,
    List.rel_append hfills hfills'⟩

/-- **One execution** fills what it can of the one quantity it is asked for. -/
theorem execute_filling {o : Order} {x : ℚ} (hsymbol : o.symbol = bar.symbol) (htouch : AtTouch o bar x) :
    Triple (fun s => s = r) (execute eng bars o bar x)
      (fun _ => Filling eng bar r ([o.remainingQty].filter (answered eng bar))) (fun _ s => s.log = r.log) := by
  refine triple_conseq (execute_executed eng bars o bar x r) (fun _ h => h) (fun o' s h => ?_) fun _ s h => h.log
  unfold answered
  obtain ⟨hnone, -, hstill⟩ | ⟨hpos, -, hpending, hlog, -⟩ := h
  · rw [List.filter_cons_of_neg (by simpa [fillable] using hnone.le), List.filter_nil]
    exact .nil hstill
  · rw [List.filter_cons_of_pos (by simpa [fillable] using hpos), List.filter_nil]
    have hqty : 0 < fillQty eng o bar := (lt_max_iff.1 hpos).resolve_left (lt_irrefl _)
    exact ⟨hpending, _, hlog, .cons ⟨o, x, _, _, rfl, hsymbol, rfl, hqty, htouch⟩ .nil⟩

theorem restingAsks_skip {o : Order} {l : List Order} (h : o.symbol ≠ bar.symbol ∨ touches o bar = false) :
    restingAsks bar (o :: l) = restingAsks bar l :=
  congrArg (List.map _) (List.filter_cons_of_neg (by rcases h with h | h <;> simp [h]))

theorem restingAsks_touched {o : Order} {l : List Order} (hsymbol : o.symbol = bar.symbol) (h : touches o bar = true) :
    restingAsks bar (o :: l) = o.remainingQty :: restingAsks bar l :=
  congrArg (List.map _) (List.filter_cons_of_pos (by simp [hsymbol, h]))

/-- **The resting orders of a bar.** -/
theorem fillResting_filling : ∀ (l : List Order) (r : Replay σ τ), Triple (fun s => s = r) (fillResting eng bars bar l)
    (fun _ => Filling eng bar r ((restingAsks bar l).filter (answered eng bar)))
    (fun _ => FillingPartly eng bar r ((restingAsks bar l).filter (answered eng bar)))
  | [], r => triple_pure _ fun s hs => by
    subst hs
    exact .nil (.refl _)
  | o :: rest, r => by
    have hrest := fillResting_filling rest
    have hkept (x : Order) (r : Replay σ τ) : Triple (fun s => s = r)
        (do let resting ← fillResting eng bars bar rest
            return x :: resting)
        (fun _ => Filling eng bar r ((restingAsks bar rest).filter (answered eng bar)))
        (fun _ => FillingPartly eng bar r ((restingAsks bar rest).filter (answered eng bar))) :=
      triple_bind (hrest r) fun resting => triple_pure _ fun _ h => h
    have hexpired (x : Order) (r : Replay σ τ) : Triple (fun s => s = r)
        (do update (EngineState.record x)
            fillResting eng bars bar rest)
        (fun _ => Filling eng bar r ((restingAsks bar rest).filter (answered eng bar)))
        (fun _ => FillingPartly eng bar r ((restingAsks bar rest).filter (answered eng bar))) := by
      refine triple_bind (R := fun _ s => s = { r with state := r.state.record x }) (triple_update _ fun s hs => by rw [hs])
        fun _ => ?_
      exact triple_conseq (hrest _) (fun _ h => h) (fun _ _ h => h) fun _ _ h => h
    unfold fillResting
    refine triple_ite (fun hne => ?_) (fun heq => ?_)
    · rw [restingAsks_skip (.inl hne)]
      exact hkept o r
    have hsym : o.symbol = bar.symbol := not_not.1 heq
    refine triple_bind (R := fun price s => s = r ∧ intendedPrice o bar false = .ok price)
      (triple_fromExcept _ (fun price hp s hs => ⟨hs, hp⟩) (fun _ _ s hs => .still (congrArg Replay.log hs) _))
      fun price => ?_
    refine triple_at fun s hs => ?_
    obtain ⟨rfl, hprice⟩ := hs
    cases price with
    | none =>
      rw [restingAsks_skip (.inr (by unfold touches; rw [hprice]))]
      exact triple_ite (fun _ => hexpired _ s) (fun _ => hkept o s)
    | some price =>
      have htouch : touches o bar = true := by
        unfold touches
        rw [hprice]
      rw [restingAsks_touched hsym htouch, ← List.singleton_append, List.filter_append]
      have hrestAfter {u : Replay σ τ} (hu : Filling eng bar s ([o.remainingQty].filter (answered eng bar)) u)
          {m : Prog (Replay σ τ) Exc (List Order)}
          (hm : Triple (fun v => v = u) m (fun _ => Filling eng bar u ((restingAsks bar rest).filter (answered eng bar)))
            (fun _ => FillingPartly eng bar u ((restingAsks bar rest).filter (answered eng bar)))) :
          Triple (fun v => v = u) m
            (fun _ => Filling eng bar s ([o.remainingQty].filter (answered eng bar) ++
              (restingAsks bar rest).filter (answered eng bar)))
            (fun _ => FillingPartly eng bar s ([o.remainingQty].filter (answered eng bar) ++
              (restingAsks bar rest).filter (answered eng bar))) :=
        triple_conseq hm (fun _ h => h) (fun _ _ h => hu.append h) fun _ _ h => hu.append_partly h
      refine triple_bind (triple_conseq (execute_filling hsym fun htype limit hlimit => intendedPrice_limit hprice htype hlimit)
        (fun _ h => h) (fun _ _ h => h) fun _ u hu => .still hu _) fun o' => ?_
      refine triple_at fun u hu => ?_
      refine triple_ite (fun _ => triple_ite (fun _ => ?_) fun _ => ?_) (fun _ => ?_)
      · exact hrestAfter hu (hexpired _ u)
      · exact hrestAfter hu (hkept o' u)
      · exact hrestAfter hu (hrest u)

/-- **What can be due**: the stop at the worse of it and the open, the target at the better, or the time at the close. -/
theorem dueExit_due {held : Option ℕ} {p : Position} {reason : Purpose} {x : ℚ}
    (h : dueExit eng held bar p = .ok (some (reason, x))) :
    (reason = .stopLoss ∧ shouldTrigger p bar = true ∧ ∃ stop, p.stopLossPrice = some stop ∧
      x = if p.isLong then min bar.open stop else max bar.open stop) ∨
    (reason = .takeProfit ∧ targetHit p bar = true ∧ ∃ target, p.takeProfitPrice = some target ∧
      x = if p.isLong then max bar.open target else min bar.open target) ∨
    (reason = .timeExit ∧ x = bar.close) := by
  unfold dueExit at h
  split at h
  · rename_i stop htrigger hstop
    cases h
    exact .inl ⟨rfl, htrigger, stop, hstop, rfl⟩
  · rename_i target hhit htarget _
    cases h
    exact .inr (.inl ⟨rfl, hhit, target, htarget, rfl⟩)
  · split at h
    · split at h
      · cases h
      · split at h <;> cases h
        exact .inr (.inr ⟨rfl, rfl⟩)
    · cases h

theorem closingOrder_atTouch {id : String} {held : Option ℕ} {p : Position} {due : Purpose × ℚ}
    (h : dueExit eng held bar p = .ok (some due)) : AtTouch (closingOrder eng id bar p due.1) bar due.2 := by
  intro htype limit hlimit
  obtain ⟨reason, x⟩ := due
  have hreason : reason = .takeProfit := by
    by_contra hne
    simp only [closingOrder, if_neg hne] at htype
    split at htype <;> cases htype
  subst hreason
  obtain ⟨hne, -⟩ | ⟨-, -, target, htarget, rfl⟩ | ⟨hne, -⟩ := dueExit_due h
  · cases hne
  · have hp : p.takeProfitPrice = some limit := by simpa [closingOrder] using hlimit
    obtain rfl : limit = target := Option.some.inj (hp.symm.trans htarget)
    cases hp : p.isLong <;> simp [closingOrder, betterOf, hp]
  · cases hne

/-- The state with the bar noted. -/
def noted (bar : Bar) (r : Replay σ τ) : Replay σ τ := { r with log := r.log ++ [.bar bar r.state] }

/-- **The protective exit of a bar.** -/
theorem checkStops_filling (bar : Bar) (r : Replay σ τ) : Triple (fun s => s = r) (checkStops eng bars bar)
    (fun _ => Filling eng bar (noted bar r) ((exitAsk eng bars r.state bar).filter (answered eng bar)))
    (fun _ => FillingPartly eng bar (noted bar r) ((exitAsk eng bars r.state bar).filter (answered eng bar))) := by
  unfold checkStops
  refine triple_observe fun s hs => ?_
  subst hs
  refine triple_bind (R := fun _ u => u = noted bar s) (triple_note _ fun u hu => by rw [hu]; rfl) fun _ => ?_
  refine triple_ite (fun hflat => triple_pure _ fun u hu => ?_) (fun hflat => ?_)
  · -- nothing can be filled of a position that is flat
    have hzero : s.state.portfolio.held bar.symbol = 0 := of_decide_eq_true hflat
    have hnone : (exitAsk eng bars s.state bar).filter (answered eng bar) = [] := by
      unfold exitAsk
      split
      · exact List.filter_cons_of_neg (by simp [answered, capped, hzero])
      · rfl
    rw [hu, hnone]
    exact .nil (.refl _)
  refine triple_bind (triple_conseq (maintainTrailing_still eng bars bar (noted bar s)) (fun _ h => h) (fun _ _ h => h)
    (fun _ u hu => .still hu.log _)) fun _ => ?_
  refine triple_observe fun u hu => ?_
  obtain ⟨hstill, hbars, hpos⟩ := hu
  refine triple_bind (R := fun due v => v = u ∧ dueExit eng (s.state.barsHeld.get? bar.symbol) bar
    (ratchet eng bars s.state bar).2 = .ok due) (triple_fromExcept _ (fun due hdue v hv => ⟨hv, ?_⟩)
      (fun _ _ v hv => hv ▸ .still hstill.log _)) fun due => ?_
  · rw [hbars, hpos] at hdue
    exact hdue
  refine triple_at fun v hv => ?_
  obtain ⟨rfl, hdue⟩ := hv
  cases due with
  | none =>
    have hnone : exitAsk eng bars s.state bar = [] := by
      unfold exitAsk
      rw [hdue]
    rw [hnone]
    exact triple_pure _ fun w hw => hw ▸ .nil hstill
  | some due =>
    have hask : exitAsk eng bars s.state bar = [|s.state.portfolio.held bar.symbol|] := by
      unfold exitAsk
      rw [hdue]
    refine triple_bind (R := fun o w => w = v ∧ o = closingOrder eng (eng.newId v.state.drawn) bar
        (ratchet eng bars s.state bar).2 due.1)
      (triple_fromExcept _ (fun o ho w hw => ⟨hw, (Order.postInit_ok ho).1.trans (by rw [hpos]; rfl)⟩)
        (fun _ _ w hw => hw ▸ .still hstill.log _)) fun o => ?_
    refine triple_at fun w hw => ?_
    obtain ⟨rfl, rfl⟩ := hw
    have hrem : (closingOrder eng (eng.newId w.state.drawn) bar (ratchet eng bars s.state bar).2 due.1).remainingQty =
        |s.state.portfolio.held bar.symbol| := by
      rw [← ratchet_qty eng bars s.state bar]
      exact sub_zero _
    refine triple_bind (R := fun _ q => Still (noted bar s) q) (triple_update _ fun q hq => hq ▸ hstill.trans ⟨rfl, rfl, fun _ => rfl⟩)
      fun _ => ?_
    refine triple_at fun q hq => ?_
    have hfilling : Triple (fun v => v = q) (execute eng bars _ bar due.2) _ _ :=
      execute_filling (o := closingOrder eng (eng.newId w.state.drawn) bar (ratchet eng bars s.state bar).2 due.1) rfl
        (closingOrder_atTouch hdue)
    rw [hrem] at hfilling
    rw [hask]
    refine triple_bind (triple_conseq hfilling (fun _ h => h) (fun _ _ h => h) fun _ u hu => .still (hu.trans hq.log) _)
      fun o' => ?_
    exact triple_update _ fun u hu => ((Filling.nil hq).append hu).quiet rfl rfl

/-- **A bar**, once it is opened: its protective exit, then its resting orders. -/
theorem checkAndFill_filling (bar : Bar) (r : Replay σ τ) : Triple (fun s => s = r)
    (checkStops eng bars bar >>= fun _ => fillPendingFor eng bars bar)
    (fun _ s => ∃ fills, s.log = (noted bar r).log ++ fills ∧ List.Forall₂ (Serves eng bar) fills (asksAt eng bars r.state bar))
    (fun _ => FillingPartly eng bar (noted bar r) (asksAt eng bars r.state bar)) := by
  unfold asksAt
  rw [List.filter_append]
  refine triple_bind (triple_conseq (checkStops_filling bar r) (fun _ h => h) (fun _ _ h => h) fun _ s hs => ?_) fun _ => ?_
  · obtain ⟨fills, done, hlog, hdone, hfills⟩ := hs
    exact ⟨fills, done, hlog, hdone.trans (List.prefix_append _ _), hfills⟩
  unfold fillPendingFor
  refine triple_observe fun s hs => ?_
  have hpending : s.state.pending = r.state.pending := hs.1
  refine triple_bind (triple_conseq (fillResting_filling s.state.pending s) (fun _ h => h) (fun _ _ h => h)
    fun _ u hu => ?_) fun resting => triple_update _ fun u hu => ?_
  · exact hpending ▸ hs.append_partly hu
  · exact hpending ▸ (hs.append hu).2

/-! ## The run -/

/-- What leaves the log alone, whatever the state it reads. -/
theorem log_observe {P : List (Event σ τ) → Prop} {α : Type} {f : EngineState σ τ → Prog (Replay σ τ) Exc α}
    (h : ∀ s, Keeps (fun r => P r.log) (f s)) : Keeps (fun r : Replay σ τ => P r.log) (observe >>= f) :=
  keeps_observe fun r hr => triple_conseq (h r.state) (fun _ hq => hq ▸ hr) (fun _ _ h => h) fun _ _ h => h

variable {P : List (Event σ τ) → Prop}

theorem bookRefusal_log (o : Order) (bar : Bar) (rule : String) (reason : List Piece) :
    Keeps (fun r : Replay σ τ => P r.log) (bookRefusal eng o bar rule reason) := triple_update _ fun _ h => h

theorem queueOrder_log (signal : Signal) (bar : Bar) (side : Side) (qty : ℚ) (purpose : Purpose) :
    Keeps (fun r : Replay σ τ => P r.log) (queueOrder eng signal bar side qty purpose) := by
  unfold queueOrder
  refine keeps_ite (keeps_pure _) (log_observe fun s => keeps_bind (keeps_fromExcept _) fun o => ?_)
  refine keeps_bind (triple_update _ fun _ h => h) fun _ => ?_
  exact keeps_ite (bookRefusal_log _ _ _ _) (triple_update _ fun _ h => h)

theorem handleSignal_log (signal : Signal) (bar : Bar) :
    Keeps (fun r : Replay σ τ => P r.log) (handleSignal eng bars signal bar) := by
  refine triple_at fun r hr => ?_
  refine triple_handleSignal hr (fun _ => hr) (fun _ side => ?_) fun _ => triple_from (queueOrder_log signal bar _ _ .exit) hr
  exact triple_enter (fun _ => hr) (fun qty => triple_from (queueOrder_log _ bar side qty .entry) hr) fun message =>
    triple_from (bookRefusal_log _ _ _ _) hr

theorem signalPhase_log (x : String × ℕ × Bar) : Keeps (fun r : Replay σ τ => P r.log) (signalPhase eng bars x) := by
  exact triple_signalPhase (fun _ _ h => h) (fun _ _ h => h) (fun _ _ h => h) x fun signal => handleSignal_log signal x.2.2

theorem barPhase_served (x : String × ℕ × Bar) : Triple (fun r => Served eng bars r.log) (barPhase eng bars x)
    (fun _ r => Served eng bars r.log) (fun _ r => ServedPartly eng bars r.log) := by
  unfold barPhase
  refine triple_bind (R := fun _ r => Served eng bars r.log) ?_ fun _ => triple_at fun r hr => ?_
  · unfold openBar
    exact triple_observe fun r hr => triple_ite (fun _ => triple_throw _ fun s hs => .inl (hs ▸ hr))
      fun _ => triple_update _ fun s hs => hs ▸ hr
  refine triple_conseq (checkAndFill_filling x.2.2 r) (fun _ h => h) (fun _ s hs => ?_) fun _ s hs => ?_
  · obtain ⟨fills, hlog, hfills⟩ := hs
    rw [hlog, noted, List.append_assoc]
    exact .bar hr hfills
  · obtain ⟨fills, done, hlog, hdone, hfills⟩ := hs
    exact .inr ⟨r.log, fills, x.2.2, r.state, done, by rw [hlog, noted, List.append_assoc]; rfl, hr, hdone, hfills⟩

/-- **A run fills what is asked of its bars**, and a raise cuts short those of the last. -/
theorem run_served : Triple (fun r => Served eng bars r.log) (run eng bars) (fun _ r => Served eng bars r.log)
    (fun _ r => ServedPartly eng bars r.log) := by
  have hpartly {α : Type} {m : Prog (Replay σ τ) Exc α} (h : Keeps (fun r => Served eng bars r.log) m) :
      Triple (fun r => Served eng bars r.log) m (fun _ r => Served eng bars r.log) (fun _ r => ServedPartly eng bars r.log) :=
    triple_conseq h (fun _ h => h) (fun _ _ h => h) fun _ _ h => .inl h
  refine triple_forM _ fun ts _ => ?_
  unfold stepAt
  refine triple_bind (R := fun _ r => Served eng bars r.log) (triple_update _ fun _ h => h) fun _ => ?_
  refine triple_bind (triple_forM _ fun x _ => barPhase_served x) fun _ => ?_
  refine triple_bind (R := fun _ r => Served eng bars r.log) (triple_update _ fun _ h => h) fun _ => ?_
  exact triple_forM _ fun x _ => hpartly (signalPhase_log x)

end

end Backtest
end Atp
