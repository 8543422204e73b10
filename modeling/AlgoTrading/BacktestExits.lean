import AlgoTrading.Backtest
/-!
# BacktestExits — what the closing orders of a backtest do to a position

An exit is sized when it is queued and fills at its symbol's next bar, after that bar's own stops.  The invariant is
that whatever rests between two bars of a symbol still fits what is held of it; within a bar, what the earlier closes
take of the position is what an exit may miss.
-/
namespace Atp
namespace Backtest

open Raising

variable {L σ τ α : Type}

/-! ## Rules for the engine's statements -/

theorem triple_observe {P : Replay σ τ → Prop} {f : EngineState σ τ → Prog (Replay σ τ) Exc α}
    {Q : α → Replay σ τ → Prop} {E : Exc → Replay σ τ → Prop}
    (h : ∀ r, P r → Triple (fun s => s = r) (f r.state) Q E) : Triple P (observe >>= f) Q E := by
  intro r hr
  rw [exec_bind]
  exact h r hr r rfl

theorem triple_update {P : Replay σ τ → Prop} {Q : PUnit → Replay σ τ → Prop} {E : Exc → Replay σ τ → Prop}
    (f : EngineState σ τ → EngineState σ τ) (h : ∀ r, P r → Q ⟨⟩ { r with state := f r.state }) :
    Triple P (update f) Q E := h

theorem triple_note {P : Replay σ τ → Prop} {Q : PUnit → Replay σ τ → Prop} {E : Exc → Replay σ τ → Prop}
    (e : Event σ τ) (h : ∀ r, P r → Q ⟨⟩ { r with log := r.log ++ [e] }) : Triple P (note e) Q E := h

/-! ### The decisions -/

section
variable {eng : BacktestEngine L σ τ} {bars : Dict String (List Bar)} {signal : Signal} {bar : Bar} {r : Replay σ τ}
  {Q : Replay σ τ → Prop} {E : Exc → Replay σ τ → Prop}

/-- **The rule of an entry**: it is queued at what it is sized at, or booked as the refusal to size it. -/
theorem triple_enter {side : Side} (hraise : ∀ e, E e r)
    (hqueue : ∀ qty, Triple (fun q => q = r) (queueOrder eng signal bar side qty .entry) (fun _ => Q) E)
    (hrefuse : ∀ message, Triple (fun q => q = { r with state := { r.state with drawn := r.state.drawn + 1 } })
      (bookRefusal eng { signalOrder (eng.newId r.state.drawn) signal bar side 1 .entry with
        orderType := .market, limitPrice := none } bar "sizing" message) (fun _ => Q) E) :
    Triple (fun q => q = r) (enter eng r.state signal bar side) (fun _ => Q) E := by
  unfold enter
  cases eng.positionSizer with
  | none => exact triple_throw _ fun q hq => hq ▸ hraise _
  | some sizer =>
    dsimp only
    cases sizer signal r.state.portfolio bar.close with
    | ok qty => exact hqueue qty
    | error e =>
      refine triple_ite (fun _ => ?_) fun _ => triple_throw _ fun q hq => hq ▸ hraise _
      exact triple_bind (triple_update _ fun q hq => hq ▸ rfl) fun _ => hrefuse e.message

/-- **The rule of `_handle_signal`**: an entry with the derived stop, or an exit of what is held. -/
theorem triple_handleSignal (hstay : Q r) (hraise : ∀ e, E e r)
    (hentry : signal.action = .enterLong ∨ signal.action = .enterShort → ∀ side,
      Triple (fun q => q = r) (enter eng r.state (withDerivedStop eng bars r.state signal bar) bar side) (fun _ => Q) E)
    (hexit : (r.state.portfolio.position signal.symbol).qty ≠ 0 → Triple (fun q => q = r)
      (queueOrder eng signal bar (if (r.state.portfolio.position signal.symbol).isLong then .sell else .buy)
        |(r.state.portfolio.position signal.symbol).qty| .exit) (fun _ => Q) E) :
    Triple (fun q => q = r) (handleSignal eng bars signal bar) (fun _ => Q) E := by
  unfold handleSignal
  refine triple_observe fun s hs => ?_
  subst hs
  cases haction : signal.action with
  | hold => exact triple_pure _ fun q hq => hq ▸ hstay
  | scaleIn => exact triple_throw _ fun q hq => hq ▸ hraise _
  | scaleOut => exact triple_ite (fun _ => triple_pure _ fun q hq => hq ▸ hstay) fun _ => triple_throw _ fun q hq => hq ▸ hraise _
  | enterLong => exact hentry (.inl haction) .buy
  | enterShort => exact hentry (.inr haction) .sell
  | exit =>
    exact triple_ite (fun _ => triple_pure _ fun q hq => hq ▸ hstay) fun hopen => hexit fun h0 => hopen (decide_eq_true h0)

/-- **The rule of a symbol's decisions**: an invariant that does not read the strategy or the signals, and that each signal keeps. -/
theorem triple_signalPhase (hraise : ∀ e q, Q q → E e q)
    (hstrategy : ∀ q x, Q q → Q { q with state := { q.state with strategy := x } })
    (hsignals : ∀ q l, Q q → Q { q with state := { q.state with signals := q.state.signals ++ l } }) (x : String × ℕ × Bar)
    (hhandle : ∀ signal, Triple Q (handleSignal eng bars signal x.2.2) (fun _ => Q) E) :
    Triple Q (signalPhase eng bars x) (fun _ => Q) E := by
  unfold signalPhase
  refine triple_observe fun r hr => ?_
  refine triple_bind (R := fun _ => Q) (triple_update _ fun q hq => hq ▸ hstrategy r _ hr) fun _ => ?_
  refine triple_bind (R := fun _ => Q) (triple_fromExcept _ (fun _ _ _ h => h) fun e _ q h => hraise e q h) fun signals => ?_
  refine triple_ite (fun _ => triple_pure _ fun _ h => h) fun _ => ?_
  exact triple_bind (triple_update _ fun q hq => hsignals q _ hq) fun _ => triple_forM _ fun signal _ => hhandle signal

end

/-- What is held of a symbol. -/
def Replay.held (r : Replay σ τ) (symbol : String) : ℚ := r.state.portfolio.held symbol

/-- Nothing held, resting or logged has changed. -/
structure Still (r s : Replay σ τ) : Prop where
  log : s.log = r.log
  pending : s.state.pending = r.state.pending
  held : ∀ t, s.held t = r.held t

theorem Still.refl (r : Replay σ τ) : Still r r := ⟨rfl, rfl, fun _ => rfl⟩

theorem Still.trans {r s t : Replay σ τ} (h : Still r s) (h' : Still s t) : Still r t :=
  ⟨h'.log.trans h.log, h'.pending.trans h.pending, fun x => (h'.held x).trans (h.held x)⟩

section
variable (eng : BacktestEngine L σ τ) (bars : Dict String (List Bar))

theorem armFromConfig_qty (atr : Option ℚ) (p : Position) : (armFromConfig eng atr p).qty = p.qty := by
  unfold armFromConfig
  split
  · rfl
  · split
    · rfl
    · dsimp only
      split <;> split <;> rfl

/-- Booking a fill moves its symbol by the signed quantity and leaves the resting orders. -/
theorem bookFill_held {o : Order} {f : Fill} {s s' : EngineState σ τ} (h : bookFill eng bars o f s = .ok s') :
    s'.pending = s.pending ∧
      ∀ t, s'.portfolio.held t = s.portfolio.held t + if t = o.symbol then f.qty * o.side.sign else 0 := by
  unfold bookFill at h
  cases hp : s.portfolio.applyToPortfolio o f with
  | error e => simp [hp] at h
  | ok p =>
    have hheld := Portfolio.applyToPortfolio_held hp
    simp only [hp] at h
    split at h
    · simp only [Except.ok.injEq] at h
      subst h
      exact ⟨rfl, hheld⟩
    · simp only [Except.ok.injEq] at h
      subst h
      refine ⟨rfl, fun t => ?_⟩
      rw [← hheld t, Portfolio.held_setPosition]
      by_cases ht : t = o.symbol
      · rw [if_pos ht, armFromConfig_qty, ht]
        split <;> rfl
      · rw [if_neg ht]

/-- How much of a size one bar lets fill. -/
def capped (q : ℚ) (bar : Bar) : ℚ := max 0 (min q (volumeCap eng bar))

/-- How much of an order one bar lets fill. -/
def fillable (o : Order) (bar : Bar) : ℚ := capped eng o.remainingQty bar

theorem fillable_nonneg (o : Order) (bar : Bar) : 0 ≤ fillable eng o bar := le_max_left _ _

theorem capped_le {q : ℚ} {bar : Bar} (h : 0 ≤ q) : capped eng q bar ≤ q := max_le h (min_le_left _ _)

/-- What `_execute` leaves: no fill at all, or the fill the bar allows, booked and logged. -/
def Executed (o : Order) (bar : Bar) (intended : ℚ) (r : Replay σ τ) (o' : Order) (s : Replay σ τ) : Prop :=
  (fillable eng o bar = 0 ∧ o' = o ∧ Still r s) ∨
    (0 < fillable eng o bar ∧ o' = o.accumulate (fillFor eng o bar intended) ∧
      s.state.pending = r.state.pending ∧
      s.log = r.log ++ [.booked o (fillFor eng o bar intended) (r.held o.symbol)
        (r.held o.symbol + fillable eng o bar * o.side.sign)] ∧
      ∀ t, s.held t = r.held t + if t = o.symbol then fillable eng o bar * o.side.sign else 0)

theorem warnCapped_still (o : Order) (bar : Bar) (r : Replay σ τ) :
    Still r { r with state := warnCapped eng o bar r.state } := by
  unfold warnCapped
  split
  · exact ⟨rfl, rfl, fun _ => rfl⟩
  · exact .refl r

theorem execute_executed (o : Order) (bar : Bar) (intended : ℚ) (r : Replay σ τ) :
    Triple (fun s => s = r) (execute eng bars o bar intended) (Executed eng o bar intended r) (fun _ => Still r) := by
  unfold execute
  refine triple_ite (fun _ => triple_throw _ fun s hs => hs ▸ Still.refl r) (fun _ => ?_)
  refine triple_bind (R := fun _ => Still r) (triple_update _ fun s hs => hs ▸ warnCapped_still eng o bar s) fun _ => ?_
  refine triple_ite (fun hq => triple_pure _ fun s hs => .inl ⟨max_eq_left hq, rfl, hs⟩) (fun hq => ?_)
  have hfill : (fillFor eng o bar intended).qty = fillable eng o bar := (max_eq_right (not_le.1 hq).le).symm
  refine triple_bind (R := fun o' s => o' = o.accumulate (fillFor eng o bar intended) ∧ Still r s)
    (triple_fromExcept _ (fun o' ho s hs => ⟨(Order.applyFill_ok.1 ho).2.2, hs⟩) (fun _ _ _ hs => hs)) fun o' => ?_
  refine triple_observe fun s hs => ?_
  obtain ⟨rfl, hstill⟩ := hs
  refine triple_bind (R := fun s' u => u = s ∧ bookFill eng bars o (fillFor eng o bar intended) s.state = .ok s')
    (triple_fromExcept _ (fun s' hs' u hu => ⟨hu, hs'⟩) (fun _ _ u hu => hu ▸ hstill)) fun s' => ?_
  intro u hu
  obtain ⟨rfl, hbook⟩ := hu
  obtain ⟨hpend, hheld⟩ := bookFill_held eng bars hbook
  rw [hfill] at hheld
  have hpos : 0 < fillable eng o bar := lt_of_lt_of_le (not_le.1 hq) (le_max_right _ _)
  refine .inr ⟨hpos, rfl, hpend.trans hstill.pending, ?_, fun t => (hheld t).trans ?_⟩
  · show u.log ++ [.booked o _ (u.held o.symbol) (s'.portfolio.held o.symbol)] = _
    rw [hstill.log, hheld o.symbol, if_pos rfl, ← hstill.held o.symbol]
    rfl
  · rw [← hstill.held t]
    rfl

/-! ## Closing fills -/

/-- The purposes of the orders that close. -/
def closes : Purpose → Bool
  | .exit | .stopLoss | .takeProfit | .timeExit => true
  | _ => false

/-- **A fill that only shrank**: no more is held after it, and not on the other side. -/
def Shrinks (before after : ℚ) : Prop := |after| ≤ |before| ∧ 0 ≤ before * after

instance (before after : ℚ) : Decidable (Shrinks before after) := inferInstanceAs (Decidable (_ ∧ _))

/-- A logged fill that closes only shrank its position. -/
def Event.Shrunk : Event σ τ → Prop
  | .bar _ _ => True
  | .booked o _ before after => closes o.purpose = true → Shrinks before after

instance : DecidablePred (Event.Shrunk (σ := σ) (τ := τ))
  | .bar _ _ => inferInstanceAs (Decidable True)
  | .booked _ _ _ _ => inferInstanceAs (Decidable (_ → _))

/-- Every closing fill of a log only shrank its position. -/
def ExitsShrink (log : List (Event σ τ)) : Prop := ∀ e ∈ log, e.Shrunk

instance (log : List (Event σ τ)) : Decidable (ExitsShrink log) := inferInstanceAs (Decidable (∀ e ∈ log, e.Shrunk))

/-- What a side can close of a holding: all of it if it is the other side's, and less than nothing otherwise. -/
def closable (side : Side) (held : ℚ) : ℚ := -(side.sign : ℚ) * held

theorem closable_add (side side' : Side) (held x : ℚ) :
    closable side (held + x * side'.sign) = closable side held + if side' = side then -x else x := by
  unfold closable
  cases side <;> cases side' <;> simp [Side.sign] <;> ring

theorem shrinks_of_closable {side : Side} {held x : ℚ} (h0 : 0 ≤ x) (h : x ≤ closable side held) :
    Shrinks held (held + x * side.sign) := by
  unfold closable at h
  cases side with
  | sell =>
    simp only [Side.sign, Int.cast_neg, Int.cast_one, neg_neg, one_mul] at h
    have hh : 0 ≤ held := h0.trans h
    have ha : 0 ≤ held + x * ((Side.sell.sign : ℤ) : ℚ) := by simp [Side.sign]; linarith
    refine ⟨?_, mul_nonneg hh ha⟩
    rw [abs_of_nonneg ha, abs_of_nonneg hh]
    simp [Side.sign]
    exact h0
  | buy =>
    simp only [Side.sign, Int.cast_one, neg_mul, one_mul] at h
    have hh : held ≤ 0 := by linarith
    have ha : held + x * ((Side.buy.sign : ℤ) : ℚ) ≤ 0 := by simp [Side.sign]; linarith
    refine ⟨?_, mul_nonneg_of_nonpos_of_nonpos hh ha⟩
    rw [abs_of_nonpos ha, abs_of_nonpos hh]
    simp [Side.sign]
    exact h0

theorem exitsShrink_append {l m : List (Event σ τ)} (hl : ExitsShrink l) (hm : ExitsShrink m) : ExitsShrink (l ++ m) :=
  fun e h => (List.mem_append.1 h).elim (hl e) (hm e)

/-- What the bar's own protective exit takes of the position, if one is due. -/
def protectiveFill (met : EngineState σ τ) (bar : Bar) : ℚ :=
  match dueExit eng (met.barsHeld.get? bar.symbol) bar (ratchet eng bars met bar).2 with
  | .ok (some _) => capped eng |met.portfolio.held bar.symbol| bar
  | _ => 0

/-- Whether a resting order reaches its price on a bar. -/
def touches (o : Order) (bar : Bar) : Bool :=
  match intendedPrice o bar false with
  | .ok (some _) => true
  | _ => false

/-- What the orders of one side fill on a bar. -/
def sideFills (side : Side) (bar : Bar) (l : List Order) : ℚ :=
  (l.map fun o => if touches o bar = true ∧ o.side = side then fillable eng o bar else 0).sum

/-- The orders resting for a bar's symbol, in the order they were queued. -/
def restingFor (bar : Bar) (l : List Order) : List Order := l.filter fun o => o.symbol = bar.symbol

/-- **Room for the exits of a bar**: a resting close that competes, with the bar's own protective exit or with an
earlier order of its side, finds enough of the position left for what it will fill itself. -/
def Room (met : EngineState σ τ) (bar : Bar) : Prop :=
  ∀ i < (restingFor bar met.pending).length, ∀ e ∈ (restingFor bar met.pending)[i]?,
    closes e.purpose = true → touches e bar = true →
    0 < protectiveFill eng bars met bar + sideFills eng e.side bar ((restingFor bar met.pending).take i) →
    protectiveFill eng bars met bar + sideFills eng e.side bar ((restingFor bar met.pending).take i) +
        fillable eng e bar ≤
      closable e.side (met.portfolio.held bar.symbol) +
        sideFills eng e.side.opposite bar ((restingFor bar met.pending).take i)

instance (met : EngineState σ τ) (bar : Bar) : Decidable (Room eng bars met bar) := by
  unfold Room
  infer_instance

/-- There was room on the bar an event met. -/
def EventRoom : Event σ τ → Prop
  | .bar b met => Room eng bars met b
  | .booked _ _ _ _ => True

instance : DecidablePred (EventRoom eng bars)
  | .bar b met => inferInstanceAs (Decidable (Room eng bars met b))
  | .booked _ _ _ _ => inferInstanceAs (Decidable True)

def RoomAlways (log : List (Event σ τ)) : Prop := ∀ e ∈ log, EventRoom eng bars e

instance (log : List (Event σ τ)) : Decidable (RoomAlways eng bars log) :=
  inferInstanceAs (Decidable (∀ e ∈ log, EventRoom eng bars e))

/-- A resting order of a run: good for its symbol's next bar alone, unfilled, and, if it closes, no larger than what
is held on the other side. -/
structure OrderFits (held : String → ℚ) (o : Order) : Prop where
  day : o.timeInForce = .day
  unfilled : o.filledQty = 0
  positive : 0 < o.qty
  fits : closes o.purpose = true → o.qty ≤ closable o.side (held o.symbol)

/-- **The invariant between two bars**: what rests fits, and as long as there was room the closes have only shrunk. -/
structure Sound (r : Replay σ τ) : Prop where
  fits : ∀ o ∈ r.state.pending, OrderFits r.held o
  shrunk : RoomAlways eng bars r.log → ExitsShrink r.log

/-- What a raise leaves of it. -/
def SoundLog (r : Replay σ τ) : Prop := RoomAlways eng bars r.log → ExitsShrink r.log

theorem Sound.still {r s : Replay σ τ} (h : Sound eng bars r) (hs : Still r s) : Sound eng bars s := by
  have hheld : s.held = r.held := funext hs.held
  refine ⟨fun o ho => ?_, by rw [hs.log]; exact h.shrunk⟩
  rw [hheld]
  exact h.fits o (hs.pending ▸ ho)

/-! ## One bar -/

/-- What has been logged since a bar was met: closes that shrank, if there was room. -/
def LoggedSince (r : Replay σ τ) (bar : Bar) (s : Replay σ τ) : Prop :=
  ∃ tail, s.log = r.log ++ .bar bar r.state :: tail ∧ (Room eng bars r.state bar → ExitsShrink tail)

/-- **Inside a bar**: the orders ahead have been resolved, and each side can close what it could at the start less what
the protective exit and its own side took, plus what the other side added. -/
structure MidBar (r : Replay σ τ) (bar : Bar) (ahead : List Order) (s : Replay σ τ) : Prop where
  logged : LoggedSince eng bars r bar s
  pending : s.state.pending = r.state.pending
  others : ∀ t, t ≠ bar.symbol → s.held t = r.held t
  balance : ∀ side, 0 < closable side (r.held bar.symbol) →
    closable side (s.held bar.symbol) = closable side (r.held bar.symbol) - protectiveFill eng bars r.state bar
      - sideFills eng side bar ahead + sideFills eng side.opposite bar ahead

theorem loggedSince_sound {r s : Replay σ τ} {bar : Bar} (hr : SoundLog eng bars r)
    (h : LoggedSince eng bars r bar s) : SoundLog eng bars s := by
  obtain ⟨tail, hlog, hshrunk⟩ := h
  intro hroom
  rw [hlog] at hroom ⊢
  refine exitsShrink_append (hr fun e he => hroom e (List.mem_append_left _ he)) ?_
  intro e he
  rcases List.mem_cons.1 he with rfl | he
  · trivial
  · exact hshrunk (hroom (.bar bar r.state) (by simp)) e he

/-- One execution inside a bar: a closing order has to fit what it can still close. -/
theorem LoggedSince.executed {r s u : Replay σ τ} {bar : Bar} {o o' : Order} {x : ℚ}
    (h : LoggedSince eng bars r bar s) (hx : Executed eng o bar x s o' u)
    (hfit : Room eng bars r.state bar → closes o.purpose = true → fillable eng o bar ≤ closable o.side (s.held o.symbol)) :
    LoggedSince eng bars r bar u := by
  obtain ⟨tail, hlog, hshrunk⟩ := h
  rcases hx with ⟨-, -, hstill⟩ | ⟨hpos, -, -, hulog, -⟩
  · exact ⟨tail, hstill.log.trans hlog, hshrunk⟩
  · refine ⟨tail ++ [_], by rw [hulog, hlog, List.append_assoc, List.cons_append],
      fun hroom => exitsShrink_append (hshrunk hroom) fun e he => ?_⟩
    rw [List.mem_singleton] at he
    subst he
    exact fun hc => shrinks_of_closable hpos.le (hfit hroom hc)

/-- **The ratchet moves the mark and the stop**, and nothing else of the position. -/
theorem ratchet_ratcheted (s : EngineState σ τ) (bar : Bar) :
    Ratcheted (s.portfolio.position bar.symbol) (ratchet eng bars s bar).2 := by
  unfold ratchet
  cases eng.stopConfig with
  | none => exact ⟨_, _, rfl⟩
  | some c => exact triple_left (updateTrailing_ratcheted _ bar c (atrOf eng bars s bar.symbol)) rfl

theorem ratchet_qty (s : EngineState σ τ) (bar : Bar) :
    (ratchet eng bars s bar).2.qty = s.portfolio.held bar.symbol := by
  obtain ⟨mark, stop, hp⟩ := ratchet_ratcheted eng bars s bar
  rw [hp]
  rfl

/-- The ratchet moves levels only. -/
theorem maintainTrailing_still (bar : Bar) (r : Replay σ τ) :
    Triple (fun s => s = r) (maintainTrailing eng bars bar)
      (fun _ s => Still r s ∧ s.state.barsHeld = r.state.barsHeld ∧
        s.state.portfolio.position bar.symbol = (ratchet eng bars r.state bar).2)
      (fun _ => Still r) := by
  unfold maintainTrailing
  refine triple_observe fun s hs => ?_
  subst hs
  have hset (t : String) : (s.state.portfolio.setPosition bar.symbol (ratchet eng bars s.state bar).2).held t =
      s.state.portfolio.held t := by
    rw [Portfolio.held_setPosition, ratchet_qty]
    by_cases ht : t = bar.symbol
    · rw [if_pos ht, ht]
    · rw [if_neg ht]
  refine triple_bind (R := fun _ u => Still s u ∧ u.state.barsHeld = s.state.barsHeld ∧
    u.state.portfolio.position bar.symbol = (ratchet eng bars s.state bar).2) (triple_update _ ?_) fun _ => ?_
  · rintro u rfl
    refine ⟨⟨rfl, rfl, hset⟩, rfl, ?_⟩
    simp [Portfolio.position, Portfolio.setPosition]
  · cases (ratchet eng bars s.state bar).1 with
    | ok x => exact triple_pure _ fun u hu => hu
    | error e => exact triple_ite (fun _ => triple_pure _ fun u hu => hu) (fun _ => triple_throw _ fun u hu => hu.1)

/-- What a protective exit closes: the side is the one that closes what is held, and the size is all of it. -/
theorem closingOrder_closes (id : String) (bar : Bar) (p : Position) (reason : Purpose) (h : p.qty ≠ 0) :
    closable (closingOrder eng id bar p reason).side p.qty = |p.qty| ∧
      ∀ side, 0 < closable side p.qty → side = (closingOrder eng id bar p reason).side := by
  unfold closingOrder closable Position.isLong
  by_cases hp : 0 < p.qty
  · simp only [hp, decide_true, if_true]
    refine ⟨by simp [Side.sign, abs_of_pos hp], fun side hs => ?_⟩
    cases side with
    | sell => rfl
    | buy =>
      simp [Side.sign] at hs
      exact absurd hs (not_lt.2 hp.le)
  · have hneg : p.qty < 0 := lt_of_le_of_ne (not_lt.1 hp) h
    simp only [hp, decide_false, Bool.false_eq_true, if_false]
    refine ⟨by simp [Side.sign, abs_of_neg hneg], fun side hs => ?_⟩
    cases side with
    | buy => rfl
    | sell =>
      simp [Side.sign] at hs
      exact absurd hs hp

/-- What one side can still close, after an execution. -/
theorem Executed.closable {o o' : Order} {bar : Bar} {x : ℚ} {r s : Replay σ τ} (h : Executed eng o bar x r o' s)
    (side : Side) : closable side (s.held o.symbol) =
      closable side (r.held o.symbol) + if o.side = side then -fillable eng o bar else fillable eng o bar := by
  rcases h with ⟨h0, -, hstill⟩ | ⟨-, -, -, -, hheld⟩
  · rw [hstill.held, h0]
    simp
  · rw [hheld, if_pos rfl, closable_add]

theorem Executed.others {o o' : Order} {bar : Bar} {x : ℚ} {r s : Replay σ τ} (h : Executed eng o bar x r o' s)
    {t : String} (ht : t ≠ o.symbol) : s.held t = r.held t := by
  rcases h with ⟨-, -, hstill⟩ | ⟨-, -, -, -, hheld⟩
  · exact hstill.held t
  · rw [hheld, if_neg ht, add_zero]

theorem Executed.pending {o o' : Order} {bar : Bar} {x : ℚ} {r s : Replay σ τ} (h : Executed eng o bar x r o' s) :
    s.state.pending = r.state.pending := by
  rcases h with ⟨-, -, hstill⟩ | ⟨-, -, hpend, -, -⟩
  · exact hstill.pending
  · exact hpend

theorem LoggedSince.still {r s u : Replay σ τ} {bar : Bar} (h : LoggedSince eng bars r bar s) (hs : Still s u) :
    LoggedSince eng bars r bar u := by
  obtain ⟨tail, hlog, hrest⟩ := h
  exact ⟨tail, hs.log.trans hlog, hrest⟩

theorem MidBar.still {r s u : Replay σ τ} {bar : Bar} {ahead : List Order} (h : MidBar eng bars r bar ahead s)
    (hs : Still s u) : MidBar eng bars r bar ahead u where
  logged := h.logged.still eng bars hs
  pending := hs.pending.trans h.pending
  others t ht := (hs.held t).trans (h.others t ht)
  balance side hside := by rw [hs.held, h.balance side hside]

/-- **The protective exit of a bar** only shrinks, and takes what `protectiveFill` says. -/
theorem checkStops_midBar (bar : Bar) (r : Replay σ τ) :
    Triple (fun s => s = r) (checkStops eng bars bar) (fun _ => MidBar eng bars r bar [])
      (fun _ => LoggedSince eng bars r bar) := by
  unfold checkStops
  refine triple_observe fun s hs => ?_
  subst hs
  have hempty (side : Side) : sideFills eng side bar [] = 0 := rfl
  -- the state with the bar noted: nothing of the book has moved yet
  let s₁ : Replay σ τ := { s with log := s.log ++ [.bar bar s.state] }
  have hnoted : LoggedSince eng bars s bar s₁ := ⟨[], rfl, fun _ => by intro e he; cases he⟩
  have unmoved {u : Replay σ τ} (hu : Still s₁ u)
      (h0 : s.held bar.symbol = 0 ∨ protectiveFill eng bars s.state bar = 0) : MidBar eng bars s bar [] u := by
    refine ⟨hnoted.still eng bars hu, hu.pending, fun t _ => hu.held t, fun side hside => ?_⟩
    rcases h0 with h0 | h0
    · rw [h0] at hside
      simp [closable] at hside
    · rw [hu.held, h0, hempty, hempty, sub_zero, sub_zero, add_zero]
      rfl
  refine triple_bind (R := fun _ u => u = s₁) (triple_note _ fun u hu => by rw [hu]) fun _ => ?_
  refine triple_ite (fun hflat => triple_pure _ fun u hu => hu ▸ unmoved (.refl _) (.inl ?_)) (fun hflat => ?_)
  · exact of_decide_eq_true hflat
  refine triple_bind (triple_conseq (maintainTrailing_still eng bars bar s₁) (fun _ h => h) (fun _ _ h => h)
    (fun _ u hu => hnoted.still eng bars hu)) fun _ => ?_
  refine triple_observe fun u hu => ?_
  obtain ⟨hstill, hbars, hpos⟩ := hu
  have hqty : (ratchet eng bars s₁.state bar).2.qty = s.held bar.symbol := ratchet_qty eng bars s.state bar
  refine triple_bind (R := fun due v => v = u ∧ dueExit eng (s.state.barsHeld.get? bar.symbol) bar
    (ratchet eng bars s.state bar).2 = .ok due) (triple_fromExcept _ (fun due hdue v hv => ⟨hv, ?_⟩)
      (fun _ _ v hv => hv ▸ hnoted.still eng bars hstill)) fun due => ?_
  · rw [hbars, hpos] at hdue
    exact hdue
  cases due with
  | none =>
    refine triple_pure _ fun v hv => hv.1 ▸ unmoved hstill (.inr ?_)
    unfold protectiveFill
    rw [hv.2]
  | some due =>
    obtain ⟨reason, price⟩ := due
    refine triple_bind (R := fun o v => v = u ∧ o = closingOrder eng (eng.newId u.state.drawn) bar
        (ratchet eng bars s.state bar).2 reason ∧ protectiveFill eng bars s.state bar = capped eng |s.held bar.symbol| bar)
      (triple_fromExcept _ (fun o ho v hv => ⟨hv.1, ?_, ?_⟩) (fun _ _ v hv => hv.1 ▸ hnoted.still eng bars hstill))
      fun o => ?_
    · rw [(Order.postInit_ok ho).1, hpos]
    · unfold protectiveFill
      rw [hv.2]
      rfl
    refine triple_at fun v hv => ?_
    obtain ⟨rfl, ho, hprot⟩ := hv
    have hne : (ratchet eng bars s.state bar).2.qty ≠ 0 := by
      rw [hqty]
      exact fun h0 => hflat (decide_eq_true h0)
    obtain ⟨hcloses, hside⟩ := closingOrder_closes eng (eng.newId v.state.drawn) bar
      (ratchet eng bars s.state bar).2 reason hne
    rw [← ho] at hcloses hside
    have hrem : o.remainingQty = |s.held bar.symbol| := by
      rw [ho, ← hqty]
      exact sub_zero _
    have hfill : fillable eng o bar = protectiveFill eng bars s.state bar := by
      rw [hprot, fillable, hrem]
    have hsym : o.symbol = bar.symbol := by rw [ho]; rfl
    rw [hqty] at hcloses hside
    refine triple_bind (R := fun _ w => Still s₁ w)
      (triple_update _ fun w hw => hw ▸ hstill.trans ⟨rfl, rfl, fun _ => rfl⟩) fun _ => ?_
    refine triple_at fun w hw => ?_
    refine triple_bind (triple_conseq (execute_executed eng bars o bar price w) (fun _ h => h) (fun _ _ h => h)
      (fun _ x hx => hnoted.still eng bars (hw.trans hx))) fun o' => ?_
    refine triple_update _ fun x hx => MidBar.still eng bars (s := x) ?_ ⟨rfl, rfl, fun _ => rfl⟩
    have hwheld : w.held o.symbol = s.held bar.symbol := by rw [hsym]; exact hw.held bar.symbol
    refine ⟨LoggedSince.executed eng bars (hnoted.still eng bars hw) hx fun _ _ => ?_, hx.pending.trans hw.pending,
      fun t ht => (hx.others eng (hsym ▸ ht)).trans (hw.held t), fun side h0 => ?_⟩
    · rw [hwheld, hcloses, ← hrem]
      exact capped_le eng (hrem ▸ abs_nonneg _)
    · have := hx.closable eng side
      rw [hwheld, hsym] at this
      rw [this, hempty, hempty, if_pos (hside side h0).symm, hfill]
      ring

theorem sideFills_append (side : Side) (bar : Bar) (l m : List Order) :
    sideFills eng side bar (l ++ m) = sideFills eng side bar l + sideFills eng side bar m := by
  simp [sideFills]

theorem sideFills_single (side : Side) (bar : Bar) (o : Order) :
    sideFills eng side bar [o] = if touches o bar = true ∧ o.side = side then fillable eng o bar else 0 := by
  simp [sideFills]

theorem sideFills_nonneg (side : Side) (bar : Bar) (l : List Order) : 0 ≤ sideFills eng side bar l := by
  refine List.sum_nonneg fun x hx => ?_
  obtain ⟨o, -, rfl⟩ := List.mem_map.1 hx
  split
  · exact fillable_nonneg eng o bar
  · exact le_refl 0

theorem protectiveFill_nonneg (met : EngineState σ τ) (bar : Bar) : 0 ≤ protectiveFill eng bars met bar := by
  unfold protectiveFill
  split
  · exact le_max_left _ _
  · exact le_refl 0

/-- An order that does not reach its price leaves the balance of the bar as it was. -/
theorem MidBar.untouched {r s : Replay σ τ} {bar : Bar} {ahead : List Order} {o : Order}
    (h : MidBar eng bars r bar ahead s) (ho : touches o bar = false) : MidBar eng bars r bar (ahead ++ [o]) s where
  logged := h.logged
  pending := h.pending
  others := h.others
  balance side hside := by
    rw [h.balance side hside, sideFills_append, sideFills_append, sideFills_single, sideFills_single, ho]
    simp

/-- An order that does moves it by what it fills. -/
theorem MidBar.executed {r s u : Replay σ τ} {bar : Bar} {ahead : List Order} {o o' : Order} {x : ℚ}
    (h : MidBar eng bars r bar ahead s) (ht : touches o bar = true) (hsym : o.symbol = bar.symbol)
    (hx : Executed eng o bar x s o' u)
    (hfit : Room eng bars r.state bar → closes o.purpose = true → fillable eng o bar ≤ closable o.side (s.held o.symbol)) :
    MidBar eng bars r bar (ahead ++ [o]) u where
  logged := h.logged.executed eng bars hx hfit
  pending := hx.pending.trans h.pending
  others t hne := (hx.others eng (hsym ▸ hne)).trans (h.others t hne)
  balance side hside := by
    have hc := hx.closable eng side
    rw [hsym] at hc
    rw [hc, h.balance side hside, sideFills_append, sideFills_append, sideFills_single, sideFills_single, ht]
    cases hs : o.side <;> cases side <;> simp [Side.opposite] <;> ring

/-- **A resting close fits when its turn comes**: by the invariant if nothing competed with it, by the room it found
otherwise. -/
theorem MidBar.fits {r s : Replay σ τ} {bar : Bar} {ahead behind : List Order} {o : Order}
    (h : MidBar eng bars r bar ahead s) (hrest : restingFor bar r.state.pending = ahead ++ o :: behind)
    (ho : OrderFits r.held o) (hsym : o.symbol = bar.symbol) (ht : touches o bar = true)
    (hroom : Room eng bars r.state bar) (hc : closes o.purpose = true) :
    fillable eng o bar ≤ closable o.side (s.held o.symbol) := by
  have hrem : o.remainingQty = o.qty := by
    unfold Order.remainingQty
    rw [ho.unfilled, sub_zero]
  have hle : fillable eng o bar ≤ o.qty := by
    rw [← hrem]
    exact capped_le eng (hrem ▸ ho.positive.le)
  have hq := ho.fits hc
  rw [hsym] at hq ⊢
  rw [h.balance o.side (lt_of_lt_of_le ho.positive hq)]
  have h0 := protectiveFill_nonneg eng bars r.state bar
  have hs := sideFills_nonneg eng o.side bar ahead
  have hopp := sideFills_nonneg eng o.side.opposite bar ahead
  rcases (add_nonneg h0 hs).eq_or_lt with hfree | hcompeting
  · linarith
  · have htake : (restingFor bar r.state.pending).take ahead.length = ahead := by rw [hrest, List.take_left']; rfl
    have hroom' := hroom ahead.length (by rw [hrest]; simp) o (by rw [hrest]; simp) hc ht
    rw [htake] at hroom'
    have := hroom' hcompeting
    unfold Replay.held
    linarith

/-- **The resting orders of a bar**, one after the other: all of them are gone after it, filled or expired. -/
theorem fillResting_midBar (bar : Bar) (r : Replay σ τ) : ∀ (l ahead : List Order),
    restingFor bar r.state.pending = ahead ++ restingFor bar l → (∀ o ∈ l, OrderFits r.held o) →
    Triple (MidBar eng bars r bar ahead) (fillResting eng bars bar l)
      (fun resting s => resting = l.filter (fun o => o.symbol ≠ bar.symbol) ∧
        MidBar eng bars r bar (ahead ++ restingFor bar l) s)
      (fun _ => LoggedSince eng bars r bar)
  | [], ahead, _, _ => triple_pure _ fun s hs => ⟨rfl, by simpa [restingFor] using hs⟩
  | o :: rest, ahead, hrest, hfits => by
    have ho : OrderFits r.held o := hfits o (by simp)
    have hfits' : ∀ o' ∈ rest, OrderFits r.held o' := fun o' h' => hfits o' (List.mem_cons_of_mem _ h')
    unfold fillResting
    refine triple_ite (fun hne => ?_) (fun heq => ?_)
    · have hskip : restingFor bar (o :: rest) = restingFor bar rest := List.filter_cons_of_neg (by simpa using hne)
      rw [hskip] at hrest ⊢
      refine triple_bind (fillResting_midBar bar r rest ahead hrest hfits') fun resting => ?_
      refine triple_pure _ fun s hs => ⟨?_, hs.2⟩
      rw [hs.1, List.filter_cons_of_pos (by simpa using hne)]
    · have hsym : o.symbol = bar.symbol := not_not.1 heq
      have hkeep : restingFor bar (o :: rest) = o :: restingFor bar rest := List.filter_cons_of_pos (by simpa using hsym)
      have hdrop : (o :: rest).filter (fun o' => o'.symbol ≠ bar.symbol) =
          rest.filter (fun o' => o'.symbol ≠ bar.symbol) := List.filter_cons_of_neg (by simpa using hsym)
      rw [hkeep] at hrest ⊢
      rw [hdrop]
      have hnext : restingFor bar r.state.pending = (ahead ++ [o]) ++ restingFor bar rest := by
        rw [hrest, List.append_assoc, List.singleton_append]
      have hloop := fillResting_midBar bar r rest (ahead ++ [o]) hnext hfits'
      rw [List.append_assoc, List.singleton_append] at hloop
      refine triple_bind (R := fun price s => MidBar eng bars r bar ahead s ∧ touches o bar = price.isSome)
        (triple_fromExcept _ (fun price hp s hs => ⟨hs, ?_⟩) (fun _ _ s hs => hs.logged)) fun price => ?_
      · unfold touches
        rw [hp]
        cases price <;> rfl
      cases price with
      | none =>
        dsimp only
        rw [if_pos ho.day]
        refine triple_bind (R := fun _ => MidBar eng bars r bar (ahead ++ [o])) (triple_update _ fun s hs => ?_)
          fun _ => hloop
        exact (hs.1.untouched eng bars hs.2).still eng bars ⟨rfl, rfl, fun _ => rfl⟩
      | some price =>
        refine triple_at fun s hs => ?_
        obtain ⟨hmid, ht⟩ := hs
        refine triple_bind (R := fun _ => MidBar eng bars r bar (ahead ++ [o]))
          (triple_conseq (execute_executed eng bars o bar price s) (fun _ h => h) (fun o' u hu => ?_)
            (fun _ u hu => hmid.logged.still eng bars hu)) fun o' => ?_
        · exact hmid.executed eng bars ht hsym hu fun hroom hc => hmid.fits eng bars hrest ho hsym ht hroom hc
        · refine triple_ite (fun _ => ?_) (fun _ => hloop)
          rw [if_pos ho.day]
          exact triple_bind (R := fun _ => MidBar eng bars r bar (ahead ++ [o]))
            (triple_update _ fun u hu => hu.still eng bars ⟨rfl, rfl, fun _ => rfl⟩) fun _ => hloop

/-- A bar's stops and fills take a sound state to a sound one. -/
theorem checkAndFill_sound (bar : Bar) : Triple (Sound eng bars) (checkStops eng bars bar >>= fun _ =>
    fillPendingFor eng bars bar) (fun _ => Sound eng bars) (fun _ => SoundLog eng bars) := by
  refine triple_at fun r hr => ?_
  have hlog {s : Replay σ τ} (h : LoggedSince eng bars r bar s) : SoundLog eng bars s :=
    loggedSince_sound eng bars hr.shrunk h
  refine triple_bind (triple_conseq (checkStops_midBar eng bars bar r) (fun _ h => h) (fun _ _ h => h)
    (fun _ s hs => hlog hs)) fun _ => ?_
  unfold fillPendingFor
  refine triple_observe fun s hs => ?_
  rw [hs.pending]
  refine triple_bind (triple_conseq (fillResting_midBar eng bars bar r r.state.pending [] rfl hr.fits)
    (fun u hu => hu ▸ hs) (fun _ _ h => h) (fun _ u hu => hlog hu)) fun resting => ?_
  refine triple_update _ fun u hu => ⟨fun o ho => ?_, hlog hu.2.logged⟩
  obtain ⟨hresting, hmid⟩ := hu
  change o ∈ resting at ho
  rw [hresting, List.mem_filter] at ho
  have hne : o.symbol ≠ bar.symbol := by simpa using ho.2
  obtain ⟨hday, hunfilled, hpos, hfits⟩ := hr.fits o ho.1
  refine ⟨hday, hunfilled, hpos, fun hc => ?_⟩
  show o.qty ≤ closable o.side (u.held o.symbol)
  rw [hmid.others o.symbol hne]
  exact hfits hc

/-- Marking moves no quantity. -/
theorem held_mark (p : Portfolio) (symbol : String) (price : ℚ) (t : String) :
    (p.setPosition symbol { p.position symbol with lastPrice := some price }).held t = p.held t := by
  rw [Portfolio.held_setPosition]
  by_cases ht : t = symbol
  · rw [if_pos ht, ht]
    rfl
  · rw [if_neg ht]

theorem barPhase_sound (x : String × ℕ × Bar) : Triple (Sound eng bars) (barPhase eng bars x)
    (fun _ => Sound eng bars) (fun _ => SoundLog eng bars) := by
  unfold barPhase
  refine triple_bind (R := fun _ => Sound eng bars) ?_ fun _ => checkAndFill_sound eng bars x.2.2
  unfold openBar
  refine triple_observe fun r hr => ?_
  refine triple_ite (fun _ => triple_throw _ fun s hs => hs ▸ hr.shrunk) (fun _ => ?_)
  refine triple_update _ fun s hs => ?_
  subst hs
  exact hr.still eng bars ⟨rfl, rfl, fun t => held_mark _ _ _ t⟩

/-! ## Decisions -/

theorem bookRefusal_sound (o : Order) (bar : Bar) (rule : String) (reason : List Piece) :
    Triple (Sound eng bars) (bookRefusal eng o bar rule reason) (fun _ => Sound eng bars) (fun _ => SoundLog eng bars) :=
  triple_update _ fun _ hs => hs.still eng bars ⟨rfl, rfl, fun _ => rfl⟩

theorem approvedOrder_eq {d : RiskDecision} {o : Order} {bar : Bar} {q : ℚ} (hd : ∀ x ∈ d.adjustedQty, x.1 = q)
    (ho : o.qty = q) : approvedOrder d o bar = { o with status := .submitted, submittedAt := some bar.ts } := by
  unfold approvedOrder
  split
  · rfl
  · rename_i x hx
    rw [hd x hx, ← ho]

/-- A queued order joins what rests, and fits if it was no larger than what its side can close. -/
theorem queueOrder_sound (hrules : ∀ r ∈ eng.rules, r.OnlyShrinks) (signal : Signal) (bar : Bar) (side : Side) (qty : ℚ)
    (purpose : Purpose) (r : Replay σ τ) (hr : Sound eng bars r)
    (hfit : closes purpose = true → qty ≤ closable side (r.held signal.symbol)) :
    Triple (fun s => s = r) (queueOrder eng signal bar side qty purpose) (fun _ => Sound eng bars)
      (fun _ => SoundLog eng bars) := by
  unfold queueOrder
  refine triple_ite (fun _ => triple_pure _ fun s hs => hs ▸ hr) (fun hpos => ?_)
  refine triple_observe fun s hs => ?_
  subst hs
  refine triple_bind (R := fun o u => u = s ∧ o = signalOrder (eng.newId s.state.drawn) signal bar side qty purpose)
    (triple_fromExcept _ (fun o ho u hu => ⟨hu, (Order.postInit_ok ho).1⟩) (fun _ _ u hu => hu ▸ hr.shrunk)) fun o => ?_
  refine triple_at fun u hu => ?_
  obtain ⟨rfl, rfl⟩ := hu
  obtain ⟨q, hq, hle, hvo, hadj⟩ := validate_shrinks eng.limits hrules
    (signalOrder (eng.newId u.state.drawn) signal bar side qty purpose) u.state.portfolio u.state.pending u.state.rules
    (not_le.1 hpos)
  refine triple_bind (R := fun _ w => Still u w) (triple_update _ fun w hw => hw ▸ ⟨rfl, rfl, fun _ => rfl⟩) fun _ => ?_
  refine triple_ite (fun _ => ?_) (fun happ => ?_)
  · exact triple_conseq (bookRefusal_sound eng bars _ bar _ _) (fun w hw => hr.still eng bars hw) (fun _ _ h => h)
      (fun _ _ h => h)
  · refine triple_update _ fun w hw => ?_
    have hw' : Sound eng bars w := hr.still eng bars hw
    refine ⟨fun o ho => ?_, hw'.shrunk⟩
    rcases List.mem_append.1 ho with ho | ho
    · exact hw'.fits o ho
    · rw [List.mem_singleton] at ho
      rw [approvedOrder_eq (fun x hx => hadj (by simpa using happ) x hx) (congrArg Order.qty hvo), hvo] at ho
      subst ho
      refine ⟨rfl, rfl, hq, fun hc => hle.trans ((hfit hc).trans ?_)⟩
      show closable side (u.held signal.symbol) ≤ closable side (w.held signal.symbol)
      rw [hw.held]

theorem enter_sound (hrules : ∀ r ∈ eng.rules, r.OnlyShrinks) (signal : Signal) (bar : Bar) (side : Side)
    (r : Replay σ τ) (hr : Sound eng bars r) :
    Triple (fun s => s = r) (enter eng r.state signal bar side) (fun _ => Sound eng bars) (fun _ => SoundLog eng bars) := by
  refine triple_enter (fun _ => hr.shrunk) (fun qty => ?_) fun message => ?_
  · exact queueOrder_sound eng bars hrules signal bar side qty .entry r hr (fun hc => by cases hc)
  · exact triple_from (bookRefusal_sound eng bars _ bar _ _) (hr.still eng bars ⟨rfl, rfl, fun _ => rfl⟩)

/-- **A signal keeps the book sound**: an exit is sized at what is held, on the side that closes it. -/
theorem handleSignal_sound (hrules : ∀ r ∈ eng.rules, r.OnlyShrinks) (signal : Signal) (bar : Bar) :
    Triple (Sound eng bars) (handleSignal eng bars signal bar) (fun _ => Sound eng bars)
      (fun _ => SoundLog eng bars) := by
  refine triple_at fun r hr => ?_
  refine triple_handleSignal hr (fun _ => hr.shrunk) (fun _ side => enter_sound eng bars hrules _ bar side r hr) fun hne => ?_
  refine queueOrder_sound eng bars hrules signal bar _ _ .exit r hr fun _ => ?_
  exact (closingOrder_closes eng "" bar (r.state.portfolio.position signal.symbol) .exit hne).1.ge

theorem signalPhase_sound (hrules : ∀ r ∈ eng.rules, r.OnlyShrinks) (x : String × ℕ × Bar) :
    Triple (Sound eng bars) (signalPhase eng bars x) (fun _ => Sound eng bars) (fun _ => SoundLog eng bars) := by
  refine triple_signalPhase (fun _ _ h => h.shrunk) (fun q _ h => ?_) (fun q _ h => ?_) x fun signal =>
    handleSignal_sound eng bars hrules signal x.2.2
  · exact h.still eng bars ⟨rfl, rfl, fun _ => rfl⟩
  · exact h.still eng bars ⟨rfl, rfl, fun _ => rfl⟩

/-! ## The whole run -/

theorem held_closeBook (ts : ℤ) (printed : List (String × ℕ × Bar)) (s : EngineState σ τ) (t : String) :
    (closeBook ts printed s).portfolio.held t = s.portfolio.held t ∧ (closeBook ts printed s).pending = s.pending := by
  suffices h : ∀ (l : List (String × ℕ × Bar)) (s : EngineState σ τ),
      (l.foldl markClose s).portfolio.held t = s.portfolio.held t ∧ (l.foldl markClose s).pending = s.pending from
    h printed s
  intro l
  induction l with
  | nil => exact fun s => ⟨rfl, rfl⟩
  | cons x l ih =>
    intro s
    obtain ⟨hheld, hpend⟩ := ih (markClose s x)
    exact ⟨hheld.trans (held_mark _ _ _ t), hpend⟩

theorem stepAt_sound (hrules : ∀ r ∈ eng.rules, r.OnlyShrinks) (ts : ℤ) :
    Triple (Sound eng bars) (stepAt eng bars ts) (fun _ => Sound eng bars) (fun _ => SoundLog eng bars) := by
  unfold stepAt
  refine triple_bind (R := fun _ => Sound eng bars) (triple_update _ fun s hs => hs.still eng bars ?_) fun _ => ?_
  · unfold openInstant
    dsimp only
    split <;> exact ⟨rfl, rfl, fun _ => rfl⟩
  refine triple_bind (triple_forM _ fun x _ => barPhase_sound eng bars x) fun _ => ?_
  refine triple_bind (R := fun _ => Sound eng bars) (triple_update _ fun s hs => hs.still eng bars ?_) fun _ => ?_
  · exact ⟨rfl, (held_closeBook ts _ s.state "").2, fun t => (held_closeBook ts _ s.state t).1⟩
  · exact triple_forM _ fun x _ => signalPhase_sound eng bars hrules x

/-- **Closes of a backtest only shrink, as long as each that competes finds room**: whatever the strategy, the sizer, the
costs, the stops and the bars, and whether the run ends or raises. -/
theorem exits_shrink (hrules : ∀ r ∈ eng.rules, r.OnlyShrinks) (portfolio : Portfolio) (rules : σ) (strategy : τ)
    (hroom : RoomAlways eng bars
      (exec (run eng bars) { state := { portfolio := portfolio, rules := rules, strategy := strategy } }).2.log) :
    ExitsShrink (exec (run eng bars) { state := { portfolio := portfolio, rules := rules, strategy := strategy } }).2.log := by
  have hstart : Sound eng bars { state := { portfolio := portfolio, rules := rules, strategy := strategy } } :=
    ⟨fun o ho => (by cases ho), fun _ => (by intro e he; cases he)⟩
  have h := triple_forM (E := fun _ => SoundLog eng bars) (timeline bars) (fun ts _ => stepAt_sound eng bars hrules ts)
    _ hstart
  unfold run at hroom ⊢
  rcases hr : exec ((timeline bars).forM (stepAt eng bars))
    ({ state := { portfolio := portfolio, rules := rules, strategy := strategy } } : Replay σ τ) with ⟨x, t⟩
  rw [hr] at h hroom
  cases x with
  | ok _ => exact h.shrunk hroom
  | error _ => exact h hroom

end

/-! ## A strategy of one symbol, with a five per cent stop -/

/-- A day of trading at one hundred that dipped to `low`. -/
def dayBar (day : ℤ) (low : ℚ) (h : low ≤ 100) : Bar where
  symbol := "SPY"
  ts := 86400 * day
  timeframe := .d1
  «open» := 100
  high := 100
  low := low
  close := 100
  volume := 1000
  openInside := ⟨h, le_refl _⟩
  closeInside := ⟨h, le_refl _⟩

/-- Buys on its first bar and exits on its second. -/
def buyThenExit : BacktestEngine Unit Unit ℕ where
  strategy :=
    { name := "sample"
      warmupBars := 0
      onBar := fun _ bar n =>
        (.ok (((match n with | 0 => some SignalAction.enterLong | 1 => some .exit | _ => none).toList).map fun action =>
          { strategyId := "sample", symbol := "SPY", action := action, ts := bar.ts, id := "signal" }), n + 1) }
  config := { symbols := ["SPY"], timeframe := .d1 }
  costModel := { commission := fun _ _ _ => 0, slippage := fun _ _ _ => 0 }
  limits := ()
  rules := []
  anchorSession := fun _ s => s
  positionSizer := some fun _ _ _ => .ok 10
  stopConfig := some { stopType := .fixedPct, value := some (1 / 20) }
  atr := fun _ _ => none
  newId := fun n => toString n
  text := fun _ => ""

theorem rat_ninety_le : (90 : ℚ) ≤ 100 := by decide +kernel

def quietDays : Dict String (List Bar) :=
  Dict.empty.set "SPY" [dayBar 1 100 (le_refl _), dayBar 2 100 (le_refl _), dayBar 3 100 (le_refl _)]

def fallingDays : Dict String (List Bar) :=
  Dict.empty.set "SPY" [dayBar 1 100 (le_refl _), dayBar 2 100 (le_refl _), dayBar 3 90 rat_ninety_le]

def freshBook : Replay Unit ℕ :=
  { state := { portfolio := { cash := 10000, startingEquity := 10000 }, rules := (), strategy := 0 } }

theorem exits_shrink_quiet :
    ((exec (run buyThenExit quietDays) freshBook).2.log.any fun
      | .booked o _ before after => o.purpose = .exit ∧ before = 10 ∧ after = 0
      | _ => false) = true ∧
    ExitsShrink (exec (run buyThenExit quietDays) freshBook).2.log :=
  ⟨by decide +kernel, exits_shrink buyThenExit quietDays (by intro r hr; cases hr) _ _ _ (by decide +kernel)⟩

/-- **The stop closes the position and the exit queued the day before opens the other side.** -/
theorem exit_after_stop_reverses :
    ((exec (run buyThenExit fallingDays) freshBook).2.log.any fun
      | .booked o _ before after => o.purpose = .exit ∧ before = 0 ∧ after = -10
      | _ => false) = true ∧
    ¬ExitsShrink (exec (run buyThenExit fallingDays) freshBook).2.log := by
  decide +kernel

end Backtest
end Atp
