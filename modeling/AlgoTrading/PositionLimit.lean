import Mathlib.Data.Finset.Card
import AlgoTrading.HoldingAges
import AlgoTrading.RuleWindows
/-!
# PositionLimit — how many positions a rule set holds at once

`_entry_signals` counts the symbols of the universe that are held, and an entry of the same bar that still waits in the
queue is not one of them.  What is held and what rests are counted together here: nothing but an entry adds to the two, so
the limit holds over a run whose entries find room beside both (`limit_kept`).
-/
namespace Atp
namespace Backtest
namespace PositionLimit

open Raising

variable {L σ τ : Type}

/-! ## Positions as the log records them -/

/-- The symbol a logged fill moved. -/
def traded : Event σ τ → Option String
  | .bar _ _ => none
  | .booked o _ _ _ => some o.symbol

/-- What is held of a symbol after an event. -/
def recorded (symbol : String) (held : ℚ) : Event σ τ → ℚ
  | .bar _ _ => held
  | .booked o _ _ after => if symbol = o.symbol then after else held

/-- What a log says is held of a symbol. -/
def holding (log : List (Event σ τ)) (symbol : String) : ℚ := log.foldl (recorded symbol) 0

/-- The positions open after a log. -/
def openIn (log : List (Event σ τ)) : Finset String := (log.filterMap traded).toFinset.filter fun symbol => holding log symbol ≠ 0

/-- An event agrees with the log before it: the book a bar met, and what a fill moved its position from. -/
def Agrees (pre : List (Event σ τ)) : Event σ τ → Prop
  | .bar _ met => ∀ symbol, met.portfolio.held symbol = holding pre symbol
  | .booked o _ before _ => before = holding pre o.symbol

/-- **The log is the history of the book.** -/
def Traced (log : List (Event σ τ)) : Prop := ∀ pre e post, log = pre ++ e :: post → Agrees pre e

/-- The symbols held or with an order in the queue. -/
def busy (s : EngineState σ τ) : Finset String :=
  ((s.portfolio.positions.keys.filter fun symbol => s.portfolio.held symbol ≠ 0) ++ s.pending.map Order.symbol).toFinset

theorem mem_busy {s : EngineState σ τ} {symbol : String} :
    symbol ∈ busy s ↔ s.portfolio.held symbol ≠ 0 ∨ ∃ o ∈ s.pending, o.symbol = symbol := by
  have hkeys : s.portfolio.held symbol ≠ 0 → symbol ∈ s.portfolio.positions.keys := by
    intro h
    rw [Dict.mem_keys_iff, Option.isSome_iff_ne_none]
    exact fun hnone => h (Portfolio.held_none _ hnone)
  simp only [busy, List.mem_toFinset, List.mem_append, List.mem_filter, decide_eq_true_eq, List.mem_map]
  exact or_congr_left ⟨fun h => h.2, fun h => ⟨hkeys h, h⟩⟩

/-! ## The condition -/

section
variable (eng : BacktestEngine L σ τ) (bars : Dict String (List Bar)) (n : ℕ)

/-- The strategy asks for an entry at a bar, past its warm-up. -/
def asksEntry (r : Replay σ τ) (x : String × ℕ × Bar) : Bool :=
  decide (eng.config.warmupBars.getD eng.strategy.warmupBars < (r.state.seen.get? x.1).getD 0) &&
    match (eng.strategy.onBar (contextOf eng bars r.state) x.2.2 r.state.strategy).1 with
    | .ok signals => signals.any fun signal => signal.action = .enterLong || signal.action = .enterShort
    | .error _ => false

/-- **An entry finds room**: fewer than `n` other symbols are held or queued. -/
def Admits (r : Replay σ τ) (x : String × ℕ × Bar) : Prop :=
  asksEntry eng bars r x = true → ((busy r.state).erase x.2.2.symbol).card < n

instance (r : Replay σ τ) (x : String × ℕ × Bar) : Decidable (Admits eng bars n r x) := inferInstanceAs (Decidable (_ → _))

/-- An instant up to its decisions. -/
def resolved (ts : ℤ) : Prog (Replay σ τ) Exc PUnit := do
  update (openInstant eng ts)
  (eng.config.symbols.filterMap (printedAt bars ts)).forM (barPhase eng bars)
  update (closeBook ts (eng.config.symbols.filterMap (printedAt bars ts)))

/-- Every entry of an instant finds room. -/
def AdmitsAt (r : Replay σ τ) (ts : ℤ) : Prop :=
  After (Along (signalPhase eng bars) (Admits eng bars n) (eng.config.symbols.filterMap (printedAt bars ts)))
    (exec (resolved eng bars ts) r)

instance (r : Replay σ τ) (ts : ℤ) : Decidable (AdmitsAt eng bars n r ts) := inferInstanceAs (Decidable (After _ _))

/-- **Every entry of a run finds room.** -/
def AdmitsAlong : Replay σ τ → Prop := Along (stepAt eng bars) (AdmitsAt eng bars n) (timeline bars)

instance : DecidablePred (AdmitsAlong eng bars n) := inferInstanceAs (DecidablePred (Along _ _ _))

end

/-! ## What a run keeps -/

variable {eng : BacktestEngine L σ τ} {bars : Dict String (List Bar)} {n : ℕ} {r q : Replay σ τ} {o : Order} {bar : Bar}

theorem holding_append (log : List (Event σ τ)) (e : Event σ τ) (symbol : String) :
    holding (log ++ [e]) symbol = recorded symbol (holding log symbol) e := by
  rw [holding, List.foldl_append]
  rfl

/-- **At most `n` symbols are held or queued**, and never were more positions open. -/
structure Within (n : ℕ) (r : Replay σ τ) : Prop where
  held : ∀ symbol, holding r.log symbol = r.held symbol
  traced : Traced r.log
  busy : (busy r.state).card ≤ n
  limited : ∀ pre, pre <+: r.log → (openIn pre).card ≤ n

/-- The log is unchanged, and what is held or queued has only shrunk. -/
theorem Within.quiet (h : Within n r) (hlog : q.log = r.log) (hheld : ∀ symbol, q.held symbol = r.held symbol)
    (hbusy : (PositionLimit.busy q.state).card ≤ n) : Within n q where
  held symbol := by rw [hlog, hheld]; exact h.held symbol
  traced := hlog ▸ h.traced
  busy := hbusy
  limited := hlog ▸ h.limited

theorem busy_still (h : Still r q) : busy q.state = busy r.state := by
  ext symbol
  have hheld : q.state.portfolio.held symbol = r.state.portfolio.held symbol := h.held symbol
  rw [mem_busy, mem_busy, hheld, h.pending]

theorem Within.still (h : Within n r) (hs : Still r q) : Within n q :=
  h.quiet hs.log hs.held (by rw [busy_still hs]; exact h.busy)

/-- **One more event**, on a log that agrees with it. -/
theorem Within.logged {e : Event σ τ} (h : Within n r) (hlog : q.log = r.log ++ [e]) (he : Agrees r.log e)
    (hheld : ∀ symbol, recorded symbol (r.held symbol) e = q.held symbol) (hbusy : PositionLimit.busy q.state ⊆ PositionLimit.busy r.state) :
    Within n q := by
  have hholding : ∀ symbol, holding q.log symbol = q.held symbol := by
    intro symbol
    rw [hlog, holding_append, h.held symbol]
    exact hheld symbol
  have hcard : (PositionLimit.busy q.state).card ≤ n := (Finset.card_le_card hbusy).trans h.busy
  refine ⟨hholding, ?_, hcard, fun pre hpre => ?_⟩
  · intro pre e' post hsplit
    rw [hlog] at hsplit
    rcases HoldingAges.append_split hsplit with ⟨post', -, hold⟩ | ⟨rfl, rfl, -⟩
    · exact h.traced pre e' post' hold
    · exact he
  · rw [hlog, List.prefix_concat_iff] at hpre
    rcases hpre with rfl | hpre
    · refine (Finset.card_le_card fun symbol hmem => ?_).trans hcard
      have hne := (Finset.mem_filter.1 hmem).2
      rw [← hlog, hholding symbol] at hne
      exact mem_busy.2 (.inl hne)
    · exact h.limited pre hpre

/-- A fill of a symbol that is held or queued. -/
theorem Within.executed {x : ℚ} {o' : Order} (h : Within n r) (hx : Executed eng o bar x r o' q) (ho : o.symbol ∈ PositionLimit.busy r.state) :
    Within n q := by
  rcases hx with ⟨-, -, hstill⟩ | ⟨-, -, hpend, hlog, hheld⟩
  · exact h.still hstill
  · refine h.logged hlog (h.held o.symbol).symm (fun symbol => ?_) fun symbol hmem => ?_
    · show (if symbol = o.symbol then _ else _) = _
      rw [hheld symbol]
      by_cases hs : symbol = o.symbol
      · rw [if_pos hs, if_pos hs, hs]
      · rw [if_neg hs, if_neg hs, add_zero]
    · by_cases hs : symbol = o.symbol
      · exact hs ▸ ho
      · rw [mem_busy, hpend] at hmem
        refine mem_busy.2 (hmem.imp_left fun hne => ?_)
        have : q.state.portfolio.held symbol = r.state.portfolio.held symbol + 0 := (hheld symbol).trans (by rw [if_neg hs]; rfl)
        rwa [this, add_zero] at hne

theorem execute_within (o : Order) (bar : Bar) (x : ℚ) (queue : List Order) :
    Triple (fun r => Within n r ∧ o.symbol ∈ busy r.state ∧ r.state.pending = queue) (execute eng bars o bar x)
      (fun o' q => Within n q ∧ o'.symbol = o.symbol ∧ q.state.pending = queue) (fun _ => Within n) := by
  refine triple_at fun r hr => ?_
  obtain ⟨h, ho, hqueue⟩ := hr
  refine triple_conseq (execute_executed eng bars o bar x r) (fun _ h => h) (fun o' q hx => ⟨h.executed hx ho, ?_, ?_⟩)
    fun _ q hstill => h.still hstill
  · rcases hx with ⟨-, rfl, -⟩ | ⟨-, rfl, -⟩
    · rfl
    · exact Order.accumulate_symbol _ _
  · exact (hx.pending).trans hqueue

/-! ## A bar -/

theorem checkStops_within (bar : Bar) : Triple (Within n) (checkStops eng bars bar) (fun _ => Within n) (fun _ => Within n) := by
  unfold checkStops
  refine triple_observe fun r hr => ?_
  have hnoted : Within n { r with log := r.log ++ [.bar bar r.state] } :=
    hr.logged rfl (fun symbol => (hr.held symbol).symm) (fun _ => rfl) (Finset.Subset.refl _)
  refine triple_bind (R := fun _ q => q = { r with log := r.log ++ [.bar bar r.state] }) (triple_note _ fun q hq => hq ▸ rfl)
    fun _ => ?_
  refine triple_ite (fun _ => triple_pure _ fun q hq => hq ▸ hnoted) fun hopen => ?_
  have hsymbol : bar.symbol ∈ busy r.state := by
    refine mem_busy.2 (.inl fun h0 => hopen ?_)
    exact decide_eq_true h0
  refine triple_bind (triple_conseq (maintainTrailing_still eng bars bar _) (fun _ h => h) (fun _ _ h => h.1)
    (fun _ q hq => hnoted.still hq)) fun _ => ?_
  refine triple_observe fun u hu => ?_
  have hwithin : Within n u := hnoted.still hu
  have hbusy : bar.symbol ∈ busy u.state := by
    rw [busy_still hu]
    exact hsymbol
  refine triple_bind (R := fun _ v => v = u) (triple_fromExcept _ (fun _ _ v hv => hv) (fun _ _ v hv => hv ▸ hwithin))
    fun due => ?_
  cases due with
  | none => exact triple_pure _ fun v hv => hv ▸ hwithin
  | some due =>
    refine triple_bind (R := fun o v => v = u ∧ o.symbol = bar.symbol)
      (triple_fromExcept _ (fun o ho v hv => ⟨hv, ?_⟩) (fun _ _ v hv => hv ▸ hwithin)) fun o => ?_
    · rw [(Order.postInit_ok ho).1]
      rfl
    refine triple_bind (R := fun _ v => Within n v ∧ o.symbol ∈ busy v.state ∧ v.state.pending = u.state.pending)
      (triple_update _ fun v hv => ?_) fun _ => ?_
    · obtain ⟨rfl, ho⟩ := hv
      have hdrawn : Still v { v with state := { v.state with drawn := v.state.drawn + 1 } } := ⟨rfl, rfl, fun _ => rfl⟩
      refine ⟨hwithin.still hdrawn, ?_, rfl⟩
      rw [ho, busy_still hdrawn]
      exact hbusy
    · refine triple_bind (execute_within o bar due.2 u.state.pending) fun o' => ?_
      exact triple_update _ fun v hv => hv.1.still ⟨rfl, rfl, fun _ => rfl⟩

theorem record_within (o : Order) (queue : List Order) : Triple (fun r : Replay σ τ => Within n r ∧ r.state.pending = queue)
    (update (EngineState.record o)) (fun _ r => Within n r ∧ r.state.pending = queue) (fun _ => Within n) :=
  triple_update _ fun _ h => ⟨h.1.still ⟨rfl, rfl, fun _ => rfl⟩, h.2⟩

/-- **The resting orders of a bar** fill for symbols of the queue, and what is left rests for symbols of the queue. -/
theorem fillResting_within (bar : Bar) (queue : List Order) : ∀ l : List Order, (∀ o ∈ l, o ∈ queue) →
    Triple (fun r => Within n r ∧ r.state.pending = queue) (fillResting eng bars bar l)
      (fun resting r => Within n r ∧ r.state.pending = queue ∧ ∀ o ∈ resting, ∃ o' ∈ queue, o'.symbol = o.symbol)
      (fun _ => Within n)
  | [], _ => triple_pure _ fun _ h => ⟨h.1, h.2, by simp⟩
  | o :: rest, hl => by
    have ho : o ∈ queue := hl o List.mem_cons_self
    have hrest := fillResting_within bar queue rest fun x hx => hl x (List.mem_cons_of_mem _ hx)
    have hkept (x : Order) (hx : x.symbol = o.symbol) : Triple (fun r => Within n r ∧ r.state.pending = queue)
        (do let resting ← fillResting eng bars bar rest
            return x :: resting)
        (fun resting r => Within n r ∧ r.state.pending = queue ∧ ∀ y ∈ resting, ∃ o' ∈ queue, o'.symbol = y.symbol)
        (fun _ => Within n) := by
      refine triple_bind hrest fun resting => triple_pure _ fun r h => ⟨h.1, h.2.1, fun y hy => ?_⟩
      rcases List.mem_cons.1 hy with rfl | hy
      · exact ⟨o, ho, hx.symm⟩
      · exact h.2.2 y hy
    unfold fillResting
    refine triple_ite (fun _ => hkept o rfl) fun _ => ?_
    refine triple_bind (R := fun _ r => Within n r ∧ r.state.pending = queue)
      (triple_fromExcept _ (fun _ _ r h => h) (fun _ _ r h => h.1)) fun price => ?_
    cases price with
    | none => exact triple_ite (fun _ => triple_bind (record_within _ queue) fun _ => hrest) fun _ => hkept o rfl
    | some price =>
      refine triple_bind (triple_conseq (execute_within o bar price queue) (fun r h => ⟨h.1, ?_, h.2⟩) (fun _ _ h => h)
        fun _ _ h => h) fun o' => ?_
      · exact mem_busy.2 (.inr ⟨o, h.2 ▸ ho, rfl⟩)
      refine triple_at fun r hr => ?_
      obtain ⟨hwithin, hsymbol, hqueue⟩ := hr
      refine triple_from (P := fun r => Within n r ∧ r.state.pending = queue) ?_ ⟨hwithin, hqueue⟩
      refine triple_ite (fun _ => ?_) fun _ => hrest
      exact triple_ite (fun _ => triple_bind (record_within _ queue) fun _ => hrest) fun _ => hkept o' hsymbol

theorem fillPendingFor_within (bar : Bar) : Triple (Within n) (fillPendingFor eng bars bar) (fun _ => Within n) (fun _ => Within n) := by
  unfold fillPendingFor
  refine triple_observe fun r hr => ?_
  refine triple_bind (triple_conseq (fillResting_within bar r.state.pending r.state.pending fun _ h => h)
    (fun q hq => by rw [hq]; exact ⟨hr, rfl⟩) (fun _ _ h => h) (fun _ _ h => h)) fun resting => ?_
  refine triple_update _ fun q hq => ?_
  obtain ⟨hwithin, hqueue, hresting⟩ := hq
  refine hwithin.quiet rfl (fun _ => rfl) ((Finset.card_le_card fun symbol hmem => ?_).trans hwithin.busy)
  rcases mem_busy.1 hmem with hheld | ⟨o, ho, rfl⟩
  · exact mem_busy.2 (.inl hheld)
  · obtain ⟨o', ho', hsymbol⟩ := hresting o ho
    exact mem_busy.2 (.inr ⟨o', hqueue ▸ ho', hsymbol⟩)

theorem barPhase_within (x : String × ℕ × Bar) : Triple (Within n) (barPhase eng bars x) (fun _ => Within n) (fun _ => Within n) := by
  unfold barPhase
  refine triple_bind (R := fun _ => Within n) ?_ fun _ => triple_bind (checkStops_within x.2.2) fun _ => fillPendingFor_within x.2.2
  unfold openBar
  refine triple_observe fun r hr => ?_
  refine triple_ite (fun _ => triple_throw _ fun s hs => hs ▸ hr) fun _ => triple_update _ fun s hs => ?_
  subst hs
  exact hr.still ⟨rfl, rfl, fun t => held_mark _ _ _ t⟩

/-! ## A decision -/

/-- With a symbol's order in the queue, at most `n` symbols are held or queued. -/
def Room (n : ℕ) (symbol : String) (r : Replay σ τ) : Prop := Within n r ∧ (insert symbol (busy r.state)).card ≤ n

theorem queueOrder_within (signal : Signal) (bar : Bar) (side : Side) (qty : ℚ) (purpose : Purpose) :
    Triple (fun r : Replay σ τ => Room n signal.symbol r) (queueOrder eng signal bar side qty purpose) (fun _ => Within n)
      (fun _ => Within n) := by
  unfold queueOrder
  refine triple_ite (fun _ => triple_pure _ fun _ h => h.1) fun _ => ?_
  refine triple_observe fun r hr => ?_
  refine triple_bind (R := fun o q => q = r ∧ o.symbol = signal.symbol)
    (triple_fromExcept _ (fun o ho q hq => ⟨hq, ?_⟩) (fun _ _ q hq => hq ▸ hr.1)) fun o => ?_
  · rw [(Order.postInit_ok ho).1]
    rfl
  refine triple_bind (R := fun _ q => Room n o.symbol q) (triple_update _ fun q hq => ?_) fun _ => ?_
  · obtain ⟨rfl, ho⟩ := hq
    rw [ho]
    exact ⟨hr.1.still ⟨rfl, rfl, fun _ => rfl⟩, hr.2⟩
  refine triple_ite (fun _ => triple_update _ fun q hq => hq.1.still ⟨rfl, rfl, fun _ => rfl⟩) fun _ => triple_update _ fun q hq => ?_
  obtain ⟨size, hsize, -⟩ :=
    validate_order eng.limits eng.rules o r.state.portfolio r.state.pending r.state.rules
  refine hq.1.quiet rfl (fun _ => rfl) ((Finset.card_le_card fun symbol hmem => ?_).trans hq.2)
  rw [Finset.mem_insert, mem_busy]
  rcases mem_busy.1 hmem with hheld | ⟨o', ho', rfl⟩
  · exact .inr (.inl hheld)
  · rcases List.mem_append.1 ho' with ho' | ho'
    · exact .inr (.inr ⟨o', ho', rfl⟩)
    · rw [List.mem_singleton.1 ho', hsize]
      left
      unfold approvedOrder
      split <;> rfl

theorem enter_within (r : Replay σ τ) (signal : Signal) (bar : Bar) (side : Side) (hr : Room n signal.symbol r) :
    Triple (fun q => q = r) (enter eng r.state signal bar side) (fun _ => Within n) (fun _ => Within n) := by
  refine triple_enter (fun _ => hr.1) (fun qty => triple_from (queueOrder_within signal bar side qty .entry) hr)
    fun message => triple_update _ fun q hq => ?_
  rw [hq]
  exact hr.1.still ⟨rfl, rfl, fun _ => rfl⟩

theorem withDerivedStop_symbol (s : EngineState σ τ) (signal : Signal) (bar : Bar) :
    (withDerivedStop eng bars s signal bar).symbol = signal.symbol := by
  unfold withDerivedStop
  split
  · split
    · rfl
    · dsimp only
      split <;> rfl
  · rfl

/-- **An exit finds room by itself**: its symbol is held.  An entry has to be given it. -/
theorem handleSignal_within (signal : Signal) (bar : Bar) : Triple
    (fun r => Within n r ∧ (signal.action = .enterLong ∨ signal.action = .enterShort → Room n signal.symbol r))
    (handleSignal eng bars signal bar) (fun _ => Within n) (fun _ => Within n) := by
  refine triple_at fun r hr => ?_
  obtain ⟨hwithin, hentry⟩ := hr
  refine triple_handleSignal hwithin (fun _ => hwithin) (fun haction side => ?_) fun hopen => ?_
  · refine enter_within r _ bar side ?_
    rw [withDerivedStop_symbol]
    exact hentry haction
  · refine triple_from (queueOrder_within signal bar _ _ .exit) ⟨hwithin, ?_⟩
    have hmem : signal.symbol ∈ busy r.state := mem_busy.2 (.inl hopen)
    rw [Finset.insert_eq_of_mem hmem]
    exact hwithin.busy

/-- A strategy that decides one thing at a bar, about the bar's own symbol. -/
def OneSymbol (strategy : Strategy τ) : Prop :=
  ∀ ctx bar s signals, (strategy.onBar ctx bar s).1 = .ok signals →
    signals = [] ∨ ∃ signal, signals = [signal] ∧ signal.symbol = bar.symbol

theorem signalPhase_within (hone : OneSymbol eng.strategy) (x : String × ℕ × Bar) :
    Triple (fun r => Within n r ∧ Admits eng bars n r x) (signalPhase eng bars x) (fun _ => Within n) (fun _ => Within n) := by
  unfold signalPhase
  refine triple_observe fun r hr => ?_
  obtain ⟨hwithin, hadmits⟩ := hr
  refine triple_bind (R := fun _ q => Still r q) (triple_update _ fun q hq => hq ▸ ⟨rfl, rfl, fun _ => rfl⟩) fun _ => ?_
  refine triple_bind (R := fun signals q => Still r q ∧
      (eng.strategy.onBar (contextOf eng bars r.state) x.2.2 r.state.strategy).1 = .ok signals)
    (triple_fromExcept _ (fun signals hsignals q hq => ⟨hq, hsignals⟩) (fun _ _ q hq => hwithin.still hq)) fun signals => ?_
  refine triple_ite (fun _ => triple_pure _ fun q hq => hwithin.still hq.1) fun hwarm => ?_
  refine triple_at fun q hq => ?_
  obtain ⟨hstill, hsignals⟩ := hq
  refine triple_bind (R := fun _ u => Still r u) (triple_update _ fun u hu => ?_) fun _ => ?_
  · rw [hu]
    exact hstill.trans ⟨rfl, rfl, fun _ => rfl⟩
  rcases hone _ _ _ _ hsignals with rfl | ⟨signal, rfl, hsymbol⟩
  · exact triple_pure _ fun u hu => hwithin.still hu
  · refine triple_bind (triple_conseq (handleSignal_within signal x.2.2) (fun u hu => ⟨hwithin.still hu, fun hentry => ?_⟩)
      (fun _ _ h => h) (fun _ _ h => h)) fun _ => triple_pure _ fun u hu => hu
    refine ⟨hwithin.still hu, ?_⟩
    have hasks : asksEntry eng bars r x = true := by
      unfold asksEntry
      rw [hsignals]
      simp only [List.any_cons, List.any_nil, Bool.or_false, Bool.and_eq_true, decide_eq_true_eq, Bool.or_eq_true]
      exact ⟨not_le.1 hwarm, hentry⟩
    have hinsert : insert x.2.2.symbol (busy r.state) = insert x.2.2.symbol ((busy r.state).erase x.2.2.symbol) := by
      ext symbol
      by_cases h : symbol = x.2.2.symbol <;> simp [h]
    rw [busy_still hu, hsymbol, hinsert, Finset.card_insert_of_notMem (Finset.notMem_erase _ _)]
    exact hadmits hasks

/-! ## The run -/

theorem resolved_within (ts : ℤ) : Triple (Within n) (resolved eng bars ts) (fun _ => Within n) (fun _ => Within n) := by
  unfold resolved
  refine triple_bind (R := fun _ => Within n) (triple_update _ fun r hr => hr.still ?_) fun _ => ?_
  · unfold openInstant
    dsimp only
    split <;> exact ⟨rfl, rfl, fun _ => rfl⟩
  refine triple_bind (triple_forM _ fun x _ => barPhase_within x) fun _ => triple_update _ fun r hr => hr.still ?_
  exact ⟨rfl, (held_closeBook ts _ r.state "").2, fun t => (held_closeBook ts _ r.state t).1⟩

theorem stepAt_eq (ts : ℤ) : stepAt eng bars ts =
    resolved eng bars ts >>= fun _ => (eng.config.symbols.filterMap (printedAt bars ts)).forM (signalPhase eng bars) := by
  simp only [stepAt, resolved, bind_assoc]

theorem stepAt_within (hone : OneSymbol eng.strategy) (ts : ℤ) :
    Triple (fun r => Within n r ∧ AdmitsAt eng bars n r ts) (stepAt eng bars ts) (fun _ => Within n) (fun _ => Within n) := by
  refine triple_at fun r hr => ?_
  obtain ⟨hwithin, hadmits⟩ := hr
  rw [stepAt_eq]
  refine triple_bind (R := fun _ q => Within n q ∧
      Along (signalPhase eng bars) (Admits eng bars n) (eng.config.symbols.filterMap (printedAt bars ts)) q) ?_ fun _ =>
    triple_along (fun x => signalPhase_within hone x) _
  refine triple_conseq (triple_and (triple_from (resolved_within ts) hwithin) (triple_exec _ r)) (fun q hq => ⟨hq, hq⟩)
    (fun a q hq => ⟨hq.1, ?_⟩) (fun _ q hq => hq.1)
  unfold AdmitsAt at hadmits
  rw [hq.2] at hadmits
  exact hadmits

theorem fresh_within {portfolio : Portfolio} (hflat : ∀ symbol, portfolio.held symbol = 0) (rules : σ) (strategy : τ) :
    Within n (fresh portfolio rules strategy) := by
  have hempty : busy (fresh portfolio rules strategy).state = ∅ := by
    ext symbol
    rw [mem_busy]
    simp [fresh, hflat]
  refine ⟨fun symbol => (hflat symbol).symm, fun pre e post h => ?_, by rw [hempty]; exact Nat.zero_le _, fun pre hpre => ?_⟩
  · exact absurd (congrArg List.length h) (by simp [fresh])
  · rw [List.prefix_nil.1 hpre]
    exact Nat.zero_le _

/-! ## Rule sets -/

open Rules (RuleSet RuleSetStrategy Counters compileRuleset)

/-- A compiled rule set as the strategy of an engine. -/
def ruleStrategy (sqrt : ℚ → ℚ) (signalId : ℕ → String) (x : RuleSetStrategy) : Strategy Counters where
  name := x.spec.name
  warmupBars := x.spec.requiredWarmup.toOption.getD 0
  onBar ctx bar c := exec (Rules.onBar sqrt signalId x ctx bar) c

section
variable (sqrt : ℚ → ℚ) (signalId : ℕ → String) (x : RuleSetStrategy)

/-- Nothing, or one signal of a symbol. -/
def Decision (symbol : String) (signals : List Signal) : Prop := signals = [] ∨ ∃ signal, signals = [signal] ∧ signal.symbol = symbol

theorem signal_decision (ctx : BacktestContext) (bar : Bar) (action : SignalAction) :
    Triple (fun _ => True) (Rules.signal signalId x ctx bar action) (fun signals _ => Decision bar.symbol signals)
      (fun _ _ => True) := by
  unfold Rules.signal
  refine triple_get_bind fun c _ => triple_bind (R := fun _ _ => True) (triple_modify _ fun _ _ => trivial) fun _ => ?_
  exact triple_pure _ fun _ _ => .inr ⟨_, rfl, rfl⟩

theorem quiet_decision (symbol : String) : Triple (fun _ : Counters => True) (pure [] : Prog Counters Exc (List Signal))
    (fun signals _ => Decision symbol signals) (fun _ _ => True) := triple_pure _ fun _ _ => .inl rfl

theorem read_decision {α : Type} (y : Except Exc α) : Triple (fun _ : Counters => True) (fromExcept y) (fun _ _ => True) (fun _ _ => True) :=
  triple_fromExcept _ (fun _ _ _ _ => trivial) (fun _ _ _ _ => trivial)

theorem exitSignals_decision (ctx : BacktestContext) (bar : Bar) (bars : List Bar) (index : ℕ) :
    Triple (fun _ => True) (Rules.exitSignals sqrt signalId x ctx bar bars index) (fun signals _ => Decision bar.symbol signals)
      (fun _ _ => True) := by
  unfold Rules.exitSignals
  refine triple_get_bind fun c _ => triple_from (P := fun _ => True) ?_ trivial
  refine triple_ite (fun _ => signal_decision signalId x ctx bar .exit) fun _ => ?_
  cases x.spec.exit with
  | none => exact quiet_decision _
  | some tree =>
    refine triple_bind (read_decision _) fun held => ?_
    exact triple_ite (fun _ => signal_decision signalId x ctx bar .exit) fun _ => quiet_decision _

theorem entrySignals_decision (ctx : BacktestContext) (bar : Bar) (bars : List Bar) (index : ℕ) :
    Triple (fun _ => True) (Rules.entrySignals sqrt signalId x ctx bar bars index) (fun signals _ => Decision bar.symbol signals)
      (fun _ _ => True) := by
  unfold Rules.entrySignals
  refine triple_get_bind fun c _ => triple_from (P := fun _ => True) ?_ trivial
  refine triple_ite (fun _ => quiet_decision _) fun _ => triple_ite (fun _ => quiet_decision _) fun _ => ?_
  -- the long tree is walked if there is one, and the short one after it
  dsimp only
  split
  all_goals
    refine triple_bind (R := fun (_ : Option Bool) _ => True) ?_ fun long =>
      triple_ite (fun _ => signal_decision signalId x ctx bar .enterLong) fun _ => ?_
    · first | exact triple_pure _ fun _ _ => trivial | exact read_decision _
    · split
      all_goals
        refine triple_bind (R := fun (_ : Option Bool) _ => True) ?_ fun short =>
          triple_ite (fun _ => signal_decision signalId x ctx bar .enterShort) fun _ => quiet_decision _
        first | exact triple_pure _ fun _ _ => trivial | exact read_decision _

theorem onBar_decision (ctx : BacktestContext) (bar : Bar) :
    Triple (fun _ => True) (Rules.onBar sqrt signalId x ctx bar) (fun signals _ => Decision bar.symbol signals)
      (fun _ _ => True) := by
  unfold Rules.onBar
  refine triple_ite (fun _ => quiet_decision _) fun _ => ?_
  refine triple_get_bind fun c _ => triple_bind (R := fun _ _ => True) (triple_modify _ fun _ _ => trivial) fun _ => ?_
  cases Rules.history (ctx.visible bar.symbol) x.window with
  | none => exact quiet_decision _
  | some bars =>
    exact triple_ite (fun _ => entrySignals_decision sqrt signalId x ctx bar bars _) fun _ =>
      exitSignals_decision sqrt signalId x ctx bar bars _

theorem ruleStrategy_oneSymbol : OneSymbol (ruleStrategy sqrt signalId x) := by
  intro ctx bar c signals h
  have hdecided := onBar_decision sqrt signalId x ctx bar c trivial
  rcases hr : exec (Rules.onBar sqrt signalId x ctx bar) c with ⟨_ | decided, t⟩
  · have : (exec (Rules.onBar sqrt signalId x ctx bar) c).1 = .ok signals := h
    rw [hr] at this
    cases this
  · have : (exec (Rules.onBar sqrt signalId x ctx bar) c).1 = .ok signals := h
    rw [hr] at this hdecided
    cases this
    exact hdecided

variable {sqrt signalId x}

/-- **A rule set's limit holds over a run whose entries find room** beside what is held and what is queued: at no point of
its log are more positions open, and the log is what the book went through. -/
theorem limit_kept {spec : RuleSet} (hx : compileRuleset spec = .ok x) (eng : BacktestEngine L σ Counters)
    (hstrategy : eng.strategy = ruleStrategy sqrt signalId x) (bars : Dict String (List Bar)) {portfolio : Portfolio}
    (hflat : ∀ symbol, portfolio.held symbol = 0) (rules : σ)
    (hroom : AdmitsAlong eng bars x.spec.maxConcurrentPositions (fresh portfolio rules {})) :
    (∀ pre, pre <+: (exec (run eng bars) (fresh portfolio rules {})).2.log → (openIn pre).card ≤ spec.maxConcurrentPositions) ∧
      Traced (exec (run eng bars) (fresh portfolio rules {})).2.log ∧
      ∀ symbol, holding (exec (run eng bars) (fresh portfolio rules {})).2.log symbol =
        (exec (run eng bars) (fresh portfolio rules {})).2.held symbol := by
  have hone : OneSymbol eng.strategy := hstrategy ▸ ruleStrategy_oneSymbol sqrt signalId x
  obtain ⟨hspec, -⟩ := Rules.window_covers hx
  have hwithin : Within x.spec.maxConcurrentPositions (exec (run eng bars) (fresh portfolio rules {})).2 :=
    triple_left (triple_along (fun ts => stepAt_within hone ts) (timeline bars)) ⟨fresh_within hflat rules _, hroom⟩
  exact ⟨fun pre hpre => hspec ▸ hwithin.limited pre hpre, hwithin.traced, hwithin.held⟩

end

/-- Long above fifty, out below one, over two symbols. -/
def aboveFifty (slots : ℕ) : RuleSet where
  name := "above fifty"
  «universe» := ["QQQ", "SPY"]
  entryLong := some (.condition ⟨.price .close 0, .gt, .constant 50⟩)
  exit := some (.condition ⟨.price .close 0, .lt, .constant 1⟩)
  maxConcurrentPositions := slots

/-- Ten shares an entry, without costs, stops or a cap that binds. -/
def twoSymbols (slots : ℕ) : BacktestEngine Unit Unit Counters where
  strategy := ruleStrategy id (fun n => toString n) ⟨aboveFifty slots, 1⟩
  config := { symbols := ["QQQ", "SPY"], timeframe := .d1 }
  costModel := { commission := fun _ _ _ => 0, slippage := fun _ _ _ => 0 }
  limits := ()
  rules := []
  anchorSession := fun _ s => s
  positionSizer := some fun _ _ _ => .ok 10
  stopConfig := none
  atr := fun _ _ => none
  newId := fun n => toString n
  text := fun _ => ""

/-- Three days of both at a hundred. -/
def bothDays : Dict String (List Bar) :=
  (Dict.empty.set "QQQ" ([1, 2, 3].map fun day => { Levels.flatDay day 100 1000 with symbol := "QQQ", adjClose := some 100 })).set "SPY"
    ([1, 2, 3].map fun day => { Levels.flatDay day 100 1000 with adjClose := some 100 })

def flatBook : Portfolio := { cash := 10000, startingEquity := 10000 }

/-- Both symbols are entered on one bar, and both entries find a slot. -/
theorem limit_kept_two : (openIn (exec (run (twoSymbols 2) bothDays) (fresh flatBook () {})).2.log).card ≤ 2 :=
  (limit_kept (show compileRuleset (aboveFifty 2) = .ok ⟨aboveFifty 2, 1⟩ from rfl) (twoSymbols 2) rfl bothDays (fun _ => rfl) ()
    (by decide +kernel)).1 _ List.prefix_rfl

/-- **One slot, two positions**: each entry of a bar sees an empty book, and both fill on the next. -/
theorem one_slot_two_positions :
    ¬ ∀ (spec : RuleSet) (x : RuleSetStrategy), compileRuleset spec = .ok x → ∀ (eng : BacktestEngine Unit Unit Counters)
      (sqrt : ℚ → ℚ) (signalId : ℕ → String), eng.strategy = ruleStrategy sqrt signalId x →
      ∀ (gap : ℤ) (given bars : Dict String (List Bar)), prepared eng.config gap given = .ok bars →
      ∀ pre, pre <+: (exec (run eng bars) (fresh flatBook () {})).2.log → (openIn pre).card ≤ spec.maxConcurrentPositions := by
  intro h
  have hlimit := h (aboveFifty 1) _ rfl (twoSymbols 1) id _ rfl 7 bothDays bothDays (by rfl) _ List.prefix_rfl
  revert hlimit
  decide +kernel

end PositionLimit
end Backtest
end Atp
