import AlgoTrading.OrderFates
/-!
# HoldingAges — what a time stop counts

`_bars_held` is set by the fill that takes a position from flat, grows with every bar of its symbol, and goes when the
position is flat again: a fill that carries the position through zero leaves it the age of the one it closed.  As long as
no position is reversed on a bar after its own, each is counted from its own entry and a time stop of `n` bars exits it on
the `n`-th (`ages_right`).
-/
namespace Atp
namespace Backtest
namespace HoldingAges

open Raising
open TradeAccounts (marks_quiet)
open OrderFates (Fits Fitting BetweenBars fitting_append)

variable {L σ τ α : Type}

/-! ## The age of a position -/

/-- The fill opened the position now held: it took it from flat, or from the other side. -/
def Opens (symbol : String) : Event σ τ → Prop
  | .booked o _ before after => o.symbol = symbol ∧ after ≠ 0 ∧ before * after ≤ 0
  | .bar _ _ => False

def Prints (symbol : String) : Event σ τ → Prop
  | .booked _ _ _ _ => False
  | .bar bar _ => bar.symbol = symbol

instance (symbol : String) : DecidablePred (Opens (σ := σ) (τ := τ) symbol)
  | .booked _ _ _ _ => inferInstanceAs (Decidable (_ ∧ _))
  | .bar _ _ => inferInstanceAs (Decidable False)

instance (symbol : String) : DecidablePred (Prints (σ := σ) (τ := τ) symbol)
  | .booked _ _ _ _ => inferInstanceAs (Decidable False)
  | .bar _ _ => inferInstanceAs (Decidable (_ = _))

/-- **The age of a symbol's position**: its bars since the last fill that opened one. -/
def age (symbol : String) (log : List (Event σ τ)) : ℕ :=
  (log.reverse.takeWhile fun e => !decide (Opens symbol e)).countP fun e => decide (Prints symbol e)

/-- **Every open position is counted from its own entry**, and a flat symbol is not counted. -/
def Aged (log : List (Event σ τ)) (s : EngineState σ τ) : Prop :=
  ∀ symbol, s.barsHeld.get? symbol = if s.portfolio.held symbol = 0 then none else some (age symbol log)

/-- Every bar met its positions at their ages, itself counted. -/
def MetAged (log : List (Event σ τ)) : Prop :=
  ∀ pre bar met post, log = pre ++ .bar bar met :: post → Aged (pre ++ [.bar bar met]) met

/-- A fill that reverses a position does so on the bar that opened it. -/
def SteadyAt (pre : List (Event σ τ)) : Event σ τ → Prop
  | .booked o _ before after => before * after < 0 → age o.symbol pre = 0
  | .bar _ _ => True

/-- **No position is reversed on a bar after its own.** -/
def Steady (log : List (Event σ τ)) : Prop := ∀ pre e post, log = pre ++ e :: post → SteadyAt pre e

section
variable (eng : BacktestEngine L σ τ) (bars : Dict String (List Bar))

/-- A time stop of `n` bars is configured. -/
def TimeStop (n : ℕ) : Prop := 0 < n ∧ ∃ c ∈ eng.stopConfig, c.stopType = .time ∧ c.bars = some (n : ℤ)

/-- **A time stop on time**, on a bar that met an open position: no position is older than `n` bars, none is timed out
before, and one of that age is closed whole before anything else happens on the bar, by a level it touched or by its age. -/
structure OnTime (n : ℕ) (before : List (Event σ τ)) (bar : Bar) (met : EngineState σ τ) (post : List (Event σ τ)) : Prop where
  within : age bar.symbol (before ++ [.bar bar met]) ≤ n
  early : age bar.symbol (before ++ [.bar bar met]) < n →
    ∀ price, dueExit eng (met.barsHeld.get? bar.symbol) bar (ratchet eng bars met bar).2 ≠ .ok (some (.timeExit, price))
  exits : age bar.symbol (before ++ [.bar bar met]) = n →
    ∃ due, dueExit eng (met.barsHeld.get? bar.symbol) bar (ratchet eng bars met bar).2 = .ok (some due) ∧
      ∃ o f rest, post = .booked o f (met.portfolio.held bar.symbol) 0 :: rest ∧ o.symbol = bar.symbol ∧ o.purpose = due.1

/-- Every time stop of a log was on time. -/
def AllOnTime (n : ℕ) (log : List (Event σ τ)) : Prop :=
  ∀ pre bar met post, log = pre ++ .bar bar met :: post → met.portfolio.held bar.symbol ≠ 0 → OnTime eng bars n pre bar met post

end

theorem append_split {β : Type} {l pre post : List β} {x e : β} (h : l ++ [x] = pre ++ e :: post) :
    (∃ post', post = post' ++ [x] ∧ l = pre ++ e :: post') ∨ pre = l ∧ e = x ∧ post = [] := by
  rcases List.eq_nil_or_concat post with rfl | ⟨post', y, rfl⟩
  · obtain ⟨rfl, heq⟩ := List.append_inj' h rfl
    exact .inr ⟨rfl, (List.cons.inj heq).1.symm, rfl⟩
  · rw [List.concat_eq_append, ← List.cons_append, ← List.append_assoc] at h
    obtain ⟨rfl, heq⟩ := List.append_inj' h rfl
    exact .inl ⟨post', by rw [List.concat_eq_append, (List.cons.inj heq).1], rfl⟩

section
variable {eng : BacktestEngine L σ τ} {bars : Dict String (List Bar)} {r q : Replay σ τ} {s : EngineState σ τ}
  {log : List (Event σ τ)} {e : Event σ τ} {o o' : Order} {bar : Bar} {symbol : String} {n : ℕ}

theorem age_append (symbol : String) (log : List (Event σ τ)) (e : Event σ τ) :
    age symbol (log ++ [e]) = if Opens symbol e then 0 else age symbol log + if Prints symbol e then 1 else 0 := by
  unfold age
  rw [List.reverse_append, List.reverse_singleton, List.singleton_append, List.takeWhile_cons]
  by_cases hopens : Opens symbol e
  · simp [hopens]
  · by_cases hprints : Prints symbol e <;> simp [hopens, hprints]

theorem age_bar (symbol : String) (log : List (Event σ τ)) (bar : Bar) (met : EngineState σ τ) :
    age symbol (log ++ [.bar bar met]) = age symbol log + if bar.symbol = symbol then 1 else 0 :=
  age_append symbol log (.bar bar met)

theorem age_other (log : List (Event σ τ)) (f : Fill) (before after : ℚ) (h : symbol ≠ o.symbol) :
    age symbol (log ++ [.booked o f before after]) = age symbol log := by
  have hnot : ¬Opens symbol (.booked o f before after : Event σ τ) := fun hopens => h hopens.1.symm
  rw [age_append, if_neg hnot]
  rfl

/-- A fill starts the age of a position anew, or leaves it. -/
theorem age_booked (log : List (Event σ τ)) (o : Order) (f : Fill) (before after : ℚ) :
    age o.symbol (log ++ [.booked o f before after]) =
      if after ≠ 0 ∧ before * after ≤ 0 then 0 else age o.symbol log := by
  rw [age_append]
  have hopens : Opens o.symbol (.booked o f before after : Event σ τ) ↔ after ≠ 0 ∧ before * after ≤ 0 := and_iff_right rfl
  simp only [hopens]
  rfl

theorem steady_append : Steady (log ++ [e]) ↔ Steady log ∧ SteadyAt log e := by
  constructor
  · intro h
    refine ⟨fun pre x post hlog => h pre x (post ++ [e]) (by rw [hlog]; simp), h log e [] rfl⟩
  · rintro ⟨h, hlast⟩ pre x post hlog
    rcases append_split hlog with ⟨post', -, hsplit⟩ | ⟨rfl, rfl, -⟩
    · exact h pre x post' hsplit
    · exact hlast

theorem steady_bar (met : EngineState σ τ) : Steady (log ++ [.bar bar met]) ↔ Steady log :=
  steady_append.trans (and_iff_left trivial)

/-! ## What falls due -/

theorem dueExit_timeout (h : TimeStop eng n) {held : ℕ} (hold : n ≤ held) (bar : Bar) (p : Position) :
    ∃ due, dueExit eng (some held) bar p = .ok (some due) := by
  obtain ⟨hpos, c, hc, htype, hbars⟩ := h
  have hdue : timeExitDue (held : ℤ) c = .ok true := by
    have hn : n ≠ 0 := hpos.ne'
    have hle : (n : ℤ) ≤ held := by omega
    simp [timeExitDue, htype, hbars, hn, hle]
  unfold dueExit
  rw [Option.mem_def] at hc
  split
  · exact ⟨_, rfl⟩
  · exact ⟨_, rfl⟩
  · rw [hc]
    dsimp only
    rw [hdue]
    exact ⟨_, rfl⟩

theorem dueExit_early (h : TimeStop eng n) {held : ℕ} (hyoung : held < n) (bar : Bar) (p : Position) (price : ℚ) :
    dueExit eng (some held) bar p ≠ .ok (some (.timeExit, price)) := by
  obtain ⟨hpos, c, hc, htype, hbars⟩ := h
  have hdue : timeExitDue (held : ℤ) c = .ok false := by
    have hn : n ≠ 0 := hpos.ne'
    have hlt : ¬((n : ℤ) ≤ held) := by omega
    simp [timeExitDue, htype, hbars, hn, hlt]
  unfold dueExit
  rw [Option.mem_def] at hc
  split
  · simp
  · simp
  · rw [hc]
    dsimp only
    rw [hdue]
    simp

/-! ## What a fill counts -/

/-- What `_execute` leaves of the ages. -/
def Counted (eng : BacktestEngine L σ τ) (o : Order) (bar : Bar) (r q : Replay σ τ) : Prop :=
  q.state.barsHeld = if fillable eng o bar = 0 then r.state.barsHeld
    else if q.held o.symbol = 0 then r.state.barsHeld.erase o.symbol else r.state.barsHeld.setdefault o.symbol 0

theorem bookFill_barsHeld {f : Fill} {t : EngineState σ τ} (h : bookFill eng bars o f s = .ok t) :
    t.barsHeld = if t.portfolio.held o.symbol = 0 then s.barsHeld.erase o.symbol else s.barsHeld.setdefault o.symbol 0 := by
  unfold bookFill at h
  cases hp : s.portfolio.applyToPortfolio o f with
  | error e => simp [hp] at h
  | ok b =>
    simp only [hp] at h
    by_cases hflat : (b.position o.symbol).isFlat = true
    · rw [if_pos hflat, Except.ok.injEq] at h
      have hzero : b.held o.symbol = 0 := of_decide_eq_true hflat
      subst h
      exact (if_pos hzero).symm
    · rw [if_neg hflat, Except.ok.injEq] at h
      have hopen : b.held o.symbol ≠ 0 := fun h0 => hflat (decide_eq_true h0)
      have hheld : t.portfolio.held o.symbol = b.held o.symbol := by
        rw [← h, Portfolio.held_setPosition, if_pos rfl, armFromConfig_qty]
        split <;> rfl
      rw [if_neg (hheld ▸ hopen), ← h]

theorem execute_counted (o : Order) (bar : Bar) (intended : ℚ) (r : Replay σ τ) :
    Triple (fun q => q = r) (execute eng bars o bar intended) (fun _ q => Counted eng o bar r q) (fun _ _ => True) := by
  unfold execute
  refine triple_ite (fun _ => triple_throw _ fun _ _ => trivial) fun _ => ?_
  refine triple_bind (R := fun _ q => q.state.barsHeld = r.state.barsHeld) (triple_update _ fun q hq => ?_) fun _ => ?_
  · rw [hq]
    unfold warnCapped
    split <;> rfl
  refine triple_ite (fun hnone => triple_pure _ fun q hq => ?_) fun hsome => ?_
  · unfold Counted
    have hzero : fillable eng o bar = 0 := max_eq_left hnone
    rw [if_pos hzero, hq]
  refine triple_bind (R := fun _ q => q.state.barsHeld = r.state.barsHeld)
    (triple_fromExcept _ (fun _ _ _ hq => hq) fun _ _ _ _ => trivial) fun o' => ?_
  refine triple_observe fun q hq => ?_
  refine triple_bind (R := fun t u => u = q ∧ bookFill eng bars o (fillFor eng o bar intended) q.state = .ok t)
    (triple_fromExcept _ (fun t ht u hu => ⟨hu, ht⟩) fun _ _ _ _ => trivial) fun t => ?_
  rintro u ⟨rfl, hb⟩
  have hpos : fillable eng o bar ≠ 0 := (lt_of_lt_of_le (not_le.1 hsome) (le_max_right _ _)).ne'
  show t.barsHeld = _
  rw [if_neg hpos, bookFill_barsHeld hb, hq]
  rfl

/-- **A fill keeps the ages**, if it does not reverse an older position: from flat it starts one, at flat it ends one, and
otherwise the position keeps the age it has. -/
theorem Aged.executed {x : ℚ} (h : Aged r.log r.state) (hx : Executed eng o bar x r o' q) (hc : Counted eng o bar r q)
    (hsteady : Steady q.log) : Aged q.log q.state := by
  unfold Counted at hc
  rcases hx with ⟨hzero, -, hstill⟩ | ⟨hpos, -, -, hlog, hheld⟩
  · rw [if_pos hzero] at hc
    intro symbol
    have hsame : q.state.portfolio.held symbol = r.state.portfolio.held symbol := hstill.held symbol
    rw [hc, hsame, hstill.log]
    exact h symbol
  · rw [if_neg hpos.ne'] at hc
    have hafter : q.held o.symbol = r.held o.symbol + fillable eng o bar * o.side.sign := by rw [hheld, if_pos rfl]
    rw [hlog, steady_append] at hsteady
    have hcross : r.held o.symbol * q.held o.symbol < 0 → age o.symbol r.log = 0 := hafter ▸ hsteady.2
    have hwas : r.state.barsHeld.get? o.symbol = if r.held o.symbol = 0 then none else some (age o.symbol r.log) := h o.symbol
    intro symbol
    by_cases hsymbol : symbol = o.symbol
    · subst hsymbol
      show q.state.barsHeld.get? o.symbol = if q.held o.symbol = 0 then none else _
      rw [hlog, age_booked, ← hafter, hc]
      by_cases hflat : q.held o.symbol = 0
      · rw [if_pos hflat, if_pos hflat, Dict.get?_erase, if_pos rfl]
      · rw [if_neg hflat, if_neg hflat, Dict.get?_setdefault_self, hwas]
        rcases eq_or_ne (r.held o.symbol) 0 with hfrom | hfrom
        · simp [hfrom, hflat]
        · rcases lt_trichotomy (r.held o.symbol * q.held o.symbol) 0 with hsign | hsign | hsign
          · simp [hfrom, hflat, hsign.le, hcross hsign]
          · exact absurd hsign (mul_ne_zero hfrom hflat)
          · simp [hfrom, not_le.2 hsign]
    · have hsame : q.state.portfolio.held symbol = r.state.portfolio.held symbol := by
        have hother := hheld symbol
        rwa [if_neg hsymbol, add_zero] at hother
      rw [hsame, hlog, age_other _ _ _ _ hsymbol, ← h symbol, hc]
      split
      · rw [Dict.get?_erase, if_neg hsymbol]
      · exact Dict.get?_setdefault_ne _ _ hsymbol

/-! ## The bars of a run -/

/-- **What a run has behind it**: every bar met its positions at their ages, no open position is as old as its time stop, and
every time stop was on time. -/
structure Past (eng : BacktestEngine L σ τ) (bars : Dict String (List Bar)) (r : Replay σ τ) : Prop where
  mets : MetAged r.log
  young : ∀ n, TimeStop eng n → Fitting eng bars r.log → ∀ symbol, r.state.portfolio.held symbol ≠ 0 → age symbol r.log < n
  onTime : ∀ n, TimeStop eng n → Fitting eng bars r.log → AllOnTime eng bars n r.log

/-- **Between two statements** of a run that reverses no older position. -/
def Ages (eng : BacktestEngine L σ τ) (bars : Dict String (List Bar)) (r : Replay σ τ) : Prop :=
  Steady r.log → Aged r.log r.state ∧ Past eng bars r

/-- A symbol's bar has opened, and its stops are not yet checked. -/
def Opened (eng : BacktestEngine L σ τ) (bars : Dict String (List Bar)) (bar : Bar) (r : Replay σ τ) : Prop :=
  Steady r.log → Aged (r.log ++ [.bar bar r.state]) r.state ∧ Past eng bars r

/-- Nothing the ages look at has changed. -/
structure Quiet (r q : Replay σ τ) : Prop where
  log : q.log = r.log
  barsHeld : q.state.barsHeld = r.state.barsHeld
  held : ∀ symbol, q.state.portfolio.held symbol = r.state.portfolio.held symbol

theorem MetAged.noted (h : MetAged log) {met : EngineState σ τ} (haged : Aged (log ++ [.bar bar met]) met) :
    MetAged (log ++ [.bar bar met]) := by
  intro pre b m post hsplit
  rcases append_split hsplit with ⟨post', -, hold⟩ | ⟨rfl, heq, -⟩
  · exact h pre b m post' hold
  · cases heq
    exact haged

theorem MetAged.booked (h : MetAged log) {f : Fill} {before after : ℚ} : MetAged (log ++ [.booked o f before after]) := by
  intro pre b m post hsplit
  rcases append_split hsplit with ⟨post', -, hold⟩ | ⟨-, heq, -⟩
  · exact h pre b m post' hold
  · cases heq

theorem Past.quiet (h : Past eng bars r) (hlog : q.log = r.log)
    (hheld : ∀ symbol, q.state.portfolio.held symbol = r.state.portfolio.held symbol) : Past eng bars q where
  mets := hlog ▸ h.mets
  young := by
    rw [hlog]
    exact fun n hn hfit symbol hopen => h.young n hn hfit symbol (hheld symbol ▸ hopen)
  onTime := hlog ▸ h.onTime

theorem Ages.quiet (h : Ages eng bars r) (hq : Quiet r q) : Ages eng bars q := by
  intro hsteady
  obtain ⟨haged, hpast⟩ := h (hq.log ▸ hsteady)
  refine ⟨fun symbol => ?_, hpast.quiet hq.log hq.held⟩
  rw [hq.barsHeld, hq.held, hq.log]
  exact haged symbol

theorem OnTime.append {pre post : List (Event σ τ)} {met : EngineState σ τ} (h : OnTime eng bars n pre bar met post) (e : Event σ τ) :
    OnTime eng bars n pre bar met (post ++ [e]) where
  within := h.within
  early := h.early
  exits := by
    intro hage
    obtain ⟨due, hdue, o, f, rest, hpost, ho⟩ := h.exits hage
    exact ⟨due, hdue, o, f, rest ++ [e], by rw [hpost, List.cons_append], ho⟩

/-- A fill after which nothing is as old as its time stop. -/
theorem Past.booked {f : Fill} {before after : ℚ} (h : Past eng bars r) (hlog : q.log = r.log ++ [.booked o f before after])
    (hbefore : before = r.state.portfolio.held o.symbol) (hafter : after = q.state.portfolio.held o.symbol)
    (hothers : ∀ symbol, symbol ≠ o.symbol → q.state.portfolio.held symbol = r.state.portfolio.held symbol) :
    Past eng bars q := by
  have hfitting : Fitting eng bars q.log ↔ Fitting eng bars r.log := by
    rw [hlog, fitting_append]
    exact and_iff_left trivial
  constructor
  case mets =>
    rw [hlog]
    exact h.mets.booked
  case young =>
    intro n hn hfit symbol hopen
    by_cases hsymbol : symbol = o.symbol
    · subst hsymbol
      rw [hlog, age_booked]
      split
      · exact hn.1
      · rename_i hkeeps
        refine h.young n hn (hfitting.1 hfit) o.symbol fun hflat => hkeeps ⟨hafter ▸ hopen, ?_⟩
        rw [hbefore, hflat, zero_mul]
    · rw [hlog, age_other _ _ _ _ hsymbol]
      exact h.young n hn (hfitting.1 hfit) symbol (hothers symbol hsymbol ▸ hopen)
  case onTime =>
    intro n hn hfit pre bar met post hsplit hopen
    rw [hlog] at hsplit
    rcases append_split hsplit with ⟨post', rfl, hold⟩ | ⟨-, heq, -⟩
    · exact (h.onTime n hn (hfitting.1 hfit) pre bar met post' hold hopen).append _
    · cases heq

/-- **An execution keeps the ages.** -/
theorem Ages.executed {x : ℚ} (h : Ages eng bars r) (hx : Executed eng o bar x r o' q) (hc : Counted eng o bar r q) :
    Ages eng bars q := by
  intro hsteady
  have hbefore : Steady r.log := by
    rcases hx with ⟨-, -, hstill⟩ | ⟨-, -, -, hlog, -⟩
    · exact hstill.log ▸ hsteady
    · rw [hlog, steady_append] at hsteady
      exact hsteady.1
  obtain ⟨haged, hpast⟩ := h hbefore
  refine ⟨haged.executed hx hc hsteady, ?_⟩
  rcases hx with ⟨-, -, hstill⟩ | ⟨-, -, -, hlog, hheld⟩
  · exact hpast.quiet hstill.log hstill.held
  · refine hpast.booked hlog rfl ?_ fun symbol hsymbol => ?_
    · have hafter := hheld o.symbol
      rw [if_pos rfl] at hafter
      exact hafter.symm
    · have hother := hheld symbol
      rwa [if_neg hsymbol, add_zero] at hother

/-- The bar on which nothing is due keeps the ages. -/
theorem Past.met (h : Past eng bars r) (haged : Aged (r.log ++ [.bar bar r.state]) r.state)
    (hlog : q.log = r.log ++ [.bar bar r.state]) (hheld : ∀ symbol, q.state.portfolio.held symbol = r.state.portfolio.held symbol)
    (hnone : r.state.portfolio.held bar.symbol ≠ 0 →
      dueExit eng (r.state.barsHeld.get? bar.symbol) bar (ratchet eng bars r.state bar).2 = .ok none) : Past eng bars q := by
  have hfits : Fitting eng bars q.log → Fitting eng bars r.log := by
    rw [hlog, fitting_append]
    exact And.left
  -- nothing due on an open position, so the bar has not brought it to the age of its stop
  have hyoung (n : ℕ) (hn : TimeStop eng n) (hopen : r.state.portfolio.held bar.symbol ≠ 0) :
      age bar.symbol (r.log ++ [.bar bar r.state]) < n := by
    by_contra hold
    have hcount := haged bar.symbol
    rw [if_neg hopen] at hcount
    obtain ⟨due, hdue⟩ := dueExit_timeout hn (not_lt.1 hold) bar (ratchet eng bars r.state bar).2
    rw [← hcount, hnone hopen] at hdue
    cases hdue
  constructor
  case mets =>
    rw [hlog]
    exact h.mets.noted haged
  case young =>
    intro n hn hfit symbol hopen
    rw [hlog]
    rw [hheld] at hopen
    by_cases hsymbol : symbol = bar.symbol
    · subst hsymbol
      exact hyoung n hn hopen
    · rw [age_bar, if_neg (Ne.symm hsymbol), add_zero]
      exact h.young n hn (hfits hfit) symbol hopen
  case onTime =>
    intro n hn hfit pre b met post hsplit hopen
    rw [hlog] at hsplit
    rcases append_split hsplit with ⟨post', rfl, hold⟩ | ⟨rfl, heq, -⟩
    · exact (h.onTime n hn (hfits hfit) pre b met post' hold hopen).append _
    · cases heq
      have hlt := hyoung n hn hopen
      refine ⟨hlt.le, fun _ price hdue => ?_, fun hage => absurd hage hlt.ne⟩
      rw [hnone hopen] at hdue
      cases hdue

/-- **The bar that closes its position**, by what was due on it. -/
theorem Past.closed {due : Purpose × ℚ} {f : Fill} (h : Past eng bars r) (haged : Aged (r.log ++ [.bar bar r.state]) r.state)
    (hdue : dueExit eng (r.state.barsHeld.get? bar.symbol) bar (ratchet eng bars r.state bar).2 = .ok (some due))
    (hlog : q.log = r.log ++ [.bar bar r.state] ++ [.booked o f (r.state.portfolio.held bar.symbol) 0])
    (hsymbol : o.symbol = bar.symbol) (hpurpose : o.purpose = due.1) (hflat : q.state.portfolio.held bar.symbol = 0)
    (hothers : ∀ symbol, symbol ≠ bar.symbol → q.state.portfolio.held symbol = r.state.portfolio.held symbol) :
    Past eng bars q := by
  have hfits : Fitting eng bars q.log → Fitting eng bars r.log := by
    rw [hlog, fitting_append, fitting_append]
    exact fun hfit => hfit.1.1
  constructor
  case mets =>
    rw [hlog]
    exact (h.mets.noted haged).booked
  case young =>
    intro n hn hfit symbol hopen
    have hne : symbol ≠ bar.symbol := fun heq => hopen (heq ▸ hflat)
    rw [hlog, age_other _ _ _ _ (hsymbol ▸ hne), age_bar, if_neg (Ne.symm hne), add_zero]
    exact h.young n hn (hfits hfit) symbol (hothers symbol hne ▸ hopen)
  case onTime =>
    intro n hn hfit pre b met post hsplit hopen
    rw [hlog] at hsplit
    rcases append_split hsplit with ⟨post', rfl, hold⟩ | ⟨-, heq, -⟩
    · rcases append_split hold with ⟨post', rfl, holder⟩ | ⟨rfl, heq, rfl⟩
      · exact ((h.onTime n hn (hfits hfit) pre b met post' holder hopen).append _).append _
      · cases heq
        have hyoung := h.young n hn (hfits hfit) bar.symbol hopen
        have hage : age bar.symbol (r.log ++ [.bar bar r.state]) = age bar.symbol r.log + 1 := by rw [age_bar, if_pos rfl]
        have hcount := haged bar.symbol
        rw [if_neg hopen] at hcount
        refine ⟨by omega, fun hlt price => ?_, fun _ => ⟨due, hdue, o, f, [], rfl, hsymbol, hpurpose⟩⟩
        rw [hcount]
        exact dueExit_early hn hlt bar _ price
    · cases heq

/-- A bar with an exit too large for it is not spoken of any further. -/
theorem Past.unfit (hmets : MetAged q.log) (hunfit : ¬Fitting eng bars q.log) : Past eng bars q :=
  ⟨hmets, fun _ _ hfit => absurd hfit hunfit, fun _ _ hfit => absurd hfit hunfit⟩

theorem maintainTrailing_quiet (bar : Bar) (r : Replay σ τ) : Triple (fun q => q = r) (maintainTrailing eng bars bar)
    (fun _ q => Quiet r q ∧ q.state.portfolio.position bar.symbol = (ratchet eng bars r.state bar).2) (fun _ _ => True) := by
  refine triple_conseq (maintainTrailing_still eng bars bar r) (fun _ h => h) (fun _ q hq => ?_) fun _ _ _ => trivial
  exact ⟨⟨hq.1.log, hq.2.1, hq.1.held⟩, hq.2.2⟩

/-- An exit of all that is held, on a bar it fits. -/
theorem closing_whole {held : ℚ} {p : Position} (id : String) (reason : Purpose) (hp : p.qty = held) (hheld : held ≠ 0)
    (hcap : |held| ≤ volumeCap eng bar) :
    fillable eng (closingOrder eng id bar p reason) bar = |held| ∧
      held + |held| * (closingOrder eng id bar p reason).side.sign = 0 := by
  have hpos : 0 < |held| := abs_pos.2 hheld
  constructor
  · show capped eng (|p.qty| - 0) bar = |held|
    rw [sub_zero, hp]
    unfold capped
    rw [min_eq_left hcap, max_eq_right hpos.le]
  · obtain ⟨hcloses, -⟩ := closingOrder_closes eng id bar p reason (hp ▸ hheld)
    rw [hp] at hcloses
    unfold closable at hcloses
    rw [← hcloses]
    cases (closingOrder eng id bar p reason).side <;> simp [Side.sign]

/-- What an exit that is due leaves: a flat position if it fits, and otherwise one not spoken of. -/
theorem ages_exited {u v : Replay σ τ} {due : Purpose × ℚ} {id : String} {p : Position} (hr : Opened eng bars bar r)
    (hheld : r.state.portfolio.held bar.symbol ≠ 0)
    (hdue : dueExit eng (r.state.barsHeld.get? bar.symbol) bar (ratchet eng bars r.state bar).2 = .ok (some due))
    (hu : Quiet { r with log := r.log ++ [.bar bar r.state] } u) (ho : o = closingOrder eng id bar p due.1)
    (hqty : p.qty = r.state.portfolio.held bar.symbol) (hexecuted : Executed eng o bar due.2 u o' v) (hcounted : Counted eng o bar u v) :
    Ages eng bars v := by
  intro hs
  have hulog : u.log = r.log ++ [.bar bar r.state] := hu.log
  have hsymbol : o.symbol = bar.symbol := by rw [ho]; rfl
  have hsteady : Steady u.log := by
    rcases hexecuted with ⟨-, -, hstill⟩ | ⟨-, -, -, hlog, -⟩
    · exact hstill.log ▸ hs
    · rw [hlog, steady_append] at hs
      exact hs.1
  obtain ⟨haged, hpast⟩ := hr ((steady_bar r.state).1 (hulog ▸ hsteady))
  have huaged : Aged u.log u.state := by
    intro symbol
    rw [hu.barsHeld, hu.held, hulog]
    exact haged symbol
  refine ⟨huaged.executed hexecuted hcounted hs, ?_⟩
  by_cases hcap : |r.state.portfolio.held bar.symbol| ≤ volumeCap eng bar
  · obtain ⟨hfill, hzero⟩ := closing_whole id due.1 hqty hheld hcap
    rw [← ho] at hfill hzero
    rcases hexecuted with ⟨h0, -, -⟩ | ⟨-, -, -, hlog, hmoved⟩
    · exact absurd (hfill.symm.trans h0) (abs_pos.2 hheld).ne'
    · have hbefore : u.held o.symbol = r.state.portfolio.held bar.symbol := by
        rw [hsymbol]
        exact hu.held bar.symbol
      rw [hbefore, hfill, hzero, hulog] at hlog
      refine hpast.closed haged hdue hlog hsymbol (by rw [ho]; rfl) ?_ fun symbol hne => ?_
      · have hafter := hmoved o.symbol
        rw [if_pos rfl, hbefore, hfill, hzero, hsymbol] at hafter
        exact hafter
      · have hother := hmoved symbol
        rw [if_neg (hsymbol ▸ hne), add_zero] at hother
        exact hother.trans (hu.held symbol)
  · have hmets : MetAged u.log := hulog ▸ hpast.mets.noted haged
    have hunfit : ¬Fitting eng bars u.log := by
      rw [hulog, fitting_append]
      exact fun hfit => hcap (hfit.2 hheld due hdue)
    rcases hexecuted with ⟨-, -, hstill⟩ | ⟨-, -, -, hlog, -⟩
    · exact .unfit (hstill.log ▸ hmets) (hstill.log ▸ hunfit)
    · refine .unfit (hlog ▸ hmets.booked) ?_
      rw [hlog, fitting_append]
      exact fun hfit => hunfit hfit.1

/-- **`_check_stops` keeps the ages**, from a bar that has opened. -/
theorem checkStops_ages (bar : Bar) :
    Triple (Opened eng bars bar) (checkStops eng bars bar) (fun _ => Ages eng bars) (fun _ _ => True) := by
  unfold checkStops
  refine triple_observe fun r hr => ?_
  let noted : Replay σ τ := { r with log := r.log ++ [.bar bar r.state] }
  have hsteady {q : Replay σ τ} (hlog : q.log = noted.log) : Steady q.log → Steady r.log := by
    rw [hlog]
    exact (steady_bar r.state).1
  -- the note is all that has happened when nothing is due
  have quiet {q : Replay σ τ} (hq : Quiet noted q) (hnone : r.state.portfolio.held bar.symbol ≠ 0 →
      dueExit eng (r.state.barsHeld.get? bar.symbol) bar (ratchet eng bars r.state bar).2 = .ok none) : Ages eng bars q := by
    intro hs
    obtain ⟨haged, hpast⟩ := hr (hsteady hq.log hs)
    refine ⟨fun symbol => ?_, hpast.met haged hq.log hq.held hnone⟩
    rw [hq.barsHeld, hq.held, hq.log]
    exact haged symbol
  refine triple_bind (R := fun _ q => q = noted) (triple_note _ fun q hq => by rw [hq]) fun _ => ?_
  refine triple_ite (fun hflat => triple_pure _ fun q hq => ?_) fun hopen => ?_
  · rw [hq]
    exact quiet ⟨rfl, rfl, fun _ => rfl⟩ fun hheld => absurd (of_decide_eq_true hflat) hheld
  have hheld : r.state.portfolio.held bar.symbol ≠ 0 := fun h0 => hopen (decide_eq_true h0)
  refine triple_bind (triple_conseq (maintainTrailing_quiet bar noted) (fun _ h => h) (fun _ _ h => h) fun _ _ _ => trivial) fun _ => ?_
  refine triple_observe fun u hu => ?_
  obtain ⟨hquiet, hposition⟩ := hu
  refine triple_bind (R := fun due q => q = u ∧
      dueExit eng (r.state.barsHeld.get? bar.symbol) bar (ratchet eng bars r.state bar).2 = .ok due)
    (triple_fromExcept _ (fun due hdue q hq => ⟨hq, ?_⟩) fun _ _ _ _ => trivial) fun due => ?_
  · rw [← hdue, hquiet.barsHeld, hposition]
  cases due with
  | none =>
    refine triple_pure _ fun q hq => ?_
    obtain ⟨rfl, hnone⟩ := hq
    exact quiet hquiet fun _ => hnone
  | some due =>
    refine triple_at fun q hq => ?_
    obtain ⟨rfl, hdue⟩ := hq
    refine triple_bind (R := fun o s => s = q ∧ o = closingOrder eng (eng.newId q.state.drawn) bar
        (q.state.portfolio.position bar.symbol) due.1)
      (triple_fromExcept _ (fun o ho s hs => ⟨hs, (Order.postInit_ok ho).1⟩) fun _ _ _ _ => trivial) fun o => ?_
    refine triple_at fun s hs => ?_
    obtain ⟨rfl, ho⟩ := hs
    let numbered : Replay σ τ := { s with state := { s.state with drawn := s.state.drawn + 1 } }
    refine triple_bind (R := fun _ v => v = numbered) (triple_update _ fun v hv => by rw [hv]) fun _ => ?_
    refine triple_bind (triple_conseq (triple_and (execute_executed eng bars o bar due.2 numbered)
      (execute_counted o bar due.2 numbered)) (fun v hv => ⟨hv, hv⟩) (fun _ _ h => h) fun _ _ _ => trivial) fun o' => ?_
    refine triple_update _ fun v hv => ?_
    have hages : Ages eng bars v := by
      have hnumbered : Quiet noted numbered := ⟨hquiet.log, hquiet.barsHeld, hquiet.held⟩
      have hqty : (s.state.portfolio.position bar.symbol).qty = r.state.portfolio.held bar.symbol := by
        rw [hposition]
        exact ratchet_qty eng bars r.state bar
      exact ages_exited hr hheld hdue hnumbered ho hqty hv.1 hv.2
    exact hages.quiet ⟨rfl, rfl, fun _ => rfl⟩

theorem execute_ages (o : Order) (bar : Bar) (intended : ℚ) :
    Triple (Ages eng bars) (execute eng bars o bar intended) (fun _ => Ages eng bars) (fun _ _ => True) := by
  refine triple_at fun r hr => ?_
  refine triple_conseq (triple_and (execute_executed eng bars o bar intended r) (execute_counted o bar intended r))
    (fun q hq => ⟨hq, hq⟩) (fun o' q hq => ?_) fun _ _ _ => trivial
  exact hr.executed hq.1 hq.2

theorem update_ages {g : EngineState σ τ → EngineState σ τ} (hg : ∀ r : Replay σ τ, Quiet r { r with state := g r.state }) :
    Triple (Ages eng bars) (update g) (fun _ => Ages eng bars) (fun _ _ => True) :=
  triple_update g fun r hr => Ages.quiet hr (hg r)

theorem record_ages (o : Order) :
    Triple (Ages eng bars) (update (EngineState.record o)) (fun _ => Ages eng bars) (fun _ _ => True) :=
  update_ages fun _ => ⟨rfl, rfl, fun _ => rfl⟩

theorem fillResting_ages (bar : Bar) : ∀ l : List Order,
    Triple (Ages eng bars) (fillResting eng bars bar l) (fun _ => Ages eng bars) (fun _ _ => True)
  | [] => triple_pure _ fun _ h => h
  | o :: rest => by
    have hrest := fillResting_ages bar rest
    have hkeep (o' : Order) : Triple (Ages eng bars) (do
        let resting ← fillResting eng bars bar rest
        return o' :: resting) (fun _ => Ages eng bars) (fun _ _ => True) :=
      triple_bind hrest fun _ => triple_pure _ fun _ h => h
    have hexpire (o' : Order) : Triple (Ages eng bars) (do
        update (EngineState.record o')
        fillResting eng bars bar rest) (fun _ => Ages eng bars) (fun _ _ => True) :=
      triple_bind (record_ages o') fun _ => hrest
    unfold fillResting
    refine triple_ite (fun _ => hkeep o) fun _ => ?_
    refine triple_bind (R := fun _ => Ages eng bars) (triple_fromExcept _ (fun _ _ _ h => h) fun _ _ _ _ => trivial) fun price => ?_
    cases price with
    | none => exact triple_ite (fun _ => hexpire _) fun _ => hkeep o
    | some price =>
      refine triple_bind (execute_ages o bar price) fun o' => ?_
      exact triple_ite (fun _ => triple_ite (fun _ => hexpire _) fun _ => hkeep o') fun _ => hrest

/-- A bar that opens counts for the position of its symbol. -/
theorem openBar_opened (i : ℕ) (bar : Bar) :
    Triple (Ages eng bars) (openBar bar.symbol i bar) (fun _ => Opened eng bars bar) (fun _ _ => True) := by
  unfold openBar
  refine triple_observe fun r hr => triple_ite (fun _ => triple_throw _ fun _ _ => trivial) fun _ => triple_update _ fun q hq => ?_
  subst hq
  intro hs
  obtain ⟨haged, hpast⟩ := hr hs
  have hheld (symbol : String) : (q.state.portfolio.setPosition bar.symbol { q.state.portfolio.position bar.symbol with
      lastPrice := some bar.close }).held symbol = q.state.portfolio.held symbol := by
    rw [Portfolio.held_setPosition]
    split
    · rename_i heq
      rw [heq]
      rfl
    · rfl
  refine ⟨fun symbol => ?_, hpast.quiet rfl hheld⟩
  rw [age_bar]
  dsimp only
  rw [hheld]
  have hwas := haged symbol
  by_cases hsymbol : symbol = bar.symbol
  · subst hsymbol
    rw [if_pos rfl]
    cases hget : q.state.barsHeld.get? bar.symbol with
    | none =>
      rw [hget] at hwas
      rw [hget]
      split at hwas
      · rename_i hflat
        rw [if_pos hflat]
      · cases hwas
    | some held =>
      rw [hget] at hwas
      rw [Dict.get?_set_self]
      split at hwas
      · cases hwas
      · rename_i hopen
        rw [if_neg hopen, Option.some.inj hwas]
  · rw [if_neg (Ne.symm hsymbol), add_zero]
    cases q.state.barsHeld.get? bar.symbol with
    | none => exact hwas
    | some held => exact (Dict.get?_set_ne _ _ hsymbol).trans hwas

/-- **A symbol's bar keeps the ages.** -/
theorem barPhase_ages {x : String × ℕ × Bar} (hx : x.2.2.symbol = x.1) :
    Triple (Ages eng bars) (barPhase eng bars x) (fun _ => Ages eng bars) (fun _ _ => True) := by
  unfold barPhase
  rw [← hx]
  refine triple_bind (openBar_opened x.2.1 x.2.2) fun _ => triple_bind (checkStops_ages x.2.2) fun _ => ?_
  unfold fillPendingFor
  refine triple_observe fun r hr => ?_
  refine triple_bind (triple_from (fillResting_ages x.2.2 r.state.pending) hr)
    fun resting => update_ages fun _ => ⟨rfl, rfl, fun _ => rfl⟩

/-! ## The run -/

theorem queueOrder_ages (signal : Signal) (bar : Bar) (side : Side) (qty : ℚ) (purpose : Purpose) :
    Triple (Ages eng bars) (queueOrder eng signal bar side qty purpose) (fun _ => Ages eng bars) (fun _ _ => True) := by
  unfold queueOrder
  refine triple_ite (fun _ => triple_pure _ fun _ h => h) fun _ => ?_
  refine triple_observe fun r hr => ?_
  refine triple_bind (R := fun _ => Ages eng bars) (triple_fromExcept _ (fun _ _ q hq => hq ▸ hr) fun _ _ _ _ => trivial) fun o => ?_
  refine triple_bind (update_ages fun _ => ⟨rfl, rfl, fun _ => rfl⟩) fun _ => ?_
  exact triple_ite (fun _ => update_ages fun _ => ⟨rfl, rfl, fun _ => rfl⟩) fun _ => update_ages fun _ => ⟨rfl, rfl, fun _ => rfl⟩

theorem handleSignal_ages (signal : Signal) (bar : Bar) :
    Triple (Ages eng bars) (handleSignal eng bars signal bar) (fun _ => Ages eng bars) (fun _ _ => True) := by
  refine triple_at fun r hr => ?_
  refine triple_handleSignal hr (fun _ => trivial) (fun _ side => ?_) fun _ =>
    triple_from (queueOrder_ages signal bar _ _ .exit) hr
  refine triple_enter (fun _ => trivial) (fun qty => triple_from (queueOrder_ages _ bar side qty .entry) hr) fun message => ?_
  exact triple_from (update_ages fun _ => ⟨rfl, rfl, fun _ => rfl⟩) (Ages.quiet hr ⟨rfl, rfl, fun _ => rfl⟩)

theorem signalPhase_ages (x : String × ℕ × Bar) :
    Triple (Ages eng bars) (signalPhase eng bars x) (fun _ => Ages eng bars) (fun _ _ => True) := by
  refine triple_signalPhase (fun _ _ _ => trivial) (fun q _ h => ?_) (fun q _ h => ?_) x fun signal =>
    handleSignal_ages signal x.2.2
  · exact Ages.quiet h ⟨rfl, rfl, fun _ => rfl⟩
  · exact Ages.quiet h ⟨rfl, rfl, fun _ => rfl⟩

theorem openInstant_ages (ts : ℤ) :
    Triple (Ages eng bars) (update (openInstant eng ts)) (fun _ => Ages eng bars) (fun _ _ => True) := by
  refine update_ages fun r => ?_
  unfold openInstant
  dsimp only
  split <;> exact ⟨rfl, rfl, fun _ => rfl⟩

theorem marks_barsHeld : ∀ (printed : List (String × ℕ × Bar)) (s : EngineState σ τ),
    (printed.foldl markClose s).barsHeld = s.barsHeld
  | [], _ => rfl
  | x :: printed, s => marks_barsHeld printed (markClose s x)

/-- The bars of a series are its symbol's. -/
def Named (bars : Dict String (List Bar)) : Prop := ∀ symbol, ∀ bar ∈ (bars.get? symbol).getD [], bar.symbol = symbol

theorem Named.printed (h : Named bars) {ts : ℤ} {x : String × ℕ × Bar}
    (hx : x ∈ eng.config.symbols.filterMap (printedAt bars ts)) : x.2.2.symbol = x.1 := by
  obtain ⟨symbol, -, hprinted⟩ := List.mem_filterMap.1 hx
  unfold printedAt at hprinted
  dsimp only at hprinted
  split at hprinted
  · cases hprinted
  · obtain ⟨bar, hbar, rfl⟩ := Option.map_eq_some_iff.1 hprinted
    exact h symbol bar (List.mem_of_getElem? hbar)

theorem stepAt_ages (hnamed : Named bars) (ts : ℤ) :
    Triple (Ages eng bars) (stepAt eng bars ts) (fun _ => Ages eng bars) (fun _ _ => True) := by
  unfold stepAt
  refine triple_bind (openInstant_ages ts) fun _ => ?_
  refine triple_bind (triple_forM _ fun x hx => barPhase_ages (hnamed.printed hx)) fun _ => ?_
  refine triple_bind (update_ages fun r => ?_) fun _ => triple_forM _ fun x _ => signalPhase_ages x
  exact ⟨rfl, marks_barsHeld _ _, fun symbol => (held_closeBook ts _ r.state symbol).1⟩

theorem ages_fresh (eng : BacktestEngine L σ τ) (bars : Dict String (List Bar)) {portfolio : Portfolio} (rules : σ) (strategy : τ)
    (hflat : ∀ symbol, portfolio.held symbol = 0) : Ages eng bars (fresh portfolio rules strategy : Replay σ τ) := by
  intro _
  refine ⟨fun symbol => (if_pos (hflat symbol)).symm, ?_, ?_, ?_⟩
  · exact fun pre bar met post hlog => absurd hlog (by simp [fresh])
  · exact fun _ _ _ symbol hopen => absurd (hflat symbol) hopen
  · exact fun _ _ _ pre bar met post hlog => absurd hlog (by simp [fresh])

end

/-- **Every position is counted from its own entry, and a time stop of `n` bars exits it on the `n`-th**, in every run from a
flat book that reverses no position on a bar after its own: in every state between two bars and in every state a bar met, an
open symbol's count is the number of its bars since the fill that opened its position and a flat symbol has none; and where
what falls due fits under its bar's volume cap, time stops are on time. -/
theorem ages_right (eng : BacktestEngine L σ τ) (bars : Dict String (List Bar)) (portfolio : Portfolio) (rules : σ) (strategy : τ)
    (r : Replay σ τ) (hnamed : Named bars) (hflat : ∀ symbol, portfolio.held symbol = 0)
    (hr : BetweenBars eng bars (fresh portfolio rules strategy) r) (hsteady : Steady r.log) :
    Aged r.log r.state ∧ MetAged r.log ∧ ∀ n, TimeStop eng n → Fitting eng bars r.log → AllOnTime eng bars n r.log := by
  have hfresh : Ages eng bars (fresh portfolio rules strategy : Replay σ τ) := ages_fresh eng bars rules strategy hflat
  have hinstants (l : List ℤ) : Triple (Ages eng bars) (l.forM (stepAt eng bars)) (fun _ => Ages eng bars) (fun _ _ => True) :=
    triple_forM l fun ts _ => stepAt_ages hnamed ts
  have hages : Ages eng bars r := by
    rcases hr with ⟨l, -, hrun⟩ | ⟨l, ts, printed, -, hprinted, hrun⟩
    · have hreached := hinstants l _ hfresh
      rw [hrun] at hreached
      exact hreached
    · have hbars : Triple (Ages eng bars) (printed.forM (barPhase eng bars)) (fun _ => Ages eng bars) (fun _ _ => True) :=
        triple_forM printed fun x hx => barPhase_ages (hnamed.printed (hprinted.subset hx))
      have hreached := triple_bind (hinstants l) (fun _ => triple_bind (openInstant_ages ts) fun _ => hbars) _ hfresh
      unfold OrderFates.upTo at hrun
      rw [hrun] at hreached
      exact hreached
  obtain ⟨haged, hpast⟩ := hages hsteady
  exact ⟨haged, hpast.mets, hpast.onTime⟩

/-! ## A position timed out, and one reversed -/

/-- A fill that takes its position through zero. -/
def Reverses : Event σ τ → Prop
  | .booked _ _ before after => before * after < 0
  | .bar _ _ => False

instance : DecidablePred (Reverses (σ := σ) (τ := τ))
  | .booked _ _ before after => inferInstanceAs (Decidable (before * after < 0))
  | .bar _ _ => inferInstanceAs (Decidable False)

theorem steady_of_straight {log : List (Event σ τ)} (h : ∀ e ∈ log, ¬Reverses e) : Steady log := by
  intro pre e post hlog
  cases e with
  | bar bar met => trivial
  | booked o f before after =>
    have hmem : .booked o f before after ∈ log := hlog ▸ List.mem_append_right _ List.mem_cons_self
    exact fun hcross => absurd hcross (h (.booked o f before after) hmem)

/-- Enters as told on its first two bars, under a time stop of two bars. -/
def timed (first second : SignalAction) : BacktestEngine Unit Unit ℕ :=
  { Levels.enters first second with stopConfig := some { stopType := .time, bars := some 2 } }

def fiveDays : Dict String (List Bar) := Dict.empty.set "SPY" ([1, 2, 3, 4, 5].map fun day => Levels.flatDay day 100 1000)

theorem fiveDays_named : Named fiveDays := by
  intro symbol bar hbar
  unfold fiveDays at hbar
  rw [Dict.get?_set] at hbar
  split at hbar
  · rename_i hsymbol
    obtain ⟨day, -, rfl⟩ := List.mem_map.1 hbar
    exact hsymbol.symm
  · cases hbar

/-- A run up to a day. -/
def timedTo (first second : SignalAction) (day : ℕ) : Replay Unit ℕ :=
  (exec (((timeline fiveDays).take day).forM (stepAt (timed first second) fiveDays)) TradeAccounts.started).2

theorem betweenBars_timed {first second : SignalAction} {day : ℕ}
    (hok : (exec (((timeline fiveDays).take day).forM (stepAt (timed first second) fiveDays)) TradeAccounts.started).1.isOk = true) :
    BetweenBars (timed first second) fiveDays TradeAccounts.started (timedTo first second day) := by
  refine .inl ⟨(timeline fiveDays).take day, List.take_prefix _ _, ?_⟩
  unfold timedTo
  rcases h : exec (((timeline fiveDays).take day).forM (stepAt (timed first second) fiveDays)) TradeAccounts.started with ⟨_ | _, r⟩
  · rw [h] at hok
    cases hok
  · rfl

/-- The last event of a log, if a fill: why, and what it took its position from and to. -/
def lastFill (r : Replay Unit ℕ) : Option (Purpose × ℚ × ℚ) :=
  match r.log.getLast? with
  | some (.booked o _ before after) => some (o.purpose, before, after)
  | _ => none

theorem ages_right_second_bar :
    lastFill (timedTo .enterLong .hold 4) = some (.timeExit, 10, 0) ∧ age "SPY" (timedTo .enterLong .hold 4).log = 2 ∧
      AllOnTime (timed .enterLong .hold) fiveDays 2 (timedTo .enterLong .hold 4).log := by
  have hright := ages_right (timed .enterLong .hold) fiveDays { cash := 10000, startingEquity := 10000 } () 0
    (timedTo .enterLong .hold 4) fiveDays_named (fun _ => rfl) (betweenBars_timed (by decide +kernel))
    (steady_of_straight (by decide +kernel))
  exact ⟨by decide +kernel, by decide +kernel, hright.2.2 2 ⟨by decide, _, rfl, rfl, rfl⟩ (by decide +kernel)⟩

/-- **A position reversed is not counted from its own entry**: the short that a sale of twenty makes of a long of ten on the
third day is one bar old before it has lived through any, and its time stop of two bars exits it on its first. -/
theorem reversed_counts_on :
    BetweenBars (timed .enterLong .enterShort) fiveDays TradeAccounts.started (timedTo .enterLong .enterShort 3) ∧
      lastFill (timedTo .enterLong .enterShort 3) = some (.entry, 10, -10) ∧
      (timedTo .enterLong .enterShort 3).state.barsHeld.get? "SPY" = some 1 ∧
      age "SPY" (timedTo .enterLong .enterShort 3).log = 0 ∧
      ¬Aged (timedTo .enterLong .enterShort 3).log (timedTo .enterLong .enterShort 3).state ∧
    BetweenBars (timed .enterLong .enterShort) fiveDays TradeAccounts.started (timedTo .enterLong .enterShort 4) ∧
      lastFill (timedTo .enterLong .enterShort 4) = some (.timeExit, -10, 0) ∧
      age "SPY" (timedTo .enterLong .enterShort 4).log = 1 := by
  refine ⟨betweenBars_timed (by decide +kernel), by decide +kernel, by decide +kernel, by decide +kernel, fun h => ?_,
    betweenBars_timed (by decide +kernel), by decide +kernel, by decide +kernel⟩
  have hcount := h "SPY"
  revert hcount
  decide +kernel

end HoldingAges
end Backtest
end Atp
