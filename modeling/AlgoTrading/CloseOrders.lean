import AlgoTrading.BacktestExits
import AlgoTrading.ProtectionGaps
import AlgoTrading.RunnerActs
import AlgoTrading.RunnerFrames
/-!
# CloseOrders — the closes of a symbol that work together

`_check_stops` and `_submit` close at the whole `|position.qty|`, whatever already works.  Nothing is over-closed as long as
each close is the only one of its symbol that works, and no other order's fill takes the shares it was sized on
(`closes_within`); a target and an EXIT signal of one pass sell the position twice (`closed_twice`).
-/
namespace Atp
namespace CloseOrders

open Raising Runs RunnerState TradeUpdates RunnerFrames
open RunnerActs (atInstant submit_cons)
open Moves (Told Led keeps_onStore keeps_recordRefusal keeps_noteProtectionGap keeps_refused keeps_retryProtection keeps_saveBook
  keeps_engage)
open Backtest (closable closable_add)

variable {β L σ ω : Type}

/-- A close that works: no entry, and no stop that rests at the venue. -/
def LiveClose (o : Order) : Prop := o.isComplete = false ∧ o.purpose ≠ .entry ∧ o.stopPrice = none

instance : DecidablePred LiveClose := fun _ => inferInstanceAs (Decidable (_ ∧ _ ∧ _))

/-- The closes of a symbol that work, on the side that closes its position. -/
def closesOf (s : RunnerState β σ ω) (symbol : String) : List Order :=
  s.openOrderList.filter fun o =>
    LiveClose o ∧ o.symbol = symbol ∧ o.side = closingSide (s.desk.portfolio.position symbol)

/-- **Nothing is over-closed**: what is left of the closes of a symbol is at most what is held of it. -/
def Within (s : RunnerState β σ ω) : Prop :=
  ∀ symbol, ((closesOf s symbol).map Order.remainingQty).sum ≤ |s.desk.portfolio.held symbol|

/-- A close that works under a key of the working set. -/
def Live (s : RunnerState β σ ω) (key : String) (o : Order) : Prop :=
  LiveClose o ∧ ∃ ref, s.openOrders.get? key = some ref ∧ s.desk.heap[ref]? = some o

/-- What happens to the closes: `_check_stops` comes to a symbol, `_submit` to a signal, an event comes in; and whatever
else the runner does. -/
inductive Act (σ : Type)
  | aside
  | stop (now : ℤ) (pass : Pass σ) (symbol : String) (bar : Bar)
  | signal (now : ℤ) (pass : Pass σ) (signal : Signal)
  | event (now : ℤ) (atr : String → Option ℚ) (update : TradeUpdate)

/-- Objects are added, the book keeps its holdings, and of the orders newly tracked only these are closes. -/
structure Follows (new : Order → Prop) (s t : RunnerState β σ ω) : Prop where
  heap : ∃ l, t.desk.heap = s.desk.heap ++ l
  openOrders : ∀ key ref, t.openOrders.get? key = some ref → s.openOrders.get? key = some ref ∨
    ∃ o, t.desk.heap[ref]? = some o ∧ (LiveClose o → key = o.clientOrderId ∧ new o)
  book : SameHoldings s.desk.portfolio t.desk.portfolio

/-- No close is newly tracked. -/
def Aside (s t : RunnerState β σ ω) : Prop := Follows (fun _ => False) s t

def acting (w : StrategyRunner β L σ ω) (s : RunnerState β σ ω) (a : Act σ) (t : RunnerState β σ ω) : Prop :=
  match a with
  | .aside => Aside s t
  | .stop now pass symbol bar => t = (exec ((atInstant w now).checkStop pass symbol bar) s).2
  | .signal now pass signal => t = (exec ((atInstant w now).submit pass [signal]) s).2
  | .event now atr update => t = (atInstant w now).after s (.fillEvent atr update)

/-- No close of the symbol works but the one this key names. -/
def Only (s : RunnerState β σ ω) (symbol : String) (key : Except Exc String) : Prop :=
  ∀ k o, Live s k o → o.symbol = symbol → key = .ok k

/-- The key of a close of what is held. -/
def closeKey (w : StrategyRunner β L σ ω) (s : RunnerState β σ ω) (symbol : String) (decidedAt : ℤ) (strategyId : Option String)
    (purpose : Purpose) : Except Exc String :=
  w.router.clientOrderId symbol (closingSide (s.desk.portfolio.position symbol)) decidedAt strategyId purpose

/-- **Each close is alone**: a stop, a target, a time exit or an EXIT signal closes what no other close works on, and the
fill of another order leaves the shares a close was sized on. -/
def Alone (w : StrategyRunner β L σ ω) (s : RunnerState β σ ω) : Act σ → Prop
  | .aside => True
  | .stop now pass symbol bar => ∀ purpose, (exec ((atInstant w now).decideStop pass symbol bar) s).1 = .ok (some purpose) →
      s.desk.portfolio.held symbol ≠ 0 → Only s symbol (closeKey w s symbol now none purpose)
  | .signal _ _ signal => signal.action = .exit → s.desk.portfolio.held signal.symbol ≠ 0 →
      Only s signal.symbol (closeKey w s signal.symbol signal.ts (some signal.strategyId) .exit)
  | .event _ _ update => ∀ ref before fill, s.tracked update.clientOrderId = some (ref, before) → update.fill = some fill →
      alreadySeen before fill = false → before.isComplete = false → ¬LiveClose before →
      ∀ key close, Live s key close → close.symbol = before.symbol → close.side = before.side →
        close.remainingQty + fill.qty ≤ closable close.side (s.desk.portfolio.held close.symbol)

/-- The working set names objects there are, and the book positions by their symbols. -/
structure Sound (s : RunnerState β σ ω) : Prop where
  objects : ∀ key ref, s.openOrders.get? key = some ref → ref < s.desk.heap.length
  named : ∀ symbol, (s.desk.portfolio.position symbol).symbol = symbol

/-- **At most one close of a symbol works, and it fits what is held.** -/
structure Fit (s : RunnerState β σ ω) : Prop extends Sound s where
  one : ∀ {k k' o o'}, Live s k o → Live s k' o' → o.symbol = o'.symbol → k = k'
  fits : ∀ {k o}, Live s k o → o.remainingQty ≤ closable o.side (s.desk.portfolio.held o.symbol)

/-! ## Following -/

section follows
variable {s t u : RunnerState β σ ω} {new : Order → Prop} {key : String} {ref : Ref} {o : Order}

theorem Follows.refl (new : Order → Prop) (s : RunnerState β σ ω) : Follows new s s :=
  ⟨⟨[], by simp⟩, fun _ _ h => .inl h, .refl _⟩

theorem Follows.object (h : Follows new s t) (ho : s.desk.heap[ref]? = some o) : t.desk.heap[ref]? = some o := by
  obtain ⟨l, hl⟩ := h.heap
  rw [hl]
  exact Tracking.object_append ho l

theorem Follows.trans (h : Follows new s t) (h' : Follows new t u) : Follows new s u := by
  refine ⟨?_, fun key ref href => ?_, h.book.trans h'.book⟩
  · obtain ⟨l, hl⟩ := h.heap
    obtain ⟨l', hl'⟩ := h'.heap
    exact ⟨l ++ l', by rw [hl', hl, List.append_assoc]⟩
  · rcases h'.openOrders key ref href with hold | hnew
    · rcases h.openOrders key ref hold with hold | ⟨o, ho, hclose⟩
      · exact .inl hold
      · exact .inr ⟨o, h'.object ho, hclose⟩
    · exact .inr hnew

theorem Follows.mono {new' : Order → Prop} (h : Follows new s t) (hnew : ∀ o, new o → new' o) : Follows new' s t :=
  ⟨h.heap, fun key ref href => (h.openOrders key ref href).imp_right fun ⟨o, ho, hclose⟩ =>
    ⟨o, ho, fun hlive => ⟨(hclose hlive).1, hnew o (hclose hlive).2⟩⟩, h.book⟩

theorem Follows.held (h : Follows new s t) (symbol : String) : t.desk.portfolio.held symbol = s.desk.portfolio.held symbol :=
  h.book.qty symbol

theorem Follows.sound (hs : Sound s) (h : Follows new s t) : Sound t := by
  refine ⟨fun key ref href => ?_, fun symbol => (h.book.symbol symbol).trans (hs.named symbol)⟩
  rcases h.openOrders key ref href with hold | ⟨o, ho, -⟩
  · obtain ⟨l, hl⟩ := h.heap
    have hlt : ref < s.desk.heap.length := hs.objects key ref hold
    rw [hl, List.length_append]
    exact Nat.lt_add_right _ hlt
  · exact (List.getElem?_eq_some_iff.1 ho).1

/-- A close that works is an old one, or one of the new. -/
theorem Follows.live (hs : Sound s) (h : Follows new s t) (hlive : Live t key o) :
    Live s key o ∨ key = o.clientOrderId ∧ new o := by
  obtain ⟨hclose, ref, href, ho⟩ := hlive
  rcases h.openOrders key ref href with hold | ⟨o', ho', hnew⟩
  · obtain ⟨l, hl⟩ := h.heap
    refine .inl ⟨hclose, ref, hold, ?_⟩
    rw [hl, List.getElem?_append_left (hs.objects key ref hold)] at ho
    exact ho
  · obtain rfl : o = o' := Option.some.inj (ho.symm.trans ho')
    exact .inr (hnew hclose)

theorem follows_ofBooks (s : RunnerState β σ ω) (new : Order → Prop) : OfBooks (Follows new s) := by
  intro t u hheap hbook _ hopen h
  refine ⟨by rw [hheap]; exact h.heap, fun key ref href => ?_, by rw [hbook]; exact h.book⟩
  rw [hopen] at href
  rw [hheap]
  exact h.openOrders key ref href

/-- A write to the book that keeps the holdings. -/
theorem Follows.of_book (hheap : t.desk.heap = s.desk.heap) (hopen : t.openOrders = s.openOrders)
    (hbook : SameHoldings s.desk.portfolio t.desk.portfolio) : Follows new s t :=
  ⟨⟨[], by rw [hheap, List.append_nil]⟩, fun key ref href => .inl (hopen ▸ href), hbook⟩

/-- An order that is tracked. -/
theorem Follows.tracked (ho : s.desk.heap[ref]? = some o) (hnew : LiveClose o → new o) : Follows new s (s.track ref o) := by
  have hdesk : (s.track ref o).desk = s.desk := by
    unfold RunnerState.track
    split <;> rfl
  refine ⟨⟨[], by rw [hdesk, List.append_nil]⟩, fun key ref' href => ?_, by rw [hdesk]; exact .refl _⟩
  rw [hdesk]
  unfold RunnerState.track at href
  split at href
  · rw [Dict.get?_erase] at href
    split at href
    · cases href
    · exact .inl href
  · rw [Dict.get?_set] at href
    split at href
    · rename_i hkey
      obtain rfl := Option.some.inj href
      exact .inr ⟨o, ho, fun hlive => ⟨hkey, hnew hlive⟩⟩
    · exact .inl href

end follows

/-! ## The router's closes -/

section router
variable {r : OrderRouter β L σ} {b : Portfolio}

/-- What one submits to close what is held of a symbol. -/
structure Closing (r : OrderRouter β L σ) (b : Portfolio) (symbol : String) (key : Except Exc String) (o : Order) : Prop where
  held : b.held symbol ≠ 0
  key : key = .ok o.clientOrderId
  size : (∀ rule ∈ r.rules, rule.OnlyShrinks) → o.remainingQty ≤ closable o.side (b.held symbol)
  symbol : o.symbol = symbol

theorem closable_closingSide (p : Position) : closable (closingSide p) p.qty = |p.qty| := by
  unfold closable closingSide Position.isLong
  by_cases h : 0 < p.qty
  · simp [h, Side.sign, abs_of_pos h]
  · simp [h, Side.sign, abs_of_nonpos (not_lt.1 h)]

theorem closing_of_asked {request : OrderRequest} {o : Order} (h : Asked r request o) (hheld : b.held request.symbol ≠ 0)
    (hside : request.side = closingSide (b.position request.symbol)) (hqty : request.qty = some |b.held request.symbol|) :
    Closing r b request.symbol (r.clientOrderId request.symbol (closingSide (b.position request.symbol)) request.decidedAt
      request.strategyId request.purpose) o := by
  refine ⟨hheld, hside ▸ h.key, fun hrules => ?_, h.symbol⟩
  unfold Order.remainingQty
  rw [h.unfilled, sub_zero, h.side, hside]
  exact (h.size hrules _ hqty).trans (closable_closingSide _).ge

/-- What a signal is sent as: an entry, or a close of what is held. -/
theorem intent_asks {signal : Signal} {config : PositionSizeSpec} {side : Side} {qty : ℚ} {purpose : Purpose} {closing : Bool}
    (h : OrderRouter.intent signal b config = .inl (side, qty, purpose, closing)) : (purpose = .entry ∧ closing = false) ∨
      (signal.action = .exit ∧ purpose = .exit ∧ closing = true ∧ b.held signal.symbol ≠ 0 ∧
        side = closingSide (b.position signal.symbol) ∧ qty = |b.held signal.symbol|) := by
  unfold OrderRouter.intent at h
  split at h
  · cases h
  · rename_i hexit
    split at h
    · cases h
    · rename_i p hp
      split at h
      · cases h
      · rename_i hopen
        cases h
        have hpos : b.position signal.symbol = p := by simp [Portfolio.position, hp]
        refine .inr ⟨hexit, rfl, rfl, ?_, by rw [hpos], by rw [Portfolio.held, hpos]⟩
        rw [Portfolio.held, hpos]
        simpa [Position.isFlat] using hopen
  · split at h
    · cases h
    · cases h
      exact .inl ⟨rfl, rfl⟩
  · split at h
    · cases h
    · cases h
      exact .inl ⟨rfl, rfl⟩
  · cases h
  · cases h

theorem closing_of_signal {signal : Signal} {config : PositionSizeSpec} {asked : OrderRequest × Bool} {o : Order}
    (h : Moves.signalRequest signal b config = some asked) (ho : Asked r asked.1 o) (hlive : LiveClose o) :
    signal.action = .exit ∧ Closing r b signal.symbol (r.clientOrderId signal.symbol (closingSide (b.position signal.symbol)) signal.ts
      (some signal.strategyId) .exit) o := by
  unfold Moves.signalRequest at h
  cases hi : OrderRouter.intent signal b config with
  | inr answer =>
    rw [hi] at h
    cases h
  | inl fields =>
    obtain ⟨side, qty, purpose, closing⟩ := fields
    simp only [hi] at h
    split at h
    · cases h
    · cases h
      rcases intent_asks hi with ⟨hentry, -⟩ | ⟨hexit, rfl, -, hheld, hside, rfl⟩
      · exact absurd (ho.purpose.trans hentry) hlive.2.1
      · exact ⟨hexit, closing_of_asked ho hheld hside rfl⟩

theorem closing_of_flatten {symbol : String} {purpose : Purpose} {request : OrderRequest} {o : Order}
    (h : Moves.flattenClose symbol purpose r.now b = some request) (ho : Asked r request o) :
    Closing r b symbol (r.clientOrderId symbol (closingSide (b.position symbol)) r.now none purpose) o := by
  unfold Moves.flattenClose at h
  cases hp : b.positions.get? symbol with
  | none =>
    rw [hp] at h
    cases h
  | some p =>
    have hpos : b.position symbol = p := by simp [Portfolio.position, hp]
    simp only [hp] at h
    split at h
    · cases h
    · rename_i hopen
      cases h
      refine closing_of_asked ho ?_ (congrArg closingSide hpos.symm) ?_
      · show (b.position symbol).qty ≠ 0
        rw [hpos]
        simpa [Position.isFlat] using hopen
      · show some |p.qty| = some |(b.position symbol).qty|
        rw [hpos]

end router

/-! ## The runner's calls -/

section runner
variable {w : StrategyRunner β L σ ω} {s t : RunnerState β σ ω} {new : Order → Prop}

/-- What the runner is handed: an order that is an object and, if it is a close, one of these; or no order. -/
def Given (new : Order → Prop) (s : RunnerState β σ ω) (sub : Submission) (t : RunnerState β σ ω) : Prop :=
  Follows new s t ∧ (sub.result.submitted = true → ∃ ref o, sub.object = some ref ∧ sub.result.order = some o ∧
    t.desk.heap[ref]? = some o ∧ (LiveClose o → new o))

theorem given_ofBooks (s : RunnerState β σ ω) (sub : Submission) (new : Order → Prop) : OfBooks (Given new s sub) := by
  intro t u hheap hbook hcovered hopen h
  refine ⟨follows_ofBooks s new t u hheap hbook hcovered hopen h.1, ?_⟩
  rw [hheap]
  exact h.2

/-- A call of the router that keeps the book, and what it hands over. -/
theorem triple_given {x : Prog (Desk β σ) Exc Submission}
    (htold : Triple (fun e => e = t.desk) x (fun sub e => Told (fun _ => True) t.desk sub e) (fun _ => Led (fun _ => True) t.desk))
    (hasked : Triple (AtBook t.desk.portfolio) x (fun sub e => AtBook t.desk.portfolio e ∧ (sub.result.submitted = true → ∀ o,
      sub.result.order = some o → LiveClose o → new o)) (fun _ => AtBook t.desk.portfolio)) (h : Follows new s t) :
    Triple (fun u => u = t) (onDesk x : Prog (RunnerState β σ ω) Exc Submission) (Given new s) (fun _ => Follows new s) := by
  have hgrown (e : Desk β σ) (hheap : t.desk.heap <+: e.heap) (hbook : e.portfolio = t.desk.portfolio) :
      Follows new s { t with desk := e } := by
    obtain ⟨l, hl⟩ := hheap
    exact h.trans ⟨⟨l, hl.symm⟩, fun _ _ href => .inl href, by rw [hbook]; exact .refl _⟩
  apply triple_within
  rintro u rfl
  refine triple_conseq (triple_and htold hasked) (fun e he => ⟨he, congrArg Desk.portfolio he⟩) (fun sub e he => ?_)
    (fun _ e he => hgrown e (he.1 .empty).1 he.2)
  obtain ⟨htold, hbook, hnew⟩ := he
  unfold Told at htold
  unfold Given
  split at htold
  · rename_i hsub
    obtain ⟨d, o, hled, hw, href, ho⟩ := htold
    have hheap : u.desk.heap <+: e.heap := hw.heap ▸ (hled .empty).1.trans (List.prefix_append _ _)
    exact ⟨hgrown e hheap hbook, fun _ => ⟨_, o, href, ho, by rw [hw.heap]; simp, hnew hsub o ho⟩⟩
  · rename_i hsub
    exact ⟨hgrown e (htold .empty).1 hbook, fun h => absurd h hsub⟩

/-- A submission that is tracked. -/
theorem Given.tracked {sub : Submission} {ref : Ref} {o : Order} (h : Given new s sub t) (hsub : sub.result.submitted = true)
    (href : sub.object = some ref) (ho : sub.result.order = some o) : Follows new s (t.track ref o) := by
  obtain ⟨hfollows, hgiven⟩ := h
  obtain ⟨ref', o', href', ho', hobject, hnew⟩ := hgiven hsub
  obtain rfl : ref = ref' := Option.some.inj (href.symm.trans href')
  obtain rfl : o = o' := Option.some.inj (ho.symm.trans ho')
  exact hfollows.trans (.tracked hobject hnew)

theorem Given.untracked {sub : Submission} (h : Given new s sub t) (hsub : sub.result.submitted = true)
    (hnot : ∀ ref o, sub.object = some ref → sub.result.order = some o → False) : False := by
  obtain ⟨ref, o, href, ho, -⟩ := h.2 hsub
  exact hnot ref o href ho

theorem triple_settleSubmission (signal : Signal) (sub : Submission) :
    Triple (Given new s sub) (w.settleSubmission signal sub) (fun _ => Follows new s) (fun _ => Follows new s) := by
  have hI := (follows_ofBooks s new).core
  unfold StrategyRunner.settleSubmission
  split
  · rename_i ref order hsub href ho
    exact triple_modify _ fun t h => h.tracked hsub href ho
  · rename_i hsub hnot
    exact triple_pure _ fun t h => (h.untracked hsub hnot).elim
  · exact triple_conseq (keeps_refused w hI signal sub.result) (fun _ h => h.1) (fun _ _ h => h) (fun _ _ h => h)

/-- What the signal of a pass may newly track. -/
def SignalClose (w : StrategyRunner β L σ ω) (s : RunnerState β σ ω) (signal : Signal) (o : Order) : Prop :=
  signal.action = .exit ∧ Closing w.router s.desk.portfolio signal.symbol
    (closeKey w s signal.symbol signal.ts (some signal.strategyId) .exit) o

/-- A stop level is for entries. -/
theorem withStop_eq (w : StrategyRunner β L σ ω) (pass : Pass σ) (signal : Signal) :
    ∃ level, w.withStop pass signal = { signal with stopLossPrice := level } := by
  unfold StrategyRunner.withStop
  split
  · exact ⟨signal.stopLossPrice, rfl⟩
  · split
    · exact ⟨signal.stopLossPrice, rfl⟩
    · split
      · exact ⟨signal.stopLossPrice, rfl⟩
      · split
        · exact ⟨signal.stopLossPrice, rfl⟩
        · split
          · exact ⟨signal.stopLossPrice, rfl⟩
          · exact ⟨_, rfl⟩

/-- **One signal of `_submit`.** -/
theorem triple_signal (pass : Pass σ) (signal : Signal) (s : RunnerState β σ ω) :
    Triple (fun t => t = s) (w.submit pass [signal]) (fun _ => Follows (SignalClose w s signal) s)
      (fun _ => Follows (SignalClose w s signal) s) := by
  unfold StrategyRunner.submit
  refine triple_ite (fun _ => triple_pure _ fun t h => by rw [h]; exact .refl _ s) (fun _ => ?_)
  refine triple_get_bind fun t ht => ?_
  subst ht
  obtain ⟨level, hsignal⟩ := withStop_eq w pass signal
  refine triple_bind (R := Given (SignalClose w t signal) t) ?_ fun sub => ?_
  · refine triple_given (Moves.triple_submitSignal trivial fun _ _ => Moves.allows_any _ _ _ _) ?_ (.refl _ t)
    refine triple_conseq (triple_submitSignal (w.withStop pass signal) w.sizing t.openOrderList) (fun _ h => h)
      (fun sub e h => ⟨h.1, fun hsub o ho hlive => ?_⟩) (fun _ _ h => h)
    obtain ⟨asked, hasked, hanswers⟩ := h.2 hsub
    have hclose := closing_of_signal hasked (hanswers hsub o ho) hlive
    rw [hsignal] at hclose
    exact hclose
  refine triple_bind (R := fun _ => Given (SignalClose w t signal) t sub) ?_ fun _ => ?_
  · unfold StrategyRunner.recordSignal
    exact triple_conseq (keeps_onStore (given_ofBooks t sub _).core (w.repos.saveSignal signal sub.result)) (fun _ h => h) (fun _ _ h => h)
      (fun _ _ h => h.1)
  · exact triple_bind (triple_settleSubmission signal sub) fun _ => keeps_pure _

/-! ### `_check_stops` -/

/-- The reason to leave is read with the stop ratcheted, and no more has happened. -/
theorem decideStop_aside (new : Order → Prop) (pass : Pass σ) (symbol : String) (bar : Bar) :
    Keeps (Follows new s) (w.decideStop pass symbol bar) := by
  unfold StrategyRunner.decideStop
  refine keeps_when ?_ (keeps_bind keeps_get fun _ => keeps_fromExcept _)
  apply triple_within
  intro t ht
  have hratchet (p : Position) (hp : Ratcheted (t.desk.portfolio.position symbol) p) :
      Follows new s (t.setPosition symbol p) := by
    obtain ⟨mark, stop, rfl⟩ := hp
    exact ht.trans (.of_book rfl rfl (.setPosition rfl))
  exact triple_conseq (updateTrailing_ratcheted _ _ _ _) (fun _ h => h) (fun _ p h => hratchet p h) (fun _ p h => hratchet p h)

/-- What `_check_stops` may newly track for a symbol. -/
def StopClose (w : StrategyRunner β L σ ω) (pass : Pass σ) (symbol : String) (bar : Bar) (s : RunnerState β σ ω) (o : Order) :
    Prop := ∃ purpose, (exec (w.decideStop pass symbol bar) s).1 = .ok (some purpose) ∧
  Closing w.router s.desk.portfolio symbol (closeKey w s symbol w.router.now none purpose) o

/-- **`_check_stops` for one symbol.** -/
theorem triple_checkStop (pass : Pass σ) (symbol : String) (bar : Bar) (s : RunnerState β σ ω) :
    Triple (fun t => t = s) (w.checkStop pass symbol bar) (fun _ => Follows (StopClose w pass symbol bar s) s)
      (fun _ => Follows (StopClose w pass symbol bar s) s) := by
  rw [StrategyRunner.checkStop_eq]
  refine triple_bind (triple_conseq (triple_and (triple_exec (w.decideStop pass symbol bar) s)
    (decideStop_aside (StopClose w pass symbol bar s) pass symbol bar)) (fun t h => ⟨h, by rw [h]; exact .refl _ s⟩)
    (fun _ _ h => h) (fun _ _ h => h.2)) fun reason => ?_
  cases reason with
  | none => exact triple_pure _ fun _ h => h.2
  | some reason =>
    refine triple_at fun t ht => ?_
    obtain ⟨hexec, hfollows⟩ := ht
    have hreason : (exec (w.decideStop pass symbol bar) s).1 = .ok (some reason) := congrArg Prod.fst hexec
    have hI := (follows_ofBooks s (StopClose w pass symbol bar s)).core
    unfold StrategyRunner.exitFor
    refine triple_bind (R := Given (StopClose w pass symbol bar s) s) ?_ fun sub => ?_
    · refine triple_given (Moves.triple_flatten fun _ _ => Moves.allows_any _ _ _ _) ?_ hfollows
      refine triple_conseq (triple_flatten symbol reason) (fun _ h => h)
        (fun sub e h => ⟨h.1, fun hsub o ho hlive => ⟨reason, hreason, ?_⟩⟩) (fun _ _ h => h)
      obtain ⟨request, hrequest, hanswers⟩ := h.2 hsub
      obtain ⟨hheld, hkey, hsize, hsym⟩ := closing_of_flatten hrequest (hanswers hsub o ho)
      have hsame := hfollows.held symbol
      rw [hsame] at hheld hsize
      rw [Coverage.closingSide_qty hsame] at hkey
      exact ⟨hheld, hkey, hsize, hsym⟩
    · split
      · rename_i ref order hsub href ho
        exact triple_modify _ fun t h => h.tracked hsub href ho
      · rename_i hsub hnot
        exact triple_pure _ fun t h => (h.untracked hsub hnot).elim
      · refine triple_bind (R := fun _ => Given (StopClose w pass symbol bar s) s sub) ?_ fun _ => ?_
        · exact triple_conseq (keeps_recordRefusal w (given_ofBooks s sub _).core sub.result) (fun _ h => h) (fun _ _ h => h)
            (fun _ _ h => h.1)
        · exact triple_conseq (keeps_noteProtectionGap hI symbol) (fun _ h => h.1) (fun _ _ h => h) (fun _ _ h => h)

/-! ### `_protect` -/

theorem triple_placement (order : Order) (config : Option StopConfig) (atr : Option ℚ) :
    Triple (Follows new s) (onDesk (w.router.submitProtectiveOrders order config atr))
      (fun result t => Follows new s (result.placed.foldl (fun t c => t.track c.1 c.2) t)) (fun _ => Follows new s) := by
  refine triple_within fun t ht => ?_
  have hgrown (e : Desk β σ) (hheap : Grown NewStop t.desk e) (hbook : SameLedger t.desk.portfolio e.portfolio) :
      Follows new s { t with desk := e } := by
    obtain ⟨l, hl, -⟩ := hheap
    exact ht.trans ⟨⟨l, hl⟩, fun _ _ href => .inl href, hbook.holdings⟩
  refine triple_conseq (triple_and (Moves.triple_submitProtectiveOrders (fun _ => True) trivial order config atr)
    (triple_and (keeps_grown (d := t.desk) order config atr) (keeps_ledger (b := t.desk.portfolio) order config atr)))
    (fun e he => ⟨he, ⟨[], by simp [he]⟩, he ▸ .refl _⟩) (fun result e h => ?_) (fun _ e h => hgrown e h.2.1 h.2.2)
  obtain ⟨hplaced, hstops, hbook⟩ := h
  rcases hplaced with ⟨hnone, -⟩ | ⟨d, o, hled, hone, hput⟩
  · rw [hnone]
    exact hgrown e hstops hbook
  · have hprefix : t.desk.heap <+: d.heap := (hled .empty).1
    have ho : e.heap[d.heap.length]? = some o := by rw [hput.heap]; simp
    rw [hone]
    refine (hgrown e hstops hbook).trans (Follows.tracked (o := o) ho fun hlive => ?_)
    -- what is placed is one of the objects that are new
    obtain ⟨l, hl, hall⟩ := hstops
    rw [hl, List.getElem?_append_right hprefix.length_le] at ho
    have hstop := (hall o (List.mem_of_getElem? ho)).stop
    rw [hlive.2.2] at hstop
    cases hstop

/-- **`_protect`** tracks no close. -/
theorem keeps_protect (atr : String → Option ℚ) (entry : Ref) (order : Order) (retry : Bool) :
    Keeps (Follows new s) (w.protect atr entry order retry) :=
  Moves.triple_protect w (follows_ofBooks s new).core (fun _ h => h) fun _ ht _ _ => triple_from (triple_placement _ _ _) ht

/-! ### A fill event -/

theorem keeps_after {P : RunnerState β σ ω → Prop} {α : Type} {x : Prog (RunnerState β σ ω) Exc α}
    (hx : ∀ m, Keeps (Follows new m) x) : Keeps (fun t => ∃ m, P m ∧ Follows new m t) x := by
  refine triple_at fun t ht => ?_
  obtain ⟨m, hm, hfollows⟩ := ht
  exact triple_conseq (hx m) (fun _ h => h ▸ hfollows) (fun _ _ h => ⟨m, hm, h⟩) (fun _ _ h => ⟨m, hm, h⟩)

/-- **An event is its update and its fill**, and what follows tracks no close. -/
theorem triple_event (new : Order → Prop) (atr : String → Option ℚ) (u : TradeUpdate) (s : RunnerState β σ ω) :
    Triple (fun t => t = s) (w.onFillEvent atr u) (fun _ t => ∃ m, Taken s u m ∧ Follows new m t)
      (fun _ t => ∃ m, Taken s u m ∧ Follows new m t) := by
  have hI : OfBooks (fun t : RunnerState β σ ω => ∃ m, Taken s u m ∧ Follows new m t) := by
    rintro t t' hheap hbook hcovered hopen ⟨m, hm, h⟩
    exact ⟨m, hm, follows_ofBooks m new t t' hheap hbook hcovered hopen h⟩
  have hprotect (entry : Ref) (order : Order) : Keeps (fun t => ∃ m, Taken s u m ∧ Follows new m t)
      (w.protect atr entry order false) := keeps_after fun m => keeps_protect atr entry order false
  refine triple_onFillEvent hI (fun entry order => triple_conseq (hprotect entry order) (fun _ h => h.1) (fun _ _ h => h)
    (fun _ _ h => h)) ?_ fun m hm => ⟨m, hm, .refl new m⟩
  rintro t key ⟨m, hm, h⟩
  refine ⟨m, hm, h.trans ⟨⟨[], by simp⟩, fun key' ref href => ?_, .refl _⟩⟩
  rw [Dict.get?_erase] at href
  split at href
  · cases href
  · exact .inl href

/-! ## What each act keeps -/

/-- **A step that follows keeps the closes fitting**, if each new one is alone. -/
theorem Follows.fit (hs : Fit s) (h : Follows new s t) (symbol : String) (key : Except Exc String)
    (hrules : ∀ rule ∈ w.router.rules, rule.OnlyShrinks)
    (hnew : ∀ o, new o → Closing w.router s.desk.portfolio symbol key o) (honly : ∀ o, new o → Only s symbol key) : Fit t where
  toSound := h.sound hs.toSound
  one := by
    intro k k' o o' ho ho' hsym
    -- two new ones have the one key, and an old one of the symbol has it too
    rcases h.live hs.toSound ho with hold | ⟨hk, hclose⟩ <;> rcases h.live hs.toSound ho' with hold' | ⟨hk', hclose'⟩
    · exact hs.one hold hold' hsym
    · have hkey := honly o' hclose' k o hold (hsym.trans (hnew o' hclose').symbol)
      exact Except.ok.inj (hkey.symm.trans ((hnew o' hclose').key.trans (congrArg Except.ok hk'.symm)))
    · have hkey := honly o hclose k' o' hold' (hsym.symm.trans (hnew o hclose).symbol)
      exact Except.ok.inj (((hnew o hclose).key.trans (congrArg Except.ok hk.symm)).symm.trans hkey)
    · rw [hk, hk']
      exact Except.ok.inj ((hnew o hclose).key.symm.trans (hnew o' hclose').key)
  fits := by
    intro k o ho
    rw [h.held]
    rcases h.live hs.toSound ho with hold | ⟨-, hclose⟩
    · exact hs.fits hold
    · rw [(hnew o hclose).symbol]
      exact (hnew o hclose).size hrules

theorem LiveClose.before {before o : Order} (h : Updated before o) (hlive : LiveClose o) : LiveClose before := by
  obtain ⟨hopen, hpurpose, hstop⟩ := hlive
  refine ⟨?_, h.purpose ▸ hpurpose, h.stopPrice ▸ hstop⟩
  by_contra hc
  rw [Bool.not_eq_false] at hc
  rw [h.complete hc] at hopen
  cases hopen

/-- A close that works after an update is another order's, or the update's own. -/
theorem live_put {ref : Ref} {o c : Order} {key : String} (h : Live (put s ref o) key c) :
    Live s key c ∨ (c = o ∧ s.openOrders.get? key = some ref) := by
  obtain ⟨hclose, ref', href, hc⟩ := h
  change (s.desk.heap.set ref o)[ref']? = some c at hc
  by_cases heq : ref = ref'
  · subst heq
    rw [List.getElem?_set_self'] at hc
    obtain ⟨_, -, hset⟩ := Option.map_eq_some_iff.1 hc
    exact .inr ⟨hset.symm, href⟩
  · rw [List.getElem?_set_ne heq] at hc
    exact .inl ⟨hclose, ref', href, hc⟩

theorem applyToPortfolio_symbol {b b' : Portfolio} {o : Order} {f : Fill} (h : b.applyToPortfolio o f = .ok b') (symbol : String) :
    (b'.position symbol).symbol = (b.position symbol).symbol := by
  unfold Portfolio.applyToPortfolio at h
  cases hf : (b.position o.symbol).applyFill f (f.qty * o.side.sign) with
  | error e => simp [hf] at h
  | ok r =>
    obtain ⟨q, x⟩ := r
    simp only [hf, Except.ok.injEq] at h
    obtain ⟨-, -, -, rfl, -⟩ := Position.applyFill_ok.1 hf
    subst h
    unfold Portfolio.position Portfolio.setPosition
    rw [Dict.get?_set]
    split
    · rename_i heq
      rw [heq, Option.getD_some, Position.settled_symbol]
    · rfl

theorem put_sound (hs : Sound s) (ref : Ref) (o : Order) : Sound (put s ref o) := by
  refine ⟨fun key ref' href => ?_, hs.named⟩
  unfold put
  rw [List.length_set]
  exact hs.objects key ref' href

theorem taken_sound {u : TradeUpdate} {m : RunnerState β σ ω} (hs : Sound s) (h : Taken s u m) : Sound m := by
  cases h with
  | dropped => exact hs
  | updated => exact put_sound hs _ _
  | filled _ _ _ _ _ hbook =>
    exact ⟨(put_sound hs _ _).objects, fun symbol => (applyToPortfolio_symbol hbook symbol).trans (hs.named symbol)⟩

/-- An update leaves no more of a close. -/
theorem put_fit {ref : Ref} {before o : Order} (hs : Fit s) (hbefore : s.desk.heap[ref]? = some before)
    (hupdated : Updated before o) (hqty : before.filledQty ≤ o.filledQty) : Fit (put s ref o) := by
  have hold {k : String} {c : Order} (h : Live (put s ref o) k c) :
      ∃ c₀, Live s k c₀ ∧ c₀.symbol = c.symbol ∧ c₀.side = c.side ∧ c.remainingQty ≤ c₀.remainingQty := by
    rcases live_put h with hlive | ⟨rfl, href⟩
    · exact ⟨c, hlive, rfl, rfl, le_rfl⟩
    · refine ⟨before, ⟨h.1.before hupdated, ref, href, hbefore⟩, hupdated.symbol.symm, hupdated.side.symm, ?_⟩
      unfold Order.remainingQty
      rw [hupdated.qty]
      linarith
  refine ⟨put_sound hs.toSound ref o, ?_, ?_⟩
  · intro k k' c c' hc hc' hsym
    obtain ⟨c₀, h₀, hsym₀, -⟩ := hold hc
    obtain ⟨c₁, h₁, hsym₁, -⟩ := hold hc'
    exact hs.one h₀ h₁ (hsym₀.trans (hsym.trans hsym₁.symm))
  · intro k c hc
    obtain ⟨c₀, h₀, hsym, hside, hle⟩ := hold hc
    have hfits := hs.fits h₀
    rw [hsym, hside] at hfits
    exact hle.trans hfits

/-- **A fill leaves the closes fitting** what it leaves of the position. -/
theorem taken_fit {u : TradeUpdate} {m : RunnerState β σ ω} {now : ℤ} {atr : String → Option ℚ} (hs : Fit s)
    (ha : Alone w s (.event now atr u)) (h : Taken s u m) : Fit m := by
  cases h with
  | dropped => exact hs
  | updated hfound hupdated _ hqty => exact put_fit hs (Moves.tracked_some hfound).2 hupdated hqty.ge
  | @filled ref before o fill book hfound htakes hupdated _ hqty hbook =>
    obtain ⟨href, hbefore⟩ := Moves.tracked_some hfound
    have hpos := htakes.pos
    have hput := put_fit hs hbefore hupdated (by linarith)
    refine ⟨⟨hput.objects, (taken_sound hs.toSound (.filled hfound htakes hupdated ‹_› hqty hbook)).named⟩, hput.one, ?_⟩
    intro k c hc
    have hc' : Live (put s ref o) k c := hc
    show c.remainingQty ≤ closable c.side (book.held c.symbol)
    rw [Portfolio.applyToPortfolio_held hbook]
    by_cases hsym : c.symbol = o.symbol
    · rw [if_pos hsym, closable_add]
      by_cases hclose : LiveClose before
      · -- the order is the one close of its symbol: it and what it closes shrink by the fill
        have hown : Live s u.clientOrderId before := ⟨hclose, ref, href, hbefore⟩
        have hsame : c = o := by
          rcases live_put hc' with hlive | ⟨heq, -⟩
          · obtain ⟨-, ref', href', hobj⟩ := hc'
            rw [hs.one hlive hown (hsym.trans hupdated.symbol)] at href'
            obtain rfl : ref = ref' := Option.some.inj (href.symm.trans href')
            obtain ⟨hlt, -⟩ := List.getElem?_eq_some_iff.1 hbefore
            exact (Option.some.inj ((List.getElem?_set_self hlt).symm.trans hobj)).symm
          · exact heq
        have hfits := hs.fits hown
        rw [hsame, if_pos rfl, hupdated.side, hupdated.symbol]
        unfold Order.remainingQty at hfits ⊢
        rw [hupdated.qty, hqty]
        linarith
      · -- another order's fill: on the side of the close it must leave room, on the other it makes some
        rcases live_put hc' with hlive | ⟨heq, -⟩
        · have hfits := hs.fits hlive
          split
          · rename_i hside
            have hroom := ha ref before fill hfound htakes.brought htakes.unseen htakes.working hclose k c hlive
              (hsym.trans hupdated.symbol) (hside.symm.trans hupdated.side)
            linarith
          · linarith
        · exact absurd (hc.1.before (heq ▸ hupdated)) hclose
    · rw [if_neg hsym, add_zero]
      exact hput.fits hc'

theorem Aside.fit (hs : Fit s) (h : Aside s t) : Fit t := by
  have hold {k : String} {o : Order} (ho : Live t k o) : Live s k o := (Follows.live hs.toSound h ho).resolve_right fun h => h.2
  refine ⟨Follows.sound hs.toSound h, fun ho ho' hsym => hs.one (hold ho) (hold ho') hsym, fun ho => ?_⟩
  rw [Follows.held h]
  exact hs.fits (hold ho)

/-- **Every act whose close is alone keeps the closes fitting.** -/
theorem step_fit (hrules : ∀ rule ∈ w.router.rules, rule.OnlyShrinks) {a : Act σ} (hs : Fit s) (ha : Alone w s a)
    (h : acting w s a t) : Fit t := by
  cases a with
  | aside => exact Aside.fit hs h
  | stop now pass symbol bar =>
    have hfollows : Follows (StopClose (atInstant w now) pass symbol bar s) s t := by
      rw [show t = _ from h]
      exact triple_left (triple_checkStop pass symbol bar s) rfl
    -- there is one reason to leave, and one key for it
    by_cases hleave : ∃ purpose, (exec ((atInstant w now).decideStop pass symbol bar) s).1 = .ok (some purpose)
    · obtain ⟨purpose, hpurpose⟩ := hleave
      have hclose (o : Order) (ho : StopClose (atInstant w now) pass symbol bar s o) : Closing (atInstant w now).router
          s.desk.portfolio symbol (closeKey w s symbol now none purpose) o := by
        obtain ⟨other, hother, h⟩ := ho
        rw [hpurpose, Except.ok.injEq, Option.some.injEq] at hother
        exact hother ▸ h
      exact hfollows.fit (w := atInstant w now) hs symbol _ hrules hclose fun o ho => ha purpose hpurpose (hclose o ho).held
    · exact Aside.fit hs (hfollows.mono fun o ho => hleave ⟨ho.choose, ho.choose_spec.1⟩)
  | signal now pass signal =>
    have hfollows : Follows (SignalClose (atInstant w now) s signal) s t := by
      rw [show t = _ from h]
      exact triple_left (triple_signal pass signal s) rfl
    exact hfollows.fit (w := atInstant w now) hs signal.symbol _ hrules (fun o ho => ho.2) fun o ho => ha ho.1 ho.2.held
  | event now atr update =>
    obtain ⟨m, htaken, haside⟩ : ∃ m, Taken s update m ∧ Aside m t := by
      rw [show t = _ from h]
      exact triple_left (triple_event _ atr update s) rfl
    exact Aside.fit (taken_fit hs ha htaken) haside

/-! ## Runs -/

/-- Where any two entries of a dictionary that count have one key, at most one counts. -/
theorem single_of_keys {κ α : Type} {q : α → Bool} : ∀ {l : List (κ × α)}, (l.map Prod.fst).Nodup →
    (∀ e ∈ l, ∀ e' ∈ l, q e.2 = true → q e'.2 = true → e.1 = e'.1) → ((l.map Prod.snd).filter q).length ≤ 1
  | [], _, _ => by simp
  | e :: l, hnodup, h => by
    rw [List.map_cons, List.nodup_cons] at hnodup
    rw [List.map_cons, List.filter_cons]
    by_cases hq : q e.2 = true
    · have hnone : (l.map Prod.snd).filter q = [] := by
        refine List.filter_eq_nil_iff.2 fun v hv hqv => ?_
        obtain ⟨e', he', rfl⟩ := List.mem_map.1 hv
        have hkey := h e (by simp) e' (List.mem_cons_of_mem _ he') hq hqv
        exact hnodup.1 (hkey ▸ List.mem_map_of_mem he')
      rw [if_pos hq, hnone]
      simp
    · rw [if_neg hq]
      exact single_of_keys hnodup.2 fun e he e' he' => h e (List.mem_cons_of_mem _ he) e' (List.mem_cons_of_mem _ he')

theorem mem_closesOf {symbol : String} {o : Order} (h : o ∈ closesOf s symbol) :
    (∃ key, Live s key o) ∧ o.symbol = symbol ∧ o.side = closingSide (s.desk.portfolio.position symbol) := by
  obtain ⟨hmem, hcond⟩ := List.mem_filter.1 h
  obtain ⟨hclose, hsym, hside⟩ := of_decide_eq_true hcond
  obtain ⟨ref, hvalue, ho⟩ := List.mem_filterMap.1 hmem
  obtain ⟨key, href⟩ := (Dict.mem_values_iff _ ref).1 hvalue
  exact ⟨⟨key, hclose, ref, href, ho⟩, hsym, hside⟩

/-- At most one close of a symbol works. -/
theorem closesOf_single (hs : Fit s) (symbol : String) : (closesOf s symbol).length ≤ 1 := by
  unfold closesOf openOrderList
  rw [List.filter_filterMap, List.length_filterMap_eq_countP, List.countP_eq_length_filter]
  refine single_of_keys s.openOrders.nodup fun e he e' he' hq hq' => ?_
  have hlive (e : String × Ref) (he : e ∈ s.openOrders.entries)
      (hq : ((s.desk.heap[e.2]?).filter fun o => decide (LiveClose o ∧ o.symbol = symbol ∧
        o.side = closingSide (s.desk.portfolio.position symbol))).isSome = true) : ∃ o, Live s e.1 o ∧ o.symbol = symbol := by
    obtain ⟨o, ho⟩ := Option.isSome_iff_exists.1 hq
    obtain ⟨hobj, hcond⟩ := Option.filter_eq_some_iff.1 ho
    obtain ⟨hclose, hsym, -⟩ := of_decide_eq_true hcond
    exact ⟨o, ⟨hclose, e.2, (Dict.mem_entries_iff _ _ _).1 he, hobj⟩, hsym⟩
  obtain ⟨o, ho, hsym⟩ := hlive e he hq
  obtain ⟨o', ho', hsym'⟩ := hlive e' he' hq'
  exact hs.one ho ho' (hsym.trans hsym'.symm)

theorem Fit.within (hs : Fit s) : Within s := by
  intro symbol
  have hsingle := closesOf_single hs symbol
  have hbound (o : Order) (h : o ∈ closesOf s symbol) : o.remainingQty ≤ |s.desk.portfolio.held symbol| := by
    obtain ⟨⟨key, hlive⟩, hsym, hside⟩ := mem_closesOf h
    have hfits := hs.fits hlive
    rw [hsym, hside] at hfits
    exact hfits.trans (closable_closingSide _).le
  match hl : closesOf s symbol with
  | [] => exact abs_nonneg _
  | [o] =>
    have hone := hbound o (by rw [hl]; simp)
    simpa using hone
  | _ :: _ :: _ =>
    rw [hl, List.length_cons, List.length_cons] at hsingle
    omega

/-- **No set of closes carries a position through zero**: in every run in which each close is alone, what is left of the
closes of a symbol is at most what is held of it. -/
theorem closes_within (hrules : ∀ rule ∈ w.router.rules, rule.OnlyShrinks) (hs : Fit s) {l : List (Act σ)}
    (h : Run (guarded (acting w) (Alone w)) s l t) : Within t :=
  Fit.within (run_guarded (Alone w) Fit (fun _ _ _ hs ha hstep => step_fit hrules hs ha hstep) hs h)

/-! ## The runner's passes and events are runs of acts -/

/-- What happens at an instant, between two releases of the lock. -/
def turn (w : StrategyRunner β L σ ω) (s : RunnerState β σ ω) (i : ℤ × RunnerStep σ) (t : RunnerState β σ ω) : Prop :=
  t = (atInstant w i.1).after s i.2 ∧ ∀ stored, i.2 ≠ .warmup stored

/-- A run of acts leads here. -/
def Reached (w : StrategyRunner β L σ ω) (s t : RunnerState β σ ω) : Prop := Sound t ∧ ∃ l, Run (acting w) s l t

theorem Reached.act {u : RunnerState β σ ω} (h : Reached w s t) (a : Act σ) (hact : acting w t a u) (hu : Sound u) :
    Reached w s u := by
  obtain ⟨-, l, hl⟩ := h
  exact ⟨hu, l ++ [a], run_append_iff.2 ⟨t, hl, .cons hact (.nil u)⟩⟩

/-- A statement that tracks no close. -/
theorem keeps_reached {α : Type} {x : Prog (RunnerState β σ ω) Exc α}
    (hx : ∀ t, Sound t → Triple (fun u => u = t) x (fun _ => Aside t) (fun _ => Aside t)) : Keeps (Reached w s) x := by
  refine triple_at fun t ht => ?_
  exact triple_conseq (hx t ht.1) (fun _ h => h) (fun _ u h => ht.act .aside h (Follows.sound ht.1 h))
    (fun _ u h => ht.act .aside h (Follows.sound ht.1 h))

theorem keeps_reached_of_keeps {α : Type} {x : Prog (RunnerState β σ ω) Exc α}
    (hx : ∀ t : RunnerState β σ ω, Keeps (Follows (fun _ => False) t) x) : Keeps (Reached w s) x :=
  keeps_reached fun t _ => triple_conseq (hx t) (fun _ h => by rw [h]; exact .refl _ t) (fun _ _ h => h) (fun _ _ h => h)

theorem keeps_reached_modify {f : RunnerState β σ ω → RunnerState β σ ω} (hf : ∀ t, Sound t → Aside t (f t)) :
    Keeps (Reached w s) (modify f : Prog (RunnerState β σ ω) Exc Unit) :=
  keeps_reached fun t ht => triple_modify f fun u hu => by rw [hu]; exact hf t ht

theorem marked_aside (marks : List (String × ℚ)) (t : RunnerState β σ ω) : Aside t (StrategyRunner.marked marks t) := by
  unfold StrategyRunner.marked
  induction marks generalizing t with
  | nil => exact .refl _ t
  | cons m marks ih =>
    have hone : Aside t (t.setPosition m.1 { t.desk.portfolio.position m.1 with lastPrice := some m.2 }) :=
      .of_book rfl rfl (.setPosition (b := t.desk.portfolio) rfl)
    exact hone.trans (ih _)

theorem markBrokerProtection_aside (ht : Sound t) : Aside t (StrategyRunner.markBrokerProtection t) := by
  have hopen : ∀ p ∈ t.desk.portfolio.openPositions, t.desk.portfolio.position p.symbol = p := by
    intro p hp
    obtain ⟨k, hk⟩ := (Dict.mem_values_iff _ p).1 (List.mem_filter.1 hp).1
    have hpos : t.desk.portfolio.position k = p := by simp [Portfolio.position, hk]
    have hnamed := ht.named k
    rw [hpos] at hnamed
    rw [hnamed, hpos]
  have hfold (l : List Position) (u : RunnerState β σ ω) (hu : Aside t u)
      (hl : ∀ p ∈ l, t.desk.portfolio.position p.symbol = p) :
      Aside t (l.foldl (fun s p => s.setPosition p.symbol { p with brokerProtectedQty := s.desk.brokerSideProtectedQty p }) u) := by
    induction l generalizing u with
    | nil => exact hu
    | cons p l ih =>
      refine ih _ (hu.trans (.of_book rfl rfl (.setPosition ?_))) fun q hq => hl q (List.mem_cons_of_mem _ hq)
      rw [hu.book.2, hl p (by simp)]
      rfl
  exact hfold _ t (.refl _ t) hopen

variable (now : ℤ)

theorem keeps_checkStops (pass : Pass σ) : ∀ l : List String, Keeps (Reached w s) ((atInstant w now).checkStops pass l)
  | [] => keeps_pure _
  | symbol :: rest => by
    unfold StrategyRunner.checkStops
    split
    · exact keeps_checkStops pass rest
    · rename_i bar _
      refine keeps_bind (triple_at fun t ht => ?_) fun _ => keeps_checkStops pass rest
      have hend : Reached w s (exec ((atInstant w now).checkStop pass symbol bar) t).2 :=
        ht.act (.stop now pass symbol bar) rfl (Follows.sound ht.1 (triple_left (triple_checkStop pass symbol bar t) rfl))
      exact triple_conseq (triple_exec _ t) (fun _ h => h) (fun _ u h => by rw [h] at hend; exact hend)
        (fun _ u h => by rw [h] at hend; exact hend)

theorem keeps_submit (pass : Pass σ) : ∀ l : List Signal, Keeps (Reached w s) ((atInstant w now).submit pass l)
  | [] => keeps_pure _
  | signal :: rest => by
    rw [submit_cons]
    refine keeps_bind (triple_at fun t ht => ?_) fun _ => keeps_submit pass rest
    have hend : Reached w s (exec ((atInstant w now).submit pass [signal]) t).2 :=
      ht.act (.signal now pass signal) rfl (Follows.sound ht.1 (triple_left (triple_signal pass signal t) rfl))
    exact triple_conseq (triple_exec _ t) (fun _ h => h) (fun _ u h => by rw [h] at hend; exact hend)
      (fun _ u h => by rw [h] at hend; exact hend)

theorem keeps_evaluateOnce (pass : Pass σ) : Keeps (Reached w s) ((atInstant w now).evaluateOnce pass) := by
  unfold StrategyRunner.evaluateOnce
  refine keeps_bind (keeps_fromExcept _) fun marks => keeps_bind (keeps_reached_modify fun t _ => marked_aside marks t) fun _ => ?_
  refine keeps_bind (keeps_reached_modify fun t _ => follows_ofBooks t _ t _ rfl rfl rfl rfl (.refl _ t)) fun _ => ?_
  refine keeps_bind keeps_get fun s₀ => keeps_bind (keeps_reached_of_keeps fun t => ?_) fun _ => ?_
  · exact keeps_retryProtection _ (follows_ofBooks t _).core (fun entry order => keeps_protect _ entry order true) _
  refine keeps_bind keeps_get fun s₁ => keeps_bind (keeps_checkStops now pass _) fun _ => ?_
  refine keeps_bind (keeps_fromExcept _) fun signals => keeps_bind (keeps_submit now pass signals) fun _ => ?_
  refine keeps_bind (keeps_reached_modify fun t ht => markBrokerProtection_aside ht) fun _ => ?_
  exact keeps_reached_of_keeps fun t => keeps_saveBook _ (follows_ofBooks t _).core

theorem keeps_evaluate (pass : Pass σ) : Keeps (Reached w s) ((atInstant w now).evaluate pass) := by
  have hcount (f : RunnerState β σ ω → ℕ) :
      Keeps (Reached w s) (modify (fun t => { t with consecutiveErrors := f t }) : Prog (RunnerState β σ ω) Exc Unit) :=
    keeps_reached_modify fun t _ => follows_ofBooks t _ t _ rfl rfl rfl rfl (.refl _ t)
  unfold StrategyRunner.evaluate
  refine keeps_bind (keeps_tried (keeps_evaluateOnce now pass)) fun x => ?_
  cases x with
  | ok _ => exact hcount fun _ => 0
  | error exc =>
    refine keeps_bind (hcount fun t => t.consecutiveErrors + 1) fun _ => keeps_bind keeps_get fun s₀ => ?_
    exact keeps_ite (keeps_reached_of_keeps fun t => keeps_engage _ (follows_ofBooks t _).core _) (keeps_pure _)

/-- **Every turn is a run of acts**, whether it returned or raised. -/
theorem turn_reached (hs : Sound s) {i : ℤ × RunnerStep σ} (h : turn w s i t) : Reached w s t := by
  obtain ⟨rfl, hlive⟩ := h
  obtain ⟨now, step⟩ := i
  have hstart : Reached w s s := ⟨hs, [], .nil s⟩
  cases step with
  | evaluation pass => exact triple_left (keeps_evaluate now pass) hstart
  | fillEvent atr update =>
    refine hstart.act (.event now atr update) rfl ?_
    obtain ⟨m, hm, hfollows⟩ := triple_left (triple_event (w := atInstant w now) (fun _ => False) atr update s) rfl
    exact hfollows.sound (taken_sound hs hm)
  | warmup stored => exact absurd rfl (hlive stored)

/-- **Every run of passes and events is a run of acts.** -/
theorem run_reached (hs : Sound s) {l : List (ℤ × RunnerStep σ)} (h : Run (turn w) s l t) : Reached w s t := by
  induction h with
  | nil s => exact ⟨hs, [], .nil s⟩
  | cons hturn _ ih =>
    obtain ⟨hsound, acts, hacts⟩ := turn_reached hs hturn
    obtain ⟨hend, acts', hacts'⟩ := ih hsound
    exact ⟨hend, acts ++ acts', run_append_iff.2 ⟨_, hacts, hacts'⟩⟩

end runner

/-! ## A target and an EXIT signal in one pass -/

open StopRatchet (openRouter)
open Tracking (runnerOf bootedWith passOf tenFilled)

/-- A key that tells purposes apart. -/
def byPurpose : List Piece → String
  | [_, _, _, .lit purpose, _] => purpose
  | _ => ""

/-- The venue accepts every order. -/
def acceptingRunner : StrategyRunner Unit Unit Unit Unit := runnerOf { openRouter with digest := byPurpose }

/-- Ten are held, to be sold at 110. -/
def targeted : RunnerState Unit Unit Unit :=
  bootedWith (Dict.empty.set "AAPL" { symbol := "AAPL", qty := 10, avgEntryPrice := 100, lastPrice := some 100,
                                      takeProfitPrice := some 110 })

/-- A bar that trades through the target. -/
def throughTarget : Bar where
  symbol := "AAPL"
  ts := 0
  timeframe := .d1
  «open» := 105
  high := 111
  low := 104
  close := 109
  volume := 1000
  openInside := by norm_num
  closeInside := by norm_num

theorem targeted_fit : Fit targeted where
  objects _ _ h := by cases h
  named symbol := by
    unfold targeted bootedWith Portfolio.position
    dsimp only
    rw [Dict.get?_set]
    split
    · rename_i h
      exact h.symm
    · rfl
  one h := by
    obtain ⟨-, ref, href, -⟩ := h
    cases href
  fits h := by
    obtain ⟨-, ref, href, -⟩ := h
    cases href

/-- The target is hit, and what is held is for sale. -/
def selling : RunnerState Unit Unit Unit :=
  (exec ((atInstant acceptingRunner 0).checkStop (passOf .exit) "AAPL" throughTarget) targeted).2

def sold : RunnerState Unit Unit Unit :=
  (atInstant acceptingRunner 1).after selling (.fillEvent (fun _ => none) (tenFilled "take_profit"))

/-- The target alone sells what is held, and its fill leaves nothing to close. -/
theorem closes_within_target : Within sold := by
  have hrun : Run (guarded (acting acceptingRunner) (Alone acceptingRunner)) targeted
      [.stop 0 (passOf .exit) "AAPL" throughTarget, .event 1 (fun _ => none) (tenFilled "take_profit")] sold := by
    refine .cons (t := selling) ⟨rfl, fun purpose _ _ k o hlive => ?_⟩
      (.cons ⟨rfl, fun ref before fill hfound _ _ _ hclose => ?_⟩ (.nil _))
    · obtain ⟨-, ref, href, -⟩ := hlive
      cases href
    · have hworks : (selling.tracked "take_profit").any (fun x => decide (LiveClose x.2)) = true := by decide +kernel
      have hkey : selling.tracked "take_profit" = some (ref, before) := hfound
      rw [hkey] at hworks
      exact absurd (of_decide_eq_true hworks) hclose
  exact closes_within (fun rule hrule => by cases hrule) targeted_fit hrun

/-- **A position of ten is sold twice**: the target's close and the EXIT signal's, of one pass, both work. -/
theorem closed_twice : ¬ ∀ (w : StrategyRunner Unit Unit Unit Unit) (s t : RunnerState Unit Unit Unit)
    (l : List (ℤ × RunnerStep Unit)), (∀ rule ∈ w.router.rules, rule.OnlyShrinks) → Fit s → Run (turn w) s l t → Within t := by
  intro h
  have hwithin := h acceptingRunner targeted _ [(0, .evaluation { passOf .exit with closed := [throughTarget] })]
    (fun rule hrule => by cases hrule) targeted_fit (.cons ⟨rfl, nofun⟩ (.nil _)) "AAPL"
  exact absurd hwithin (by decide +kernel)

end CloseOrders
end Atp
