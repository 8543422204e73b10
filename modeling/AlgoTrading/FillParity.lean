import AlgoTrading.BacktestExits
import AlgoTrading.Costs
import AlgoTrading.SimulatedBook
/-!
# FillParity — one order in the backtest and in the simulator

The backtest's `_fill_pending_for` and the simulator's `on_bar` each read a bar as an answer to an order: it raises, it
leaves the order resting, or it takes the order off the book.  `feed` is the order a list of bars leaves, given the
answers.  Each loop follows its own answer, and the two answers differ in one place: a DAY order on a bar that reaches
it and has no volume to give expires in the backtest and goes on resting in the simulator.
-/
namespace Atp
namespace Backtest

open Raising

/-- What a bar does to one order. -/
inductive Answer
  | raises
  | rests (o : Order)
  | leaves (o : Order)
deriving DecidableEq

/-- **The order a list of bars leaves**: a raise ends the feed, and so does an order off the book. -/
def feed (answer : Order → Bar → Answer) : Order → List Bar → Order
  | o, [] => o
  | o, bar :: rest =>
    match answer o bar with
    | .raises => o
    | .rests o' => feed answer o' rest
    | .leaves o' => o'

def expired (o : Order) : Order := { o with status := .expired }

section
variable {L σ τ : Type} (eng : BacktestEngine L σ τ)

/-- A fill took place: what is left of a DAY order expires. -/
def afterFill (o : Order) : Answer :=
  if 0 < o.remainingQty then if o.timeInForce = .day then .leaves (expired o) else .rests o
  else .leaves o

/-- What a bar answers an order, given what it answers one it reaches without volume. -/
def answerWith (thin : Order → Answer) (o : Order) (bar : Bar) : Answer :=
  match intendedPrice o bar false with
  | .error _ => .raises
  | .ok none => if o.timeInForce = .day then .leaves (expired o) else .rests o
  | .ok (some price) =>
    if fillPrice eng o bar price ≤ 0 then .raises
    else if fillQty eng o bar ≤ 0 then thin o
    else afterFill (o.accumulate (fillFor eng o bar price))

/-- The backtest's answer: `_execute` made no fill, and what remains of a DAY order expires. -/
def engineAnswer : Order → Bar → Answer :=
  answerWith eng fun o => if o.timeInForce = .day then .leaves (expired o) else .rests o

/-- The simulator's answer: the order is skipped. -/
def simulatorAnswer : Order → Bar → Answer := answerWith eng .rests

/-- **A bar that reaches an order and has no volume for it.** -/
def thin (o : Order) (bar : Bar) : Bool :=
  match intendedPrice o bar false with
  | .ok (some price) => 0 < fillPrice eng o bar price && volumeCap eng bar ≤ 0
  | _ => false

/-- A bar that does not reach an order. -/
def untouched (o : Order) (bar : Bar) : Bool :=
  match intendedPrice o bar false with
  | .ok none => true
  | _ => false

/-- **When the two fill alike**: unless a DAY order opens on a thin bar; and then still, if the first bar that is not
thin does not reach the order. -/
def FillsAlike (o : Order) (l : List Bar) : Prop :=
  o.timeInForce = .day → l.head?.any (thin eng o) = true →
    (l.dropWhile (thin eng o)).head?.any (untouched o) = true

variable {eng}
variable {o : Order} {bar : Bar}

theorem fillQty_nonpos (hroom : 0 < o.remainingQty) : fillQty eng o bar ≤ 0 ↔ volumeCap eng bar ≤ 0 := by
  unfold fillQty
  rw [min_le_iff]
  constructor
  · rintro (h | h)
    · exact absurd h (not_le.2 hroom)
    · exact h
  · exact .inr

/-- **What a bar can answer.**  Only on a thin bar does it matter what a thin bar is answered. -/
theorem answer_cases (eng : BacktestEngine L σ τ) (bar : Bar) (hroom : 0 < o.remainingQty) :
    (thin eng o bar = false ∧ untouched o bar = false ∧ ∀ f, answerWith eng f o bar = .raises) ∨
    (thin eng o bar = false ∧ untouched o bar = true ∧
      ∀ f, answerWith eng f o bar = if o.timeInForce = .day then .leaves (expired o) else .rests o) ∨
    (thin eng o bar = true ∧ ∀ f, answerWith eng f o bar = f o) ∨
    (thin eng o bar = false ∧ untouched o bar = false ∧
      ∃ fill, ∀ f, answerWith eng f o bar = afterFill (o.accumulate fill)) := by
  unfold thin untouched answerWith
  rcases intendedPrice o bar false with e | _ | price
  · exact .inl ⟨rfl, rfl, fun _ => rfl⟩
  · exact .inr (.inl ⟨rfl, rfl, fun _ => rfl⟩)
  dsimp only
  by_cases hprice : fillPrice eng o bar price ≤ 0
  · left
    refine ⟨by simp [hprice], rfl, fun _ => if_pos hprice⟩
  right; right
  by_cases hcap : volumeCap eng bar ≤ 0
  · left
    constructor
    · simpa [hcap] using hprice
    · intro f
      rw [if_neg hprice, if_pos ((fillQty_nonpos hroom).2 hcap)]
  · right
    refine ⟨by simp [hcap], rfl, fillFor eng o bar price, fun f => ?_⟩
    rw [if_neg hprice, if_neg (mt (fillQty_nonpos hroom).1 hcap)]

theorem accumulate_timeInForce (o : Order) (f : Fill) : (o.accumulate f).timeInForce = o.timeInForce := by
  unfold Order.accumulate
  dsimp only
  split <;> rfl

theorem afterFill_day (h : o.timeInForce = .day) : afterFill o = .leaves (if 0 < o.remainingQty then expired o else o) := by
  unfold afterFill
  rw [if_pos h]
  split <;> rfl

/-- The two answers are one but for a DAY order on a thin bar. -/
theorem answers_alike (hroom : 0 < o.remainingQty) (h : o.timeInForce ≠ .day ∨ thin eng o bar = false) :
    engineAnswer eng o bar = simulatorAnswer eng o bar := by
  unfold engineAnswer simulatorAnswer
  rcases answer_cases eng bar hroom with
    ⟨-, -, ha⟩ | ⟨-, -, ha⟩ | ⟨ht, ha⟩ | ⟨-, -, fill, ha⟩
  · rw [ha, ha]
  · rw [ha, ha]
  · rw [ha, ha]
    rcases h with h | h
    · rw [if_neg h]
    · rw [ht] at h
      cases h
  · rw [ha, ha]

/-- **An order goes on resting as it is, or filled with something left of it.** -/
theorem answerWith_rests {thinly : Order → Answer} (hroom : 0 < o.remainingQty)
    (hthin : ∀ o', thinly o = .rests o' → o' = o) {o' : Order} (h : answerWith eng thinly o bar = .rests o') :
    o' = o ∨ ∃ fill, o' = o.accumulate fill ∧ 0 < o'.remainingQty := by
  rcases answer_cases eng bar hroom with
    ⟨-, -, ha⟩ | ⟨-, -, ha⟩ | ⟨-, ha⟩ | ⟨-, -, fill, ha⟩ <;> rw [ha] at h
  · cases h
  · split at h
    · cases h
    · exact .inl (Answer.rests.inj h).symm
  · exact .inl (hthin o' h)
  · unfold afterFill at h
    split at h
    · rename_i hleft
      split at h
      · cases h
      · exact .inr ⟨fill, (Answer.rests.inj h).symm, Answer.rests.inj h ▸ hleft⟩
    · cases h

theorem engineAnswer_rests (hroom : 0 < o.remainingQty) {o' : Order} (h : engineAnswer eng o bar = .rests o') :
    0 < o'.remainingQty ∧ o'.timeInForce = o.timeInForce ∧ o'.symbol = o.symbol ∧ o'.id = o.id := by
  have hthin : ∀ o', (if o.timeInForce = .day then Answer.leaves (expired o) else .rests o) = .rests o' → o' = o := by
    intro o' h
    split at h
    · cases h
    · exact (Answer.rests.inj h).symm
  obtain rfl | ⟨fill, rfl, hleft⟩ := answerWith_rests hroom hthin h
  · exact ⟨hroom, rfl, rfl, rfl⟩
  · exact ⟨hleft, accumulate_timeInForce .., Order.accumulate_symbol .., Order.accumulate_id ..⟩

/-- An order that is not for the day is answered alike on every bar. -/
theorem feed_gtc : ∀ (l : List Bar) {o : Order}, 0 < o.remainingQty → o.timeInForce ≠ .day →
    feed (engineAnswer eng) o l = feed (simulatorAnswer eng) o l
  | [], _, _, _ => rfl
  | bar :: l, o, hroom, htif => by
    unfold feed
    rw [← answers_alike hroom (.inl htif)]
    cases ha : engineAnswer eng o bar with
    | raises => rfl
    | leaves o' => rfl
    | rests o' =>
      obtain ⟨hroom', htif', -⟩ := engineAnswer_rests hroom ha
      exact feed_gtc l hroom' (htif' ▸ htif)

/-- What a bar that is not thin answers a DAY order is final. -/
theorem day_final (hroom : 0 < o.remainingQty) (hday : o.timeInForce = .day) (h : thin eng o bar = false) (l : List Bar) :
    feed (engineAnswer eng) o (bar :: l) = feed (simulatorAnswer eng) o (bar :: l) := by
  unfold feed
  rw [← answers_alike hroom (.inr h)]
  unfold engineAnswer
  rcases answer_cases eng bar hroom with
    ⟨-, -, ha⟩ | ⟨-, -, ha⟩ | ⟨ht, -⟩ | ⟨-, -, fill, ha⟩
  · rw [ha]
  · rw [ha, if_pos hday]
  · rw [ht] at h
    cases h
  · rw [ha, afterFill_day (by rw [accumulate_timeInForce, hday])]

/-- **A DAY order kept over thin bars ends as it would have expired exactly when the next bar misses it.** -/
theorem feed_day (hroom : 0 < o.remainingQty) (hday : o.timeInForce = .day) (hst : o.status ≠ .expired) :
    ∀ l : List Bar, ((feed (simulatorAnswer eng) o l).fills = o.fills ∧
        (feed (simulatorAnswer eng) o l).status = .expired) ↔
      (l.dropWhile (thin eng o)).head?.any (untouched o) = true
  | [] => by simp [feed, hst]
  | bar :: l => by
    have ih := feed_day hroom hday hst l
    unfold feed simulatorAnswer
    rcases answer_cases eng bar hroom with
      ⟨ht, hu, ha⟩ | ⟨ht, hu, ha⟩ | ⟨ht, ha⟩ | ⟨ht, hu, fill, ha⟩
    · rw [ha, List.dropWhile_cons_of_neg (by simp [ht])]
      simp [hu, hst]
    · rw [ha, List.dropWhile_cons_of_neg (by simp [ht]), if_pos hday]
      simp [hu, expired]
    · rw [ha, List.dropWhile_cons_of_pos ht]
      exact ih
    · rw [ha, List.dropWhile_cons_of_neg (by simp [ht]), afterFill_day (by rw [accumulate_timeInForce, hday])]
      have hmore : (if 0 < (o.accumulate fill).remainingQty then expired (o.accumulate fill)
          else o.accumulate fill).fills = o.fills ++ [fill] := by
        split <;> simp [expired]
      dsimp only
      rw [hmore]
      simp [hu]

/-- What one reads of an order at the end: its fills and its status. -/
def account (o : Order) : List Fill × OrderStatus := (o.fills, o.status)

theorem feeds_alike (hroom : 0 < o.remainingQty) (hst : o.status ≠ .expired) (l : List Bar) :
    account (feed (simulatorAnswer eng) o l) = account (feed (engineAnswer eng) o l) ↔ FillsAlike eng o l := by
  unfold FillsAlike
  by_cases hday : o.timeInForce = .day
  · cases l with
    | nil => simp [feed]
    | cons bar l =>
      cases ht : thin eng o bar with
      | false =>
        rw [day_final hroom hday ht l]
        simp [ht]
      | true =>
        have hengine : feed (engineAnswer eng) o (bar :: l) = expired o := by
          unfold feed engineAnswer
          rcases answer_cases eng bar hroom with
            ⟨h, -, -⟩ | ⟨h, -, -⟩ | ⟨-, ha⟩ | ⟨h, -, -⟩
          · rw [ht] at h; cases h
          · rw [ht] at h; cases h
          · rw [ha, if_pos hday]
          · rw [ht] at h; cases h
        rw [hengine, ← feed_day hroom hday hst]
        simp [account, expired, hday, ht]
  · rw [feed_gtc l hroom hday]
    simp [hday]

end

/-! ## The backtest follows its answer -/

section
variable {L σ τ : Type} {eng : BacktestEngine L σ τ} (bars : Dict String (List Bar))
variable {o : Order} {bar : Bar} {r : Replay σ τ}

/-- A positive fill is always booked, and touches neither the queue nor the rows. -/
theorem bookFill_isOk (eng : BacktestEngine L σ τ) (o : Order) {f : Fill} (s : EngineState σ τ) (hpos : 0 < f.qty) :
    ∃ t, bookFill eng bars o f s = .ok t ∧ t.pending = s.pending ∧ t.orders = s.orders := by
  obtain ⟨portfolio, hp⟩ := Portfolio.applyToPortfolio_isOk s.portfolio o f hpos
  unfold bookFill
  rw [hp]
  dsimp only
  split <;> exact ⟨_, rfl, rfl, rfl⟩

theorem warnCapped_frame (eng : BacktestEngine L σ τ) (o : Order) (bar : Bar) (s : EngineState σ τ) :
    (warnCapped eng o bar s).pending = s.pending ∧ (warnCapped eng o bar s).orders = s.orders := by
  unfold warnCapped
  split <;> exact ⟨rfl, rfl⟩

/-- What `_execute` does, by the price and by the quantity the bar allows. -/
theorem exec_execute (eng : BacktestEngine L σ τ) (o : Order) (bar : Bar) (price : ℚ) (r : Replay σ τ) :
    (fillPrice eng o bar price ≤ 0 ∧ ∃ e, exec (execute eng bars o bar price) r = (.error e, r)) ∨
    (0 < fillPrice eng o bar price ∧ fillQty eng o bar ≤ 0 ∧ ∃ q, exec (execute eng bars o bar price) r = (.ok o, q) ∧
      q.state.pending = r.state.pending ∧ q.state.orders = r.state.orders) ∨
    (0 < fillPrice eng o bar price ∧ 0 < fillQty eng o bar ∧ ∃ q,
      exec (execute eng bars o bar price) r = (.ok (o.accumulate (fillFor eng o bar price)), q) ∧
      q.state.pending = r.state.pending ∧
      q.state.orders = r.state.orders.set o.id (o.accumulate (fillFor eng o bar price))) := by
  unfold execute
  by_cases hprice : fillPrice eng o bar price ≤ 0
  · left
    rw [if_pos hprice]
    exact ⟨hprice, _, rfl⟩
  right
  rw [if_neg hprice]
  obtain ⟨hpend, hrows⟩ := warnCapped_frame eng o bar r.state
  by_cases hqty : fillQty eng o bar ≤ 0
  · left
    rw [if_pos hqty]
    exact ⟨not_le.1 hprice, hqty, _, rfl, hpend, hrows⟩
  right
  have hfill : o.applyFill (fillFor eng o bar price) = .ok (o.accumulate (fillFor eng o bar price)) :=
    Order.applyFill_ok.2 ⟨not_le.1 hqty, min_le_left _ _, rfl⟩
  obtain ⟨t, ht, htp, hto⟩ := bookFill_isOk bars eng o (f := fillFor eng o bar price)
    (warnCapped eng o bar r.state) (not_le.1 hqty)
  rw [if_neg hqty]
  simp only [update, observe, note, exec_bind, exec_modify, exec_map, exec_get, exec_fromExcept, hfill, ht, exec_pure]
  refine ⟨not_le.1 hprice, not_le.1 hqty, _, rfl, htp.trans hpend, ?_⟩
  simp only [EngineState.record, hto, hrows, Order.accumulate_id]

/-- The order is the one queued, and its row is as it is. -/
structure Queued (o : Order) (r : Replay σ τ) : Prop where
  pending : r.state.pending = [o]
  row : r.state.orders.get? o.id = some o

/-- The answer a run of `_fill_pending_for` gave to the one order queued. -/
def Gave (id : String) (x : Except Exc PUnit × Replay σ τ) (o : Order) : Answer → Prop
  | .raises => (∃ e, x.1 = .error e) ∧ x.2.state.orders.get? id = some o
  | .rests o' => x.1 = .ok ⟨⟩ ∧ Queued o' x.2
  | .leaves o' => x.1 = .ok ⟨⟩ ∧ x.2.state.pending = [] ∧ x.2.state.orders.get? id = some o'

theorem engine_gave (eng : BacktestEngine L σ τ) (h : Queued o r) (hroom : 0 < o.remainingQty) (hsym : o.symbol = bar.symbol) :
    Gave o.id (exec (fillPendingFor eng bars bar) r) o (engineAnswer eng o bar) := by
  unfold fillPendingFor observe
  rw [exec_bind, exec_map, exec_get]
  dsimp only
  rw [h.pending, exec_bind]
  unfold fillResting
  rw [if_neg (not_not.2 hsym), exec_bind, exec_fromExcept]
  unfold engineAnswer answerWith
  rcases intendedPrice o bar false with e | _ | price
  · exact ⟨⟨e, rfl⟩, h.row⟩
  · by_cases hday : o.timeInForce = .day
    · simp only [if_pos hday]
      exact ⟨rfl, rfl, Dict.get?_set_self ..⟩
    · simp only [if_neg hday]
      exact ⟨rfl, rfl, h.row⟩
  dsimp only
  rw [exec_bind]
  rcases exec_execute bars eng o bar price r with
    ⟨hprice, e, he⟩ | ⟨hprice, hqty, q, hq, -, hrows⟩ | ⟨hprice, hqty, q, hq, -, hrows⟩
  · rw [he, if_pos hprice]
    exact ⟨⟨e, rfl⟩, h.row⟩
  · rw [hq, if_neg (not_le.2 hprice), if_pos hqty]
    dsimp only
    rw [if_pos hroom]
    by_cases hday : o.timeInForce = .day
    · simp only [if_pos hday]
      exact ⟨rfl, rfl, Dict.get?_set_self ..⟩
    · simp only [if_neg hday]
      exact ⟨rfl, rfl, hrows ▸ h.row⟩
  · rw [hq, if_neg (not_le.2 hprice), if_neg (not_le.2 hqty)]
    unfold afterFill
    rw [accumulate_timeInForce]
    have hid := Order.accumulate_id o (fillFor eng o bar price)
    have hrow : q.state.orders.get? o.id = some (o.accumulate (fillFor eng o bar price)) :=
      hrows ▸ Dict.get?_set_self ..
    by_cases hleft : 0 < (o.accumulate (fillFor eng o bar price)).remainingQty <;>
      by_cases hday : o.timeInForce = .day <;> simp only [hleft, hday, if_true, if_false]
    · refine ⟨rfl, rfl, ?_⟩
      rw [← hid]
      exact Dict.get?_set_self ..
    · exact ⟨rfl, rfl, hid ▸ hrow⟩
    · exact ⟨rfl, rfl, hrow⟩
    · exact ⟨rfl, rfl, hrow⟩

/-- With nothing queued a bar changes no row. -/
theorem engine_idle : ∀ (l : List Bar) (r : Replay σ τ), r.state.pending = [] →
    (exec (l.forM (fillPendingFor eng bars)) r).2.state.orders = r.state.orders
  | [], _, _ => rfl
  | bar :: l, r, h => by
    show (exec (fillPendingFor eng bars bar >>= fun _ => l.forM (fillPendingFor eng bars)) r).2.state.orders = _
    rw [exec_bind]
    have hbar : exec (fillPendingFor eng bars bar) r =
        (.ok ⟨⟩, { r with state := { r.state with pending := [] } }) := by
      unfold fillPendingFor observe
      rw [exec_bind, exec_map, exec_get]
      dsimp only
      rw [h]
      rfl
    rw [hbar]
    exact engine_idle l _ rfl

/-- **Fed a list of bars, the backtest leaves the order its answers leave.** -/
theorem engine_feed : ∀ (l : List Bar) {o : Order} {r : Replay σ τ}, Queued o r → 0 < o.remainingQty →
    (∀ bar ∈ l, o.symbol = bar.symbol) →
    (exec (l.forM (fillPendingFor eng bars)) r).2.state.orders.get? o.id = some (feed (engineAnswer eng) o l)
  | [], _, _, h, _, _ => h.row
  | bar :: l, o, r, h, hroom, hsym => by
    have hgave := engine_gave bars eng h hroom (hsym bar (List.mem_cons_self ..))
    show (exec (fillPendingFor eng bars bar >>= fun _ => l.forM (fillPendingFor eng bars)) r).2.state.orders.get? _ = _
    rw [exec_bind, feed]
    generalize exec (fillPendingFor eng bars bar) r = done at hgave ⊢
    obtain ⟨x, q⟩ := done
    cases ha : engineAnswer eng o bar with
    | raises =>
      rw [ha] at hgave
      obtain ⟨⟨e, rfl⟩, hrow⟩ := hgave
      exact hrow
    | rests o' =>
      rw [ha] at hgave
      obtain ⟨rfl, hq⟩ := hgave
      obtain ⟨hroom', -, hsym', hid⟩ := engineAnswer_rests hroom ha
      have ih := engine_feed l hq hroom' fun b hb => hsym'.trans (hsym b (List.mem_cons_of_mem _ hb))
      rwa [hid] at ih
    | leaves o' =>
      rw [ha] at hgave
      obtain ⟨rfl, hpend, hrow⟩ := hgave
      dsimp only
      rw [engine_idle bars l q hpend, hrow]

end

/-! ## The simulator follows its answer -/

section
variable {L σ τ : Type} {eng : BacktestEngine L σ τ} {b : SimulatedBroker}
variable {o : Order} {bar : Bar} {s : SimulatedBook} {id : String} {now : ℤ}

/-- The simulator set up as the backtest is: one cost model, one volume cap, and a touch that fills. -/
structure Twin (b : SimulatedBroker) (eng : BacktestEngine L σ τ) : Prop where
  costModel : b.costModel = eng.costModel
  maxVolumeParticipation : b.maxVolumeParticipation = eng.config.maxVolumeParticipation
  requireThrough : b.requireThrough = false
  costs : ReadsTerms eng.costModel

/-- The venue's record of an order. -/
def recordOf (id : String) (now : ℤ) (o : Order) : Order := stamped (some id) (some now) o

/-- The order is the one the broker holds, and it is open. -/
structure Resting (id : String) (now : ℤ) (o : Order) (s : SimulatedBook) : Prop where
  open_ : s.openOrders.entries = [(id, recordOf id now o)]
  filled : s.filled = []

/-- The order is the one the broker holds, and it is closed. -/
structure Closed (id : String) (now : ℤ) (o : Order) (s : SimulatedBook) : Prop where
  open_ : s.openOrders.entries = []
  filled : s.filled = [recordOf id now o]

/-- The answer `on_bar` gave to the one order open. -/
def Answered (id : String) (now : ℤ) (x : Except Exc PUnit × SimulatedBook) (o : Order) : Answer → Prop
  | .raises => (∃ e, x.1 = .error e) ∧ Resting id now o x.2
  | .rests o' => x.1 = .ok ⟨⟩ ∧ Resting id now o' x.2
  | .leaves o' => x.1 = .ok ⟨⟩ ∧ Closed id now o' x.2

/-- One bar handed to the broker. -/
def takeBar (b : SimulatedBroker) (bar : Bar) : Prog SimulatedBook Exc PUnit := do
  let _ ← b.onBar bar
  return ⟨⟩

theorem recordOf_accumulate (o : Order) (f : Fill) : (recordOf id now o).accumulate f = recordOf id now (o.accumulate f) := by
  unfold recordOf stamped Order.accumulate Order.remainingQty Order.filledNotional
  dsimp only
  split_ifs <;> rfl

theorem Twin.fillOf (h : Twin b eng) (o : Order) (bar : Bar) (price : ℚ) :
    b.fillOf (recordOf id now o) (fillQty eng o bar) (fillPrice eng o bar price) bar.ts = fillFor eng o bar price := by
  unfold SimulatedBroker.fillOf fillFor
  rw [h.costModel, recordOf, h.costs.commission]
  rfl

theorem Resting.rewritten (h : Resting id now o s) (o' : Order) : Resting id now o' (s.rewrite (recordOf id now o')) where
  open_ := by
    show Dict.upsert id _ s.openOrders.entries = _
    rw [h.open_, Dict.upsert, if_pos rfl]
  filled := h.filled

theorem Resting.retired (h : Resting id now o s) (st : OrderStatus) {o' : Order}
    (ho : SimulatedBroker.retired (recordOf id now o) st = recordOf id now o') :
    Closed id now o' (s.retire (recordOf id now o) st) where
  open_ := by
    show List.filter _ s.openOrders.entries = []
    rw [h.open_]
    simp
  filled := by
    rw [SimulatedBroker.retire_filled, h.filled, ho]
    rfl

theorem Resting.booked (h : Resting id now o s) (f : Fill) :
    Resting id now (o.accumulate f) (SimulatedBroker.booked (recordOf id now o) f s) := by
  have hrw := h.rewritten (o.accumulate f)
  rw [← recordOf_accumulate] at hrw
  exact ⟨hrw.open_, hrw.filled⟩

/-- A pass over one order leaves what its body leaves. -/
theorem exec_matchOne (body : Order → Prog SimulatedBook Exc (Option Order)) (x : Order) (s : SimulatedBook) :
    exec (SimulatedBroker.matchEach body [x]) s =
      ((exec (body x) s).1.map Option.toList, (exec (body x) s).2) := by
  unfold SimulatedBroker.matchEach SimulatedBroker.matchEach
  rw [exec_bind]
  rcases exec (body x) s with ⟨_ | shown, t⟩
  · rfl
  · dsimp only
    rw [exec_bind, exec_pure]
    simp [Except.map]

/-- With one order open, and eligible, a bar is matched against it alone. -/
theorem exec_takeBar (h : Resting id now o s) (hsym : o.symbol = bar.symbol) (hnow : now ≤ bar.ts) :
    exec (takeBar b bar) s =
      ((exec (b.matchBar bar (recordOf id now o)) s).1.map fun _ => ⟨⟩, (exec (b.matchBar bar (recordOf id now o)) s).2) := by
  have hopen : s.openOrders.values = [recordOf id now o] := by
    unfold Dict.values
    rw [h.open_]
    rfl
  have hmay : (recordOf id now o).symbol = bar.symbol ∧ SimulatedBroker.mayFillOn (recordOf id now o) bar = true :=
    ⟨hsym, decide_eq_true hnow⟩
  have hone : SimulatedBroker.stopFirst [recordOf id now o] = [recordOf id now o] := by
    unfold SimulatedBroker.stopFirst
    by_cases ht : (recordOf id now o).orderType = .stop <;> simp [ht]
  unfold takeBar SimulatedBroker.onBar
  rw [exec_bind, exec_bind, exec_get]
  dsimp only
  rw [hopen, List.filter_cons_of_pos (by simp [hmay]), List.filter_nil, hone, exec_matchOne]
  rcases exec (b.matchBar bar (recordOf id now o)) s with ⟨_ | shown, t⟩ <;> rfl

theorem broker_answered (h : Resting id now o s) (htwin : Twin b eng) (hv : o.postInit = .ok o)
    (hsym : o.symbol = bar.symbol) (hnow : now ≤ bar.ts) :
    Answered id now (exec (takeBar b bar) s) o (simulatorAnswer eng o bar) := by
  have hv' : (recordOf id now o).postInit = .ok (recordOf id now o) :=
    SimulatedBroker.postInit_terms hv rfl rfl rfl rfl
  have hexpire : ∀ x : Order, SimulatedBroker.retired (recordOf id now x) .expired = recordOf id now (expired x) :=
    fun _ => rfl
  have hprice : ∀ price, price + b.costModel.slippage (recordOf id now o) bar price = fillPrice eng o bar price := by
    intro price
    unfold fillPrice
    rw [htwin.costModel, recordOf, htwin.costs.slippage]
  have hqty : min (recordOf id now o).remainingQty (b.maxVolumeParticipation * bar.volume) = fillQty eng o bar := by
    unfold fillQty volumeCap
    rw [htwin.maxVolumeParticipation]
    rfl
  have htouch : intendedPrice (recordOf id now o) bar b.requireThrough = intendedPrice o bar false := by
    rw [htwin.requireThrough]
    rfl
  rw [exec_takeBar h hsym hnow]
  unfold SimulatedBroker.matchBar
  rw [htouch, exec_bind, exec_fromExcept]
  unfold simulatorAnswer answerWith
  rcases intendedPrice o bar false with e | _ | price
  · exact ⟨⟨e, rfl⟩, h⟩
  · by_cases hday : o.timeInForce = .day
    · have hday' : (recordOf id now o).timeInForce = .day := hday
      simp only [if_pos hday, if_pos hday']
      exact ⟨rfl, h.retired .expired (hexpire o)⟩
    · have hday' : (recordOf id now o).timeInForce ≠ .day := hday
      simp only [if_neg hday, if_neg hday']
      exact ⟨rfl, h⟩
  dsimp only
  rw [hprice, hqty]
  by_cases hp : fillPrice eng o bar price ≤ 0
  · rw [if_pos hp, if_pos hp]
    exact ⟨⟨_, rfl⟩, h⟩
  rw [if_neg hp, if_neg hp]
  by_cases hq : fillQty eng o bar ≤ 0
  · rw [if_pos hq, if_pos hq]
    exact ⟨rfl, h⟩
  have hroom : (fillFor eng o bar price).qty ≤ (recordOf id now o).remainingQty := min_le_left _ _
  rw [if_neg hq, if_neg hq, htwin.fillOf, exec_bind,
    SimulatedBroker.exec_book s (not_le.1 hq : 0 < (fillFor eng o bar price).qty) hroom]
  dsimp only
  rw [exec_bind, exec_fromExcept, SimulatedBroker.accumulate_postInit _ hv', recordOf_accumulate]
  have hbooked := h.booked (fillFor eng o bar price)
  have hleft : 0 ≤ (o.accumulate (fillFor eng o bar price)).remainingQty := by
    rw [Order.accumulate_remainingQty]
    exact sub_nonneg.2 hroom
  have hrem : ∀ x, (recordOf id now x).remainingQty = x.remainingQty := fun _ => rfl
  have htif : ∀ x, (recordOf id now x).timeInForce = x.timeInForce := fun _ => rfl
  generalize o.accumulate (fillFor eng o bar price) = o' at hbooked hleft ⊢
  unfold afterFill
  rw [hrem, htif]
  by_cases hsome : 0 < o'.remainingQty
  · by_cases hday : o'.timeInForce = .day
    · simp only [if_pos hsome, if_pos hday, if_pos (And.intro hsome hday)]
      exact ⟨rfl, hbooked.retired .expired (hexpire o')⟩
    · simp only [if_pos hsome, if_neg hday, if_neg hsome.ne', if_neg (fun hn : _ ∧ _ => hday hn.2)]
      exact ⟨rfl, hbooked⟩
  · have hzero : o'.remainingQty = 0 := le_antisymm (not_lt.1 hsome) hleft
    simp only [if_neg hsome, if_pos hzero, if_neg (fun hn : _ ∧ _ => hsome hn.1)]
    exact ⟨rfl, hbooked.retired .filled rfl⟩

/-- With nothing open a bar changes nothing. -/
theorem broker_idle (b : SimulatedBroker) (h : s.openOrders.entries = []) : ∀ l : List Bar,
    (exec (l.forM (takeBar b)) s).2 = s
  | [] => rfl
  | bar :: l => by
    show (exec (takeBar b bar >>= fun _ => l.forM (takeBar b)) s).2 = s
    have hvalues : s.openOrders.values = [] := by
      unfold Dict.values
      rw [h]
      rfl
    have hbar : exec (takeBar b bar) s = (.ok ⟨⟩, s) := by
      unfold takeBar SimulatedBroker.onBar
      rw [exec_bind, exec_bind, exec_get]
      dsimp only
      rw [hvalues]
      rfl
    rw [exec_bind, hbar]
    exact broker_idle b h l

theorem Resting.found (h : Resting id now o s) : s.findOrder id = some (recordOf id now o) := by
  unfold SimulatedBook.findOrder Dict.get?
  rw [h.open_, Dict.lookup, if_pos rfl, Option.some_or]

theorem Closed.found (h : Closed id now o s) : s.findOrder id = some (recordOf id now o) := by
  unfold SimulatedBook.findOrder Dict.get?
  rw [h.open_, h.filled, Dict.lookup, Option.none_or]
  simp [recordOf, stamped]

theorem simulatorAnswer_rests (hroom : 0 < o.remainingQty) (hv : o.postInit = .ok o) {o' : Order}
    (h : simulatorAnswer eng o bar = .rests o') :
    0 < o'.remainingQty ∧ o'.symbol = o.symbol ∧ o'.postInit = .ok o' := by
  obtain rfl | ⟨fill, rfl, hleft⟩ := answerWith_rests hroom (fun o' h => (Answer.rests.inj h).symm) h
  · exact ⟨hroom, rfl, hv⟩
  · exact ⟨hleft, Order.accumulate_symbol .., SimulatedBroker.accumulate_postInit _ hv⟩

/-- **Fed a list of bars, the simulator leaves the order its answers leave.** -/
theorem broker_feed (htwin : Twin b eng) : ∀ (l : List Bar) {o : Order} {s : SimulatedBook}, Resting id now o s →
    0 < o.remainingQty → o.postInit = .ok o → (∀ bar ∈ l, o.symbol = bar.symbol ∧ now ≤ bar.ts) →
    (exec (l.forM (takeBar b)) s).2.findOrder id = some (recordOf id now (feed (simulatorAnswer eng) o l))
  | [], _, _, h, _, _, _ => h.found
  | bar :: l, o, s, h, hroom, hv, hbars => by
    obtain ⟨hsym, hnow⟩ := hbars bar (List.mem_cons_self ..)
    have hgave := broker_answered h htwin hv hsym hnow
    show (exec (takeBar b bar >>= fun _ => l.forM (takeBar b)) s).2.findOrder id = _
    rw [exec_bind, feed]
    generalize exec (takeBar b bar) s = done at hgave ⊢
    obtain ⟨x, t⟩ := done
    cases ha : simulatorAnswer eng o bar with
    | raises =>
      rw [ha] at hgave
      obtain ⟨⟨e, rfl⟩, ht⟩ := hgave
      exact ht.found
    | rests o' =>
      rw [ha] at hgave
      obtain ⟨rfl, ht⟩ := hgave
      obtain ⟨hroom', hsym', hv'⟩ := simulatorAnswer_rests hroom hv ha
      apply broker_feed htwin l ht hroom' hv'
      intro next hnext
      exact ⟨hsym'.trans (hbars next (List.mem_cons_of_mem _ hnext)).1, (hbars next (List.mem_cons_of_mem _ hnext)).2⟩
    | leaves o' =>
      rw [ha] at hgave
      obtain ⟨rfl, ht⟩ := hgave
      dsimp only
      rw [broker_idle b ht.open_ l, ht.found]

end

/-! ## Both fed the same -/

/-- An order as the engine queues it: built, approved, and not yet filled. -/
structure NewOrder (o : Order) : Prop where
  built : o.postInit = .ok o
  status : o.status = .submitted
  filledQty : o.filledQty = 0
  fills : o.fills = []

/-- The order submitted to a simulator that holds no other, and then the bars. -/
def simulate (b : SimulatedBroker) (now : ℤ) (o : Order) (l : List Bar) : Prog SimulatedBook Exc PUnit := do
  let _ ← SimulatedBroker.submitOrder now o
  l.forM (takeBar b)

section
variable {L σ τ : Type} {eng : BacktestEngine L σ τ} {b : SimulatedBroker} {o : Order}

/-- What the simulator shows of the order at the end. -/
def simulated (b : SimulatedBroker) (now : ℤ) (o : Order) (l : List Bar) : Option (List Fill × OrderStatus) :=
  ((exec (simulate b now o l) b.start).2.findOrder (simId 1)).map account

/-- A backtest in which the order is the one queued. -/
def queued (o : Order) (s : EngineState σ τ) (log : List (Event σ τ)) : Replay σ τ :=
  { state := { s.record o with pending := [o] }, log := log }

/-- What the result shows of the order at the end. -/
def replayed (eng : BacktestEngine L σ τ) (bars : Dict String (List Bar)) (s : EngineState σ τ) (log : List (Event σ τ))
    (o : Order) (l : List Bar) : Option (List Fill × OrderStatus) :=
  ((exec (l.forM (fillPendingFor eng bars)) (queued o s log)).2.state.orders.get? o.id).map account

/-- **The simulator and the backtest fill an order alike exactly when `FillsAlike` says so**: on every bar sequence that
follows the order, whatever its type, side and time in force. -/
theorem fills_alike_iff (htwin : Twin b eng) (hnew : NewOrder o) (bars : Dict String (List Bar)) (s : EngineState σ τ)
    (log : List (Event σ τ)) (now : ℤ) (l : List Bar) (hbars : ∀ bar ∈ l, o.symbol = bar.symbol ∧ now ≤ bar.ts) :
    simulated b now o l = replayed eng bars s log o l ↔ FillsAlike eng o l := by
  have hroom : 0 < o.remainingQty := by
    unfold Order.remainingQty
    rw [hnew.filledQty, sub_zero]
    exact (Order.postInit_ok hnew.built).2.1
  have hrecord : SimulatedBroker.acceptedOrder now (simId 1) o = recordOf (simId 1) now o := by
    unfold SimulatedBroker.acceptedOrder recordOf stamped
    rw [← hnew.status, ← hnew.fills]
  have hvalid : (recordOf (simId 1) now o).postInit = .ok (recordOf (simId 1) now o) :=
    SimulatedBroker.postInit_terms hnew.built rfl rfl rfl rfl
  have ht := SimulatedBroker.submit_accepts (s := b.start) (o := o) rfl now (hrecord ▸ hvalid)
  have hrest : Resting (simId 1) now o (SimulatedBroker.accepted now o b.start) := by
    constructor
    · rw [← hrecord]
      rfl
    · rfl
  have hsim : simulated b now o l = some (account (feed (simulatorAnswer eng) o l)) := by
    unfold simulated simulate
    rw [exec_bind, ht]
    dsimp only
    rw [broker_feed htwin l hrest hroom hnew.built hbars]
    rfl
  have hrep : replayed eng bars s log o l = some (account (feed (engineAnswer eng) o l)) := by
    unfold replayed
    rw [engine_feed bars l ⟨rfl, Dict.get?_set_self ..⟩ hroom fun bar hb => (hbars bar hb).1]
    rfl
  rw [hsim, hrep, Option.some.injEq]
  apply feeds_alike hroom
  rw [hnew.status]
  exact fun h => by cases h

end

theorem hundred_le_hundred : (100 : ℚ) ≤ 100 := by decide +kernel

/-- A bar at one hundred on which `volume` traded. -/
def barAt (day : ℤ) (volume : ℚ) : Bar := { dayBar day 100 hundred_le_hundred with volume := volume }

def buyFor (timeInForce : TimeInForce) : Order :=
  { symbol := "SPY", side := .buy, qty := 10, timeInForce := timeInForce, id := "o1", clientOrderId := "c1",
    status := .submitted, createdAt := some 0, submittedAt := some 0 }

/-- A session in which nothing traded, and the next one. -/
def stillThenLive : List Bar := [barAt 1 0, barAt 2 1000]

def twinBroker : SimulatedBroker := { costModel := buyThenExit.costModel }

theorem twinBroker_twin : Twin twinBroker buyThenExit := ⟨rfl, rfl, rfl, readsTerms_zero⟩

theorem buyFor_new (timeInForce : TimeInForce) : NewOrder (buyFor timeInForce) :=
  ⟨by cases timeInForce <;> decide +kernel, rfl, rfl, rfl⟩

theorem stillThenLive_follows (timeInForce : TimeInForce) :
    ∀ bar ∈ stillThenLive, (buyFor timeInForce).symbol = bar.symbol ∧ 86400 ≤ bar.ts := by
  intro bar hbar
  simp only [stillThenLive, List.mem_cons, List.not_mem_nil, or_false] at hbar
  rcases hbar with rfl | rfl <;> exact ⟨rfl, by decide⟩

theorem fills_alike_gtc :
    simulated twinBroker 86400 (buyFor .gtc) stillThenLive =
      replayed buyThenExit .empty freshBook.state [] (buyFor .gtc) stillThenLive :=
  (fills_alike_iff twinBroker_twin (buyFor_new .gtc) .empty freshBook.state [] 86400 stillThenLive
    (stillThenLive_follows .gtc)).2 fun h => by cases h

/-- **A DAY order outlives a session without volume in the simulator, and fills in the next.** -/
theorem day_order_kept :
    ((simulated twinBroker 86400 (buyFor .day) stillThenLive).map Prod.snd = some .filled ∧
      replayed buyThenExit .empty freshBook.state [] (buyFor .day) stillThenLive = some ([], .expired)) ∧
    ¬ ∀ (b : SimulatedBroker) (eng : BacktestEngine Unit Unit ℕ) (o : Order), Twin b eng → NewOrder o →
      ∀ (bars : Dict String (List Bar)) (s : EngineState Unit ℕ) (log : List (Event Unit ℕ)) (now : ℤ) (l : List Bar),
        (∀ bar ∈ l, o.symbol = bar.symbol ∧ now ≤ bar.ts) → simulated b now o l = replayed eng bars s log o l := by
  have hsim : (simulated twinBroker 86400 (buyFor .day) stillThenLive).map Prod.snd = some .filled := by decide +kernel
  have hrep : replayed buyThenExit .empty freshBook.state [] (buyFor .day) stillThenLive = some ([], .expired) := by
    decide +kernel
  refine ⟨⟨hsim, hrep⟩, fun h => ?_⟩
  rw [h _ _ _ twinBroker_twin (buyFor_new .day) .empty freshBook.state [] _ _ (stillThenLive_follows .day), hrep] at hsim
  cases hsim

end Backtest
end Atp
