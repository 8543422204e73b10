import AlgoTrading.Runs
import AlgoTrading.TradeUpdates
/-!
# OrderLedger — what any delivery of events keeps of an order

The venue delivers its events at least once and in any order, and the applier may raise in the middle.  Whatever is
delivered, the order's running totals stay the totals of its recorded fills: `Ledger` is that invariant,
`ledger_delivered` its step, and `ledger_deliveries` its run.  `FreshOrder` is an order the venue has been sent and
nothing has been heard about, and `AdapterUpdate` an update of the shape the adapter emits.
-/
namespace Atp
namespace TradeUpdates

open Raising Runs State

structure AdapterShape (u : TradeUpdate) : Prop where
  fillQty : ∀ f, u.fill = some f → 0 < f.qty
  fillPrice : ∀ f, u.fill = some f → 0 < f.price
  fillStatus : u.fill ≠ none → u.status = none
  notFilled : u.status ≠ some .filled
  notPartial : u.status ≠ some .partiallyFilled

structure AdapterUpdate where
  update : TradeUpdate
  shape : AdapterShape update

structure FreshOrder where
  order : Order
  positive : 0 < order.qty
  pending : order.status = .pendingRisk ∨ order.status = .pendingSubmit ∨ order.status = .submitted
  noFills : order.fills = []
  unfilled : order.filledQty = 0
  noAverage : order.avgFillPrice = none

/-- One delivery: the order is left as `apply_trade_update` leaves it, whether it returned or raised. -/
def deliver (o : Order) (u : AdapterUpdate) (o' : Order) : Prop := o' = (exec (applyTradeUpdate u.update) o).2

/-- **The ledger of an order for `q`**: the running totals are the recorded fills', and a full order is `FILLED`. -/
structure Ledger (q : ℚ) (o : Order) : Prop where
  ordered : o.qty = q
  booked : o.Booked
  complete : o.status = .filled ↔ o.filledQty = q
  distinct : o.fills.Pairwise (fun f g => ∀ v, f.venueFillId = some v → g.venueFillId ≠ some v)

theorem alreadySeen_false {o : Order} {f : Fill} (h : alreadySeen o f = false) :
    ∀ g ∈ o.fills, ∀ v, g.venueFillId = some v → f.venueFillId ≠ some v := by
  intro g hg v hgv hfv
  unfold alreadySeen at h
  rw [hfv] at h
  simp only [List.any_eq_false] at h
  exact h g hg (by simp [hgv])

theorem booked_congr {o o' : Order} (hf : o'.fills = o.fills) (hq : o'.filledQty = o.filledQty)
    (ha : o'.avgFillPrice = o.avgFillPrice) (hs : o'.qty = o.qty) (h : o.Booked) : o'.Booked := by
  refine ⟨?_, ?_, ?_, ?_, ?_⟩
  · rw [hq, hf]; exact h.filled
  · rw [hq, hs]; exact h.bounded
  · rw [hf]; exact h.positive
  · have := h.notional
    unfold Order.filledNotional at this ⊢
    rw [ha, hq, hf, this]
  · rw [ha, hf]; exact h.averaged

theorem booked_adopted {o : Order} (u : TradeUpdate) (h : o.Booked) : (adopted o u).Booked :=
  booked_congr (by simp) (by simp) (by simp) (by simp) h

theorem booked_walked {o : Order} (a : ℤ) (h : o.Booked) : (walked o a).Booked :=
  booked_congr (by simp) (by simp) (by simp) (by simp) h

theorem ledger_fresh (o : FreshOrder) : Ledger o.order.qty o.order := by
  have hpos := o.positive
  refine ⟨rfl, ⟨?_, ?_, ?_, ?_, fun _ => o.noFills⟩, ?_, ?_⟩
  · simp [o.unfilled, o.noFills]
  · rw [o.unfilled]; exact hpos.le
  · simp [o.noFills]
  · simp [Order.filledNotional, o.unfilled, o.noFills]
  · rw [o.unfilled]
    constructor
    · intro h
      rcases o.pending with hp | hp | hp <;> rw [hp] at h <;> cases h
    · intro h
      exact absurd h hpos.ne
  · simp [o.noFills]

/-- A change of status to or from anything but `FILLED` keeps the ledger when the totals are kept. -/
theorem ledger_congr {q : ℚ} {o o' : Order} (h : Ledger q o) (hf : o'.fills = o.fills)
    (hq : o'.filledQty = o.filledQty) (ha : o'.avgFillPrice = o.avgFillPrice) (hs : o'.qty = o.qty)
    (hst : o'.status = .filled ↔ o.status = .filled) : Ledger q o' := by
  refine ⟨hs.trans h.ordered, booked_congr hf hq ha hs h.booked, ?_, ?_⟩
  · rw [hst, h.complete, hq]
  · rw [hf]; exact h.distinct

theorem ledger_adopted {q : ℚ} {o : Order} (u : TradeUpdate) (h : Ledger q o) : Ledger q (adopted o u) :=
  ledger_congr h (by simp) (by simp) (by simp) (by simp) (by simp)

theorem ledger_walked {q : ℚ} {o : Order} (a : ℤ) (h : Ledger q o) : Ledger q (walked o a) := by
  refine ledger_congr h (by simp) (by simp) (by simp) (by simp) ?_
  rw [walked_status]
  cases hs : o.status <;> simp [preAck]

theorem ledger_accumulate {q : ℚ} {o : Order} {f : Fill} (h : Ledger q o) (hseen : alreadySeen o f = false)
    (hpos : 0 < f.qty) (hle : f.qty ≤ o.remainingQty) : Ledger q (o.accumulate f) := by
  refine ⟨?_, Order.accumulate_booked h.booked hpos hle, ?_, ?_⟩
  · rw [Order.accumulate_qty]; exact h.ordered
  · rw [Order.accumulate_status, Order.accumulate_filledQty, h.ordered]
    by_cases hfull : o.filledQty + f.qty = q
    · simp [hfull]
    · simp [hfull]
  · rw [Order.accumulate_fills, List.pairwise_append]
    refine ⟨h.distinct, by simp, fun g hg f' hf' => ?_⟩
    rw [List.mem_singleton.1 hf']
    exact alreadySeen_false hseen g hg

/-- **One delivery keeps the ledger.** -/
theorem ledger_delivered {q : ℚ} {o o' : Order} {u : AdapterUpdate} (h : Ledger q o) (hd : deliver o u o') :
    Ledger q o' := by
  rcases hx : exec (applyTradeUpdate u.update) o with ⟨r, o''⟩
  have hd' : o' = o'' := by rw [hd, hx]
  subst hd'
  cases outcome_of_exec hx with
  | wrongOrder hid => exact h
  | duplicate hid f hf hseen => exact ledger_adopted _ h
  | refused hid f hf hseen e hbad => exact ledger_walked _ (ledger_adopted _ h)
  | booked hid f hf hseen hopen hpos hle =>
    refine ledger_accumulate (ledger_walked _ (ledger_adopted _ h)) ?_ hpos ?_
    · rw [alreadySeen_congr (o := o) (by simp)]; exact hseen
    · simpa [Order.remainingQty] using hle
  | noStatus hid hf hs => exact ledger_adopted _ h
  | ignored hid hf s hs hsame => exact ledger_adopted _ h
  | illegal hid hf s hs hne hopen hcan => exact ledger_adopted _ h
  | moved hid hf s hs hne hopen hcan =>
    refine ledger_congr h (by simp) (by simp) (by simp) (by simp) ?_
    have hs' : s ≠ .filled := fun hc => u.shape.notFilled (hc ▸ hs)
    have ho' : o.status ≠ .filled := fun hc => by rw [hc] at hopen; cases hopen
    simp [hs', ho']

/-- **Any run of deliveries keeps the ledger.** -/
theorem ledger_deliveries {q : ℚ} {o o' : Order} {us : List AdapterUpdate} (h : Ledger q o)
    (hrun : Run deliver o us o') : Ledger q o' :=
  run_invariant (Ledger q) (fun _ _ _ hI hs => ledger_delivered hI hs) h hrun

/-- A raise leaves the totals as they were. -/
theorem raised_totals {o : Order} {u : TradeUpdate} {e : Exc} (h : (exec (applyTradeUpdate u) o).1 = .error e) :
    (exec (applyTradeUpdate u) o).2.fills = o.fills ∧ (exec (applyTradeUpdate u) o).2.filledQty = o.filledQty ∧
      (exec (applyTradeUpdate u) o).2.avgFillPrice = o.avgFillPrice := by
  rcases hx : exec (applyTradeUpdate u) o with ⟨r, o'⟩
  rw [hx] at h
  subst h
  cases outcome_of_exec hx with
  | wrongOrder hid => exact ⟨rfl, rfl, rfl⟩
  | refused hid f hf hseen e hbad => simp
  | illegal hid hf s hs hne hopen hcan => simp

/-- A status update leaves a terminal order in its status. -/
theorem terminal_status {o : Order} {u : TradeUpdate} (ht : o.status.isTerminal = true) (hf : u.fill = none) :
    (exec (applyTradeUpdate u) o).2.status = o.status := by
  rcases hx : exec (applyTradeUpdate u) o with ⟨r, o'⟩
  cases outcome_of_exec hx with
  | wrongOrder hid => rfl
  | noStatus hid hf hs => simp
  | ignored hid hf s hs hsame => simp
  | duplicate hid f hf' hseen => simp
  | refused hid f hf' hseen e hbad => rw [hf] at hf'; cases hf'
  | booked hid f hf' hseen hopen hpos hle => rw [hf] at hf'; cases hf'
  | illegal hid hf s hs hne hopen hcan => rw [ht] at hopen; cases hopen
  | moved hid hf s hs hne hopen hcan => rw [ht] at hopen; cases hopen

/-- **Whatever is delivered to an order, in whatever order and however often, its books stay exact**: in every state
reached the totals are the recorded fills', the order is `FILLED` exactly when it is full and no execution is recorded
twice; and from every state reached, a status leaves a terminal order where it was and a raise leaves the totals. -/
theorem delivered_books_exact (o : FreshOrder) (us : List AdapterUpdate) (o' : Order)
    (hrun : Run deliver o.order us o') :
    (o'.filledQty = fillsQty o'.fills ∧ o'.filledQty ≤ o.order.qty) ∧
    (0 < o'.filledQty → ∃ a, o'.avgFillPrice = some a ∧ a * o'.filledQty = fillsNotional o'.fills) ∧
    (o'.status = .filled ↔ o'.filledQty = o.order.qty) ∧
    o'.fills.Pairwise (fun f g => ∀ v, f.venueFillId = some v → g.venueFillId ≠ some v) ∧
    ∀ u : AdapterUpdate,
      (o'.status.isTerminal = true → u.update.fill = none →
        (exec (applyTradeUpdate u.update) o').2.status = o'.status) ∧
      ∀ e, (exec (applyTradeUpdate u.update) o').1 = .error e →
        (exec (applyTradeUpdate u.update) o').2.fills = o'.fills ∧
        (exec (applyTradeUpdate u.update) o').2.filledQty = o'.filledQty ∧
        (exec (applyTradeUpdate u.update) o').2.avgFillPrice = o'.avgFillPrice := by
  have h := ledger_deliveries (ledger_fresh o) hrun
  refine ⟨⟨h.booked.filled, h.ordered ▸ h.booked.bounded⟩, h.booked.average, h.complete, h.distinct, fun u => ⟨?_, ?_⟩⟩
  · exact terminal_status
  · exact fun e => raised_totals

/-- A fresh order for ten, under the id `c`. -/
def freshTen : FreshOrder where
  order := { symbol := "SPY", side := .buy, qty := 10, id := "o", clientOrderId := "c", status := .submitted }
  positive := by decide +kernel
  pending := .inr (.inr rfl)
  noFills := rfl
  unfilled := rfl
  noAverage := rfl

/-- A print of the order `c`, for `q` at `p`. -/
def printOf (v : String) (q p : ℚ) (hq : 0 < q) (hp : 0 < p) : AdapterUpdate where
  update := { event := "fill", clientOrderId := "c", brokerOrderId := "b", symbol := "SPY", «at» := 0,
              fill := some ⟨"o", 0, q, p, 0, some (.execution v)⟩ }
  shape := by
    refine ⟨?_, ?_, fun _ => rfl, by simp, by simp⟩
    · rintro f hf; cases hf; exact hq
    · rintro f hf; cases hf; exact hp

theorem rat_two_pos : (0 : ℚ) < 2 := by decide +kernel

theorem rat_four_pos : (0 : ℚ) < 4 := by decide +kernel

theorem rat_six_pos : (0 : ℚ) < 6 := by decide +kernel

def firstPrint : AdapterUpdate := printOf "e1" 4 2 rat_four_pos rat_two_pos

/-- A first print, its redelivery, and the print that completes the order. -/
def printsOfTen : List AdapterUpdate := [firstPrint, firstPrint, printOf "e2" 6 2 rat_six_pos rat_two_pos]

theorem delivered_books_exact_redelivered :
    ∃ o', Run deliver freshTen.order printsOfTen o' ∧ (o'.status = .filled ↔ o'.filledQty = 10) := by
  have hrun : ∃ o', Run deliver freshTen.order printsOfTen o' := ⟨_, .cons rfl (.cons rfl (.cons rfl (.nil _)))⟩
  obtain ⟨o', hrun⟩ := hrun
  exact ⟨o', hrun, (delivered_books_exact freshTen printsOfTen o' hrun).2.2.1⟩

end TradeUpdates
end Atp
