import AlgoTrading.Alpaca
/-!
# Recovery — the events that would have carried our copy to the venue's

`execution/recovery.py`.  `missedUpdates` compares our order with the venue's current one and returns at most two
updates, the fill before the status; it mutates nothing.  The missed tranche is one fill at the price that makes our
average the venue's.  `missedUpdates_eq` reads the list it returns off the difference of the two filled quantities.
-/
namespace Atp
namespace Recovery

open TradeUpdates

/-- `RECOVERED`. -/
def recoveredEvent : String := "rest_recovery"

/-- `_FILL_OWNED`. -/
def fillOwned (s : OrderStatus) : Bool := s == .filled || s == .partiallyFilled

/-- The price that makes our average come out equal to the venue's. -/
def tranchePrice (ours theirs : Order) (missing avg : ℚ) : ℚ := (avg * theirs.filledQty - ours.filledNotional) / missing

/-- `_reconstruct_fill`: none when the venue's numbers cannot produce a price for the ledger. -/
def reconstructFill (ours theirs : Order) (missing : ℚ) (at' : ℤ) : Option Fill :=
  match theirs.avgFillPrice with
  | none => none
  | some avg =>
    let price := tranchePrice ours theirs missing avg
    if price ≤ 0 then none
    else some ⟨ours.id, at', missing, price, 0, some (.recovered theirs.brokerOrderId theirs.filledQty)⟩

/-- What both updates of one recovery share. -/
def recoveredUpdate (ours theirs : Order) (now : ℤ) (broker : Option String) : TradeUpdate where
  event := recoveredEvent
  clientOrderId := ours.clientOrderId
  brokerOrderId := ((Alpaca.nonEmpty theirs.brokerOrderId).or (Alpaca.nonEmpty ours.brokerOrderId)).getD ""
  symbol := ours.symbol
  «at» := theirs.filledAt.getD now
  broker := broker

/-- The fill's update carries no status: `apply_fill` decides it. -/
def fillUpdate (ours theirs : Order) (now : ℤ) (broker : Option String) (fill : Fill) : TradeUpdate :=
  { recoveredUpdate ours theirs now broker with fill := some fill }

def statusUpdate (ours theirs : Order) (now : ℤ) (broker : Option String) : TradeUpdate :=
  { recoveredUpdate ours theirs now broker with status := some theirs.status, reason := theirs.rejectReason }

/-- The venue's status, when the fill does not decide it and ours differs. -/
def statusUpdates (ours theirs : Order) (now : ℤ) (broker : Option String) : List TradeUpdate :=
  if !fillOwned theirs.status ∧ theirs.status ≠ ours.status then [statusUpdate ours theirs now broker] else []

/-- **`missed_updates`**. -/
def missedUpdates (ours theirs : Order) (now : ℤ) (broker : Option String) : List TradeUpdate :=
  let missing := theirs.filledQty - ours.filledQty
  if missing < 0 then []
  else if missing > 0 then
    match reconstructFill ours theirs missing (theirs.filledAt.getD now) with
    | none => []
    | some fill => fillUpdate ours theirs now broker fill :: statusUpdates ours theirs now broker
  else statusUpdates ours theirs now broker

theorem statusUpdates_cases (ours theirs : Order) (now : ℤ) (broker : Option String) :
    statusUpdates ours theirs now broker = [] ∨
    (fillOwned theirs.status = false ∧ theirs.status ≠ ours.status ∧
      statusUpdates ours theirs now broker = [statusUpdate ours theirs now broker]) := by
  unfold statusUpdates
  split
  · rename_i h
    exact .inr ⟨by simpa using h.1, h.2, rfl⟩
  · exact .inl rfl

/-- **What a recovery can be**: nothing, a status alone when the totals agree, or the missing tranche and then a
status. -/
theorem missedUpdates_cases (ours theirs : Order) (now : ℤ) (broker : Option String) :
    missedUpdates ours theirs now broker = [] ∨
    (ours.filledQty = theirs.filledQty ∧
      missedUpdates ours theirs now broker = statusUpdates ours theirs now broker) ∨
    (ours.filledQty < theirs.filledQty ∧ ∃ f : Fill, f.qty = theirs.filledQty - ours.filledQty ∧
      f.venueFillId = some (.recovered theirs.brokerOrderId theirs.filledQty) ∧
      missedUpdates ours theirs now broker =
        fillUpdate ours theirs now broker f :: statusUpdates ours theirs now broker) := by
  unfold missedUpdates reconstructFill
  dsimp only
  by_cases hless : theirs.filledQty - ours.filledQty < 0
  · rw [if_pos hless]
    exact .inl rfl
  rw [if_neg hless]
  by_cases hmore : theirs.filledQty - ours.filledQty > 0
  · rw [if_pos hmore]
    cases havg : theirs.avgFillPrice with
    | none => exact .inl rfl
    | some avg =>
      dsimp only
      by_cases hprice : tranchePrice ours theirs (theirs.filledQty - ours.filledQty) avg ≤ 0
      · rw [if_pos hprice]
        exact .inl rfl
      · rw [if_neg hprice]
        exact .inr (.inr ⟨sub_pos.1 hmore, _, rfl, rfl, rfl⟩)
  · rw [if_neg hmore]
    exact .inr (.inl ⟨by linarith [not_lt.1 hless, not_lt.1 hmore], rfl⟩)

/-! ## What the updates carry -/

section carry
variable (ours theirs : Order) (now : ℤ) (broker : Option String) (fill : Fill)

@[simp] theorem fillUpdate_fill : (fillUpdate ours theirs now broker fill).fill = some fill := rfl
@[simp] theorem fillUpdate_clientOrderId :
    (fillUpdate ours theirs now broker fill).clientOrderId = ours.clientOrderId := rfl
@[simp] theorem statusUpdate_fill : (statusUpdate ours theirs now broker).fill = none := rfl
@[simp] theorem statusUpdate_status : (statusUpdate ours theirs now broker).status = some theirs.status := rfl
@[simp] theorem statusUpdate_clientOrderId :
    (statusUpdate ours theirs now broker).clientOrderId = ours.clientOrderId := rfl

end carry

end Recovery
end Atp
