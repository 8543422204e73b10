import AlgoTrading.OrderLedger
import AlgoTrading.Recovery
/-!
# WorkingNews — the venue saying an order is working, and our copy's answer

Many venue statuses and events mean "still working" and all are mapped onto `SUBMITTED`.  The transition table is
written per pair of statuses, so whether such news can be applied depends on the status it finds.
-/
namespace Atp
namespace Recovery

open Raising Runs State TradeUpdates

/-- **News that an order is working**: a stream event the table maps to `SUBMITTED`, or the status update that a REST
read of an order in such a status results in. -/
inductive WorkingNews (u : TradeUpdate) : Prop
  | stream (name : String) (m : Alpaca.StreamMessage) (newId : String) (now : ℤ)
      (hu : Alpaca.toTradeUpdate name m newId now = .ok (some u))
      (hname : Alpaca.streamEvents m.event.toLower = some (some .submitted)) : WorkingNews u
  | rest (payload : Alpaca.OrderPayload) (newId : String) (now : ℤ) (ours theirs : Order) (broker : Option String)
      (hread : Alpaca.fromAlpacaOrder payload newId now = .ok theirs)
      (hname : Alpaca.status payload.status = some .submitted)
      (hu : u ∈ missedUpdates ours theirs now broker) (hfill : u.fill = none) : WorkingNews u

theorem mem_statusUpdates {ours theirs : Order} {now : ℤ} {broker : Option String} {u : TradeUpdate}
    (h : u ∈ statusUpdates ours theirs now broker) : u.fill = none ∧ u.status = some theirs.status := by
  unfold statusUpdates at h
  split at h
  · rw [List.mem_singleton] at h
    subst h
    exact ⟨rfl, rfl⟩
  · cases h

theorem mem_missedUpdates {ours theirs : Order} {now : ℤ} {broker : Option String} {u : TradeUpdate}
    (h : u ∈ missedUpdates ours theirs now broker) (hf : u.fill = none) :
    u ∈ statusUpdates ours theirs now broker := by
  unfold missedUpdates at h
  dsimp only at h
  split at h
  · cases h
  · split at h
    · split at h
      · cases h
      · rcases List.mem_cons.1 h with rfl | h
        · cases hf
        · exact h
    · exact h

/-- Working news carries no fill and the one status `SUBMITTED`. -/
theorem workingNews_shape {u : TradeUpdate} (h : WorkingNews u) : u.fill = none ∧ u.status = some .submitted := by
  cases h with
  | stream name m newId now hu hname =>
    obtain ⟨s, order, hs, -, hst, -, hfill⟩ := Alpaca.toTradeUpdate_ok hu
    rw [hname] at hs
    have hnot : Alpaca.isFillEvent m.event.toLower = false := by
      cases hev : Alpaca.isFillEvent m.event.toLower with
      | false => rfl
      | true =>
        rw [Alpaca.streamEvents_fill _ hev] at hname
        cases hname
    refine ⟨?_, ?_⟩
    · unfold Alpaca.fillOf at hfill
      rw [hnot] at hfill
      simpa using hfill.symm
    · rw [hst]
      exact (Option.some.inj hs).symm
  | rest payload newId now ours theirs broker hread hname hu hfill =>
    have hmem := mem_statusUpdates (mem_missedUpdates hu hfill)
    obtain ⟨mapped, hm, hst⟩ := (Alpaca.fromAlpacaOrder_view hread).named
    rw [hname, Option.some.injEq] at hm
    subst hm
    exact ⟨hfill, by rw [hmem.2, hst]; rfl⟩

/-- **Working news is harmless exactly before the first fill**: applied to an order that is not terminal it raises
nothing and moves neither the fills nor a `PARTIALLY_FILLED` status if and only if the order was `PENDING_SUBMIT` or
`SUBMITTED`. -/
theorem workingNews_harmless_iff (o : Order) (u : TradeUpdate) (hnews : WorkingNews u)
    (hid : u.clientOrderId = o.clientOrderId) (hopen : o.status.isTerminal = false) :
    ((∃ b, (exec (applyTradeUpdate u) o).1 = .ok b) ∧ (exec (applyTradeUpdate u) o).2.filledQty = o.filledQty ∧
      (exec (applyTradeUpdate u) o).2.fills = o.fills ∧
      (o.status = .partiallyFilled → (exec (applyTradeUpdate u) o).2.status = .partiallyFilled)) ↔
    (o.status = .pendingSubmit ∨ o.status = .submitted) := by
  obtain ⟨hf, hs⟩ := workingNews_shape hnews
  have hexec : exec (applyTradeUpdate u) o =
      exec (transition .submitted (some u.at) u.reason u.broker) (adopted o u) := by
    rw [exec_applyTradeUpdate, if_neg (fun h => h hid), hf]
    dsimp only
    rw [exec_applyStatus, hs]
  rw [hexec, exec_transition, adopted_status, hopen]
  cases hst : o.status <;> rw [hst] at hopen <;> simp [canTransition, transitions, OrderStatus.isTerminal] at hopen ⊢

/-- The order `c`, working at the venue with four of ten filled, whose cancel has been asked for. -/
def pendingCancel : Alpaca.StreamMessage where
  stream := "trade_updates"
  event := "pending_cancel"
  order := { id := "b", clientOrderId := "c", status := "pending_cancel", orderType := "market", symbol := "SPY",
             side := "buy", timeInForce := "day", qty := 10, filledQty := 4, filledAvgPrice := some 2 }

def pendingCancelUpdate : TradeUpdate where
  event := "pending_cancel"
  clientOrderId := "c"
  brokerOrderId := "b"
  symbol := "SPY"
  «at» := 0
  status := some .submitted
  broker := some "alpaca"

theorem pendingCancel_translated :
    Alpaca.toTradeUpdate "alpaca" pendingCancel "n" 0 = .ok (some pendingCancelUpdate) := by
  decide +kernel

theorem pendingCancel_working : WorkingNews pendingCancelUpdate :=
  .stream "alpaca" pendingCancel "n" 0 pendingCancel_translated (by decide +kernel)

theorem workingNews_harmless_submitted :
    (∃ b, (exec (applyTradeUpdate pendingCancelUpdate) freshTen.order).1 = .ok b) ∧
      (exec (applyTradeUpdate pendingCancelUpdate) freshTen.order).2.fills = [] := by
  have h := (workingNews_harmless_iff freshTen.order pendingCancelUpdate pendingCancel_working rfl rfl).2 (.inr rfl)
  exact ⟨h.1, h.2.2.1⟩

/-- After one print of the order, the same news raises. -/
theorem pendingCancel_raises_after_partial :
    ∃ o, Run deliver freshTen.order [firstPrint] o ∧
      o.status = .partiallyFilled ∧ WorkingNews pendingCancelUpdate ∧
      pendingCancelUpdate.clientOrderId = o.clientOrderId ∧
      (exec (applyTradeUpdate pendingCancelUpdate) o).1 = .error (invalidTransition .partiallyFilled .submitted) := by
  refine ⟨_, .cons rfl (.nil _), ?_, pendingCancel_working, ?_, ?_⟩ <;> decide +kernel

end Recovery
end Atp
