import AlgoTrading.Position
/-!
# Fees — settling the venue's charges against cash

`execution/fees.py` over the ledger of `persistence/fees.py`.  The correction is derived on every pass: what the ledger has
seen in total, less what the book says it has settled.
-/
namespace Atp

/-- One fee the venue charged the account, positive for money leaving it. -/
structure FeeActivity where
  activityId : String
  bookedOn : ℤ
  amount : ℚ
deriving DecidableEq

/-- The rows of one run mode in the `broker_fees` table, under the venue's own identifier. -/
abbrev FeeLedger := Dict String FeeActivity

namespace FeeLedger

/-- The total over every charge ever seen, not over the ones offered. -/
def totalSeen (l : FeeLedger) : ℚ := (l.values.map FeeActivity.amount).sum

/-- **`record_seen`**: what is new is inserted, what is there stays as it is. -/
def recordSeen (l : FeeLedger) (activities : List FeeActivity) : FeeLedger :=
  let byId := activities.foldl (fun d (a : FeeActivity) => d.set a.activityId a) (Dict.empty : FeeLedger)
  byId.values.foldl (fun d a => d.setdefault a.activityId a) l

end FeeLedger

/-- What one settling pass moved. -/
structure FeeSettlement where
  total : ℚ := 0
  applied : List FeeActivity := []
deriving DecidableEq

def FeeSettlement.isEmpty (s : FeeSettlement) : Bool := s.total = 0

/-- The end of a settling pass, once the ledger has said what it has seen: both numbers move together. -/
def Portfolio.settleTo (p : Portfolio) (totalSeen : ℚ) : Portfolio :=
  if totalSeen - p.feesSettled = 0 then p
  else { p with cash := p.cash - (totalSeen - p.feesSettled), feesSettled := totalSeen }

/-- **`settle_broker_fees`**: `feed` is the venue's answer for the window asked about.  A venue that will not answer leaves
the book and the ledger alone. -/
def settleBrokerFees (p : Portfolio) (feed : Except Exc (List FeeActivity)) (ledger : FeeLedger) :
    FeeSettlement × Portfolio × FeeLedger :=
  match feed with
  | .error _ => ({}, p, ledger)
  | .ok charged =>
    let ledger := ledger.recordSeen charged
    let owed := ledger.totalSeen - p.feesSettled
    (if owed = 0 then {} else { total := owed, applied := charged }, p.settleTo ledger.totalSeen, ledger)

namespace Portfolio

variable (p : Portfolio) (total : ℚ)

@[simp] theorem settleTo_feesSettled : (p.settleTo total).feesSettled = total := by
  unfold settleTo
  split
  · linarith
  · rfl

@[simp] theorem settleTo_cash : (p.settleTo total).cash = p.cash - (total - p.feesSettled) := by
  unfold settleTo
  split
  · linarith
  · rfl

@[simp] theorem settleTo_positions : (p.settleTo total).positions = p.positions := by
  unfold settleTo
  split <;> rfl

end Portfolio
end Atp
