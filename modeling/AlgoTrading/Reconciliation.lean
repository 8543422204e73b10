import Mathlib.Data.String.Basic
import Mathlib.Data.List.Sort
import Mathlib.Data.List.Dedup
import AlgoTrading.Fees
import AlgoTrading.KillSwitch
import AlgoTrading.Raising
/-!
# Reconciliation — does our book match the broker's?

`execution/reconciliation.py`: a pass settles the venue's fees, compares the two books, and reads both once more before a
disagreement halts.  What may happen to either book while the pass waits is a parameter; the calls it makes of the kill
switch are kept as the arguments they were made with.
-/
namespace Atp

inductive DiscrepancyKind
  | positionQty
  | missingPosition
  | unknownPosition
  | orphanOrder
  | cash
deriving DecidableEq, Repr

def DiscrepancyKind.value : DiscrepancyKind → String
  | .positionQty => "position_qty"
  | .missingPosition => "missing_position"
  | .unknownPosition => "unknown_position"
  | .orphanOrder => "orphan_order"
  | .cash => "cash"

/-- Whether the quantity of the finding's symbol cannot be relied on to size an exit. -/
def DiscrepancyKind.impugnsPosition : DiscrepancyKind → Bool
  | .positionQty | .missingPosition | .unknownPosition => true
  | .orphanOrder | .cash => false

structure Discrepancy where
  kind : DiscrepancyKind
  symbol : String
  ours : Option ℚ
  theirs : Option ℚ
  detail : List Piece := []
deriving DecidableEq

structure ReconciliationReport where
  checkedAt : ℤ
  discrepancies : List Discrepancy := []
  orphanOrderIds : List String := []

namespace ReconciliationReport

def isClean (r : ReconciliationReport) : Bool := r.discrepancies.isEmpty && r.orphanOrderIds.isEmpty

/-- `summary`: the kinds in the order of their names, each with the symbols it was found on. -/
def summary (r : ReconciliationReport) : String :=
  if r.isClean then "clean"
  else
    let byKind := r.discrepancies.foldl (fun (d : Dict String (List String)) (item : Discrepancy) =>
      d.set item.kind.value
        ((d.get? item.kind.value).getD [] ++ [if item.symbol = "" then "account" else item.symbol])) .empty
    let parts := (byKind.keys.insertionSort (· ≤ ·)).map fun kind =>
      kind ++ ": " ++ ", ".intercalate (((byKind.get? kind).getD []).insertionSort (· ≤ ·))
    " | ".intercalate (parts ++ if r.orphanOrderIds.isEmpty then []
      else ["orphan orders: " ++ ", ".intercalate (r.orphanOrderIds.insertionSort (· ≤ ·))])

/-- The symbols a halt on this report names: those of the kinds that impugn a position, an account-level finding's blank left
out. -/
def unprovenSymbols (r : ReconciliationReport) : List String :=
  ((r.discrepancies.filter fun d => d.kind.impugnsPosition && decide (d.symbol ≠ "")).map Discrepancy.symbol).dedup.insertionSort
    (· ≤ ·)

end ReconciliationReport

/-- What the venue answers to the three reads of a comparison. -/
structure VenueBook where
  positions : List Position
  openOrders : List Order
  cash : ℚ

/-- What `engage` was called with. -/
structure HaltCall where
  scope : HaltScope
  reason : HaltReason
  engagedBy : String
  detail : List Piece
  unprovenSymbols : List String := []

/-- Both books, the venue's fee feed and the fee ledger, as they stand. -/
structure BothBooks where
  portfolio : Portfolio
  knownOrders : List Order
  venue : Except Exc VenueBook
  feed : Except Exc (List FeeActivity)
  ledger : FeeLedger

structure Reconciler where
  now : ℤ
  settleSeconds : ℚ := 2
  feeLedger : Bool := true
  sleep : BothBooks → BothBooks

/-- A pass under way: the books, and the calls made of the kill switch. -/
structure Reconciling where
  books : BothBooks
  halts : List HaltCall := []

namespace Reconciler

open Raising

/-- `ours`: what is open, under its symbol. -/
def oursOf (p : Portfolio) : Dict String ℚ := p.positions.filterMap fun q => if q.isFlat then none else some q.qty

def theirsOf (rows : List Position) : Dict String ℚ :=
  rows.foldl (fun d p => d.set p.symbol p.qty) (Dict.empty : Dict String ℚ)

/-- One turn of the loop of `_position_discrepancies`, on signed quantities. -/
def positionDiscrepancy (ours theirs : Dict String ℚ) (symbol : String) : Option Discrepancy :=
  let theirQty := (theirs.get? symbol).getD 0
  let ourQty := (ours.get? symbol).getD 0
  if theirQty = ourQty then none
  else if ourQty = 0 then
    some ⟨.missingPosition, symbol, some ourQty, some theirQty, [.lit "the broker holds a position we do not"]⟩
  else if theirQty = 0 then
    some ⟨.unknownPosition, symbol, some ourQty, some theirQty, [.lit "we hold a position the broker does not"]⟩
  else some ⟨.positionQty, symbol, some ourQty, some theirQty, [.lit "the same symbol, a different quantity"]⟩

/-- **`_position_discrepancies`.** -/
def positionDiscrepancies (ours : Dict String ℚ) (brokerPositions : List Position) : List Discrepancy :=
  let theirs := theirsOf brokerPositions
  ((theirs.keys ++ ours.keys).dedup.insertionSort (· ≤ ·)).filterMap (positionDiscrepancy ours theirs)

/-- **`_cash_discrepancies`.** -/
def cashDiscrepancies (ourCash brokerCash tolerance : ℚ) : List Discrepancy :=
  let drift := ourCash - brokerCash
  if |drift| ≤ tolerance then []
  else [⟨.cash, "", some ourCash, some brokerCash,
    [.lit "cash differs by ", .dec drift, .lit ", beyond the ", .dec tolerance, .lit " tolerance"]⟩]

/-- A venue order nobody here knows: reported, never cancelled. -/
def orphanDiscrepancy (o : Order) : Discrepancy :=
  ⟨.orphanOrder, o.symbol, none, some o.qty, [.lit o.side.value, .lit " ", .dec o.qty, .lit " ", .lit o.symbol,
    .lit " is working at the venue and is not an order we know about"]⟩

/-- The report of one reading of both books. -/
def reportOf (now : ℤ) (p : Portfolio) (knownOrders : List Order) (v : VenueBook) (cashTolerance : ℚ) :
    ReconciliationReport :=
  let orphans := v.openOrders.filter fun o => !(knownOrders.map Order.clientOrderId).contains o.clientOrderId
  { checkedAt := now
    discrepancies := positionDiscrepancies (oursOf p) v.positions ++ cashDiscrepancies p.cash v.cash cashTolerance ++
      orphans.map orphanDiscrepancy
    orphanOrderIds := orphans.map Order.clientOrderId }

variable (rec : Reconciler)

def engage (call : HaltCall) : Prog Reconciling Exc PUnit := modify fun s => { s with halts := s.halts ++ [call] }

def settleFees : Prog Reconciling Exc PUnit :=
  modify fun s =>
    if rec.feeLedger then
      let r := settleBrokerFees s.books.portfolio s.books.feed s.books.ledger
      { s with books := { s.books with portfolio := r.2.1, ledger := r.2.2 } }
    else s

/-- **`_compare`**: one reading of both books; a broker it cannot read is the check failing. -/
def compare (cashTolerance : ℚ) (haltOnMismatch : Bool) : Prog Reconciling Exc ReconciliationReport := do
  let s ← get
  match s.books.venue with
  | .ok v => return reportOf rec.now s.books.portfolio s.books.knownOrders v cashTolerance
  | .error e =>
    if e.cls.isA .brokerError && haltOnMismatch then
      engage ⟨.global, .brokerUnreachable, "reconciler", .lit "could not read the broker's book: " :: e.message, []⟩
      throw e
    else throw e

/-- The end of `reconcile`, once no reading is left to clear the disagreement. -/
def escalate (report : ReconciliationReport) (haltOnMismatch : Bool) : Prog Reconciling Exc ReconciliationReport := do
  if haltOnMismatch then
    engage ⟨.global, .reconciliationMismatch, "reconciler", [.lit report.summary], report.unprovenSymbols⟩
    return report
  else return report

/-- **`reconcile`.** -/
def reconcile (cashTolerance : ℚ) (haltOnMismatch : Bool) : Prog Reconciling Exc ReconciliationReport := do
  rec.settleFees
  let report ← rec.compare cashTolerance haltOnMismatch
  if report.isClean then return report
  else if 0 < rec.settleSeconds then
    modify fun s => { s with books := rec.sleep s.books }
    let report ← rec.compare cashTolerance haltOnMismatch
    if report.isClean then return report
    else escalate report haltOnMismatch
  else escalate report haltOnMismatch

/-- **`adopt_broker_state`**: the open rows of the venue and its cash, and no protective level. -/
def adoptBrokerState (p : Portfolio) (cash : ℚ) (rows : List Position) : Portfolio :=
  { p with
    positions := (rows.filter fun q => !q.isFlat).foldl (fun (d : Dict String Position) q => d.set q.symbol q) .empty
    cash := cash }

/-! ## What a pass finds -/

/-- What the venue holds of a symbol: its row's quantity, the last one where it lists several, and nothing without a row. -/
def heldAtVenue (v : VenueBook) (symbol : String) : ℚ :=
  ((v.positions.filter fun q => q.symbol = symbol).getLast?.map Position.qty).getD 0

/-- **The two books agree.** -/
structure Agrees (p : Portfolio) (knownOrders : List Order) (v : VenueBook) (cashTolerance : ℚ) : Prop where
  held : ∀ symbol, heldAtVenue v symbol = p.held symbol
  cash : |p.cash - v.cash| ≤ cashTolerance
  known : ∀ o ∈ v.openOrders, ∃ k ∈ knownOrders, k.clientOrderId = o.clientOrderId

theorem ours_held (p : Portfolio) (symbol : String) : ((oursOf p).get? symbol).getD 0 = p.held symbol := by
  unfold oursOf Portfolio.held Portfolio.position
  rw [Dict.get?_filterMap]
  cases p.positions.get? symbol with
  | none => rfl
  | some q =>
    by_cases hflat : q.qty = 0
    · simp [Position.isFlat, hflat]
    · simp [Position.isFlat, hflat]

theorem theirs_held (v : VenueBook) (symbol : String) :
    ((theirsOf v.positions).get? symbol).getD 0 = heldAtVenue v symbol := by
  unfold theirsOf heldAtVenue
  rw [Dict.get?_foldl_set Position.symbol Position.qty, Dict.get?_empty, Option.or_none]

/-- A finding on a symbol is on that symbol, impugns it, and is made exactly where the quantities differ. -/
theorem positionDiscrepancy_cases (ours theirs : Dict String ℚ) (symbol : String) :
    if (theirs.get? symbol).getD 0 = (ours.get? symbol).getD 0 then positionDiscrepancy ours theirs symbol = none
    else ∃ d, positionDiscrepancy ours theirs symbol = some d ∧ d.symbol = symbol ∧ d.kind.impugnsPosition = true := by
  unfold positionDiscrepancy
  dsimp only
  split_ifs
  · rfl
  · exact ⟨_, rfl, rfl, rfl⟩
  · exact ⟨_, rfl, rfl, rfl⟩
  · exact ⟨_, rfl, rfl, rfl⟩

/-- Every symbol either side has a row for is asked about, and no other could differ. -/
theorem mem_positionDiscrepancies (ours : Dict String ℚ) (rows : List Position) (d : Discrepancy) :
    d ∈ positionDiscrepancies ours rows ↔ ∃ symbol, positionDiscrepancy ours (theirsOf rows) symbol = some d := by
  unfold positionDiscrepancies
  rw [List.mem_filterMap]
  constructor
  · rintro ⟨symbol, -, hd⟩
    exact ⟨symbol, hd⟩
  · rintro ⟨symbol, hd⟩
    refine ⟨symbol, ?_, hd⟩
    rw [List.mem_insertionSort, List.mem_dedup, List.mem_append, Dict.mem_keys_iff, Dict.mem_keys_iff]
    by_contra habsent
    simp only [not_or, Bool.not_eq_true, Option.isSome_eq_false_iff, Option.isNone_iff_eq_none] at habsent
    have hcases := positionDiscrepancy_cases ours (theirsOf rows) symbol
    rw [habsent.1, habsent.2, if_pos rfl, hd] at hcases
    cases hcases

variable (p : Portfolio) (knownOrders : List Order) (v : VenueBook) (cashTolerance : ℚ)

theorem positionDiscrepancies_symbols (symbol : String) :
    (∃ d ∈ positionDiscrepancies (oursOf p) v.positions, d.symbol = symbol) ↔ heldAtVenue v symbol ≠ p.held symbol := by
  simp only [mem_positionDiscrepancies, ← theirs_held, ← ours_held]
  have hcases := positionDiscrepancy_cases (oursOf p) (theirsOf v.positions)
  constructor
  · rintro ⟨d, ⟨s, hd⟩, rfl⟩ heq
    have hs := hcases s
    split_ifs at hs with hsame
    · rw [hs] at hd
      cases hd
    · obtain ⟨d', hd', hsymbol, -⟩ := hs
      obtain rfl : d = d' := Option.some.inj (hd.symm.trans hd')
      exact hsame (hsymbol ▸ heq)
  · intro hne
    have hs := hcases symbol
    rw [if_neg hne] at hs
    obtain ⟨d, hd, hsymbol, -⟩ := hs
    exact ⟨d, ⟨symbol, hd⟩, hsymbol⟩

theorem positionDiscrepancies_impugn {d : Discrepancy} (h : d ∈ positionDiscrepancies (oursOf p) v.positions) :
    d.kind.impugnsPosition = true := by
  obtain ⟨symbol, hd⟩ := (mem_positionDiscrepancies _ _ d).1 h
  have hcases := positionDiscrepancy_cases (oursOf p) (theirsOf v.positions) symbol
  split_ifs at hcases
  · rw [hcases] at hd
    cases hd
  · obtain ⟨d', hd', -, himpugns⟩ := hcases
    exact Option.some.inj (hd.symm.trans hd') ▸ himpugns

theorem cashDiscrepancies_nil (ourCash brokerCash : ℚ) :
    cashDiscrepancies ourCash brokerCash cashTolerance = [] ↔ |ourCash - brokerCash| ≤ cashTolerance := by
  unfold cashDiscrepancies
  by_cases h : |ourCash - brokerCash| ≤ cashTolerance <;> simp [h]

/-- **A report is clean exactly when the books agree.** -/
theorem reportOf_isClean (now : ℤ) :
    (reportOf now p knownOrders v cashTolerance).isClean = true ↔ Agrees p knownOrders v cashTolerance := by
  have hheld : positionDiscrepancies (oursOf p) v.positions = [] ↔ ∀ symbol, heldAtVenue v symbol = p.held symbol := by
    rw [List.eq_nil_iff_forall_not_mem]
    constructor
    · intro h symbol
      by_contra hne
      obtain ⟨d, hd, -⟩ := (positionDiscrepancies_symbols p v symbol).2 hne
      exact h d hd
    · intro h d hd
      exact (positionDiscrepancies_symbols p v d.symbol).1 ⟨d, hd, rfl⟩ (h d.symbol)
  simp only [reportOf, ReconciliationReport.isClean, List.isEmpty_iff, Bool.and_eq_true, List.append_eq_nil_iff,
    List.map_eq_nil_iff, hheld, cashDiscrepancies_nil, List.filter_eq_nil_iff, Bool.not_eq_true', Bool.not_eq_false,
    List.contains_iff_mem, List.mem_map]
  constructor
  · rintro ⟨⟨⟨h, hcash⟩, hknown⟩, -⟩
    exact ⟨h, hcash, hknown⟩
  · rintro ⟨h, hcash, hknown⟩
    exact ⟨⟨⟨h, hcash⟩, hknown⟩, hknown⟩

/-- **The symbols a report leaves unproven** are the ones whose signed quantities differ, the blank one apart. -/
theorem reportOf_unproven (now : ℤ) (symbol : String) :
    symbol ∈ (reportOf now p knownOrders v cashTolerance).unprovenSymbols ↔
      symbol ≠ "" ∧ heldAtVenue v symbol ≠ p.held symbol := by
  rw [← positionDiscrepancies_symbols]
  unfold ReconciliationReport.unprovenSymbols reportOf
  simp only [List.mem_insertionSort, List.mem_dedup, List.mem_map, List.mem_filter, List.mem_append, Bool.and_eq_true,
    decide_eq_true_eq]
  constructor
  · rintro ⟨d, ⟨(hd | hd) | hd, himpugns, hne⟩, rfl⟩
    · exact ⟨hne, d, hd, rfl⟩
    · unfold cashDiscrepancies at hd
      dsimp only at hd
      split_ifs at hd
      · cases hd
      · rw [List.mem_singleton.1 hd] at hne
        exact absurd rfl hne
    · obtain ⟨o, -, rfl⟩ := hd
      cases himpugns
  · rintro ⟨hne, d, hd, rfl⟩
    exact ⟨d, ⟨.inl (.inl hd), positionDiscrepancies_impugn p v hd, hne⟩, rfl⟩

/-! ## What a pass marks -/

/-- The books once the venue's fees are settled, which is what both readings compare. -/
def settledBooks (b : BothBooks) : BothBooks :=
  if rec.feeLedger then
    let r := settleBrokerFees b.portfolio b.feed b.ledger
    { b with portfolio := r.2.1, ledger := r.2.2 }
  else b

/-- What a comparison reads. -/
def reading (b : BothBooks) : Portfolio × List Order × Except Exc VenueBook := (b.portfolio, b.knownOrders, b.venue)

/-- Every symbol the calls made of the kill switch name. -/
def marked (s : Reconciling) : List String := s.halts.flatMap HaltCall.unprovenSymbols

theorem exec_settleFees (b : BothBooks) (halts : List HaltCall) :
    exec rec.settleFees ⟨b, halts⟩ = (.ok ⟨⟩, ⟨rec.settledBooks b, halts⟩) := by
  unfold settleFees settledBooks
  rw [exec_modify]
  cases rec.feeLedger <;> rfl

variable {v}

theorem exec_compare {b : BothBooks} {halts : List HaltCall} (haltOnMismatch : Bool) (h : b.venue = .ok v) :
    exec (rec.compare cashTolerance haltOnMismatch) ⟨b, halts⟩ =
      (.ok (reportOf rec.now b.portfolio b.knownOrders v cashTolerance), ⟨b, halts⟩) := by
  unfold compare
  rw [exec_bind, exec_get]
  simp only [h]
  rfl

/-- What a pass returns and marks, by the report of its last reading. -/
theorem exec_escalate (report : ReconciliationReport) (haltOnMismatch : Bool) (b : BothBooks) :
    ∃ s, exec (escalate report haltOnMismatch) ⟨b, []⟩ = (.ok report, s) ∧
      marked s = if haltOnMismatch then report.unprovenSymbols else [] := by
  unfold escalate engage
  cases haltOnMismatch with
  | false => exact ⟨_, rfl, rfl⟩
  | true => exact ⟨_, rfl, by simp [marked]⟩

/-- **Reconciliation is exact**, when the second reading is the first: the pass returns clean exactly when the books agree, and
marks exactly the symbols, the blank one apart, whose signed quantities differ, provided it may halt. -/
theorem reconcile_exact (haltOnMismatch : Bool) {b : BothBooks}
    (hvenue : b.venue = .ok v) (hsame : reading (rec.sleep (rec.settledBooks b)) = reading (rec.settledBooks b)) :
    ∃ report s, exec (rec.reconcile cashTolerance haltOnMismatch) ⟨b, []⟩ = (.ok report, s) ∧
      (report.isClean = true ↔ Agrees (rec.settledBooks b).portfolio b.knownOrders v cashTolerance) ∧
        ∀ symbol, symbol ∈ marked s ↔
          haltOnMismatch = true ∧ symbol ≠ "" ∧ heldAtVenue v symbol ≠ (rec.settledBooks b).portfolio.held symbol := by
  have hfirst : (rec.settledBooks b).venue = .ok v ∧ (rec.settledBooks b).knownOrders = b.knownOrders := by
    unfold settledBooks
    cases rec.feeLedger <;> exact ⟨hvenue, rfl⟩
  obtain ⟨hfirst, hknown⟩ := hfirst
  generalize hsettled : rec.settledBooks b = b' at *
  simp only [reading, Prod.mk.injEq] at hsame
  obtain ⟨hp, hk, hv⟩ := hsame
  let report := reportOf rec.now b'.portfolio b.knownOrders v cashTolerance
  have hclean : report.isClean = true ↔ Agrees b'.portfolio b.knownOrders v cashTolerance := reportOf_isClean ..
  have hunproven (symbol : String) : symbol ∈ report.unprovenSymbols ↔
      symbol ≠ "" ∧ heldAtVenue v symbol ≠ b'.portfolio.held symbol := reportOf_unproven ..
  have hmarked {s : Reconciling} (hs : marked s = if haltOnMismatch then report.unprovenSymbols else []) (symbol : String) :
      symbol ∈ marked s ↔ haltOnMismatch = true ∧ symbol ≠ "" ∧ heldAtVenue v symbol ≠ b'.portfolio.held symbol := by
    rw [hs]
    cases haltOnMismatch <;> simp [hunproven]
  unfold reconcile
  rw [exec_bind, exec_settleFees, hsettled]
  dsimp only
  rw [exec_bind, rec.exec_compare cashTolerance haltOnMismatch hfirst, hknown]
  dsimp only
  by_cases hc : report.isClean = true
  · rw [if_pos hc]
    have hagree := hclean.1 hc
    exact ⟨report, _, rfl, hclean, fun symbol => by simp [marked, hagree.held symbol]⟩
  rw [if_neg hc]
  by_cases hsleep : 0 < rec.settleSeconds
  · rw [if_pos hsleep, exec_bind, exec_modify]
    dsimp only
    rw [exec_bind, rec.exec_compare cashTolerance haltOnMismatch (hv.trans hfirst), hp, hk, hknown]
    dsimp only
    rw [if_neg hc]
    obtain ⟨s, hs, hm⟩ := exec_escalate report haltOnMismatch (rec.sleep b')
    exact ⟨report, s, hs, hclean, hmarked hm⟩
  · rw [if_neg hsleep]
    obtain ⟨s, hs, hm⟩ := exec_escalate report haltOnMismatch b'
    exact ⟨report, s, hs, hclean, hmarked hm⟩

/-! ## One row apart -/

/-- A pass during whose wait nothing moves. -/
def patient : Reconciler := { now := 0, sleep := id }

/-- We hold nothing, and the venue lists one row. -/
def oneRow (symbol : String) : BothBooks where
  portfolio := { cash := 100, startingEquity := 100 }
  knownOrders := []
  venue := .ok { positions := [{ symbol := symbol, qty := 4 }], openOrders := [], cash := 100 }
  feed := .ok []
  ledger := .empty

/-- A row for SPY we know nothing of: the pass is not clean, and SPY is marked. -/
theorem reconcile_exact_missing : ∃ report s, exec (patient.reconcile 1 true) ⟨oneRow "SPY", []⟩ = (.ok report, s) ∧
    report.isClean = false ∧ "SPY" ∈ marked s := by
  obtain ⟨report, s, hrun, hclean, hmarked⟩ := reconcile_exact patient 1 true (b := oneRow "SPY") rfl rfl
  have hne : heldAtVenue { positions := [{ symbol := "SPY", qty := 4 }], openOrders := [], cash := 100 } "SPY" ≠
      (patient.settledBooks (oneRow "SPY")).portfolio.held "SPY" := by decide +kernel
  refine ⟨report, s, hrun, ?_, (hmarked "SPY").2 ⟨rfl, by decide, hne⟩⟩
  rw [← Bool.not_eq_true, hclean]
  exact fun hagree => hne (hagree.held "SPY")

/-- **A difference can go unmarked**: on the blank symbol, and wherever the pass may not halt. -/
theorem difference_unmarked : (¬ ∀ (rec : Reconciler) (cashTolerance : ℚ) (b : BothBooks) (v : VenueBook) (symbol : String),
      b.venue = .ok v → reading (rec.sleep (rec.settledBooks b)) = reading (rec.settledBooks b) →
        (symbol ∈ marked (exec (rec.reconcile cashTolerance true) ⟨b, []⟩).2 ↔
          heldAtVenue v symbol ≠ (rec.settledBooks b).portfolio.held symbol)) ∧
    marked (exec (patient.reconcile 1 true) ⟨oneRow "", []⟩).2 = [] ∧
    marked (exec (patient.reconcile 1 false) ⟨oneRow "SPY", []⟩).2 = [] := by
  have hblank : marked (exec (patient.reconcile 1 true) ⟨oneRow "", []⟩).2 = [] := by decide +kernel
  refine ⟨fun h => ?_, hblank, by decide +kernel⟩
  have hmarked := (h patient 1 (oneRow "") _ "" rfl rfl).2 (by decide +kernel)
  rw [hblank] at hmarked
  cases hmarked

end Reconciler
end Atp
