import AlgoTrading.Venue
/-!
# Convergence — when a recovery carries our copy all the way to the venue's

`Converges` is what a recovery is for: its updates apply without a raise, leave our copy with the venue's filled
quantity, notional and status, and leave nothing to recover.  Whether it does depends on the two statuses and the two
filled quantities alone: `Convergent` is that condition, and `converges_iff` the proof, split as the source splits, on
whether our copy is behind.
-/
namespace Atp
namespace Recovery

open Raising Runs State TradeUpdates VenueOrder

/-- The updates of one recovery, applied in order until one raises. -/
def applyAll : List TradeUpdate → Prog Order Exc Unit
  | [] => return ()
  | u :: us => do
    let _ ← applyTradeUpdate u
    applyAll us

/-- Equal, or both still working at the venue. -/
def sameStatus (a b : OrderStatus) : Bool := a == b || (a.isOpen && b.isOpen)

/-- **The recovery of `ours` from `theirs` converges.** -/
def Converges (ours theirs : Order) (now : ℤ) (broker : Option String) : Prop :=
  ∃ o, exec (applyAll (missedUpdates ours theirs now broker)) ours = (.ok (), o) ∧
    o.filledQty = theirs.filledQty ∧ o.filledNotional = theirs.filledNotional ∧
    sameStatus o.status theirs.status = true ∧ ∀ later broker', missedUpdates o theirs later broker' = []

/-- **When it does.**  Behind the venue, our copy must still be able to fill, and the venue's status must be the one its
totals decide or the end of a partly filled order; level with it, the statuses must agree or the move between them must
be in the table. -/
def Convergent (ours theirs : Order) : Prop :=
  if ours.filledQty < theirs.filledQty then
    ours.status.isTerminal = false ∧ (fillOwned theirs.status = true ∨
      ((theirs.status = .cancelled ∨ theirs.status = .expired) ∧ theirs.filledQty < theirs.qty))
  else if fillOwned theirs.status then sameStatus ours.status theirs.status = true
  else ours.status = theirs.status ∨
    (ours.status.isTerminal = false ∧ canTransition ours.status theirs.status = true)

/-- Two views of one order, ours behind the venue's or level with it. -/
structure Comparable (ours theirs : Order) : Prop where
  sameQty : theirs.qty = ours.qty
  booked : ours.Booked
  behind : ours.filledQty ≤ theirs.filledQty
  bounded : theirs.filledQty ≤ theirs.qty
  level : ours.filledQty = theirs.filledQty → ours.filledNotional = theirs.filledNotional
  priced : ours.filledQty < theirs.filledQty →
    ∃ avg, theirs.avgFillPrice = some avg ∧ ours.filledNotional < avg * theirs.filledQty
  unseen : ∀ g ∈ ours.fills, ∀ b q, g.venueFillId ≠ some (.recovered b q)
  owned : fillOwned theirs.status = true →
    theirs.status = if theirs.filledQty = theirs.qty then .filled else .partiallyFilled

theorem missedUpdates_level {ours theirs : Order} (h : ours.filledQty = theirs.filledQty) (now : ℤ)
    (broker : Option String) : missedUpdates ours theirs now broker = statusUpdates ours theirs now broker := by
  unfold missedUpdates
  rw [h, sub_self]
  simp

/-- Behind the venue, the first update is the missed tranche at a positive price. -/
theorem missedUpdates_behind {ours theirs : Order} (hc : Comparable ours theirs)
    (h : ours.filledQty < theirs.filledQty) (now : ℤ) (broker : Option String) :
    ∃ f : Fill, 0 < f.qty ∧ f.qty = theirs.filledQty - ours.filledQty ∧
      f.notional = theirs.filledNotional - ours.filledNotional ∧
      f.venueFillId = some (.recovered theirs.brokerOrderId theirs.filledQty) ∧
      missedUpdates ours theirs now broker =
        fillUpdate ours theirs now broker f :: statusUpdates ours theirs now broker := by
  obtain ⟨avg, havg, hlt⟩ := hc.priced h
  have hmiss : 0 < theirs.filledQty - ours.filledQty := sub_pos.2 h
  have hprice : 0 < tranchePrice ours theirs (theirs.filledQty - ours.filledQty) avg :=
    div_pos (sub_pos.2 hlt) hmiss
  refine ⟨⟨ours.id, theirs.filledAt.getD now, theirs.filledQty - ours.filledQty,
    tranchePrice ours theirs (theirs.filledQty - ours.filledQty) avg, 0,
    some (.recovered theirs.brokerOrderId theirs.filledQty)⟩, hmiss, rfl, ?_, rfl, ?_⟩
  · have hn : theirs.filledNotional = avg * theirs.filledQty := by
      rw [Order.filledNotional, havg, Option.getD_some]
    rw [Fill.notional, hn, tranchePrice, mul_div_cancel₀ _ hmiss.ne']
  · unfold missedUpdates reconstructFill
    simp only [havg, not_lt.2 hmiss.le, if_false, gt_iff_lt, hmiss, if_true, not_le.2 hprice]

@[simp] theorem exec_applyAll_nil (o : Order) : exec (applyAll []) o = (.ok (), o) := rfl

theorem exec_applyAll_cons (u : TradeUpdate) (us : List TradeUpdate) (o : Order) :
    exec (applyAll (u :: us)) o = match exec (applyTradeUpdate u) o with
      | (.ok _, o') => exec (applyAll us) o'
      | (.error e, o') => (.error e, o') := by
  rw [applyAll, exec_bind]
  rcases exec (applyTradeUpdate u) o with ⟨r, o'⟩
  cases r <;> rfl

/-- The recovered status, as the transition table takes it. -/
theorem exec_statusUpdate {ours theirs o : Order} (now : ℤ) (broker : Option String)
    (hid : o.clientOrderId = ours.clientOrderId) :
    exec (applyTradeUpdate (statusUpdate ours theirs now broker)) o =
      exec (transition theirs.status (some (theirs.filledAt.getD now)) theirs.rejectReason broker)
        (adopted o (statusUpdate ours theirs now broker)) := by
  rw [exec_applyTradeUpdate, if_neg (fun h => h hid.symm)]
  rfl

theorem unseen_of_comparable {ours theirs : Order} (hc : Comparable ours theirs) {f : Fill} {b : Option String} {q : ℚ}
    (hf : f.venueFillId = some (.recovered b q)) : alreadySeen ours f = false := by
  unfold alreadySeen
  rw [hf]
  simp only [List.any_eq_false, beq_iff_eq]
  exact fun g hg => hc.unseen g hg b q

theorem converges_of_exec {ours theirs o : Order} {now : ℤ} {broker : Option String}
    (h : exec (applyAll (missedUpdates ours theirs now broker)) ours = (.ok (), o)) :
    Converges ours theirs now broker ↔ o.filledQty = theirs.filledQty ∧ o.filledNotional = theirs.filledNotional ∧
      sameStatus o.status theirs.status = true ∧ ∀ later broker', missedUpdates o theirs later broker' = [] := by
  constructor
  · rintro ⟨o', ho', hrest⟩
    rw [h, Prod.mk.injEq] at ho'
    rw [ho'.2]
    exact hrest
  · exact fun hrest => ⟨o, h, hrest⟩

theorem not_converges_of_error {ours theirs o : Order} {now : ℤ} {broker : Option String} {e : Exc}
    (h : exec (applyAll (missedUpdates ours theirs now broker)) ours = (.error e, o)) :
    ¬ Converges ours theirs now broker := by
  rintro ⟨o', ho', -⟩
  rw [h, Prod.mk.injEq] at ho'
  cases ho'.1

theorem statusUpdates_nil {ours theirs : Order} (h : fillOwned theirs.status = true ∨ ours.status = theirs.status)
    (now : ℤ) (broker : Option String) : statusUpdates ours theirs now broker = [] := by
  unfold statusUpdates
  rcases h with h | h <;> simp [h]

theorem statusUpdates_cons {ours theirs : Order} (h : fillOwned theirs.status = false)
    (hne : ours.status ≠ theirs.status) (now : ℤ) (broker : Option String) :
    statusUpdates ours theirs now broker = [statusUpdate ours theirs now broker] := by
  unfold statusUpdates
  simp [h, Ne.symm hne]

/-- After a recovery that left the venue's totals, a second one asks only about the status. -/
theorem second_empty_iff {o theirs : Order} (h : o.filledQty = theirs.filledQty) :
    (∀ later broker, missedUpdates o theirs later broker = []) ↔
      fillOwned theirs.status = true ∨ o.status = theirs.status := by
  simp only [missedUpdates_level h]
  constructor
  · intro hn
    cases how : fillOwned theirs.status with
    | true => exact .inl rfl
    | false =>
      by_cases hs : o.status = theirs.status
      · exact .inr hs
      · have := hn 0 none
        rw [statusUpdates_cons how hs] at this
        cases this
  · exact fun hs later broker => statusUpdates_nil hs later broker

theorem sameStatus_refl (s : OrderStatus) : sameStatus s s = true := by cases s <;> rfl

theorem sameStatus_terminal {a b : OrderStatus} (ha : a.isTerminal = true) (h : sameStatus a b = true) : a = b := by
  revert ha h
  cases a <;> cases b <;> decide

/-- **Level with the venue**, only the status is left to agree. -/
theorem converges_level {ours theirs : Order} (hc : Comparable ours theirs)
    (hlevel : ours.filledQty = theirs.filledQty) (now : ℤ) (broker : Option String) :
    Converges ours theirs now broker ↔ if fillOwned theirs.status then sameStatus ours.status theirs.status = true
      else ours.status = theirs.status ∨
        (ours.status.isTerminal = false ∧ canTransition ours.status theirs.status = true) := by
  have hstay : ∀ {o : Order}, o.filledQty = ours.filledQty → o.avgFillPrice = ours.avgFillPrice →
      o.filledQty = theirs.filledQty ∧ o.filledNotional = theirs.filledNotional := by
    intro o hq ha
    refine ⟨hq.trans hlevel, ?_⟩
    rw [Order.filledNotional, hq, ha]
    exact hc.level hlevel
  cases how : fillOwned theirs.status with
  | true =>
    have hexec : exec (applyAll (missedUpdates ours theirs now broker)) ours = (.ok (), ours) := by
      rw [missedUpdates_level hlevel, statusUpdates_nil (.inl how)]
      rfl
    rw [converges_of_exec hexec, second_empty_iff hlevel]
    simp [hstay rfl rfl, how]
  | false =>
    simp only [Bool.false_eq_true, if_false]
    by_cases hsame : ours.status = theirs.status
    · have hexec : exec (applyAll (missedUpdates ours theirs now broker)) ours = (.ok (), ours) := by
        rw [missedUpdates_level hlevel, statusUpdates_nil (.inr hsame)]
        rfl
      rw [converges_of_exec hexec, second_empty_iff hlevel]
      simp [hstay rfl rfl, hsame, sameStatus_refl]
    · have hmissed : missedUpdates ours theirs now broker = [statusUpdate ours theirs now broker] := by
        rw [missedUpdates_level hlevel, statusUpdates_cons how hsame]
      have hstep := exec_applyAll_cons (statusUpdate ours theirs now broker) [] ours
      rw [← hmissed, exec_statusUpdate now broker rfl, exec_transition, adopted_status, if_neg hsame] at hstep
      cases hterm : ours.status.isTerminal with
      | true =>
        rw [hterm] at hstep
        simp only [if_true, exec_applyAll_nil] at hstep
        rw [converges_of_exec hstep]
        have hne : ¬ sameStatus ours.status theirs.status = true := fun h => hsame (sameStatus_terminal hterm h)
        simp [hsame, hne]
      | false =>
        cases hcan : canTransition ours.status theirs.status with
        | true =>
          rw [hterm, hcan] at hstep
          simp only [Bool.false_eq_true, if_false, if_true, exec_applyAll_nil] at hstep
          rw [converges_of_exec hstep, second_empty_iff (by simp [hlevel])]
          have hkept := hstay (o := moved (adopted ours (statusUpdate ours theirs now broker)) theirs.status
            (some (theirs.filledAt.getD now)) theirs.rejectReason broker) (by simp) (by simp)
          simp [hkept.2, hlevel, sameStatus_refl]
        | false =>
          rw [hterm, hcan] at hstep
          simp only [Bool.false_eq_true, if_false] at hstep
          have hnot := not_converges_of_error hstep
          simp [hnot, hsame]

/-- What a booked tranche leaves: the venue's totals, in the status they decide. -/
theorem tranche_booked {ours theirs : Order} (hc : Comparable ours theirs) {f : Fill} (hpos : 0 < f.qty)
    (hq : f.qty = theirs.filledQty - ours.filledQty) (hn : f.notional = theirs.filledNotional - ours.filledNotional)
    (u : TradeUpdate) :
    ((walked (adopted ours u) u.at).accumulate f).filledQty = theirs.filledQty ∧
    ((walked (adopted ours u) u.at).accumulate f).filledNotional = theirs.filledNotional ∧
    ((walked (adopted ours u) u.at).accumulate f).status =
      if theirs.filledQty = theirs.qty then .filled else .partiallyFilled := by
  have hnn := hc.booked.filledQty_nonneg
  have hfill : ours.filledQty + f.qty = theirs.filledQty := by rw [hq]; ring
  have hne : ours.filledQty + f.qty ≠ 0 := by linarith
  refine ⟨?_, ?_, ?_⟩
  · simpa using hfill
  · show ((walked (adopted ours u) u.at).accumulate f).avgFillPrice.getD 0 *
      ((walked (adopted ours u) u.at).accumulate f).filledQty = _
    have hprior : (walked (adopted ours u) u.at).filledNotional = ours.filledNotional := by
      simp [Order.filledNotional]
    rw [Order.accumulate_avg, Order.accumulate_filledQty, Option.getD_some, hprior, walked_filledQty,
      adopted_filledQty, div_mul_cancel₀ _ hne, hn]
    ring
  · rw [Order.accumulate_status, walked_filledQty, adopted_filledQty, walked_qty, adopted_qty, hfill, hc.sameQty]

/-- **Behind the venue**, the tranche has to be bookable and must leave nothing but an end to be told. -/
theorem converges_behind {ours theirs : Order} (hc : Comparable ours theirs)
    (hlt : ours.filledQty < theirs.filledQty) (now : ℤ) (broker : Option String) :
    Converges ours theirs now broker ↔ ours.status.isTerminal = false ∧ (fillOwned theirs.status = true ∨
      ((theirs.status = .cancelled ∨ theirs.status = .expired) ∧ theirs.filledQty < theirs.qty)) := by
  obtain ⟨f, hpos, hq, hn, hid, hmissed⟩ := missedUpdates_behind hc hlt now broker
  have hseen := unseen_of_comparable hc hid
  have hstep := exec_applyAll_cons (fillUpdate ours theirs now broker f) (statusUpdates ours theirs now broker) ours
  rw [← hmissed] at hstep
  cases hterm : ours.status.isTerminal with
  | true =>
    obtain ⟨e, o', he⟩ := exec_terminal_fill (u := fillUpdate ours theirs now broker f) rfl rfl hseen hterm
    rw [he] at hstep
    have hnot := not_converges_of_error hstep
    simp [hnot]
  | false =>
    have hle : f.qty ≤ ours.remainingQty := by
      have := hc.bounded
      rw [hc.sameQty] at this
      rw [hq, Order.remainingQty]
      linarith
    obtain ⟨hqty, hnot, hst⟩ := tranche_booked hc hpos hq hn (fillUpdate ours theirs now broker f)
    rw [exec_booked (u := fillUpdate ours theirs now broker f) rfl rfl hseen hterm hpos hle] at hstep
    generalize hbooked : (walked (adopted ours (fillUpdate ours theirs now broker f))
      (fillUpdate ours theirs now broker f).at).accumulate f = o at hstep hqty hnot hst
    have hcid : o.clientOrderId = ours.clientOrderId := by rw [← hbooked]; simp
    cases how : fillOwned theirs.status with
    | true =>
      rw [statusUpdates_nil (.inl how)] at hstep
      rw [converges_of_exec hstep, second_empty_iff hqty, hst, ← hc.owned how]
      simp [hqty, hnot, how, sameStatus_refl]
    | false =>
      have hne : o.status ≠ theirs.status := by
        intro h
        rw [← h, hst] at how
        split at how <;> cases how
      by_cases hsame : ours.status = theirs.status
      · rw [statusUpdates_nil (.inr hsame)] at hstep
        rw [converges_of_exec hstep, second_empty_iff hqty]
        have hopen : ¬ (theirs.status = .cancelled ∨ theirs.status = .expired) := by
          rw [← hsame]
          rintro (h | h) <;> rw [h] at hterm <;> cases hterm
        simp [how, hne, hopen]
      · rw [statusUpdates_cons how hsame] at hstep
        have hlast := exec_applyAll_cons (statusUpdate ours theirs now broker) [] o
        rw [exec_statusUpdate now broker hcid, exec_transition, adopted_status, if_neg hne] at hlast
        dsimp only at hstep
        rw [hlast] at hstep
        by_cases hfull : theirs.filledQty = theirs.qty
        · rw [if_pos hfull] at hst
          rw [hst] at hstep
          simp only [OrderStatus.isTerminal, if_true, exec_applyAll_nil] at hstep
          rw [converges_of_exec hstep, second_empty_iff (by simp [hqty])]
          simp [how, hne, hfull]
        · rw [if_neg hfull] at hst
          have hpart : theirs.filledQty < theirs.qty := lt_of_le_of_ne hc.bounded hfull
          rw [hst] at hstep
          simp only [OrderStatus.isTerminal, Bool.false_eq_true, if_false] at hstep
          cases hcan : canTransition .partiallyFilled theirs.status with
          | true =>
            rw [hcan] at hstep
            simp only [if_true, exec_applyAll_nil] at hstep
            have hend : theirs.status = .cancelled ∨ theirs.status = .expired := by
              revert hcan how
              cases theirs.status <;> decide
            rw [converges_of_exec hstep, second_empty_iff (by simp [hqty])]
            have hkept : (moved (adopted o (statusUpdate ours theirs now broker)) theirs.status
                (some (theirs.filledAt.getD now)) theirs.rejectReason broker).filledNotional =
                theirs.filledNotional := by
              rw [← hnot]
              simp [Order.filledNotional]
            simp [hqty, hkept, hend, hpart, sameStatus_refl]
          | false =>
            rw [hcan] at hstep
            simp only [Bool.false_eq_true, if_false] at hstep
            have hnot' := not_converges_of_error hstep
            have hend : ¬ (theirs.status = .cancelled ∨ theirs.status = .expired) := by
              rintro (h | h) <;> rw [h] at hcan <;> cases hcan
            simp [hnot', hend]

theorem converges_iff {ours theirs : Order} (hc : Comparable ours theirs) (now : ℤ) (broker : Option String) :
    Converges ours theirs now broker ↔ Convergent ours theirs := by
  unfold Convergent
  by_cases hlt : ours.filledQty < theirs.filledQty
  · rw [if_pos hlt]
    exact converges_behind hc hlt now broker
  · rw [if_neg hlt]
    exact converges_level hc (le_antisymm hc.behind (not_lt.1 hlt)) now broker

/-- A reached copy and a REST read of the same order are comparable. -/
theorem comparable_of_reached {v : VenueOrder} {ours theirs : Order} {newId : String} {now : ℤ}
    (hours : v.Reached ours) (hread : Alpaca.fromAlpacaOrder v.payload newId now = .ok theirs) :
    Comparable ours theirs := by
  obtain ⟨hledger, hhold⟩ := reached_ledger hours
  obtain ⟨hqty, hfilled, hnot, havg⟩ := read_totals hread
  obtain ⟨rest, -, hrestq, hrestn⟩ := holding_split hhold
  have hview := Alpaca.fromAlpacaOrder_view hread
  have hq : theirs.filledQty = ours.filledQty + printsQty rest := by rw [hfilled, hrestq, hledger.booked.filled]
  have hn : theirs.filledNotional = ours.filledNotional + printsNotional rest := by
    rw [hnot, hrestn, hledger.booked.notional]
  have hnn := printsQty_nonneg rest
  refine ⟨hqty.trans hledger.ordered.symm, hledger.booked, by linarith, hview.bounded, ?_, ?_, ?_, ?_⟩
  · intro h
    have hrest : rest = [] := (printsQty_eq_zero_iff rest).1 (by linarith)
    rw [hn, hrest]
    simp
  · intro h
    have hrest : rest ≠ [] := fun hr => by rw [hr] at hq; simp [hq] at h
    have hne : v.prints ≠ [] := by
      intro hp
      rw [hfilled, hp, printsQty_nil] at h
      exact absurd h (not_lt.2 hledger.booked.filledQty_nonneg)
    have hpos := printsNotional_pos rest hrest
    refine ⟨_, havg hne, ?_⟩
    have : theirs.filledNotional = printsNotional v.prints / printsQty v.prints * theirs.filledQty := by
      rw [Order.filledNotional, havg hne, Option.getD_some]
    rw [← this, hn]
    linarith
  · intro g hg b q hv
    obtain ⟨p, -, hgp⟩ := holding_mem hhold g hg
    rw [hgp.2.2] at hv
    cases hv
  · intro how
    obtain ⟨mapped, -, hst⟩ := hview.named
    by_cases hm : mapped = .filled ∨ mapped = .partiallyFilled
    · rw [if_pos hm] at hst
      rw [hst, Alpaca.totalsStatus]
      rw [hst, Alpaca.totalsStatus] at how
      split at how
      · rename_i hpos
        rw [if_pos hpos]
      · cases how
    · rw [if_neg hm] at hst
      rw [hst] at how
      exact absurd (by simpa [fillOwned] using how) hm

/-- A terminal copy that is behind has its missed tranche refused, and keeps what it holds. -/
theorem behind_terminal_refused {ours theirs : Order} (hc : Comparable ours theirs)
    (hlt : ours.filledQty < theirs.filledQty) (hterm : ours.status.isTerminal = true) (now : ℤ)
    (broker : Option String) :
    ∃ e o, exec (applyAll (missedUpdates ours theirs now broker)) ours = (.error e, o) ∧
      e.cls = .reconciliationError ∧ o.fills = ours.fills ∧ o.status = ours.status := by
  obtain ⟨f, hpos, -, -, hid, hmissed⟩ := missedUpdates_behind hc hlt now broker
  have hseen := unseen_of_comparable hc hid
  have hclosed : preAck ours.status = false := by
    cases hs : ours.status <;> rw [hs] at hterm <;> first | rfl | cases hterm
  have hwalked : ∀ u, walked (adopted ours u) u.at = adopted ours u := by
    intro u
    unfold walked
    rw [adopted_status, hclosed]
    rfl
  rw [hmissed, exec_applyAll_cons, exec_applyTradeUpdate, if_neg (fun h => h rfl), fillUpdate_fill]
  dsimp only
  rw [exec_applyFill, alreadySeen_congr (adopted_fills _ _), hseen, canFill_walked, adopted_status, hterm, hwalked]
  exact ⟨_, _, rfl, rfl, adopted_fills _ _, adopted_status _ _⟩

/-- A terminal copy level with the venue discards any other status, and is left as it was. -/
theorem level_terminal_kept {ours theirs : Order} (hc : Comparable ours theirs)
    (hlevel : ours.filledQty = theirs.filledQty) (hterm : ours.status.isTerminal = true) (now : ℤ)
    (broker : Option String) :
    ∃ o, exec (applyAll (missedUpdates ours theirs now broker)) ours = (.ok (), o) ∧ o.fills = ours.fills ∧
      o.filledQty = theirs.filledQty ∧ o.filledNotional = theirs.filledNotional ∧ o.status = ours.status := by
  rw [missedUpdates_level hlevel]
  by_cases hsame : fillOwned theirs.status = true ∨ ours.status = theirs.status
  · rw [statusUpdates_nil hsame]
    exact ⟨ours, rfl, rfl, hlevel, hc.level hlevel, rfl⟩
  · obtain ⟨how, hne⟩ := not_or.1 hsame
    rw [statusUpdates_cons (by simpa using how) hne, exec_applyAll_cons, exec_statusUpdate now broker rfl,
      exec_transition, adopted_status, if_neg hne, hterm]
    refine ⟨_, rfl, adopted_fills _ _, by simpa using hlevel, ?_, adopted_status _ _⟩
    rw [← hc.level hlevel]
    simp [Order.filledNotional]

/-- **What a recovery does**, for every copy reached from the venue's events and every REST read of the venue's order.
A `Convergent` pair converges.  A copy our book has closed is never reopened: behind the venue its missed tranche is
refused as a reconciliation error, and level with it the venue's status is discarded. -/
theorem recovery_outcome (v : VenueOrder) (ours theirs : Order) (newId : String) (read now : ℤ)
    (broker : Option String) (hours : v.Reached ours)
    (hread : Alpaca.fromAlpacaOrder v.payload newId read = .ok theirs) :
    (Convergent ours theirs → Converges ours theirs now broker) ∧
    (ours.status.isTerminal = true → ours.filledQty < theirs.filledQty →
      ∃ e o, exec (applyAll (missedUpdates ours theirs now broker)) ours = (.error e, o) ∧
        e.cls = .reconciliationError ∧ o.fills = ours.fills ∧ o.status = ours.status) ∧
    (ours.status.isTerminal = true → ¬ ours.filledQty < theirs.filledQty →
      ∃ o, exec (applyAll (missedUpdates ours theirs now broker)) ours = (.ok (), o) ∧ o.fills = ours.fills ∧
        o.filledQty = theirs.filledQty ∧ o.filledNotional = theirs.filledNotional ∧ o.status = ours.status) := by
  have hc := comparable_of_reached hours hread
  refine ⟨(converges_iff hc now broker).2, fun hterm hlt => behind_terminal_refused hc hlt hterm now broker,
    fun hterm hnlt => level_terminal_kept hc (le_antisymm hc.behind (not_lt.1 hnlt)) hterm now broker⟩

/-- One print of four at two. -/
def printOfFour : Print := ⟨"e1", 4, 2, rat_four_pos, rat_two_pos⟩

theorem printOfFour_le_ten : printsQty [printOfFour] ≤ 10 := by decide +kernel

/-- A venue's order for ten with that print, in a given status. -/
def fourOfTen (status : String) : VenueOrder where
  listing := { id := "b", clientOrderId := "c", status := status, orderType := "market", symbol := "SPY",
               side := "buy", timeInForce := "day", qty := 10 }
  prints := [printOfFour]
  distinct := List.nodup_singleton _
  bounded := printOfFour_le_ten

/-- The venue's view of it, once cancelled. -/
def fourThenCancelled : Order where
  symbol := "SPY"
  side := .buy
  qty := 10
  id := "n"
  clientOrderId := "c"
  brokerOrderId := some "b"
  status := .cancelled
  filledQty := 4
  avgFillPrice := some 2
  fills := [⟨"n", 0, 4, 2, 0, none⟩]

theorem fourThenCancelled_read :
    Alpaca.fromAlpacaOrder (fourOfTen "canceled").payload "n" 0 = .ok fourThenCancelled := by
  decide +kernel

theorem fourOfTen_reached (status : String) : (fourOfTen status).Reached freshTen.order :=
  ⟨freshTen, [], rfl, rfl, by simp, .nil _⟩

/-- A copy that heard nothing catches up with the partial fill and the cancel after it. -/
theorem recovery_outcome_cancelled : Converges freshTen.order fourThenCancelled 0 none := by
  refine (recovery_outcome (fourOfTen "canceled") freshTen.order fourThenCancelled "n" 0 0 none
    (fourOfTen_reached "canceled") fourThenCancelled_read).1 ?_
  unfold Convergent
  rw [if_pos (by decide +kernel)]
  exact ⟨rfl, .inr ⟨.inl rfl, by decide +kernel⟩⟩

/-- The cancel, pushed on the stream. -/
def cancelEvent : AdapterUpdate where
  update := { event := "canceled", clientOrderId := "c", brokerOrderId := "b", symbol := "SPY", «at» := 0,
              status := some .cancelled }
  shape := ⟨by simp, by simp, by simp, by simp, by simp⟩

/-- A copy that heard the cancel and not the print before it cannot be carried to the venue's. -/
theorem recovery_diverges_after_cancel :
    ∃ ours, (fourOfTen "canceled").Reached ours ∧ ours.status = .cancelled ∧
      Alpaca.fromAlpacaOrder (fourOfTen "canceled").payload "n" 0 = .ok fourThenCancelled ∧
      ¬ Converges ours fourThenCancelled 0 none := by
  refine ⟨(exec (applyTradeUpdate cancelEvent.update) freshTen.order).2,
    ⟨freshTen, [cancelEvent], rfl, rfl, ?_, .cons rfl (.nil _)⟩, by decide +kernel, fourThenCancelled_read, ?_⟩
  · intro u hu
    rw [List.mem_singleton.1 hu]
    exact ⟨rfl, fun f hf => by cases hf⟩
  · rintro ⟨o, ho, -⟩
    have hraised : (exec (applyAll (missedUpdates (exec (applyTradeUpdate cancelEvent.update) freshTen.order).2
        fourThenCancelled 0 none)) (exec (applyTradeUpdate cancelEvent.update) freshTen.order).2).1 ≠ .ok () := by
      decide +kernel
    exact hraised (by rw [ho])

end Recovery
end Atp
