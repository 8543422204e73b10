import AlgoTrading.RiskEngine
import AlgoTrading.Runs
/-!
# HaltSafety — what a halted platform can still do to the book

Orders approved one after the other under a standing halt, each joining the list in flight the next is judged with, and
every way those orders can then fill.  Each approval is decided against the settled book alone, so what the fills can
reach is decided by how much works against each holding in total.
-/
namespace Atp
namespace HaltSafety

open Runs

/-! ## Fills of the orders in flight -/

/-- One execution of one working order: the order accumulates it and the book folds it in. -/
inductive FillNext : Portfolio × List Order → Fill → Portfolio × List Order → Prop
  | fill {p p' : Portfolio} {o o' : Order} {f : Fill} (l₁ l₂ : List Order) :
      o.applyFill f = .ok o' → p.applyToPortfolio o f = .ok p' →
        FillNext (p, l₁ ++ o :: l₂) f (p', l₁ ++ o' :: l₂)

/-- **What a halt promises of a book and the orders approved against it**: however they fill, no holding grows and none
changes side. -/
def HaltSafe (p : Portfolio) (pending : List Order) : Prop :=
  ∀ fills p' working, Run FillNext (p, pending) fills (p', working) →
    ∀ s, |p'.held s| ≤ |p.held s| ∧ 0 ≤ p.held s * p'.held s

/-- What an order has left to work shrinks by exactly what was filled. -/
theorem workingOn_fill {o o' : Order} {f : Fill} (h : o.applyFill f = .ok o') (side : Side) (s : String)
    (l₁ l₂ : List Order) :
    workingOn side s (l₁ ++ o' :: l₂) =
      workingOn side s (l₁ ++ o :: l₂) - if o.symbol = s ∧ o.side = side then f.qty else 0 := by
  obtain ⟨hpos, hle, rfl⟩ := Order.applyFill_ok.1 h
  have hrem : (o.accumulate f).remainingQty = o.remainingQty - f.qty := by
    unfold Order.remainingQty
    simp only [Order.accumulate_qty, Order.accumulate_filledQty]
    ring
  simp only [workingOn_append, workingOn_cons, Order.accumulate_symbol, Order.accumulate_side, hrem]
  by_cases hs : o.symbol = s ∧ o.side = side
  · have h0 : 0 < o.remainingQty := lt_of_lt_of_le hpos hle
    simp only [hs, h0, and_self, if_true, true_and]
    split
    · ring
    · have : o.remainingQty = f.qty := by linarith
      rw [this]
      ring
  · have : ∀ c : Prop, ¬(o.symbol = s ∧ o.side = side ∧ c) := fun c hc => hs ⟨hc.1, hc.2.1⟩
    rw [if_neg (this _), if_neg (this _), if_neg hs, sub_zero]

/-- One fill moves quantity from what works to what is held, and nothing else. -/
theorem fillNext_conserves {x y : Portfolio × List Order} {f : Fill} (h : FillNext x f y) (s : String) :
    y.1.held s + workingOn .buy s y.2 - workingOn .sell s y.2 =
        x.1.held s + workingOn .buy s x.2 - workingOn .sell s x.2 ∧
      ∀ side, workingOn side s y.2 ≤ workingOn side s x.2 := by
  cases h with
  | @fill p p' o o' f l₁ l₂ ho hp =>
    have hpos := (Order.applyFill_ok.1 ho).1
    constructor
    · dsimp only
      rw [Portfolio.applyToPortfolio_held hp, workingOn_fill ho, workingOn_fill ho]
      by_cases hs : o.symbol = s
      · cases hside : o.side
        · simp [hs, Side.sign]
        · simp [hs, Side.sign]
          ring
      · simp [hs, Ne.symm hs]
    · intro side
      dsimp only
      rw [workingOn_fill ho]
      split <;> linarith

/-- **A run of fills conserves held plus working**, and only takes from what works. -/
theorem fills_conserve {x y : Portfolio × List Order} {fills : List Fill} (h : Run FillNext x fills y) (s : String) :
    y.1.held s + workingOn .buy s y.2 - workingOn .sell s y.2 =
        x.1.held s + workingOn .buy s x.2 - workingOn .sell s x.2 ∧
      ∀ side, workingOn side s y.2 ≤ workingOn side s x.2 := by
  induction h with
  | nil z => exact ⟨rfl, fun side => le_refl _⟩
  | cons hs _ ih =>
    have hc := fillNext_conserves hs s
    exact ⟨ih.1.trans hc.1, fun side => (ih.2 side).trans (hc.2 side)⟩

/-- Every working order can fill completely. -/
theorem fill_all : ∀ (l₂ l₁ : List Order) (p : Portfolio), (∀ o ∈ l₂, 0 < o.remainingQty) →
    ∃ fills p' l', Run FillNext (p, l₁ ++ l₂) fills (p', l₁ ++ l') ∧ ∀ side s, workingOn side s l' = 0
  | [], l₁, p, _ => ⟨[], p, [], .nil _, fun _ _ => rfl⟩
  | o :: l₂, l₁, p, h => by
    have hpos : 0 < o.remainingQty := h o (by simp)
    let f : Fill := ⟨o.id, 0, o.remainingQty, 0, 0, none⟩
    have ho : o.applyFill f = .ok (o.accumulate f) := Order.applyFill_ok.2 ⟨hpos, le_refl _, rfl⟩
    obtain ⟨p₁, hp₁⟩ := Portfolio.applyToPortfolio_isOk p o f hpos
    obtain ⟨fills, p', l', hrun, hzero⟩ := fill_all l₂ (l₁ ++ [o.accumulate f]) p₁ (fun o' ho' => h o' (by simp [ho']))
    simp only [List.append_assoc, List.singleton_append] at hrun
    refine ⟨f :: fills, p', o.accumulate f :: l', .cons (.fill l₁ l₂ ho hp₁) hrun, fun side s => ?_⟩
    have hdone : (o.accumulate f).remainingQty = 0 := by
      show (o.accumulate f).qty - (o.accumulate f).filledQty = 0
      rw [Order.accumulate_qty, Order.accumulate_filledQty]
      show o.qty - (o.filledQty + (o.qty - o.filledQty)) = 0
      ring
    rw [workingOn_cons, hzero side s, hdone]
    simp

/-! ## Approvals under a halt -/

section
variable {L σ : Type} (limits : L) (rest : List (RiskRule L σ)) (p : Portfolio) (resting : List Order)

/-- One approval: a fresh order a standing halt covers, let through by the chain against the settled book, joins the
orders in flight.  The label is the switch and the rules' state it was judged under, and the order as it arrived. -/
inductive ApprovedNext : List Order → HaltStore × σ × Order → List Order → Prop
  | approve {pending : List Order} {switch : HaltStore} {s s' : σ} {o o' : Order} {d : RiskDecision} :
      0 < o.qty → o.filledQty = 0 → (switch.haltState o.strategyId (some o.symbol)).engaged = true →
      validate limits (killSwitchRule switch :: rest) o p (resting ++ pending) s = (d, o', s') → d.approved = true →
        ApprovedNext pending (switch, s, o) (pending ++ [o'])

/-- Every order in flight closes what the book holds: the other side, in a symbol held. -/
def Closing (l : List Order) : Prop :=
  ∀ o ∈ l, 0 < o.remainingQty ∧ p.held o.symbol ≠ 0 ∧ o.side = if 0 < p.held o.symbol then .sell else .buy

variable {limits rest p resting}

theorem approvedNext_closing {l l' : List Order} {i : HaltStore × σ × Order} (hl : Closing p l)
    (h : ApprovedNext limits rest p resting l i l') : Closing p l' := by
  cases h with
  | @approve switch s s' o o' d hq hfresh hh hv ha =>
    obtain ⟨hclose, q, hqpos, rfl⟩ := validate_halted hh hq hv ha
    have hred : reducesPosition o p = true := by
      unfold closesWithoutReversing at hclose
      exact (Bool.and_eq_true _ _ ▸ hclose).1
    intro o₁ ho₁
    rcases List.mem_append.1 ho₁ with ho₁ | ho₁
    · exact hl o₁ ho₁
    · rw [List.mem_singleton] at ho₁
      subst ho₁
      refine ⟨?_, reducesPosition_side hred⟩
      show 0 < q - o.filledQty
      rw [hfresh, sub_zero]
      exact hqpos

theorem approved_closing {l : List Order} {i : List (HaltStore × σ × Order)}
    (h : Run (ApprovedNext limits rest p resting) [] i l) : Closing p l :=
  run_invariant (Closing p) (fun _ _ _ hl hs => approvedNext_closing hl hs) (by intro o ho; cases ho) h

theorem closing_working {l : List Order} (h : Closing p l) (s : String) :
    (0 < p.held s → workingOn .buy s l = 0) ∧ (p.held s < 0 → workingOn .sell s l = 0) ∧
      (p.held s = 0 → workingOn .buy s l = 0 ∧ workingOn .sell s l = 0) := by
  have none_of : ∀ side, (∀ o ∈ l, o.symbol = s → o.side ≠ side) → workingOn side s l = 0 := by
    intro side hside
    refine List.sum_eq_zero fun x hx => ?_
    obtain ⟨o, ho, rfl⟩ := List.mem_map.1 hx
    rw [if_neg (fun hc => hside o ho hc.1 hc.2.1)]
  refine ⟨fun hs => none_of _ fun o ho hsym => ?_, fun hs => none_of _ fun o ho hsym => ?_,
    fun hs => ⟨none_of _ fun o ho hsym => ?_, none_of _ fun o ho hsym => ?_⟩⟩
  · rw [(h o ho).2.2, hsym, if_pos hs]
    decide
  · rw [(h o ho).2.2, hsym, if_neg (not_lt.2 hs.le)]
    decide
  · exact absurd (hsym ▸ hs) (h o ho).2.1
  · exact absurd (hsym ▸ hs) (h o ho).2.1

/-- What works in each symbol, on both sides together, is no more than what is held of it. -/
def FitsHoldings (p : Portfolio) (pending : List Order) : Prop :=
  ∀ s, (((inFlightBySymbol pending).get? s).getD (0, 0)).1 + (((inFlightBySymbol pending).get? s).getD (0, 0)).2
    ≤ |p.held s|

/-- Closing orders that fit the holdings can only shrink them. -/
theorem closing_safe {l : List Order} (hc : Closing p l) (hfit : FitsHoldings p l) : HaltSafe p l := by
  intro fills p' l' hrun s
  obtain ⟨hheld, hle⟩ := fills_conserve hrun s
  have hw := hfit s
  rw [inFlightBySymbol_get] at hw
  dsimp only at hheld hle hw
  have hb := hle .buy
  have hs := hle .sell
  have hb0 := workingOn_nonneg .buy s l'
  have hs0 := workingOn_nonneg .sell s l'
  obtain ⟨hlong, hshort, hflat⟩ := closing_working hc s
  rcases lt_trichotomy (p.held s) 0 with h | h | h
  · rw [hshort h] at hheld hs hw
    rw [abs_of_neg h] at hw ⊢
    have hle0 : p'.held s ≤ 0 := by linarith
    rw [abs_of_nonpos hle0]
    exact ⟨by linarith, mul_nonneg_of_nonpos_of_nonpos h.le hle0⟩
  · rw [(hflat h).1] at hheld hb
    rw [(hflat h).2] at hheld hs
    have h0 : p'.held s = 0 := by linarith
    rw [h0, h]
    simp
  · rw [hlong h] at hheld hb hw
    rw [abs_of_pos h] at hw ⊢
    have hge0 : 0 ≤ p'.held s := by linarith
    rw [abs_of_nonneg hge0]
    exact ⟨by linarith, mul_nonneg h.le hge0⟩

/-- Closing orders that do not fit, all filled, leave a symbol on the other side of flat. -/
theorem closing_fits {l : List Order} (hc : Closing p l) (hsafe : HaltSafe p l) : FitsHoldings p l := by
  intro s
  rw [inFlightBySymbol_get]
  obtain ⟨fills, p', l', hrun, hzero⟩ := fill_all l [] p (fun o ho => (hc o ho).1)
  have hheld := (fills_conserve hrun s).1
  have hside := (hsafe fills p' l' hrun s).2
  simp only [List.nil_append, hzero] at hheld
  obtain ⟨hlong, hshort, hflat⟩ := closing_working hc s
  rcases lt_trichotomy (p.held s) 0 with h | h | h
  · rw [hshort h] at hheld ⊢
    rw [abs_of_neg h]
    have : p'.held s ≤ 0 := nonpos_of_mul_nonneg_right hside h
    linarith
  · rw [(hflat h).1, (hflat h).2]
    simp
  · rw [hlong h] at hheld ⊢
    rw [abs_of_pos h]
    have : 0 ≤ p'.held s := nonneg_of_mul_nonneg_right hside h
    linarith

/-- **Approvals under a halt keep the halt's promise exactly when they fit the holdings together**: the kill switch
checks each order against the settled book alone, and nothing it reads bounds their sum. -/
theorem halt_safe_iff {labels : List (HaltStore × σ × Order)} {pending : List Order}
    (h : Run (ApprovedNext limits rest p resting) [] labels pending) :
    HaltSafe p pending ↔ FitsHoldings p pending :=
  ⟨closing_fits (approved_closing h), closing_safe (approved_closing h)⟩

end

/-! ## A long of one hundred under a global halt -/

def longSpy : Portfolio where
  cash := 0
  startingEquity := 10000
  positions := ⟨[("SPY", { symbol := "SPY", qty := 100 })], by simp⟩

def halted : HaltStore where
  stored k := if k = .global then some (.decodes ⟨.global, .manual, 0, "operator", "", none, none, []⟩) else none

/-- An exit of the given size, as a close builds it. -/
def exitSpy (id : String) (qty : ℚ) : Order where
  symbol := "SPY"
  side := .sell
  qty := qty
  id := id
  clientOrderId := id
  purpose := .exit

/-- Two exits that fit the hundred shares together. -/
theorem halt_safe_two_exits : ∃ pending,
    Run (ApprovedNext () ([] : List (RiskRule Unit Unit)) longSpy []) []
      [(halted, (), exitSpy "a" 60), (halted, (), exitSpy "b" 40)] pending ∧ HaltSafe longSpy pending := by
  have h : Run (ApprovedNext () ([] : List (RiskRule Unit Unit)) longSpy []) []
      [(halted, (), exitSpy "a" 60), (halted, (), exitSpy "b" 40)] [exitSpy "a" 60, exitSpy "b" 40] :=
    .cons (.approve (d := .allow) (by decide +kernel) rfl (by decide +kernel) rfl rfl)
      (.cons (.approve (d := .allow) (by decide +kernel) rfl (by decide +kernel) rfl rfl) (.nil _))
  refine ⟨_, h, (halt_safe_iff h).2 fun s => ?_⟩
  rw [inFlightBySymbol_get]
  by_cases hs : s = "SPY"
  · subst hs
    decide +kernel
  · have : ("SPY" : String) ≠ s := Ne.symm hs
    simp [workingOn_cons, exitSpy, this]

theorem rat_hundred_pos : (0 : ℚ) < 100 := by decide +kernel

/-- The whole of an exit of one hundred, executed. -/
def soldAll (id : String) : Fill := ⟨id, 1, 100, 50, 0, none⟩

theorem approve_exits : Run (ApprovedNext () ([] : List (RiskRule Unit Unit)) longSpy []) []
    [(halted, (), exitSpy "a" 100), (halted, (), exitSpy "b" 100)] [exitSpy "a" 100, exitSpy "b" 100] :=
  .cons (.approve (d := .allow) (by decide +kernel) rfl (by decide +kernel) rfl rfl)
    (.cons (.approve (d := .allow) (by decide +kernel) rfl (by decide +kernel) rfl rfl) (.nil _))

/-- Two exits of the whole position, each judged against the same one hundred shares, leave it one hundred short. -/
theorem two_exits_reverse : ∃ p' working,
    Run (ApprovedNext () ([] : List (RiskRule Unit Unit)) longSpy []) []
      [(halted, (), exitSpy "a" 100), (halted, (), exitSpy "b" 100)] [exitSpy "a" 100, exitSpy "b" 100] ∧
    Run FillNext (longSpy, [exitSpy "a" 100, exitSpy "b" 100]) [soldAll "a", soldAll "b"] (p', working) ∧
    longSpy.held "SPY" = 100 ∧ p'.held "SPY" = -100 := by
  have sold (id : String) : (exitSpy id 100).applyFill (soldAll id) = .ok ((exitSpy id 100).accumulate (soldAll id)) :=
    Order.applyFill_ok.2 ⟨rat_hundred_pos, by norm_num [Order.remainingQty, exitSpy, soldAll], rfl⟩
  obtain ⟨p₁, hp₁⟩ := Portfolio.applyToPortfolio_isOk longSpy (exitSpy "a" 100) (soldAll "a") rat_hundred_pos
  obtain ⟨p₂, hp₂⟩ := Portfolio.applyToPortfolio_isOk p₁ (exitSpy "b" 100) (soldAll "b") rat_hundred_pos
  refine ⟨p₂, _, approve_exits, .cons (.fill [] _ (sold "a") hp₁) (.cons (.fill [_] [] (sold "b") hp₂) (.nil _)),
    rfl, ?_⟩
  have hlong : longSpy.held "SPY" = 100 := rfl
  rw [Portfolio.applyToPortfolio_held hp₂, Portfolio.applyToPortfolio_held hp₁, hlong]
  norm_num [exitSpy, soldAll, Side.sign]

end HaltSafety
end Atp
