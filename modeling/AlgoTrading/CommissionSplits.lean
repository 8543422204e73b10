import AlgoTrading.Costs
/-!
# CommissionSplits — what an order costs in one fill and in several

The minimum and the TAF cap belong to the order, so `commission` charges their increase at each fill and the increases
add up.  What does not add up is the rounding: of each SEC fee up to the cent, and of each fill's charge to the nearest.
-/
namespace Atp
namespace Backtest

/-! ### Rounding to the cent -/

def WholeCents (x : ℚ) : Prop := ∃ k : ℤ, x = k / 100

theorem WholeCents.add {x y : ℚ} (hx : WholeCents x) (hy : WholeCents y) : WholeCents (x + y) := by
  obtain ⟨k, rfl⟩ := hx
  obtain ⟨l, rfl⟩ := hy
  exact ⟨k + l, by push_cast; ring⟩

theorem wholeCents_zero : WholeCents 0 := ⟨0, by norm_num⟩

theorem wholeCents_sum {xs : List ℚ} (h : ∀ x ∈ xs, WholeCents x) : WholeCents xs.sum := by
  induction xs with
  | nil => exact wholeCents_zero
  | cons x xs ih =>
    obtain ⟨hx, hxs⟩ := List.forall_mem_cons.1 h
    exact hx.add (ih hxs)

theorem wholeCents_centsUp (x : ℚ) : WholeCents (centsUp x) := by
  unfold centsUp
  split
  · exact ⟨_, rfl⟩
  · exact ⟨_, rfl⟩

/-- A whole number of cents is its own rounding. -/
theorem centsHalfUp_of_whole {x : ℚ} (h : WholeCents x) : centsHalfUp x = x := by
  obtain ⟨k, rfl⟩ := h
  have hk : (k / 100 * 100 : ℚ) = k := by ring
  unfold centsHalfUp
  split
  · have : ⌊(k : ℚ) + 1 / 2⌋ = k := by rw [Int.floor_eq_iff]; constructor <;> linarith
    rw [hk, this]
  · have : ⌈(k : ℚ) - 1 / 2⌉ = k := by rw [Int.ceil_eq_iff]; constructor <;> linarith
    rw [hk, this]

theorem abs_centsHalfUp_sub_le (x : ℚ) : |centsHalfUp x - x| ≤ 1 / 200 := by
  unfold centsHalfUp
  rw [abs_le]
  split
  · have h1 := Int.floor_le (x * 100 + 1 / 2)
    have h2 := Int.lt_floor_add_one (x * 100 + 1 / 2)
    constructor <;> linarith
  · have h1 := Int.le_ceil (x * 100 - 1 / 2)
    have h2 := Int.ceil_lt_add_one (x * 100 - 1 / 2)
    constructor <;> linarith

theorem centsUp_of_nonneg {x : ℚ} (h : 0 ≤ x) : centsUp x = ⌈x * 100⌉ / 100 := if_pos h

theorem centsUp_neg (x : ℚ) : centsUp (-x) = -centsUp x := by
  rcases lt_trichotomy x 0 with h | rfl | h
  · rw [centsUp_of_nonneg (by linarith), centsUp, if_neg (by linarith), neg_mul, Int.ceil_neg]
    push_cast
    ring
  · norm_num [centsUp]
  · rw [centsUp_of_nonneg h.le, centsUp, if_neg (by linarith), neg_mul, Int.floor_neg]
    push_cast
    ring

/-- **Rounding two amounts up costs what rounding their sum does, or a cent more.** -/
theorem centsUp_add {x y : ℚ} (hx : 0 ≤ x) (hy : 0 ≤ y) :
    centsUp (x + y) ≤ centsUp x + centsUp y ∧ centsUp x + centsUp y ≤ centsUp (x + y) + 1 / 100 := by
  rw [centsUp_of_nonneg hx, centsUp_of_nonneg hy, centsUp_of_nonneg (add_nonneg hx hy), add_mul]
  have h1 : (⌈x * 100 + y * 100⌉ : ℚ) ≤ ⌈x * 100⌉ + ⌈y * 100⌉ := by exact_mod_cast Int.ceil_add_le _ _
  have h2 : (⌈x * 100⌉ + ⌈y * 100⌉ : ℚ) ≤ ⌈x * 100 + y * 100⌉ + 1 := by exact_mod_cast Int.ceil_add_ceil_le _ _
  constructor <;> linarith

/-- As many amounts at one rate cost at most a cent more for each after the first. -/
theorem sum_centsUp {c : ℚ} (hc : 0 ≤ c) (q : ℚ) (hq : 0 ≤ q) (qs : List ℚ) (hqs : ∀ x ∈ qs, 0 ≤ x) :
    centsUp (c * (q + qs.sum)) ≤ centsUp (c * q) + (qs.map fun x => centsUp (c * x)).sum ∧
      centsUp (c * q) + (qs.map fun x => centsUp (c * x)).sum ≤ centsUp (c * (q + qs.sum)) + qs.length / 100 := by
  induction qs generalizing q with
  | nil => simp
  | cons x qs ih =>
    have hx := hqs x List.mem_cons_self
    have htwo := centsUp_add (mul_nonneg hc hq) (mul_nonneg hc hx)
    have hrest := ih (q + x) (add_nonneg hq hx) fun y hy => hqs y (List.mem_cons_of_mem _ hy)
    rw [← mul_add] at htwo
    simp only [List.sum_cons, List.map_cons, List.length_cons, ← add_assoc]
    push_cast
    constructor <;> linarith [htwo.1, htwo.2, hrest.1, hrest.2]

/-- Whatever the sign of the rate. -/
theorem abs_sum_centsUp_sub_le (c : ℚ) (q : ℚ) (hq : 0 ≤ q) (qs : List ℚ) (hqs : ∀ x ∈ qs, 0 ≤ x) :
    |centsUp (c * q) + (qs.map fun x => centsUp (c * x)).sum - centsUp (c * (q + qs.sum))| ≤ qs.length / 100 := by
  rw [abs_le]
  rcases le_total 0 c with hc | hc
  · have h := sum_centsUp hc q hq qs hqs
    constructor <;> linarith [h.1, h.2]
  · have h := sum_centsUp (neg_nonneg.2 hc) q hq qs hqs
    have hneg : (qs.map fun x => -centsUp (c * x)).sum = -(qs.map fun x => centsUp (c * x)).sum := by
      rw [List.sum_neg, List.map_map]
      rfl
    simp only [neg_mul, centsUp_neg, hneg] at h
    constructor <;> linarith [h.1, h.2]

namespace PerShareCostModel

variable (m : PerShareCostModel)

/-! ### A fill's charge before it is rounded -/

/-- What the broker and the TAF are owed more of, once `qty` more of the order has filled. -/
def due (side : Side) (filled qty : ℚ) : ℚ :=
  m.brokerTotal (filled + qty) - m.brokerTotal filled +
    if side = .sell then m.tafTotal (filled + qty) - m.tafTotal filled else 0

def secFee (side : Side) (price qty : ℚ) : ℚ := if side = .sell then centsUp (m.secFeeRate * (price * qty)) else 0

theorem wholeCents_secFee (side : Side) (price qty : ℚ) : WholeCents (m.secFee side price qty) := by
  unfold secFee
  split
  · exact wholeCents_centsUp _
  · exact wholeCents_zero

theorem commission_eq {o : Order} {price qty : ℚ} (h : 0 < qty) :
    m.commission o price qty = centsHalfUp (m.due o.side o.filledQty qty + m.secFee o.side price qty) := by
  unfold commission due secFee
  rw [if_neg (not_le.2 h)]
  dsimp only
  split
  · congr 1
    ring
  · congr 1
    ring

def dues (side : Side) : ℚ → List Fill → List ℚ
  | _, [] => []
  | filled, f :: fs => m.due side filled f.qty :: dues side (filled + f.qty) fs

def secFees (side : Side) (fs : List Fill) : List ℚ := fs.map fun f => m.secFee side f.price f.qty

theorem due_zero (side : Side) (filled : ℚ) : m.due side filled 0 = 0 := by simp [due]

theorem due_add (side : Side) (filled p q : ℚ) :
    m.due side filled p + m.due side (filled + p) q = m.due side filled (p + q) := by
  unfold due
  rw [← add_assoc filled p q]
  split
  · ring
  · ring

/-- **The increases add up**: to the increase of the order in one fill. -/
theorem sum_dues (side : Side) (filled : ℚ) (fs : List Fill) :
    (m.dues side filled fs).sum = m.due side filled (fillsQty fs) := by
  induction fs generalizing filled with
  | nil => exact (m.due_zero side filled).symm
  | cons f fs ih =>
    show m.due side filled f.qty + (m.dues side (filled + f.qty) fs).sum = _
    rw [ih, due_add]
    rfl

/-- What each fill of an order costs, computed before the fill is applied. -/
def commissions (o : Order) : List Fill → Except Exc (List ℚ)
  | [] => .ok []
  | f :: fs => do
    let o' ← o.applyFill f
    let rest ← commissions o' fs
    return m.commission o f.price f.qty :: rest

/-- A split that was priced: the fill was taken, and the rest priced on what it left. -/
theorem commissions_cons {o : Order} {f : Fill} {fs : List Fill} {cs : List ℚ}
    (h : m.commissions o (f :: fs) = .ok cs) :
    0 < f.qty ∧ ∃ rest, m.commissions (o.accumulate f) fs = .ok rest ∧ cs = m.commission o f.price f.qty :: rest := by
  rw [commissions] at h
  rcases ho : o.applyFill f with e | o'
  · rw [ho] at h
    cases h
  · obtain ⟨hpos, -, rfl⟩ := Order.applyFill_ok.1 ho
    rw [ho] at h
    rcases hr : m.commissions (o.accumulate f) fs with e | rest
    · simp [bind, Except.bind, hr] at h
    · refine ⟨hpos, rest, rfl, ?_⟩
      simp only [bind, Except.bind, hr, pure, Except.pure, Except.ok.injEq] at h
      exact h.symm

theorem commissions_pos {o : Order} {fs : List Fill} {cs : List ℚ} (h : m.commissions o fs = .ok cs) :
    ∀ f ∈ fs, 0 < f.qty := by
  induction fs generalizing o cs with
  | nil => exact fun _ hf => nomatch hf
  | cons f fs ih =>
    obtain ⟨hpos, rest, hrest, -⟩ := m.commissions_cons h
    exact List.forall_mem_cons.2 ⟨hpos, ih hrest⟩

/-- Half a cent of rounding at each fill. -/
theorem abs_sum_commissions_sub_le {o : Order} {fs : List Fill} {cs : List ℚ} (h : m.commissions o fs = .ok cs) :
    |cs.sum - ((m.dues o.side o.filledQty fs).sum + (m.secFees o.side fs).sum)| ≤ fs.length / 200 := by
  induction fs generalizing o cs with
  | nil =>
    cases h
    simp [dues, secFees]
  | cons f fs ih =>
    obtain ⟨hpos, rest, hrest, rfl⟩ := m.commissions_cons h
    have hrest := ih hrest
    have hround := abs_centsHalfUp_sub_le (m.due o.side o.filledQty f.qty + m.secFee o.side f.price f.qty)
    rw [← m.commission_eq hpos] at hround
    rw [Order.accumulate_side, Order.accumulate_filledQty] at hrest
    simp only [dues, secFees, List.map_cons, List.sum_cons, List.length_cons]
    simp only [secFees] at hrest
    push_cast
    rw [abs_le] at hrest hround ⊢
    constructor <;> linarith [hrest.1, hrest.2, hround.1, hround.2]

/-- And none where what is due is whole cents. -/
theorem sum_commissions_of_whole {o : Order} {fs : List Fill} {cs : List ℚ} (h : m.commissions o fs = .ok cs)
    (hw : ∀ d ∈ m.dues o.side o.filledQty fs, WholeCents d) :
    cs.sum = (m.dues o.side o.filledQty fs).sum + (m.secFees o.side fs).sum := by
  induction fs generalizing o cs with
  | nil =>
    cases h
    simp [dues, secFees]
  | cons f fs ih =>
    obtain ⟨hpos, rest, hrest, rfl⟩ := m.commissions_cons h
    obtain ⟨hf, hfs⟩ := List.forall_mem_cons.1 hw
    have hrest := ih hrest (by rw [Order.accumulate_side, Order.accumulate_filledQty]; exact hfs)
    rw [Order.accumulate_side, Order.accumulate_filledQty] at hrest
    have hsec := m.wholeCents_secFee o.side f.price f.qty
    simp only [dues, secFees, List.map_cons, List.sum_cons, m.commission_eq hpos, centsHalfUp_of_whole (hf.add hsec)]
    simp only [secFees] at hrest
    rw [hrest]
    ring

/-- The SEC fees of a split: a cent more at most for each fill after the first, and none fewer. -/
theorem sum_secFees (side : Side) {price : ℚ} {f : Fill} {fs : List Fill} (hprice : ∀ g ∈ f :: fs, g.price = price)
    (hpos : ∀ g ∈ f :: fs, 0 < g.qty) :
    |(m.secFees side (f :: fs)).sum - m.secFee side price (fillsQty (f :: fs))| ≤
        (if side = .sell then (fs.length : ℚ) / 100 else 0) ∧
      ((side = .sell → 0 ≤ m.secFeeRate * price) →
        m.secFee side price (fillsQty (f :: fs)) ≤ (m.secFees side (f :: fs)).sum) := by
  have hsum : (m.secFees side (f :: fs)).sum =
      m.secFee side price f.qty + ((fs.map Fill.qty).map fun q => m.secFee side price q).sum := by
    unfold secFees
    rw [List.map_congr_left (fun g hg => by rw [hprice g hg]), List.map_cons, List.sum_cons, List.map_map]
    rfl
  have hq := (hpos f List.mem_cons_self).le
  have hqs : ∀ q ∈ fs.map Fill.qty, 0 ≤ q := by
    intro q hq
    obtain ⟨g, hg, rfl⟩ := List.mem_map.1 hq
    exact (hpos g (List.mem_cons_of_mem _ hg)).le
  rw [hsum, fillsQty, List.map_cons, List.sum_cons]
  by_cases hside : side = .sell
  · simp only [secFee, if_pos hside, ← mul_assoc]
    refine ⟨?_, fun hrate => (sum_centsUp (hrate hside) _ hq _ hqs).1⟩
    have h := abs_sum_centsUp_sub_le (m.secFeeRate * price) _ hq _ hqs
    rwa [List.length_map] at h
  · have hzero : ((fs.map Fill.qty).map fun q => m.secFee side price q).sum = 0 := by
      apply List.sum_eq_zero
      simp [secFee, hside]
    rw [hzero]
    simp [secFee, hside]

/-- **What splitting an order costs**: rounding and nothing else. -/
theorem commissions_split (o : Order) (price : ℚ) (f : Fill) (fs : List Fill) (cs : List ℚ)
    (hprice : ∀ g ∈ f :: fs, g.price = price) (h : m.commissions o (f :: fs) = .ok cs) :
    (m.dues o.side o.filledQty (f :: fs)).sum = m.due o.side o.filledQty (fillsQty (f :: fs)) ∧
    |cs.sum - m.commission o price (fillsQty (f :: fs))| ≤
      (fs.length + 2 : ℚ) / 200 + (if o.side = .sell then (fs.length : ℚ) / 100 else 0) ∧
    ((∀ d ∈ m.dues o.side o.filledQty (f :: fs), WholeCents d) → (o.side = .sell → 0 ≤ m.secFeeRate * price) →
      m.commission o price (fillsQty (f :: fs)) ≤ cs.sum ∧
      cs.sum ≤ m.commission o price (fillsQty (f :: fs)) + (if o.side = .sell then (fs.length : ℚ) / 100 else 0)) := by
  have hpos := m.commissions_pos h
  have hdues := m.sum_dues o.side o.filledQty (f :: fs)
  have hsec := m.sum_secFees o.side hprice hpos
  have hqty : 0 < fillsQty (f :: fs) := by
    refine List.sum_pos _ ?_ (List.cons_ne_nil _ _)
    intro q hq
    obtain ⟨g, hg, rfl⟩ := List.mem_map.1 hq
    exact hpos g hg
  rw [m.commission_eq hqty]
  refine ⟨hdues, ?_, fun hw hrate => ?_⟩
  · have hsplit := m.abs_sum_commissions_sub_le h
    have hone := abs_centsHalfUp_sub_le
      (m.due o.side o.filledQty (fillsQty (f :: fs)) + m.secFee o.side price (fillsQty (f :: fs)))
    have hfees := hsec.1
    rw [hdues, List.length_cons] at hsplit
    push_cast at hsplit
    rw [abs_le] at hsplit hone hfees ⊢
    constructor <;> linarith [hsplit.1, hsplit.2, hone.1, hone.2, hfees.1, hfees.2]
  · have hwhole : WholeCents (m.due o.side o.filledQty (fillsQty (f :: fs))) := by
      rw [← hdues]
      exact wholeCents_sum hw
    have hfee : WholeCents (m.secFee o.side price (fillsQty (f :: fs))) := m.wholeCents_secFee _ _ _
    rw [centsHalfUp_of_whole (hwhole.add hfee), m.sum_commissions_of_whole h hw, hdues]
    have hmore := abs_le.1 hsec.1
    constructor
    · linarith [hsec.2 hrate]
    · linarith [hmore.2]

def soldAt100 (qty : ℚ) : Fill where
  orderId := "o"
  ts := 0
  qty := qty
  price := 100
  fee := 0
  venueFillId := none

def sellingTwo : Order where
  symbol := "AAPL"
  side := .sell
  qty := 2
  id := "o"
  clientOrderId := "atp-o"

/-- Two shares sold one at a time, at a model without a broker's commission or a TAF: whole cents are due. -/
theorem commissions_split_two :
    let free : PerShareCostModel := { perShare := 0, minimum := 0, tafPerShare := 0 }
    free.commissions sellingTwo [soldAt100 1, soldAt100 1] = .ok [1 / 100, 1 / 100] ∧
    |([1 / 100, 1 / 100] : List ℚ).sum - free.commission sellingTwo 100 2| ≤ 3 / 200 + 1 / 100 := by
  intro free
  have hrun : free.commissions sellingTwo [soldAt100 1, soldAt100 1] = .ok [1 / 100, 1 / 100] := by decide +kernel
  have hprice : ∀ g ∈ [soldAt100 1, soldAt100 1], g.price = 100 := by
    intro g hg
    simp only [List.mem_cons, List.not_mem_nil, or_false, or_self] at hg
    rw [hg]
    rfl
  refine ⟨hrun, ?_⟩
  have h := (commissions_split free sellingTwo 100 (soldAt100 1) [soldAt100 1] _ hprice hrun).2.1
  have hqty : fillsQty [soldAt100 1, soldAt100 1] = 2 := by decide +kernel
  rw [hqty] at h
  refine h.trans ?_
  norm_num [sellingTwo]

/-- **Two shares sold in two fills cost a cent more than in one**: each fill's SEC fee is rounded up on its own. -/
theorem commission_depends_on_split :
    let m : PerShareCostModel := {}
    m.commissions sellingTwo [soldAt100 1, soldAt100 1] = .ok [101 / 100, 1 / 100] ∧
    m.commissions sellingTwo [soldAt100 2] = .ok [101 / 100] := by
  decide +kernel

end PerShareCostModel
end Backtest
end Atp
