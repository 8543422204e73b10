import Mathlib.Data.List.Induction
import AlgoTrading.Costs
import AlgoTrading.SimulatedBook
import AlgoTrading.VolumeCap
/-!
# LimitFills — what a limit order pays next to its limit

The touch rule gives a limit order the better of the open and the limit, and the slippage is charged on top of that.
Each fill of a backtest is read off the bar it was booked on (`Serves`), each fill of the simulator off the call that
booked it (`fills_traced`); `limit_respected` says for both when the price is still within the limit.
-/
namespace Atp

/-- The price is no worse than the limit. -/
def withinLimit (side : Side) (limit price : ℚ) : Prop := if side = .buy then price ≤ limit else limit ≤ price

instance (side : Side) (limit price : ℚ) : Decidable (withinLimit side limit price) := by
  unfold withinLimit
  infer_instance

/-- How far past a limit, on the better side of it, a bar opened. -/
def openedThrough (side : Side) (limit «open» : ℚ) : ℚ := max 0 (if side = .buy then limit - «open» else «open» - limit)

/-- **Slippage on a touched limit stays within it** when the bar opened past the limit by as much. -/
theorem withinLimit_iff (side : Side) (limit «open» slip : ℚ) :
    withinLimit side limit (betterOf side limit «open» + slip) ↔ slip * side.sign ≤ openedThrough side limit «open» := by
  unfold withinLimit betterOf openedThrough
  cases side with
  | buy =>
    have h : max 0 (limit - «open») = limit - min «open» limit := by
      rcases le_total «open» limit with hle | hle <;> simp [hle]
    rw [if_pos rfl, if_pos rfl, if_pos rfl, h, le_sub_iff_add_le']
    simp [Side.sign]
  | sell =>
    have h : max 0 («open» - limit) = max «open» limit - limit := by
      rcases le_total «open» limit with hle | hle <;> simp [hle]
    have hsign : slip * ((Side.sell.sign : ℤ) : ℚ) = -slip := by simp [Side.sign]
    rw [if_neg (by decide), if_neg (by decide), if_neg (by decide), h, hsign]
    constructor <;> intro hle <;> linarith

theorem betterOf_inside {side : Side} {limit «open» : ℚ} (h : openedThrough side limit «open» = 0) :
    betterOf side limit «open» = limit := by
  have h0 := max_eq_left_iff.1 h
  unfold betterOf
  cases side with
  | buy => exact min_eq_right (by simpa using h0)
  | sell => exact max_eq_right (by simpa using h0)

/-! ## A backtest -/

namespace Backtest

/-- The slippage of an order that touches its limit on a bar is no more than the bar opened past the limit. -/
def Absorbs (m : CostModel) (o : Order) (limit : ℚ) (bar : Bar) : Prop :=
  m.slippage o bar (betterOf o.side limit bar.open) * o.side.sign ≤ openedThrough o.side limit bar.open

instance (m : CostModel) (o : Order) (limit : ℚ) (bar : Bar) : Decidable (Absorbs m o limit bar) :=
  inferInstanceAs (Decidable (_ ≤ _))

/-- What the shipped model charges, as a share of the price. -/
def SpreadSlippageModel.fraction (m : SpreadSlippageModel) (o : Order) (bar : Bar) : ℚ :=
  if 0 < bar.volume then m.halfSpreadBps / 10000 + m.impactCoefficient * m.sqrt (o.remainingQty / bar.volume)
  else m.halfSpreadBps / 10000

theorem SpreadSlippageModel.charges (m : SpreadSlippageModel) (o : Order) (bar : Bar) (x : ℚ) :
    m.slippage o bar x * o.side.sign = x * m.fraction o bar := by
  unfold slippage fraction
  cases o.side <;> simp [Side.sign]

/-- **A limit touched inside the bar is paid past** by any share the shipped model charges. -/
theorem spread_absorbs_iff {m : SpreadSlippageModel} {o : Order} {limit : ℚ} {bar : Bar} (hpos : 0 < limit)
    (hinside : openedThrough o.side limit bar.open = 0) : Absorbs m.model o limit bar ↔ m.fraction o bar ≤ 0 := by
  show m.slippage o bar _ * _ ≤ _ ↔ _
  rw [m.charges, betterOf_inside hinside, hinside, mul_nonpos_iff_pos_imp_nonpos]
  simp [hpos, hpos.le]

section
variable {L σ τ : Type} {eng : BacktestEngine L σ τ} {bars : Dict String (List Bar)}

/-- Each fill of a log is the execution of an order on a bar it met. -/
theorem booked_serves {log : List (Event σ τ)} (h : ServedPartly eng bars log) {o : Order} {f : Fill} {before after : ℚ}
    (he : .booked o f before after ∈ log) : ∃ bar met q, .bar bar met ∈ log ∧ Serves eng bar (.booked o f before after) q := by
  have hblock {log' fills : List (Event σ τ)} {bar : Bar} {met : EngineState σ τ} {asks : List ℚ}
      (hfills : List.Forall₂ (Serves eng bar) fills asks) (hmem : .booked o f before after ∈ Event.bar bar met :: fills) :
      ∃ b m q, .bar b m ∈ log' ++ .bar bar met :: fills ∧ Serves eng b (.booked o f before after) q := by
    rcases List.mem_cons.1 hmem with heq | hmem
    · cases heq
    obtain ⟨i, hi, hget⟩ := List.getElem_of_mem hmem
    have hlen : i < asks.length := hfills.length_eq ▸ hi
    have hserves := hfills.get hi hlen
    rw [List.get_eq_getElem, hget] at hserves
    exact ⟨bar, met, _, List.mem_append_right _ List.mem_cons_self, hserves⟩
  have hserved {log : List (Event σ τ)} (h : Served eng bars log) : .booked o f before after ∈ log →
      ∃ bar met q, .bar bar met ∈ log ∧ Serves eng bar (.booked o f before after) q := by
    induction h with
    | nil => exact fun he => absurd he List.not_mem_nil
    | bar _ hfills ih =>
      intro he
      rcases List.mem_append.1 he with he | he
      · obtain ⟨b, m, q, hb, hq⟩ := ih he
        exact ⟨b, m, q, List.mem_append_left _ hb, hq⟩
      · exact hblock hfills he
  obtain h | ⟨log', fills, bar, met, asks, rfl, h, -, hfills⟩ := h
  · exact hserved h he
  · rcases List.mem_append.1 he with he | he
    · obtain ⟨b, m, q, hb, hq⟩ := hserved h he
      exact ⟨b, m, q, List.mem_append_left _ hb, hq⟩
    · exact hblock hfills he

theorem Serves.within {bar : Bar} {o : Order} {f : Fill} {before after q : ℚ}
    (h : Serves eng bar (.booked o f before after : Event σ τ) q) (htype : o.orderType = .limit) {limit : ℚ}
    (hlimit : o.limitPrice = some limit) :
    o.symbol = bar.symbol ∧ f.ts = bar.ts ∧ (withinLimit o.side limit f.price ↔ Absorbs eng.costModel o limit bar) := by
  obtain ⟨o', x, before', after', heq, hsymbol, -, -, htouch⟩ := h
  cases heq
  obtain rfl := htouch htype limit hlimit
  exact ⟨hsymbol, rfl, withinLimit_iff _ _ _ _⟩

end

end Backtest

/-! ## The simulator -/

namespace SimulatedBroker

open Raising Runs SimulatedBook

/-- What an order keeps from call to call. -/
structure SameTerms (o x : Order) : Prop where
  brokerOrderId : x.brokerOrderId = o.brokerOrderId
  symbol : x.symbol = o.symbol
  side : x.side = o.side
  orderType : x.orderType = o.orderType
  limitPrice : x.limitPrice = o.limitPrice

theorem SameTerms.refl (o : Order) : SameTerms o o := ⟨rfl, rfl, rfl, rfl, rfl⟩

theorem SameTerms.trans {o x y : Order} (h : SameTerms o x) (h' : SameTerms x y) : SameTerms o y where
  brokerOrderId := h'.brokerOrderId.trans h.brokerOrderId
  symbol := h'.symbol.trans h.symbol
  side := h'.side.trans h.side
  orderType := h'.orderType.trans h.orderType
  limitPrice := h'.limitPrice.trans h.limitPrice

theorem sameTerms_accumulate (o : Order) (f : Fill) : SameTerms o (o.accumulate f) := by
  unfold Order.accumulate
  dsimp only
  split <;> exact ⟨rfl, rfl, rfl, rfl, rfl⟩

/-- A call books a fill of an order: on a bar at the price it touches and the slippage, on a quote at the price it takes. -/
def FilledBy (b : SimulatedBroker) (o : Order) (f : Fill) : Request → Prop
  | .onBar bar => o.symbol = bar.symbol ∧ f.ts = bar.ts ∧ ∃ x, intendedPrice o bar b.requireThrough = .ok (some x) ∧
      f.price = x + b.costModel.slippage o bar x
  | .onQuote q => o.symbol = q.symbol ∧ f.ts = q.ts ∧ quotePrice o q = .ok (some f.price)
  | _ => False

/-- An order after a call that books at most one fill of it. -/
def Grown (P : Fill → Prop) (o x : Order) : Prop := SameTerms o x ∧ (x.fills = o.fills ∨ ∃ f, x.fills = o.fills ++ [f] ∧ P f)

section
variable {b : SimulatedBroker} {s : SimulatedBook} {o x : Order} {P : Fill → Prop}

theorem mem_rewrite (h : x ∈ (s.rewrite o).held) : x = o ∨ x ∈ s.held := by
  unfold rewrite at h
  split at h
  · exact .inr h
  rcases mem_held.1 h with ⟨k, hk⟩ | hclosed
  · rw [Dict.get?_set] at hk
    split at hk
    · exact .inl (Option.some.inj hk).symm
    · exact .inr (mem_held.2 (.inl ⟨k, hk⟩))
  · exact .inr (mem_held.2 (.inr hclosed))

theorem mem_retire {st : OrderStatus} (h : x ∈ (s.retire o st).held) : x = retired o st ∨ x ∈ s.held := by
  rcases mem_held.1 h with ⟨k, hk⟩ | hclosed
  · refine .inr (mem_held.2 (.inl ⟨k, ?_⟩))
    unfold retire at hk
    dsimp only at hk
    split at hk
    · exact hk
    · rw [Dict.get?_erase] at hk
      split at hk
      · cases hk
      · exact hk
  · rw [retire_filled, List.mem_append, List.mem_singleton] at hclosed
    exact hclosed.symm.imp_right fun h => mem_held.2 (.inr h)

theorem grown_retired (o : Order) (st : OrderStatus) : Grown P o (retired o st) := by
  obtain ⟨st', hst⟩ := retired_eq o st
  rw [hst]
  exact ⟨⟨rfl, rfl, rfl, rfl, rfl⟩, .inl rfl⟩

theorem grown_accumulate {f : Fill} (hf : P f) : Grown P o (o.accumulate f) :=
  ⟨sameTerms_accumulate o f, .inr ⟨f, Order.accumulate_fills o f, hf⟩⟩

/-- What booking a fill holds. -/
theorem mem_booked {f : Fill} (hf : P f) (h : x ∈ (booked o f s).held) : x ∈ s.held ∨ Grown P o x := by
  rcases mem_rewrite h with rfl | h
  · exact .inr (grown_accumulate hf)
  · exact .inl h

/-- And what retiring the order after it holds. -/
theorem mem_booked_retired {f : Fill} (hf : P f) {st : OrderStatus}
    (h : x ∈ ((booked o f s).retire (o.accumulate f) st).held) : x ∈ s.held ∨ Grown P o x := by
  rcases mem_retire h with rfl | h
  · obtain ⟨hterms, hfills⟩ := grown_accumulate (P := P) (o := o) hf
    obtain ⟨st', hst⟩ := retired_eq (o.accumulate f) st
    rw [hst]
    exact .inr ⟨hterms.trans ⟨rfl, rfl, rfl, rfl, rfl⟩, hfills⟩
  · exact mem_booked hf h

theorem matchBar_grown (b : SimulatedBroker) (bar : Bar) {o : Order} (s : SimulatedBook) (hsymbol : o.symbol = bar.symbol)
    (h : x ∈ (exec (b.matchBar bar o) s).2.held) : x ∈ s.held ∨ Grown (fun f => FilledBy b o f (.onBar bar)) o x := by
  unfold matchBar at h
  rw [exec_bind, exec_fromExcept] at h
  rcases hprice : intendedPrice o bar b.requireThrough with e | _ | price
  · rw [hprice] at h
    exact .inl h
  · rw [hprice] at h
    dsimp only at h
    split at h
    · rcases mem_retire h with rfl | h
      · exact .inr (grown_retired o .expired)
      · exact .inl h
    · exact .inl h
  rw [hprice] at h
  dsimp only at h
  split at h
  · exact .inl h
  split at h
  · exact .inl h
  rename_i hqty
  have hf : FilledBy b o (b.fillOf o (min o.remainingQty (b.maxVolumeParticipation * bar.volume))
      (price + b.costModel.slippage o bar price) bar.ts) (.onBar bar) := ⟨hsymbol, rfl, price, hprice, rfl⟩
  rw [exec_bind, exec_book s (not_le.1 hqty) (min_le_left _ _)] at h
  generalize b.fillOf o _ _ bar.ts = f at h hf
  simp only [exec_bind, exec_fromExcept] at h
  rcases hshown : (o.accumulate f).postInit with e | shown
  · rw [hshown] at h
    exact mem_booked hf h
  rw [hshown] at h
  dsimp only at h
  split at h
  · exact mem_booked_retired hf h
  split at h
  · exact mem_booked_retired hf h
  · exact mem_booked hf h

theorem matchQuote_grown (b : SimulatedBroker) (q : Quote) {o : Order} (s : SimulatedBook) (hsymbol : o.symbol = q.symbol)
    (h : x ∈ (exec (b.matchQuote q o) s).2.held) : x ∈ s.held ∨ Grown (fun f => FilledBy b o f (.onQuote q)) o x := by
  unfold matchQuote at h
  split at h
  · exact .inl h
  rw [exec_bind, exec_fromExcept] at h
  rcases hprice : quotePrice o q with e | _ | price
  · rw [hprice] at h
    exact .inl h
  · rw [hprice] at h
    exact .inl h
  rw [hprice] at h
  dsimp only at h
  split at h
  · exact .inl h
  rename_i hqty
  have hf : FilledBy b o (b.fillOf o (quotedQty o q) price q.ts) (.onQuote q) := ⟨hsymbol, rfl, hprice⟩
  rw [exec_bind, exec_book s (not_le.1 hqty) (quotedQty_le o q)] at h
  generalize b.fillOf o _ price q.ts = f at h hf
  simp only [exec_bind, exec_fromExcept] at h
  rcases hshown : (o.accumulate f).postInit with e | shown
  · rw [hshown] at h
    exact mem_booked hf h
  rw [hshown] at h
  dsimp only at h
  split at h
  · exact mem_booked_retired hf h
  · exact mem_booked hf h

/-- **A pass over several orders** fills each of them at most once. -/
theorem matchEach_grown {R : Order → Prop} {Q : Order → Fill → Prop} {body : Order → Prog SimulatedBook Exc (Option Order)}
    (hbody : ∀ o s, R o → ∀ x ∈ (exec (body o) s).2.held, x ∈ s.held ∨ Grown (Q o) o x) :
    ∀ (l : List Order) (s : SimulatedBook), (∀ o ∈ l, R o) →
      ∀ x ∈ (exec (matchEach body l) s).2.held, x ∈ s.held ∨ ∃ o ∈ l, Grown (Q o) o x
  | [], _, _, _, hx => .inl hx
  | o :: rest, s, hl, x, hx => by
    have hfirst := hbody o s (hl o List.mem_cons_self) x
    unfold matchEach at hx
    rw [exec_bind] at hx
    rcases hdone : exec (body o) s with ⟨_ | shown, t⟩
    · rw [hdone] at hx hfirst
      exact (hfirst hx).imp_right fun h => ⟨o, List.mem_cons_self, h⟩
    rw [hdone] at hx hfirst
    dsimp only at hx
    have hlater := matchEach_grown hbody rest t (fun y hy => hl y (List.mem_cons_of_mem _ hy)) x
    rw [exec_bind] at hx
    have hmem : x ∈ (exec (matchEach body rest) t).2.held := by
      rcases hrun : exec (matchEach body rest) t with ⟨_ | filled, u⟩ <;> rwa [hrun] at hx
    rcases hlater hmem with ht | ⟨y, hy, hgrown⟩
    · exact (hfirst ht).imp_right fun h => ⟨o, List.mem_cons_self, h⟩
    · exact .inr ⟨y, List.mem_cons_of_mem _ hy, hgrown⟩

theorem mem_stopFirst {l : List Order} (h : o ∈ stopFirst l) : o ∈ l := by
  unfold stopFirst at h
  rcases List.mem_append.1 h with h | h <;> exact (List.mem_filter.1 h).1

/-- A submission leaves what is held and at most adds an order nothing has been filled of. -/
theorem submit_grown {now : ℤ} (h : x ∈ (exec (submitOrder now o) s).2.held) : x ∈ s.held ∨ x.fills = [] := by
  cases hc : s.byClientId.get? o.clientOrderId with
  | some id =>
    unfold submitOrder at h
    rw [exec_bind, exec_get] at h
    simp only [hc] at h
    cases hfind : s.findOrder id with
    | none =>
      rw [hfind] at h
      exact .inl h
    | some held =>
      rw [hfind] at h
      dsimp only at h
      rw [exec_fromExcept] at h
      cases hshown : held.postInit <;> rw [hshown] at h <;> exact .inl h
  | none =>
    cases hv : (acceptedOrder now (simId (s.nextId + 1)) o).postInit with
    | error e =>
      rw [submit_refused hc now hv] at h
      exact .inl h
    | ok o' =>
      obtain ⟨rfl, -⟩ := Order.postInit_ok hv
      rw [submit_accepts hc now hv] at h
      rcases mem_held.1 h with ⟨k, hk⟩ | hclosed
      · rw [accepted_openOrders] at hk
        split at hk
        · exact .inr (Option.some.inj hk ▸ rfl)
        · exact .inl (mem_held.2 (.inl ⟨k, hk⟩))
      · exact .inl (mem_held.2 (.inr hclosed))

/-- **What a call leaves**: orders that were held, with at most one fill more, and orders with none. -/
theorem leaves_grown (b : SimulatedBroker) (s : SimulatedBook) (r : Request) (h : x ∈ (r.leaves b s).held) :
    x.fills = [] ∨ ∃ o ∈ s.held, Grown (fun f => FilledBy b o f r) o x := by
  have hkept {r : Request} (h : x ∈ s.held) : x.fills = [] ∨ ∃ o ∈ s.held, Grown (fun f => FilledBy b o f r) o x :=
    .inr ⟨x, h, .refl x, .inl rfl⟩
  cases r with
  | submit now o room => exact (submit_grown h).elim hkept .inl
  | cancel id =>
    cases ho : s.openOrders.get? id with
    | none =>
      refine hkept ?_
      simpa only [Request.leaves, cancelOrder, exec_modify, ho] using h
    | some y =>
      have hy : y ∈ s.held := mem_held.2 (.inl ⟨id, ho⟩)
      simp only [Request.leaves, cancelOrder, exec_modify, ho] at h
      rcases mem_held.1 h with ⟨k, hk⟩ | hclosed
      · rw [Dict.get?_erase] at hk
        split at hk
        · cases hk
        · exact hkept (mem_held.2 (.inl ⟨k, hk⟩))
      · rcases List.mem_append.1 hclosed with hclosed | hclosed
        · exact hkept (mem_held.2 (.inr hclosed))
        · rw [List.mem_singleton.1 hclosed]
          exact .inr ⟨y, hy, ⟨rfl, rfl, rfl, rfl, rfl⟩, .inl rfl⟩
  | close now id clientOrderId symbol =>
    simp only [Request.leaves, closePosition, exec_bind, exec_get] at h
    split at h
    · exact hkept h
    · exact (submit_grown h).elim hkept .inl
  | onBar bar =>
    simp only [Request.leaves, onBar, exec_bind, exec_get] at h
    refine (matchEach_grown (R := fun o => o.symbol = bar.symbol) (fun o s ho x hx => matchBar_grown b bar s ho hx) _ s
      (fun o ho => ?_) x h).elim hkept fun ⟨o, ho, hgrown⟩ => .inr ⟨o, ?_, hgrown⟩
    · have hmatch := (List.mem_filter.1 (mem_stopFirst ho)).2
      simp only [Bool.and_eq_true, decide_eq_true_eq] at hmatch
      exact hmatch.1
    · exact List.mem_append_left _ (List.mem_filter.1 (mem_stopFirst ho)).1
  | onQuote q =>
    simp only [Request.leaves, onQuote, exec_bind, exec_get] at h
    refine (matchEach_grown (R := fun o => o.symbol = q.symbol) (fun o s ho x hx => matchQuote_grown b q s ho hx) _ s
      (fun o ho => of_decide_eq_true (List.mem_filter.1 (mem_stopFirst ho)).2) x h).elim hkept
      fun ⟨o, ho, hgrown⟩ => .inr ⟨o, ?_, hgrown⟩
    exact List.mem_append_left _ (List.mem_filter.1 (mem_stopFirst ho)).1

end

/-- **A call of a run booked a fill of an order**, as it was before the call. -/
def BookedBy (b : SimulatedBroker) (l : List Request) (r : Request) (o : Order) (f : Fill) : Prop :=
  ∃ before later s, l = before ++ r :: later ∧ Run (serves b) b.start before s ∧ o ∈ s.held ∧ FilledBy b o f r

/-- **Every fill has the call that booked it**, in every interleaving. -/
theorem fills_traced {b : SimulatedBroker} (l : List Request) : ∀ s, Run (serves b) b.start l s → ∀ x ∈ s.held, ∀ f ∈ x.fills,
    ∃ r o, BookedBy b l r o f ∧ SameTerms o x := by
  induction l using List.reverseRecOn with
  | nil =>
    intro s hrun x hx
    obtain rfl := run_nil_iff.1 hrun
    cases hx
  | append_singleton l r ih =>
    intro s hrun x hx f hf
    obtain ⟨t, hbefore, hlast⟩ := run_append_iff.1 hrun
    obtain ⟨s', hserves, hnil⟩ := run_cons_iff.1 hlast
    obtain rfl := run_nil_iff.1 hnil
    rw [hserves] at hx
    obtain hnone | ⟨o, ho, hterms, hfills⟩ := leaves_grown b t r hx
    · rw [hnone] at hf
      cases hf
    have hearlier (hmem : f ∈ o.fills) : ∃ r' o', BookedBy b (l ++ [r]) r' o' f ∧ SameTerms o' x := by
      obtain ⟨r', o', ⟨before, later, s₀, hl, hrest⟩, hsame⟩ := ih t hbefore o ho f hmem
      exact ⟨r', o', ⟨before, later ++ [r], s₀, by rw [hl, List.append_assoc, List.cons_append], hrest⟩, hsame.trans hterms⟩
    rcases hfills with hsame | ⟨g, hgrown, hg⟩
    · exact hearlier (hsame ▸ hf)
    rw [hgrown, List.mem_append, List.mem_singleton] at hf
    rcases hf with hf | rfl
    · exact hearlier hf
    · exact ⟨r, o, ⟨l, [], t, rfl, hbefore, ho, hg⟩, hterms⟩

/-- The call leaves a limit order within its limit: a bar when it absorbs the slippage, a quote in any case. -/
def AbsorbedBy (b : SimulatedBroker) (o : Order) (limit : ℚ) : Request → Prop
  | .onBar bar => Backtest.Absorbs b.costModel o limit bar
  | _ => True

/-- A quote is taken within the limit only. -/
theorem quotePrice_within {o : Order} {q : Quote} {x limit : ℚ} (h : quotePrice o q = .ok (some x)) (htype : o.orderType = .limit)
    (hlimit : o.limitPrice = some limit) : withinLimit o.side limit x := by
  unfold quotePrice at h
  rw [htype, hlimit] at h
  unfold withinLimit
  cases hside : o.side <;> rw [hside] at h <;> dsimp only at h <;> split at h <;> cases h <;> simpa

theorem FilledBy.within {b : SimulatedBroker} {o : Order} {f : Fill} {r : Request} (h : FilledBy b o f r)
    (htype : o.orderType = .limit) {limit : ℚ} (hlimit : o.limitPrice = some limit) :
    withinLimit o.side limit f.price ↔ AbsorbedBy b o limit r := by
  cases r with
  | onBar bar =>
    obtain ⟨-, -, x, hx, hprice⟩ := h
    rw [hprice, intendedPrice_limit hx htype hlimit]
    exact withinLimit_iff _ _ _ _
  | onQuote q =>
    obtain ⟨-, -, hprice⟩ := h
    exact iff_of_true (quotePrice_within hprice htype hlimit) trivial
  | submit => exact h.elim
  | cancel => exact h.elim
  | close => exact h.elim

end SimulatedBroker

/-! ## Both engines -/

section
open Raising Runs Backtest SimulatedBroker
variable {L σ τ : Type} (eng : BacktestEngine L σ τ) (bars : Dict String (List Bar)) (portfolio : Portfolio) (rules : σ)
  (strategy : τ) (b : SimulatedBroker)

/-- **A limit order is filled within its limit** exactly where the bar opened past the limit by at least the slippage: each
fill a backtest books of one, on whatever bar, and each fill the simulator books of one, in whatever order it is called. -/
theorem limit_respected :
    (∀ o f before after limit, .booked o f before after ∈ logOf eng bars portfolio rules strategy →
      o.orderType = .limit → o.limitPrice = some limit →
      ∃ bar met, .bar bar met ∈ logOf eng bars portfolio rules strategy ∧ o.symbol = bar.symbol ∧ f.ts = bar.ts ∧
        (withinLimit o.side limit f.price ↔ Absorbs eng.costModel o limit bar)) ∧
    ∀ l s, Run (serves b) b.start l s → ∀ x ∈ s.held, ∀ f ∈ x.fills, ∀ limit,
      x.orderType = .limit → x.limitPrice = some limit →
      ∃ r o, BookedBy b l r o f ∧ SameTerms o x ∧ (withinLimit x.side limit f.price ↔ AbsorbedBy b o limit r) := by
  constructor
  · intro o f before after limit hbooked htype hlimit
    obtain ⟨bar, met, q, hbar, hserves⟩ := booked_serves (logOf_served eng bars portfolio rules strategy).1 hbooked
    exact ⟨bar, met, hbar, hserves.within htype hlimit⟩
  · intro l s hrun x hx f hf limit htype hlimit
    obtain ⟨r, o, hbooked, hsame⟩ := fills_traced l s hrun x hx f hf
    refine ⟨r, o, hbooked, hsame, ?_⟩
    obtain ⟨-, -, -, -, -, -, hfilled⟩ := hbooked
    rw [hsame.side]
    exact hfilled.within (hsame.orderType.symm.trans htype) (hsame.limitPrice.symm.trans hlimit)

end

/-! ## A limit touched inside the bar, and one the bar opened past -/

namespace LimitSample

open Runs Backtest SimulatedBroker

/-- The shipped model, with the square root of the one participation below. -/
def spread : SpreadSlippageModel := { sqrt := fun x => if x = 1 / 100 then 1 / 10 else x }

def broker : SimulatedBroker := { costModel := spread.model }

def bid : Order :=
  { symbol := "SPY", side := .buy, qty := 10, orderType := .limit, limitPrice := some 100, id := "o1", clientOrderId := "c1" }

/-- Bid for at 100, on a day at one price. -/
def calls (price : ℚ) : List Request := [.submit 0 bid (by decide +kernel), .onBar (Levels.flatDay 1 price 1000)]

def after (price : ℚ) : SimulatedBook := (calls price).foldl (Request.leaves broker) broker.start

def bidding (ts : ℤ) : Signal :=
  { strategyId := "sample", symbol := "SPY", action := .enterLong, ts := ts, id := "signal", limitPrice := some 100 }

/-- Bids at 100 on its first bar. -/
def bids : BacktestEngine Unit Unit ℕ :=
  { buyThenExit with
    strategy :=
      { name := "sample"
        warmupBars := 0
        onBar := fun _ bar n => (.ok (if n = 0 then [bidding bar.ts] else []), n + 1) }
    costModel := spread.model
    stopConfig := none }

def twoDays : Dict String (List Bar) := Dict.empty.set "SPY" [Levels.flatDay 1 100 1000, Levels.flatDay 2 100 1000]

def logged : List (Event Unit ℕ) := logOf bids twoDays { cash := 10000, startingEquity := 10000 } () 0

def paidPast : Event Unit ℕ → Bool
  | .booked o f _ _ => o.orderType = .limit && o.limitPrice = some 100 && !decide (withinLimit o.side 100 f.price)
  | .bar _ _ => false

theorem limit_respected_gap : ∃ x ∈ (after 95).held, ∃ f ∈ x.fills, f.price = 95969 / 1000 ∧ ∃ r o,
    BookedBy broker (calls 95) r o f ∧ SameTerms o x ∧ (withinLimit x.side 100 f.price ↔ AbsorbedBy broker o 100 r) := by
  have hfilled : ∃ x ∈ (after 95).held, ∃ f ∈ x.fills, f.price = 95969 / 1000 ∧ x.orderType = .limit ∧ x.limitPrice = some 100 := by
    decide +kernel
  obtain ⟨x, hx, f, hf, hprice, htype, hlimit⟩ := hfilled
  exact ⟨x, hx, f, hf, hprice, (limit_respected bids twoDays { cash := 10000, startingEquity := 10000 } () 0 broker).2
    (calls 95) (after 95) (.cons rfl (.cons rfl (.nil _))) x hx f hf 100 htype hlimit⟩

/-- **Both engines buy at 101.02 on a limit of 100.** -/
theorem limit_paid_past : (∃ x ∈ (after 100).held, ∃ f ∈ x.fills, x.orderType = .limit ∧ x.limitPrice = some 100 ∧
      x.side = .buy ∧ f.price = 5051 / 50 ∧ ¬withinLimit x.side 100 f.price) ∧
    logged.any paidPast = true := by
  decide +kernel

end LimitSample
end Atp
