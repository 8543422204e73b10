import AlgoTrading.Runs
import AlgoTrading.SimulatedBroker
/-!
# SimulatedBook — what the fill simulator's books always say

The invariant is in three parts.  `Filed` is about the two books: an open order rests under its own broker id, a closed
one under none, and no broker id is closed twice.  `Named` is about the ids: every order the broker holds is the one its
client id names.  `Account` is about money, over the fills in the order they were booked: each order's fills are the
ones booked under its id, and they fold into the positions and the cash.

An order leaves a book in one way and stays in it in one way (`retire`, `rewrite`), so each part is proved of these two;
`Matched` lists what a matching pass may do with one order, and a whole pass is one such step after another.
-/
namespace Atp
namespace SimulatedBroker

open Raising Runs SimulatedBook

/-! ## The two books -/

structure Filed (s : SimulatedBook) : Prop where
  keyed : ∀ id o, s.openOrders.get? id = some o → o.brokerOrderId = some id
  apart : ∀ o ∈ s.filled, ∀ id, o.brokerOrderId = some id → s.openOrders.get? id = none
  distinct : (s.filled.map Order.brokerOrderId).Nodup

/-- An order is open exactly while its status is a working one. -/
structure Working (s : SimulatedBook) : Prop where
  open_ : ∀ id o, s.openOrders.get? id = some o → o.status.isOpen = true
  closed : ∀ o ∈ s.filled, o.status.isOpen = false

theorem mem_held {s : SimulatedBook} {x : Order} :
    x ∈ s.held ↔ (∃ id, s.openOrders.get? id = some x) ∨ x ∈ s.filled := by
  unfold held
  rw [List.mem_append, Dict.mem_values_iff]

/-- No broker id is held twice. -/
theorem Filed.nodup {s : SimulatedBook} (h : Filed s) : (s.held.map Order.brokerOrderId).Nodup := by
  have hopen : s.openOrders.values.map Order.brokerOrderId = s.openOrders.keys.map some := by
    unfold Dict.values Dict.keys
    rw [List.map_map, List.map_map]
    apply List.map_congr_left
    intro e he
    exact h.keyed e.1 e.2 ((Dict.mem_entries_iff _ _ _).1 he)
  unfold held
  rw [List.map_append, hopen, List.nodup_append]
  constructor
  · exact s.openOrders.nodup.map (Option.some_injective _)
  constructor
  · exact h.distinct
  · rintro a ha c hc rfl
    obtain ⟨id, hid, rfl⟩ := List.mem_map.1 ha
    obtain ⟨o, ho, hbo⟩ := List.mem_map.1 hc
    rw [Dict.mem_keys_iff, h.apart o ho id hbo] at hid
    cases hid

section Books
variable {s : SimulatedBook} {o o' : Order} {id : String}

theorem rewrite_openOrders (hid : o'.brokerOrderId = some id) (k : String) :
    (s.rewrite o').openOrders.get? k = if k = id then some o' else s.openOrders.get? k := by
  simp only [rewrite, hid, Dict.get?_set]

theorem rewrite_filled (o' : Order) (s : SimulatedBook) : (s.rewrite o').filled = s.filled := by
  unfold rewrite
  split <;> rfl

theorem retire_openOrders (hid : o'.brokerOrderId = some id) (st : OrderStatus) (k : String) :
    (s.retire o' st).openOrders.get? k = if k = id then none else s.openOrders.get? k := by
  simp only [retire, hid, Dict.get?_erase]

/-- The order a retirement files. -/
def retired (o : Order) (st : OrderStatus) : Order := if st = .filled then o else { o with status := st }

theorem retire_filled (o' : Order) (st : OrderStatus) : (s.retire o' st).filled = s.filled ++ [retired o' st] := rfl

theorem retired_brokerOrderId (o : Order) (st : OrderStatus) : (retired o st).brokerOrderId = o.brokerOrderId := by
  unfold retired
  split <;> rfl

theorem retired_eq (o : Order) (st : OrderStatus) : ∃ st', retired o st = { o with status := st' } := by
  unfold retired
  split
  · exact ⟨o.status, rfl⟩
  · exact ⟨st, rfl⟩

theorem Filed.rewrite (h : Filed s) (ho : s.openOrders.get? id = some o) (hid : o'.brokerOrderId = some id) :
    Filed (s.rewrite o') where
  keyed k x hx := by
    rw [rewrite_openOrders hid] at hx
    by_cases hk : k = id
    · rw [if_pos hk, Option.some.injEq] at hx
      rw [← hx, hk, hid]
    · rw [if_neg hk] at hx
      exact h.keyed k x hx
  apart x hx k hk := by
    rw [rewrite_filled] at hx
    have hnone := h.apart x hx k hk
    have hne : k ≠ id := by
      rintro rfl
      rw [ho] at hnone
      cases hnone
    rw [rewrite_openOrders hid, if_neg hne, hnone]
  distinct := by
    rw [rewrite_filled]
    exact h.distinct

theorem Filed.retire (h : Filed s) (ho : s.openOrders.get? id = some o) (hid : o'.brokerOrderId = some id)
    (st : OrderStatus) : Filed (s.retire o' st) where
  keyed k x hx := by
    rw [retire_openOrders hid] at hx
    by_cases hk : k = id
    · simp [hk] at hx
    · rw [if_neg hk] at hx
      exact h.keyed k x hx
  apart x hx k hk := by
    rw [retire_openOrders hid]
    split
    · rfl
    rename_i hne
    rw [retire_filled, List.mem_append, List.mem_singleton] at hx
    rcases hx with hx | rfl
    · exact h.apart x hx k hk
    · rw [retired_brokerOrderId, hid, Option.some.injEq] at hk
      exact absurd hk.symm hne
  distinct := by
    rw [retire_filled, List.map_append, List.nodup_append]
    constructor
    · exact h.distinct
    constructor
    · simp
    · rintro a ha c hc rfl
      obtain ⟨x, hx, rfl⟩ := List.mem_map.1 ha
      simp only [List.map_cons, List.map_nil, List.mem_singleton, retired_brokerOrderId, hid] at hc
      have hnone := h.apart x hx id hc
      rw [ho] at hnone
      cases hnone

/-- **What a rewrite changes of what is held**: the order under its own id. -/
theorem mem_held_rewrite (h : Filed s) (ho : s.openOrders.get? id = some o) (hid : o'.brokerOrderId = some id)
    {x : Order} : x ∈ (s.rewrite o').held ↔ x = o' ∨ x ∈ s.held ∧ x.brokerOrderId ≠ some id := by
  simp only [mem_held, rewrite_openOrders hid, rewrite_filled]
  constructor
  · rintro (⟨k, hk⟩ | hx)
    · by_cases hki : k = id
      · rw [if_pos hki, Option.some.injEq] at hk
        exact .inl hk.symm
      · rw [if_neg hki] at hk
        have hkey := h.keyed k x hk
        exact .inr ⟨.inl ⟨k, hk⟩, by simpa [hkey] using hki⟩
    · refine .inr ⟨.inr hx, fun hxid => ?_⟩
      rw [h.apart x hx id hxid] at ho
      cases ho
  · rintro (rfl | ⟨⟨k, hk⟩ | hx, hne⟩)
    · exact .inl ⟨id, if_pos rfl⟩
    · have hki : k ≠ id := by
        rintro rfl
        exact hne (h.keyed k x hk)
      exact .inl ⟨k, by rw [if_neg hki, hk]⟩
    · exact .inr hx

/-- A retirement changes the same: what it files takes the order's place. -/
theorem mem_held_retire (h : Filed s) (ho : s.openOrders.get? id = some o) (hid : o'.brokerOrderId = some id)
    (st : OrderStatus) {x : Order} :
    x ∈ (s.retire o' st).held ↔ x = retired o' st ∨ x ∈ s.held ∧ x.brokerOrderId ≠ some id := by
  simp only [mem_held, retire_openOrders hid, retire_filled, List.mem_append, List.mem_singleton]
  constructor
  · rintro (⟨k, hk⟩ | hx | hx)
    · by_cases hki : k = id
      · simp [hki] at hk
      · rw [if_neg hki] at hk
        have hkey := h.keyed k x hk
        exact .inr ⟨.inl ⟨k, hk⟩, by simpa [hkey] using hki⟩
    · refine .inr ⟨.inr hx, fun hxid => ?_⟩
      rw [h.apart x hx id hxid] at ho
      cases ho
    · exact .inl hx
  · rintro (rfl | ⟨⟨k, hk⟩ | hx, hne⟩)
    · exact .inr (.inr rfl)
    · have hki : k ≠ id := by
        rintro rfl
        exact hne (h.keyed k x hk)
      exact .inl ⟨k, by rw [if_neg hki, hk]⟩
    · exact .inr (.inl hx)

theorem Working.rewrite (h : Working s) (hid : o'.brokerOrderId = some id) (hst : o'.status.isOpen = true) :
    Working (s.rewrite o') where
  open_ k x hx := by
    rw [rewrite_openOrders hid] at hx
    by_cases hk : k = id
    · rw [if_pos hk, Option.some.injEq] at hx
      rw [← hx, hst]
    · rw [if_neg hk] at hx
      exact h.open_ k x hx
  closed x hx := by
    rw [rewrite_filled] at hx
    exact h.closed x hx

/-- A retirement puts things right whatever the status the order had reached in the open book. -/
theorem Working.retire (hrest : ∀ k x, k ≠ id → s.openOrders.get? k = some x → x.status.isOpen = true)
    (hclosed : ∀ x ∈ s.filled, x.status.isOpen = false) (hid : o'.brokerOrderId = some id) {st : OrderStatus}
    (hst : (retired o' st).status.isOpen = false) : Working (s.retire o' st) where
  open_ k x hx := by
    rw [retire_openOrders hid] at hx
    by_cases hk : k = id
    · simp [hk] at hx
    · rw [if_neg hk] at hx
      exact hrest k x hk hx
  closed x hx := by
    rw [retire_filled, List.mem_append, List.mem_singleton] at hx
    rcases hx with hx | rfl
    · exact hclosed x hx
    · exact hst

end Books

/-! ## The ids -/

structure Named (s : SimulatedBook) : Prop where
  issued : ∀ o ∈ s.held, ∃ n, n ≤ s.nextId ∧ o.brokerOrderId = some (simId n)
  named : ∀ o ∈ s.held, s.byClientId.get? o.clientOrderId = o.brokerOrderId
  names : ∀ cid id, s.byClientId.get? cid = some id →
    ∃ o ∈ s.held, o.brokerOrderId = some id ∧ o.clientOrderId = cid
  valid : ∀ o ∈ s.held, o.postInit = .ok o ∧ o.filledQty ≤ o.qty

/-- The id about to be issued is nobody's. -/
theorem Named.unissued {s : SimulatedBook} (h : Named s) {o : Order} (ho : o ∈ s.held) :
    o.brokerOrderId ≠ some (simId (s.nextId + 1)) := by
  obtain ⟨n, hn, hid⟩ := h.issued o ho
  rw [hid]
  intro heq
  have := simId_inj (Option.some.inj heq)
  omega

/-- **One held order gives way to another** that carries its ids and trades the same thing. -/
structure Swapped (s t : SimulatedBook) (o o' : Order) : Prop where
  held : ∀ x, x ∈ t.held ↔ x = o' ∨ x ∈ s.held ∧ x.brokerOrderId ≠ o.brokerOrderId
  brokerOrderId : o'.brokerOrderId = o.brokerOrderId
  clientOrderId : o'.clientOrderId = o.clientOrderId
  symbol : o'.symbol = o.symbol
  side : o'.side = o.side
  byClientId : t.byClientId = s.byClientId
  nextId : t.nextId = s.nextId

theorem Named.swapped {s t : SimulatedBook} {o o' : Order} (h : Named s) (hf : Filed s) (ho : o ∈ s.held)
    (hw : Swapped s t o o') (hv : o'.postInit = .ok o' ∧ o'.filledQty ≤ o'.qty) : Named t where
  issued x hx := by
    rw [hw.nextId]
    rcases (hw.held x).1 hx with rfl | ⟨hx, -⟩
    · rw [hw.brokerOrderId]
      exact h.issued o ho
    · exact h.issued x hx
  named x hx := by
    rw [hw.byClientId]
    rcases (hw.held x).1 hx with rfl | ⟨hx, -⟩
    · rw [hw.clientOrderId, hw.brokerOrderId]
      exact h.named o ho
    · exact h.named x hx
  names cid id hid := by
    rw [hw.byClientId] at hid
    obtain ⟨x, hx, hxid, hxc⟩ := h.names cid id hid
    by_cases hsame : x.brokerOrderId = o.brokerOrderId
    · obtain rfl : x = o := List.inj_on_of_nodup_map hf.nodup hx ho hsame
      exact ⟨o', (hw.held o').2 (.inl rfl), hw.brokerOrderId.trans hxid, hw.clientOrderId.trans hxc⟩
    · exact ⟨x, (hw.held x).2 (.inr ⟨hx, hsame⟩), hxid, hxc⟩
  valid x hx := by
    rcases (hw.held x).1 hx with rfl | ⟨hx, -⟩
    · exact hv
    · exact h.valid x hx

/-! ## The money -/

/-- One fill, with what it was booked under. -/
structure Booking where
  brokerOrderId : Option String
  symbol : String
  side : Side
  fill : Fill

def bookingOf (o : Order) (f : Fill) : Booking := ⟨o.brokerOrderId, o.symbol, o.side, f⟩

namespace Booking

def signedQty (x : Booking) : ℚ := x.fill.qty * x.side.sign

/-- The booking's fill, applied to the position in its symbol. -/
def take (d : Dict String Position) (x : Booking) : Except Exc (Dict String Position) :=
  match ((d.get? x.symbol).getD { symbol := x.symbol }).applyFill x.fill x.signedQty with
  | .error e => .error e
  | .ok r => .ok (d.set x.symbol r.1)

end Booking

def signedNotional (log : List Booking) : ℚ := (log.map fun x => x.signedQty * x.fill.price).sum

def feesOf (log : List Booking) : ℚ := (log.map fun x => x.fill.fee).sum

/-- The bookings of one broker id. -/
def bookedUnder (id : Option String) (log : List Booking) : List Fill :=
  (log.filter fun x => x.brokerOrderId = id).map Booking.fill

structure Account (startingCash : ℚ) (log : List Booking) (s : SimulatedBook) : Prop where
  fills : ∀ o ∈ s.held, o.fills = bookedUnder o.brokerOrderId log
  owned : ∀ x ∈ log, ∃ o ∈ s.held, o.brokerOrderId = x.brokerOrderId ∧ o.symbol = x.symbol ∧ o.side = x.side
  positions : log.foldlM Booking.take .empty = .ok s.positions
  cash : s.cash = startingCash - signedNotional log - feesOf log

theorem bookedUnder_append (id : Option String) (log new : List Booking) :
    bookedUnder id (log ++ new) = bookedUnder id log ++ bookedUnder id new := by
  unfold bookedUnder
  rw [List.filter_append, List.map_append]

theorem bookedUnder_own (o : Order) (l : List Fill) : bookedUnder o.brokerOrderId (l.map (bookingOf o)) = l := by
  induction l with
  | nil => rfl
  | cons f l ih =>
    unfold bookedUnder at ih ⊢
    simp [bookingOf] at ih ⊢
    exact ih

theorem bookedUnder_other {o : Order} {id : Option String} (h : id ≠ o.brokerOrderId) (l : List Fill) :
    bookedUnder id (l.map (bookingOf o)) = [] := by
  unfold bookedUnder
  rw [List.map_eq_nil_iff, List.filter_eq_nil_iff]
  intro x hx
  obtain ⟨f, -, rfl⟩ := List.mem_map.1 hx
  exact fun hid => h (of_decide_eq_true hid).symm

/-- An order gives way to one with more fills, and the fills reach the positions and the cash. -/
theorem Account.swapped {s t : SimulatedBook} {o o' : Order} {start : ℚ} {log : List Booking} (h : Account start log s)
    (hf : Filed s) (ho : o ∈ s.held) (hw : Swapped s t o o') {l : List Fill} (hfills : o'.fills = o.fills ++ l)
    (hpos : (l.map (bookingOf o)).foldlM Booking.take s.positions = .ok t.positions)
    (hcash : t.cash = s.cash - signedNotional (l.map (bookingOf o)) - feesOf (l.map (bookingOf o))) :
    Account start (log ++ l.map (bookingOf o)) t where
  fills x hx := by
    rw [bookedUnder_append]
    rcases (hw.held x).1 hx with rfl | ⟨hx, hne⟩
    · rw [hfills, hw.brokerOrderId, bookedUnder_own, h.fills o ho]
    · rw [bookedUnder_other hne, List.append_nil, h.fills x hx]
  owned x hx := by
    rcases List.mem_append.1 hx with hx | hx
    · obtain ⟨y, hy, hid, hsym, hside⟩ := h.owned x hx
      by_cases hsame : y.brokerOrderId = o.brokerOrderId
      · obtain rfl : y = o := List.inj_on_of_nodup_map hf.nodup hy ho hsame
        exact ⟨o', (hw.held o').2 (.inl rfl), hw.brokerOrderId.trans hid, hw.symbol.trans hsym, hw.side.trans hside⟩
      · exact ⟨y, (hw.held y).2 (.inr ⟨hy, hsame⟩), hid, hsym, hside⟩
    · obtain ⟨f, -, rfl⟩ := List.mem_map.1 hx
      exact ⟨o', (hw.held o').2 (.inl rfl), hw.brokerOrderId, hw.symbol, hw.side⟩
  positions := by
    rw [List.foldlM_append, h.positions]
    exact hpos
  cash := by
    rw [hcash, h.cash]
    unfold signedNotional feesOf
    rw [List.map_append, List.sum_append, List.map_append, List.sum_append]
    ring

/-! ## One fill -/

/-- The state `_book` leaves. -/
def booked (o : Order) (f : Fill) (s : SimulatedBook) : SimulatedBook :=
  { s.rewrite (o.accumulate f) with
    positions := s.positions.set o.symbol ((s.position o.symbol).settled f (f.qty * o.side.sign))
    cash := s.cash - (f.qty * f.price * o.side.sign + f.fee) }

/-- The constructor's checks read an order's terms only. -/
theorem postInit_terms {o o' : Order} (h : o.postInit = .ok o) (hq : o'.qty = o.qty) (ht : o'.orderType = o.orderType)
    (hl : o'.limitPrice = o.limitPrice) (hs : o'.stopPrice = o.stopPrice) : o'.postInit = .ok o' := by
  obtain ⟨-, hqty, hlimit, hstop⟩ := Order.postInit_ok h
  apply Order.postInit_eq
  · rwa [hq]
  · rwa [ht, hl]
  · rwa [ht, hs]

theorem accumulate_postInit {o : Order} (f : Fill) (h : o.postInit = .ok o) :
    (o.accumulate f).postInit = .ok (o.accumulate f) := by
  apply postInit_terms h (Order.accumulate_qty o f) <;>
  · unfold Order.accumulate
    dsimp only
    split <;> rfl

theorem signed_settles (p : Position) (side : Side) {f : Fill} (hpos : 0 < f.qty) :
    p.applyFill f (f.qty * side.sign) =
      .ok (p.settled f (f.qty * side.sign), (p.settle f (f.qty * side.sign)).2.2) := by
  have hs : ((side.sign : ℤ) : ℚ) = 1 ∨ ((side.sign : ℤ) : ℚ) = -1 := by cases side <;> simp [Side.sign]
  apply Position.applyFill_ok.2
  rcases hs with hs | hs <;> rw [hs] <;> simp [hpos, hpos.ne', abs_of_pos hpos]

/-- **`_book` never raises on a fill the order has room for.** -/
theorem exec_book {o : Order} {f : Fill} (s : SimulatedBook) (hpos : 0 < f.qty) (hle : f.qty ≤ o.remainingQty) :
    exec (book o f) s = (.ok (o.accumulate f), booked o f s) := by
  have hfill : o.applyFill f = .ok (o.accumulate f) := Order.applyFill_ok.2 ⟨hpos, hle, rfl⟩
  have hframe : ∀ o', (s.rewrite o').positions = s.positions ∧ (s.rewrite o').cash = s.cash := by
    intro o'
    unfold rewrite
    split <;> exact ⟨rfl, rfl⟩
  have hposition : ((s.positions.setdefault o.symbol { symbol := o.symbol }).get? o.symbol).getD
      { symbol := o.symbol } = s.position o.symbol := by
    rw [Dict.get?_setdefault_self]
    rfl
  unfold book booked
  simp only [exec_bind, exec_fromExcept, exec_modify, exec_get, exec_pure, hfill]
  simp only [position, hframe, hposition, signed_settles _ o.side hpos, Dict.setdefault_set]

/-- **What a matching pass may do with one open order.** -/
inductive Matched (s : SimulatedBook) (o : Order) : SimulatedBook → Prop
  | untouched : Matched s o s
  | expired : Matched s o (s.retire o .expired)
  | partly (f : Fill) : 0 < f.qty → f.qty < o.remainingQty → Matched s o (booked o f s)
  | lapsed (f : Fill) : 0 < f.qty → f.qty < o.remainingQty →
      Matched s o ((booked o f s).retire (o.accumulate f) .expired)
  | completed (f : Fill) : 0 < f.qty → f.qty = o.remainingQty →
      Matched s o ((booked o f s).retire (o.accumulate f) .filled)

theorem matchBar_matched (b : SimulatedBroker) (bar : Bar) {o : Order} (s : SimulatedBook) (hv : o.postInit = .ok o) :
    Matched s o (exec (b.matchBar bar o) s).2 := by
  unfold matchBar
  rw [exec_bind, exec_fromExcept]
  rcases intendedPrice o bar b.requireThrough with e | _ | price
  · exact .untouched
  · dsimp only
    split
    · exact .expired
    · exact .untouched
  dsimp only
  split
  · exact .untouched
  split
  · exact .untouched
  rename_i hqty
  generalize hf : b.fillOf o (min o.remainingQty (b.maxVolumeParticipation * bar.volume))
    (price + b.costModel.slippage o bar price) bar.ts = f
  have hpos : 0 < f.qty := by
    rw [← hf]
    exact not_le.1 hqty
  have hle : f.qty ≤ o.remainingQty := by
    rw [← hf]
    exact min_le_left _ _
  rw [exec_bind, exec_book s hpos hle]
  simp only [exec_bind, exec_fromExcept, accumulate_postInit f hv, Order.accumulate_remainingQty]
  split
  · rename_i hday
    exact .lapsed f hpos (by linarith [hday.1])
  split
  · rename_i hzero
    exact .completed f hpos (by linarith)
  · rename_i hzero
    exact .partly f hpos (lt_of_le_of_ne hle fun heq => hzero (by linarith))

theorem quotedQty_le (o : Order) (q : Quote) : quotedQty o q ≤ o.remainingQty := by
  unfold quotedQty
  generalize (if o.side = .buy then q.askSize else q.bidSize) = available
  dsimp only
  split
  · exact min_le_left _ _
  · rfl

theorem matchQuote_matched (b : SimulatedBroker) (q : Quote) {o : Order} (s : SimulatedBook) (hv : o.postInit = .ok o) :
    Matched s o (exec (b.matchQuote q o) s).2 := by
  unfold matchQuote
  split
  · exact .untouched
  rw [exec_bind, exec_fromExcept]
  rcases quotePrice o q with e | _ | price
  · exact .untouched
  · exact .untouched
  dsimp only
  split
  · exact .untouched
  rename_i hqty
  generalize hf : b.fillOf o (quotedQty o q) price q.ts = f
  have hpos : 0 < f.qty := by
    rw [← hf]
    exact not_le.1 hqty
  have hle : f.qty ≤ o.remainingQty := by
    rw [← hf]
    exact quotedQty_le o q
  rw [exec_bind, exec_book s hpos hle]
  simp only [exec_bind, exec_fromExcept, accumulate_postInit f hv, Order.accumulate_remainingQty]
  split
  · rename_i hzero
    exact .completed f hpos (by linarith)
  · rename_i hzero
    exact .partly f hpos (lt_of_le_of_ne hle fun heq => hzero (by linarith))

/-! ## What a matching pass keeps -/

/-- The invariant but for the statuses, which a fill and the retirement after it set right together. -/
structure Books (start : ℚ) (s : SimulatedBook) : Prop where
  filed : Filed s
  named : Named s
  account : ∃ log, Account start log s

section Step
variable {start : ℚ} {s t : SimulatedBook} {o : Order} {id : String}

theorem rewrite_ids (o : Order) (s : SimulatedBook) :
    (s.rewrite o).byClientId = s.byClientId ∧ (s.rewrite o).nextId = s.nextId := by
  unfold rewrite
  split <;> exact ⟨rfl, rfl⟩

theorem Books.booked (h : Books start s) (ho : s.openOrders.get? id = some o) {f : Fill} (hpos : 0 < f.qty)
    (hle : f.qty ≤ o.remainingQty) : Books start (booked o f s) := by
  have hid := h.filed.keyed id o ho
  have hid' : (o.accumulate f).brokerOrderId = some id := by rw [Order.accumulate_brokerOrderId, hid]
  have hheld : o ∈ s.held := mem_held.2 (.inl ⟨id, ho⟩)
  have hw : Swapped s (SimulatedBroker.booked o f s) o (o.accumulate f) :=
    { held := fun x => by
        rw [hid]
        exact mem_held_rewrite h.filed ho hid'
      brokerOrderId := Order.accumulate_brokerOrderId o f
      clientOrderId := Order.accumulate_clientOrderId o f
      symbol := Order.accumulate_symbol o f
      side := Order.accumulate_side o f
      byClientId := (rewrite_ids _ s).1
      nextId := (rewrite_ids _ s).2 }
  have hv := h.named.valid o hheld
  have hbound : (o.accumulate f).filledQty ≤ (o.accumulate f).qty := by
    rw [Order.accumulate_filledQty, Order.accumulate_qty]
    unfold Order.remainingQty at hle
    linarith
  obtain ⟨log, hlog⟩ := h.account
  have hfiled := h.filed.rewrite ho hid'
  constructor
  · exact ⟨hfiled.keyed, hfiled.apart, hfiled.distinct⟩
  · exact h.named.swapped h.filed hheld hw ⟨accumulate_postInit f hv.1, hbound⟩
  · refine ⟨_, hlog.swapped h.filed hheld hw (l := [f]) (Order.accumulate_fills o f) ?_ ?_⟩
    · simp only [List.map_cons, List.map_nil, List.foldlM_cons, List.foldlM_nil, Booking.take, bookingOf,
        Booking.signedQty, signed_settles _ o.side hpos]
      rfl
    · simp only [SimulatedBroker.booked, signedNotional, feesOf, List.map_cons, List.map_nil, List.sum_cons,
        List.sum_nil, bookingOf, Booking.signedQty]
      ring

theorem Books.retired (h : Books start s) (ho : s.openOrders.get? id = some o) (st : OrderStatus) :
    Books start (s.retire o st) := by
  have hid := h.filed.keyed id o ho
  have hheld : o ∈ s.held := mem_held.2 (.inl ⟨id, ho⟩)
  obtain ⟨st', hst⟩ := retired_eq o st
  have hv := h.named.valid o hheld
  have hw : Swapped s (s.retire o st) o { o with status := st' } :=
    { held := fun x => by
        rw [← hst, hid]
        exact mem_held_retire h.filed ho hid st
      brokerOrderId := rfl
      clientOrderId := rfl
      symbol := rfl
      side := rfl
      byClientId := rfl
      nextId := rfl }
  obtain ⟨log, hlog⟩ := h.account
  constructor
  · exact h.filed.retire ho hid st
  · exact h.named.swapped h.filed hheld hw ⟨postInit_terms hv.1 rfl rfl rfl rfl, hv.2⟩
  · have hfills : ({ o with status := st' } : Order).fills = o.fills ++ [] := (List.append_nil o.fills).symm
    refine ⟨_, hlog.swapped h.filed hheld hw hfills rfl ?_⟩
    simp [signedNotional, feesOf, retire]

/-- **What holds of the broker between two calls.** -/
structure Sound (start : ℚ) (s : SimulatedBook) : Prop where
  books : Books start s
  working : Working s

theorem booked_openOrders (hid : o.brokerOrderId = some id) (f : Fill) (k : String) :
    (booked o f s).openOrders.get? k = if k = id then some (o.accumulate f) else s.openOrders.get? k :=
  rewrite_openOrders (by rw [Order.accumulate_brokerOrderId, hid]) k

theorem booked_filled (o : Order) (f : Fill) (s : SimulatedBook) : (booked o f s).filled = s.filled :=
  rewrite_filled (o.accumulate f) s

theorem accumulate_open {f : Fill} (h : f.qty < o.remainingQty) : (o.accumulate f).status.isOpen = true := by
  unfold Order.remainingQty at h
  rw [Order.accumulate_status, if_neg (by linarith)]
  rfl

theorem accumulate_complete {f : Fill} (h : f.qty = o.remainingQty) : (o.accumulate f).status.isOpen = false := by
  unfold Order.remainingQty at h
  rw [Order.accumulate_status, if_pos (by linarith)]
  rfl

/-- **One order matched keeps the invariant**, and no other order of the open book moves. -/
theorem Matched.sound (hm : Matched s o t) (h : Sound start s) (ho : s.openOrders.get? id = some o) :
    Sound start t ∧ ∀ k, k ≠ id → t.openOrders.get? k = s.openOrders.get? k := by
  have hid := h.books.filed.keyed id o ho
  have hrest : ∀ f k x, k ≠ id → (booked o f s).openOrders.get? k = some x → x.status.isOpen = true := by
    intro f k x hk hx
    rw [booked_openOrders hid, if_neg hk] at hx
    exact h.working.open_ k x hx
  have hclosed : ∀ f, ∀ x ∈ (booked o f s).filled, x.status.isOpen = false := by
    intro f x hx
    rw [booked_filled] at hx
    exact h.working.closed x hx
  have hacc : ∀ f, (o.accumulate f).brokerOrderId = some id := by
    intro f
    rw [Order.accumulate_brokerOrderId, hid]
  have hnow : ∀ f, (booked o f s).openOrders.get? id = some (o.accumulate f) := by
    intro f
    rw [booked_openOrders hid, if_pos rfl]
  cases hm with
  | untouched => exact ⟨h, fun k _ => rfl⟩
  | expired =>
    constructor
    · exact ⟨h.books.retired ho .expired,
        Working.retire (fun k x _ hx => h.working.open_ k x hx) h.working.closed hid rfl⟩
    · intro k hk
      rw [retire_openOrders hid, if_neg hk]
  | partly f hpos hlt =>
    constructor
    · have hw := h.working.rewrite (hacc f) (accumulate_open hlt)
      exact ⟨h.books.booked ho hpos hlt.le, hw.open_, hw.closed⟩
    · intro k hk
      rw [booked_openOrders hid, if_neg hk]
  | lapsed f hpos hlt =>
    constructor
    · exact ⟨(h.books.booked ho hpos hlt.le).retired (hnow f) .expired,
        Working.retire (hrest f) (hclosed f) (hacc f) rfl⟩
    · intro k hk
      rw [retire_openOrders (hacc f), if_neg hk, booked_openOrders hid, if_neg hk]
  | completed f hpos heq =>
    constructor
    · exact ⟨(h.books.booked ho hpos heq.le).retired (hnow f) .filled,
        Working.retire (hrest f) (hclosed f) (hacc f) (accumulate_complete heq)⟩
    · intro k hk
      rw [retire_openOrders (hacc f), if_neg hk, booked_openOrders hid, if_neg hk]

/-- **A pass over several orders is one match after another**: what is still to come is untouched by what was done. -/
theorem matchEach_sound {body : Order → Prog SimulatedBook Exc (Option Order)}
    (hbody : ∀ o s, o.postInit = .ok o → Matched s o (exec (body o) s).2) :
    ∀ (l : List Order) (s : SimulatedBook), Sound start s → (l.map Order.brokerOrderId).Nodup →
      (∀ o ∈ l, ∃ id, s.openOrders.get? id = some o) → Sound start (exec (matchEach body l) s).2
  | [], _, h, _, _ => h
  | o :: rest, s, h, hnd, hopen => by
    obtain ⟨id, ho⟩ := hopen o (List.mem_cons_self ..)
    have hid := h.books.filed.keyed id o ho
    have hv := (h.books.named.valid o (mem_held.2 (.inl ⟨id, ho⟩))).1
    obtain ⟨hsound, hframe⟩ := (hbody o s hv).sound h ho
    rw [List.map_cons, List.nodup_cons] at hnd
    have hlater : ∀ x ∈ rest, ∃ k, (exec (body o) s).2.openOrders.get? k = some x := by
      intro x hx
      obtain ⟨k, hk⟩ := hopen x (List.mem_cons_of_mem _ hx)
      refine ⟨k, (hframe k ?_).trans hk⟩
      rintro rfl
      apply hnd.1
      rw [hid, ← h.books.filed.keyed k x hk]
      exact List.mem_map.2 ⟨x, hx, rfl⟩
    have ih := matchEach_sound hbody rest (exec (body o) s).2 hsound hnd.2 hlater
    unfold matchEach
    rw [exec_bind]
    rcases hdone : exec (body o) s with ⟨_ | shown, t⟩
    · rwa [hdone] at hsound
    · rw [hdone] at ih
      dsimp only at ih ⊢
      rw [exec_bind]
      rcases hrun : exec (matchEach body rest) t with ⟨_ | filled, u⟩ <;> rwa [hrun] at ih

/-- The candidates of a pass are distinct orders of the open book. -/
theorem candidates_open (h : Filed s) (p : Order → Bool) :
    ((stopFirst (s.openOrders.values.filter p)).map Order.brokerOrderId).Nodup ∧
      ∀ o ∈ stopFirst (s.openOrders.values.filter p), ∃ id, s.openOrders.get? id = some o := by
  have hperm : (stopFirst (s.openOrders.values.filter p)).Perm (s.openOrders.values.filter p) := by
    unfold stopFirst
    simpa using List.filter_append_perm (fun o => decide (o.orderType = .stop)) (s.openOrders.values.filter p)
  have hnd := h.nodup
  unfold held at hnd
  rw [List.map_append] at hnd
  constructor
  · rw [(hperm.map Order.brokerOrderId).nodup_iff]
    exact (List.nodup_append.1 hnd).1.sublist (List.filter_sublist.map _)
  · intro o ho
    exact (Dict.mem_values_iff _ _).1 (List.mem_filter.1 (hperm.mem_iff.1 ho)).1

end Step

/-! ## Submissions and cancellations -/

section Calls
variable {start : ℚ} {s : SimulatedBook} {o : Order}

/-- A lookup by broker id finds the one order held under it. -/
theorem findOrder_eq (h : Filed s) (ho : o ∈ s.held) {id : String} (hid : o.brokerOrderId = some id) :
    s.findOrder id = some o := by
  unfold findOrder
  rcases mem_held.1 ho with ⟨k, hk⟩ | hclosed
  · have hkey := h.keyed k o hk
    rw [hid, Option.some.injEq] at hkey
    rw [hkey, hk, Option.some_or]
  · rw [h.apart o hclosed id hid, Option.none_or]
    cases hfind : s.filled.find? (fun x => x.brokerOrderId = some id) with
    | none =>
      have hno := List.find?_eq_none.1 hfind o hclosed
      simp [hid] at hno
    | some x =>
      have hx := List.find?_some hfind
      have hsame : x.brokerOrderId = o.brokerOrderId := (of_decide_eq_true hx).trans hid.symm
      rw [List.inj_on_of_nodup_map h.distinct (List.mem_of_find?_eq_some hfind) hclosed hsame]

/-- **A replayed submit answers with the order held and touches nothing.** -/
theorem submit_replayed (h : Sound start s) (ho : o ∈ s.held) (now : ℤ) {o' : Order}
    (hc : o'.clientOrderId = o.clientOrderId) : exec (submitOrder now o') s = (.ok o, s) := by
  obtain ⟨n, -, hid⟩ := h.books.named.issued o ho
  have hknown : s.byClientId.get? o'.clientOrderId = some (simId n) := by rw [hc, h.books.named.named o ho, hid]
  unfold submitOrder
  rw [exec_bind, exec_get]
  simp only [hknown, findOrder_eq h.books.filed ho hid, exec_fromExcept, (h.books.named.valid o ho).1]

/-- The state in which a new order has been accepted. -/
def accepted (now : ℤ) (o : Order) (s : SimulatedBook) : SimulatedBook :=
  { s with
    nextId := s.nextId + 1
    openOrders := s.openOrders.set (simId (s.nextId + 1)) (acceptedOrder now (simId (s.nextId + 1)) o)
    byClientId := s.byClientId.set o.clientOrderId (simId (s.nextId + 1)) }

theorem submit_accepts (hnew : s.byClientId.get? o.clientOrderId = none) (now : ℤ)
    (hv : (acceptedOrder now (simId (s.nextId + 1)) o).postInit = .ok (acceptedOrder now (simId (s.nextId + 1)) o)) :
    exec (submitOrder now o) s = (.ok (acceptedOrder now (simId (s.nextId + 1)) o), accepted now o s) := by
  unfold submitOrder accepted
  rw [exec_bind, exec_get]
  simp only [hnew, exec_bind, exec_modify, exec_fromExcept, hv]

theorem submit_refused (hnew : s.byClientId.get? o.clientOrderId = none) (now : ℤ) {e : Exc}
    (hv : (acceptedOrder now (simId (s.nextId + 1)) o).postInit = .error e) :
    exec (submitOrder now o) s = (.error e, { s with nextId := s.nextId + 1 }) := by
  unfold submitOrder
  rw [exec_bind, exec_get]
  simp only [hnew, exec_bind, exec_modify, exec_fromExcept, hv]

theorem Sound.issued (h : Sound start s) : Sound start { s with nextId := s.nextId + 1 } := by
  obtain ⟨log, hlog⟩ := h.books.account
  have hn := h.books.named
  constructor
  · constructor
    · exact ⟨h.books.filed.keyed, h.books.filed.apart, h.books.filed.distinct⟩
    · refine ⟨fun x hx => ?_, hn.named, hn.names, hn.valid⟩
      obtain ⟨n, hle, hid⟩ := hn.issued x hx
      exact ⟨n, Nat.le_succ_of_le hle, hid⟩
    · exact ⟨log, hlog.fills, hlog.owned, hlog.positions, hlog.cash⟩
  · exact ⟨h.working.open_, h.working.closed⟩

/-- **Accepting an order** adds it to what is held and changes nothing else. -/
theorem mem_held_accepted (h : Books start s) (now : ℤ) {x : Order} :
    x ∈ (accepted now o s).held ↔ x = acceptedOrder now (simId (s.nextId + 1)) o ∨ x ∈ s.held := by
  have hnone : s.openOrders.get? (simId (s.nextId + 1)) = none := by
    cases hg : s.openOrders.get? (simId (s.nextId + 1)) with
    | none => rfl
    | some y => exact absurd (h.filed.keyed _ y hg) (h.named.unissued (mem_held.2 (.inl ⟨_, hg⟩)))
  simp only [mem_held, accepted, Dict.get?_set]
  constructor
  · rintro (⟨k, hk⟩ | hx)
    · by_cases hki : k = simId (s.nextId + 1)
      · rw [if_pos hki, Option.some.injEq] at hk
        exact .inl hk.symm
      · rw [if_neg hki] at hk
        exact .inr (.inl ⟨k, hk⟩)
    · exact .inr (.inr hx)
  · rintro (rfl | ⟨k, hk⟩ | hx)
    · exact .inl ⟨_, if_pos rfl⟩
    · have hki : k ≠ simId (s.nextId + 1) := by
        rintro rfl
        rw [hnone] at hk
        cases hk
      exact .inl ⟨k, by rw [if_neg hki, hk]⟩
    · exact .inr hx

theorem accepted_openOrders (now : ℤ) (o : Order) (s : SimulatedBook) (k : String) :
    (accepted now o s).openOrders.get? k =
      if k = simId (s.nextId + 1) then some (acceptedOrder now (simId (s.nextId + 1)) o) else s.openOrders.get? k :=
  Dict.get?_set ..

theorem Books.accepted_filed (h : Books start s) (now : ℤ) (o : Order) : Filed (accepted now o s) where
  keyed k x hx := by
    rw [accepted_openOrders] at hx
    by_cases hk : k = simId (s.nextId + 1)
    · rw [if_pos hk, Option.some.injEq] at hx
      rw [← hx, hk]
      rfl
    · rw [if_neg hk] at hx
      exact h.filed.keyed k x hx
  apart x hx k hk := by
    have hne : k ≠ simId (s.nextId + 1) := by
      rintro rfl
      exact h.named.unissued (mem_held.2 (.inr hx)) hk
    rw [accepted_openOrders, if_neg hne]
    exact h.filed.apart x hx k hk
  distinct := h.filed.distinct

theorem Books.accepted_named (h : Books start s) (hnew : s.byClientId.get? o.clientOrderId = none) (now : ℤ)
    (hv : (acceptedOrder now (simId (s.nextId + 1)) o).postInit = .ok (acceptedOrder now (simId (s.nextId + 1)) o))
    (hq : o.filledQty ≤ o.qty) : Named (accepted now o s) where
  issued x hx := by
    rcases (mem_held_accepted h now).1 hx with rfl | hx
    · exact ⟨s.nextId + 1, le_refl _, rfl⟩
    · obtain ⟨n, hle, hid⟩ := h.named.issued x hx
      exact ⟨n, Nat.le_succ_of_le hle, hid⟩
  named x hx := by
    simp only [accepted, Dict.get?_set]
    rcases (mem_held_accepted h now).1 hx with rfl | hx
    · exact if_pos rfl
    · rw [if_neg, h.named.named x hx]
      intro hsame
      obtain ⟨n, -, hid⟩ := h.named.issued x hx
      rw [← hsame, h.named.named x hx, hid] at hnew
      cases hnew
  names cid id hid := by
    simp only [accepted, Dict.get?_set] at hid
    by_cases hc : cid = o.clientOrderId
    · rw [if_pos hc, Option.some.injEq] at hid
      exact ⟨_, (mem_held_accepted h now).2 (.inl rfl), congrArg some hid, hc.symm⟩
    · rw [if_neg hc] at hid
      obtain ⟨x, hx, hx'⟩ := h.named.names cid id hid
      exact ⟨x, (mem_held_accepted h now).2 (.inr hx), hx'⟩
  valid x hx := by
    rcases (mem_held_accepted h now).1 hx with rfl | hx
    · exact ⟨hv, hq⟩
    · exact h.named.valid x hx

/-- Nothing was booked yet under the id a new order gets. -/
theorem Books.accepted_account (h : Books start s) (now : ℤ) (o : Order) {log : List Booking}
    (hlog : Account start log s) : Account start log (accepted now o s) where
  fills x hx := by
    rcases (mem_held_accepted h now).1 hx with rfl | hx
    · have hnothing : log.filter (fun y => y.brokerOrderId = some (simId (s.nextId + 1))) = [] := by
        rw [List.filter_eq_nil_iff]
        intro y hy hyid
        obtain ⟨z, hz, hzid, -⟩ := hlog.owned y hy
        exact h.named.unissued hz (hzid.trans (of_decide_eq_true hyid))
      show [] = bookedUnder (some (simId (s.nextId + 1))) log
      unfold bookedUnder
      rw [hnothing, List.map_nil]
    · exact hlog.fills x hx
  owned y hy := by
    obtain ⟨z, hz, hz'⟩ := hlog.owned y hy
    exact ⟨z, (mem_held_accepted h now).2 (.inr hz), hz'⟩
  positions := hlog.positions
  cash := hlog.cash

theorem Working.accepted (h : Working s) (now : ℤ) (o : Order) : Working (accepted now o s) where
  open_ k x hx := by
    rw [accepted_openOrders] at hx
    by_cases hk : k = simId (s.nextId + 1)
    · rw [if_pos hk, Option.some.injEq] at hx
      rw [← hx]
      rfl
    · rw [if_neg hk] at hx
      exact h.open_ k x hx
  closed := h.closed

theorem submit_sound (h : Sound start s) (now : ℤ) (hq : o.filledQty ≤ o.qty) :
    Sound start (exec (submitOrder now o) s).2 := by
  cases hc : s.byClientId.get? o.clientOrderId with
  | some id =>
    obtain ⟨x, hx, -, hxc⟩ := h.books.named.names _ id hc
    rwa [submit_replayed h hx now hxc.symm]
  | none =>
    cases hv : (acceptedOrder now (simId (s.nextId + 1)) o).postInit with
    | error e =>
      rw [submit_refused hc now hv]
      exact h.issued
    | ok o' =>
      obtain ⟨rfl, -⟩ := Order.postInit_ok hv
      rw [submit_accepts hc now hv]
      obtain ⟨log, hlog⟩ := h.books.account
      exact ⟨⟨h.books.accepted_filed now o, h.books.accepted_named hc now hv hq, log,
        h.books.accepted_account now o hlog⟩, h.working.accepted now o⟩

theorem cancel_sound (h : Sound start s) (id : String) : Sound start (exec (cancelOrder id) s).2 := by
  unfold cancelOrder
  rw [exec_modify]
  cases ho : s.openOrders.get? id with
  | none => exact h
  | some x =>
    have hid := h.books.filed.keyed id x ho
    have heq : { s with
        openOrders := s.openOrders.erase id, filled := s.filled ++ [{ x with status := .cancelled }] } =
        s.retire x .cancelled := by
      unfold retire
      rw [hid]
      rfl
    dsimp only
    rw [heq]
    exact ⟨h.books.retired ho .cancelled,
      Working.retire (fun k y _ hy => h.working.open_ k y hy) h.working.closed hid rfl⟩

theorem onBar_sound (b : SimulatedBroker) (h : Sound start s) (bar : Bar) : Sound start (exec (b.onBar bar) s).2 := by
  obtain ⟨hnd, hopen⟩ := candidates_open h.books.filed fun o => o.symbol = bar.symbol && mayFillOn o bar
  unfold onBar
  rw [exec_bind, exec_get]
  exact matchEach_sound (fun o t hv => matchBar_matched b bar t hv) _ s h hnd hopen

theorem onQuote_sound (b : SimulatedBroker) (h : Sound start s) (q : Quote) : Sound start (exec (b.onQuote q) s).2 := by
  obtain ⟨hnd, hopen⟩ := candidates_open h.books.filed fun o => o.symbol = q.symbol
  unfold onQuote
  rw [exec_bind, exec_get]
  exact matchEach_sound (fun o t hv => matchQuote_matched b q t hv) _ s h hnd hopen

theorem close_sound (h : Sound start s) (now : ℤ) (id clientOrderId symbol : String) :
    Sound start (exec (closePosition now id clientOrderId symbol) s).2 := by
  unfold closePosition
  rw [exec_bind, exec_get]
  dsimp only
  split
  · exact h
  · exact submit_sound h now (abs_nonneg _)

end Calls

/-! ## Every interleaving -/

/-- A call of the broker.  A submitted order was not filled past its size: `apply_fill` refuses to. -/
inductive Request
  | submit (now : ℤ) (o : Order) (room : o.filledQty ≤ o.qty)
  | cancel (id : String)
  | close (now : ℤ) (id clientOrderId symbol : String)
  | onBar (bar : Bar)
  | onQuote (quote : Quote)

/-- The state a call leaves, whether it returned or raised. -/
def Request.leaves (b : SimulatedBroker) (s : SimulatedBook) : Request → SimulatedBook
  | .submit now o _ => (exec (submitOrder now o) s).2
  | .cancel id => (exec (cancelOrder id) s).2
  | .close now id clientOrderId symbol => (exec (closePosition now id clientOrderId symbol) s).2
  | .onBar bar => (exec (b.onBar bar) s).2
  | .onQuote quote => (exec (b.onQuote quote) s).2

def serves (b : SimulatedBroker) (s : SimulatedBook) (r : Request) (t : SimulatedBook) : Prop := t = r.leaves b s

theorem start_sound (b : SimulatedBroker) : Sound b.startingCash b.start := by
  have hnone : ∀ x, x ∉ b.start.held := fun x hx => by
    rcases mem_held.1 hx with ⟨id, hid⟩ | hx <;> simp [start] at *
  constructor
  · constructor
    · exact ⟨fun id o ho => by simp [start] at ho, fun o ho => by simp [start] at ho, List.nodup_nil⟩
    · exact ⟨fun o ho => absurd ho (hnone o), fun o ho => absurd ho (hnone o),
        fun cid id hid => by simp [start] at hid, fun o ho => absurd ho (hnone o)⟩
    · refine ⟨[], fun o ho => absurd ho (hnone o), fun x hx => by simp at hx, rfl, ?_⟩
      simp [start, signedNotional, feesOf]
  · exact ⟨fun id o ho => by simp [start] at ho, fun o ho => by simp [start] at ho⟩

theorem serves_sound {b : SimulatedBroker} {start : ℚ} {s t : SimulatedBook} {r : Request} (h : Sound start s)
    (hs : serves b s r t) : Sound start t := by
  rw [hs]
  cases r with
  | submit now o room => exact submit_sound h now room
  | cancel id => exact cancel_sound h id
  | close now id clientOrderId symbol => exact close_sound h now id clientOrderId symbol
  | onBar bar => exact onBar_sound b h bar
  | onQuote quote => exact onQuote_sound b h quote

theorem run_sound {b : SimulatedBroker} {l : List Request} {s : SimulatedBook} (h : Run (serves b) b.start l s) :
    Sound b.startingCash s :=
  run_invariant (Sound b.startingCash) (fun _ _ _ hI hs => serves_sound hI hs) (start_sound b) h

/-- A member that alone has its image is alone under any test its image decides. -/
theorem filter_eq_singleton {α β : Type} {f : α → β} {p : α → Bool} {x : α} :
    ∀ {l : List α}, (l.map f).Nodup → x ∈ l → p x = true → (∀ y ∈ l, p y = true → f y = f x) → l.filter p = [x]
  | [], _, hx, _, _ => by simp at hx
  | y :: l, hnd, hx, hp, hall => by
    rw [List.map_cons, List.nodup_cons] at hnd
    rcases List.mem_cons.1 hx with rfl | hx
    · rw [List.filter_cons_of_pos hp, List.filter_eq_nil_iff.2]
      intro z hz hpz
      exact hnd.1 (List.mem_map.2 ⟨z, hz, hall z (List.mem_cons_of_mem _ hz) hpz⟩)
    · have hy : ¬p y = true := fun hpy =>
        hnd.1 (List.mem_map.2 ⟨x, hx, (hall y (List.mem_cons_self ..) hpy).symm⟩)
      rw [List.filter_cons_of_neg hy]
      exact filter_eq_singleton hnd.2 hx hp fun z hz => hall z (List.mem_cons_of_mem _ hz)

theorem Sound.only {start : ℚ} {s : SimulatedBook} (h : Sound start s) {o : Order} (ho : o ∈ s.held) :
    s.held.filter (fun x => x.clientOrderId = o.clientOrderId) = [o] := by
  apply filter_eq_singleton h.books.filed.nodup ho (decide_eq_true rfl)
  intro y hy hc
  rw [← h.books.named.named y hy, ← h.books.named.named o ho, of_decide_eq_true hc]

/-- An order is in exactly one book, and the status says which. -/
theorem Sound.one_book {start : ℚ} {s : SimulatedBook} (h : Sound start s) {o : Order} (ho : o ∈ s.held) :
    Xor (o ∈ s.openOrders.values) (o ∈ s.filled) ∧ (o ∈ s.openOrders.values ↔ o.status.isOpen = true) := by
  rw [Dict.mem_values_iff]
  rcases mem_held.1 ho with ⟨id, hid⟩ | hclosed
  · have hnot : o ∉ s.filled := by
      intro hmem
      have hnone := h.books.filed.apart o hmem id (h.books.filed.keyed id o hid)
      rw [hid] at hnone
      cases hnone
    exact ⟨.inl ⟨⟨id, hid⟩, hnot⟩, fun _ => h.working.open_ id o hid, fun _ => ⟨id, hid⟩⟩
  · have hnot : ¬∃ id, s.openOrders.get? id = some o := by
      rintro ⟨id, hid⟩
      rw [h.books.filed.apart o hclosed id (h.books.filed.keyed id o hid)] at hid
      cases hid
    refine ⟨.inr ⟨hclosed, hnot⟩, fun hopen => absurd hopen hnot, fun hst => ?_⟩
    rw [h.working.closed o hclosed] at hst
    cases hst

/-- **The book invariant**, over every interleaving of calls and whether they returned or raised: a client id the broker
knows names exactly one order; that order is in exactly one of the two books, the open one exactly while its status is
a working one; it is never filled past its size, and a replay of its submit returns it and changes nothing; and the
fills booked, each recorded on its own order, account for the positions and the cash. -/
theorem simulated_books {b : SimulatedBroker} {l : List Request} {s : SimulatedBook}
    (h : Run (serves b) b.start l s) :
    (∀ cid id, s.byClientId.get? cid = some id → ∃ o, s.held.filter (fun x => x.clientOrderId = cid) = [o] ∧
      o.brokerOrderId = some id ∧ Xor (o ∈ s.openOrders.values) (o ∈ s.filled) ∧
      (o ∈ s.openOrders.values ↔ o.status.isOpen = true) ∧ o.filledQty ≤ o.qty ∧
      ∀ now o', o'.clientOrderId = cid → exec (submitOrder now o') s = (.ok o, s)) ∧
    (∀ o ∈ s.held, o.brokerOrderId.isSome = true ∧ s.byClientId.get? o.clientOrderId = o.brokerOrderId) ∧
    ∃ log, Account b.startingCash log s := by
  have hs := run_sound h
  constructor
  · intro cid id hid
    obtain ⟨o, ho, hoid, rfl⟩ := hs.books.named.names cid id hid
    exact ⟨o, hs.only ho, hoid, (hs.one_book ho).1, (hs.one_book ho).2, (hs.books.named.valid o ho).2,
      fun now o' hc => submit_replayed hs ho now hc⟩
  constructor
  · intro o ho
    obtain ⟨n, -, hid⟩ := hs.books.named.issued o ho
    exact ⟨by rw [hid]; rfl, hs.books.named.named o ho⟩
  · exact hs.books.account

namespace Sample

def free : Backtest.CostModel := { commission := fun _ _ _ => 1, slippage := fun _ _ _ => 0 }

def broker : SimulatedBroker := { costModel := free }

def buyTen : Order := { symbol := "A", side := .buy, qty := 10, timeInForce := .gtc, id := "o1", clientOrderId := "c1" }

def thinBar : Bar where
  symbol := "A"
  ts := 60
  timeframe := .m1
  «open» := 100
  high := 100
  low := 100
  close := 100
  volume := 60
  openInside := by norm_num
  closeInside := by norm_num

/-- Submitted, submitted again, filled in part, cancelled. -/
def calls : List Request :=
  [.submit 0 buyTen (by decide +kernel), .submit 5 buyTen (by decide +kernel), .onBar thinBar, .cancel "sim-1"]

def after : SimulatedBook := calls.foldl (Request.leaves broker) broker.start

end Sample

theorem simulated_books_partly :
    (Sample.after.cash = 99399 ∧
      Sample.after.filled.map (fun o => (o.clientOrderId, o.status, o.filledQty)) = [("c1", .cancelled, 6)]) ∧
    ∃ log, Account 100000 log Sample.after :=
  ⟨by decide +kernel,
    (simulated_books (b := Sample.broker) (l := Sample.calls) (s := Sample.after)
      (.cons rfl (.cons rfl (.cons rfl (.cons rfl (.nil _)))))).2.2⟩

end SimulatedBroker
end Atp
