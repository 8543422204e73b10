import Mathlib.Data.List.Sort
import Mathlib.Data.Multiset.UnionInter
import AlgoTrading.Columns
import AlgoTrading.Dict
import AlgoTrading.Runs
import AlgoTrading.State
/-!
# OrderStorage — an order and its fills as they are written and read back

`PostgresOrderRepository` of `persistence/orders.py`.  A save upserts the order's row and inserts the fills whose derived ids
are free; the id is the order's and the fill's place in the copy that is saved.  A reload replays the stored fills in the
order of their instants.  Several copies of one order may be held, filled and saved; `Fits` is what the copy that is saved has
to meet, and `fills_kept` what then holds in every state of a run.
-/
namespace Atp
namespace OrderStorage

open Columns (rounded Holds Exact)
open Raising (exec)
open Runs (Run guarded)

/-! ## The tables -/

structure OrderRow where
  id : String
  clientOrderId : String
  brokerOrderId : Option String
  strategyId : Option String
  signalId : Option String
  parentOrderId : Option String
  purpose : Option Purpose
  symbol : String
  side : Side
  orderType : OrderType
  timeInForce : TimeInForce
  qty : ℚ
  limitPrice : Option ℚ
  stopPrice : Option ℚ
  status : OrderStatus
  filledQty : ℚ
  avgFillPrice : Option ℚ
  rejectReason : Option String
  rejectedBy : Option String
  runMode : RunMode
  createdAt : ℤ
  submittedAt : Option ℤ
  filledAt : Option ℤ

/-- What a fill says, whichever order it names. -/
structure Print where
  venueFillId : Option VenueFillId
  ts : ℤ
  qty : ℚ
  price : ℚ
  fee : ℚ
deriving DecidableEq

structure FillRow extends Print where
  orderId : String

def print (f : Fill) : Print := ⟨f.venueFillId, f.ts, f.qty, f.price, f.fee⟩

/-- The two tables.  `_fill_id` hashes the order's id and the fill's place, and a fill's row is keyed by the two. -/
structure Store where
  orders : Dict String OrderRow := .empty
  fills : Dict (String × ℕ) FillRow := .empty

/-- The prints stored for an order, in the order they were inserted. -/
def prints (fills : Dict (String × ℕ) FillRow) (id : String) : List Print :=
  (fills.values.filter fun r => r.orderId = id).map FillRow.toPrint

/-! ## Saving -/

/-- `_order_values`, as the columns keep them. -/
def orderValues (o : Order) (runMode : RunMode) (createdAt : ℤ) : OrderRow where
  id := o.id
  clientOrderId := o.clientOrderId
  brokerOrderId := o.brokerOrderId
  strategyId := o.strategyId
  signalId := o.signalId
  parentOrderId := o.parentOrderId
  purpose := some o.purpose
  symbol := o.symbol
  side := o.side
  orderType := o.orderType
  timeInForce := o.timeInForce
  qty := rounded o.qty
  limitPrice := o.limitPrice.map rounded
  stopPrice := o.stopPrice.map rounded
  status := o.status
  filledQty := rounded o.filledQty
  avgFillPrice := o.avgFillPrice.map rounded
  rejectReason := o.rejectReason
  rejectedBy := o.rejectedBy
  runMode := runMode
  createdAt := createdAt
  submittedAt := o.submittedAt
  filledAt := o.filledAt

/-- The `set_` of the conflict clause: what a later save may change. -/
def updated (row : OrderRow) (o : Order) : OrderRow :=
  { row with
    brokerOrderId := o.brokerOrderId
    status := o.status
    filledQty := rounded o.filledQty
    avgFillPrice := o.avgFillPrice.map rounded
    rejectReason := o.rejectReason
    rejectedBy := o.rejectedBy
    submittedAt := o.submittedAt
    filledAt := o.filledAt }

/-- The columns take an order's values. -/
def Accepted (o : Order) : Prop :=
  (∀ x ∈ [o.qty, o.filledQty] ++ o.limitPrice.toList ++ o.stopPrice.toList ++ o.avgFillPrice.toList, Holds x) ∧
    o.id.length ≤ 36 ∧ o.clientOrderId.length ≤ 128 ∧ o.symbol.length ≤ 20 ∧
    (∀ t ∈ o.brokerOrderId, t.length ≤ 64) ∧ (∀ t ∈ o.parentOrderId, t.length ≤ 36) ∧ ∀ t ∈ o.rejectedBy, t.length ≤ 50

instance (o : Order) : Decidable (Accepted o) := inferInstanceAs (Decidable (_ ∧ _))

/-- The order's upsert.  A row that is not there yet needs the rows its foreign keys name, and a client id of its own. -/
def upsertOrder (linked : Bool) (orders : Dict String OrderRow) (o : Order) (runMode : RunMode) :
    Option (Dict String OrderRow) :=
  if Accepted o then
    match o.createdAt, orders.get? o.id with
    | none, _ => none
    | some _, some row => some (orders.set o.id (updated row o))
    | some createdAt, none =>
      if linked && !orders.values.any (fun row => row.clientOrderId = o.clientOrderId) then
        some (orders.set o.id (orderValues o runMode createdAt))
      else none
  else none

def fillRow (o : Order) (f : Fill) : FillRow where
  venueFillId := f.venueFillId
  ts := f.ts
  qty := rounded f.qty
  price := rounded f.price
  fee := rounded f.fee
  orderId := o.id

/-- One fill's insert: nothing where its id is taken, and refused where its venue id is. -/
def insertFill (o : Order) (fills : Dict (String × ℕ) FillRow) (p : Fill × ℕ) : Option (Dict (String × ℕ) FillRow) :=
  if ∀ x ∈ [p.1.qty, p.1.price, p.1.fee], Holds x then
    if fills.contains (o.id, p.2) then some fills
    else if p.1.venueFillId.isSome && fills.values.any (fun r => r.venueFillId = p.1.venueFillId) then none
    else some (fills.set (o.id, p.2) (fillRow o p.1))
  else none

/-- **`save`**: one transaction, so a refusal leaves both tables as they were. -/
def save (linked : Bool) (s : Store) (o : Order) (runMode : RunMode) : Option Store := do
  let orders ← upsertOrder linked s.orders o runMode
  let fills ← o.fills.zipIdx.foldlM (insertFill o) s.fills
  return ⟨orders, fills⟩

/-! ## Reading back -/

/-- The order of a row before its fills are replayed. -/
def blank (row : OrderRow) : Order where
  symbol := row.symbol
  side := row.side
  qty := row.qty
  orderType := row.orderType
  timeInForce := row.timeInForce
  limitPrice := row.limitPrice
  stopPrice := row.stopPrice
  id := row.id
  clientOrderId := row.clientOrderId
  brokerOrderId := row.brokerOrderId
  strategyId := row.strategyId
  signalId := row.signalId
  parentOrderId := row.parentOrderId
  purpose := row.purpose.getD .unknownPurpose
  createdAt := some row.createdAt
  submittedAt := row.submittedAt

def storedFill (id : String) (p : Print) : Fill := ⟨id, p.ts, p.qty, p.price, p.fee, p.venueFillId⟩

/-- The fills put back, one `apply_fill` each. -/
def replay (o : Order) (fills : List Print) : Except Exc Order := fills.foldlM (fun o p => o.applyFill (storedFill o.id p)) o

/-- What the row has the last word on. -/
def finished (row : OrderRow) (o : Order) : Order :=
  { o with
    status := if row.status = .filled ∨ row.status = .partiallyFilled then o.status else row.status
    rejectReason := row.rejectReason
    rejectedBy := row.rejectedBy }

/-- **`_to_order`**. -/
def toOrder (row : OrderRow) (fills : List Print) : Except Exc Order := do
  let order ← (blank row).postInit
  let order ← replay order fills
  return finished row order

/-- **What a reload of an order may return**: its fills come in any order from the table and are sorted by instant. -/
def Reads (s : Store) (id : String) (r : Except Exc Order) : Prop :=
  ∃ row, s.orders.get? id = some row ∧ ∃ rows : List Print, rows.Perm (prints s.fills id) ∧
    r = toOrder row (rows.insertionSort fun a b => a.ts ≤ b.ts)

/-! ## Copies of one order -/

/-- A print of representable numbers. -/
structure Print.Representable (p : Print) : Prop where
  qty : Exact p.qty
  price : Exact p.price
  fee : Exact p.fee

structure Execution where
  fill : Fill
  representable : (print fill).Representable

/-- An order as it is built: checked, representable and not filled yet. -/
structure Original where
  order : Order
  constructed : order.postInit = .ok order
  unfilled : order.filledQty = 0 ∧ order.avgFillPrice = none ∧ order.fills = []
  qty : Exact order.qty
  limitPrice : ∀ x ∈ order.limitPrice, Exact x
  stopPrice : ∀ x ∈ order.stopPrice, Exact x

/-- What can happen to the copies of an order, and beside them. -/
inductive Op
  | fill (copy : ℕ) (e : Execution)
  | move (copy : ℕ) (target : OrderStatus) (at' : Option ℤ) (reason rejectedBy : Option String)
  | acknowledge (copy : ℕ) (brokerOrderId : Option String)
  | save (copy : ℕ) (runMode : RunMode) (linked : Bool)
  | reload (copy : ℕ)
  | saveOther (o : Order) (runMode : RunMode) (linked : Bool)

/-- The tables, the copies in hand, and the copies saved so far as they were when saved. -/
structure World where
  store : Store
  copies : ℕ → Order
  saved : List Order := []

def World.write (w : World) (copy : ℕ) (o : Order) : World := { w with copies := Function.update w.copies copy o }

/-- A reload of one copy that finds the fills in the table's own order; a raise leaves the copy in hand. -/
def World.reloaded (id : String) (w : World) (c : ℕ) : World :=
  match w.store.orders.get? id with
  | none => w
  | some row =>
    match toOrder row ((prints w.store.fills id).insertionSort fun a b => a.ts ≤ b.ts) with
    | .ok o => w.write c o
    | .error _ => w

/-- The state after a step.  A raise leaves the copy as it was, and a refused save the tables. -/
def next (id : String) (w : World) : Op → World
  | .fill c e => w.write c (((w.copies c).applyFill e.fill).toOption.getD (w.copies c))
  | .move c target at' reason rejectedBy => w.write c (exec (State.transition target at' reason rejectedBy) (w.copies c)).2
  | .acknowledge c brokerOrderId => w.write c { w.copies c with brokerOrderId := brokerOrderId }
  | .save c runMode linked =>
    (save linked w.store (w.copies c) runMode).elim w fun s => { w with store := s, saved := w.saved ++ [w.copies c] }
  | .reload c => w.reloaded id c
  | .saveOther o runMode linked =>
    if o.id = id then w else (save linked w.store o runMode).elim w fun s => { w with store := s }

/-- **One step.**  A reload may find the fills in any order. -/
def step (id : String) (w : World) : Op → World → Prop
  | .reload c, w' => w' = w ∨ ∃ o, Reads w.store id (.ok o) ∧ w' = w.write c o
  | op, w' => w' = next id w op

/-- Every copy is the order itself, and nothing of it is stored. -/
def start (o : Original) (s : Store) : World where
  store := s
  copies := fun _ => o.order

structure Unstored (s : Store) (id : String) : Prop where
  order : s.orders.get? id = none
  prints : prints s.fills id = []
  fills : ∀ i, s.fills.get? (id, i) = none

/-- **The distinct prints of the copies saved**: each as often as the copy that has it most often. -/
def everSaved (saved : List Order) : Multiset Print :=
  saved.foldl (fun m o => m ∪ (o.fills.map print : List Print)) 0

/-- What a reload has to agree on with the copy last saved. -/
structure Agrees (o last : Order) : Prop where
  status : o.status = last.status
  filledQty : o.filledQty = last.filledQty
  avgFillPrice : o.avgFillPrice = last.avgFillPrice
  id : o.id = last.id
  clientOrderId : o.clientOrderId = last.clientOrderId
  brokerOrderId : o.brokerOrderId = last.brokerOrderId
  limitPrice : o.limitPrice = last.limitPrice
  stopPrice : o.stopPrice = last.stopPrice
  trailPercent : o.trailPercent = last.trailPercent
  parentOrderId : o.parentOrderId = last.parentOrderId
  purpose : o.purpose = last.purpose

/-- The store has lost and doubled nothing, and gives the last saved copy back. -/
structure Kept (id : String) (w : World) : Prop where
  fills : (prints w.store.fills id : Multiset Print) = everSaved w.saved
  readable : ∀ last ∈ w.saved.getLast?, ∃ r, Reads w.store id r
  agrees : ∀ last ∈ w.saved.getLast?, ∀ r, Reads w.store id r → ∃ o, r = .ok o ∧ Agrees o last

/-- A status that says filled is the one the order's own fills give. -/
def Backed (o : Order) : Prop :=
  o.status = .filled ∨ o.status = .partiallyFilled → o.fills ≠ [] ∧ (o.status = .filled ↔ o.filledQty = o.qty)

instance (o : Order) : Decidable (Backed o) := inferInstanceAs (Decidable (_ → _))

/-- The first prints of a copy are the stored ones, in some order. -/
def Current (stored : List Print) (o : Order) : Prop := ((o.fills.map print).take stored.length).Perm stored

instance (stored : List Print) (o : Order) : Decidable (Current stored o) := inferInstanceAs (Decidable (List.Perm _ _))

/-- **What a saved copy has to meet**: it has seen every stored fill, its status is its fills', and it trails nothing. -/
def Fits (id : String) (w : World) : Op → Prop
  | .save c _ _ => Current (prints w.store.fills id) (w.copies c) ∧ Backed (w.copies c) ∧ (w.copies c).trailPercent = none
  | _ => True

instance (id : String) (w : World) : (op : Op) → Decidable (Fits id w op)
  | .save _ _ _ => inferInstanceAs (Decidable (_ ∧ _))
  | .fill _ _ | .move _ _ _ _ _ | .acknowledge _ _ | .reload _ | .saveOther _ _ _ => .isTrue trivial

/-! ## The inserts of a save -/

variable {o : Order} {id : String} {fills fills' : Dict (String × ℕ) FillRow}

theorem insertFill_cases {p : Fill × ℕ} (h : insertFill o fills p = some fills') :
    (fills.contains (o.id, p.2) = true ∧ fills = fills') ∨
      (fills.contains (o.id, p.2) = false ∧ fills' = fills.set (o.id, p.2) (fillRow o p.1)) := by
  rw [insertFill, Option.ite_none_right_eq_some] at h
  obtain ⟨-, h⟩ := h
  cases hc : fills.contains (o.id, p.2) with
  | true =>
    rw [if_pos hc] at h
    cases h
    exact .inl ⟨rfl, rfl⟩
  | false =>
    rw [if_neg (by simp [hc]), Option.ite_none_left_eq_some] at h
    obtain ⟨-, h⟩ := h
    cases h
    exact .inr ⟨rfl, rfl⟩

theorem prints_set {key : String × ℕ} (h : fills.contains key = false) (r : FillRow) :
    prints (fills.set key r) id = prints fills id ++ if r.orderId = id then [r.toPrint] else [] := by
  unfold prints
  rw [Dict.values_set_new _ (by simpa [Dict.contains] using h), List.filter_append, List.map_append]
  by_cases hr : r.orderId = id <;> simp [hr]

/-- The fills of another order leave this one's alone. -/
theorem inserts_other (hid : o.id ≠ id) : ∀ {l : List (Fill × ℕ)} {fills : Dict (String × ℕ) FillRow},
    l.foldlM (insertFill o) fills = some fills' →
      prints fills' id = prints fills id ∧ ∀ i, fills'.get? (id, i) = fills.get? (id, i)
  | [], fills, h => by
    cases h
    exact ⟨rfl, fun _ => rfl⟩
  | p :: l, fills, h => by
    rw [List.foldlM_cons, Option.bind_eq_bind, Option.bind_eq_some_iff] at h
    obtain ⟨mid, hmid, hrest⟩ := h
    obtain ⟨hprints, hget⟩ := inserts_other hid hrest
    rcases insertFill_cases hmid with ⟨-, rfl⟩ | ⟨hfree, rfl⟩
    · exact ⟨hprints, hget⟩
    · refine ⟨hprints.trans ?_, fun i => (hget i).trans ?_⟩
      · rw [prints_set hfree, if_neg (by exact hid), List.append_nil]
      · exact Dict.get?_set_ne _ _ fun h => hid (congrArg Prod.fst h).symm

/-- The places taken are the ones before the number of prints stored. -/
def Placed (fills : Dict (String × ℕ) FillRow) (id : String) : Prop :=
  ∀ i, fills.contains (id, i) = true ↔ i < (prints fills id).length

theorem toPrint_fillRow {f : Fill} (h : (print f).Representable) : (fillRow o f).toPrint = print f := by
  have hqty : rounded f.qty = f.qty := h.qty.rounded_eq
  have hprice : rounded f.price = f.price := h.price.rounded_eq
  have hfee : rounded f.fee = f.fee := h.fee.rounded_eq
  simp only [fillRow, print, hqty, hprice, hfee]

/-- **What a save adds**: the prints of the copy past as many as are stored. -/
theorem inserts_own : ∀ {l : List Fill} {j : ℕ} {fills : Dict (String × ℕ) FillRow},
    (l.zipIdx j).foldlM (insertFill o) fills = some fills' → Placed fills o.id → j ≤ (prints fills o.id).length →
      (∀ f ∈ l, (print f).Representable) →
      prints fills' o.id = prints fills o.id ++ (l.map print).drop ((prints fills o.id).length - j) ∧ Placed fills' o.id
  | [], j, fills, h, hp, _, _ => by
    cases h
    exact ⟨by simp, hp⟩
  | f :: l, j, fills, h, hp, hj, hrep => by
    rw [List.zipIdx_cons, List.foldlM_cons, Option.bind_eq_bind, Option.bind_eq_some_iff] at h
    obtain ⟨mid, hmid, hrest⟩ := h
    have htail : ∀ g ∈ l, (print g).Representable := fun g hg => hrep g (List.mem_cons_of_mem _ hg)
    rcases insertFill_cases hmid with ⟨htaken, rfl⟩ | ⟨hfree, rfl⟩
    · have hlt := (hp j).1 htaken
      obtain ⟨hprints, hplaced⟩ := inserts_own hrest hp hlt htail
      refine ⟨hprints.trans ?_, hplaced⟩
      rw [List.map_cons, show (prints fills o.id).length - j = (prints fills o.id).length - (j + 1) + 1 by omega,
        List.drop_succ_cons]
    · have hlast : j = (prints fills o.id).length := by
        have : ¬ j < (prints fills o.id).length := fun hlt => by simp [(hp j).2 hlt] at hfree
        omega
      have hnew : prints (fills.set (o.id, j) (fillRow o f)) o.id = prints fills o.id ++ [print f] := by
        rw [prints_set hfree, if_pos (by rfl), toPrint_fillRow (hrep f List.mem_cons_self)]
      have hstill : Placed (fills.set (o.id, j) (fillRow o f)) o.id := by
        intro i
        rw [hnew, List.length_append, List.length_singleton]
        have hset : (fills.set (o.id, j) (fillRow o f)).contains (o.id, i) = true ↔ i = j ∨ fills.contains (o.id, i) = true := by
          unfold Dict.contains
          rw [Dict.get?_set]
          by_cases hi : i = j <;> simp [hi]
        rw [hset, hp i]
        omega
      obtain ⟨hprints, hplaced⟩ := inserts_own hrest hstill (by rw [hnew, List.length_append, List.length_singleton]; omega) htail
      refine ⟨hprints.trans ?_, hplaced⟩
      rw [hnew, List.length_append, List.length_singleton, hlast, Nat.sub_self, Nat.sub_self, List.drop_zero, List.drop_zero]
      simp

/-- **What a save that is not refused did.** -/
theorem save_ok {linked : Bool} {s s' : Store} {runMode : RunMode} (h : save linked s o runMode = some s') :
    o.fills.zipIdx.foldlM (insertFill o) s.fills = some s'.fills ∧
      ((∃ row, s.orders.get? o.id = some row ∧ s'.orders = s.orders.set o.id (updated row o)) ∨
        ∃ t, o.createdAt = some t ∧ s'.orders = s.orders.set o.id (orderValues o runMode t)) := by
  simp only [save, Option.bind_eq_bind, Option.bind_eq_some_iff, Option.pure_def, Option.some.injEq] at h
  obtain ⟨orders, horders, fills, hfills, rfl⟩ := h
  refine ⟨hfills, ?_⟩
  rw [upsertOrder, Option.ite_none_right_eq_some] at horders
  obtain ⟨-, horders⟩ := horders
  cases ht : o.createdAt with
  | none => simp [ht] at horders
  | some t =>
    cases hrow : s.orders.get? o.id with
    | some row =>
      simp only [ht, hrow, Option.some.injEq] at horders
      exact .inl ⟨row, rfl, horders.symm⟩
    | none =>
      simp only [ht, hrow, Option.ite_none_right_eq_some, Option.some.injEq] at horders
      exact .inr ⟨t, rfl, horders.2.symm⟩

/-! ## A reload -/

/-- The fields of an order that neither a fill nor a status change writes, and that a row keeps. -/
def identity (o : Order) : Order :=
  { o with
    brokerOrderId := none
    trailPercent := none
    status := .pendingRisk
    filledQty := 0
    avgFillPrice := none
    fills := []
    submittedAt := none
    filledAt := none
    rejectReason := none
    rejectedBy := none }

@[simp] theorem identity_accumulate (o : Order) (f : Fill) : identity (o.accumulate f) = identity o := by
  unfold Order.accumulate
  dsimp only
  split <;> rfl

/-- **A copy of the order**: the same but for its fills and its progress, and its totals are its fills'. -/
structure Copy (o c : Order) : Prop where
  identity : identity c = identity o
  booked : c.Booked
  unaveraged : c.fills = [] → c.avgFillPrice = none
  representable : ∀ p ∈ c.fills.map print, p.Representable

theorem same_field {α : Type} {o c : Order} (g : Order → α) (h : identity c = identity o) : g (identity c) = g (identity o) :=
  congrArg g h

theorem Copy.id_eq {o c : Order} (h : Copy o c) : c.id = o.id := same_field Order.id h.identity

theorem Copy.qty_eq {o c : Order} (h : Copy o c) : c.qty = o.qty := same_field Order.qty h.identity

theorem Copy.accumulate {o c : Order} {f : Fill} (h : Copy o c) (hrep : (print f).Representable) (hpos : 0 < f.qty)
    (hle : f.qty ≤ c.remainingQty) : Copy o (c.accumulate f) where
  identity := (identity_accumulate c f).trans h.identity
  booked := Order.accumulate_booked h.booked hpos hle
  unaveraged := by simp
  representable := by
    intro p hp
    rw [Order.accumulate_fills, List.map_append, List.mem_append, List.map_singleton, List.mem_singleton] at hp
    rcases hp with hp | rfl
    · exact h.representable p hp
    · exact hrep

theorem postInit_of_identity {o c : Order} (h : OrderStorage.identity c = OrderStorage.identity o) (ho : o.postInit = .ok o) :
    c.postInit = .ok c := by
  obtain ⟨-, hqty, hlimit, hstop⟩ := Order.postInit_ok ho
  have hq : c.qty = o.qty := same_field Order.qty h
  have ht : c.orderType = o.orderType := same_field Order.orderType h
  have hl : c.limitPrice = o.limitPrice := same_field Order.limitPrice h
  have hs : c.stopPrice = o.stopPrice := same_field Order.stopPrice h
  rw [Order.postInit, hq, ht, hl, hs, if_neg (not_le.2 hqty), if_neg fun h => hlimit h.1 h.2, if_neg fun h => hstop h.1 h.2]

/-- Each replayed fill is accepted as long as the whole of them fits the order. -/
theorem replay_ok : ∀ {l : List Print} {c : Order}, Copy o c → (∀ p ∈ l, p.Representable ∧ 0 < p.qty) →
    c.filledQty + (l.map Print.qty).sum ≤ c.qty →
    ∃ c', replay c l = .ok c' ∧ Copy o c' ∧ c'.fills.map print = c.fills.map print ++ l ∧
      c'.brokerOrderId = c.brokerOrderId ∧ c'.trailPercent = c.trailPercent ∧
      c'.status = if l = [] then c.status else if c'.filledQty = c'.qty then .filled else .partiallyFilled
  | [], c, hc, _, _ => ⟨c, rfl, hc, by simp, rfl, rfl, by simp⟩
  | p :: l, c, hc, hl, hsum => by
    obtain ⟨hrep, hpos⟩ := hl p List.mem_cons_self
    have htail : ∀ q ∈ l, q.Representable ∧ 0 < q.qty := fun q hq => hl q (List.mem_cons_of_mem _ hq)
    have hrest : 0 ≤ (l.map Print.qty).sum := List.sum_nonneg fun x hx => by
      obtain ⟨q, hq, rfl⟩ := List.mem_map.1 hx
      exact (htail q hq).2.le
    rw [List.map_cons, List.sum_cons] at hsum
    have hle : (storedFill c.id p).qty ≤ c.remainingQty := by
      show p.qty ≤ c.qty - c.filledQty
      linarith
    have hone : c.applyFill (storedFill c.id p) = .ok (c.accumulate (storedFill c.id p)) :=
      Order.applyFill_ok.2 ⟨hpos, hle, rfl⟩
    have hnext : Copy o (c.accumulate (storedFill c.id p)) := hc.accumulate hrep hpos hle
    obtain ⟨c', hreplay, hcopy, hfills, hbroker, htrail, hstatus⟩ := replay_ok hnext htail (by
      rw [Order.accumulate_filledQty, Order.accumulate_qty]
      show c.filledQty + p.qty + _ ≤ _
      linarith)
    refine ⟨c', ?_, hcopy, ?_, ?_, ?_, ?_⟩
    · rw [replay, List.foldlM_cons, hone]
      exact hreplay
    · rw [hfills, Order.accumulate_fills, List.map_append, List.append_assoc]
      rfl
    · rw [hbroker, Order.accumulate_brokerOrderId]
    · rw [htrail, Order.accumulate]
      dsimp only
      split <;> rfl
    · rw [if_neg (List.cons_ne_nil p l), hstatus]
      split
      · next hnil =>
        subst hnil
        cases hreplay
        rw [Order.accumulate_status, Order.accumulate_filledQty, Order.accumulate_qty]
      · rfl

theorem fillsQty_prints (l : List Fill) : fillsQty l = ((l.map print).map Print.qty).sum := by
  rw [fillsQty, List.map_map]
  rfl

theorem fillsNotional_prints (l : List Fill) :
    fillsNotional l = ((l.map print).map fun (p : Print) => p.qty * p.price).sum := by
  rw [fillsNotional, List.map_map]
  rfl

/-- **Copies with the same prints have the same totals**, whatever the order the prints were booked in. -/
theorem Copy.totals {c c' : Order} (h : Copy o c) (h' : Copy o c') (hp : (c.fills.map print).Perm (c'.fills.map print)) :
    c.filledQty = c'.filledQty ∧ c.avgFillPrice = c'.avgFillPrice := by
  have hqty : c.filledQty = c'.filledQty := by
    rw [h.booked.filled, h'.booked.filled, fillsQty_prints, fillsQty_prints, (hp.map Print.qty).sum_eq]
  refine ⟨hqty, ?_⟩
  rcases eq_or_ne c.fills [] with hnil | hne
  · have hnil' : c'.fills = [] := by
      rw [hnil] at hp
      exact List.map_eq_nil_iff.1 (List.nil_perm.1 hp)
    rw [h.unaveraged hnil, h'.unaveraged hnil']
  · have hpos : 0 < c.filledQty := by
      rw [h.booked.filled]
      refine List.sum_pos _ (fun x hx => ?_) fun hnil => hne (List.map_eq_nil_iff.1 hnil)
      obtain ⟨f, hf, rfl⟩ := List.mem_map.1 hx
      exact h.booked.positive f hf
    obtain ⟨a, ha, hmul⟩ := h.booked.average hpos
    obtain ⟨a', ha', hmul'⟩ := h'.booked.average (hqty ▸ hpos)
    have hnotional : fillsNotional c.fills = fillsNotional c'.fills := by
      rw [fillsNotional_prints, fillsNotional_prints, (hp.map fun p => p.qty * p.price).sum_eq]
    rw [ha, ha', Option.some_inj]
    have : a * c.filledQty = a' * c.filledQty := by rw [hmul, hqty, hmul', hnotional]
    exact mul_right_cancel₀ hpos.ne' this

/-- **What the row of a saved copy says.** -/
structure Records (row : OrderRow) (o last : Order) : Prop where
  identity : OrderStorage.identity (blank row) = OrderStorage.identity o
  status : row.status = last.status
  brokerOrderId : row.brokerOrderId = last.brokerOrderId

/-- **A reload of a saved copy** succeeds, and gives a copy that agrees with it. -/
theorem toOrder_ok {row : OrderRow} {last : Order} {l : List Print} (ho : o.postInit = .ok o) (hr : Records row o last)
    (hc : Copy o last) (hback : Backed last) (htrail : last.trailPercent = none) (hp : l.Perm (last.fills.map print)) :
    ∃ c, toOrder row l = .ok c ∧ Copy o c ∧ Agrees c last := by
  have hblank : Copy o (blank row) :=
    ⟨hr.identity, ⟨rfl, (by
        have hq : (blank row).qty = o.qty := same_field Order.qty hr.identity
        rw [hq]
        exact (Order.postInit_ok ho).2.1.le), by simp [blank], by simp [blank, Order.filledNotional], by simp [blank]⟩,
      fun _ => rfl, by simp [blank]⟩
  have hl : ∀ p ∈ l, p.Representable ∧ 0 < p.qty := by
    intro p hpl
    have hmem := hp.mem_iff.1 hpl
    refine ⟨hc.representable p hmem, ?_⟩
    obtain ⟨f, hf, rfl⟩ := List.mem_map.1 hmem
    exact hc.booked.positive f hf
  have hsum : (blank row).filledQty + (l.map Print.qty).sum ≤ (blank row).qty := by
    have hq : (blank row).qty = last.qty := hblank.qty_eq.trans hc.qty_eq.symm
    rw [hq, (hp.map Print.qty).sum_eq, ← fillsQty_prints, ← hc.booked.filled]
    show 0 + last.filledQty ≤ last.qty
    rw [zero_add]
    exact hc.booked.bounded
  obtain ⟨c, hreplay, hcopy, hfills, hbroker, htr, hstatus⟩ := replay_ok hblank hl hsum
  have hprints : (c.fills.map print).Perm (last.fills.map print) := by
    rw [hfills]
    exact hp
  obtain ⟨hqty, havg⟩ := hcopy.totals hc hprints
  have hid : OrderStorage.identity c = OrderStorage.identity last := hcopy.identity.trans hc.identity.symm
  have hfinal : (finished row c).status = last.status := by
    show (if row.status = .filled ∨ row.status = .partiallyFilled then c.status else row.status) = last.status
    rw [hr.status]
    split
    · next hfilled =>
      obtain ⟨hne, hiff⟩ := hback hfilled
      have hl0 : l ≠ [] := by
        rintro rfl
        exact hne (List.map_eq_nil_iff.1 (List.nil_perm.1 hp))
      rw [hstatus, if_neg hl0, hqty, hcopy.qty_eq, ← hc.qty_eq]
      by_cases hfull : last.filledQty = last.qty
      · rw [if_pos hfull, hiff.2 hfull]
      · rw [if_neg hfull]
        exact (hfilled.resolve_left fun h => hfull (hiff.1 h)).symm
    · rfl
  refine ⟨finished row c, ?_, ⟨hcopy.identity, ?_, hcopy.unaveraged, hcopy.representable⟩, ?_⟩
  · rw [toOrder, postInit_of_identity hr.identity ho]
    show (replay (blank row) l >>= _) = _
    rw [hreplay]
    rfl
  · exact ⟨hcopy.booked.filled, hcopy.booked.bounded, hcopy.booked.positive, hcopy.booked.notional, hcopy.booked.averaged⟩
  · exact
      { status := hfinal
        filledQty := hqty
        avgFillPrice := havg
        id := same_field Order.id hid
        clientOrderId := same_field Order.clientOrderId hid
        brokerOrderId := hbroker.trans hr.brokerOrderId
        limitPrice := same_field Order.limitPrice hid
        stopPrice := same_field Order.stopPrice hid
        trailPercent := htr.trans htrail.symm
        parentOrderId := same_field Order.parentOrderId hid
        purpose := same_field Order.purpose hid }

/-! ## Runs -/

/-- A copy that was saved, and what the tables hold of it. -/
structure Stored (o : Order) (s : Store) (last : Order) : Prop where
  copy : Copy o last
  backed : Backed last
  untrailed : last.trailPercent = none
  prints : (prints s.fills o.id).Perm (last.fills.map print)
  records : ∃ row, s.orders.get? o.id = some row ∧ Records row o last

/-- **What every state of a run keeps.** -/
structure Sound (o : Original) (w : World) : Prop where
  copies : ∀ c, Copy o.order (w.copies c)
  placed : Placed w.store.fills o.order.id
  fills : (prints w.store.fills o.order.id : Multiset Print) = everSaved w.saved
  row : ∀ row, w.store.orders.get? o.order.id = some row → identity (blank row) = identity o.order ∧ w.saved ≠ []
  last : ∀ last ∈ w.saved.getLast?, Stored o.order w.store last

variable {o : Original} {w w' : World}

theorem start_sound {s : Store} (hs : Unstored s o.order.id) : Sound o (start o s) where
  copies _ := by
    obtain ⟨hqty, havg, hfills⟩ := o.unfilled
    refine ⟨rfl, ⟨?_, ?_, ?_, ?_, fun _ => hfills⟩, fun _ => havg, ?_⟩
    · show o.order.filledQty = fillsQty o.order.fills
      rw [hqty, hfills, fillsQty_nil]
    · show o.order.filledQty ≤ o.order.qty
      rw [hqty]
      exact (Order.postInit_ok o.constructed).2.1.le
    · show ∀ f ∈ o.order.fills, 0 < f.qty
      simp [hfills]
    · show o.order.filledNotional = fillsNotional o.order.fills
      rw [Order.filledNotional, hqty, hfills, mul_zero, fillsNotional_nil]
    · show ∀ p ∈ o.order.fills.map print, p.Representable
      simp [hfills]
  placed i := by
    show s.fills.contains (o.order.id, i) = true ↔ i < (prints s.fills o.order.id).length
    simp [Dict.contains, hs.fills i, hs.prints]
  fills := by
    show (prints s.fills o.order.id : Multiset Print) = 0
    rw [hs.prints]
    rfl
  row row hrow := by
    have : s.orders.get? o.order.id = some row := hrow
    simp [hs.order] at this
  last last hlast := by cases hlast

/-- A copy may be written wherever it is still a copy. -/
theorem Sound.write (h : Sound o w) {c : ℕ} {x : Order} (hx : Copy o.order x) : Sound o (w.write c x) where
  copies i := by
    show Copy o.order (Function.update w.copies c x i)
    rcases eq_or_ne i c with rfl | hi
    · rw [Function.update_self]
      exact hx
    · rw [Function.update_of_ne hi]
      exact h.copies i
  placed := h.placed
  fills := h.fills
  row := h.row
  last := h.last

theorem Copy.applyFill {o c : Order} (h : Copy o c) (e : Execution) :
    Copy o ((c.applyFill e.fill).toOption.getD c) := by
  cases hr : c.applyFill e.fill with
  | error e => exact h
  | ok c' =>
    obtain ⟨hpos, hle, rfl⟩ := Order.applyFill_ok.1 hr
    exact h.accumulate e.representable hpos hle

theorem Copy.transition {o c : Order} (h : Copy o c) (target : OrderStatus) (at' : Option ℤ) (reason rejectedBy : Option String) :
    Copy o (exec (State.transition target at' reason rejectedBy) c).2 := by
  have hmoved : Copy o (State.moved c target at' reason rejectedBy) :=
    ⟨h.identity, ⟨h.booked.filled, h.booked.bounded, h.booked.positive, h.booked.notional, h.booked.averaged⟩, h.unaveraged,
      h.representable⟩
  rw [State.exec_transition]
  split_ifs
  · exact h
  · exact h
  · exact hmoved
  · exact h

/-- The orders' table after a save of this order or of another. -/
theorem get?_saved {linked : Bool} {s s' : Store} {x : Order} {runMode : RunMode} (h : save linked s x runMode = some s')
    {id : String} (hid : x.id ≠ id) : s'.orders.get? id = s.orders.get? id := by
  obtain ⟨-, ⟨row, -, horders⟩ | ⟨t, -, horders⟩⟩ := save_ok h
  all_goals
    rw [horders]
    exact Dict.get?_set_ne _ _ (Ne.symm hid)

/-- **Another order's save** leaves everything of this one as it was. -/
theorem Sound.saveOther (h : Sound o w) {linked : Bool} {x : Order} {runMode : RunMode} {s : Store}
    (hx : x.id ≠ o.order.id) (hs : save linked w.store x runMode = some s) : Sound o { w with store := s } := by
  obtain ⟨hprints, hget⟩ := inserts_other hx (save_ok hs).1
  have horders := get?_saved hs hx
  refine ⟨h.copies, fun i => ?_, ?_, fun row hrow => h.row row (horders ▸ hrow), fun last hlast => ?_⟩
  · have := h.placed i
    rw [Dict.contains, ← hget i, ← hprints] at this
    exact this
  · show (prints s.fills o.order.id : Multiset Print) = everSaved w.saved
    rw [hprints]
    exact h.fills
  · obtain ⟨hcopy, hback, htrail, hperm, row, hrow, hrec⟩ := h.last last hlast
    exact ⟨hcopy, hback, htrail, hprints ▸ hperm, row, horders.trans hrow, hrec⟩

theorem everSaved_append (saved : List Order) (x : Order) :
    everSaved (saved ++ [x]) = everSaved saved ∪ (x.fills.map print : List Print) := by
  simp [everSaved, List.foldl_append]

/-- **A save of a copy that fits** stores what the copy says and nothing twice. -/
theorem Sound.save (h : Sound o w) {c : ℕ} {linked : Bool} {runMode : RunMode} {s : Store}
    (hfit : Fits o.order.id w (.save c runMode linked)) (hs : OrderStorage.save linked w.store (w.copies c) runMode = some s) :
    Sound o { w with store := s, saved := w.saved ++ [w.copies c] } := by
  obtain ⟨hcurrent, hback, htrail⟩ := hfit
  have hcopy := h.copies c
  have hid : (w.copies c).id = o.order.id := hcopy.id_eq
  obtain ⟨hinserts, horders⟩ := save_ok hs
  have hrep : ∀ f ∈ (w.copies c).fills, (print f).Representable := fun f hf =>
    hcopy.representable _ (List.mem_map_of_mem hf)
  obtain ⟨hprints, hplaced⟩ := inserts_own hinserts (by rw [hid]; exact h.placed) (Nat.zero_le _) hrep
  rw [hid, Nat.sub_zero] at hprints
  rw [hid] at hplaced
  have hperm : (prints s.fills o.order.id).Perm ((w.copies c).fills.map print) := by
    rw [hprints]
    refine (hcurrent.symm.append_right _).trans ?_
    rw [List.take_append_drop]
  have hle : (prints w.store.fills o.order.id : Multiset Print) ≤ ((w.copies c).fills.map print : List Print) := by
    rw [← Multiset.coe_eq_coe.2 hcurrent]
    exact Multiset.coe_le.2 (List.take_sublist _ _).subperm
  have hrow : ∃ row, s.orders.get? o.order.id = some row ∧ Records row o.order (w.copies c) := by
    rcases horders with ⟨row, hget, hset⟩ | ⟨t, ht, hset⟩
    · rw [hid] at hget
      refine ⟨updated row (w.copies c), ?_, (h.row row hget).1, rfl, rfl⟩
      rw [hset, hid, Dict.get?_set_self]
    · refine ⟨orderValues (w.copies c) runMode t, by rw [hset, hid, Dict.get?_set_self], ?_, rfl, rfl⟩
      have hqty : rounded (w.copies c).qty = (w.copies c).qty := (hcopy.qty_eq ▸ o.qty).rounded_eq
      have hl : (w.copies c).limitPrice = o.order.limitPrice := same_field Order.limitPrice hcopy.identity
      have hst : (w.copies c).stopPrice = o.order.stopPrice := same_field Order.stopPrice hcopy.identity
      rw [← hcopy.identity]
      simp only [identity, blank, orderValues, hqty, Exact.map_rounded (hl ▸ o.limitPrice), Exact.map_rounded (hst ▸ o.stopPrice),
        ht, Option.getD_some]
  refine ⟨h.copies, hplaced, ?_, fun row hget => ?_, fun last hlast => ?_⟩
  · show (prints s.fills o.order.id : Multiset Print) = everSaved (w.saved ++ [w.copies c])
    rw [everSaved_append, ← h.fills, Multiset.coe_eq_coe.2 hperm]
    exact (Multiset.eq_union_right hle).symm
  · obtain ⟨row', hget', hrec⟩ := hrow
    cases hget'.symm.trans hget
    exact ⟨hrec.identity, List.append_ne_nil_of_right_ne_nil _ (List.cons_ne_nil _ _)⟩
  · have : w.copies c = last := by simpa using hlast
    subst this
    exact ⟨hcopy, hback, htrail, hperm, hrow⟩

/-- **A read of a saved order** is a copy that agrees with the one last saved. -/
theorem Sound.reads (h : Sound o w) {last : Order} (hlast : last ∈ w.saved.getLast?) {r : Except Exc Order}
    (hr : Reads w.store o.order.id r) : ∃ c, r = .ok c ∧ Copy o.order c ∧ Agrees c last := by
  obtain ⟨hcopy, hback, htrail, hperm, row, hrow, hrec⟩ := h.last last hlast
  obtain ⟨row', hrow', rows, hrows, rfl⟩ := hr
  cases hrow.symm.trans hrow'
  exact toOrder_ok o.constructed hrec hcopy hback htrail ((List.perm_insertionSort _ rows).trans (hrows.trans hperm))

theorem step_sound {op : Op} (h : Sound o w) (hfit : Fits o.order.id w op) (hs : step o.order.id w op w') : Sound o w' := by
  cases op with
  | fill c e =>
    cases hs
    exact h.write ((h.copies c).applyFill e)
  | move c target at' reason rejectedBy =>
    cases hs
    exact h.write ((h.copies c).transition target at' reason rejectedBy)
  | acknowledge c brokerOrderId =>
    cases hs
    have hc := h.copies c
    exact h.write ⟨hc.identity, ⟨hc.booked.filled, hc.booked.bounded, hc.booked.positive, hc.booked.notional,
      hc.booked.averaged⟩, hc.unaveraged, hc.representable⟩
  | save c runMode linked =>
    cases hs
    show Sound o ((OrderStorage.save linked w.store (w.copies c) runMode).elim w fun s =>
      { w with store := s, saved := w.saved ++ [w.copies c] })
    cases hsave : OrderStorage.save linked w.store (w.copies c) runMode with
    | none => exact h
    | some s => exact h.save hfit hsave
  | reload c =>
    rcases hs with rfl | ⟨x, hread, rfl⟩
    · exact h
    · obtain ⟨row, hrow, -⟩ := id hread
      obtain ⟨last, hlast⟩ := Option.isSome_iff_exists.1 (List.getLast?_isSome.2 (h.row row hrow).2)
      obtain ⟨x', heq, hcopy, -⟩ := h.reads hlast hread
      cases heq
      exact h.write hcopy
  | saveOther x runMode linked =>
    cases hs
    show Sound o (if x.id = o.order.id then w else (OrderStorage.save linked w.store x runMode).elim w fun s => { w with store := s })
    split
    · exact h
    · next hx =>
      cases hsave : OrderStorage.save linked w.store x runMode with
      | none => exact h
      | some s => exact h.saveOther hx hsave

/-- **The order store neither loses nor doubles a fill**, and gives the last saved copy back, in every state of every run
whose saves are of copies that fit. -/
theorem fills_kept {s : Store} (hs : Unstored s o.order.id) {l : List Op}
    (h : Run (guarded (step o.order.id) (Fits o.order.id)) (start o s) l w) : Kept o.order.id w := by
  have hsound : Sound o w :=
    Runs.run_guarded (Fits o.order.id) (Sound o) (fun _ _ _ hI hfit hstep => step_sound hI hfit hstep) (start_sound hs) h
  refine ⟨hsound.fills, fun last hlast => ?_, fun last hlast r hr => ?_⟩
  · obtain ⟨-, -, -, -, row, hrow, -⟩ := hsound.last last hlast
    exact ⟨_, row, hrow, _, .refl _, rfl⟩
  · obtain ⟨c, hc, -, hagrees⟩ := hsound.reads hlast hr
    exact ⟨c, hc, hagrees⟩

theorem next_step (id : String) (w : World) (op : Op) : step id w op (next id w op) := by
  cases op with
  | reload c =>
    show w.reloaded id c = w ∨ ∃ o, Reads w.store id (.ok o) ∧ w.reloaded id c = w.write c o
    unfold World.reloaded
    cases hrow : w.store.orders.get? id with
    | none => exact .inl rfl
    | some row =>
      dsimp only
      cases hread : toOrder row ((prints w.store.fills id).insertionSort fun a b => a.ts ≤ b.ts) with
      | error e => exact .inl rfl
      | ok x => exact .inr ⟨x, ⟨row, hrow, _, .refl _, hread.symm⟩, rfl⟩
  | _ => rfl

theorem run_next (id : String) : ∀ (l : List Op) (w : World), Run (step id) w l (l.foldl (next id) w)
  | [], w => .nil w
  | op :: l, w => .cons (next_step id w op) (run_next id l (next id w op))

/-- The labels that fit, one after the other. -/
def AllFit (id : String) : World → List Op → Prop
  | _, [] => True
  | w, op :: l => Fits id w op ∧ AllFit id (next id w op) l

instance decidableAllFit (id : String) : (w : World) → (l : List Op) → Decidable (AllFit id w l)
  | _, [] => .isTrue trivial
  | w, op :: l => @instDecidableAnd _ _ inferInstance (decidableAllFit id (next id w op) l)

theorem run_fits (id : String) : ∀ {l : List Op} {w : World}, AllFit id w l →
    Run (guarded (step id) (Fits id)) w l (l.foldl (next id) w)
  | [], w, _ => .nil w
  | op :: _, w, h => .cons ⟨next_step id w op, h.1⟩ (run_fits id h.2)

/-- A market order for a hundred shares. -/
def hundred : Original where
  order := { symbol := "SPY", side := .buy, qty := 100, id := "o", clientOrderId := "atp-1", createdAt := some 0, status := .submitted }
  constructed := by decide +kernel
  unfilled := ⟨rfl, rfl, rfl⟩
  qty := by exact Columns.exact_int 100
  limitPrice := by simp
  stopPrice := by simp

/-- Ten shares at a hundred. -/
def ten (ts : ℤ) (venueFillId : String) : Execution where
  fill := ⟨"o", ts, 10, 100, 0, some (.execution venueFillId)⟩
  representable := ⟨Columns.exact_int 10, Columns.exact_int 100, Columns.exact_zero⟩

/-- A print, saved and reloaded, and a late one on the reloaded copy, saved too. -/
def latePrint : List Op :=
  [.fill 0 (ten 10 "a"), .save 0 .paper true, .reload 1, .fill 1 (ten 5 "b"), .save 1 .paper true]

theorem unstored_empty (id : String) : Unstored {} id := ⟨rfl, rfl, fun _ => rfl⟩

/-- **A fill is lost**: the first copy's next print takes the late one's place, and its save inserts nothing. -/
theorem stale_copy_loses :
    ¬ ∀ (o : Original) (s : Store), Unstored s o.order.id → ∀ (l : List Op) (w : World),
      Run (step o.order.id) (start o s) l w → Kept o.order.id w := by
  intro h
  have hkept := h hundred {} (unstored_empty _) _ _ (run_next "o" (latePrint ++ [.fill 0 (ten 20 "c"), .save 0 .paper true]) _)
  have heq := hkept.fills
  revert heq
  decide +kernel

/-- The first copy is reloaded before its next print. -/
def reloadedPrint : List Op := latePrint ++ [.reload 0, .fill 0 (ten 20 "c"), .save 0 .paper true]

theorem reloadedPrint_fits : AllFit hundred.order.id (start hundred {}) reloadedPrint := by decide +kernel

/-- Then nothing is lost. -/
theorem fills_kept_late :
    Kept hundred.order.id (reloadedPrint.foldl (next hundred.order.id) (start hundred {})) :=
  fills_kept (unstored_empty _) (run_fits _ reloadedPrint_fits)

end OrderStorage
end Atp
