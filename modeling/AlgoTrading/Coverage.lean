import AlgoTrading.StopRatchet
import Mathlib.Algebra.Order.Group.MinMax
import Mathlib.Data.Rat.Encodable
import Mathlib.Logic.Equiv.List
/-!
# Coverage — what the protective stops of an entry cover

`submit_protective_orders` keeps what is covered in three places: a total for each entry, the live children of each
symbol, and the range each key is made of.  `triple_submitProtectiveOrders` is what one call does to them;
`covered_never_exceeds` is what that comes to over any sequence of calls, fills and events of children.
-/
namespace Atp
namespace Coverage

open Raising Runs

variable {β L σ : Type} {r : OrderRouter β L σ} {d : Desk β σ} {heap : List Order} {closing : Side}

/-! ## One placement -/

/-- What a call would cover: what is newly filled, as far as there is a position to cover. -/
def increment (d : Desk β σ) (entry : Order) (p : Position) : ℚ :=
  min (entry.filledQty - (d.covered.get? entry.id).getD 0) (|p.qty| - d.protectedQty entry.symbol (closingSide p))

/-- The books of protection as they were, with perhaps an object more. -/
structure Untouched (d e : Desk β σ) : Prop where
  covered : e.covered = d.covered
  protective : e.protective = d.protective
  portfolio : e.portfolio = d.portfolio
  heap : ∃ l, e.heap = d.heap ++ l

/-- An accepted child, as it stands when it is booked. -/
structure IsChild (p : Position) (inc : ℚ) (key : String) (o : Order) : Prop where
  key : o.clientOrderId = key
  side : o.side = closingSide p
  filled : o.filledQty = 0
  pos : 0 < o.qty
  le : o.qty ≤ inc

theorem IsChild.of_qty {p q : Position} {inc : ℚ} {key : String} {o : Order} (h : q.qty = p.qty) (ho : IsChild q inc key o) :
    IsChild p inc key o :=
  ⟨ho.key, by rw [ho.side]; simp [closingSide, Position.isLong, h], ho.filled, ho.pos, ho.le⟩

/-- An accepted child, whatever size the rules left it. -/
structure IsPlaced (r : OrderRouter β L σ) (p : Position) (inc : ℚ) (key : String) (o : Order) : Prop where
  key : o.clientOrderId = key
  side : o.side = closingSide p
  filled : o.filledQty = 0
  pos : 0 < o.qty
  le : (∀ rule ∈ r.rules, rule.OnlyShrinks) → o.qty ≤ inc

theorem IsPlaced.isChild {p q : Position} {inc : ℚ} {key : String} {o : Order} (h : IsPlaced r q inc key o) (hq : q.qty = p.qty)
    (hle : o.qty ≤ inc) : IsChild p inc key o :=
  IsChild.of_qty hq ⟨h.key, h.side, h.filled, h.pos, hle⟩

theorem isPlaced_endures (p : Position) (inc : ℚ) (key : String) : r.Endures (IsPlaced r p inc key) where
  ticked _ h := ⟨h.key, h.side, h.filled, h.pos, h.le⟩
  sized _ _ h hpos hle := ⟨h.key, h.side, h.filled, hpos h.pos, fun hrules => (hle hrules).trans (h.le hrules)⟩
  moves _ _ _ _ _ h := ⟨h.key, h.side, h.filled, h.pos, h.le⟩
  acknowledged _ _ h := ⟨h.key, h.side, h.filled, h.pos, h.le⟩

/-- The books after an accepted child. -/
structure Booked (d e : Desk β σ) (entry child : Order) (coveredFrom : ℚ) : Prop where
  covered : e.covered = d.covered.set entry.id (coveredFrom + child.qty)
  protective : e.protective = d.protective.set entry.symbol (refsOf d entry.symbol ++ [d.heap.length])
  portfolio : e.portfolio = d.portfolio
  heap : e.heap = d.heap ++ [child]

/-- The key of the stop that covers a range of an entry. -/
def stopKey (r : OrderRouter β L σ) (parent : String) (coveredFrom coveredTo : ℚ) : String :=
  r.digest [.lit parent, .lit Purpose.stopLoss.value, .dec coveredFrom, .dec coveredTo]

theorem protectiveClientOrderId_ok {parent key : String} {a b : ℚ}
    (h : r.protectiveClientOrderId parent .stopLoss a b 0 = .ok key) : key = stopKey r parent a b := by
  unfold OrderRouter.protectiveClientOrderId at h
  by_cases h1 : parent = ""
  · simp [h1] at h
  by_cases h2 : a < 0
  · simp [h1, h2] at h
  by_cases h3 : b ≤ a
  · simp [h1, h2, h3] at h
  simp only [if_neg h1, if_neg h2, if_neg h3, if_true, List.append_nil, Except.ok.injEq] at h
  exact h.symm

/-- **One stop**: accepted and booked, or refused and nothing booked. -/
theorem triple_placeStop {entry : Order} {p : Position} {inc level coveredFrom : ℚ} (hinc : 0 < inc) :
    Triple (fun e => e = d) (r.placeStop entry p inc level coveredFrom)
      (fun result e => (result.placed = [] ∧ result.unprotectedQty = inc ∧ Untouched d e) ∨
        ∃ child, result.placed = [(d.heap.length, child)] ∧ result.unprotectedQty = inc - child.qty ∧
          child.status = .submitted ∧
          IsPlaced r p inc (stopKey r entry.clientOrderId coveredFrom (coveredFrom + inc)) child ∧
          Booked d e entry child coveredFrom)
      (fun _ e => Untouched d e) := by
  have hsame (e : Desk β σ) (h : e = d) : Untouched d e := h ▸ ⟨rfl, rfl, rfl, [], by simp⟩
  unfold OrderRouter.placeStop
  refine triple_bind (R := fun key e => e = d ∧ key = stopKey r entry.clientOrderId coveredFrom (coveredFrom + inc))
    (triple_fromExcept _ (fun key hk e he => ⟨he, protectiveClientOrderId_ok hk⟩) (fun _ _ e he => hsame e he))
    fun key => ?_
  let d₁ : Desk β σ := { d with drawn := d.drawn + 1 }
  refine triple_bind (R := fun _ e => e = d₁ ∧ key = stopKey r entry.clientOrderId coveredFrom (coveredFrom + inc)) ?_
    fun id => ?_
  · unfold OrderRouter.draw
    refine triple_get_bind fun d' hd' => ?_
    refine triple_bind (R := fun _ e => e = d₁) (triple_modify _ fun e he => by rw [he, hd'.1]) fun _ => ?_
    exact triple_pure _ fun e he => ⟨he, hd'.2⟩
  refine triple_at fun d' hd' => ?_
  obtain ⟨rfl, hkey⟩ := hd'
  subst hkey
  let stop := OrderRouter.stopOrder entry p inc level id (stopKey r entry.clientOrderId coveredFrom (coveredFrom + inc))
  have hchild : IsPlaced r p inc (stopKey r entry.clientOrderId coveredFrom (coveredFrom + inc)) stop :=
    ⟨rfl, rfl, rfl, hinc, fun _ => le_refl _⟩
  refine triple_bind (R := fun child e => e = d₁ ∧ child = stop)
    (triple_fromExcept _ (fun child hc e he => ⟨he, (Order.postInit_ok hc).1⟩) (fun _ _ e he => ?_)) fun child => ?_
  · rw [he]
    exact ⟨rfl, rfl, rfl, [], by simp [d₁]⟩
  refine triple_at fun d' hd' => ?_
  obtain ⟨rfl, rfl⟩ := hd'
  have huntouched (e : Desk β σ) (object : Order) (h : OrderRouter.Sent d₁ e object) : Untouched d e := by
    obtain ⟨b, s, hs, w, rfl⟩ := h
    exact ⟨rfl, rfl, rfl, [object], rfl⟩
  refine triple_bind (triple_conseq (r.triple_send (isPlaced_endures p inc _) hchild [] d₁) (fun _ h => h)
    (fun _ _ h => h) (fun _ e h => ?_)) fun outcome => ?_
  · obtain ⟨-, object, hs⟩ := h
    exact huntouched e object hs
  refine triple_at fun e he => ?_
  obtain ⟨object, hsent, -, hok⟩ := he
  split
  · rename_i hsub hobject horder
    obtain ⟨ho, href, hstatus, hc⟩ := hok hsub
    rw [ho, Option.some.injEq] at horder
    rw [href, Option.some.injEq] at hobject
    subst horder hobject
    have hbooked : Booked d (OrderRouter.recordPlaced entry object d.heap.length coveredFrom (coveredFrom + inc) e) entry
        object coveredFrom := by
      obtain ⟨b, s, hs, w, rfl⟩ := hsent
      unfold OrderRouter.recordPlaced
      split <;> exact ⟨rfl, rfl, rfl, rfl⟩
    refine triple_bind (triple_modify (Q := fun _ t => Booked d t entry object coveredFrom) _ fun t ht => ht ▸ hbooked)
      fun _ => triple_pure _ fun t ht => ?_
    exact .inr ⟨object, rfl, rfl, hstatus, hc, ht⟩
  · refine triple_pure _ fun t ht => .inl ⟨rfl, rfl, ?_⟩
    rw [ht]
    exact huntouched e object hsent

/-! ## One call -/

/-- What the next call for an entry would cover. -/
def due (d : Desk β σ) (entry : Order) : ℚ :=
  if entry.parentOrderId.isSome then 0
  else match d.portfolio.positions.get? entry.symbol with
    | none => 0
    | some p => if p.isFlat then 0 else increment d entry p

def closingOf (d : Desk β σ) (entry : Order) : Side := closingSide (d.portfolio.position entry.symbol)

/-- What works at the venue against the position of an entry. -/
def coverOf (d : Desk β σ) (entry : Order) : ℚ := d.protectedQty entry.symbol (closingOf d entry)

def coveredOf (d : Desk β σ) (entry : Order) : ℚ := (d.covered.get? entry.id).getD 0

/-- What a call leaves alone: the quantities held, the objects there are, and the children of other symbols. -/
structure Beside (d : Desk β σ) (entry : Order) (e : Desk β σ) : Prop where
  grounded : Grounded e
  position : ∀ s, (e.portfolio.positions.get? s).map Position.qty = (d.portfolio.positions.get? s).map Position.qty
  heap : ∃ l, e.heap = d.heap ++ l
  others : ∀ s, s ≠ entry.symbol → refsOf e s = refsOf d s
  children : ∀ ref ∈ refsOf e entry.symbol,
    ref ∈ refsOf d entry.symbol ∨ ∃ o, e.heap[ref]? = some o ∧ o.side = closingOf d entry

/-- The books of protection of an entry's symbol say what they said. -/
structure Still (d : Desk β σ) (entry : Order) (e : Desk β σ) : Prop where
  covered : e.covered = d.covered
  cover : covering e.heap (closingOf d entry) (refsOf e entry.symbol) =
    covering d.heap (closingOf d entry) (refsOf d entry.symbol)
  frame : Beside d entry e

theorem closingSide_qty {p q : Position} (h : p.qty = q.qty) : closingSide p = closingSide q := by
  unfold closingSide Position.isLong
  rw [h]

theorem qty_position {d e : Desk β σ} {s : String}
    (h : (e.portfolio.positions.get? s).map Position.qty = (d.portfolio.positions.get? s).map Position.qty) :
    (e.portfolio.position s).qty = (d.portfolio.position s).qty := by
  unfold Portfolio.position
  cases he : e.portfolio.positions.get? s <;> cases hd : d.portfolio.positions.get? s <;> simp_all

variable {e : Desk β σ} {entry : Order}

theorem Still.closingOf (h : Still d entry e) : closingOf e entry = Coverage.closingOf d entry :=
  closingSide_qty (qty_position (h.frame.position _))

theorem Still.coverOf (h : Still d entry e) : coverOf e entry = Coverage.coverOf d entry := by
  unfold Coverage.coverOf
  rw [h.closingOf, protectedQty_eq, protectedQty_eq, h.cover]

/-- What is due of an entry is the lesser of its uncovered fills and the uncovered shares, while the position is open. -/
theorem due_eq (d : Desk β σ) (entry : Order) :
    due d entry = if entry.parentOrderId.isSome || (d.portfolio.position entry.symbol).isFlat then 0
      else min (entry.filledQty - coveredOf d entry) (|(d.portfolio.position entry.symbol).qty| - coverOf d entry) := by
  unfold due increment coveredOf Coverage.coverOf Coverage.closingOf Portfolio.position
  cases entry.parentOrderId.isSome with
  | true => simp
  | false =>
    cases d.portfolio.positions.get? entry.symbol with
    | none => simp [Position.isFlat]
    | some p => simp

theorem due_open {p : Position} (hparent : entry.parentOrderId.isSome = false)
    (hp : d.portfolio.positions.get? entry.symbol = some p) (hopen : p.isFlat = false) :
    due d entry = min (entry.filledQty - coveredOf d entry) (|p.qty| - coverOf d entry) := by
  have hposition : d.portfolio.position entry.symbol = p := by simp [Portfolio.position, hp]
  rw [due_eq, hposition, hparent, hopen]
  rfl

theorem isFlat_qty {p q : Position} (h : p.qty = q.qty) : p.isFlat = q.isFlat := by
  unfold Position.isFlat
  rw [h]

theorem Still.due (h : Still d entry e) : due e entry = Coverage.due d entry := by
  have hqty := qty_position (h.frame.position entry.symbol)
  have hcovered : coveredOf e entry = coveredOf d entry := by
    unfold coveredOf
    rw [h.covered]
  rw [due_eq, due_eq, isFlat_qty hqty, hqty, h.coverOf, hcovered]

/-- **What one call does**: it places nothing and the books stand, or it places one stop for at most what is due. -/
structure Called (r : OrderRouter β L σ) (d : Desk β σ) (entry : Order) (placed : List (Ref × Order)) (e : Desk β σ) :
    Prop where
  frame : Beside d entry e
  books : (placed = [] ∧ e.covered = d.covered ∧ coverOf e entry = coverOf d entry) ∨
    ∃ ref child, placed = [(ref, child)] ∧ 0 < child.qty ∧ child.qty ≤ due d entry ∧
      child.clientOrderId = stopKey r entry.clientOrderId (coveredOf d entry) (coveredOf d entry + due d entry) ∧
      e.covered = d.covered.set entry.id (coveredOf d entry + child.qty) ∧
      coverOf e entry = coverOf d entry + child.qty ∧ due e entry = due d entry - child.qty

theorem Still.called (h : Still d entry e) : Called r d entry [] e :=
  ⟨h.frame, .inl ⟨rfl, h.covered, h.coverOf⟩⟩

/-- A placed stop leaves that much less due. -/
theorem Called.due_placed {ref : Ref} {child : Order} (h : Called r d entry [(ref, child)] e) :
    Coverage.due e entry ≤ Coverage.due d entry - child.qty := by
  rcases h.books with ⟨hnil, -⟩ | ⟨ref', child', heq, -, -, -, -, -, hdue⟩
  · cases hnil
  · cases heq
    exact hdue.le

theorem Untouched.still {d₁ : Desk β σ} (h : Still d entry d₁) (hu : Untouched d₁ e) : Still d entry e := by
  obtain ⟨l, hl⟩ := hu.heap
  obtain ⟨l₁, hl₁⟩ := h.frame.heap
  have hrefs (s : String) : refsOf e s = refsOf d₁ s := by simp [refsOf, hu.protective]
  refine ⟨hu.covered.trans h.covered, ?_, ⟨fun s ref hr => ?_, ?_, ⟨l₁ ++ l, ?_⟩, fun s hs => ?_, fun ref hr => ?_⟩⟩
  · rw [hl, hrefs, covering_extend (h.frame.grounded _), h.cover]
  · rw [hl, List.length_append]
    rw [hrefs] at hr
    exact (h.frame.grounded s ref hr).trans_le (Nat.le_add_right _ _)
  · rw [hu.portfolio]
    exact h.frame.position
  · rw [hl, hl₁, List.append_assoc]
  · rw [hrefs, h.frame.others s hs]
  · rw [hrefs] at hr
    have hlt := h.frame.grounded _ ref hr
    rcases h.frame.children ref hr with hold | ⟨o, ho, hside⟩
    · exact .inl hold
    · exact .inr ⟨o, by rw [hl, List.getElem?_append_left hlt, ho], hside⟩

theorem Booked.refs {d₁ : Desk β σ} {child : Order} {coveredFrom : ℚ} (hb : Booked d₁ e entry child coveredFrom) :
    refsOf e entry.symbol = refsOf d₁ entry.symbol ++ [d₁.heap.length] ∧ ∀ s, s ≠ entry.symbol → refsOf e s = refsOf d₁ s := by
  constructor
  · simp [refsOf, hb.protective]
  · intro s hs
    unfold refsOf
    rw [hb.protective, Dict.get?_set_ne _ _ hs]

/-- A booked child leaves the rest alone. -/
theorem Booked.beside {d₁ : Desk β σ} {child : Order} {coveredFrom : ℚ} (h : Still d entry d₁) (hside : child.side = closingOf d entry)
    (hb : Booked d₁ e entry child coveredFrom) : Beside d entry e := by
  obtain ⟨hrefs, hother⟩ := hb.refs
  have hground : Grounded e := by
    intro s ref hr
    rw [hb.heap, List.length_append, List.length_singleton]
    by_cases hs : s = entry.symbol
    · rw [hs, hrefs] at hr
      rcases List.mem_append.1 hr with hr | hr
      · exact (h.frame.grounded _ ref hr).trans (Nat.lt_succ_self _)
      · rw [List.mem_singleton.1 hr]
        exact Nat.lt_succ_self _
    · rw [hother s hs] at hr
      exact (h.frame.grounded s ref hr).trans (Nat.lt_succ_self _)
  obtain ⟨l₁, hl₁⟩ := h.frame.heap
  refine ⟨hground, fun s => ?_, ⟨l₁ ++ [child], by rw [hb.heap, hl₁, List.append_assoc]⟩,
    fun s hs => (hother s hs).trans (h.frame.others s hs), fun ref hr => ?_⟩
  · rw [hb.portfolio]
    exact h.frame.position s
  · rw [hrefs] at hr
    rcases List.mem_append.1 hr with hr | hr
    · have hlt := h.frame.grounded _ ref hr
      rcases h.frame.children ref hr with hold | ⟨o, ho, hside⟩
      · exact .inl hold
      · exact .inr ⟨o, by rw [hb.heap, List.getElem?_append_left hlt, ho], hside⟩
    · rw [List.mem_singleton.1 hr, hb.heap, List.getElem?_concat_length]
      exact .inr ⟨child, rfl, hside⟩

/-- A booked child adds its own size to the cover. -/
theorem Booked.cover {d₁ : Desk β σ} {child : Order} {coveredFrom : ℚ} (h : Still d entry d₁) (hside : child.side = closingOf d entry)
    (hstatus : child.status = .submitted) (hfilled : child.filledQty = 0) (hb : Booked d₁ e entry child coveredFrom) :
    coverOf e entry = coverOf d entry + child.qty := by
  have hclosing : closingOf e entry = closingOf d entry := closingSide_qty (qty_position ((hb.beside h hside).position _))
  have hworking : working (closingOf d entry) child = child.qty := by
    simp [working, Order.isComplete, hstatus, OrderStatus.isTerminal, hside, Order.remainingQty, hfilled]
  unfold coverOf
  rw [hclosing, protectedQty_eq, protectedQty_eq, hb.refs.1, hb.heap, covering_append, covering_extend (h.frame.grounded _),
    h.cover]
  simp [covering, hworking]

/-- A booked child covers what it is for. -/
theorem Booked.called {d₁ : Desk β σ} {child : Order} {p : Position} (h : Still d entry d₁)
    (hparent : entry.parentOrderId.isSome = false) (hp : d.portfolio.positions.get? entry.symbol = some p)
    (hopen : p.isFlat = false) (hstatus : child.status = .submitted)
    (hchild : IsChild p (due d entry)
      (stopKey r entry.clientOrderId (coveredOf d entry) (coveredOf d entry + due d entry)) child)
    (hb : Booked d₁ e entry child (coveredOf d entry)) : Called r d entry [(d₁.heap.length, child)] e := by
  have hposition : d.portfolio.position entry.symbol = p := by simp [Portfolio.position, hp]
  have hchildside : child.side = closingOf d entry := by rw [hchild.side, closingOf, hposition]
  have hframe := hb.beside h hchildside
  have hcovered : e.covered = d.covered.set entry.id (coveredOf d entry + child.qty) := by rw [hb.covered, h.covered]
  have hcover := hb.cover h hchildside hstatus hchild.filled
  refine ⟨hframe, .inr ⟨_, child, rfl, hchild.pos, hchild.le, hchild.key, hcovered, hcover, ?_⟩⟩
  have hqty := qty_position (hframe.position entry.symbol)
  have hflat : (d.portfolio.position entry.symbol).isFlat = false := by rw [hposition, hopen]
  have hnow : coveredOf e entry = coveredOf d entry + child.qty := by simp [coveredOf, hcovered]
  rw [due_eq, due_eq, isFlat_qty hqty, hqty, hparent, hflat, hcover, hnow]
  simp only [Bool.or_self, Bool.false_eq_true, if_false]
  rw [← sub_sub, ← sub_sub]
  exact min_sub_sub_right _ _ _

/-- More cover, and more placed, leave no more due of any entry. -/
theorem due_le_of (hground : Grounded d) (hframe : Beside d entry e)
    (hcovered : ∀ id, (d.covered.get? id).getD 0 ≤ (e.covered.get? id).getD 0) (hown : coverOf d entry ≤ coverOf e entry)
    (other : Order) : Coverage.due e other ≤ Coverage.due d other := by
  have hpos := hframe.position other.symbol
  have hclosing : closingOf e other = closingOf d other := closingSide_qty (qty_position hpos)
  have hnow : coveredOf d other ≤ coveredOf e other := hcovered other.id
  have hcover : Coverage.coverOf d other ≤ Coverage.coverOf e other := by
    by_cases hs : other.symbol = entry.symbol
    · unfold Coverage.coverOf closingOf at hown ⊢
      rwa [hs]
    · obtain ⟨l, hl⟩ := hframe.heap
      unfold Coverage.coverOf
      rw [hclosing, protectedQty_eq, protectedQty_eq, hframe.others _ hs, hl, covering_extend (hground _)]
  have hqty := qty_position hpos
  rw [due_eq, due_eq, isFlat_qty hqty, hqty]
  split
  · exact le_rfl
  · exact min_le_min (by linarith) (by linarith)

/-- Where a total has grown, every total has at least stayed. -/
theorem covered_le {child : Order} (hcovered : e.covered = d.covered.set entry.id (coveredOf d entry + child.qty))
    (hpos : 0 < child.qty) (id : String) : (d.covered.get? id).getD 0 ≤ (e.covered.get? id).getD 0 := by
  rw [hcovered, Dict.get?_set]
  split
  · rename_i hid
    rw [hid]
    exact le_add_of_nonneg_right hpos.le
  · exact le_rfl

/-- **A call leaves no more due of any entry**, its own or another's. -/
theorem Called.due_le {placed : List (Ref × Order)} (hground : Grounded d) (h : Called r d entry placed e)
    (other : Order) : Coverage.due e other ≤ Coverage.due d other := by
  rcases h.books with ⟨-, hcovered, hcover⟩ | ⟨ref, child, -, hchild, -, -, hcovered, hcover, -⟩
  · exact due_le_of hground h.frame (fun id => by rw [hcovered]) hcover.ge other
  · exact due_le_of hground h.frame (covered_le hcovered hchild) (by rw [hcover]; exact le_add_of_nonneg_right hchild.le) other

/-- What an answer of `submit_protective_orders` says of the books, if no rule has made the child larger. -/
structure Answered (r : OrderRouter β L σ) (d : Desk β σ) (entry : Order) (result : ProtectionResult) (e : Desk β σ) : Prop where
  frame : Beside d entry e
  books : (∀ c ∈ result.placed, c.2.qty ≤ due d entry) →
    Called r d entry result.placed e ∧ Coverage.due e entry ≤ result.unprotectedQty
  rest : ∀ c ∈ result.placed, result.unprotectedQty = due d entry - c.2.qty
  keyed : ∀ c ∈ result.placed, c.2.clientOrderId = stopKey r entry.clientOrderId (coveredOf d entry) (coveredOf d entry + due d entry)
  others : ∀ other, Coverage.due e other ≤ Coverage.due d other
  shrunk : (∀ rule ∈ r.rules, rule.OnlyShrinks) → ∀ c ∈ result.placed, c.2.qty ≤ due d entry

/-- An answer that nothing is unprotected is so. -/
theorem Answered.nothing_due {result : ProtectionResult} (h : Answered r d entry result e) (hall : result.unprotectedQty = 0) :
    Coverage.due e entry ≤ 0 := by
  rw [← hall]
  refine (h.books fun c hc => ?_).2
  have := h.rest c hc
  linarith

theorem Called.answered {result : ProtectionResult} (hground : Grounded d) (hplaced : result.placed = []) (h : Called r d entry result.placed e)
    (hdue : Coverage.due e entry ≤ result.unprotectedQty) : Answered r d entry result e := by
  refine ⟨h.frame, fun _ => ⟨h, hdue⟩, fun c hc => ?_, fun c hc => ?_, h.due_le hground, fun _ c hc => ?_⟩ <;>
  · rw [hplaced] at hc
    cases hc

/-- **What `submit_protective_orders` does to the books.** -/
theorem triple_answered (hground : Grounded d) (config : Option StopConfig) (atr : Option ℚ) :
    Triple (fun e => e = d) (r.submitProtectiveOrders entry config atr) (fun result e => Answered r d entry result e)
      (fun _ e => Called r d entry [] e) := by
  have hsame : Still d entry d := ⟨rfl, rfl, ⟨hground, fun _ => rfl, ⟨[], by simp⟩, fun _ _ => rfl, fun _ h => .inl h⟩⟩
  have hnothing (h : Coverage.due d entry = 0) (e : Desk β σ) (he : e = d) : Answered r d entry {} e := by
    rw [he]
    exact hsame.called.answered hground rfl h.le
  unfold OrderRouter.submitProtectiveOrders
  refine triple_ite (fun hparent => triple_pure _ (hnothing (by simp [Coverage.due, hparent]))) (fun hparent => ?_)
  refine triple_get_bind fun d₀ h₀ => ?_
  subst h₀
  cases hp : d₀.portfolio.positions.get? entry.symbol with
  | none => exact triple_pure _ (hnothing (by simp [Coverage.due, hp]))
  | some p =>
    refine triple_ite (fun hflat => triple_pure _ (hnothing (by simp [Coverage.due, hp, hflat]))) (fun hflat => ?_)
    rw [Bool.not_eq_true] at hparent hflat
    have hclosing : closingOf d₀ entry = closingSide p := by simp [Coverage.closingOf, Portfolio.position, hp]
    refine triple_bind (R := fun _ e => Still d₀ entry e) ?_ fun _ => ?_
    · have hswept (e : Desk β σ) (h : Swept d₀ entry.symbol (closingSide p) e) : Still d₀ entry e := by
        obtain ⟨b, children, he⟩ := h.rest
        refine ⟨by rw [he], by rw [hclosing]; exact h.covering, ⟨h.grounded hground, fun _ => by rw [he], ⟨[], ?_⟩, h.others,
          fun ref hr => .inl (h.fewer _ ref hr)⟩⟩
        simp [he]
      exact triple_conseq (triple_cancelStaleProtection entry.symbol (closingSide p)) (fun _ h => h)
        (fun _ e h => hswept e h) (fun _ e h => (hswept e h).called)
    refine triple_get_bind fun d₁ h₁ => ?_
    have hfrom : (d₁.covered.get? entry.id).getD 0 = coveredOf d₀ entry := by rw [h₁.covered]; rfl
    have hinc : min (entry.filledQty - coveredOf d₀ entry)
        (|p.qty| - d₁.protectedQty entry.symbol (closingSide p)) = Coverage.due d₀ entry := by
      have hcover := h₁.coverOf
      unfold Coverage.coverOf at hcover
      rw [h₁.closingOf, hclosing] at hcover
      rw [due_open hparent hp hflat, hcover, Coverage.coverOf, hclosing]
    simp only [hfrom, hinc]
    have hstill (q : Position) (hq : q.qty = p.qty) : Still d₀ entry (d₁.setPosition entry.symbol q) := by
      refine ⟨h₁.covered, h₁.cover, ⟨h₁.frame.grounded, fun s => ?_, h₁.frame.heap, h₁.frame.others,
        h₁.frame.children⟩⟩
      rw [← h₁.frame.position s, Desk.setPosition, Portfolio.setPosition, Dict.get?_set]
      by_cases hs : s = entry.symbol
      · rw [if_pos hs, hs, h₁.frame.position, hp, Option.map_some, Option.map_some, hq]
      · rw [if_neg hs]
    refine triple_ite (fun hle => triple_pure _ fun e he => ?_) (fun hpos => ?_)
    · rw [he]
      exact h₁.called.answered hground rfl (h₁.due.trans_le hle)
    refine triple_bind (R := fun _ e => e = d₁) (triple_fromExcept _ (fun _ _ _ h => h) (fun _ _ e he => ?_)) ?_
    · rw [he]
      exact h₁.called
    rintro ⟨stop, target⟩
    let q := OrderRouter.armed p stop target
    have hq : q.qty = p.qty := rfl
    refine triple_bind (R := fun _ e => e = d₁.setPosition entry.symbol q) (triple_modify _ fun e he => by rw [he]) fun _ => ?_
    have harmed := hstill q hq
    have hunplaced {result : ProtectionResult} (hplaced : result.placed = []) (hun : result.unprotectedQty = Coverage.due d₀ entry)
        {e : Desk β σ} (he : Still d₀ entry e) : Answered r d₀ entry result e :=
      Called.answered hground hplaced (by rw [hplaced]; exact he.called) (by rw [hun, he.due])
    cases stop with
    | none => exact triple_pure _ fun e he => hunplaced rfl rfl (he ▸ harmed)
    | some level =>
      refine triple_ite (fun _ => triple_pure _ fun e he => hunplaced rfl rfl (he ▸ harmed)) (fun _ => ?_)
      refine triple_conseq (triple_placeStop (d := d₁.setPosition entry.symbol q) (lt_of_not_ge hpos)) (fun _ h => h)
        (fun result e h => ?_) (fun _ e h => (h.still harmed).called)
      rcases h with ⟨hplaced, hun, hu⟩ | ⟨child, hplaced, hun, hstatus, hchild, hb⟩
      · exact hunplaced hplaced hun (hu.still harmed)
      · have hside : child.side = closingOf d₀ entry := by rw [hchild.side, hclosing, closingSide_qty hq]
        have hcovered : e.covered = d₀.covered.set entry.id (coveredOf d₀ entry + child.qty) := by
          rw [hb.covered, harmed.covered]
        have hmore : coverOf d₀ entry ≤ coverOf e entry := by
          rw [hb.cover harmed hside hstatus hchild.filled]
          exact le_add_of_nonneg_right hchild.pos.le
        refine ⟨hb.beside harmed hside, fun hle => ?_, ?_, ?_, due_le_of hground (hb.beside harmed hside)
          (covered_le hcovered hchild.pos) hmore, fun hrules => ?_⟩ <;> rw [hplaced] at *
        · have hc := hb.called harmed hparent hp hflat hstatus (hchild.isChild hq (hle _ (List.mem_singleton_self _)))
          exact ⟨hc, hun ▸ hc.due_placed⟩
        · intro c hc
          rw [List.mem_singleton.1 hc, hun]
        · intro c hc
          rw [List.mem_singleton.1 hc]
          exact hchild.key
        · intro c hc
          rw [List.mem_singleton.1 hc]
          exact hchild.le hrules

/-- With rules that only shrink, what is left due is at most what is left unprotected. -/
theorem triple_submitProtectiveOrders (hrules : ∀ rule ∈ r.rules, rule.OnlyShrinks) (hground : Grounded d)
    (config : Option StopConfig) (atr : Option ℚ) :
    Triple (fun e => e = d) (r.submitProtectiveOrders entry config atr)
      (fun result e => Called r d entry result.placed e ∧ Coverage.due e entry ≤ result.unprotectedQty)
      (fun _ e => Called r d entry [] e) :=
  triple_conseq (triple_answered hground config atr) (fun _ h => h) (fun _ _ h => h.books (h.shrunk hrules)) (fun _ _ h => h)

/-! ## Any sequence of calls -/

/-- What is due of anything never exceeds what is uncovered of it, nor the room there is. -/
theorem due_le (h : 0 < Coverage.due d entry) :
    Coverage.due d entry ≤ entry.filledQty - coveredOf d entry ∧
      Coverage.due d entry ≤ |(d.portfolio.position entry.symbol).qty| - Coverage.coverOf d entry := by
  rw [due_eq] at h ⊢
  split at h
  · exact absurd h (lt_irrefl 0)
  · rename_i hopen
    rw [if_neg hopen]
    exact ⟨min_le_left _ _, min_le_right _ _⟩

/-- **A call covers nothing past the position.** -/
theorem Called.coverOf_le {placed : List (Ref × Order)} (h : Called r d entry placed e) :
    Coverage.coverOf e entry ≤ max (Coverage.coverOf d entry) |(d.portfolio.position entry.symbol).qty| := by
  rcases h.books with ⟨-, -, hcover⟩ | ⟨ref, child, -, hpos, hle, -, -, hcover, -⟩
  · rw [hcover]
    exact le_max_left _ _
  · have hroom := (Coverage.due_le (hpos.trans_le hle)).2
    rw [hcover]
    exact le_max_of_le_right (by linarith)

/-- A stop the venue accepted for an entry: from where in its fills it covers, how much, and under which key. -/
structure Part where
  entry : String
  coveredFrom : ℚ
  qty : ℚ
  key : String

def Part.coveredTo (a : Part) : ℚ := a.coveredFrom + a.qty

/-- The desk, the entries by id as they stand, and the stops accepted so far. -/
structure Ledger (β σ : Type) where
  desk : Desk β σ
  entries : Dict String Order
  parts : List Part := []

inductive Event
  | protect (id : String) (config : Option StopConfig) (atr : Option ℚ)
  | other
deriving DecidableEq

/-- What a call placed: nothing when it raised. -/
def placedBy : Except Exc ProtectionResult → List (Ref × Order)
  | .ok result => result.placed
  | .error _ => []

def partsOf (d : Desk β σ) (entry : Order) (placed : List (Ref × Order)) : List Part :=
  placed.map (fun c => ⟨entry.id, coveredOf d entry, c.2.qty, c.2.clientOrderId⟩)

/-- The ledger after `submit_protective_orders`. -/
def called (r : OrderRouter β L σ) (s : Ledger β σ) (entry : Order) (config : Option StopConfig) (atr : Option ℚ) :
    Ledger β σ :=
  let out := exec (r.submitProtectiveOrders entry config atr) s.desk
  { s with desk := out.2, parts := s.parts ++ partsOf s.desk entry (placedBy out.1) }

/-- Entries are kept under their ids, and fill but never give a fill back. -/
def Filled (before after : Dict String Order) : Prop :=
  (∀ id entry, before.get? id = some entry → ∃ entry', after.get? id = some entry' ∧ entry.filledQty ≤ entry'.filledQty) ∧
    ∀ id entry, after.get? id = some entry → entry.id = id ∧ 0 ≤ entry.filledQty

/-- A call for an entry as it stands, or anything that leaves the covered totals alone: fills of entries, whatever becomes of
the children, closes, marks, the broker, the rules. -/
inductive Step (r : OrderRouter β L σ) : Ledger β σ → Event → Ledger β σ → Prop
  | protect {s : Ledger β σ} {entry : Order} (id : String) (config : Option StopConfig) (atr : Option ℚ) :
      s.entries.get? id = some entry → Step r s (.protect id config atr) (called r s entry config atr)
  | other {s t : Ledger β σ} : t.parts = s.parts → t.desk.covered = s.desk.covered → Grounded t.desk →
      Filled s.entries t.entries → Step r s .other t

/-- Nothing covered yet. -/
structure Fresh (s : Ledger β σ) : Prop where
  grounded : Grounded s.desk
  covered : s.desk.covered = .empty
  entries : ∀ id entry, s.entries.get? id = some entry → entry.id = id ∧ 0 ≤ entry.filledQty
  parts : s.parts = []

/-- The covered total of an id. -/
def totalOf (s : Ledger β σ) (id : String) : ℚ := (s.desk.covered.get? id).getD 0

def Part.Apart (a b : Part) : Prop := a.entry = b.entry → a.coveredTo ≤ b.coveredFrom

/-- What the calls keep. -/
structure Kept (r : OrderRouter β L σ) (s : Ledger β σ) : Prop where
  grounded : Grounded s.desk
  named : ∀ id entry, s.entries.get? id = some entry → entry.id = id
  unknown : ∀ id, s.entries.get? id = none → totalOf s id = 0
  covered : ∀ id entry, s.entries.get? id = some entry → totalOf s id ≤ entry.filledQty
  total : ∀ id, ((s.parts.filter (fun a => a.entry = id)).map Part.qty).sum = totalOf s id
  parts : ∀ a ∈ s.parts, 0 < a.qty ∧ a.coveredTo ≤ totalOf s a.entry ∧
    ∃ parent coveredTo, a.key = stopKey r parent a.coveredFrom coveredTo
  apart : s.parts.Pairwise Part.Apart

theorem Fresh.kept {s : Ledger β σ} (h : Fresh s) : Kept r s := by
  have htotal (id : String) : totalOf s id = 0 := by simp [totalOf, h.covered]
  refine ⟨h.grounded, fun id entry hg => (h.entries id entry hg).1, fun id _ => htotal id, fun id entry hg => ?_,
    fun id => ?_, fun a ha => ?_, ?_⟩
  · rw [htotal]
    exact (h.entries id entry hg).2
  · rw [htotal, h.parts]
    rfl
  · rw [h.parts] at ha
    cases ha
  · rw [h.parts]
    exact .nil

theorem Kept.filled_nonneg {s : Ledger β σ} (hs : Kept r s) {id : String}
    (hg : s.entries.get? id = some entry) : 0 ≤ entry.filledQty := by
  refine le_trans ?_ (hs.covered id entry hg)
  rw [← hs.total id]
  refine List.sum_nonneg fun q hq => ?_
  obtain ⟨a, ha, rfl⟩ := List.mem_map.1 hq
  exact (hs.parts a (List.mem_filter.1 ha).1).1.le

/-- **A call keeps the books.** -/
theorem Called.kept {s t : Ledger β σ} {id : String} {placed : List (Ref × Order)} (hs : Kept r s)
    (hg : s.entries.get? id = some entry) (h : Called r s.desk entry placed t.desk) (hentries : t.entries = s.entries)
    (hparts : t.parts = s.parts ++ partsOf s.desk entry placed) : Kept r t := by
  have hid : entry.id = id := hs.named id entry hg
  rcases h.books with ⟨hnil, hcovered, -⟩ | ⟨ref, child, hplaced, hpos, hle, hkey, hcovered, -⟩
  · have htotal (id' : String) : totalOf t id' = totalOf s id' := by simp [totalOf, hcovered]
    have hsame : t.parts = s.parts := by simp [hparts, hnil, partsOf]
    refine ⟨h.frame.grounded, ?_, ?_, ?_, ?_, ?_, ?_⟩
    · rw [hentries]; exact hs.named
    · simpa only [hentries, htotal] using hs.unknown
    · simpa only [hentries, htotal] using hs.covered
    · simpa only [hsame, htotal] using hs.total
    · simpa only [hsame, htotal] using hs.parts
    · rw [hsame]; exact hs.apart
  · let a : Part := ⟨id, totalOf s id, child.qty, child.clientOrderId⟩
    have hfrom : coveredOf s.desk entry = totalOf s id := by rw [coveredOf, hid, totalOf]
    have hsnoc : t.parts = s.parts ++ [a] := by simp [hparts, hplaced, partsOf, a, hfrom, hid]
    have htotal (id' : String) : totalOf t id' = if id' = id then a.coveredTo else totalOf s id' := by
      unfold totalOf
      rw [hcovered, Dict.get?_set, hid, hfrom]
      split <;> rfl
    have hmono (id' : String) : totalOf s id' ≤ totalOf t id' := by
      rw [htotal]
      split
      · rename_i heq
        rw [heq]
        exact le_add_of_nonneg_right hpos.le
      · exact le_rfl
    have hroom : a.coveredTo ≤ entry.filledQty := by
      have hdue := (Coverage.due_le (hpos.trans_le hle)).1
      rw [hfrom] at hdue
      unfold Part.coveredTo
      linarith
    refine ⟨h.frame.grounded, ?_, fun id' hn => ?_, fun id' entry' hg' => ?_, fun id' => ?_, fun b hb => ?_, ?_⟩
    · rw [hentries]; exact hs.named
    · rw [hentries] at hn
      have hne : id' ≠ id := by
        rintro rfl
        rw [hn] at hg
        cases hg
      rw [htotal, if_neg hne]
      exact hs.unknown id' hn
    · rw [hentries] at hg'
      rw [htotal]
      by_cases heq : id' = id
      · rw [heq, hg, Option.some.injEq] at hg'
        rw [if_pos heq, ← hg']
        exact hroom
      · rw [if_neg heq]
        exact hs.covered id' entry' hg'
    · rw [hsnoc, List.filter_append, List.map_append, List.sum_append, hs.total, htotal]
      by_cases heq : id' = id
      · simp [heq, a, Part.coveredTo]
      · simp [heq, a, Ne.symm heq]
    · rw [hsnoc] at hb
      rcases List.mem_append.1 hb with hb | hb
      · obtain ⟨hq, hto, hk⟩ := hs.parts b hb
        exact ⟨hq, hto.trans (hmono _), hk⟩
      · rw [List.mem_singleton.1 hb]
        refine ⟨hpos, ?_, _, _, hfrom ▸ hkey⟩
        rw [htotal, if_pos rfl]
    · rw [hsnoc, List.pairwise_append]
      refine ⟨hs.apart, List.pairwise_singleton _ _, fun b hb c hc => ?_⟩
      rw [List.mem_singleton.1 hc]
      intro heq
      have hto := (hs.parts b hb).2.1
      rwa [heq] at hto

/-- A call from a ledger in order, whether it returns or raises. -/
theorem called_spec (hrules : ∀ rule ∈ r.rules, rule.OnlyShrinks) {s : Ledger β σ} (hground : Grounded s.desk)
    (entry : Order) (config : Option StopConfig) (atr : Option ℚ) :
    Called r s.desk entry (placedBy (exec (r.submitProtectiveOrders entry config atr) s.desk).1)
        (called r s entry config atr).desk ∧
      ∀ result, (exec (r.submitProtectiveOrders entry config atr) s.desk).1 = .ok result →
        Coverage.due (called r s entry config atr).desk entry ≤ result.unprotectedQty := by
  have htriple : Triple (fun e => e = s.desk) (r.submitProtectiveOrders entry config atr)
      (fun result e => Called r s.desk entry result.placed e ∧ Coverage.due e entry ≤ result.unprotectedQty)
      (fun _ e => Called r s.desk entry [] e) := triple_submitProtectiveOrders hrules hground config atr
  have h := htriple s.desk rfl
  unfold called
  rcases hr : exec (r.submitProtectiveOrders entry config atr) s.desk with ⟨out, e⟩
  rw [hr] at h
  cases out with
  | error exc => exact ⟨h, fun result heq => nomatch heq⟩
  | ok result =>
    refine ⟨h.1, fun result' heq => ?_⟩
    cases heq
    exact h.2

theorem step_kept (hrules : ∀ rule ∈ r.rules, rule.OnlyShrinks) {s t : Ledger β σ} {i : Event} (hs : Kept r s)
    (h : Step r s i t) : Kept r t := by
  cases h with
  | protect id config atr hg => exact (called_spec hrules hs.grounded _ config atr).1.kept hs hg rfl rfl
  | other hparts hcovered hground hfilled =>
    have htotal (id : String) : totalOf t id = totalOf s id := by simp [totalOf, hcovered]
    refine ⟨hground, fun id entry hg => (hfilled.2 id entry hg).1, fun id hn => ?_, fun id entry hg => ?_, ?_, ?_, ?_⟩
    · rw [htotal]
      cases hs' : s.entries.get? id with
      | none => exact hs.unknown id hs'
      | some entry =>
        obtain ⟨entry', hg', -⟩ := hfilled.1 id entry hs'
        rw [hn] at hg'
        cases hg'
    · rw [htotal]
      cases hs' : s.entries.get? id with
      | none =>
        rw [hs.unknown id hs']
        exact (hfilled.2 id entry hg).2
      | some entry₀ =>
        obtain ⟨entry', hg', hle⟩ := hfilled.1 id entry₀ hs'
        rw [hg, Option.some.injEq] at hg'
        rw [hg']
        exact (hs.covered id entry₀ hs').trans hle
    · simpa only [hparts, htotal] using hs.total
    · simpa only [hparts, htotal] using hs.parts
    · rw [hparts]; exact hs.apart

/-- The calls alone. -/
def Calls (r : OrderRouter β L σ) : Ledger β σ → Event → Ledger β σ → Prop := guarded (Step r) (fun _ i => i ≠ .other)

/-- **Calls alone leave no more due of anything.** -/
theorem calls_due (hrules : ∀ rule ∈ r.rules, rule.OnlyShrinks) {s t : Ledger β σ} {l : List Event} (hs : Kept r s)
    (h : Run (Calls r) s l t) (other : Order) : Kept r t ∧ Coverage.due t.desk other ≤ Coverage.due s.desk other := by
  refine run_invariant (fun u => Kept r u ∧ Coverage.due u.desk other ≤ Coverage.due s.desk other) ?_ ⟨hs, le_rfl⟩ h
  rintro u i v ⟨hu, hle⟩ ⟨hstep, hcall⟩
  refine ⟨step_kept hrules hu hstep, ?_⟩
  cases hstep with
  | protect id config atr hg => exact ((called_spec hrules hu.grounded _ config atr).1.due_le hu.grounded other).trans hle
  | other => exact absurd rfl hcall

/-- **Nothing is covered twice, nor past what filled.** -/
structure Exact (r : OrderRouter β L σ) (s : Ledger β σ) : Prop where
  covered : ∀ id entry, s.entries.get? id = some entry → totalOf s id ≤ entry.filledQty
  total : ∀ id, ((s.parts.filter (fun a => a.entry = id)).map Part.qty).sum = totalOf s id
  apart : s.parts.Pairwise (fun a b => a.entry = b.entry → a.coveredTo ≤ b.coveredFrom)
  keys : s.parts.Pairwise (fun a b => a.entry = b.entry → a.key ≠ b.key)

/-- What a call covers stays within the position, and what is called again places no more than was left unprotected. -/
structure CallExact (r : OrderRouter β L σ) (s : Ledger β σ) (entry : Order) (config : Option StopConfig) (atr : Option ℚ) :
    Prop where
  room : Coverage.coverOf (called r s entry config atr).desk entry ≤
    max (Coverage.coverOf s.desk entry) |(s.desk.portfolio.position entry.symbol).qty|
  again : ∀ result, (exec (r.submitProtectiveOrders entry config atr) s.desk).1 = .ok result →
    ∀ l t config' atr', Run (Calls r) (called r s entry config atr) l t →
      ∀ c ∈ placedBy (exec (r.submitProtectiveOrders entry config' atr') t.desk).1,
        0 < c.2.qty ∧ c.2.qty ≤ result.unprotectedQty

theorem Kept.exact (hdigest : Function.Injective r.digest) {s : Ledger β σ} (hs : Kept r s) : Exact r s := by
  refine ⟨hs.covered, hs.total, hs.apart, ?_⟩
  refine hs.apart.imp_of_mem fun {a b} ha hb hab heq hkey => ?_
  obtain ⟨hq, -, p, x, hka⟩ := hs.parts a ha
  obtain ⟨-, -, p', x', hkb⟩ := hs.parts b hb
  rw [hka, hkb] at hkey
  have hfrom : a.coveredFrom = b.coveredFrom := by
    have hpieces := hdigest hkey
    simp only [List.cons.injEq, Piece.dec.injEq] at hpieces
    exact hpieces.2.2.1
  have hto := hab heq
  unfold Part.coveredTo at hto
  linarith

theorem Kept.call (hrules : ∀ rule ∈ r.rules, rule.OnlyShrinks) {s : Ledger β σ} (hs : Kept r s) {id : String}
    (hg : s.entries.get? id = some entry) (config : Option StopConfig) (atr : Option ℚ) :
    CallExact r s entry config atr := by
  obtain ⟨hcalled, hleft⟩ := called_spec hrules hs.grounded entry config atr
  refine ⟨hcalled.coverOf_le, fun result hresult l t config' atr' hrun c hc => ?_⟩
  obtain ⟨ht, hdue⟩ := calls_due hrules (hcalled.kept hs hg rfl rfl) hrun entry
  rcases (called_spec hrules ht.grounded entry config' atr').1.books with ⟨hnil, -⟩ | ⟨ref, child, hplaced, hpos, hle, -⟩
  · rw [hnil] at hc
    cases hc
  · rw [hplaced] at hc
    rw [List.mem_singleton.1 hc]
    exact ⟨hpos, hle.trans (hdue.trans (hleft result hresult))⟩

/-- **The bookkeeping of protection never over-covers**, whatever calls, fills and events of children there have been. -/
theorem protection_never_overcovers (hrules : ∀ rule ∈ r.rules, rule.OnlyShrinks) (hdigest : Function.Injective r.digest)
    {s t : Ledger β σ} {l : List Event} (hs : Fresh s) (h : Run (Step r) s l t) :
    Exact r t ∧ ∀ id entry config atr, t.entries.get? id = some entry → CallExact r t entry config atr := by
  have ht := run_invariant (Kept r) (fun _ _ _ hu hstep => step_kept hrules hu hstep) hs.kept h
  exact ⟨ht.exact hdigest, fun id entry config atr hg => ht.call hrules hg config atr⟩

/-! ## A child that a rule shrinks -/

open StopRatchet (openRouter bought fivePct heldDesk)

def pieceCode : Piece → List ℕ ⊕ ℚ ⊕ ℤ
  | .lit s => .inl (s.toList.map Char.toNat)
  | .dec x => .inr (.inl x)
  | .ts t => .inr (.inr t)

theorem pieceCode_injective : Function.Injective pieceCode := by
  intro a b h
  cases a <;> cases b <;> simp only [pieceCode, Sum.inl.injEq, Sum.inr.injEq, reduceCtorEq] at h
  · rename_i s t
    have hlist := List.map_injective_iff.2 (fun _ _ => Char.toNat_inj.1) h
    rw [String.toList_inj.1 hlist]
  · rw [h]
  · rw [h]

/-- One digest for one list of pieces. -/
def tally (pieces : List Piece) : String := String.ofList (List.replicate (Encodable.encode (pieces.map pieceCode)) 'k')

theorem tally_injective : Function.Injective tally := by
  intro a b h
  have hlength := congrArg List.length (String.ofList_injective h)
  rw [List.length_replicate, List.length_replicate] at hlength
  exact List.map_injective_iff.2 pieceCode_injective (Encodable.encode_injective hlength)

def tallyRouter : OrderRouter Unit Unit Unit := { openRouter with digest := tally }

/-- A rule that lets no order be for more than six. -/
def sixAtMost : RiskRule Unit Unit where
  name := "six_at_most"
  check o _ _ s := ({ approved := true, adjustedQty := if 6 < o.qty then some ⟨6, by norm_num⟩ else none }, s)

theorem sixAtMost_onlyShrinks : sixAtMost.OnlyShrinks := by
  intro o _ _ _ q hq
  simp only [sixAtMost] at hq
  split at hq
  · rename_i h
    rw [← Option.some.inj hq]
    exact h.le
  · cases hq

/-- Ten shares bought and held, nothing covered. -/
def heldLedger : Ledger Unit Unit where
  desk := heldDesk
  entries := Dict.empty.set "e-1" (bought "e-1" 10 100)

theorem heldLedger_fresh : Fresh heldLedger := by
  refine ⟨fun s ref hr => by simp [refsOf, heldLedger, heldDesk] at hr, rfl, fun id entry h => ?_, rfl⟩
  unfold heldLedger at h
  rw [Dict.get?_set] at h
  split at h
  · rename_i hid
    rw [← Option.some.inj h]
    exact ⟨hid.symm, by decide⟩
  · cases h

def shrinkingRouter : OrderRouter Unit Unit Unit := { tallyRouter with rules := [sixAtMost] }

theorem shrinkingRouter_onlyShrinks : ∀ rule ∈ shrinkingRouter.rules, rule.OnlyShrinks := by
  intro rule h
  rw [List.mem_singleton.1 h]
  exact sixAtMost_onlyShrinks

/-- Called twice for a purchase of ten, the router covers six and then four. -/
theorem covered_in_two_calls : ∃ t, Run (Step shrinkingRouter) heldLedger
    [.protect "e-1" (some fivePct) none, .protect "e-1" (some fivePct) none] t ∧ t.parts.map Part.qty = [6, 4] ∧
      Exact shrinkingRouter t := by
  have hrun : Run (Step shrinkingRouter) heldLedger _ _ :=
    .cons (.protect "e-1" (some fivePct) none rfl) (.cons (.protect "e-1" (some fivePct) none rfl) (.nil _))
  exact ⟨_, hrun, by decide +kernel, (protection_never_overcovers shrinkingRouter_onlyShrinks tally_injective heldLedger_fresh hrun).1⟩

/-- **A call repeated with nothing new filled may place a stop**: the rule let six of ten through, and the next call covers
the other four. -/
theorem shrunk_child_topped_up : ¬ ∀ (r : OrderRouter Unit Unit Unit) (s t : Ledger Unit Unit) (l : List Event),
    (∀ rule ∈ r.rules, rule.OnlyShrinks) → Function.Injective r.digest → Fresh s → Run (Step r) s l t →
      ∀ id entry config atr, t.entries.get? id = some entry →
        placedBy (exec (r.submitProtectiveOrders entry config atr) (called r t entry config atr).desk).1 = [] := by
  intro h
  have hnone := h shrinkingRouter heldLedger heldLedger [] shrinkingRouter_onlyShrinks tally_injective heldLedger_fresh
    (.nil _) "e-1" (bought "e-1" 10 100) (some fivePct) none rfl
  have hlength := congrArg List.length hnone
  exact absurd hlength (by decide +kernel)

end Coverage
end Atp
