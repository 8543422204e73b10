import AlgoTrading.CloseOrders
import AlgoTrading.Equity
/-!
# FillLedger — the live book is the fold of the fills its orders record

Every call of `on_fill_event` either leaves the fills and the book alone or adds one fill to both, and it does so before
anything in it can raise.  What it places afterwards is new stops, under keys no tracked order carries, so an execution the
venue named is recorded once (`book_is_fold`); an execution without an id is recorded as often as it is delivered
(`unnamed_booked_twice`).
-/
namespace Atp
namespace FillLedger

open Raising RunnerState TradeUpdates RunnerFrames
open RunnerActs (atInstant)
open Coverage (stopKey coveredOf)

variable {β L σ ω : Type}

/-! ## The fills of a run -/

/-- What `on_fill_event` is called with, and the instant its router reads. -/
structure Call where
  now : ℤ
  atr : String → Option ℚ
  update : TradeUpdate

/-- The state a call leaves, whether it returned or raised. -/
def delivered (w : StrategyRunner β L σ ω) (c : Call) (s : RunnerState β σ ω) : RunnerState β σ ω :=
  (atInstant w c.now).after s (.fillEvent c.atr c.update)

def deliveries (w : StrategyRunner β L σ ω) (calls : List Call) (s : RunnerState β σ ω) : RunnerState β σ ω :=
  calls.foldl (fun s c => delivered w c s) s

/-- The fills the orders have and had not, each with its order. -/
def recordedBetween : List Order → List Order → List (Order × Fill)
  | _, [] => []
  | [], o :: after => o.fills.map (fun f => (o, f)) ++ recordedBetween [] after
  | b :: before, o :: after => (o.fills.drop b.fills.length).map (fun f => (o, f)) ++ recordedBetween before after

def recorded (s t : RunnerState β σ ω) : List (Order × Fill) := recordedBetween s.desk.heap t.desk.heap

/-- Every fill the orders of a run record, in the order they record them. -/
def recordings (w : StrategyRunner β L σ ω) : List Call → RunnerState β σ ω → List (Order × Fill)
  | [], _ => []
  | c :: rest, s => recorded s (delivered w c s) ++ recordings w rest (delivered w c s)

/-- What a fill takes out of cash. -/
def cost (e : Order × Fill) : ℚ := e.2.qty * e.2.price * e.1.side.sign + e.2.fee

/-- `apply_fill`, over fills. -/
def folded (p : Position) (l : List (Order × Fill)) : Except Exc Position :=
  l.foldlM (fun p e => (p.applyFill e.2 (e.2.qty * e.1.side.sign)).map Prod.fst) p

/-- **The book is the other with these fills folded in**: each has moved cash by its cost, and a position is the fold of
its symbol's fills, but for the levels a placement arms. -/
def Folds (b : Portfolio) (l : List (Order × Fill)) (b' : Portfolio) : Prop :=
  b'.cash = b.cash - (l.map cost).sum ∧ ∀ symbol,
    (folded (b.position symbol) (l.filter fun e => e.1.symbol = symbol)).map unlevelled = .ok (unlevelled (b'.position symbol))

/-- **An update that was booked is not booked again**: not by any call in any run, whatever lies between. -/
def BookedOnce (w : StrategyRunner β L σ ω) (s : RunnerState β σ ω) (u : TradeUpdate) : Prop :=
  ∀ (before between : List Call) (c c' : Call), c.update = u → c'.update = u →
    recorded (deliveries w before s) (delivered w c (deliveries w before s)) ≠ [] →
    recorded (deliveries w (before ++ c :: between) s) (delivered w c' (deliveries w (before ++ c :: between) s)) = []

theorem recordedBetween_self : ∀ l : List Order, recordedBetween l l = []
  | [] => rfl
  | o :: l => by
    rw [recordedBetween, List.drop_length, recordedBetween_self l]
    rfl

theorem recordedBetween_set : ∀ {l : List Order} {i : ℕ} {b : Order} (o : Order), l[i]? = some b →
    recordedBetween l (l.set i o) = (o.fills.drop b.fills.length).map (fun f => (o, f))
  | [], _, _, _, h => by cases h
  | c :: l, 0, b, o, h => by
    obtain rfl : c = b := Option.some.inj h
    rw [List.set_cons_zero, recordedBetween, recordedBetween_self, List.append_nil]
  | c :: l, i + 1, b, o, h => by
    rw [List.set_cons_succ, recordedBetween, List.drop_length, recordedBetween_set (l := l) o h]
    rfl

theorem recordedBetween_nil : ∀ l : List Order, recordedBetween [] l = l.flatMap fun o => o.fills.map (fun f => (o, f))
  | [] => rfl
  | o :: l => by rw [recordedBetween, recordedBetween_nil l, List.flatMap_cons]

/-- Objects that have not filled record nothing. -/
theorem recordedBetween_new : ∀ (l m : List Order) {n : List Order}, (∀ o ∈ n, o.fills = []) → l.length ≤ m.length →
    recordedBetween l (m ++ n) = recordedBetween l m
  | [], m, n, h, _ => by
    have hnone : n.flatMap (fun o => o.fills.map (fun f => (o, f))) = [] := by
      apply List.flatMap_eq_nil_iff.2
      intro o ho
      rw [h o ho, List.map_nil]
    rw [recordedBetween_nil, recordedBetween_nil, List.flatMap_append, hnone, List.append_nil]
  | b :: l, [], _, _, hle => by cases hle
  | b :: l, o :: m, n, h, hle => by
    rw [List.cons_append, recordedBetween, recordedBetween, recordedBetween_new l m h (Nat.le_of_succ_le_succ hle)]

/-! ## The keys of the stops still to be placed -/

/-- Each order is tracked under its own key. -/
def Keyed (s : RunnerState β σ ω) : Prop :=
  ∀ key ref, s.openOrders.get? key = some ref → ∃ o, s.desk.heap[ref]? = some o ∧ o.clientOrderId = key

/-- **No stop is still to be placed under this key**: it names no range past what is covered of an entry. -/
def Reserved (r : OrderRouter β L σ) (s : RunnerState β σ ω) (key : String) : Prop :=
  ∀ k ref entry, s.openOrders.get? k = some ref → s.desk.heap[ref]? = some entry → entry.parentOrderId = none →
    ∀ a b, coveredOf s.desk entry ≤ a → stopKey r entry.clientOrderId a b ≠ key

/-- **`_covered` accounts for the stops that are tracked**: none of their keys is still to be used. -/
structure Accounted (r : OrderRouter β L σ) (s : RunnerState β σ ω) : Prop where
  keyed : Keyed s
  reserved : ∀ key ref, s.openOrders.get? key = some ref → Reserved r s key

/-- The keys still belong to whom they did. -/
structure KeepsKeys (r : OrderRouter β L σ) (s t : RunnerState β σ ω) : Prop where
  accounted : Accounted r t
  reserved : ∀ key, Reserved r s key → Reserved r t key
  openOrders : ∀ key, Reserved r s key → ∀ ref, t.openOrders.get? key = some ref → s.openOrders.get? key = some ref

section keys
variable {r : OrderRouter β L σ} {s t v : RunnerState β σ ω}

theorem KeepsKeys.trans (h : KeepsKeys r s t) (h' : KeepsKeys r t v) : KeepsKeys r s v :=
  ⟨h'.accounted, fun key hkey => h'.reserved key (h.reserved key hkey),
    fun key hkey ref href => h.openOrders key hkey ref (h'.openOrders key (h.reserved key hkey) ref href)⟩

/-- The objects keep what their keys are made from, and nothing is newly tracked. -/
theorem Accounted.keeps (hs : Accounted r s)
    (hopen : ∀ key ref, t.openOrders.get? key = some ref → s.openOrders.get? key = some ref)
    (hcovered : t.desk.covered = s.desk.covered)
    (hobjects : ∀ (ref : Ref) (o : Order), s.desk.heap[ref]? = some o → ∃ o' : Order, t.desk.heap[ref]? = some o' ∧
      o'.clientOrderId = o.clientOrderId ∧ o'.id = o.id ∧ o'.parentOrderId = o.parentOrderId) : KeepsKeys r s t := by
  have hreserved (key : String) (hkey : Reserved r s key) : Reserved r t key := by
    intro k ref entry href hentry hparent a b ha
    obtain ⟨o, ho, -⟩ := hs.keyed k ref (hopen k ref href)
    obtain ⟨o', ho', hcid, hid, hchild⟩ := hobjects ref o ho
    obtain rfl : entry = o' := Option.some.inj (hentry.symm.trans ho')
    rw [hcid]
    refine hkey k ref o (hopen k ref href) ho (hchild ▸ hparent) a b ?_
    unfold coveredOf at ha ⊢
    rwa [hcovered, hid] at ha
  refine ⟨⟨fun key ref href => ?_, fun key ref href => hreserved key (hs.reserved key ref (hopen key ref href))⟩, hreserved,
    fun key _ => hopen key⟩
  obtain ⟨o, ho, hkey⟩ := hs.keyed key ref (hopen key ref href)
  obtain ⟨o', ho', hcid, -⟩ := hobjects ref o ho
  exact ⟨o', ho', hcid.trans hkey⟩

/-- **A stop that is placed takes a key no tracked order has**, and none that is placed later has it. -/
theorem Accounted.placed (hdigest : Function.Injective r.digest) (hs : Accounted r s) {ref place : Ref} {entry child : Order}
    {coveredTo : ℚ} {l : List Order} (htracked : s.openOrders.get? entry.clientOrderId = some ref)
    (hentry : s.desk.heap[ref]? = some entry) (hparent : entry.parentOrderId = none) (hqty : 0 < child.qty)
    (hkey : child.clientOrderId = stopKey r entry.clientOrderId (coveredOf s.desk entry) coveredTo)
    (hchild : t.desk.heap[place]? = some child) (hstop : child.parentOrderId.isSome = true)
    (hcovered : t.desk.covered = s.desk.covered.set entry.id (coveredOf s.desk entry + child.qty))
    (hheap : t.desk.heap = s.desk.heap ++ l) (hopen : t.openOrders = s.openOrders.set child.clientOrderId place) :
    KeepsKeys r s t := by
  have hfree (key : String) (h : Reserved r s key) : key ≠ child.clientOrderId := by
    rw [hkey]
    exact (h _ ref entry htracked hentry hparent _ _ le_rfl).symm
  have hobject {k : Ref} {o : Order} (ho : s.desk.heap[k]? = some o) : t.desk.heap[k]? = some o := by
    rw [hheap, List.getElem?_append_left (List.getElem?_eq_some_iff.1 ho).1, ho]
  -- an entry tracked afterwards was tracked before, and no less of it is covered
  have hbefore (k : String) (ref' : Ref) (e : Order) (href : t.openOrders.get? k = some ref')
      (he : t.desk.heap[ref']? = some e) (hnone : e.parentOrderId = none) :
      s.openOrders.get? k = some ref' ∧ s.desk.heap[ref']? = some e ∧ coveredOf s.desk e ≤ coveredOf t.desk e := by
    have hold : s.openOrders.get? k = some ref' := by
      rw [hopen, Dict.get?_set] at href
      split at href
      · obtain rfl := Option.some.inj href
        obtain rfl : child = e := Option.some.inj (hchild.symm.trans he)
        rw [hnone] at hstop
        cases hstop
      · exact href
    obtain ⟨o, ho, -⟩ := hs.keyed k ref' hold
    obtain rfl : o = e := Option.some.inj ((hobject ho).symm.trans he)
    refine ⟨hold, ho, ?_⟩
    unfold coveredOf
    rw [hcovered, Dict.get?_set]
    split
    · rename_i hid
      rw [hid, Option.getD_some]
      exact le_add_of_nonneg_right hqty.le
    · exact le_rfl
  have hreserved (key : String) (h : Reserved r s key) : Reserved r t key := by
    intro k ref' e href he hnone a b ha
    obtain ⟨hold, ho, hle⟩ := hbefore k ref' e href he hnone
    exact h k ref' e hold ho hnone a b (hle.trans ha)
  have hnew : Reserved r t child.clientOrderId := by
    intro k ref' e href he hnone a b ha heq
    obtain ⟨hold, ho, -⟩ := hbefore k ref' e href he hnone
    rw [hkey] at heq
    have hpieces := hdigest heq
    simp only [List.cons.injEq, Piece.lit.injEq, Piece.dec.injEq, and_true, true_and] at hpieces
    obtain ⟨hcid, rfl, -⟩ := hpieces
    -- the entry of that name is the one that was protected, of which more is covered now
    obtain ⟨o, ho', hk⟩ := hs.keyed k ref' hold
    obtain rfl : o = e := Option.some.inj (ho'.symm.trans ho)
    rw [← hk, hcid, htracked, Option.some.injEq] at hold
    subst hold
    obtain rfl : entry = o := Option.some.inj (hentry.symm.trans ho)
    have hmore : coveredOf t.desk entry = coveredOf s.desk entry + child.qty := by
      unfold coveredOf
      rw [hcovered, Dict.get?_set_self, Option.getD_some]
      rfl
    rw [hmore] at ha
    exact absurd ha (not_le.2 (lt_add_of_pos_right _ hqty))
  refine ⟨⟨fun key ref' href => ?_, fun key ref' href => ?_⟩, hreserved, fun key h ref' href => ?_⟩
  · rw [hopen, Dict.get?_set] at href
    split at href
    · rename_i heq
      exact ⟨child, Option.some.inj href ▸ hchild, heq.symm⟩
    · obtain ⟨o, ho, hk⟩ := hs.keyed key ref' href
      exact ⟨o, hobject ho, hk⟩
  · rw [hopen, Dict.get?_set] at href
    split at href
    · rename_i heq
      exact heq ▸ hnew
    · exact hreserved key (hs.reserved key ref' href)
  · rwa [hopen, Dict.get?_set, if_neg (hfree key h)] at href

end keys

/-! ## One call -/

/-- What a call does once its fill is in the book: levels are armed, stops placed, orders retired. -/
structure Tail (r : OrderRouter β L σ) (s t : RunnerState β σ ω) : Prop where
  ledger : SameLedger s.desk.portfolio t.desk.portfolio
  grown : Grown NewStop s.desk t.desk
  keys : Function.Injective r.digest → Accounted r s → KeepsKeys r s t

section tail
variable {r : OrderRouter β L σ} {s t v : RunnerState β σ ω}

theorem Grown.trans {A : Order → Prop} {d e f : Desk β σ} (h : Grown A d e) (h' : Grown A e f) : Grown A d f := by
  obtain ⟨l, hl, hall⟩ := h
  obtain ⟨l', hl', hall'⟩ := h'
  refine ⟨l ++ l', by rw [hl', hl, List.append_assoc], fun o ho => ?_⟩
  exact (List.mem_append.1 ho).elim (hall o) (hall' o)

theorem Tail.trans (h : Tail r s t) (h' : Tail r t v) : Tail r s v :=
  ⟨h.ledger.trans h'.ledger, Grown.trans h.grown h'.grown,
    fun hdigest hs => (h.keys hdigest hs).trans (h'.keys hdigest (h.keys hdigest hs).accounted)⟩

/-- Objects are added, and nothing is newly tracked. -/
theorem Tail.of_grown (hledger : SameLedger s.desk.portfolio t.desk.portfolio) (hgrown : Grown NewStop s.desk t.desk)
    (hcovered : t.desk.covered = s.desk.covered)
    (hopen : ∀ key ref, t.openOrders.get? key = some ref → s.openOrders.get? key = some ref) : Tail r s t := by
  refine ⟨hledger, hgrown, fun _ hs => hs.keeps hopen hcovered fun ref o ho => ?_⟩
  obtain ⟨l, hl, -⟩ := hgrown
  have hlt := (List.getElem?_eq_some_iff.1 ho).1
  exact ⟨o, by rw [hl, List.getElem?_append_left hlt, ho], rfl, rfl, rfl⟩

theorem Tail.refl (r : OrderRouter β L σ) (s : RunnerState β σ ω) : Tail r s s :=
  .of_grown (.refl _) ⟨[], by simp⟩ rfl fun _ _ h => h

theorem tail_ofBooks (s : RunnerState β σ ω) : OfBooks (Tail r s) := by
  intro t v hheap hbook hcovered hopen h
  refine h.trans (.of_grown (by rw [hbook]; exact .refl _) ⟨[], by rw [hheap, List.append_nil], by simp⟩ hcovered fun _ _ hk => ?_)
  rwa [hopen] at hk

theorem tail_erase (h : Tail r s t) (key : String) : Tail r s { t with openOrders := t.openOrders.erase key } := by
  refine h.trans (.of_grown (.refl _) ⟨[], by simp⟩ rfl fun k ref href => ?_)
  rw [Dict.get?_erase] at href
  split at href
  · cases href
  · exact href

variable {w : StrategyRunner β L σ ω} {u : TradeUpdate}

/-- **The stop of a tracked entry is tracked under a key of its own.** -/
theorem triple_placed (ref : Ref) (order : Order) (config : Option StopConfig)
    (atr : Option ℚ) :
    Triple (fun t => Tail w.router s t ∧ At u ref order t) (onDesk (w.router.submitProtectiveOrders order config atr))
      (fun result t => Tail w.router s (result.placed.foldl (fun t c => t.track c.1 c.2) t)) (fun _ => Tail w.router s) := by
  refine triple_within fun t ht => ?_
  obtain ⟨htail, hobject, htracked, hnamed⟩ := ht
  have hgrown (e : Desk β σ) (hheap : Grown NewStop t.desk e) (hbook : SameLedger t.desk.portfolio e.portfolio)
      (hcovered : e.covered = t.desk.covered) : Tail w.router s { t with desk := e } :=
    htail.trans (.of_grown hbook hheap hcovered fun _ _ h => h)
  refine triple_conseq (triple_and (triple_and (Moves.triple_submitProtectiveOrders (fun _ => True) trivial order config atr)
    (triple_covers order config atr)) (triple_and (keeps_grown (d := t.desk) order config atr)
    (keeps_ledger (b := t.desk.portfolio) order config atr)))
    (fun e he => ⟨⟨he, he⟩, ⟨[], by simp [he]⟩, he ▸ .refl _⟩) (fun result e h => ?_)
    (fun _ e h => hgrown e h.2.1 h.2.2 h.1.2)
  obtain ⟨⟨hplaced, hcovers⟩, hheap, hbook⟩ := h
  rcases hcovers with ⟨hnone, hcovered⟩ | ⟨place, child, coveredTo, hone, hparent, hqty, hkey, hcovered⟩
  · rw [hnone]
    exact hgrown e hheap hbook hcovered
  · rcases hplaced with ⟨hnone, -⟩ | ⟨d, o, hled, hput, hwhere⟩
    · rw [hnone] at hone
      cases hone
    rw [hput, List.cons.injEq, Prod.mk.injEq] at hone
    obtain ⟨⟨rfl, rfl⟩, -⟩ := hone
    have ho : e.heap[d.heap.length]? = some o := by rw [hwhere.heap]; simp
    have hopen : o.isComplete = false := by rw [Order.isComplete, hwhere.status]; rfl
    obtain ⟨l, hl, hall⟩ := hheap
    have hstop : o.parentOrderId.isSome = true := by
      have hprefix : t.desk.heap <+: d.heap := (hled .empty).1
      have hnew := ho
      rw [hl, List.getElem?_append_right hprefix.length_le] at hnew
      exact (hall o (List.mem_of_getElem? hnew)).child
    rw [hput]
    refine htail.trans ⟨?_, ?_, fun hdigest hs => ?_⟩ <;> unfold RunnerState.track <;> rw [List.foldl_cons, List.foldl_nil, hopen]
    · exact hbook
    · exact ⟨l, hl, hall⟩
    · exact hs.placed (l := l) hdigest (hnamed ▸ htracked) hobject hparent hqty hkey ho hstop hcovered hl rfl

/-- **A call is its update and its fill**, and what follows leaves the fills and the cash alone. -/
theorem triple_call (atr : String → Option ℚ) (u : TradeUpdate) (s : RunnerState β σ ω) :
    Triple (fun t => t = s) (w.onFillEvent atr u) (fun _ t => ∃ m, Taken s u m ∧ Tail w.router m t)
      (fun _ t => ∃ m, Taken s u m ∧ Tail w.router m t) := by
  have hI : OfBooks (fun t : RunnerState β σ ω => ∃ m, Taken s u m ∧ Tail w.router m t) := by
    rintro t t' hheap hbook hcovered hopen ⟨m, hm, h⟩
    exact ⟨m, hm, tail_ofBooks m t t' hheap hbook hcovered hopen h⟩
  refine triple_onFillEvent hI (fun ref order => ?_) (fun t key h => ?_) fun m hm => ⟨m, hm, .refl _ m⟩
  · refine Moves.triple_protect w hI.core (fun t h => h.1) fun t ht _ _ => ?_
    obtain ⟨⟨m, hm, htail⟩, hat⟩ := ht
    exact triple_conseq (triple_placed ref order (some w.stopConfig) (atr order.symbol)) (fun v hv => by rw [hv]; exact ⟨htail, hat⟩)
      (fun _ _ h => ⟨m, hm, h⟩) (fun _ _ h => ⟨m, hm, h⟩)
  · obtain ⟨m, hm, htail⟩ := h
    exact ⟨m, hm, tail_erase htail key⟩

end tail

/-! ## What a call records -/

section call
variable {w : StrategyRunner β L σ ω} {s t m : RunnerState β σ ω} {u : TradeUpdate}

/-- The fill a call records: of the order its update names, that it takes, and in the book. -/
structure Records (s : RunnerState β σ ω) (u : TradeUpdate) (m : RunnerState β σ ω) (o : Order) (fill : Fill) : Prop where
  takes : ∃ before, (∃ ref, s.tracked u.clientOrderId = some (ref, before) ∧ m.desk.heap[ref]? = some o) ∧
    Takes u before fill ∧ o.fills = before.fills ++ [fill]
  book : s.desk.portfolio.applyToPortfolio o fill = .ok m.desk.portfolio

/-- **One update records one fill, and books it, or neither.** -/
theorem Taken.recorded (h : Taken s u m) :
    (FillLedger.recorded s m = [] ∧ m.desk.portfolio = s.desk.portfolio) ∨
      ∃ o fill, FillLedger.recorded s m = [(o, fill)] ∧ Records s u m o fill := by
  cases h with
  | dropped => exact .inl ⟨recordedBetween_self _, rfl⟩
  | @updated ref before o hfound _ hfills _ =>
    refine .inl ⟨?_, rfl⟩
    have hset := recordedBetween_set o (Moves.tracked_some hfound).2
    rw [hfills, List.drop_length] at hset
    exact hset
  | @filled ref before o fill book hfound htakes hupdated hfills hqty hbook =>
    have hbefore := (Moves.tracked_some hfound).2
    refine .inr ⟨_, _, ?_, ⟨_, ⟨_, hfound, List.getElem?_set_self (List.getElem?_eq_some_iff.1 hbefore).1⟩, htakes, hfills⟩, hbook⟩
    have hset := recordedBetween_set o hbefore
    rw [hfills, List.drop_left] at hset
    exact hset

theorem taken_length (h : Taken s u m) : m.desk.heap.length = s.desk.heap.length := by
  cases h with
  | dropped => rfl
  | updated => exact List.length_set
  | filled => exact List.length_set

theorem Tail.recorded (htaken : Taken s u m) (h : Tail w.router m t) : FillLedger.recorded s t = FillLedger.recorded s m := by
  obtain ⟨l, hl, hall⟩ := h.grown
  unfold FillLedger.recorded
  rw [hl]
  exact recordedBetween_new _ _ (fun o ho => (hall o ho).fills) (taken_length htaken).ge

end call

/-! ## The book -/

section book
variable {w : StrategyRunner β L σ ω} {s : RunnerState β σ ω} {p q : Position}

theorem delivered_taken (w : StrategyRunner β L σ ω) (c : Call) (s : RunnerState β σ ω) :
    ∃ m, Taken s c.update m ∧ Tail (atInstant w c.now).router m (delivered w c s) :=
  triple_left (triple_call c.atr c.update s) rfl

theorem unlevelled_settled (h : unlevelled p = unlevelled q) (f : Fill) (x : ℚ) :
    unlevelled (p.settled f x) = unlevelled (q.settled f x) := by
  have hfields (p : Position) : unlevelled (p.settled f x) = unlevelled ((unlevelled p).settled f x) := by
    unfold Position.settled
    dsimp only
    by_cases hflat : p.qty + x = 0
    · rw [if_pos hflat, if_pos (show (unlevelled p).qty + x = 0 from hflat)]
      rfl
    · rw [if_neg hflat, if_neg (show ¬ (unlevelled p).qty + x = 0 from hflat)]
      rfl
  rw [hfields, h, ← hfields]

/-- `apply_fill` reads no level. -/
theorem unlevelled_folded : ∀ (l : List (Order × Fill)) {p q : Position}, unlevelled p = unlevelled q →
    (folded p l).map unlevelled = (folded q l).map unlevelled
  | [], _, _, h => congrArg Except.ok h
  | e :: l, p, q, h => by
    have happly (p : Position) : folded p (e :: l) =
        ((p.applyFill e.2 (e.2.qty * e.1.side.sign)).map Prod.fst).bind fun p => folded p l := rfl
    rw [happly, happly]
    unfold Position.applyFill
    split
    · rfl
    split
    · rfl
    split
    · rfl
    · exact unlevelled_folded l (unlevelled_settled h _ _)

theorem folded_append (p : Position) (l l' : List (Order × Fill)) :
    folded p (l ++ l') = (folded p l).bind fun q => folded q l' := List.foldlM_append

theorem Folds.of_ledger {b b' : Portfolio} (h : SameLedger b b') : Folds b [] b' := by
  refine ⟨by rw [h.1, List.map_nil, List.sum_nil, sub_zero], fun symbol => ?_⟩
  rw [h.2 symbol]
  rfl

theorem Folds.trans {b b' b'' : Portfolio} {l l' : List (Order × Fill)} (h : Folds b l b') (h' : Folds b' l' b'') :
    Folds b (l ++ l') b'' := by
  refine ⟨?_, fun symbol => ?_⟩
  · rw [h'.1, h.1, List.map_append, List.sum_append]
    ring
  · rw [List.filter_append, folded_append]
    have hleft := h.2 symbol
    cases hq : folded (b.position symbol) (l.filter fun e => e.1.symbol = symbol) with
    | error e =>
      rw [hq] at hleft
      cases hleft
    | ok q =>
      rw [hq] at hleft
      rw [← h'.2 symbol]
      exact unlevelled_folded _ (Except.ok.inj hleft)

/-- A fill that reaches the book is folded into it. -/
theorem Folds.single {b b' : Portfolio} {o : Order} {f : Fill} (h : b.applyToPortfolio o f = .ok b') :
    Folds b [(o, f)] b' := by
  unfold Portfolio.applyToPortfolio at h
  cases hf : (b.position o.symbol).applyFill f (f.qty * o.side.sign) with
  | error e => simp [hf] at h
  | ok r =>
    simp only [hf, Except.ok.injEq] at h
    subst h
    refine ⟨by rw [List.map_singleton, List.sum_singleton]; rfl, fun symbol => ?_⟩
    show _ = Except.ok (unlevelled ((b.setPosition o.symbol r.1).position symbol))
    rw [position_setPosition]
    by_cases hsym : o.symbol = symbol
    · subst hsym
      rw [if_pos rfl, List.filter_cons_of_pos (by simp), List.filter_nil]
      show Except.map unlevelled (((Position.applyFill _ _ _).map Prod.fst).bind fun p => folded p []) = _
      rw [hf]
      rfl
    · rw [if_neg (Ne.symm hsym), List.filter_cons_of_neg (by simp [hsym]), List.filter_nil]
      rfl

theorem delivered_folds (w : StrategyRunner β L σ ω) (c : Call) (s : RunnerState β σ ω) :
    Folds s.desk.portfolio (FillLedger.recorded s (delivered w c s)) (delivered w c s).desk.portfolio := by
  obtain ⟨m, htaken, htail⟩ := delivered_taken w c s
  rw [Tail.recorded htaken htail]
  rcases Taken.recorded htaken with ⟨hnone, hbook⟩ | ⟨o, fill, hone, hrecords⟩
  · rw [hnone]
    exact .of_ledger (hbook ▸ htail.ledger)
  · rw [hone]
    exact (Folds.single hrecords.book).trans (.of_ledger htail.ledger)

theorem deliveries_folds (w : StrategyRunner β L σ ω) : ∀ (calls : List Call) (s : RunnerState β σ ω),
    Folds s.desk.portfolio (recordings w calls s) (deliveries w calls s).desk.portfolio
  | [], _ => .of_ledger (.refl _)
  | c :: rest, s => (delivered_folds w c s).trans (deliveries_folds w rest (delivered w c s))

end book

/-! ## An execution is recorded once -/

/-- The order of a key has this execution, and no other order takes the key. -/
def Seen (r : OrderRouter β L σ) (s : RunnerState β σ ω) (key : String) (v : VenueFillId) : Prop :=
  Reserved r s key ∧ ∀ ref (o : Order), s.openOrders.get? key = some ref → s.desk.heap[ref]? = some o →
    ∃ f ∈ o.fills, f.venueFillId = some v

section once
variable {w : StrategyRunner β L σ ω} {s m t : RunnerState β σ ω} {u : TradeUpdate} {key : String} {v : VenueFillId}

theorem alreadySeen_of_mem {o : Order} {f g : Fill} (hg : g ∈ o.fills) (hgv : g.venueFillId = some v)
    (hf : f.venueFillId = some v) : alreadySeen o f = true := by
  unfold alreadySeen
  rw [hf]
  exact List.any_eq_true.2 ⟨g, hg, by rw [hgv]; exact beq_self_eq_true _⟩

/-- An update replaces its order by one that has its fills. -/
theorem taken_object (h : Taken s u m) : m.openOrders = s.openOrders ∧ m.desk.covered = s.desk.covered ∧
    ∀ (ref : Ref) (o : Order), s.desk.heap[ref]? = some o → ∃ o' : Order, m.desk.heap[ref]? = some o' ∧
      (o'.clientOrderId = o.clientOrderId ∧ o'.id = o.id ∧ o'.parentOrderId = o.parentOrderId) ∧ ∀ f ∈ o.fills, f ∈ o'.fills := by
  have hput {ref : Ref} {before o' : Order} (hbefore : s.desk.heap[ref]? = some before) (hupdated : Updated before o')
      (hfills : ∀ f ∈ before.fills, f ∈ o'.fills) (k : Ref) (o : Order) (ho : s.desk.heap[k]? = some o) :
      ∃ o'' : Order, (s.desk.heap.set ref o')[k]? = some o'' ∧
        (o''.clientOrderId = o.clientOrderId ∧ o''.id = o.id ∧ o''.parentOrderId = o.parentOrderId) ∧
        ∀ f ∈ o.fills, f ∈ o''.fills := by
    by_cases heq : ref = k
    · subst heq
      obtain rfl : before = o := Option.some.inj (hbefore.symm.trans ho)
      have hset : (s.desk.heap.set ref o')[ref]? = some o' :=
        List.getElem?_set_self (List.getElem?_eq_some_iff.1 hbefore).1
      exact ⟨o', hset, ⟨hupdated.key, hupdated.ids⟩, hfills⟩
    · exact ⟨o, by rw [List.getElem?_set_ne heq, ho], ⟨rfl, rfl, rfl⟩, fun _ h => h⟩
  cases h with
  | dropped => exact ⟨rfl, rfl, fun _ o ho => ⟨o, ho, ⟨rfl, rfl, rfl⟩, fun _ h => h⟩⟩
  | updated hfound hupdated hfills _ =>
    exact ⟨rfl, rfl, hput (Moves.tracked_some hfound).2 hupdated fun f hf => hfills ▸ hf⟩
  | filled hfound _ hupdated hfills _ _ =>
    exact ⟨rfl, rfl, hput (Moves.tracked_some hfound).2 hupdated fun f hf => hfills ▸ List.mem_append_left _ hf⟩

variable {r : OrderRouter β L σ}

theorem taken_keys (hs : Accounted r s) (h : Taken s u m) : KeepsKeys r s m := by
  obtain ⟨hopen, hcovered, hobjects⟩ := taken_object h
  refine hs.keeps (fun key ref href => hopen ▸ href) hcovered fun ref o ho => ?_
  obtain ⟨o', ho', hids, -⟩ := hobjects ref o ho
  exact ⟨o', ho', hids⟩

theorem taken_seen (hs : Accounted r s) (h : Taken s u m) (hseen : Seen r s key v) : Seen r m key v := by
  obtain ⟨hreserved, hfills⟩ := hseen
  obtain ⟨hopen, -, hobjects⟩ := taken_object h
  refine ⟨(taken_keys hs h).reserved key hreserved, fun ref o' href ho' => ?_⟩
  rw [hopen] at href
  obtain ⟨o, ho, -⟩ := hs.keyed key ref href
  obtain ⟨o'', ho'', -, hkept⟩ := hobjects ref o ho
  obtain rfl : o'' = o' := Option.some.inj (ho''.symm.trans ho')
  obtain ⟨f, hf, hv⟩ := hfills ref o href ho
  exact ⟨f, hkept f hf, hv⟩

theorem Tail.seen (hdigest : Function.Injective r.digest) (hm : Accounted r m) (h : Tail r m t) (hseen : Seen r m key v) :
    Seen r t key v := by
  obtain ⟨hreserved, hfills⟩ := hseen
  have hkeys := h.keys hdigest hm
  refine ⟨hkeys.reserved key hreserved, fun ref o' href ho' => ?_⟩
  have hold := hkeys.openOrders key hreserved ref href
  obtain ⟨o, ho, -⟩ := hm.keyed key ref hold
  obtain ⟨l, hl, -⟩ := h.grown
  rw [hl, List.getElem?_append_left (List.getElem?_eq_some_iff.1 ho).1, ho] at ho'
  obtain rfl := Option.some.inj ho'
  exact hfills ref o hold ho

/-- An instant is no part of a key. -/
theorem accounted_atInstant (now : ℤ) : Accounted (atInstant w now).router s ↔ Accounted w.router s :=
  ⟨fun h => ⟨h.keyed, h.reserved⟩, fun h => ⟨h.keyed, h.reserved⟩⟩

theorem seen_atInstant {now : ℤ} (hdigest : Function.Injective w.router.digest) (hm : Accounted w.router m)
    (h : Tail (atInstant w now).router m t) (hseen : Seen w.router m key v) : Seen w.router t key v :=
  Tail.seen (r := (atInstant w now).router) hdigest ((accounted_atInstant now).2 hm) h hseen

theorem delivered_accounted (hdigest : Function.Injective w.router.digest) (hs : Accounted w.router s) (c : Call) :
    Accounted w.router (delivered w c s) := by
  obtain ⟨m, htaken, htail⟩ := delivered_taken w c s
  have hm := (taken_keys hs htaken).accounted
  exact (accounted_atInstant c.now).1 (htail.keys hdigest ((accounted_atInstant c.now).2 hm)).accounted

theorem delivered_seen (hdigest : Function.Injective w.router.digest) (hs : Accounted w.router s) (c : Call)
    (hseen : Seen w.router s key v) : Seen w.router (delivered w c s) key v := by
  obtain ⟨m, htaken, htail⟩ := delivered_taken w c s
  have hm := (taken_keys hs htaken).accounted
  exact seen_atInstant hdigest hm htail (taken_seen hs htaken hseen)

theorem deliveries_accounted (hdigest : Function.Injective w.router.digest) : ∀ (calls : List Call) {s : RunnerState β σ ω},
    Accounted w.router s → Accounted w.router (deliveries w calls s)
  | [], _, hs => hs
  | c :: rest, _, hs => deliveries_accounted hdigest rest (delivered_accounted hdigest hs c)

theorem deliveries_seen (hdigest : Function.Injective w.router.digest) : ∀ (calls : List Call) {s : RunnerState β σ ω},
    Accounted w.router s → Seen w.router s key v → Seen w.router (deliveries w calls s) key v
  | [], _, _, h => h
  | c :: rest, _, hs, h =>
    deliveries_seen hdigest rest (delivered_accounted hdigest hs c) (delivered_seen hdigest hs c h)

/-- The execution a call records is one its order has seen. -/
theorem recorded_seen (hdigest : Function.Injective w.router.digest) (hs : Accounted w.router s) (c : Call) {f : Fill}
    (hf : c.update.fill = some f) (hv : f.venueFillId = some v) (hrecorded : recorded s (delivered w c s) ≠ []) :
    Seen w.router (delivered w c s) c.update.clientOrderId v := by
  obtain ⟨m, htaken, htail⟩ := delivered_taken w c s
  rw [Tail.recorded htaken htail] at hrecorded
  rcases Taken.recorded htaken with ⟨hnone, -⟩ | ⟨o, fill, -, hrecords⟩
  · exact absurd hnone hrecorded
  obtain ⟨before, ⟨ref, hfound, ho⟩, htakes, hfills⟩ := hrecords.takes
  obtain rfl : f = fill := Option.some.inj (hf.symm.trans htakes.brought)
  have hkeys := taken_keys hs htaken
  have href := (Moves.tracked_some hfound).1
  refine seen_atInstant hdigest hkeys.accounted htail
    ⟨hkeys.reserved _ (hs.reserved _ ref href), fun ref' o' href' ho' => ?_⟩
  rw [(taken_object htaken).1, href, Option.some.injEq] at href'
  subst href'
  obtain rfl : o = o' := Option.some.inj (ho.symm.trans ho')
  exact ⟨f, by rw [hfills]; simp, hv⟩

/-- An execution its order has seen is not recorded. -/
theorem seen_unrecorded (c : Call) {f : Fill} (hf : c.update.fill = some f) (hv : f.venueFillId = some v)
    (hseen : Seen w.router s c.update.clientOrderId v) : recorded s (delivered w c s) = [] := by
  obtain ⟨m, htaken, htail⟩ := delivered_taken w c s
  rw [Tail.recorded htaken htail]
  rcases Taken.recorded htaken with ⟨hnone, -⟩ | ⟨o, fill, -, hrecords⟩
  · exact hnone
  obtain ⟨before, ⟨ref, hfound, -⟩, htakes, -⟩ := hrecords.takes
  obtain rfl : f = fill := Option.some.inj (hf.symm.trans htakes.brought)
  obtain ⟨href, hbefore⟩ := Moves.tracked_some hfound
  obtain ⟨g, hg, hgv⟩ := hseen.2 ref before href hbefore
  have hdup := alreadySeen_of_mem hg hgv hv
  rw [htakes.unseen] at hdup
  cases hdup

theorem deliveries_append (before after : List Call) :
    deliveries w (before ++ after) s = deliveries w after (deliveries w before s) := List.foldl_append

theorem bookedOnce_of_named (hdigest : Function.Injective w.router.digest) (hs : Accounted w.router s) {f : Fill}
    (hf : u.fill = some f) (hv : f.venueFillId = some v) : BookedOnce w s u := by
  intro before between c c' hc hc' hrecorded
  subst hc
  have hstart := deliveries_accounted hdigest before hs
  have hseen := recorded_seen hdigest hstart c hf hv hrecorded
  rw [deliveries_append]
  refine seen_unrecorded c' (hc' ▸ hf) hv ?_
  rw [hc']
  exact deliveries_seen hdigest between (delivered_accounted hdigest hstart c) hseen

end once

/-- **The live book is the fold of the fills its orders record**, after every call of every run and whatever raised in it;
and an update with the venue's execution id that was booked is not booked again. -/
theorem book_is_fold (w : StrategyRunner β L σ ω) (s : RunnerState β σ ω) (calls : List Call) :
    Folds s.desk.portfolio (recordings w calls s) (deliveries w calls s).desk.portfolio ∧
      (Function.Injective w.router.digest → Accounted w.router s → ∀ (u : TradeUpdate) (f : Fill), u.fill = some f →
        f.venueFillId ≠ none → BookedOnce w s u) := by
  refine ⟨deliveries_folds w calls s, fun hdigest hs u f hf hv => ?_⟩
  obtain ⟨v, hv⟩ := Option.ne_none_iff_exists'.1 hv
  exact bookedOnce_of_named hdigest hs hf hv

open Tracking (runnerOf)
open ProtectionGaps (sentPurchase filledAt100)
open StopRatchet (openRouter)

/-- A purchase of ten is tracked. -/
def oneTracked : RunnerState Unit Unit Unit where
  desk := {
    portfolio := { cash := 2000, startingEquity := 2000, positions := .empty }, broker := (), risk := ()
    heap := [sentPurchase "e-1" 10] }
  store := ()
  openOrders := Dict.empty.set "e-1" 0

theorem oneTracked_accounted : Accounted Coverage.tallyRouter oneTracked := by
  have hone (key : String) (ref : Ref) (h : oneTracked.openOrders.get? key = some ref) : key = "e-1" ∧ ref = 0 := by
    change (Dict.empty.set "e-1" 0).get? key = some ref at h
    rw [Dict.get?_set] at h
    split at h
    · rename_i hkey
      exact ⟨hkey, (Option.some.inj h).symm⟩
    · cases h
  refine ⟨fun key ref href => ?_, fun key ref href => ?_⟩
  · obtain ⟨rfl, rfl⟩ := hone key ref href
    exact ⟨sentPurchase "e-1" 10, rfl, rfl⟩
  · obtain ⟨rfl, rfl⟩ := hone key ref href
    intro k ref' entry _ _ _ a b _ heq
    have hlist := congrArg String.toList heq
    have hmem : 'e' ∈ (Coverage.tally [.lit entry.clientOrderId, .lit Purpose.stopLoss.value, .dec a, .dec b]).toList := by
      change _ ∈ (stopKey Coverage.tallyRouter entry.clientOrderId a b).toList
      rw [hlist]
      simp
    unfold Coverage.tally at hmem
    rw [String.toList_ofList] at hmem
    exact absurd (List.eq_of_mem_replicate hmem) (by decide)

/-- The fill of a purchase of ten is booked by no second delivery. -/
theorem named_booked_once : BookedOnce (runnerOf Coverage.tallyRouter) oneTracked (filledAt100 "e-1" 10) :=
  (book_is_fold (runnerOf Coverage.tallyRouter) oneTracked []).2 Coverage.tally_injective oneTracked_accounted _ _ rfl
    (by decide)

/-- Half of the purchase, in a print the venue gave no id. -/
def halfUnnamed : TradeUpdate where
  event := "partial_fill"
  clientOrderId := "e-1"
  brokerOrderId := "e-1"
  symbol := "AAPL"
  «at» := 1
  status := some .partiallyFilled
  fill := some { orderId := "e-1", ts := 1, qty := 5, price := 100, fee := 0, venueFillId := none }

/-- Stops two average ranges away. -/
def atrRunner : StrategyRunner Unit Unit Unit Unit :=
  { runnerOf openRouter with stopConfig := { stopType := .atr, multiplier := some 2 } }

/-- **A print without an id is booked again**: its stop needs an average range that is not there, so the call raises with
the fill in the book, and the redelivery buys the same five shares.  And a fold of fills arms no stop. -/
theorem unnamed_booked_twice :
    (¬ ∀ (w : StrategyRunner Unit Unit Unit Unit) (s : RunnerState Unit Unit Unit) (c : Call),
      (exec ((atInstant w c.now).onFillEvent c.atr c.update) s).1.toOption = none → recorded s (delivered w c s) ≠ [] →
        recorded (delivered w c s) (delivered w c (delivered w c s)) = []) ∧
    ¬ ∀ (w : StrategyRunner Unit Unit Unit Unit) (s : RunnerState Unit Unit Unit) (calls : List Call) (symbol : String),
      folded (s.desk.portfolio.position symbol) ((recordings w calls s).filter fun e => e.1.symbol = symbol) =
        .ok ((deliveries w calls s).desk.portfolio.position symbol) := by
  refine ⟨fun h => ?_, fun h => ?_⟩
  · have hagain := h atrRunner oneTracked ⟨0, fun _ => none, halfUnnamed⟩ (by decide +kernel) (by decide +kernel)
    exact absurd hagain (by decide +kernel)
  · have harmed := h (runnerOf openRouter) oneTracked [⟨0, fun _ => none, filledAt100 "e-1" 10⟩] "AAPL"
    exact absurd (congrArg (fun x => (x.map Position.stopLossPrice).toOption) harmed) (by decide +kernel)

end FillLedger
end Atp
