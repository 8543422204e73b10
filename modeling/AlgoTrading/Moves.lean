import AlgoTrading.Rearm
import AlgoTrading.Runner
/-!
# Moves — the orders that the router and the runner share

An order is one object, which the router may keep as a child in `_protective` and the runner in `_open_orders`.  Every
call of the router, wherever it raises, is a sequence of moves on the objects, the two maps and the keys that work; of
which kinds is for what the venue answers to say.  What the moves keep is kept by the calls.
-/
namespace Atp
namespace Moves

open Raising Runs Coverage

/-- The order objects, and everything that refers to one by reference or by key. -/
structure Shelf where
  heap : List Order
  protective : Dict String (List Ref)
  openOrders : Dict String Ref
  working : List String
deriving DecidableEq

namespace Shelf

def refs (s : Shelf) (symbol : String) : List Ref := (s.protective.get? symbol).getD []

/-- One object more. -/
def grown (s : Shelf) (o : Order) : Shelf := { s with heap := s.heap ++ [o] }

/-- The newest object becomes a child. -/
def withChild (s : Shelf) (symbol : String) (ref : Ref) : Shelf :=
  { s with protective := s.protective.set symbol (s.refs symbol ++ [ref]) }

def withOpen (s : Shelf) (key : String) (ref : Ref) : Shelf := { s with openOrders := s.openOrders.set key ref }

def withWorking (s : Shelf) (key : String) : Shelf := { s with working := s.working ++ [key] }

end Shelf

inductive Move
  /-- Objects nobody refers to, and references dropped. -/
  | aside
  /-- An order the venue works, tracked. -/
  | accepted (o : Order)
  /-- An order the venue works, and a raise before it is tracked. -/
  | lapsed (o : Order)
  /-- A stop the venue works, tracked. -/
  | placed (symbol : String) (o : Order)
  /-- A stop the venue works again after a refused close. -/
  | rearmed (symbol : String) (o : Order)
  /-- A tracked object takes an update. -/
  | updated (ref : Ref) (o : Order)
  /-- A completed order leaves the working set. -/
  | retired (o : Order)
  | restored (o : Order)
  | adopted (ref : Ref) (o : Order)

/-- What sets no reference: objects are added, children dropped. -/
structure Aside (s t : Shelf) : Prop where
  heap : ∃ l, t.heap = s.heap ++ l
  children : ∀ symbol, ∀ ref ∈ t.refs symbol, ref ∈ s.refs symbol
  openOrders : t.openOrders = s.openOrders
  working : t.working = s.working

def Effect (s : Shelf) : Move → Shelf → Prop
  | .aside, t => Aside s t
  | .accepted o, t => o.isComplete = false ∧
      t = ((s.grown o).withWorking o.clientOrderId).withOpen o.clientOrderId s.heap.length
  | .lapsed o, t => t = (s.grown o).withWorking o.clientOrderId
  | .placed symbol o, t => o.isComplete = false ∧
      t = (((s.grown o).withWorking o.clientOrderId).withChild symbol s.heap.length).withOpen o.clientOrderId s.heap.length
  | .rearmed symbol o, t =>
      t = ((s.grown o).withWorking o.clientOrderId).withChild symbol s.heap.length
  | .updated ref o, t => (∃ key old, s.openOrders.get? key = some ref ∧ s.heap[ref]? = some old ∧
      old.clientOrderId = o.clientOrderId) ∧ t = { s with heap := s.heap.set ref o }
  | .retired o, t => o.isComplete = true ∧
      t = { s with openOrders := s.openOrders.erase o.clientOrderId, working := s.working.filter (· ≠ o.clientOrderId) }
  | .restored o, t => t = (s.grown o).withOpen o.clientOrderId s.heap.length
  | .adopted ref o, t => s.heap[ref]? = some o ∧ (∃ key, s.openOrders.get? key = some ref) ∧ t = s.withChild o.symbol ref

def moving (s : Shelf) (i : Move) (t : Shelf) : Prop := Effect s i t

variable {ok : Move → Prop}

/-- Moves of these kinds lead from one to the other, and change no object. -/
def Leads (ok : Move → Prop) (s t : Shelf) : Prop := s.heap <+: t.heap ∧ ∃ l, Run (guarded moving fun _ => ok) s l t

theorem Leads.refl (s : Shelf) : Leads ok s s := ⟨List.prefix_rfl, [], .nil s⟩

theorem Leads.trans {s t u : Shelf} (h : Leads ok s t) (h' : Leads ok t u) : Leads ok s u := by
  obtain ⟨hp, l, hl⟩ := h
  obtain ⟨hp', l', hl'⟩ := h'
  exact ⟨hp.trans hp', l ++ l', run_append_iff.2 ⟨t, hl, hl'⟩⟩

/-- The objects stay where they are. -/
theorem Leads.object {s t : Shelf} {ref : Ref} {o : Order} (h : Leads ok s t) (ho : s.heap[ref]? = some o) :
    t.heap[ref]? = some o := by
  obtain ⟨⟨l, hl⟩, -⟩ := h
  obtain ⟨hlt, -⟩ := List.getElem?_eq_some_iff.1 ho
  rw [← hl, List.getElem?_append_left hlt, ho]

theorem Effect.leads {s t : Shelf} {i : Move} (h : Effect s i t) (hi : ok i) (hp : s.heap <+: t.heap) : Leads ok s t :=
  ⟨hp, [i], .cons ⟨h, hi⟩ (.nil t)⟩

theorem Aside.leads (hok : ok .aside) {s t : Shelf} (h : Aside s t) : Leads ok s t :=
  Effect.leads (i := .aside) h hok (h.heap.imp fun _ hl => hl.symm)

/-! ## The router's calls -/

section desk

variable {β L σ : Type} {r : OrderRouter β L σ} {d e : Desk β σ}

/-- The desk's part of the shelf, beside a working set. -/
def onShelf (d : Desk β σ) (openOrders : Dict String Ref) : Shelf := ⟨d.heap, d.protective, openOrders, d.working⟩

/-- The desk has only been led by moves of these kinds. -/
def Led (ok : Move → Prop) (d e : Desk β σ) : Prop := ∀ openOrders, Leads ok (onShelf d openOrders) (onShelf e openOrders)

theorem Led.refl (d : Desk β σ) : Led ok d d := fun _ => .refl _

theorem Led.trans {f : Desk β σ} (h : Led ok d e) (h' : Led ok e f) : Led ok d f := fun openOrders => (h openOrders).trans (h' openOrders)

/-- Nothing on the shelf has moved but that children were dropped. -/
structure Pruned (d e : Desk β σ) : Prop where
  heap : e.heap = d.heap
  children : ∀ symbol, ∀ ref ∈ refsOf e symbol, ref ∈ refsOf d symbol
  working : e.working = d.working

theorem Pruned.led (hok : ok .aside) (h : Pruned d e) : Led ok d e := fun _ =>
  Aside.leads hok ⟨⟨[], by simp [onShelf, h.heap]⟩, h.children, rfl, h.working⟩

/-- An object more, that the venue works. -/
structure Worked (d : Desk β σ) (o : Order) (e : Desk β σ) : Prop where
  heap : e.heap = d.heap ++ [o]
  protective : e.protective = d.protective
  working : e.working = d.working ++ [o.clientOrderId]
  status : o.status = .submitted

/-- What a submission comes to: an order handed to the caller that the venue works, or moves alone. -/
def Told (ok : Move → Prop) (d : Desk β σ) (s : Submission) (e : Desk β σ) : Prop :=
  if s.result.submitted then ∃ u o, Led ok d u ∧ Worked u o e ∧ s.object = some u.heap.length ∧ s.result.order = some o
  else Led ok d e

theorem Led.told {f : Desk β σ} {s : Submission} (h : Led ok d e) (ht : Told ok e s f) : Told ok d s f := by
  unfold Told at ht ⊢
  split at ht
  · rename_i hsub
    obtain ⟨u, o, hu, hrest⟩ := ht
    rw [if_pos hsub]
    exact ⟨u, o, h.trans hu, hrest⟩
  · rename_i hsub
    rw [if_neg hsub]
    exact h.trans ht

/-- An order keeps its key. -/
theorem keyed_endures (r : OrderRouter β L σ) (key : String) : r.Endures (fun o => o.clientOrderId = key) where
  ticked _ h := h
  sized _ _ h _ _ := h
  moves _ _ _ _ _ h := h
  acknowledged _ _ h := h

/-- **One submission**: the venue works one object more, or an object nobody refers to is left. -/
theorem triple_sent (hok : ok .aside) (order : Order) (pending : List Order) :
    Triple (fun e => e = d) (r.send order pending)
      (fun s e => if s.result.submitted then ∃ o, Worked d o e ∧ s.object = some d.heap.length ∧ s.result.order = some o ∧
        o.clientOrderId = order.clientOrderId else Led ok d e)
      (fun _ e => Led ok d e) := by
  have hled (object : Order) (e : Desk β σ) (hs : OrderRouter.Sent d e object) (hw : e.working = d.working) : Led ok d e := by
    obtain ⟨b, risk, halts, w, rfl⟩ := hs
    exact fun _ => Aside.leads hok ⟨⟨[object], rfl⟩, fun _ _ h => h, rfl, hw⟩
  refine triple_conseq (r.triple_send (keyed_endures r order.clientOrderId) rfl pending d) (fun _ h => h) (fun s e h => ?_)
    (fun _ e h => ?_)
  · obtain ⟨object, hs, hw, hok⟩ := h
    split
    · rename_i hsub
      obtain ⟨ho, href, hstatus, hkey⟩ := hok hsub
      rw [if_pos hsub] at hw
      obtain ⟨b, risk, halts, w, rfl⟩ := hs
      exact ⟨object, ⟨rfl, rfl, by rw [hw, hkey], hstatus⟩, href, ho, hkey⟩
    · rename_i hsub
      rw [if_neg hsub, List.append_nil] at hw
      exact hled object e hs hw
  · obtain ⟨hw, object, hs⟩ := h
    exact hled object e hs hw

/-- The shelf is as it was. -/
def Same (d e : Desk β σ) : Prop := onShelf e .empty = onShelf d .empty

theorem Same.led (h : Same d e) : Led ok d e := by
  intro openOrders
  have hsame : onShelf e openOrders = onShelf d openOrders := by
    unfold Same onShelf at h
    unfold onShelf
    rw [Shelf.mk.injEq] at h ⊢
    exact ⟨h.1, h.2.1, rfl, h.2.2.2⟩
  rw [hsame]
  exact .refl _

theorem Same.pruned (h : Same d e) : Pruned d e := by
  unfold Same onShelf at h
  rw [Shelf.mk.injEq] at h
  obtain ⟨hheap, hprotective, -, hworking⟩ := h
  exact ⟨hheap, fun symbol ref hr => by unfold refsOf at hr ⊢; rwa [← hprotective], hworking⟩

theorem Told.of_sent {s : Submission} {f : Desk β σ} {k : String} (h : Led ok d e)
    (ht : if s.result.submitted then ∃ o, Worked e o f ∧ s.object = some e.heap.length ∧ s.result.order = some o ∧
      o.clientOrderId = k else Led ok e f) : Told ok d s f := by
  unfold Told
  split
  · rename_i hsub
    rw [if_pos hsub] at ht
    obtain ⟨o, hw, href, ho, -⟩ := ht
    exact ⟨e, o, h, hw, href, ho⟩
  · rename_i hsub
    rw [if_neg hsub] at ht
    exact h.trans ht

theorem told_refused {s : Submission} (hs : s.result.submitted = false) (h : Led ok d e) : Told ok d s e := by
  unfold Told
  rw [hs]
  exact h

theorem requestedQty_refused {request : OrderRequest} {portfolio : Portfolio} {refused : SubmitResult}
    (h : OrderRouter.requestedQty request portfolio = .ok (.inr refused)) : refused.submitted = false := by
  unfold OrderRouter.requestedQty at h
  cases hq : request.qty with
  | some qty => simp [hq] at h
  | none =>
    cases hn : request.notional with
    | none =>
      simp only [hq, hn, Except.ok.injEq, Sum.inr.injEq] at h
      rw [← h]
      rfl
    | some notional =>
      simp only [hq, hn] at h
      split at h
      · simp only [Except.ok.injEq, Sum.inr.injEq] at h
        rw [← h]
        rfl
      · split at h
        · simp only [Except.ok.injEq, Sum.inr.injEq] at h
          rw [← h]
          rfl
        · split at h
          · cases h
          · split at h
            · simp only [Except.ok.injEq, Sum.inr.injEq] at h
              rw [← h]
              rfl
            · simp at h

/-- **`submit`** hands over what the venue works. -/
theorem triple_submit (hok : ok .aside) (request : OrderRequest) (pending : List Order) :
    Triple (fun e => e = d) (r.submit request pending) (fun s e => Told ok d s e) (fun _ e => Led ok d e) := by
  unfold OrderRouter.submit
  refine triple_get_bind fun d₀ h₀ => ?_
  subst h₀
  refine triple_bind (R := fun q e => e = d₀ ∧ OrderRouter.requestedQty request d₀.portfolio = .ok q)
    (triple_fromExcept _ (fun q hq e he => ⟨he, hq⟩) (fun _ _ e he => he ▸ Led.refl e)) fun q => ?_
  cases q with
  | inr refused => exact triple_pure _ fun e he => told_refused (requestedQty_refused he.2) (he.1 ▸ Led.refl e)
  | inl qty =>
    refine triple_bind (R := fun _ => Same d₀) (triple_fromExcept _ (fun _ _ e he => he.1 ▸ rfl) (fun _ _ e he => he.1 ▸ Led.refl e))
      fun key => ?_
    refine triple_bind (R := fun _ => Same d₀) ?_ fun id => ?_
    · exact triple_conseq (r.keeps_draw fun e n h => h) (fun _ h => h) (fun _ _ h => h) (fun _ _ h => Same.led h)
    refine triple_bind (R := fun _ => Same d₀) (triple_fromExcept _ (fun _ _ _ h => h) (fun _ _ _ h => Same.led h)) fun order => ?_
    have hsend : Triple (Same d₀) (r.send order pending) (fun s e => Told ok d₀ s e) (fun _ e => Led ok d₀ e) := by
      refine triple_at fun e he => ?_
      exact triple_conseq (triple_sent hok order pending) (fun _ h => h) (fun s f h => .of_sent (Same.led he) h)
        (fun _ f h => (Same.led he).trans h)
    exact triple_ite (fun _ => triple_bind (R := fun _ => Same d₀) (triple_modify _ fun e h => h) fun _ => hsend) (fun _ => hsend)

/-- Cancels and reads leave the shelf alone. -/
theorem same_broker (e : Desk β σ) (b : β) (h : Same d e) : Same d { e with broker := b } := h

/-- The children that survive are children there were. -/
theorem triple_cancelEach : ∀ (l : List (Option Ref × Order)) (survivors : List Ref) (n : ℕ),
    Triple (Same d) (r.cancelEach l survivors n)
      (fun out e => Same d e ∧ ∀ ref ∈ out.1, ref ∈ survivors ∨ some ref ∈ l.map Prod.fst) (fun _ => Same d)
  | [], survivors, n => triple_pure _ fun e h => ⟨h, fun _ hr => .inl hr⟩
  | (ref, child) :: rest, survivors, n => by
    have hkeep (survivors' : List Ref) (hs : ∀ x ∈ survivors', x ∈ survivors ∨ some x = ref) (n : ℕ) :
        Triple (Same d) (r.cancelEach rest survivors' n)
          (fun out e => Same d e ∧ ∀ x ∈ out.1, x ∈ survivors ∨ some x ∈ ((ref, child) :: rest).map Prod.fst) (fun _ => Same d) := by
      refine triple_conseq (triple_cancelEach rest survivors' n) (fun _ h => h) (fun out e h => ⟨h.1, fun x hx => ?_⟩)
        (fun _ _ h => h)
      rcases h.2 x hx with hin | hin
      · exact (hs x hin).imp_right (fun heq => by simp [heq])
      · exact .inr (List.mem_cons_of_mem _ hin)
    unfold OrderRouter.cancelEach
    split
    · refine triple_bind (r.keeps_cancelled same_broker _) fun c => triple_ite (fun _ => ?_) (fun _ => ?_)
      · exact hkeep survivors (fun x hx => .inl hx) _
      · refine hkeep (survivors ++ ref.toList) (fun x hx => ?_) _
        rcases List.mem_append.1 hx with hx | hx
        · exact .inl hx
        · exact .inr (Option.mem_toList.1 hx).symm
    · exact hkeep survivors (fun x hx => .inl hx) _

/-- A symbol's children, fewer. -/
theorem pruned_setChildren {symbol : String} {refs : List Ref} (h : Same d e) (hrefs : ∀ ref ∈ refs, ref ∈ refsOf d symbol) :
    Pruned d (e.setChildren symbol refs) := by
  have hpruned := Same.pruned h
  refine ⟨hpruned.heap, fun other ref hr => ?_, hpruned.working⟩
  by_cases hs : other = symbol
  · subst hs
    unfold refsOf Desk.setChildren at hr
    by_cases hnil : refs.isEmpty = true
    · simp [hnil, Dict.get?_erase] at hr
    · simp only [if_neg hnil, Dict.get?_set_self, Option.getD_some] at hr
      exact hrefs ref hr
  · refine hpruned.children other ref ?_
    unfold refsOf Desk.setChildren at hr
    unfold refsOf
    by_cases hnil : refs.isEmpty = true
    · simpa [hnil, Dict.get?_erase, hs] using hr
    · simpa [hnil, Dict.get?_set_ne _ _ hs] using hr

theorem childRefs_mem {symbol : String} {ref : Ref} (h : ref ∈ (d.childRefs symbol).map Prod.fst) : ref ∈ refsOf d symbol := by
  obtain ⟨⟨ref', o⟩, hc, rfl⟩ := List.mem_map.1 h
  obtain ⟨ref'', hr, ho⟩ := List.mem_filterMap.1 hc
  obtain ⟨o', -, heq⟩ := Option.map_eq_some_iff.1 ho
  cases heq
  exact hr

theorem triple_inheritedProtection (symbol : String) (side : Option Side) (known : List String) :
    Triple (fun e => e = d) (r.inheritedProtection symbol side known) (fun _ => Same d) (fun _ => Pruned d) :=
  triple_conseq (r.keeps_inheritedProtection same_broker symbol side known) (fun _ h => h ▸ rfl) (fun _ _ h => h)
    (fun _ _ h => Same.pruned h)

/-- **`cancel_protection`** drops children. -/
theorem triple_cancelProtection (symbol : String) :
    Triple (fun e => e = d) (r.cancelProtection symbol) (fun _ => Pruned d) (fun _ => Pruned d) := by
  unfold OrderRouter.cancelProtection
  refine triple_get_bind fun d₀ h₀ => ?_
  subst h₀
  refine triple_bind (triple_inheritedProtection _ _ _) fun inherited => ?_
  refine triple_bind (triple_conseq (triple_cancelEach _ [] 0) (fun _ h => h) (fun _ _ h => h) (fun _ _ h => Same.pruned h))
    fun swept => ?_
  refine triple_bind (R := fun _ => Pruned d₀) (triple_modify _ fun e he => pruned_setChildren he.1 fun ref hr => ?_) fun _ =>
    triple_pure _ fun _ h => h
  rcases he.2 ref hr with hin | hin
  · cases hin
  · rw [List.map_append, List.mem_append] at hin
    rcases hin with hin | hin
    · refine childRefs_mem ?_
      simpa using hin
    · simp at hin

/-- **`_release_protection`** drops children. -/
theorem triple_releaseProtection (symbol : String) (closing : Side) :
    Triple (fun e => e = d) (r.releaseProtection symbol closing) (fun _ => Pruned d) (fun _ => Pruned d) := by
  unfold OrderRouter.releaseProtection
  refine triple_get_bind fun d₀ h₀ => ?_
  subst h₀
  refine triple_bind (triple_inheritedProtection _ _ _) fun inherited => ?_
  refine triple_ite (fun _ => triple_pure _ fun _ h => Same.pruned h) (fun _ => ?_)
  refine triple_bind (R := fun _ => Same d₀) ?_ fun released => ?_
  · exact triple_conseq (r.keeps_releaseEach same_broker (fun _ _ h => h) _ _) (fun _ h => h) (fun _ _ h => h)
      (fun _ _ h => Same.pruned h)
  refine triple_bind (R := fun _ => Pruned d₀) (triple_modify _ fun e he => pruned_setChildren he fun ref hr => ?_) fun _ =>
    triple_pure _ fun _ h => h
  obtain ⟨c, hc, rfl⟩ := List.mem_map.1 hr
  exact childRefs_mem (List.mem_map_of_mem (List.mem_filter.1 hc).1)

/-- One pass of `_rearm` puts a stop back that nobody tracks, or leaves moves alone. -/
theorem triple_rearmOne (hok : ok .aside) (symbol : String) (p : Position) (child : Order) (stopPrice qty : ℚ) :
    Triple (fun e => e = d) (Rearm.rearmOne r symbol p child stopPrice qty)
      (fun outcome e => (outcome.result.submitted = true → ∀ o, ok (.rearmed symbol o)) → Led ok d e) (fun _ e => Led ok d e) := by
  have hstart (e : Desk β σ) (h : e = d) : Led ok d e := h ▸ Led.refl e
  unfold Rearm.rearmOne
  refine triple_get_bind fun d₀ h₀ => ?_
  subst h₀
  refine triple_bind (R := fun _ e => e = d₀) (triple_fromExcept _ (fun _ _ _ h => h) (fun _ _ e h => hstart e h)) fun key => ?_
  refine triple_bind (R := fun _ => Same d₀) ?_ fun id => ?_
  · exact triple_conseq (r.keeps_draw (I := Same d₀) fun e n h => h) (fun _ h => h ▸ rfl) (fun _ _ h => h) (fun _ _ h => Same.led h)
  refine triple_bind (R := fun _ => Same d₀) (triple_fromExcept _ (fun _ _ _ h => h) (fun _ _ _ h => Same.led h)) fun order => ?_
  refine triple_at fun u hu => ?_
  have hled : Led ok d₀ u := Same.led hu
  refine triple_bind (triple_conseq (triple_sent hok order []) (fun _ h => h) (fun _ _ h => h) (fun _ e h => hled.trans h))
    fun outcome => triple_ite (fun hsub => ?_) (fun hsub => triple_pure _ fun e he _ => ?_)
  · refine triple_bind (R := fun _ e => (∀ o, ok (.rearmed symbol o)) → Led ok d₀ e) (triple_modify _ fun e he hput => ?_)
      fun _ => triple_pure _ fun e he hput => he (hput hsub)
    rw [if_pos hsub] at he
    obtain ⟨o, hw, href, -, hkey⟩ := he
    refine hled.trans fun openOrders => Effect.leads (i := .rearmed symbol o) ?_ (hput o) ⟨[o], by rw [href]; exact hw.heap.symm⟩
    rw [href]
    unfold Effect onShelf Shelf.withChild Shelf.withWorking Shelf.grown Shelf.refs
    simp [Desk.addChild, hw.heap, hw.protective, hw.working]
  · rw [if_neg hsub] at he
    exact hled.trans he

/-- **The loop of `_rearm`** puts back what the venue takes of it. -/
theorem rearmEach_led (hok : ok .aside) (symbol : String) (p : Position) : ∀ (l : List Order) (d : Desk β σ),
    (∀ qty, .took qty ∈ (Rearm.sendings r symbol p l d).filterMap (fun x => x.2.reply) → ∀ o, ok (.rearmed symbol o)) →
      Led ok d (exec (r.rearmEach symbol p l) d).2
  | [], d, _ => Led.refl d
  | child :: rest, d, htook => by
    unfold Rearm.sendings at htook
    cases hstop : child.stopPrice with
    | none =>
      simp only [hstop, List.filterMap_cons, Rearm.Sending.reply_unsent] at htook
      rw [OrderRouter.rearmEach]
      simp only [hstop]
      exact rearmEach_led hok symbol p rest d htook
    | some stopPrice =>
      by_cases hroom : min child.remainingQty (Rearm.roomFor d symbol p) ≤ 0
      · simp only [hstop, if_pos hroom, List.filterMap_cons, Rearm.Sending.reply_unsent] at htook
        unfold Rearm.roomFor at hroom
        rw [OrderRouter.rearmEach]
        simp only [hstop]
        rw [exec_bind, exec_get]
        simp only [if_pos hroom]
        exact rearmEach_led hok symbol p rest d htook
      · rw [Rearm.rearmEach_pass r hstop hroom, exec_bind]
        have hone := triple_rearmOne (r := r) hok symbol p child stopPrice (min child.remainingQty (Rearm.roomFor d symbol p)) d rfl
        simp only [hstop, if_neg hroom] at htook
        rcases hexec : exec (Rearm.rearmOne r symbol p child stopPrice (min child.remainingQty (Rearm.roomFor d symbol p))) d with
          ⟨_ | outcome, e⟩ <;> rw [hexec] at hone
        · exact hone
        · simp only [hexec, List.filterMap_cons, Rearm.Sending.reply_answered] at htook
          refine (hone fun hsub => htook (outcome.result.order.elim 0 Order.qty) ?_).trans (rearmEach_led hok symbol p rest e fun qty hqty => htook qty ?_)
          · rw [if_pos hsub]
            exact List.mem_cons_self
          · exact List.mem_cons_of_mem _ hqty

/-- Children dropped after an order is on might have been dropped before. -/
theorem Worked.pruned (hok : ok .aside) {u f : Desk β σ} {o : Order} (hw : Worked u o e) (hp : Pruned e f) :
    ∃ u', Led ok u u' ∧ Worked u' o f ∧ u'.heap = u.heap := by
  refine ⟨{ u with protective := f.protective }, ?_, ⟨hp.heap.trans hw.heap, rfl, hp.working.trans hw.working, hw.status⟩, rfl⟩
  refine Pruned.led hok ⟨rfl, fun symbol ref hr => ?_, rfl⟩
  have hr' := hp.children symbol ref hr
  unfold refsOf at hr' ⊢
  rwa [hw.protective] at hr'

/-- An order that is on, and a raise before anybody is handed it. -/
theorem Worked.lapsed {u : Desk β σ} {o : Order} (hu : Led ok d u) (hw : Worked u o e) (hlapsed : ok (.lapsed o)) : Led ok d e := by
  refine hu.trans fun openOrders => Effect.leads (i := .lapsed o) ?_ hlapsed ⟨[o], hw.heap.symm⟩
  unfold Effect onShelf Shelf.withWorking Shelf.grown
  simp [hw.heap, hw.protective, hw.working]

/-- The moves a close may come to, by what the venue answers: where the sweep behind it raises, it has lapsed; and a stop the
venue takes of `_rearm` is put back. -/
structure Allows (ok : Move → Prop) (r : OrderRouter β L σ) (pending : List Order) (d : Desk β σ) (request : OrderRequest) :
    Prop where
  aside : ok .aside
  sweep : ∀ s e exc f, exec (r.submit request pending) d = (.ok s, e) → s.result.submitted = true →
    exec (r.cancelProtection request.symbol) e = (.error exc, f) → ∀ o, ok (.lapsed o)
  rearm : ∀ replies qty, Rearm.answers r request pending d = .retryRefused replies → .took qty ∈ replies →
    ∀ o, ok (.rearmed request.symbol o)

/-- Every move is allowed. -/
theorem allows_any (r : OrderRouter β L σ) (pending : List Order) (d : Desk β σ) (request : OrderRequest) :
    Allows (fun _ => True) r pending d request :=
  ⟨trivial, fun _ _ _ _ _ _ _ _ => trivial, fun _ _ _ _ _ => trivial⟩

/-- **`_close`** hands over a close the venue works, or leaves moves alone. -/
theorem triple_close {request : OrderRequest} {pending : List Order} (hallows : Allows ok r pending d request) :
    Triple (fun e => e = d) (r.close request pending) (fun s e => Told ok d s e) (fun _ e => Led ok d e) := by
  have hok := hallows.aside
  unfold OrderRouter.close
  refine triple_bind (triple_conseq (triple_and (triple_submit hok request pending) (triple_exec (r.submit request pending) d))
    (fun _ h => ⟨h, h⟩) (fun _ _ h => h) (fun _ _ h => h.1)) fun s => triple_at fun d₁ h₁ => ?_
  obtain ⟨htold, hs⟩ := h₁
  refine triple_ite (fun hsub => ?_) (fun hsub => ?_)
  · unfold Told at htold
    rw [if_pos hsub] at htold
    obtain ⟨u, o, hu, hw, href, ho⟩ := htold
    refine triple_bind (R := fun _ => Pruned d₁) (triple_conseq (triple_and (triple_cancelProtection request.symbol)
      (triple_exec (r.cancelProtection request.symbol) d₁)) (fun _ h => ⟨h, h⟩) (fun _ _ h => h.1) fun exc f h => ?_)
      fun _ => triple_pure _ fun f hf => ?_
    · obtain ⟨u', hu', hw', -⟩ := hw.pruned hok h.1
      exact hw'.lapsed (hu.trans hu') (hallows.sweep s d₁ exc f hs hsub h.2 o)
    · obtain ⟨u', hu', hw', hheap⟩ := hw.pruned hok hf
      unfold Told
      rw [if_pos hsub]
      exact ⟨u', o, hu.trans hu', hw', by rw [href, hheap], ho⟩
  · rw [Bool.not_eq_true] at hsub
    have hled : Led ok d d₁ := by
      unfold Told at htold
      rwa [hsub] at htold
    have hdone : Triple (Led ok d) (pure s : Prog (Desk β σ) Exc Submission) (fun s e => Told ok d s e) (fun _ e => Led ok d e) :=
      triple_pure _ fun _ h => told_refused hsub h
    refine triple_ite (fun _ => triple_conseq hdone (fun _ h => h ▸ hled) (fun _ _ h => h) (fun _ _ h => h)) (fun hheld => ?_)
    refine triple_bind (triple_conseq (triple_and (triple_and (triple_releaseProtection request.symbol request.side)
      (Rearm.releaseProtection_released request.symbol request.side)) (triple_exec (r.releaseProtection request.symbol request.side) d₁))
      (fun _ h => ⟨⟨h, h⟩, h⟩) (fun _ _ h => h) (fun _ _ h => hled.trans (Pruned.led hok h.1.1))) fun released => ?_
    refine triple_at fun d₂ h₂ => ?_
    obtain ⟨⟨hpruned, hreleased⟩, hrel⟩ := h₂
    have hled₂ : Led ok d d₂ := hled.trans (Pruned.led hok hpruned)
    refine triple_ite (fun _ => triple_conseq hdone (fun _ h => h ▸ hled₂) (fun _ _ h => h) (fun _ _ h => h)) (fun hnil => ?_)
    have hwait : Keeps (Led ok d) (r.awaitCancelled released) := r.keeps_awaitCancelled (fun _ _ h => h) released
    refine triple_bind (triple_conseq (triple_and hwait (triple_exec (r.awaitCancelled released) d₂)) (fun _ h => ⟨h ▸ hled₂, h⟩)
      (fun _ _ h => h) (fun _ _ h => h.1)) fun filled => triple_at fun d₃ h₃ => ?_
    obtain ⟨hled₃, hawait⟩ := h₃
    refine triple_ite (fun _ => triple_conseq hdone (fun _ h => h ▸ hled₃) (fun _ _ h => h) (fun _ _ h => h)) (fun hclear => ?_)
    refine triple_bind (triple_conseq (triple_and (triple_submit hok request pending) (triple_exec (r.submit request pending) d₃))
      (fun _ h => ⟨h, h⟩) (fun _ _ h => h) (fun _ _ h => hled₃.trans h.1)) fun retried => triple_at fun d₄ h₄ => ?_
    obtain ⟨htold₄, hretried⟩ := h₄
    cases hre : retried.result.submitted with
    | true => exact triple_pure _ fun _ h => h ▸ hled₃.told htold₄
    | false =>
      have hled₄ : Led ok d d₄ := by
        unfold Told at htold₄
        rw [hre] at htold₄
        exact hled₃.trans htold₄
      have hcourse : Rearm.course r request pending d = .rearming d₄ := by
        obtain rfl : filled = [] := by simpa using hclear
        have hreads := (Rearm.awaitCancelled_clear released d₂).2 (by rw [hawait])
        unfold Rearm.course
        simp only [hs, hsub, hheld, hrel, hnil, hreads, hawait, hretried, hre, Bool.or_self, Bool.false_eq_true, if_false, if_true]
      have hgiven : Rearm.givenUp r request pending d = released := by
        rw [hreleased]
        exact Rearm.givenUp_refused hs hsub (by simpa using hheld)
      refine triple_bind (R := fun _ => Led ok d) ?_ fun _ => triple_pure _ fun _ h => told_refused hre h
      have hend : Led ok d (exec (r.rearm request.symbol released) d₄).2 := by
        unfold OrderRouter.rearm
        rw [exec_bind, exec_get]
        simp only
        cases hp : d₄.portfolio.positions.get? request.symbol with
        | none => exact hled₄
        | some p =>
          simp only
          by_cases hflat : p.isFlat = true
          · rw [if_pos hflat]
            exact hled₄
          · rw [if_neg hflat]
            refine hled₄.trans (rearmEach_led hok request.symbol p released d₄ fun qty hqty => hallows.rearm _ qty ?_ hqty)
            simp [Rearm.answers, Rearm.resubmissions, hcourse, hp, hflat, hgiven]
      refine triple_conseq (triple_exec (r.rearm request.symbol released) d₄) (fun _ h => h) (fun _ f h => ?_) (fun _ f h => ?_)
      all_goals
        rw [h] at hend
        exact hend

theorem size_refused {signal : Signal} {portfolio : Portfolio} {config : PositionSizeSpec} {answer : SubmitResult}
    (h : OrderRouter.size signal portfolio config = .inr answer) : answer.submitted = false := by
  unfold OrderRouter.size at h
  split at h
  · cases h
    rfl
  · split at h
    · cases h
      rfl
    · split at h
      · cases h
        rfl
      · cases h

theorem intent_answer {signal : Signal} {portfolio : Portfolio} {config : PositionSizeSpec} {answer : SubmitResult}
    (h : OrderRouter.intent signal portfolio config = .inr answer) : answer.submitted = false := by
  unfold OrderRouter.intent at h
  split at h
  · cases h
    rfl
  · split at h
    · cases h
      rfl
    · split at h
      · cases h
        rfl
      · cases h
  · split at h
    · rename_i refused hsize
      cases h
      exact size_refused hsize
    · cases h
  · split at h
    · rename_i refused hsize
      cases h
      exact size_refused hsize
    · cases h
  · cases h
    rfl
  · cases h
    rfl

/-- What a signal asks for, and whether it closes. -/
def signalRequest (signal : Signal) (portfolio : Portfolio) (config : PositionSizeSpec) : Option (OrderRequest × Bool) :=
  match OrderRouter.intent signal portfolio config with
  | .inl (side, qty, purpose, closing) =>
    if qty ≤ 0 then none else some (OrderRouter.requestOf signal side qty purpose closing, closing)
  | .inr _ => none

/-- The close a signal asks for. -/
def signalClose (signal : Signal) (portfolio : Portfolio) (config : PositionSizeSpec) : Option OrderRequest :=
  ((signalRequest signal portfolio config).filter Prod.snd).map Prod.fst

/-- The close `flatten` asks for. -/
def flattenClose (symbol : String) (purpose : Purpose) (now : ℤ) (portfolio : Portfolio) : Option OrderRequest :=
  match portfolio.positions.get? symbol with
  | none => none
  | some p =>
    if p.isFlat then none
    else some { symbol := symbol, side := closingSide p, decidedAt := now, orderType := .market, qty := some |p.qty|,
                timeInForce := .gtc, purpose := purpose }

/-- **`submit_signal`**. -/
theorem triple_submitSignal (hok : ok .aside) {signal : Signal} {config : PositionSizeSpec} {pending : List Order}
    (hallows : ∀ request ∈ signalClose signal d.portfolio config, Allows ok r pending d request) :
    Triple (fun e => e = d) (r.submitSignal signal config pending) (fun s e => Told ok d s e) (fun _ e => Led ok d e) := by
  unfold OrderRouter.submitSignal
  refine triple_get_bind fun d₀ h₀ => ?_
  subst h₀
  unfold signalClose signalRequest at hallows
  cases hi : OrderRouter.intent signal d₀.portfolio config with
  | inr answer => exact triple_pure _ fun e he => told_refused (intent_answer hi) (he ▸ Led.refl e)
  | inl asked =>
    obtain ⟨side, qty, purpose, closing⟩ := asked
    refine triple_ite (fun _ => triple_pure _ fun e he => told_refused rfl (he ▸ Led.refl e)) (fun hqty => ?_)
    cases closing with
    | true => exact triple_close (hallows _ (by simp [hi, hqty]))
    | false => exact triple_submit hok _ pending

/-- **`flatten`**. -/
theorem triple_flatten {symbol : String} {purpose : Purpose}
    (hallows : ∀ request ∈ flattenClose symbol purpose r.now d.portfolio, Allows ok r [] d request) :
    Triple (fun e => e = d) (r.flatten symbol purpose) (fun s e => Told ok d s e) (fun _ e => Led ok d e) := by
  unfold OrderRouter.flatten
  refine triple_get_bind fun d₀ h₀ => ?_
  subst h₀
  unfold flattenClose at hallows
  cases hp : d₀.portfolio.positions.get? symbol with
  | none => exact triple_pure _ fun e he => told_refused rfl (he ▸ Led.refl e)
  | some p =>
    refine triple_ite (fun _ => triple_pure _ fun e he => told_refused rfl (he ▸ Led.refl e)) (fun hopen => ?_)
    exact triple_close (hallows _ (by simp [hp, hopen]))

/-- A stop the venue works, and the router's child. -/
structure Put (d : Desk β σ) (symbol : String) (o : Order) (e : Desk β σ) : Prop where
  heap : e.heap = d.heap ++ [o]
  protective : e.protective = d.protective.set symbol (refsOf d symbol ++ [d.heap.length])
  working : e.working = d.working ++ [o.clientOrderId]
  status : o.status = .submitted

/-- What a placement comes to: the one stop it says, or moves alone. -/
def Placed (ok : Move → Prop) (d : Desk β σ) (symbol : String) (placed : List (Ref × Order)) (e : Desk β σ) : Prop :=
  (placed = [] ∧ Led ok d e) ∨ ∃ u o, Led ok d u ∧ placed = [(u.heap.length, o)] ∧ Put u symbol o e

theorem triple_placeStop (hok : ok .aside) (entry : Order) (p : Position) (increment level coveredFrom : ℚ) :
    Triple (Led ok d) (r.placeStop entry p increment level coveredFrom) (fun result e => Placed ok d entry.symbol result.placed e)
      (fun _ e => Led ok d e) := by
  unfold OrderRouter.placeStop
  refine triple_bind (R := fun _ => Led ok d) (triple_fromExcept _ (fun _ _ _ h => h) (fun _ _ _ h => h)) fun key => ?_
  refine triple_bind (R := fun _ => Led ok d) (r.keeps_draw fun e n h => h) fun id => ?_
  refine triple_bind (R := fun _ => Led ok d) (triple_fromExcept _ (fun _ _ _ h => h) (fun _ _ _ h => h)) fun child => ?_
  refine triple_at fun u hu => ?_
  refine triple_bind (triple_conseq (triple_sent hok child []) (fun _ h => h) (fun _ _ h => h) (fun _ _ h => hu.trans h)) fun outcome => ?_
  refine triple_at fun e he => ?_
  split
  · rename_i hsub hobject horder
    rw [if_pos hsub] at he
    obtain ⟨o, hw, href, ho, -⟩ := he
    rw [hobject, Option.some.injEq] at href
    rw [horder, Option.some.injEq] at ho
    subst href ho
    refine triple_bind (R := fun _ f => Put u entry.symbol _ f) (triple_modify _ fun f hf => ?_) fun _ =>
      triple_pure _ fun f hf => .inr ⟨u, _, hu, rfl, hf⟩
    rw [hf]
    unfold OrderRouter.recordPlaced
    simp only
    split <;> exact ⟨hw.heap, by simp [Desk.addChild, hw.protective, refsOf], hw.working, hw.status⟩
  · rename_i hnot
    cases hsub : outcome.result.submitted with
    | true =>
      rw [if_pos hsub] at he
      obtain ⟨o, hw, href, ho, -⟩ := he
      exact absurd ho (hnot _ _ hsub href)
    | false =>
      rw [hsub, if_neg Bool.false_ne_true] at he
      exact triple_pure _ fun f hf => .inl ⟨rfl, hf ▸ hu.trans he⟩

variable (ok) in
/-- **`submit_protective_orders`**. -/
theorem triple_submitProtectiveOrders (hok : ok .aside) (entry : Order) (config : Option StopConfig) (atr : Option ℚ) :
    Triple (fun e => e = d) (r.submitProtectiveOrders entry config atr)
      (fun result e => Placed ok d entry.symbol result.placed e) (fun _ e => Led ok d e) := by
  have hnothing (e : Desk β σ) (h : Led ok d e) : Placed ok d entry.symbol ({} : ProtectionResult).placed e := .inl ⟨rfl, h⟩
  unfold OrderRouter.submitProtectiveOrders
  refine triple_ite (fun _ => triple_pure _ fun e he => hnothing e (he ▸ Led.refl e)) (fun _ => ?_)
  refine triple_get_bind fun d₀ h₀ => ?_
  subst h₀
  cases d₀.portfolio.positions.get? entry.symbol with
  | none => exact triple_pure _ fun e he => hnothing e (he ▸ Led.refl e)
  | some p =>
    refine triple_ite (fun _ => triple_pure _ fun e he => hnothing e (he ▸ Led.refl e)) (fun _ => ?_)
    have hswept (e : Desk β σ) (h : Swept d₀ entry.symbol (closingSide p) e) : Led ok d₀ e := by
      obtain ⟨b, children, rfl⟩ := h.rest
      exact Pruned.led hok ⟨rfl, h.fewer, rfl⟩
    refine triple_bind (R := fun _ => Led ok d₀) (triple_conseq (triple_cancelStaleProtection entry.symbol (closingSide p))
      (fun _ h => h) (fun _ e h => hswept e h) (fun _ e h => hswept e h)) fun _ => ?_
    refine triple_get_bind fun d₁ h₁ => ?_
    refine triple_ite (fun _ => triple_pure _ fun e he => hnothing e (he ▸ h₁)) (fun _ => ?_)
    refine triple_bind (R := fun _ => Led ok d₀) (triple_fromExcept _ (fun _ _ e he => he ▸ h₁) (fun _ _ e he => he ▸ h₁)) ?_
    rintro ⟨stop, target⟩
    refine triple_bind (R := fun _ => Led ok d₀) (triple_modify _ fun e he => he) fun _ => ?_
    cases stop with
    | none => exact triple_pure _ fun e he => .inl ⟨rfl, he⟩
    | some level =>
      exact triple_ite (fun _ => triple_pure _ fun e he => .inl ⟨rfl, he⟩) (fun _ => triple_placeStop hok _ _ _ _ _)

end desk
end Moves
end Atp
