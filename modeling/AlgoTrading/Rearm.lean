import AlgoTrading.Coverage
/-!
# Rearm — what a close that fails leaves of the stops it released

`_close` cancels the stops that hold the shares, waits for the cancels, tries again, and has `_rearm` put the stops back.
Between the release and `_rearm` there are three ways out.  `answers` is what the venue says in a call, `Fate` what has become
of a stop there; `failed_close_protects_iff` says for which of them the stops put back make up for those released.
-/
namespace Atp
namespace Rearm

open Raising Coverage

variable {β L σ : Type} (r : OrderRouter β L σ)

/-! ## What a call releases -/

/-- The cover of a released stop, counted up. -/
def bumped (child : Order) (d : Desk β σ) : Desk β σ :=
  { d with
    cover := match d.cover.get? child.id with
      | none => d.cover
      | some cover => d.cover.set child.id { cover with released := cover.released + 1 } }

/-- The stops whose cancel the broker takes, in order, up to a raise. -/
def letGo : List Order → Desk β σ → List Order
  | [], _ => []
  | child :: rest, d =>
    match child.brokerOrderId with
    | none => letGo rest d
    | some id =>
      match exec (r.cancelled id) d with
      | (.ok true, e) => child :: letGo rest (bumped child e)
      | (.ok false, e) => letGo rest e
      | (.error _, _) => []

/-- What holds the shares of a symbol: our own children on the closing side, and what the venue has beside them. -/
def holding (d : Desk β σ) (symbol : String) (closing : Side) (inherited : List Order) : List Order :=
  (d.children symbol).filter (fun c => !c.isComplete && decide (c.side = closing) && c.brokerOrderId.isSome) ++ inherited

/-- The stops `_release_protection` cancels, whether it returns or raises. -/
def released (symbol : String) (closing : Side) (d : Desk β σ) : List Order :=
  match exec (r.inheritedProtection symbol (some closing) (d.trackedBrokerIds symbol)) d with
  | (.ok inherited, e) => letGo r (holding d symbol closing inherited) e
  | (.error _, _) => []

/-! ## What a call puts back -/

/-- What came of a released stop in `_rearm`: nothing was sent of it, or sending it raised, or it was answered. -/
inductive Sending
  | unsent
  | raised
  | answered (s : Submission)

/-- One pass of the loop of `_rearm`, for a stop with a level and room. -/
def rearmOne (symbol : String) (p : Position) (child : Order) (stopPrice qty : ℚ) : Prog (Desk β σ) Exc Submission := do
  let d ← get
  let cover := (d.cover.get? child.id).getD ⟨child.clientOrderId, 0, qty, 0⟩
  let key ← fromExcept (r.protectiveClientOrderId cover.parentClientOrderId .stopLoss cover.coveredFrom cover.coveredTo
    cover.released)
  let order ← fromExcept (Order.postInit (OrderRouter.replacement symbol p child stopPrice qty (← r.draw) key))
  let outcome ← r.send order []
  if outcome.result.submitted then
    modify (fun d => { outcome.object.elim d (d.addChild symbol) with cover := d.cover.set order.id cover })
  return outcome

def roomFor (d : Desk β σ) (symbol : String) (p : Position) : ℚ := |p.qty| - d.protectedQty symbol (closingSide p)

/-- The loop of `_rearm`, stop by stop. -/
def sendings (symbol : String) (p : Position) : List Order → Desk β σ → List (Order × Sending)
  | [], _ => []
  | child :: rest, d =>
    match child.stopPrice with
    | none => (child, .unsent) :: sendings symbol p rest d
    | some stopPrice =>
      if min child.remainingQty (roomFor d symbol p) ≤ 0 then (child, .unsent) :: sendings symbol p rest d
      else
        match exec (rearmOne r symbol p child stopPrice (min child.remainingQty (roomFor d symbol p))) d with
        | (.ok outcome, e) => (child, .answered outcome) :: sendings symbol p rest e
        | (.error _, _) => (child, .raised) :: rest.map fun s => (s, .unsent)

theorem rearmEach_pass {symbol : String} {p : Position} {child : Order} {rest : List Order} {stopPrice : ℚ} {d : Desk β σ}
    (hstop : child.stopPrice = some stopPrice) (hroom : ¬ min child.remainingQty (roomFor d symbol p) ≤ 0) :
    exec (r.rearmEach symbol p (child :: rest)) d =
      exec (rearmOne r symbol p child stopPrice (min child.remainingQty (roomFor d symbol p)) >>= fun _ =>
        r.rearmEach symbol p rest) d := by
  unfold roomFor at hroom ⊢
  rw [OrderRouter.rearmEach]
  simp only [hstop]
  rw [exec_bind, exec_get]
  simp only [if_neg hroom]
  unfold rearmOne
  simp only [exec_bind, exec_get, exec_fromExcept]
  cases r.protectiveClientOrderId ((d.cover.get? child.id).getD ⟨child.clientOrderId, 0, _, 0⟩).parentClientOrderId .stopLoss
      ((d.cover.get? child.id).getD ⟨child.clientOrderId, 0, _, 0⟩).coveredFrom
      ((d.cover.get? child.id).getD ⟨child.clientOrderId, 0, _, 0⟩).coveredTo
      ((d.cover.get? child.id).getD ⟨child.clientOrderId, 0, _, 0⟩).released with
  | error e => rfl
  | ok key =>
    simp only
    rcases exec r.draw d with ⟨_ | id, e⟩
    · rfl
    · simp only
      cases Order.postInit (OrderRouter.replacement symbol p child stopPrice _ id key) with
      | error exc => rfl
      | ok order =>
        simp only
        rcases exec (r.send order []) e with ⟨_ | outcome, e'⟩
        · rfl
        · simp only
          cases outcome.result.submitted <;> rfl

variable {r} {d e : Desk β σ} {symbol : String} {p : Position} {child : Order}

/-- The venue refused it, or the risk chain did. -/
def Sending.Refused : Sending → Prop
  | .answered s => s.result.submitted = false
  | _ => False

/-- No object is lost, and no child of the symbol. -/
structure Grown (symbol : String) (d e : Desk β σ) : Prop where
  heap : ∃ l, e.heap = d.heap ++ l
  children : ∀ ref ∈ refsOf d symbol, ref ∈ refsOf e symbol

theorem Grown.refl (symbol : String) (d : Desk β σ) : Grown symbol d d := ⟨⟨[], by simp⟩, fun _ h => h⟩

theorem Grown.trans {f : Desk β σ} (h : Grown symbol d e) (h' : Grown symbol e f) : Grown symbol d f := by
  obtain ⟨l, hl⟩ := h.heap
  obtain ⟨l', hl'⟩ := h'.heap
  exact ⟨⟨l ++ l', by rw [hl', hl, List.append_assoc]⟩, fun ref hr => h'.children ref (h.children ref hr)⟩

/-- The order behind a reference is a working child of the symbol. -/
structure Stands (symbol : String) (e : Desk β σ) (ref : Ref) (o : Order) : Prop where
  object : e.heap[ref]? = some o
  child : ref ∈ refsOf e symbol
  status : o.status = .submitted

theorem Stands.grown {f : Desk β σ} {ref : Ref} {o : Order} (h : Stands symbol e ref o) (hg : Grown symbol e f) :
    Stands symbol f ref o := by
  obtain ⟨l, hl⟩ := hg.heap
  refine ⟨?_, hg.children ref h.child, h.status⟩
  have hlt : ref < e.heap.length := (List.getElem?_eq_some_iff.1 h.object).1
  rw [hl, List.getElem?_append_left hlt, h.object]

/-- It is on, for this quantity, on this desk. -/
def Sending.On (symbol : String) (e : Desk β σ) (qty : ℚ) : Sending → Prop
  | .answered s => s.result.submitted = true ∧
      ∃ ref o, s.object = some ref ∧ s.result.order = some o ∧ Stands symbol e ref o ∧ o.qty = qty
  | _ => False

@[simp] theorem Sending.refused_unsent : Sending.unsent.Refused ↔ False := Iff.rfl

@[simp] theorem Sending.refused_raised : Sending.raised.Refused ↔ False := Iff.rfl

@[simp] theorem Sending.refused_answered (s : Submission) : (Sending.answered s).Refused ↔ s.result.submitted = false := Iff.rfl

@[simp] theorem Sending.on_unsent (qty : ℚ) : Sending.unsent.On symbol e qty ↔ False := Iff.rfl

@[simp] theorem Sending.on_raised (qty : ℚ) : Sending.raised.On symbol e qty ↔ False := Iff.rfl

theorem roomFor_eq (d : Desk β σ) (symbol : String) (p : Position) :
    roomFor d symbol p = |p.qty| - covering d.heap (closingSide p) (refsOf d symbol) := by
  unfold roomFor
  rw [protectedQty_eq]

/-- One stop more, working and unfilled. -/
theorem covering_stop {heap : List Order} {refs : List Ref} {closing : Side} {o : Order} (hrefs : ∀ ref ∈ refs, ref < heap.length)
    (hstatus : o.status = .submitted) (hside : o.side = closing) (hfilled : o.filledQty = 0) :
    covering (heap ++ [o]) closing (refs ++ [heap.length]) = covering heap closing refs + o.qty := by
  have hworking : working closing o = o.qty := by
    simp [working, Order.isComplete, hstatus, hside, Order.remainingQty, hfilled, OrderStatus.isTerminal]
  rw [covering_append, covering_extend hrefs]
  simp [covering, hworking]

variable (symbol p child) in
/-- **One pass of `_rearm`**: the stop is back on and takes its quantity of the room, or it was refused and takes none. -/
theorem triple_rearmOne (stopPrice : ℚ) (hground : Grounded d) {qty : ℚ} (hqty : 0 < qty) :
    Triple (fun e => e = d) (rearmOne r symbol p child stopPrice qty)
      (fun outcome e => Grown symbol d e ∧ Grounded e ∧
        (outcome.result.submitted = false → roomFor e symbol p = roomFor d symbol p) ∧
        (outcome.result.submitted = true → ∃ ref o, outcome.object = some ref ∧ outcome.result.order = some o ∧
          Stands symbol e ref o ∧ roomFor e symbol p = roomFor d symbol p - o.qty))
      (fun _ e => Grown symbol d e) := by
  have hsame (e : Desk β σ) (h : e = d) : Grown symbol d e := h ▸ Grown.refl symbol e
  unfold rearmOne
  refine triple_get_bind fun d₀ h₀ => ?_
  subst h₀
  refine triple_bind (R := fun _ e => e = d₀) (triple_fromExcept _ (fun _ _ _ h => h) (fun _ _ e h => hsame e h)) fun key => ?_
  let d₁ : Desk β σ := { d₀ with drawn := d₀.drawn + 1 }
  have hdrawn : Grown symbol d₀ d₁ := ⟨⟨[], by simp [d₁]⟩, fun _ h => h⟩
  refine triple_bind (R := fun _ e => e = d₁) ?_ fun id => ?_
  · unfold OrderRouter.draw
    refine triple_get_bind fun d' hd' => ?_
    subst hd'
    exact triple_bind (R := fun _ e => e = d₁) (triple_modify _ fun e he => by rw [he]) fun _ => triple_pure _ fun e he => he
  let stop := OrderRouter.replacement symbol p child stopPrice qty id key
  refine triple_bind (R := fun order e => e = d₁ ∧ order = stop)
    (triple_fromExcept _ (fun order ho e he => ⟨he, (Order.postInit_ok ho).1⟩) (fun _ _ e he => he ▸ hdrawn)) fun order => ?_
  refine triple_at fun d' hd' => ?_
  obtain ⟨rfl, rfl⟩ := hd'
  have hchild : IsPlaced r p qty key stop := ⟨rfl, rfl, rfl, hqty, fun _ => le_rfl⟩
  have hsent (e : Desk β σ) (object : Order) (h : OrderRouter.Sent d₁ e object) : Grown symbol d₀ e := by
    obtain ⟨b, s, hs, w, rfl⟩ := h
    exact hdrawn.trans ⟨⟨[object], rfl⟩, fun _ h => h⟩
  refine triple_bind (triple_conseq (r.triple_send (isPlaced_endures p qty key) hchild [] d₁) (fun _ h => h)
    (fun _ _ h => h) (fun _ e h => ?_)) fun outcome => ?_
  · obtain ⟨-, object, hs⟩ := h
    exact hsent e object hs
  refine triple_at fun e he => ?_
  obtain ⟨object, hs, -, hok⟩ := he
  have hlonger (s : String) : ∀ ref ∈ refsOf d₀ s, ref < (d₀.heap ++ [object]).length := fun ref hr => by
    rw [List.length_append]
    exact (hground s ref hr).trans_le (Nat.le_add_right _ _)
  refine triple_ite (fun hsub => ?_) (fun hsub => triple_pure _ fun t ht => ?_)
  · obtain ⟨ho, href, hstatus, hc⟩ := hok hsub
    refine triple_bind (R := fun _ t => Grown symbol d₀ t ∧ Grounded t ∧ Stands symbol t d₀.heap.length object ∧
      roomFor t symbol p = roomFor d₀ symbol p - object.qty) (triple_modify _ ?_) fun _ => triple_pure _ fun t ht =>
        ⟨ht.1, ht.2.1, fun h => absurd hsub (by simp [h]), fun _ => ⟨d₀.heap.length, object, href, ho, ht.2.2⟩⟩
    rintro t rfl
    rw [href]
    obtain ⟨b, risk, halts, w, rfl⟩ := hs
    let after : Desk β σ := Desk.addChild { d₁ with
      broker := b, risk := risk, halts := halts, heap := d₀.heap ++ [object], working := w } symbol d₀.heap.length
    have hrefs : refsOf after symbol = refsOf d₀ symbol ++ [d₀.heap.length] := by
      show ((d₀.protective.set symbol _).get? symbol).getD [] = _
      rw [Dict.get?_set_self, Option.getD_some]
      rfl
    have hothers (s : String) (hs : s ≠ symbol) : refsOf after s = refsOf d₀ s := by
      show ((d₀.protective.set symbol _).get? s).getD [] = _
      rw [Dict.get?_set_ne _ _ hs]
      rfl
    refine ⟨⟨⟨[object], rfl⟩, fun ref hr => ?_⟩, fun s ref hr => ?_, ⟨?_, ?_, hstatus⟩, ?_⟩
    · show ref ∈ refsOf after symbol
      rw [hrefs]
      exact List.mem_append_left _ hr
    · change ref ∈ refsOf after s at hr
      show ref < (d₀.heap ++ [object]).length
      by_cases hs : s = symbol
      · rw [hs, hrefs] at hr
        rcases List.mem_append.1 hr with hr | hr
        · exact hlonger symbol ref hr
        · rw [List.mem_singleton.1 hr, List.length_append, List.length_singleton]
          exact Nat.lt_succ_self _
      · rw [hothers s hs] at hr
        exact hlonger s ref hr
    · exact List.getElem?_concat_length
    · show d₀.heap.length ∈ refsOf after symbol
      rw [hrefs]
      exact List.mem_append_right _ (List.mem_singleton.2 rfl)
    · rw [roomFor_eq, roomFor_eq]
      change |p.qty| - covering (d₀.heap ++ [object]) (closingSide p) (refsOf after symbol) = _
      rw [hrefs, covering_stop (hground symbol) hstatus hc.side hc.filled]
      ring
  · subst ht
    refine ⟨hsent _ object hs, ?_, fun _ => ?_, fun h => absurd h hsub⟩
    · obtain ⟨b, risk, halts, w, rfl⟩ := hs
      exact fun s ref hr => hlonger s ref hr
    · obtain ⟨b, risk, halts, w, rfl⟩ := hs
      rw [roomFor_eq, roomFor_eq]
      change |p.qty| - covering (d₀.heap ++ [object]) (closingSide p) (refsOf d₀ symbol) = _
      rw [covering_extend (hground symbol)]

/-- The loop of `_release_protection` returns what it cancelled. -/
theorem releaseEach_letGo : ∀ (l acc : List Order) (d : Desk β σ),
    Triple (fun e => e = d) (r.releaseEach l acc) (fun out _ => out = acc ++ letGo r l d) (fun _ _ => True)
  | [], acc, d => triple_pure _ fun e _ => by simp [letGo]
  | child :: rest, acc, d => by
    unfold OrderRouter.releaseEach letGo
    cases hid : child.brokerOrderId with
    | none => exact releaseEach_letGo rest acc d
    | some id =>
      refine triple_bind (triple_conseq (triple_exec (r.cancelled id) d) (fun _ h => h) (fun _ _ h => h) (fun _ _ _ => trivial))
        fun c => triple_at fun e he => ?_
      simp only [he]
      cases c with
      | false => exact releaseEach_letGo rest acc e
      | true =>
        refine triple_bind (R := fun _ e' => e' = bumped child e) (triple_modify _ fun e' h => by rw [h]; rfl) fun _ => ?_
        refine triple_conseq (releaseEach_letGo rest (acc ++ [child]) _) (fun _ h => h) (fun out _ h => ?_) (fun _ _ h => h)
        rw [h, List.append_assoc]
        rfl

variable (symbol) in
/-- **`_release_protection` returns what it released.** -/
theorem releaseProtection_released (closing : Side) :
    Triple (fun e => e = d) (r.releaseProtection symbol closing) (fun out _ => out = released r symbol closing d)
      (fun _ _ => True) := by
  unfold OrderRouter.releaseProtection released
  refine triple_get_bind fun d₀ h₀ => ?_
  subst h₀
  refine triple_bind (triple_conseq (triple_exec _ d₀) (fun _ h => h) (fun _ _ h => h) (fun _ _ _ => trivial))
    fun inherited => triple_at fun e he => ?_
  rw [he]
  refine triple_ite (fun hnone => triple_pure _ fun _ _ => ?_) (fun _ => ?_)
  · change [] = letGo r (holding d₀ symbol closing inherited) e
    have hnil : holding d₀ symbol closing inherited = [] := List.isEmpty_iff.1 hnone
    rw [hnil]
    rfl
  · refine triple_bind (R := fun out _ => out = letGo r (holding d₀ symbol closing inherited) e) ?_ fun out => ?_
    · exact triple_conseq (releaseEach_letGo _ [] e) (fun _ h => h) (fun _ _ h => h) (fun _ _ h => h)
    · exact triple_bind (R := fun _ _ => out = letGo r (holding d₀ symbol closing inherited) e) (triple_modify _ fun _ h => h)
        fun _ => triple_pure _ fun _ h => h

/-! ## What the venue answers -/

/-- The last read of a released stop: nothing of it seen, a quantity filled, or a raise. -/
inductive Read
  | unseen
  | shown (filled : ℚ)
  | raised
deriving DecidableEq

/-- It shows no fill. -/
def Read.clear : Read → Bool
  | .unseen => true
  | .shown filled => decide (filled ≤ 0)
  | .raised => false

/-- What came of the sending of a stop: it raised, or was refused, or was taken for a quantity. -/
inductive Reply
  | raised
  | refused
  | took (qty : ℚ)
deriving DecidableEq

def Sending.reply : Sending → Option Reply
  | .unsent => none
  | .raised => some .raised
  | .answered s => some (if s.result.submitted then .took (s.result.order.elim 0 Order.qty) else .refused)

@[simp] theorem Sending.reply_unsent : Sending.unsent.reply = none := rfl

@[simp] theorem Sending.reply_raised : Sending.raised.reply = some .raised := rfl

@[simp] theorem Sending.reply_answered (s : Submission) : (Sending.answered s).reply =
    some (if s.result.submitted then .took (s.result.order.elim 0 Order.qty) else .refused) := rfl

/-- What the venue and the risk chain answer in a call that releases stops, as far as it comes. -/
inductive Answers
  | quiet
  | cancelRaised
  | noticed (reads : List Read)
  | retryRaised
  | retryRefused (replies : List Reply)
deriving DecidableEq

/-- Where a call ends: with nothing given up or the close on; on the way to `_rearm`; or in `_rearm`, on this desk. -/
inductive Course (β σ : Type)
  | kept
  | cancelRaised
  | noticed (reads : List Read)
  | retryRaised
  | rearming (d : Desk β σ)

section
variable (r) (request : OrderRequest) (pending : List Order) (d : Desk β σ)

/-- The last reads of the released stops, up to one that raises. -/
def lastReads : List Order → Desk β σ → List Read
  | [], _ => []
  | stop :: rest, d =>
    match stop.brokerOrderId with
    | none => .unseen :: lastReads rest d
    | some id =>
      match exec (r.readBack id r.cancelAckPolls none) d with
      | (.ok seen, e) => (seen.elim .unseen fun o => .shown o.filledQty) :: lastReads rest e
      | (.error _, _) => [.raised]

/-- The stops a call of `_close` releases: those of `_release_protection`, once the venue has named the reservation. -/
def givenUp : List Order :=
  match exec (r.submit request pending) d with
  | (.error _, _) => []
  | (.ok s, e) => if s.result.submitted || !s.result.inventoryHeld then [] else released r request.symbol request.side e

def course : Course β σ :=
  match exec (r.submit request pending) d with
  | (.error _, _) => .kept
  | (.ok s, d₁) =>
    if s.result.submitted || !s.result.inventoryHeld then .kept
    else match exec (r.releaseProtection request.symbol request.side) d₁ with
      | (.error _, _) => .cancelRaised
      | (.ok out, d₂) =>
        if out.isEmpty then .kept
        else if (lastReads r out d₂).all Read.clear then
          match exec (r.submit request pending) (exec (r.awaitCancelled out) d₂).2 with
          | (.error _, _) => .retryRaised
          | (.ok again, d₄) => if again.result.submitted then .kept else .rearming d₄
        else .noticed (lastReads r out d₂)

/-- **The released stops, each with what came of it** in `_rearm`, where the call comes to it with a position. -/
def resubmissions : List (Order × Sending) :=
  match course r request pending d with
  | .rearming e =>
    match e.portfolio.positions.get? request.symbol with
    | none => (givenUp r request pending d).map fun s => (s, .unsent)
    | some p =>
      if p.isFlat then (givenUp r request pending d).map fun s => (s, .unsent)
      else sendings r request.symbol p (givenUp r request pending d) e
  | _ => (givenUp r request pending d).map fun s => (s, .unsent)

/-- **What the venue answers in a call.** -/
def answers : Answers :=
  match course r request pending d with
  | .kept => .quiet
  | .cancelRaised => .cancelRaised
  | .noticed reads => .noticed reads
  | .retryRaised => .retryRaised
  | .rearming _ => .retryRefused ((resubmissions r request pending d).filterMap fun x => x.2.reply)

end

/-! ## A close that fails -/

/-- The call raised, or its close is not on. -/
def Failed (out : Except Exc Submission) : Prop := ∀ s, out = .ok s → s.result.submitted = false

/-- What has become of a stop at the venue: how much of it filled, and whether it works there still. -/
structure Fate where
  filled : ℚ
  works : Bool

section
variable (fate : Order → Fate)

/-- The venue has filled the stop whole, or works it still. -/
def Settled (s : Order) : Prop := s.qty ≤ (fate s).filled ∨ (fate s).works = true

instance (s : Order) : Decidable (Settled fate s) := inferInstanceAs (Decidable (_ ∨ _))

/-- What the venue has not filled of it. -/
def unfilled (s : Order) : ℚ := s.qty - (fate s).filled

/-- **A close that fails leaves the position as protected as it was**, whatever has become of the stops it released. -/
def FailsProtected (r : OrderRouter β L σ) (request : OrderRequest) (pending : List Order) (d : Desk β σ) : Prop :=
  Failed (exec (r.close request pending) d).1 → ∀ x ∈ resubmissions r request pending d,
    Settled fate x.1 ∨ x.2.Refused ∨ x.2.On request.symbol (exec (r.close request pending) d).2 (unfilled fate x.1)

/-- **The replies that put the stops back**, with so much room in the position: one with no level or no room must be settled;
one that was sent is refused, or settled, or taken for what the venue has not filled of it, and takes that of the room; and
where one raises, it and those after it are settled. -/
def Back : List Order → ℚ → List Reply → Prop
  | [], _, _ => True
  | s :: rest, room, replies =>
    if s.stopPrice = none ∨ min s.remainingQty room ≤ 0 then Settled fate s ∧ Back rest room replies
    else match replies with
      | .refused :: more => Back rest room more
      | .took qty :: more => (Settled fate s ∨ qty = unfilled fate s) ∧ Back rest (room - qty) more
      | _ => ∀ x ∈ s :: rest, Settled fate x

section
variable {fate} {s : Order} {rest : List Order} {room : ℚ} {replies : List Reply}

theorem back_unsent (h : s.stopPrice = none ∨ min s.remainingQty room ≤ 0) :
    Back fate (s :: rest) room replies ↔ Settled fate s ∧ Back fate rest room replies := by
  conv_lhs => unfold Back
  rw [if_pos h]

theorem back_raised (h : ¬(s.stopPrice = none ∨ min s.remainingQty room ≤ 0)) :
    Back fate (s :: rest) room (.raised :: replies) ↔ ∀ x ∈ s :: rest, Settled fate x := by
  unfold Back
  rw [if_neg h]

theorem back_refused (h : ¬(s.stopPrice = none ∨ min s.remainingQty room ≤ 0)) :
    Back fate (s :: rest) room (.refused :: replies) ↔ Back fate rest room replies := by
  rw [Back, if_neg h]

theorem back_took (h : ¬(s.stopPrice = none ∨ min s.remainingQty room ≤ 0)) {qty : ℚ} :
    Back fate (s :: rest) room (.took qty :: replies) ↔
      (Settled fate s ∨ qty = unfilled fate s) ∧ Back fate rest (room - qty) replies := by
  rw [Back, if_neg h]

end

/-- What the children of a symbol still cover with these stops gone. -/
def standing (d : Desk β σ) (symbol : String) (closing : Side) (gone : List Order) : ℚ :=
  (((d.children symbol).filter fun c => !(gone.map Order.id).contains c.id).map (working closing)).sum

/-- **When it does**: where the venue raises, or a last read shows a fill, before `_rearm`, every stop released must be filled
whole or work still; where the retried close is refused, the replies put the stops back into the room the others leave. -/
def PutsBack (symbol : String) (d : Desk β σ) (gone : List Order) : Answers → Prop
  | .quiet => True
  | .retryRefused replies =>
    match d.portfolio.positions.get? symbol with
    | none => ∀ s ∈ gone, Settled fate s
    | some p =>
      if p.isFlat then ∀ s ∈ gone, Settled fate s
      else Back fate gone (|p.qty| - standing d symbol (closingSide p) gone) replies
  | _ => ∀ s ∈ gone, Settled fate s

end

variable {fate : Order → Fate}

/-- Of a stop that was not sent, only the venue can make up for the release. -/
theorem unsent_iff {l : List Order} {qty : Order → ℚ} :
    (∀ x ∈ l.map fun s => (s, Sending.unsent), Settled fate x.1 ∨ x.2.Refused ∨ x.2.On symbol e (qty x.1)) ↔
      ∀ s ∈ l, Settled fate s := by
  simp only [List.forall_mem_map, Sending.refused_unsent, Sending.on_unsent, or_false]

variable (symbol p child) in
theorem rearmOne_run (stopPrice : ℚ) (hground : Grounded d) {qty : ℚ} (hqty : 0 < qty) :
    match exec (rearmOne r symbol p child stopPrice qty) d with
    | (.ok outcome, e) => Grown symbol d e ∧ Grounded e ∧
        (outcome.result.submitted = false → roomFor e symbol p = roomFor d symbol p) ∧
        (outcome.result.submitted = true → ∃ ref o, outcome.object = some ref ∧ outcome.result.order = some o ∧
          Stands symbol e ref o ∧ roomFor e symbol p = roomFor d symbol p - o.qty)
    | (.error _, e) => Grown symbol d e := by
  have h := triple_rearmOne (r := r) symbol p child stopPrice hground hqty d rfl
  rcases hexec : exec (rearmOne r symbol p child stopPrice qty) d with ⟨_ | outcome, e⟩ <;> rw [hexec] at h <;> exact h

/-- The loop of `_rearm` loses no object and no child. -/
theorem rearmEach_grown : ∀ (l : List Order) {d : Desk β σ}, Grounded d → Grown symbol d (exec (r.rearmEach symbol p l) d).2
  | [], d, _ => Grown.refl symbol d
  | child :: rest, d, hground => by
    cases hstop : child.stopPrice with
    | none =>
      rw [OrderRouter.rearmEach]
      simp only [hstop]
      exact rearmEach_grown rest hground
    | some stopPrice =>
      by_cases hroom : min child.remainingQty (roomFor d symbol p) ≤ 0
      · rw [OrderRouter.rearmEach]
        simp only [hstop]
        rw [exec_bind, exec_get]
        unfold roomFor at hroom
        simp only [if_pos hroom]
        exact rearmEach_grown rest hground
      · rw [rearmEach_pass r hstop hroom, exec_bind]
        have hone := rearmOne_run (r := r) symbol p child stopPrice hground (not_le.1 hroom)
        rcases hexec : exec (rearmOne r symbol p child stopPrice (min child.remainingQty (roomFor d symbol p))) d with
          ⟨_ | outcome, e⟩ <;> rw [hexec] at hone
        · exact hone
        · exact hone.1.trans (rearmEach_grown rest hone.2.1)

/-- **The loop of `_rearm` puts the stops back exactly when its replies do.** -/
theorem sendings_back : ∀ (l : List Order) {d : Desk β σ}, Grounded d →
    ((∀ x ∈ sendings r symbol p l d, Settled fate x.1 ∨ x.2.Refused ∨
        x.2.On symbol (exec (r.rearmEach symbol p l) d).2 (unfilled fate x.1)) ↔
      Back fate l (roomFor d symbol p) ((sendings r symbol p l d).filterMap fun x => x.2.reply))
  | [], d, _ => by simp [sendings, Back]
  | child :: rest, d, hground => by
    have hskip (hunsent : child.stopPrice = none ∨ min child.remainingQty (roomFor d symbol p) ≤ 0)
        (hrun : exec (r.rearmEach symbol p (child :: rest)) d = exec (r.rearmEach symbol p rest) d)
        (hsendings : sendings r symbol p (child :: rest) d = (child, .unsent) :: sendings r symbol p rest d) :
        ((∀ x ∈ sendings r symbol p (child :: rest) d, Settled fate x.1 ∨ x.2.Refused ∨
            x.2.On symbol (exec (r.rearmEach symbol p (child :: rest)) d).2 (unfilled fate x.1)) ↔
          Back fate (child :: rest) (roomFor d symbol p)
            ((sendings r symbol p (child :: rest) d).filterMap fun x => x.2.reply)) := by
      rw [hrun, hsendings, back_unsent hunsent]
      simp only [List.forall_mem_cons, Sending.refused_unsent, Sending.on_unsent, or_false, List.filterMap_cons,
        Sending.reply_unsent]
      rw [sendings_back rest hground]
    cases hstop : child.stopPrice with
    | none =>
      refine hskip (.inl hstop) ?_ ?_
      · rw [OrderRouter.rearmEach]
        simp only [hstop]
      · rw [sendings]
        simp only [hstop]
    | some stopPrice =>
      by_cases hroom : min child.remainingQty (roomFor d symbol p) ≤ 0
      · refine hskip (.inr hroom) ?_ ?_
        · have hroom' := hroom
          unfold roomFor at hroom'
          rw [OrderRouter.rearmEach]
          simp only [hstop]
          rw [exec_bind, exec_get]
          simp only [if_pos hroom']
        · rw [sendings]
          simp only [hstop, if_pos hroom]
      · have hsent : ¬(child.stopPrice = none ∨ min child.remainingQty (roomFor d symbol p) ≤ 0) := by simp [hstop, hroom]
        have hone := rearmOne_run (r := r) symbol p child stopPrice hground (not_le.1 hroom)
        rw [rearmEach_pass r hstop hroom, exec_bind, sendings]
        simp only [hstop, if_neg hroom]
        rcases hexec : exec (rearmOne r symbol p child stopPrice (min child.remainingQty (roomFor d symbol p))) d with
          ⟨_ | outcome, e⟩ <;> rw [hexec] at hone
        · -- nothing is sent of the stops after one that raises
          simp only [List.forall_mem_cons, Sending.refused_raised, Sending.on_raised, or_false, List.filterMap_cons,
            Sending.reply_raised]
          rw [unsent_iff, back_raised hsent, List.forall_mem_cons]
        · obtain ⟨-, hground', hrefused, htaken⟩ := hone
          simp only [List.forall_mem_cons, List.filterMap_cons, Sending.reply_answered, Sending.refused_answered]
          rw [sendings_back rest hground']
          cases hsub : outcome.result.submitted with
          | false =>
            simp only [Bool.false_eq_true, if_false, true_or, or_true, true_and]
            rw [hrefused hsub, back_refused hsent]
          | true =>
            obtain ⟨ref, o, href, ho, hstands, hless⟩ := htaken hsub
            have hon : Sending.On symbol (exec (r.rearmEach symbol p rest) e).2 (unfilled fate child) (.answered outcome) ↔
                o.qty = unfilled fate child := by
              constructor
              · rintro ⟨-, ref', o', -, ho', -, hqty⟩
                rw [ho, Option.some.injEq] at ho'
                exact ho' ▸ hqty
              · exact fun hqty => ⟨hsub, ref, o, href, ho, hstands.grown (rearmEach_grown rest hground'), hqty⟩
            simp only [if_true, ho, Option.elim_some, false_or, Bool.true_eq_false]
            rw [hon, hless, back_took hsent]

theorem unsent_fst (l : List Order) : (l.map fun s => (s, Sending.unsent)).map Prod.fst = l := by
  rw [List.map_map]
  exact List.map_id l

/-- Every stop released has its place in the loop. -/
theorem sendings_fst : ∀ (l : List Order) (d : Desk β σ), (sendings r symbol p l d).map Prod.fst = l
  | [], d => rfl
  | child :: rest, d => by
    unfold sendings
    split
    · rw [List.map_cons, sendings_fst rest d]
    · split
      · rw [List.map_cons, sendings_fst rest d]
      · split
        · rw [List.map_cons, sendings_fst rest _]
        · rw [List.map_cons, unsent_fst]

variable {request : OrderRequest} {pending : List Order}

theorem resubmissions_fst (r : OrderRouter β L σ) (request : OrderRequest) (pending : List Order) (d : Desk β σ) :
    (resubmissions r request pending d).map Prod.fst = givenUp r request pending d := by
  unfold resubmissions
  split
  · split
    · exact unsent_fst _
    · split
      · exact unsent_fst _
      · exact sendings_fst _ _
  · exact unsent_fst _

theorem failed_error (e : Exc) : Failed (.error e) := fun _ h => nomatch h

theorem failed_ok {s : Submission} (h : s.result.submitted = false) : Failed (.ok s) := fun _ hs => Except.ok.inj hs ▸ h

theorem givenUp_refused {s : Submission} {d₁ : Desk β σ} (hs : exec (r.submit request pending) d = (.ok s, d₁))
    (hsub : s.result.submitted = false) (hheld : s.result.inventoryHeld = true) :
    givenUp r request pending d = released r request.symbol request.side d₁ := by
  unfold givenUp
  simp [hs, hsub, hheld]

/-- **`_await_cancelled` returns no stop exactly when the last reads show no fill and none raises.** -/
theorem awaitCancelled_clear : ∀ (l : List Order) (d : Desk β σ),
    (lastReads r l d).all Read.clear = true ↔ (exec (r.awaitCancelled l) d).1 = .ok []
  | [], d => iff_of_true rfl rfl
  | stop :: rest, d => by
    unfold lastReads OrderRouter.awaitCancelled
    cases hid : stop.brokerOrderId with
    | none =>
      rw [List.all_cons, Read.clear, Bool.true_and]
      exact awaitCancelled_clear rest d
    | some id =>
      simp only
      rw [exec_bind]
      rcases exec (r.readBack id r.cancelAckPolls none) d with ⟨_ | seen, e⟩
      · exact iff_of_false (by simp [Read.clear]) (by simp)
      · simp only
        rw [List.all_cons, Bool.and_eq_true, awaitCancelled_clear rest e, exec_bind]
        rcases exec (r.awaitCancelled rest) e with ⟨_ | filled, e'⟩
        · simp
        · cases seen with
          | none => simp [Read.clear]
          | some o =>
            by_cases hfill : 0 < o.filledQty
            · simp [Read.clear, hfill]
            · simp [Read.clear, hfill, not_lt.1 hfill]

/-- How a call ends, by the course it takes. -/
def Ends (r : OrderRouter β L σ) (request : OrderRequest) (pending : List Order) (d : Desk β σ) (out : Except Exc Submission)
    (e : Desk β σ) : Course β σ → Prop
  | .kept => Failed out → givenUp r request pending d = []
  | .rearming d₄ => Failed out ∧ e = (exec (r.rearm request.symbol (givenUp r request pending d)) d₄).2
  | _ => Failed out

/-- **The ways out of `_close`.** -/
theorem close_ends (d : Desk β σ) : Ends r request pending d (exec (r.close request pending) d).1
    (exec (r.close request pending) d).2 (course r request pending d) := by
  rcases hs : exec (r.submit request pending) d with ⟨_ | s, d₁⟩
  · have hcourse : course r request pending d = .kept := by simp [course, hs]
    rw [hcourse]
    exact fun _ => by simp [givenUp, hs]
  by_cases hkept : (s.result.submitted || !s.result.inventoryHeld) = true
  · have hcourse : course r request pending d = .kept := by simp only [course, hs, if_pos hkept]
    rw [hcourse]
    exact fun _ => by simp only [givenUp, hs, if_pos hkept]
  have hrefused : s.result.submitted = false ∧ s.result.inventoryHeld = true := by simpa using hkept
  obtain ⟨hsub, hheld⟩ := hrefused
  have hgiven := givenUp_refused hs hsub hheld
  have htriple : Triple (fun e => e = d₁) (r.releaseProtection request.symbol request.side)
      (fun out _ => out = released r request.symbol request.side d₁) (fun _ _ => True) := releaseProtection_released request.symbol request.side
  have hreleased := htriple d₁ rfl
  unfold OrderRouter.close course
  simp only [exec_bind, hs, hsub, hheld, Bool.not_true, Bool.false_or, Bool.false_eq_true, if_false]
  rcases hrel : exec (r.releaseProtection request.symbol request.side) d₁ with ⟨_ | out, d₂⟩
  · exact failed_error _
  rw [hrel] at hreleased
  simp only
  by_cases hnil : out.isEmpty = true
  · simp only [hnil, if_true]
    exact fun _ => by rw [hgiven, ← hreleased, List.isEmpty_iff.1 hnil]
  simp only [if_neg hnil, exec_bind]
  by_cases hclear : (lastReads r out d₂).all Read.clear = true
  · have hwait := (awaitCancelled_clear out d₂).1 hclear
    rw [if_pos hclear]
    rcases hawait : exec (r.awaitCancelled out) d₂ with ⟨_ | filled, d₃⟩ <;> rw [hawait] at hwait
    · cases hwait
    obtain rfl : filled = [] := Except.ok.inj hwait
    simp only [List.isEmpty_nil, Bool.not_true, Bool.false_eq_true, if_false, exec_bind]
    rcases exec (r.submit request pending) d₃ with ⟨_ | again, d₄⟩
    · exact failed_error _
    simp only
    cases hagain : again.result.submitted with
    | true =>
      simp only [Bool.not_true, Bool.false_eq_true, if_false, if_true]
      intro hfail
      rw [hfail again rfl] at hagain
      cases hagain
    | false =>
      simp only [Bool.not_false, Bool.false_eq_true, if_false, if_true, exec_bind]
      refine ⟨?_, ?_⟩
      · rcases exec (r.rearm request.symbol out) d₄ with ⟨_ | _, e⟩
        · exact failed_error _
        · exact failed_ok hagain
      · rw [hgiven, ← hreleased]
        rcases exec (r.rearm request.symbol out) d₄ with ⟨_ | _, e⟩ <;> rfl
  · have hwait := mt (awaitCancelled_clear out d₂).2 hclear
    rw [if_neg hclear]
    rcases hawait : exec (r.awaitCancelled out) d₂ with ⟨_ | filled, d₃⟩ <;> rw [hawait] at hwait
    · exact failed_error _
    · have hfilled : (!filled.isEmpty) = true := by
        cases filled with
        | nil => exact absurd rfl hwait
        | cons _ _ => rfl
      simp only [if_pos hfilled]
      exact failed_ok hsub

/-! ## The desk a call comes to `_rearm` with -/

theorem untouched_refl (d : Desk β σ) : Untouched d d := ⟨rfl, rfl, rfl, [], by simp⟩

theorem untouched_trans {f : Desk β σ} (h : Untouched d e) (h' : Untouched e f) : Untouched d f := by
  obtain ⟨l, hl⟩ := h.heap
  obtain ⟨l', hl'⟩ := h'.heap
  exact ⟨h'.covered.trans h.covered, h'.protective.trans h.protective, h'.portfolio.trans h.portfolio, l ++ l', by
    rw [hl', hl, List.append_assoc]⟩

theorem refsOf_untouched (h : Untouched d e) (symbol : String) : refsOf e symbol = refsOf d symbol := by
  unfold refsOf
  rw [h.protective]

theorem grounded_untouched (h : Untouched d e) (hground : Grounded d) : Grounded e := by
  obtain ⟨l, hl⟩ := h.heap
  intro s ref hr
  rw [refsOf_untouched h] at hr
  rw [hl, List.length_append]
  exact (hground s ref hr).trans_le (Nat.le_add_right _ _)

/-- The children of a symbol are the objects they were. -/
theorem childRefs_untouched (h : Untouched d e) (hground : Grounded d) (symbol : String) :
    e.childRefs symbol = d.childRefs symbol := by
  obtain ⟨l, hl⟩ := h.heap
  unfold Desk.childRefs
  rw [h.protective, hl]
  refine List.filterMap_congr fun ref hr => ?_
  rw [List.getElem?_append_left (hground symbol ref hr)]

theorem covering_untouched (h : Untouched d e) (hground : Grounded d) (closing : Side) (symbol : String) :
    covering e.heap closing (refsOf e symbol) = covering d.heap closing (refsOf d symbol) := by
  obtain ⟨l, hl⟩ := h.heap
  rw [refsOf_untouched h, hl, covering_extend (hground symbol)]

/-- **`submit`** leaves the books of protection alone. -/
theorem triple_submit_untouched (request : OrderRequest) (pending : List Order) :
    Triple (Untouched d) (r.submit request pending) (fun _ => Untouched d) (fun _ => Untouched d) := by
  have hsend (order : Order) : Triple (Untouched d) (r.send order pending) (fun _ => Untouched d) (fun _ => Untouched d) := by
    refine triple_at fun e he => ?_
    have hany : r.Endures fun _ => True :=
      ⟨fun _ _ => trivial, fun _ _ _ _ _ => trivial, fun _ _ _ _ _ _ => trivial, fun _ _ _ => trivial⟩
    have hsent (f : Desk β σ) (object : Order) (h : OrderRouter.Sent e f object) : Untouched d f := by
      obtain ⟨b, s, hs, w, rfl⟩ := h
      exact untouched_trans he ⟨rfl, rfl, rfl, [object], rfl⟩
    exact triple_conseq (r.triple_send hany trivial pending e) (fun _ h => h) (fun _ f ⟨object, h, _⟩ => hsent f object h)
      (fun _ f ⟨_, object, h⟩ => hsent f object h)
  unfold OrderRouter.submit
  refine triple_get_bind fun d₀ h₀ => ?_
  refine triple_bind (R := fun _ => Untouched d)
    (triple_fromExcept _ (fun _ _ e he => he ▸ h₀) (fun _ _ e he => he ▸ h₀)) fun q => ?_
  cases q with
  | inr refused => exact triple_pure _ fun _ h => h
  | inl qty =>
    refine triple_bind (R := fun _ => Untouched d) (triple_fromExcept _ (fun _ _ _ h => h) (fun _ _ _ h => h)) fun key => ?_
    refine triple_bind (r.keeps_draw fun e n h => ⟨h.covered, h.protective, h.portfolio, h.heap⟩) fun id => ?_
    refine triple_bind (R := fun _ => Untouched d) (triple_fromExcept _ (fun _ _ _ h => h) (fun _ _ _ h => h)) fun order => ?_
    refine triple_ite (fun _ => triple_bind (R := fun _ => Untouched d) (triple_modify _ fun e h => ?_) fun _ => hsend order)
      (fun _ => hsend order)
    exact ⟨h.covered, h.protective, h.portfolio, h.heap⟩

/-- **The children of a symbol without some stops**, and all else of the books as it was. -/
structure Shed (symbol : String) (out : List Order) (d e : Desk β σ) : Prop where
  heap : e.heap = d.heap
  portfolio : e.portfolio = d.portfolio
  refs : refsOf e symbol = ((d.childRefs symbol).filter fun c => !(out.map Order.id).contains c.2.id).map Prod.fst
  others : ∀ s, s ≠ symbol → refsOf e s = refsOf d s

/-- What is behind the broker and what each child covers have moved. -/
def Worked (d e : Desk β σ) : Prop := ∃ b c, e = { d with broker := b, cover := c }

theorem refsOf_setChildren (d : Desk β σ) (symbol : String) (refs : List Ref) (s : String) :
    refsOf (d.setChildren symbol refs) s = if s = symbol then refs else refsOf d s := by
  unfold refsOf Desk.setChildren
  by_cases hnil : refs.isEmpty = true
  · rw [if_pos hnil, Dict.get?_erase, List.isEmpty_iff.1 hnil]
    by_cases hs : s = symbol <;> simp [hs]
  · rw [if_neg hnil, Dict.get?_set]
    by_cases hs : s = symbol <;> simp [hs]

variable (symbol) in
/-- **`_release_protection`** lets go of what it released. -/
theorem triple_releaseProtection_shed (closing : Side) :
    Triple (fun e => e = d) (r.releaseProtection symbol closing) (fun out e => out = [] ∨ Shed symbol out d e)
      (fun _ _ => True) := by
  have hbroker : ∀ (e : Desk β σ) (b : β), Worked d e → Worked d { e with broker := b } := by
    rintro e b ⟨b', c, rfl⟩
    exact ⟨b, c, rfl⟩
  have hcover : ∀ (e : Desk β σ) (c : Dict String Cover), Worked d e → Worked d { e with cover := c } := by
    rintro e c ⟨b, c', rfl⟩
    exact ⟨b, c, rfl⟩
  unfold OrderRouter.releaseProtection
  refine triple_get_bind fun d₀ h₀ => ?_
  subst h₀
  refine triple_bind (R := fun _ => Worked d₀) ?_ fun inherited => ?_
  · exact triple_conseq (r.keeps_inheritedProtection (I := Worked d₀) hbroker _ _ _) (fun _ h => ⟨d₀.broker, d₀.cover, h⟩)
      (fun _ _ h => h) (fun _ _ _ => trivial)
  refine triple_ite (fun _ => triple_pure _ fun _ _ => .inl rfl) (fun _ => ?_)
  refine triple_bind (R := fun _ => Worked d₀) ?_ fun out => ?_
  · exact triple_conseq (r.keeps_releaseEach (I := Worked d₀) hbroker hcover _ _) (fun _ h => h) (fun _ _ h => h)
      (fun _ _ _ => trivial)
  refine triple_bind (R := fun _ e => Shed symbol out d₀ e) (triple_modify _ fun e he => ?_) fun _ => triple_pure _ fun _ h =>
    .inr h
  obtain ⟨b, c, rfl⟩ := he
  refine ⟨rfl, rfl, ?_, fun s hs => ?_⟩
  · rw [refsOf_setChildren, if_pos rfl]
  · rw [refsOf_setChildren, if_neg hs]
    rfl

theorem Shed.grounded {out : List Order} (h : Shed symbol out d e) (hground : Grounded d) : Grounded e := by
  intro s ref hr
  rw [h.heap]
  by_cases hs : s = symbol
  · subst hs
    rw [h.refs] at hr
    obtain ⟨c, hc, rfl⟩ := List.mem_map.1 hr
    obtain ⟨ref', hr', ho⟩ := List.mem_filterMap.1 (List.mem_filter.1 hc).1
    obtain ⟨o, -, heq⟩ := Option.map_eq_some_iff.1 ho
    subst heq
    exact hground s ref' hr'
  · rw [h.others s hs] at hr
    exact hground s ref hr

/-- The children left cover what the others covered. -/
theorem Shed.covering {out : List Order} (h : Shed symbol out d e) (closing : Side) :
    covering e.heap closing (refsOf e symbol) = standing d symbol closing out := by
  have hobject : ∀ c ∈ d.childRefs symbol, d.heap[c.1]? = some c.2 := by
    intro c hc
    obtain ⟨ref, -, ho⟩ := List.mem_filterMap.1 hc
    obtain ⟨o, ho', heq⟩ := Option.map_eq_some_iff.1 ho
    subst heq
    exact ho'
  unfold Coverage.covering standing Desk.children
  rw [h.heap, h.refs, List.filter_map, List.map_map, List.map_map]
  congr 1
  refine List.map_congr_left fun c hc => ?_
  simp only [Function.comp_apply, hobject c (List.mem_filter.1 hc).1, Option.elim_some]

/-- **The desk a call comes to `_rearm` with**: the book it started with, and the children less those released. -/
theorem rearming_desk (hground : Grounded d) {d₄ : Desk β σ} (h : course r request pending d = .rearming d₄) :
    Grounded d₄ ∧ d₄.portfolio = d.portfolio ∧ ∀ closing,
      covering d₄.heap closing (refsOf d₄ request.symbol) =
        standing d request.symbol closing (givenUp r request pending d) := by
  have hsubmit (d₀ : Desk β σ) : Untouched d₀ (exec (r.submit request pending) d₀).2 := by
    have h := triple_submit_untouched (r := r) (d := d₀) request pending d₀ (untouched_refl d₀)
    rcases hexec : exec (r.submit request pending) d₀ with ⟨_ | _, e⟩ <;> rw [hexec] at h <;> exact h
  unfold course at h
  rcases hs : exec (r.submit request pending) d with ⟨_ | s, d₁⟩ <;> simp only [hs] at h
  · cases h
  have hfirst := hsubmit d
  rw [hs] at hfirst
  split at h
  · cases h
  rename_i hkept
  have hrefused : s.result.submitted = false ∧ s.result.inventoryHeld = true := by simpa using hkept
  have hgiven := givenUp_refused hs hrefused.1 hrefused.2
  have hreleased := releaseProtection_released (r := r) (d := d₁) request.symbol request.side d₁ rfl
  have hshed := triple_releaseProtection_shed (r := r) (d := d₁) request.symbol request.side d₁ rfl
  rcases hrel : exec (r.releaseProtection request.symbol request.side) d₁ with ⟨_ | out, d₂⟩ <;> simp only [hrel] at h
  · cases h
  rw [hrel] at hreleased hshed
  by_cases hnil : out.isEmpty = true
  · simp only [if_pos hnil] at h
    cases h
  simp only [if_neg hnil] at h
  split at h
  · have hwait : Rebrokered d₂ (exec (r.awaitCancelled out) d₂).2 := by
      have hkeeps := r.keeps_awaitCancelled (I := Rebrokered d₂) (fun _ b h => h.broker b) out d₂ ⟨d₂.broker, rfl⟩
      rcases hexec : exec (r.awaitCancelled out) d₂ with ⟨_ | _, e⟩ <;> rw [hexec] at hkeeps <;> exact hkeeps
    obtain ⟨b, hd₃⟩ := hwait
    have hsecond := hsubmit (exec (r.awaitCancelled out) d₂).2
    rcases hagain : exec (r.submit request pending) (exec (r.awaitCancelled out) d₂).2 with ⟨_ | again, d₅⟩ <;>
      simp only [hagain] at h
    · cases h
    split at h
    · cases h
    cases h
    rw [hagain] at hsecond
    have hshed : Shed request.symbol out d₁ d₂ := hshed.resolve_left fun hempty => hnil (by rw [hempty]; rfl)
    rw [hd₃] at hsecond
    have hground₁ := grounded_untouched hfirst hground
    have hground₂ := hshed.grounded hground₁
    refine ⟨grounded_untouched hsecond hground₂, ?_, fun closing => ?_⟩
    · rw [hsecond.portfolio, ← hfirst.portfolio, ← hshed.portfolio]
    · rw [covering_untouched hsecond hground₂, hgiven, ← hreleased]
      have hleft : covering d₂.heap closing (refsOf d₂ request.symbol) = standing d₁ request.symbol closing out :=
        hshed.covering closing
      refine hleft.trans ?_
      unfold standing Desk.children
      rw [childRefs_untouched hfirst hground]
  · cases h

open StopRatchet (openRouter)

/-- A venue that refuses what it holds no free shares for, takes every cancel, and says of each stop what it is told to. -/
def reservingVenue (seen : String → OrderStatus × ℚ) : BrokerPort Unit where
  name := "venue"
  submitOrder o :=
    if o.stopPrice.isNone then throw ⟨.inventoryHeldError, [.lit "insufficient qty available"]⟩
    else pure { o with brokerOrderId := some o.clientOrderId, status := .submitted }
  cancelOrder _ := pure ()
  getOrder id := pure (some
    { symbol := "AAPL", side := .sell, qty := 10, id := id, clientOrderId := id, status := (seen id).1, filledQty := (seen id).2 })
  getOpenOrders := pure []

def reserving (seen : String → OrderStatus × ℚ) : OrderRouter Unit Unit Unit := { openRouter with broker := reservingVenue seen }

def stopAt (id : String) (price : ℚ) : Order where
  symbol := "AAPL"
  side := .sell
  qty := 10
  orderType := .stop
  timeInForce := .gtc
  stopPrice := some price
  purpose := .stopLoss
  id := id
  clientOrderId := id
  brokerOrderId := some id
  status := .submitted

def twoStops : Desk Unit Unit where
  portfolio := {
    cash := 0, startingEquity := 2000
    positions := Dict.empty.set "AAPL" { symbol := "AAPL", qty := 20, avgEntryPrice := 100, lastPrice := some 100 } }
  broker := ()
  risk := ()
  heap := [stopAt "s-1" 95, stopAt "s-2" 90]
  protective := Dict.empty.set "AAPL" [0, 1]

def closeAll : OrderRequest where
  symbol := "AAPL"
  side := .sell
  decidedAt := 0
  qty := some 20
  purpose := .exit

/-- Both cancels go through unfilled. -/
def bothCancelled : String → OrderStatus × ℚ := fun _ => (.cancelled, 0)

/-- The first stop fills while it is being cancelled. -/
def firstFilled : String → OrderStatus × ℚ := fun id => if id = "s-1" then (.filled, 10) else (.cancelled, 0)

/-- What the venue says of a stop is what has become of it. -/
def fateAs (seen : String → OrderStatus × ℚ) (s : Order) : Fate := ⟨(seen s.id).2, !(seen s.id).1.isTerminal⟩

theorem twoStops_grounded : Grounded twoStops := by
  intro s ref hr
  by_cases hs : s = "AAPL"
  · subst hs
    have hrefs : refsOf twoStops "AAPL" = [0, 1] := by decide +kernel
    rw [hrefs] at hr
    simp only [List.mem_cons, List.not_mem_nil, or_false] at hr
    rcases hr with rfl | rfl <;> decide +kernel
  · have hnone : refsOf twoStops s = [] := by
      show (((Dict.empty.set "AAPL" [0, 1] : Dict String (List Ref)).get? s).getD []) = []
      rw [Dict.get?_set_ne _ _ hs]
      rfl
    rw [hnone] at hr
    cases hr

/-- Nothing is sent of the stops of a call that notices a fill. -/
theorem resubmissions_noticed {reads : List Read} (h : answers r request pending d = .noticed reads) :
    resubmissions r request pending d = (givenUp r request pending d).map fun s => (s, .unsent) := by
  unfold answers at h
  unfold resubmissions
  cases hcourse : course r request pending d <;> simp [hcourse] at h ⊢

end Rearm
end Atp
