import AlgoTrading.RunnerFrames
import AlgoTrading.Tracking
/-!
# LiveStops — the stops that count are the stops that work

The router counts a child as protection by the child's own status, and an event changes the object in the working set.
The two agree as long as they are one object.  A warmup that restores an order anew, under a key that a child bears, parts
them (`only_live_stops_count`, `restored_stop_counts_on`).
-/
namespace Atp
namespace LiveStops

open Raising Runs Moves RunnerActs Tracking

/-- The router's child, of one symbol or another. -/
def Stocked (s : Shelf) (ref : Ref) : Prop := ∃ symbol, ref ∈ s.refs symbol

/-- A child whose order has that key. -/
def Bears (s : Shelf) (key : String) (ref : Ref) : Prop := Stocked s ref ∧ ∃ o, s.heap[ref]? = some o ∧ o.clientOrderId = key

/-- What the runner has under the child's key is the child, and it is there while the child works. -/
def Sole (s : Shelf) (ref : Ref) (o : Order) : Prop :=
  (∀ ref', s.openOrders.get? o.clientOrderId = some ref' → ref' = ref) ∧
    (o.isComplete = false → (s.openOrders.get? o.clientOrderId).isSome)

structure Shared (s : Shelf) : Prop where
  keyed : Keyed s
  children : ∀ ref, Stocked s ref → ∃ o, s.heap[ref]? = some o ∧ Sole s ref o

/-- No child has that key. -/
def Fresh (s : Shelf) (key : String) : Prop := ∀ ref, ¬ Bears s key ref

/-- No order comes into the working set under a key that a child bears, none that works leaves it, and no stop is put back. -/
def Apart (s : Shelf) : Move → Prop
  | .accepted o | .placed _ o | .restored o => Fresh s o.clientOrderId
  | .retired o => ∀ ref found, s.openOrders.get? o.clientOrderId = some ref → s.heap[ref]? = some found → found.isComplete = true
  | .rearmed _ _ => False
  | .aside | .lapsed _ | .updated _ _ | .adopted _ _ => True

section effects

variable {s t : Shelf} {i : Move} {ref : Ref} {o : Order}

theorem Sole.congr (h : Sole s ref o) (heq : t.openOrders.get? o.clientOrderId = s.openOrders.get? o.clientOrderId) :
    Sole t ref o := by
  unfold Sole
  rw [heq]
  exact h

theorem stocked_withChild (s : Shelf) (symbol : String) {r : Ref} (h : Stocked (s.withChild symbol ref) r) : Stocked s r ∨ r = ref := by
  obtain ⟨other, hr⟩ := h
  unfold Shelf.withChild Shelf.refs at hr
  by_cases hs : other = symbol
  · rw [hs, Dict.get?_set_self, Option.getD_some] at hr
    rcases List.mem_append.1 hr with hr | hr
    · exact .inl ⟨symbol, hr⟩
    · exact .inr (List.mem_singleton.1 hr)
  · rw [Dict.get?_set_ne _ _ hs] at hr
    exact .inl ⟨other, hr⟩

/-- A new object under a key that no child bears. -/
theorem Shared.put (hs : Shared s) (o : Order) (hfresh : Fresh s o.clientOrderId) {ref : Ref} (hr : Stocked s ref) :
    ∃ o', (s.heap ++ [o])[ref]? = some o' ∧ Sole ((s.grown o).withOpen o.clientOrderId s.heap.length) ref o' := by
  obtain ⟨o', ho', hsole⟩ := hs.children ref hr
  refine ⟨o', object_append ho' [o], hsole.congr ?_⟩
  have hne : o'.clientOrderId ≠ o.clientOrderId := fun h => hfresh ref ⟨hr, o', ho', h⟩
  exact Dict.get?_set_ne _ _ hne

theorem sole_self (s : Shelf) (ref : Ref) (o : Order) (href : s.openOrders.get? o.clientOrderId = some ref) : Sole s ref o := by
  unfold Sole
  rw [href]
  exact ⟨fun ref' h => (Option.some.inj h).symm, fun _ => rfl⟩

/-- **Moves apart leave one object for each child.** -/
theorem effect_shared (hs : Shared s) (hi : Apart s i) (h : Effect s i t) : Shared t := by
  refine ⟨effect_keyed hs.keyed h, ?_⟩
  cases i with
  | aside =>
    obtain ⟨l, hl⟩ := h.heap
    rintro ref ⟨symbol, hr⟩
    obtain ⟨o, ho, hsole⟩ := hs.children ref ⟨symbol, h.children symbol ref hr⟩
    refine ⟨o, ?_, hsole.congr (by rw [h.openOrders])⟩
    rw [hl]
    exact object_append ho l
  | accepted o =>
    obtain ⟨-, rfl⟩ := h
    exact fun ref hr => hs.put o hi hr
  | lapsed o =>
    subst h
    intro ref hr
    obtain ⟨o', ho', hsole⟩ := hs.children ref hr
    exact ⟨o', object_append ho' [o], hsole⟩
  | placed symbol o =>
    obtain ⟨-, rfl⟩ := h
    intro ref hr
    have hold : Stocked s ref ∨ ref = s.heap.length :=
      stocked_withChild ((s.grown o).withWorking o.clientOrderId) symbol hr
    rcases hold with hold | rfl
    · exact hs.put o hi hold
    · refine ⟨o, ?_, sole_self _ _ o (Dict.get?_set_self _ _ _)⟩
      simp [Shelf.withOpen, Shelf.withChild, Shelf.withWorking, Shelf.grown]
  | rearmed symbol o => exact hi.elim
  | updated ref o =>
    obtain ⟨⟨key, old, href, hold, hkey⟩, rfl⟩ := h
    obtain ⟨hlt, -⟩ := List.getElem?_eq_some_iff.1 hold
    obtain ⟨old', hold', hown⟩ := hs.keyed key ref href
    obtain rfl : old = old' := Option.some.inj (hold.symm.trans hold')
    intro ref' hr
    by_cases heq : ref = ref'
    · subst heq
      refine ⟨o, List.getElem?_set_self hlt, sole_self _ ref o ?_⟩
      rw [← hkey, hown]
      exact href
    · obtain ⟨o', ho', hsole⟩ := hs.children ref' hr
      exact ⟨o', (List.getElem?_set_ne heq).trans ho', hsole⟩
  | retired o =>
    obtain ⟨-, rfl⟩ := h
    intro ref hr
    obtain ⟨o', ho', hsole⟩ := hs.children ref hr
    refine ⟨o', ho', ?_⟩
    by_cases hkey : o'.clientOrderId = o.clientOrderId
    · have herased : (s.openOrders.erase o.clientOrderId).get? o'.clientOrderId = none := by
        rw [Dict.get?_erase, if_pos hkey]
      refine ⟨fun ref' href => ?_, fun hlive => ?_⟩
      · cases herased.symm.trans href
      -- a child that works is what leaves
      obtain ⟨ref', href⟩ := Option.isSome_iff_exists.1 (hsole.2 hlive)
      obtain rfl := hsole.1 ref' href
      have hover := hi ref' o' (hkey ▸ href) ho'
      rw [hlive] at hover
      cases hover
    · apply hsole.congr
      rw [Dict.get?_erase, if_neg hkey]
  | restored o =>
    subst h
    exact fun ref hr => hs.put o hi hr
  | adopted ref o =>
    obtain ⟨ho, ⟨key, href⟩, rfl⟩ := h
    intro ref' hr
    rcases stocked_withChild s o.symbol hr with hold | rfl
    · exact hs.children ref' hold
    · obtain ⟨o', ho', hown⟩ := hs.keyed key ref' href
      obtain rfl : o = o' := Option.some.inj (ho.symm.trans ho')
      refine ⟨o, ho, sole_self _ ref' o ?_⟩
      rw [hown]
      exact href

/-- Where objects are only added and children only dropped, a key that no child bears is borne by none. -/
theorem Fresh.mono (hs : Shared s) (hstocked : ∀ ref, Stocked t ref → Stocked s ref) (hheap : ∃ l, t.heap = s.heap ++ l) {key : String}
    (h : Fresh s key) : Fresh t key := by
  rintro ref ⟨hr, o, ho, hkey⟩
  obtain ⟨l, hl⟩ := hheap
  obtain ⟨child, hchild, -⟩ := hs.children ref (hstocked ref hr)
  rw [hl, object_append hchild l, Option.some.injEq] at ho
  exact h ref ⟨hstocked ref hr, child, hchild, ho ▸ hkey⟩

theorem Aside.fresh (hs : Shared s) (h : Aside s t) {key : String} (hfresh : Fresh s key) : Fresh t key :=
  hfresh.mono hs (fun ref ⟨symbol, hr⟩ => ⟨symbol, h.children symbol ref hr⟩) h.heap

/-- What a submission comes to: asides, and orders tracked or let by under these keys. -/
def Under (keys : String → Prop) : Move → Prop
  | .aside | .lapsed _ => True
  | .accepted o => keys o.clientOrderId
  | .placed _ _ | .rearmed _ _ | .updated _ _ | .retired _ | .restored _ | .adopted _ _ => False

/-- **Orders accepted under keys that no child bears** leave one object for each child. -/
theorem under_shared (keys : String → Prop) (hs : Shared s) (hfresh : ∀ key, keys key → Fresh s key) (h : Leads (Under keys) s t) :
    Shared t := by
  obtain ⟨-, l, hl⟩ := h
  refine (run_guarded (fun _ => Under keys) (fun s => Shared s ∧ ∀ key, keys key → Fresh s key) ?_ ⟨hs, hfresh⟩ hl).1
  rintro s i t ⟨hs, hfresh⟩ hi heffect
  cases i with
  | aside => exact ⟨effect_shared hs (i := .aside) trivial heffect, fun key hkey => Aside.fresh hs heffect (hfresh key hkey)⟩
  | lapsed o =>
    refine ⟨effect_shared hs (i := .lapsed o) trivial heffect, fun key hkey => (hfresh key hkey).mono hs (fun _ hr => ?_) ⟨[o], ?_⟩⟩
    all_goals
      obtain rfl := heffect
      first | exact hr | rfl
  | accepted o =>
    refine ⟨effect_shared hs (i := .accepted o) (hfresh _ hi) heffect,
      fun key hkey => (hfresh key hkey).mono hs (fun _ hr => ?_) ⟨[o], ?_⟩⟩
    all_goals
      obtain ⟨-, rfl⟩ := heffect
      first | exact hr | rfl
  | placed symbol o => exact hi.elim
  | rearmed symbol o => exact hi.elim
  | updated ref o => exact hi.elim
  | retired o => exact hi.elim
  | restored o => exact hi.elim
  | adopted ref o => exact hi.elim

end effects

section runs

variable {β L σ ω : Type} {w : StrategyRunner β L σ ω} {s t : RunnerState β σ ω}

/-- The runner has no copy of the order that still works. -/
def Over (s : RunnerState β σ ω) (key : String) : Prop := ∀ ref copy, s.tracked key = some (ref, copy) → copy.isComplete = true

/-- No child has the key that a request is sent under. -/
def Clear (r : OrderRouter β L σ) (s : Shelf) (request : OrderRequest) : Prop :=
  ∀ key, r.clientOrderId request.symbol request.side request.decidedAt request.strategyId request.purpose = .ok key → Fresh s key

/-- **Each child keeps its key to itself**: what the venue takes, of a signal, an exit or `_protect`, and what a warmup reads has
the key of no child; what is retired is over for the runner too; and the venue takes no stop that `_rearm` sends. -/
def Orderly (w : StrategyRunner β L σ ω) (s : RunnerState β σ ω) : Act σ → Prop
  | .signal now pass signal =>
    (∀ request ∈ signalClose (w.withStop pass signal) s.desk.portfolio w.sizing,
      NoneBack (atInstant w now).router s.openOrderList s.desk request) ∧
    ((taken (askSignal (atInstant w now) s pass signal) s.desk).isSome →
      ∀ asked ∈ signalRequest (w.withStop pass signal) s.desk.portfolio w.sizing, Clear w.router s.shelf asked.1)
  | .exit now symbol reason => ∀ request ∈ flattenClose symbol reason now s.desk.portfolio,
      NoneBack (atInstant w now).router [] s.desk request ∧
      ((taken ((atInstant w now).router.flatten symbol reason) s.desk).isSome → Clear w.router s.shelf request)
  | .protect now atr _ order _ => ∀ stop, TakesStop (atInstant w now) s atr order stop → Fresh s.shelf
      (Coverage.stopKey w.router order.clientOrderId (Coverage.coveredOf s.desk order)
        (Coverage.coveredOf s.desk order + Coverage.due s.desk order))
  | .retire order => order.isComplete = true → Over s order.clientOrderId
  | .warmup stored => ∀ o ∈ stored, Fresh s.shelf o.clientOrderId
  | .update _ | .aside => True

/-- Each child is as the runner's copy of its key is, what is over for the runner adds nothing, and a position whose stops
are all over is not covered. -/
structure OnlyLiveCount (s : RunnerState β σ ω) : Prop where
  same : ∀ symbol, ∀ child ∈ s.desk.children symbol, ∀ ref copy, s.tracked child.clientOrderId = some (ref, copy) →
    child.status = copy.status ∧ child.filledQty = copy.filledQty
  finished : ∀ symbol, ∀ child ∈ s.desk.children symbol, Over s child.clientOrderId → child.isComplete = true
  uncovered : ∀ p : Position, (∀ child ∈ s.desk.children p.symbol, Over s child.clientOrderId) → s.desk.brokerSideProtectedQty p = 0

theorem started_shared (h : Started s) : Shared s.shelf := by
  refine ⟨h.kept.keyed, ?_⟩
  rintro ref ⟨symbol, hr⟩
  change ref ∈ (s.desk.protective.get? symbol).getD [] at hr
  rw [h.protective, Dict.get?_empty, Option.getD_none] at hr
  cases hr

theorem child_stocked {symbol : String} {child : Order} (h : child ∈ s.desk.children symbol) :
    ∃ ref, Stocked s.shelf ref ∧ s.shelf.heap[ref]? = some child := by
  obtain ⟨⟨ref, o⟩, hc, rfl⟩ := List.mem_map.1 h
  obtain ⟨ref', hr, ho⟩ := List.mem_filterMap.1 hc
  obtain ⟨o', ho', heq⟩ := Option.map_eq_some_iff.1 ho
  cases heq
  exact ⟨ref, ⟨symbol, hr⟩, ho'⟩

/-- **One object makes one status.** -/
theorem Shared.onlyLiveCount (h : Shared s.shelf) : OnlyLiveCount s := by
  have hsole {symbol : String} {child : Order} (hc : child ∈ s.desk.children symbol) :
      ∃ ref, s.desk.heap[ref]? = some child ∧ Sole s.shelf ref child := by
    obtain ⟨ref, hr, ho⟩ := child_stocked hc
    obtain ⟨o, ho', hs⟩ := h.children ref hr
    obtain rfl : child = o := Option.some.inj (ho.symm.trans ho')
    exact ⟨ref, ho, hs⟩
  have hover : ∀ symbol, ∀ child ∈ s.desk.children symbol, Over s child.clientOrderId → child.isComplete = true := by
    intro symbol child hc hgone
    obtain ⟨ref, ho, hone, hlive⟩ := hsole hc
    by_contra hworks
    rw [Bool.not_eq_true] at hworks
    obtain ⟨ref', href⟩ := Option.isSome_iff_exists.1 (hlive hworks)
    obtain rfl := hone ref' href
    rw [hgone ref' child (tracked_of href ho)] at hworks
    cases hworks
  refine ⟨fun symbol child hc ref copy hfound => ?_, hover, fun p hgone => ?_⟩
  · obtain ⟨ref', ho, hone, -⟩ := hsole hc
    obtain ⟨href, hcopy⟩ := tracked_some hfound
    obtain rfl := hone ref href
    obtain rfl : child = copy := Option.some.inj (ho.symm.trans hcopy)
    exact ⟨rfl, rfl⟩
  · unfold Desk.brokerSideProtectedQty Desk.protectedQty
    rw [List.filter_eq_nil_iff.2, List.map_nil, List.sum_nil]
    intro child hc
    rw [hover p.symbol child hc (hgone child hc)]
    simp

/-! ### What each act keeps -/

theorem signal_shared (hs : Shared s.shelf) {now : ℤ} {pass : Pass σ} {signal : Signal} (h : Orderly w s (.signal now pass signal)) :
    Shared (exec ((atInstant w now).submit pass [signal]) s).2.shelf := by
  obtain ⟨hback, hclear⟩ := h
  refine under_shared (Fresh s.shelf) hs (fun _ hfresh => hfresh)
    (signal_leads (atInstant w now) ⟨trivial, fun request hr => allows_of_answers _ trivial (.inr fun _ => trivial) (hback request hr),
      fun sub e hask hsub o ho => ?_, fun _ _ _ _ _ _ _ _ => trivial⟩)
  obtain ⟨-, hanswers⟩ := triple_ok (RunnerFrames.triple_submitSignal (b := s.desk.portfolio) (w.withStop pass signal) w.sizing
    s.openOrderList) rfl hask
  obtain ⟨asked, hasked, ho'⟩ := hanswers hsub
  exact hclear (Option.isSome_iff_exists.2 ⟨_, taken_of hask hsub⟩) asked hasked _ (ho' hsub o ho).key

theorem exit_shared (hs : Shared s.shelf) {now : ℤ} {symbol : String} {reason : Purpose} (h : Orderly w s (.exit now symbol reason)) :
    Shared (exec ((atInstant w now).exitFor symbol (some reason)) s).2.shelf := by
  refine under_shared (Fresh s.shelf) hs (fun _ hfresh => hfresh)
    (exit_leads (atInstant w now) ⟨trivial, fun request hr => allows_of_answers _ trivial (.inr fun _ => trivial) (h request hr).1,
      fun sub e hask hsub o ho => ?_⟩)
  obtain ⟨-, hanswers⟩ := triple_ok (RunnerFrames.triple_flatten (b := s.desk.portfolio) symbol reason) rfl hask
  obtain ⟨request, hrequest, ho'⟩ := hanswers hsub
  exact (h request hrequest).2 (Option.isSome_iff_exists.2 ⟨_, taken_of hask hsub⟩) _ (ho' hsub o ho).key

/-- Every child is an object. -/
theorem Shared.grounded (h : Shared s.shelf) : Coverage.Grounded s.desk := by
  intro symbol ref hr
  obtain ⟨o, ho, -⟩ := h.children ref ⟨symbol, hr⟩
  exact (List.getElem?_eq_some_iff.1 ho).1

theorem protect_shared (hs : Shared s.shelf) {now : ℤ} {atr : String → Option ℚ} {entry : Ref} {order : Order} {retry : Bool}
    (h : Orderly w s (.protect now atr entry order retry)) :
    Shared (exec ((atInstant w now).protect atr entry order retry) s).2.shelf := by
  rcases protect_covered (atInstant w now) atr entry order retry s with hstill | ⟨u, stop, hstill, htakes, hplaced⟩
  · exact effect_shared hs (i := .aside) trivial hstill.aside
  · have hfresh := h stop htakes
    obtain ⟨-, result, e, ref, hexec, hone⟩ := htakes
    have hanswered := triple_ok (Coverage.triple_answered hs.grounded _ _) rfl hexec
    have hkey := hanswered.keyed (ref, stop) (by rw [hone]; exact List.mem_singleton_self _)
    refine effect_shared (effect_shared hs (i := .aside) trivial hstill.aside) (i := .placed order.symbol stop) ?_ hplaced
    rw [Apart, hkey]
    exact Aside.fresh hs hstill.aside hfresh

theorem retire_shared (hs : Shared s.shelf) {order : Order} (h : Orderly w s (.retire order)) :
    Shared (exec (w.retire order) s).2.shelf := by
  rcases retire_effect w order s with hsame | hretired
  · rwa [hsame]
  · refine effect_shared hs (i := .retired order) (fun ref found href hfound => h hretired.1 ref found ?_) hretired
    exact tracked_of href hfound

theorem warmup_shared (hs : Shared s.shelf) {stored : List Order} (h : Orderly w s (.warmup stored)) :
    Shared (StrategyRunner.restore stored s).shelf := by
  refine restore_keeps (I := fun a => Shared a ∧ ∀ o ∈ stored, Fresh a o.clientOrderId) (fun a o b ho ha hab => ?_)
    (fun _ ha => ha.1) (fun a ref o b ha hab => effect_shared ha (i := .adopted ref o) trivial hab) ⟨hs, h⟩
  refine ⟨effect_shared ha.1 (i := .restored o) (ha.2 o ho) hab, fun o' ho' => (ha.2 o' ho').mono ha.1 (fun _ hr => ?_) ⟨[o], ?_⟩⟩
  all_goals
    obtain rfl := hab
    first | exact hr | rfl

/-- **Every orderly act leaves one object for each child.** -/
theorem step_shared (hs : Shared s.shelf) {a : Act σ} (ha : Orderly w s a) (h : acting w s a t) : Shared t.shelf := by
  cases a with
  | signal now pass signal =>
    subst h
    exact signal_shared hs ha
  | exit now symbol reason =>
    subst h
    exact exit_shared hs ha
  | update u =>
    subst h
    cases hfound : s.tracked u.clientOrderId with
    | none => exact hs
    | some found => exact effect_shared hs (i := .updated found.1 _) trivial (applied_effect hfound)
  | protect now atr entry order retry =>
    subst h
    exact protect_shared hs ha
  | retire order =>
    subst h
    exact retire_shared hs ha
  | warmup stored =>
    subst h
    exact warmup_shared hs ha
  | aside => exact effect_shared hs (i := .aside) trivial h

/-- **Only live stops count**: in every run whose acts keep each child's key to the child, whatever is delivered and whatever
raises. -/
theorem only_live_stops_count (h0 : Started s) {l : List (Act σ)} (h : Run (guarded (acting w) (Orderly w)) s l t) :
    OnlyLiveCount t :=
  Shared.onlyLiveCount (run_guarded (Orderly w) (fun s => Shared s.shelf) (fun _ _ _ hs ha hstep => step_shared hs ha hstep)
    (started_shared h0) h)

end runs

/-! ## A second session -/

open StopRatchet (openRouter)
open Rearm (stopAt)

def stopCancelled : TradeUpdate where
  event := "canceled"
  clientOrderId := "s-1"
  brokerOrderId := "s-1"
  symbol := "AAPL"
  «at» := 1
  status := some .cancelled

/-- The stop is cancelled, and its object is over. -/
def cancelled : RunnerState Unit Unit Unit := applied inherited stopCancelled 0 (stopAt "s-1" 95)

/-- The cancelled stop no longer covers the position. -/
theorem only_live_stops_count_session : inherited.desk.brokerSideProtectedQty (inherited.desk.portfolio.position "AAPL") = 10 ∧
    cancelled.desk.brokerSideProtectedQty (cancelled.desk.portfolio.position "AAPL") = 0 ∧ OnlyLiveCount cancelled := by
  refine ⟨by decide +kernel, by decide +kernel, only_live_stops_count (w := runnerOf openRouter)
    (l := [.warmup [stopAt "s-1" 95], .update stopCancelled]) (bootedWith_started tenHeld)
    (.cons (t := inherited) ⟨rfl, fun o _ ref hbears => ?_⟩ (.cons ⟨?_, trivial⟩ (.nil _)))⟩
  · obtain ⟨⟨symbol, hr⟩, -⟩ := hbears
    cases hr
  · have hfound : inherited.tracked stopCancelled.clientOrderId = some (0, stopAt "s-1" 95) := by decide +kernel
    rw [acting, hfound]
    rfl

/-- The same two warmups that every session open makes, and the stop is cancelled. -/
def twoSessions : List (RunnerStep Unit) :=
  [.warmup [stopAt "s-1" 95], .warmup [stopAt "s-1" 95], .fillEvent (fun _ => none) stopCancelled]

/-- **A stop that the second warmup restores counts on after it is cancelled**: the event reaches the new object, and the
router has the old one. -/
theorem restored_stop_counts_on : ¬ ∀ (w : StrategyRunner Unit Unit Unit Unit) (s t : RunnerState Unit Unit Unit)
    (l : List (RunnerStep Unit)), Started s → Run w.step s l t → OnlyLiveCount t := by
  intro h
  have hrun : Run (runnerOf openRouter).step (bootedWith tenHeld) twoSessions
      (afterAll (runnerOf openRouter) twoSessions (bootedWith tenHeld)) := .cons rfl (.cons rfl (.cons rfl (.nil _)))
  have huncovered := (h _ _ _ _ (bootedWith_started tenHeld) hrun).uncovered
    { symbol := "AAPL", qty := 10, avgEntryPrice := 100, lastPrice := some 100 }
  have hnone : (afterAll (runnerOf openRouter) twoSessions (bootedWith tenHeld)).openOrders = .empty := by decide +kernel
  have hqty : (afterAll (runnerOf openRouter) twoSessions (bootedWith tenHeld)).desk.brokerSideProtectedQty
      { symbol := "AAPL", qty := 10, avgEntryPrice := 100, lastPrice := some 100 } = 10 := by decide +kernel
  rw [huncovered] at hqty
  · exact absurd hqty (by decide +kernel)
  · intro child _ ref copy hfound
    obtain ⟨href, -⟩ := tracked_some hfound
    rw [hnone, Dict.get?_empty] at href
    cases href

end LiveStops
end Atp
