import AlgoTrading.Moves
/-!
# RunnerMoves — what the runner's own calls move

The statements of `Runner`, wherever they raise, on the shelf of `Moves`: most of them leave it alone (`OfShelf`), a
submission and an exit come to what the router hands over, `_protect` to at most one stop, and a warmup to what it reads.
-/
namespace Atp

/-- The objects and the references of a runner and its router. -/
def RunnerState.shelf {β σ ω : Type} (s : RunnerState β σ ω) : Moves.Shelf := Moves.onShelf s.desk s.openOrders

namespace StrategyRunner

open Raising RunnerState

variable {β L σ ω : Type} (w : StrategyRunner β L σ ω)

/-- The first half of `_check_stops`: the ratchet, then `_exit_reason`. -/
def decideStop (pass : Pass σ) (symbol : String) (bar : Bar) : Prog (RunnerState β σ ω) Exc (Option Purpose) := do
  if w.stopConfig.stopType.isTrailing then
    let _ ← onPosition symbol (updateTrailing bar w.stopConfig (pass.atr symbol))
  let s ← get
  fromExcept (w.exitReason pass s (s.desk.portfolio.position symbol) bar)

/-- The second half: what there is a reason for is flattened. -/
def exitFor (symbol : String) : Option Purpose → Prog (RunnerState β σ ω) Exc Unit
  | none => return ()
  | some reason => do
    let s ← onDesk (w.router.flatten symbol reason)
    match s.result.submitted, s.object, s.result.order with
    | true, some ref, some order => modify (fun t => t.track ref order)
    | true, _, _ => return ()
    | false, _, _ =>
      w.recordRefusal s.result
      modify (fun t => t.noteProtectionGap symbol)

theorem checkStop_eq (pass : Pass σ) (symbol : String) (bar : Bar) :
    w.checkStop pass symbol bar = w.decideStop pass symbol bar >>= w.exitFor symbol := by
  unfold checkStop decideStop
  cases w.stopConfig.stopType.isTrailing with
  | true =>
    simp only [if_true, bind_assoc]
    refine bind_congr fun _ => bind_congr fun s => bind_congr fun due => ?_
    cases due <;> rfl
  | false =>
    simp only [Bool.false_eq_true, if_false, bind_assoc]
    refine bind_congr fun s => bind_congr fun due => ?_
    cases due <;> rfl

end StrategyRunner

namespace Moves

open Raising Runs RunnerState TradeUpdates

variable {α β L σ ω : Type} {a : Shelf} {ok : Move → Prop}

/-! ## The statements that leave the shelf alone -/

/-- **Said of neither the halts nor the storage nor the gaps nor the counters**: of the rest of the desk, and of the working
set. -/
def OfCore (I : RunnerState β σ ω → Prop) : Prop :=
  ∀ s t, t.desk = { s.desk with halts := t.desk.halts } → t.openOrders = s.openOrders → I s → I t

section core

variable (w : StrategyRunner β L σ ω) {I : RunnerState β σ ω → Prop} (hI : OfCore I)
include hI

theorem keeps_onStore (x : Prog ω Exc α) : Keeps I (onStore x : Prog (RunnerState β σ ω) Exc α) :=
  keeps_within x fun s _ h => hI s _ rfl rfl h

theorem keeps_engage (halt : Engagement) : Keeps I (w.engage halt) := by
  unfold StrategyRunner.engage
  exact keeps_bind (keeps_fromExcept _) fun _ => keeps_modify fun s h => hI s _ rfl rfl h

theorem keeps_recordRefusal (result : SubmitResult) : Keeps I (w.recordRefusal result) := by
  unfold StrategyRunner.recordRefusal
  split
  · exact keeps_bind (keeps_tried (keeps_onStore hI _)) fun _ => keeps_pure _
  · exact keeps_pure _

theorem keeps_escalate (decision : RiskDecision) : Keeps I (w.escalate decision) := by
  unfold StrategyRunner.escalate
  refine keeps_ite ?_ (keeps_ite ?_ (keeps_modify fun s h => hI s _ rfl rfl h))
  · exact keeps_bind (keeps_engage w hI _) fun _ => keeps_modify fun s h => hI s _ rfl rfl h
  · refine keeps_bind (keeps_modify fun s h => hI s _ rfl rfl h) fun _ => keeps_bind keeps_get fun s => ?_
    exact keeps_ite (keeps_engage w hI _) (keeps_pure _)

theorem keeps_noteProtectionGap (symbol : String) :
    Keeps I (modify (fun s => s.noteProtectionGap symbol) : Prog (RunnerState β σ ω) Exc Unit) := by
  apply keeps_modify
  intro s h
  unfold noteProtectionGap
  split
  · exact h
  · split
    · exact h
    · exact hI s _ rfl rfl h

theorem keeps_dropGap (symbol : String) :
    Keeps I (modify (fun s => s.dropGap symbol) : Prog (RunnerState β σ ω) Exc Unit) :=
  keeps_modify fun s h => hI s _ rfl rfl h

/-- What follows an answer that was refused. -/
theorem keeps_refused (signal : Signal) (result : SubmitResult) : Keeps I (do
    if result.decision.rule ≠ SubmitResult.noActionRule && !result.decision.approved then
      w.escalate result.decision
    w.recordRefusal result
    if signal.action = .exit then modify (fun t => t.noteProtectionGap signal.symbol)) := by
  apply keeps_when (keeps_escalate w hI _)
  apply keeps_bind (keeps_recordRefusal w hI _)
  intro _
  exact keeps_ite (keeps_noteProtectionGap hI _) (keeps_pure _)

theorem keeps_saveBook : Keeps I (w.saveBook : Prog (RunnerState β σ ω) Exc Unit) := by
  unfold StrategyRunner.saveBook
  refine keeps_bind keeps_get fun s => keeps_bind (triple_forM _ fun _ _ => keeps_onStore hI _) fun _ => ?_
  exact keeps_bind keeps_get fun _ => keeps_onStore hI _

theorem keeps_checkpoint : Keeps I (w.checkpoint : Prog (RunnerState β σ ω) Exc Unit) := by
  unfold StrategyRunner.checkpoint
  refine keeps_bind keeps_get fun s => keeps_ite (keeps_pure _) ?_
  exact keeps_bind (keeps_tried (keeps_saveBook w hI)) fun _ => keeps_pure _

/-- What is said of a placement once it is tracked is kept by the rest of `_protect`. -/
theorem triple_protectionPlaced (entry : Ref) (symbol : String) (retry : Bool) (result : ProtectionResult) :
    Triple (fun s => I (result.placed.foldl (fun s c => s.track c.1 c.2) s)) (w.protectionPlaced entry symbol retry result)
      (fun _ => I) (fun _ => I) := by
  unfold StrategyRunner.protectionPlaced
  have hgap (qty : ℚ) : Keeps I (modify (fun s => s.setGap symbol qty entry) : Prog (RunnerState β σ ω) Exc Unit) :=
    keeps_modify fun s h => hI s _ rfl rfl h
  refine triple_bind (R := fun _ => I) (triple_modify _ fun s h => h) fun _ => ?_
  refine keeps_ite (hgap _) (keeps_ite (keeps_dropGap hI _) (keeps_bind (hgap _) fun _ => ?_))
  exact keeps_ite (triple_forM _ fun _ _ => keeps_recordRefusal w hI _) (keeps_pure _)

/-- **`_protect`** leaves what its placement leaves, tracked; it comes to one where the position of the order is open and on
its side. -/
theorem triple_protect {P : RunnerState β σ ω → Prop} (hP : ∀ s, P s → I s) {atr : String → Option ℚ} {entry : Ref}
    {order : Order} {retry : Bool}
    (hplace : ∀ s, P s → (s.desk.portfolio.position order.symbol).isFlat = false →
      decide (0 < (s.desk.portfolio.position order.symbol).qty) = decide (order.side = .buy) →
        Triple (fun t => t = s) (onDesk (w.router.submitProtectiveOrders order (some w.stopConfig) (atr order.symbol)))
          (fun result s => I (result.placed.foldl (fun s c => s.track c.1 c.2) s)) (fun _ => I)) :
    Triple P (w.protect atr entry order retry) (fun _ => I) (fun _ => I) := by
  unfold StrategyRunner.protect
  refine triple_get_bind fun s hs => ?_
  have hstart : Triple (fun t => t = s) (pure () : Prog (RunnerState β σ ω) Exc Unit) (fun _ => I) (fun _ => I) :=
    triple_pure _ fun t ht => ht ▸ hP s hs
  refine triple_ite (fun _ => hstart) (fun hflat => triple_ite (fun _ => hstart) (fun hside => ?_))
  rw [Bool.not_eq_true] at hflat
  rw [not_ne_iff] at hside
  refine triple_bind (R := fun y s => I ((Coverage.placedBy y).foldl (fun s c => s.track c.1 c.2) s))
    (triple_tried (hplace s hs hflat hside)) fun y => ?_
  cases y with
  | error exc =>
    refine triple_bind (R := fun _ => I) (triple_modify _ fun s h => hI s _ rfl rfl h) fun _ => triple_throw _ fun _ h => h
  | ok result => exact triple_protectionPlaced w hI entry order.symbol retry result

/-- What `_protect` keeps for every order is kept by the retry loop. -/
theorem keeps_retryProtection {atr : String → Option ℚ}
    (hprotect : ∀ entry order, Keeps I (w.protect atr entry order true)) :
    ∀ l : List (String × Ref), Keeps I (w.retryProtection atr l)
  | [] => keeps_pure _
  | (symbol, ref) :: rest => by
    have hrest := keeps_retryProtection hprotect rest
    have hdrop : Keeps I (do
        modify (fun s : RunnerState β σ ω => s.dropGap symbol)
        w.retryProtection atr rest) := keeps_bind (keeps_dropGap hI _) fun _ => hrest
    unfold StrategyRunner.retryProtection
    refine keeps_bind keeps_get fun s₀ => ?_
    split
    · refine keeps_ite hdrop (keeps_ite ?_ hrest)
      exact keeps_bind (keeps_tried (hprotect ref _)) fun _ => hrest
    · exact hdrop

end core

/-- **Said of the shelf only.** -/
def OfShelf (I : RunnerState β σ ω → Prop) : Prop := ∀ s t, t.shelf = s.shelf → I s → I t

section shelf

variable {I : RunnerState β σ ω → Prop} (hI : OfShelf I)
include hI

theorem OfShelf.core : OfCore I := by
  intro s t hdesk hopen
  refine hI s t ?_
  unfold RunnerState.shelf
  rw [hdesk, hopen]
  rfl

theorem keeps_aside {f : RunnerState β σ ω → RunnerState β σ ω} (hf : ∀ s, (f s).shelf = s.shelf) :
    Keeps I (modify f : Prog (RunnerState β σ ω) Exc Unit) := keeps_modify fun s h => hI s _ (hf s) h

theorem keeps_decideStop (w : StrategyRunner β L σ ω) (pass : Pass σ) (symbol : String) (bar : Bar) :
    Keeps I (w.decideStop pass symbol bar) := by
  unfold StrategyRunner.decideStop
  refine keeps_when ?_ (keeps_bind keeps_get fun s => keeps_fromExcept _)
  exact keeps_within _ fun s _ h => hI s _ rfl h

end shelf

theorem shelf_markBrokerProtection (s : RunnerState β σ ω) : (StrategyRunner.markBrokerProtection s).shelf = s.shelf := by
  unfold StrategyRunner.markBrokerProtection
  generalize s.desk.portfolio.openPositions = l
  induction l generalizing s with
  | nil => rfl
  | cons p l ih => exact ih _

theorem shelf_marked (marks : List (String × ℚ)) (s : RunnerState β σ ω) : (StrategyRunner.marked marks s).shelf = s.shelf := by
  unfold StrategyRunner.marked
  induction marks generalizing s with
  | nil => rfl
  | cons m marks ih => exact ih _

/-- Moves of these kinds have led here. -/
def From (ok : Move → Prop) (a : Shelf) (s : RunnerState β σ ω) : Prop := Leads ok a s.shelf

theorem from_ofShelf (ok : Move → Prop) (a : Shelf) : OfShelf (From ok a : RunnerState β σ ω → Prop) := by
  intro s t h hs
  unfold From at hs ⊢
  rwa [h]

/-! ## What the router hands over -/

/-- What the runner is handed: an order that the venue works and nobody tracks yet, or moves alone. -/
def Handed (ok : Move → Prop) (a : Shelf) (sub : Submission) (s : RunnerState β σ ω) : Prop :=
  if sub.result.submitted then ∃ u o, Leads ok a u ∧ s.shelf = (u.grown o).withWorking o.clientOrderId ∧ o.isComplete = false ∧
    sub.object = some u.heap.length ∧ sub.result.order = some o
  else From ok a s

theorem handed_ofShelf (ok : Move → Prop) (a : Shelf) (sub : Submission) :
    OfShelf (Handed ok a sub : RunnerState β σ ω → Prop) := by
  intro s t h hs
  unfold Handed From at hs ⊢
  rwa [h]

theorem handed_of_told {s : RunnerState β σ ω} {sub : Submission} {e : Desk β σ} (h : Told ok s.desk sub e) :
    Handed ok s.shelf sub { s with desk := e } := by
  unfold Told at h
  unfold Handed
  split
  · rename_i hsub
    rw [if_pos hsub] at h
    obtain ⟨u, o, hu, hw, href, ho⟩ := h
    refine ⟨onShelf u s.openOrders, o, hu _, ?_, ?_, href, ho⟩
    · unfold RunnerState.shelf onShelf Shelf.withWorking Shelf.grown
      simp [hw.heap, hw.protective, hw.working]
    · unfold Order.isComplete
      rw [hw.status]
      rfl
  · rename_i hsub
    rw [if_neg hsub] at h
    exact h _

section handed
variable {s : RunnerState β σ ω} {sub : Submission} {ref : Ref} {o : Order}

theorem handed_refused (hsub : sub.result.submitted = false) (h : Handed ok a sub s) : From ok a s := by
  unfold Handed at h
  rwa [hsub] at h

/-- What the venue works comes with its object. -/
theorem handed_object (h : Handed ok a sub s) (hsub : sub.result.submitted = true)
    (hnot : ∀ ref o, sub.object = some ref → sub.result.order = some o → False) : False := by
  unfold Handed at h
  rw [if_pos hsub] at h
  obtain ⟨u, o, -, -, -, href, ho⟩ := h
  exact hnot _ _ href ho

/-- An order that is handed over and tracked is accepted. -/
theorem From.tracked (h : Handed ok a sub s) (hsub : sub.result.submitted = true) (href : sub.object = some ref)
    (ho : sub.result.order = some o) (haccepted : ok (.accepted o)) : From ok a (s.track ref o) := by
  unfold Handed at h
  rw [if_pos hsub] at h
  obtain ⟨u, o', hu, hs, hlive, href', ho'⟩ := h
  obtain rfl : ref = u.heap.length := Option.some.inj (href.symm.trans href')
  obtain rfl : o = o' := Option.some.inj (ho.symm.trans ho')
  refine hu.trans (Effect.leads (i := .accepted o) ⟨hlive, ?_⟩ haccepted ?_)
  all_goals
    unfold RunnerState.track
    rw [hlive]
  · exact congrArg (fun t : Shelf => t.withOpen o.clientOrderId u.heap.length) hs
  · have hheap : s.desk.heap = u.heap ++ [o] := congrArg Shelf.heap hs
    exact ⟨[o], hheap.symm⟩

/-- An order that is handed over to a raise has lapsed. -/
theorem From.lapsed (h : Handed ok a sub s)
    (hlapsed : sub.result.submitted = true → ∀ o, sub.result.order = some o → ok (.lapsed o)) : From ok a s := by
  unfold Handed at h
  split at h
  · rename_i hsub
    obtain ⟨u, o, hu, hs, -, -, ho⟩ := h
    refine hu.trans (Effect.leads (i := .lapsed o) hs (hlapsed hsub o ho) ?_)
    have hheap : s.desk.heap = u.heap ++ [o] := congrArg Shelf.heap hs
    exact ⟨[o], hheap.symm⟩
  · exact h

end handed

section runner

variable (w : StrategyRunner β L σ ω) {s : RunnerState β σ ω}

/-- `_submit` after the signal is recorded, and `_check_stops` after a flatten: what is handed over is tracked. -/
theorem triple_settleSubmission (signal : Signal) {sub : Submission}
    (haccepted : sub.result.submitted = true → ∀ o, sub.result.order = some o → ok (.accepted o)) :
    Triple (Handed ok a sub) (w.settleSubmission signal sub) (fun _ => From ok a) (fun _ => From ok a) := by
  have hI : OfCore (From ok a : RunnerState β σ ω → Prop) := (from_ofShelf ok a).core
  unfold StrategyRunner.settleSubmission
  split
  · rename_i ref order hsub href ho
    exact triple_modify _ fun s h => From.tracked h hsub href ho (haccepted hsub order ho)
  · rename_i hsub hnot
    exact triple_pure _ fun s h => (handed_object h hsub hnot).elim
  · rename_i hsub
    exact triple_conseq (keeps_refused w hI signal sub.result) (fun _ h => handed_refused hsub h) (fun _ _ h => h)
      (fun _ _ h => h)

/-- What the venue is asked for a signal. -/
def askSignal (s : RunnerState β σ ω) (pass : Pass σ) (signal : Signal) : Prog (Desk β σ) Exc Submission :=
  w.router.submitSignal (w.withStop pass signal) w.sizing s.openOrderList

/-- The closes a signal asks for allow these moves, and what the venue takes of it may be accepted; where its row is not taken,
it has lapsed. -/
structure AllowsSignal (ok : Move → Prop) (s : RunnerState β σ ω) (pass : Pass σ) (signal : Signal) : Prop where
  aside : ok .aside
  close : ∀ request ∈ signalClose (w.withStop pass signal) s.desk.portfolio w.sizing,
    Allows ok w.router s.openOrderList s.desk request
  accepted : ∀ sub e, exec (askSignal w s pass signal) s.desk = (.ok sub, e) → sub.result.submitted = true →
    ∀ o, sub.result.order = some o → ok (.accepted o)
  lapsed : ∀ sub e exc, exec (askSignal w s pass signal) s.desk = (.ok sub, e) → sub.result.submitted = true →
    (exec (w.repos.saveSignal signal sub.result) s.store).1 = .error exc → ∀ o, sub.result.order = some o → ok (.lapsed o)

/-- **One signal of `_submit`.** -/
theorem signal_leads {pass : Pass σ} {signal : Signal} (h : AllowsSignal w ok s pass signal) :
    Leads ok s.shelf (exec (w.submit pass [signal]) s).2.shelf := by
  have hsubmit : Triple (fun t => t = s) (w.submit pass [signal]) (fun _ => From ok s.shelf) (fun _ => From ok s.shelf) := by
    unfold StrategyRunner.submit
    refine triple_ite (fun _ => triple_pure _ fun t ht => by rw [ht]; exact Leads.refl _) (fun _ => ?_)
    refine triple_get_bind fun t ht => ?_
    subst ht
    refine triple_bind (R := fun sub u => Handed ok t.shelf sub u ∧ u.store = t.store ∧
      ∃ e, exec (askSignal w t pass signal) t.desk = (.ok sub, e)) ?_ fun sub => triple_at fun u hu => ?_
    · apply triple_within
      rintro v rfl
      exact triple_conseq (triple_and (triple_submitSignal h.aside h.close) (triple_exec (askSignal w v pass signal) v.desk))
        (fun e he => ⟨he, he⟩) (fun sub e he => ⟨handed_of_told he.1, rfl, e, he.2⟩) (fun _ e he => he.1 _)
    obtain ⟨hhanded, hstore, e, hask⟩ := hu
    refine triple_bind (R := fun _ => Handed ok t.shelf sub) ?_ fun _ =>
      triple_bind (triple_settleSubmission w signal fun hsub o ho => h.accepted sub e hask hsub o ho) fun _ => keeps_pure _
    unfold StrategyRunner.recordSignal
    apply triple_within
    rintro v rfl
    refine triple_conseq (triple_exec (w.repos.saveSignal signal sub.result) v.store) (fun _ hw => hw)
      (fun _ _ _ => handed_ofShelf ok t.shelf sub v _ rfl hhanded) (fun exc x hx => ?_)
    refine From.lapsed (handed_ofShelf ok t.shelf sub v _ rfl hhanded) fun hsub o ho =>
      h.lapsed sub e exc hask hsub ?_ o ho
    rw [← hstore, hx]
  exact triple_left hsubmit rfl

/-- The closes an exit asks for allow these moves, and what the venue takes of it may be accepted. -/
structure AllowsExit (ok : Move → Prop) (s : RunnerState β σ ω) (symbol : String) (reason : Purpose) : Prop where
  aside : ok .aside
  close : ∀ request ∈ flattenClose symbol reason w.router.now s.desk.portfolio, Allows ok w.router [] s.desk request
  accepted : ∀ sub e, exec (w.router.flatten symbol reason) s.desk = (.ok sub, e) → sub.result.submitted = true →
    ∀ o, sub.result.order = some o → ok (.accepted o)

/-- **An exit of `_check_stops`.** -/
theorem exit_leads {symbol : String} {reason : Purpose} (h : AllowsExit w ok s symbol reason) :
    Leads ok s.shelf (exec (w.exitFor symbol (some reason)) s).2.shelf := by
  have hI : OfCore (From ok s.shelf : RunnerState β σ ω → Prop) := (from_ofShelf ok s.shelf).core
  have hexit : Triple (fun t => t = s) (w.exitFor symbol (some reason)) (fun _ => From ok s.shelf) (fun _ => From ok s.shelf) := by
    unfold StrategyRunner.exitFor
    refine triple_bind (R := fun sub u => Handed ok s.shelf sub u ∧
      ∃ e, exec (w.router.flatten symbol reason) s.desk = (.ok sub, e)) ?_ fun sub => triple_at fun u hu => ?_
    · apply triple_within
      rintro t rfl
      exact triple_conseq (triple_and (triple_flatten h.close) (triple_exec (w.router.flatten symbol reason) t.desk))
        (fun e he => ⟨he, he⟩) (fun sub e he => ⟨handed_of_told he.1, e, he.2⟩) (fun _ e he => he.1 _)
    obtain ⟨hhanded, e, hask⟩ := hu
    split
    · rename_i ref order hsub href ho
      exact triple_modify _ fun t ht => ht ▸ From.tracked hhanded hsub href ho (h.accepted sub e hask hsub order ho)
    · rename_i hsub hnot
      exact (handed_object hhanded hsub hnot).elim
    · rename_i hsub
      have hend : Keeps (From ok s.shelf) (do w.recordRefusal sub.result; modify (fun t => t.noteProtectionGap symbol)) :=
        keeps_bind (keeps_recordRefusal w hI _) fun _ => keeps_noteProtectionGap hI _
      exact triple_conseq hend (fun _ ht => ht ▸ handed_refused hsub hhanded) (fun _ _ ht => ht) (fun _ _ ht => ht)
  exact triple_left hexit rfl

/-! ## What `_protect` places -/

/-- Nothing but asides. -/
def Still (a b : Shelf) : Prop := Leads (· = .aside) a b

theorem Still.aside {b : Shelf} (h : Still a b) : Aside a b := by
  obtain ⟨-, l, hl⟩ := h
  induction hl with
  | nil s => exact ⟨⟨[], by simp⟩, fun _ _ hr => hr, rfl, rfl⟩
  | cons hstep _ ih =>
    obtain ⟨heffect, rfl⟩ := hstep
    obtain ⟨l, hl⟩ := Aside.heap heffect
    obtain ⟨l', hl'⟩ := ih.heap
    exact ⟨⟨l ++ l', by rw [hl', hl, List.append_assoc]⟩, fun symbol ref hr => Aside.children heffect symbol ref (ih.children symbol ref hr),
      ih.openOrders.trans (Aside.openOrders heffect), ih.working.trans (Aside.working heffect)⟩

/-- The position of an order is open, and on its side. -/
def Opens (s : RunnerState β σ ω) (order : Order) : Prop :=
  (s.desk.portfolio.position order.symbol).isFlat = false ∧
    decide (0 < (s.desk.portfolio.position order.symbol).qty) = decide (order.side = .buy)

/-- **The venue takes this stop behind an order.** -/
def TakesStop (s : RunnerState β σ ω) (atr : String → Option ℚ) (order stop : Order) : Prop :=
  Opens s order ∧ ∃ result e ref, exec (w.router.submitProtectiveOrders order (some w.stopConfig) (atr order.symbol)) s.desk =
    (.ok result, e) ∧ result.placed = [(ref, stop)]

/-- What `_protect` comes to: asides, and at most one stop that the venue takes. -/
def Covered (s : RunnerState β σ ω) (atr : String → Option ℚ) (order : Order) (t : RunnerState β σ ω) : Prop :=
  Still s.shelf t.shelf ∨
    ∃ u stop, Still s.shelf u ∧ TakesStop w s atr order stop ∧ Effect u (.placed order.symbol stop) t.shelf

theorem covered_ofShelf (atr : String → Option ℚ) (order : Order) : OfShelf (Covered w s atr order) := by
  intro t u h ht
  unfold Covered at ht ⊢
  rwa [h]

/-- A placement that is booked with the runner. -/
theorem covered_of_placed {e : Desk β σ} {atr : String → Option ℚ} {order : Order} {result : ProtectionResult}
    (h : Placed (· = .aside) s.desk order.symbol result.placed e)
    (htakes : ∀ ref stop, result.placed = [(ref, stop)] → TakesStop w s atr order stop) :
    Covered w s atr order (result.placed.foldl (fun t c => t.track c.1 c.2) { s with desk := e }) := by
  rcases h with ⟨hnone, hled⟩ | ⟨u, o, hu, hone, hput⟩
  · rw [hnone]
    exact .inl (hled _)
  · have hlive : o.isComplete = false := by
      unfold Order.isComplete
      rw [hput.status]
      rfl
    refine .inr ⟨onShelf u s.openOrders, o, hu _, htakes _ o hone, hlive, ?_⟩
    rw [hone]
    simp only [List.foldl_cons, List.foldl_nil, RunnerState.track, hlive]
    unfold RunnerState.shelf onShelf Shelf.withOpen Shelf.withChild Shelf.withWorking Shelf.grown Shelf.refs
    simp [hput.heap, hput.protective, hput.working, Coverage.refsOf]

/-- **`_protect`.** -/
theorem protect_covered (atr : String → Option ℚ) (entry : Ref) (order : Order) (retry : Bool) (s : RunnerState β σ ω) :
    Covered w s atr order (exec (w.protect atr entry order retry) s).2 := by
  have hprotect : Triple (fun t => t = s) (w.protect atr entry order retry) (fun _ => Covered w s atr order)
      (fun _ => Covered w s atr order) := by
    refine triple_protect w (covered_ofShelf w atr order).core (fun t ht => ht ▸ .inl (Leads.refl _)) fun t ht hopen hside => ?_
    subst ht
    apply triple_within
    rintro v rfl
    exact triple_conseq (triple_and (triple_submitProtectiveOrders (· = .aside) rfl order (some w.stopConfig)
      (atr order.symbol)) (triple_exec (w.router.submitProtectiveOrders order (some w.stopConfig) (atr order.symbol)) v.desk))
      (fun e he => ⟨he, he⟩)
      (fun result e h => covered_of_placed w h.1 fun ref stop hone => ⟨⟨hopen, hside⟩, result, e, ref, h.2, hone⟩)
      (fun _ e h => .inl (h.1 _))
  exact triple_left hprotect rfl

/-- `_protect` leaves every object where it is. -/
theorem protect_object {ref entry : Ref} {o order : Order} {atr : String → Option ℚ} {retry : Bool}
    (h : s.desk.heap[ref]? = some o) : (exec (w.protect atr entry order retry) s).2.desk.heap[ref]? = some o := by
  rcases protect_covered w atr entry order retry s with hstill | ⟨u, stop, hstill, -, -, heq⟩
  · exact hstill.object h
  · have hold : u.heap[ref]? = some o := hstill.object h
    obtain ⟨hlt, -⟩ := List.getElem?_eq_some_iff.1 hold
    have hheap : (exec (w.protect atr entry order retry) s).2.desk.heap = u.heap ++ [stop] := congrArg Shelf.heap heq
    rw [hheap, List.getElem?_append_left hlt, hold]

end runner

/-! ## An event -/

theorem applied_key (u : TradeUpdate) (o : Order) : (exec (applyTradeUpdate u) o).2.clientOrderId = o.clientOrderId := by
  have h := applyTradeUpdate_outcome o u
  generalize (exec (applyTradeUpdate u) o).1 = r at h
  generalize (exec (applyTradeUpdate u) o).2 = o' at h
  cases h <;> simp

/-- The runner after an update was applied to the object. -/
def applied (s : RunnerState β σ ω) (u : TradeUpdate) (ref : Ref) (before : Order) : RunnerState β σ ω :=
  { s with desk := { s.desk with heap := s.desk.heap.set ref (exec (applyTradeUpdate u) before).2 } }

theorem tracked_some {s : RunnerState β σ ω} {key : String} {ref : Ref} {o : Order} (h : s.tracked key = some (ref, o)) :
    s.openOrders.get? key = some ref ∧ s.desk.heap[ref]? = some o := by
  unfold RunnerState.tracked at h
  obtain ⟨ref', href, hmap⟩ := Option.bind_eq_some_iff.1 h
  obtain ⟨o', ho, heq⟩ := Option.map_eq_some_iff.1 hmap
  cases heq
  exact ⟨href, ho⟩

theorem tracked_of {s : RunnerState β σ ω} {key : String} {ref : Ref} {o : Order} (href : s.openOrders.get? key = some ref)
    (ho : s.desk.heap[ref]? = some o) : s.tracked key = some (ref, o) := by
  unfold RunnerState.tracked
  rw [href, Option.bind_some, ho, Option.map_some]

theorem applied_effect {s : RunnerState β σ ω} {u : TradeUpdate} {ref : Ref} {before : Order}
    (h : s.tracked u.clientOrderId = some (ref, before)) :
    Effect s.shelf (.updated ref (exec (applyTradeUpdate u) before).2) (applied s u ref before).shelf := by
  obtain ⟨href, hbefore⟩ := tracked_some h
  exact ⟨⟨u.clientOrderId, before, href, hbefore, (applied_key u before).symm⟩, rfl⟩

/-- A completed order leaves the working set, or nothing moves. -/
theorem retire_effect (w : StrategyRunner β L σ ω) (order : Order) (s : RunnerState β σ ω) :
    (exec (w.retire order) s).2.shelf = s.shelf ∨ Effect s.shelf (.retired order) (exec (w.retire order) s).2.shelf := by
  unfold StrategyRunner.retire
  by_cases hdone : order.isComplete = true
  · rw [if_pos hdone, exec_bind]
    unfold onStore
    rw [exec_within]
    rcases exec (w.repos.saveOrder order) s.store with ⟨_ | _, x⟩
    · exact .inl rfl
    · exact .inr ⟨hdone, rfl⟩
  · rw [if_neg hdone]
    exact .inl rfl

/-! ## The warmup -/

/-- One object of a warmup is adopted or left. -/
theorem adoptOne_cases (d : Desk β σ) (ref : Ref) :
    d.adoptOne ref = d ∨ ∃ o, d.heap[ref]? = some o ∧ d.adoptOne ref = d.addChild o.symbol ref := by
  unfold Desk.adoptOne
  split
  · exact .inl rfl
  · rename_i o ho
    split
    · exact .inl rfl
    · exact .inr ⟨o, ho, rfl⟩

/-- **What survives the orders restored, and then the objects adopted, survives a warmup.** -/
theorem restore_keeps {I J : Shelf → Prop} {stored : List Order} {s : RunnerState β σ ω}
    (hrestored : ∀ a o b, o ∈ stored → I a → Effect a (.restored o) b → I b) (hread : ∀ a, I a → J a)
    (hadopted : ∀ a ref o b, J a → Effect a (.adopted ref o) b → J b) (hs : I s.shelf) :
    J (StrategyRunner.restore stored s).shelf := by
  have hput : I (stored.foldl StrategyRunner.restoreOne s).shelf := by
    induction stored generalizing s with
    | nil => exact hs
    | cons o stored ih =>
      exact ih (fun a o' b ho' => hrestored a o' b (List.mem_cons_of_mem _ ho'))
        (hrestored s.shelf o (StrategyRunner.restoreOne s o).shelf List.mem_cons_self hs rfl)
  have hrefs : ∀ ref ∈ (stored.foldl StrategyRunner.restoreOne s).openOrders.values,
      ∃ key, (stored.foldl StrategyRunner.restoreOne s).openOrders.get? key = some ref := fun ref hr =>
    (Dict.mem_values_iff _ ref).1 hr
  have hadopt (refs : List Ref) (d : Desk β σ) (openOrders : Dict String Ref)
      (hrefs : ∀ ref ∈ refs, ∃ key, openOrders.get? key = some ref) (hd : J (onShelf d openOrders)) :
      J (onShelf (d.adoptProtection refs) openOrders) := by
    unfold Desk.adoptProtection
    induction refs generalizing d with
    | nil => exact hd
    | cons ref refs ih =>
      rw [List.foldl_cons]
      refine ih _ (fun ref' hr => hrefs ref' (List.mem_cons_of_mem _ hr)) ?_
      rcases adoptOne_cases d ref with hsame | ⟨o, ho, hadds⟩
      · rwa [hsame]
      · rw [hadds]
        exact hadopted (onShelf d openOrders) ref o _ hd ⟨ho, hrefs ref List.mem_cons_self, rfl⟩
  exact hadopt _ _ _ hrefs (hread _ hput)

end Moves
end Atp
