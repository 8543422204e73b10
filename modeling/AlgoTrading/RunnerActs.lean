import AlgoTrading.RunnerMoves
/-!
# RunnerActs — a runner, one call at a time

A pass retries its gaps, leaves what is due and submits its signals; an event applies an update, books its fill, protects
what it filled and retires what is over.  Each of these calls is an act on the state it finds, and a pass, an event or a
warmup is a run of acts, wherever it raises (`run_reached`).  What an act may do is said of that state and of what the venue
and the storage answer.
-/
namespace Atp
namespace RunnerActs

open Raising Runs RunnerState TradeUpdates Moves

variable {β L σ ω : Type}

/-- What the router's clock reads is another for each call. -/
def atInstant (w : StrategyRunner β L σ ω) (now : ℤ) : StrategyRunner β L σ ω :=
  { w with router := { w.router with now := now } }

/-- What a runner does: `_submit` comes to a signal, `_check_stops` leaves a position, an update is applied to the order it
names, `_protect` is called, a completed order is retired, a warmup restores; and what tracks and arms nothing. -/
inductive Act (σ : Type)
  | signal (now : ℤ) (pass : Pass σ) (signal : Signal)
  | exit (now : ℤ) (symbol : String) (reason : Purpose)
  | update (update : TradeUpdate)
  | protect (now : ℤ) (atr : String → Option ℚ) (entry : Ref) (order : Order) (retry : Bool)
  | retire (order : Order)
  | warmup (stored : List Order)
  | aside

def acting (w : StrategyRunner β L σ ω) (s : RunnerState β σ ω) (a : Act σ) (t : RunnerState β σ ω) : Prop :=
  match a with
  | .signal now pass signal => t = (exec ((atInstant w now).submit pass [signal]) s).2
  | .exit now symbol reason => t = (exec ((atInstant w now).exitFor symbol (some reason)) s).2
  | .update u => t = (s.tracked u.clientOrderId).elim s fun found => applied s u found.1 found.2
  | .protect now atr entry order retry => t = (exec ((atInstant w now).protect atr entry order retry) s).2
  | .retire order => t = (exec (w.retire order) s).2
  | .warmup stored => t = StrategyRunner.restore stored s
  | .aside => Aside s.shelf t.shelf

/-! ## What the venue answers -/

/-- What the venue says to a call of a sweep. -/
inductive Said
  | done
  | refused
  | raised
deriving DecidableEq

section answers
variable (r : OrderRouter β L σ)

/-- The answers to the cancels of a sweep, up to a raise. -/
def cancels : List (Option Ref × Order) → Desk β σ → List Said
  | [], _ => []
  | (_, child) :: rest, d =>
    match child.isComplete, child.brokerOrderId with
    | false, some id =>
      match exec (r.cancelled id) d with
      | (.ok true, e) => .done :: cancels rest e
      | (.ok false, e) => .refused :: cancels rest e
      | (.error _, _) => [.raised]
    | _, _ => cancels rest d

/-- What the venue says to the sweep behind a close it has taken: to the read of its orders, then to each cancel. -/
def sweep (request : OrderRequest) (pending : List Order) (d : Desk β σ) : List Said :=
  match exec (r.submit request pending) d with
  | (.error _, _) => []
  | (.ok s, e) =>
    if s.result.submitted then
      match exec (r.inheritedProtection request.symbol none (e.trackedBrokerIds request.symbol)) e with
      | (.error _, _) => [.raised]
      | (.ok inherited, f) =>
        .done :: cancels r ((e.childRefs request.symbol).map (fun c => (some c.1, c.2)) ++ inherited.map (fun o => (none, o))) f
    else []

/-- No call of the sweep behind a close raises. -/
def Swept (pending : List Order) (d : Desk β σ) (request : OrderRequest) : Prop := .raised ∉ sweep r request pending d

/-- The venue takes no stop that `_rearm` sends behind a close. -/
def NoneBack (pending : List Order) (d : Desk β σ) (request : OrderRequest) : Prop :=
  match Rearm.answers r request pending d with
  | .retryRefused replies => replies.all (fun reply => decide (reply = .raised ∨ reply = .refused)) = true
  | _ => True

instance (pending : List Order) (d : Desk β σ) (request : OrderRequest) : Decidable (Swept r pending d request) :=
  inferInstanceAs (Decidable (_ ∉ _))

instance (pending : List Order) (d : Desk β σ) (request : OrderRequest) : Decidable (NoneBack r pending d request) := by
  unfold NoneBack
  split <;> infer_instance

/-- What comes of an order that the venue takes in a call. -/
def taken (x : Prog (Desk β σ) Exc Submission) (d : Desk β σ) : Option SubmitResult :=
  match exec x d with
  | (.ok s, _) => if s.result.submitted then some s.result else none
  | (.error _, _) => none

/-- Where the cancels of a sweep raise, the venue has said so. -/
theorem cancelEach_raised : ∀ (l : List (Option Ref × Order)) (survivors : List Ref) (n : ℕ) {d e : Desk β σ} {exc : Exc},
    exec (r.cancelEach l survivors n) d = (.error exc, e) → .raised ∈ cancels r l d
  | [], _, _, d, e, exc, h => by cases h
  | (ref, child) :: rest, survivors, n, d, e, exc, h => by
    unfold OrderRouter.cancelEach at h
    unfold cancels
    cases hopen : child.isComplete with
    | true =>
      simp only [hopen] at h ⊢
      exact cancelEach_raised rest survivors n h
    | false =>
      cases hid : child.brokerOrderId with
      | none =>
        simp only [hopen, hid] at h ⊢
        exact cancelEach_raised rest survivors n h
      | some id =>
        simp only [hopen, hid] at h ⊢
        rw [exec_bind] at h
        rcases hexec : exec (r.cancelled id) d with ⟨_ | c, d'⟩ <;> simp only [hexec] at h ⊢
        · exact List.mem_singleton.2 rfl
        · cases c with
          | true => exact List.mem_cons_of_mem _ (cancelEach_raised rest survivors (n + 1) h)
          | false => exact List.mem_cons_of_mem _ (cancelEach_raised rest _ n h)

/-- **Where the sweep behind a close raises, the venue has said so.** -/
theorem sweep_raised {request : OrderRequest} {pending : List Order} {s : Submission} {d e f : Desk β σ} {exc : Exc}
    (hs : exec (r.submit request pending) d = (.ok s, e)) (hsub : s.result.submitted = true)
    (h : exec (r.cancelProtection request.symbol) e = (.error exc, f)) : .raised ∈ sweep r request pending d := by
  unfold sweep
  simp only [hs, hsub, if_true]
  unfold OrderRouter.cancelProtection at h
  rw [exec_bind, exec_get] at h
  simp only [exec_bind] at h
  rcases hread : exec (r.inheritedProtection request.symbol none (e.trackedBrokerIds request.symbol)) e with ⟨_ | inherited, e'⟩ <;>
    simp only [hread] at h ⊢
  · exact List.mem_singleton.2 rfl
  · refine List.mem_cons_of_mem _ ?_
    rcases hcancel : exec (r.cancelEach _ [] 0) e' with ⟨_ | swept, e''⟩
    · exact cancelEach_raised r _ _ _ hcancel
    · simp only [hcancel] at h
      cases h

/-- What a close allows, by what the venue answers it. -/
theorem allows_of_answers {ok : Move → Prop} (hok : ok .aside) {pending : List Order} {d : Desk β σ} {request : OrderRequest}
    (hsweep : Swept r pending d request ∨ ∀ o, ok (.lapsed o)) (hback : NoneBack r pending d request) :
    Allows ok r pending d request where
  aside := hok
  sweep s e exc f hs hsub hraise := hsweep.elim (fun h => absurd (sweep_raised r hs hsub hraise) h) fun h => h
  rearm replies qty hanswers hmem := by
    unfold NoneBack at hback
    rw [hanswers] at hback
    have hreply := List.all_eq_true.1 hback _ hmem
    simp at hreply

end answers

/-! ## Passes, events and warmups are runs of acts -/

variable {w : StrategyRunner β L σ ω} {s t : RunnerState β σ ω}

/-- A run of acts leads here. -/
def Reached (w : StrategyRunner β L σ ω) (s t : RunnerState β σ ω) : Prop := ∃ l, Run (acting w) s l t

theorem Reached.refl (w : StrategyRunner β L σ ω) (s : RunnerState β σ ω) : Reached w s s := ⟨[], .nil s⟩

theorem Reached.trans {u : RunnerState β σ ω} (h : Reached w s t) (h' : Reached w t u) : Reached w s u := by
  obtain ⟨l, hl⟩ := h
  obtain ⟨l', hl'⟩ := h'
  exact ⟨l ++ l', run_append_iff.2 ⟨t, hl, hl'⟩⟩

theorem Reached.act {u : RunnerState β σ ω} (h : Reached w s t) (a : Act σ) (hact : acting w t a u) : Reached w s u :=
  h.trans ⟨[a], .cons hact (.nil u)⟩

theorem reached_ofShelf (w : StrategyRunner β L σ ω) (s : RunnerState β σ ω) : OfShelf (Reached w s) := by
  intro t u hshelf h
  refine h.act .aside ?_
  show Aside t.shelf u.shelf
  rw [hshelf]
  exact ⟨⟨[], by simp⟩, fun _ _ hr => hr, rfl, rfl⟩

/-- A call that is an act. -/
theorem keeps_act {x : Prog (RunnerState β σ ω) Exc Unit} (a : Act σ) (hact : ∀ t, acting w t a (exec x t).2) :
    Keeps (Reached w s) x := by
  refine triple_at fun t ht => ?_
  have hend : Reached w s (exec x t).2 := ht.act a (hact t)
  refine triple_conseq (triple_exec x t) (fun _ h => h) (fun _ u h => ?_) (fun _ u h => ?_) <;>
  · rw [h] at hend
    exact hend

section turns
variable (now : ℤ)

theorem keeps_protect (atr : String → Option ℚ) (entry : Ref) (order : Order) (retry : Bool) :
    Keeps (Reached w s) ((atInstant w now).protect atr entry order retry) :=
  keeps_act (.protect now atr entry order retry) fun _ => rfl

theorem keeps_retire (order : Order) : Keeps (Reached w s) ((atInstant w now).retire order) :=
  keeps_act (.retire order) fun _ => rfl

theorem keeps_checkStops (pass : Pass σ) : ∀ l : List String, Keeps (Reached w s) ((atInstant w now).checkStops pass l)
  | [] => keeps_pure _
  | symbol :: rest => by
    unfold StrategyRunner.checkStops
    split
    · exact keeps_checkStops pass rest
    · rename_i bar _
      refine keeps_bind ?_ fun _ => keeps_checkStops pass rest
      rw [StrategyRunner.checkStop_eq]
      refine keeps_bind (keeps_decideStop (reached_ofShelf w s) _ pass symbol bar) fun due => ?_
      cases due with
      | none => exact keeps_pure _
      | some reason => exact keeps_act (.exit now symbol reason) fun _ => rfl

theorem submit_cons (w : StrategyRunner β L σ ω) (pass : Pass σ) (signal : Signal) (rest : List Signal) :
    w.submit pass (signal :: rest) = (do w.submit pass [signal]; w.submit pass rest) := by
  have hnil : w.submit pass [] = pure () := rfl
  rw [StrategyRunner.submit, StrategyRunner.submit, hnil]
  split
  · rw [pure_bind]
  · simp only [bind_assoc, pure_bind]

theorem keeps_submit (pass : Pass σ) : ∀ l : List Signal, Keeps (Reached w s) ((atInstant w now).submit pass l)
  | [] => keeps_pure _
  | signal :: rest => by
    rw [submit_cons]
    exact keeps_bind (keeps_act (.signal now pass signal) fun _ => rfl) fun _ => keeps_submit pass rest

theorem keeps_evaluateOnce (pass : Pass σ) : Keeps (Reached w s) ((atInstant w now).evaluateOnce pass) := by
  have hI := reached_ofShelf w s
  unfold StrategyRunner.evaluateOnce
  refine keeps_bind (keeps_fromExcept _) fun marks => keeps_bind (keeps_aside hI (shelf_marked marks)) fun _ => ?_
  refine keeps_bind (keeps_aside hI fun _ => rfl) fun _ => keeps_bind keeps_get fun s₀ => ?_
  refine keeps_bind (keeps_retryProtection _ hI.core (fun entry order => keeps_protect now _ entry order true) _) fun _ => keeps_bind keeps_get fun s₁ => ?_
  refine keeps_bind (keeps_checkStops now pass _) fun _ => keeps_bind (keeps_fromExcept _) fun signals => ?_
  refine keeps_bind (keeps_submit now pass signals) fun _ => ?_
  exact keeps_bind (keeps_aside hI shelf_markBrokerProtection) fun _ => keeps_saveBook _ hI.core

theorem keeps_evaluate (pass : Pass σ) : Keeps (Reached w s) ((atInstant w now).evaluate pass) := by
  have hI := reached_ofShelf w s
  unfold StrategyRunner.evaluate
  refine keeps_bind (keeps_tried (keeps_evaluateOnce now pass)) fun y => ?_
  cases y with
  | ok _ => exact keeps_aside hI fun _ => rfl
  | error exc =>
    refine keeps_bind (keeps_aside hI fun _ => rfl) fun _ => keeps_bind keeps_get fun s₀ => ?_
    exact keeps_ite (keeps_engage _ hI.core _) (keeps_pure _)

theorem keeps_booked (atr : String → Option ℚ) (ref : Ref) (order : Order) (fill : Fill) :
    Keeps (Reached w s) ((atInstant w now).booked atr ref order fill) := by
  have hI := reached_ofShelf w s
  have hcancel : Keeps (Reached w s)
      (onDesk ((atInstant w now).router.cancelProtection order.symbol) : Prog (RunnerState β σ ω) Exc ℕ) := by
    apply triple_within
    intro t ht
    have hpruned (e : Desk β σ) (h : Pruned t.desk e) : Reached w s { t with desk := e } :=
      ht.act .aside ⟨⟨[], by simp [RunnerState.shelf, onShelf, h.heap]⟩, h.children, rfl, h.working⟩
    exact triple_conseq (triple_cancelProtection order.symbol) (fun _ h => h) (fun _ e h => hpruned e h) (fun _ e h => hpruned e h)
  unfold StrategyRunner.booked
  refine keeps_bind keeps_get fun s₀ => keeps_bind (keeps_fromExcept _) fun portfolio => ?_
  refine keeps_bind (keeps_aside hI fun _ => rfl) fun _ => keeps_ite ?_ (keeps_protect now atr ref order false)
  refine keeps_bind (keeps_aside hI fun _ => rfl) fun _ => ?_
  exact keeps_bind hcancel fun _ => keeps_protect now atr ref order false

theorem triple_onTracked (atr : String → Option ℚ) {u : TradeUpdate} {ref : Ref} {before : Order}
    (h : s.tracked u.clientOrderId = some (ref, before)) :
    Triple (fun t => t = s) ((atInstant w now).onTracked atr u ref before) (fun _ => Reached w s) (fun _ => Reached w s) := by
  have hI := reached_ofShelf w s
  have happlied : Reached w s (applied s u ref before) := (Reached.refl w s).act (.update u) (by rw [acting, h]; rfl)
  obtain ⟨-, hbefore⟩ := tracked_some h
  unfold StrategyRunner.onTracked
  refine triple_bind (R := fun _ => Reached w s) ?_ fun changed => keeps_ite ?_ (keeps_pure _)
  · apply triple_within
    rintro t rfl
    rw [hbefore, Option.getD_some]
    have hstate (b : Except Exc Bool) (o : Order) (h : exec (applyTradeUpdate u) before = (b, o)) :
        Reached w t { t with desk := { t.desk with heap := t.desk.heap.set ref o } } := by
      unfold applied at happlied
      rwa [h] at happlied
    exact triple_conseq (triple_exec (applyTradeUpdate u) before) (fun _ h => h) (fun _ o h => hstate _ o h)
      (fun _ o h => hstate _ o h)
  refine keeps_bind keeps_get fun s₁ => ?_
  dsimp only
  split
  · refine keeps_bind (keeps_booked now atr ref _ _) fun _ => ?_
    exact keeps_bind (keeps_retire now _) fun _ => keeps_checkpoint _ hI.core
  · exact keeps_when (keeps_protect now atr ref _ false) (keeps_retire now _)

/-- What happens at an instant, between two releases of the lock. -/
def turn (w : StrategyRunner β L σ ω) (s : RunnerState β σ ω) (i : ℤ × RunnerStep σ) (t : RunnerState β σ ω) : Prop :=
  t = (atInstant w i.1).after s i.2

/-- **Every pass, event and warmup is a run of acts**, whether it returned or raised. -/
theorem turn_reached {i : ℤ × RunnerStep σ} (h : turn w s i t) : Reached w s t := by
  obtain ⟨now, step⟩ := i
  subst h
  cases step with
  | evaluation pass => exact triple_left (keeps_evaluate now pass) (Reached.refl w s)
  | fillEvent atr u =>
    have hevent : Triple (fun t => t = s) ((atInstant w now).onFillEvent atr u) (fun _ => Reached w s) (fun _ => Reached w s) := by
      unfold StrategyRunner.onFillEvent
      refine triple_get_bind fun t ht => ?_
      subst ht
      cases hfound : t.tracked u.clientOrderId with
      | none => exact triple_pure _ fun _ h => h ▸ Reached.refl w t
      | some found => exact triple_onTracked now atr hfound
    exact triple_left hevent rfl
  | warmup stored => exact (Reached.refl w s).act (.warmup stored) rfl

/-- **Every run of passes, events and warmups is a run of acts.** -/
theorem run_reached {l : List (ℤ × RunnerStep σ)} (h : Run (turn w) s l t) : Reached w s t := by
  induction h with
  | nil s => exact Reached.refl w s
  | cons hturn _ ih => exact (turn_reached hturn).trans ih

end turns

end RunnerActs
end Atp
