import AlgoTrading.RunnerActs
/-!
# Tracking — every order that works is one the runner looks for

A fill event finds its order in `_open_orders` by `client_order_id`, or is dropped.  What the venue works is there under
its key as long as no order is let by (`working_tracked`): a stop that the venue takes of `_rearm` is handed to nobody, and
neither is an order whose row the storage refuses, or behind which the sweep raises.
-/
namespace Atp
namespace Tracking

open Raising Runs RunnerState Moves RunnerActs

/-- The working set names objects by their own keys. -/
def Keyed (s : Shelf) : Prop := ∀ key ref, s.openOrders.get? key = some ref → ∃ o, s.heap[ref]? = some o ∧ o.clientOrderId = key

theorem object_append {heap : List Order} {ref : Ref} {o : Order} (h : heap[ref]? = some o) (l : List Order) :
    (heap ++ l)[ref]? = some o := by
  obtain ⟨hlt, -⟩ := List.getElem?_eq_some_iff.1 h
  rw [List.getElem?_append_left hlt, h]

theorem Keyed.append {s : Shelf} (h : Keyed s) (l : List Order) : ∀ key ref, s.openOrders.get? key = some ref →
    ∃ o, (s.heap ++ l)[ref]? = some o ∧ o.clientOrderId = key := by
  intro key ref href
  obtain ⟨o, ho, hkey⟩ := h key ref href
  exact ⟨o, object_append ho l, hkey⟩

/-- A new object under its own key. -/
theorem Keyed.put {s : Shelf} (h : Keyed s) (o : Order) : ∀ key ref,
    (s.openOrders.set o.clientOrderId s.heap.length).get? key = some ref →
      ∃ o', (s.heap ++ [o])[ref]? = some o' ∧ o'.clientOrderId = key := by
  intro key ref href
  rw [Dict.get?_set] at href
  split at href
  · rename_i hkey
    obtain rfl : s.heap.length = ref := Option.some.inj href
    exact ⟨o, by simp, hkey.symm⟩
  · exact h.append [o] key ref href

theorem effect_keyed {s t : Shelf} {i : Move} (hs : Keyed s) (h : Effect s i t) : Keyed t := by
  cases i with
  | aside =>
    obtain ⟨l, hl⟩ := h.heap
    intro key ref href
    rw [h.openOrders] at href
    rw [hl]
    exact hs.append l key ref href
  | accepted o =>
    obtain ⟨-, rfl⟩ := h
    exact hs.put o
  | lapsed o =>
    subst h
    exact hs.append [o]
  | placed symbol o =>
    obtain ⟨-, rfl⟩ := h
    exact hs.put o
  | rearmed symbol o =>
    subst h
    exact hs.append [o]
  | updated ref o =>
    obtain ⟨⟨key₀, old, -, hold, hkeys⟩, rfl⟩ := h
    intro key ref' href
    obtain ⟨o', ho', hkey⟩ := hs key ref' href
    by_cases heq : ref = ref'
    · subst heq
      obtain ⟨hlt, -⟩ := List.getElem?_eq_some_iff.1 hold
      refine ⟨o, List.getElem?_set_self hlt, ?_⟩
      rw [← hkeys, ← hkey]
      exact congrArg Order.clientOrderId (Option.some.inj (hold.symm.trans ho'))
    · exact ⟨o', (List.getElem?_set_ne heq).trans ho', hkey⟩
  | retired o =>
    obtain ⟨-, rfl⟩ := h
    intro key ref' href
    rw [Dict.get?_erase] at href
    split at href
    · cases href
    · exact hs key ref' href
  | restored o =>
    subst h
    exact hs.put o
  | adopted ref o =>
    obtain ⟨-, -, rfl⟩ := h
    exact hs

/-- The working set names objects by their keys, and holds what works. -/
structure Kept (s : Shelf) : Prop where
  keyed : Keyed s
  working : ∀ key ∈ s.working, (s.openOrders.get? key).isSome

/-- The moves that let no working order by. -/
def Looked : Move → Prop
  | .lapsed _ | .rearmed _ _ => False
  | .aside | .accepted _ | .placed _ _ | .updated _ _ | .retired _ | .restored _ | .adopted _ _ => True

section effects

variable {s t : Shelf} {i : Move}

theorem isSome_set (openOrders : Dict String Ref) (key key' : String) (ref : Ref)
    (h : key' = key ∨ (openOrders.get? key').isSome) : ((openOrders.set key ref).get? key').isSome := by
  rw [Dict.get?_set]
  split
  · rfl
  · rename_i hne
    exact h.resolve_left hne

/-- One key more that works, in the working set. -/
theorem Kept.put (hs : Kept s) (o : Order) (working : List String)
    (hworking : ∀ key ∈ working, key ∈ s.working ∨ key = o.clientOrderId) : ∀ key ∈ working,
    ((s.openOrders.set o.clientOrderId s.heap.length).get? key).isSome := by
  intro key hkey
  rcases hworking key hkey with hold | hnew
  · exact isSome_set _ _ _ _ (.inr (hs.working key hold))
  · exact isSome_set _ _ _ _ (.inl hnew)

theorem mem_snoc {key new : String} {working : List String} (h : key ∈ working ++ [new]) : key ∈ working ∨ key = new := by
  rcases List.mem_append.1 h with h | h
  · exact .inl h
  · exact .inr (List.mem_singleton.1 h)

/-- **Every move that lets none by keeps what works in the working set.** -/
theorem effect_kept (hs : Kept s) (hi : Looked i) (h : Effect s i t) : Kept t := by
  have hkeyed := effect_keyed hs.keyed h
  cases i with
  | aside =>
    refine ⟨hkeyed, ?_⟩
    rw [h.working, h.openOrders]
    exact hs.working
  | accepted o =>
    obtain ⟨-, rfl⟩ := h
    exact ⟨hkeyed, hs.put o _ fun key => mem_snoc⟩
  | lapsed o => exact hi.elim
  | placed symbol o =>
    obtain ⟨-, rfl⟩ := h
    exact ⟨hkeyed, hs.put o _ fun key => mem_snoc⟩
  | rearmed symbol o => exact hi.elim
  | updated ref o =>
    obtain ⟨-, rfl⟩ := h
    exact ⟨hkeyed, hs.working⟩
  | retired o =>
    obtain ⟨-, rfl⟩ := h
    refine ⟨hkeyed, fun key hkey => ?_⟩
    obtain ⟨hold, hne⟩ := List.mem_filter.1 hkey
    rw [Dict.get?_erase, if_neg (of_decide_eq_true hne)]
    exact hs.working key hold
  | restored o =>
    subst h
    exact ⟨hkeyed, hs.put o _ fun key => Or.inl⟩
  | adopted ref o =>
    obtain ⟨-, -, rfl⟩ := h
    exact ⟨hkeyed, hs.working⟩

theorem leads_kept (hs : Kept s) (h : Leads Looked s t) : Kept t := by
  obtain ⟨-, l, hl⟩ := h
  exact run_guarded (fun _ => Looked) Kept (fun _ _ _ hs hi heffect => effect_kept hs hi heffect) hs hl

end effects

section runs

variable {β L σ ω : Type} {w : StrategyRunner β L σ ω} {s t : RunnerState β σ ω}

/-- A runner that has just started. -/
structure Started (s : RunnerState β σ ω) : Prop where
  openOrders : s.openOrders = .empty
  protective : s.desk.protective = .empty
  working : s.desk.working = []

/-- An event that names the key finds the order of that key. -/
def Finds (s : RunnerState β σ ω) (key : String) : Prop := ∃ ref o, s.tracked key = some (ref, o) ∧ o.clientOrderId = key

/-- Every order the venue works is found. -/
def Tracks (s : RunnerState β σ ω) : Prop := ∀ key ∈ s.desk.working, Finds s key

/-- No call of the sweep behind the close raises, and the venue takes no stop that `_rearm` sends behind it. -/
def Answered (r : OrderRouter β L σ) (pending : List Order) (d : Desk β σ) (request : OrderRequest) : Prop :=
  Swept r pending d request ∧ NoneBack r pending d request

/-- **No order is let by**: the closes of a signal and of an exit are so answered, and the storage takes the row of a signal
whose order the venue has taken. -/
def Unlapsed (w : StrategyRunner β L σ ω) (s : RunnerState β σ ω) : Act σ → Prop
  | .signal now pass signal =>
    (∀ request ∈ signalClose (w.withStop pass signal) s.desk.portfolio w.sizing,
      Answered (atInstant w now).router s.openOrderList s.desk request) ∧
    ∀ row ∈ taken (askSignal (atInstant w now) s pass signal) s.desk, (exec (w.repos.saveSignal signal row) s.store).1.isOk = true
  | .exit now symbol reason => ∀ request ∈ flattenClose symbol reason now s.desk.portfolio,
      Answered (atInstant w now).router [] s.desk request
  | _ => True

theorem Started.kept (h : Started s) : Kept s.shelf := by
  constructor
  · intro key ref href
    change s.openOrders.get? key = some ref at href
    rw [h.openOrders, Dict.get?_empty] at href
    cases href
  · intro key hkey
    change key ∈ s.desk.working at hkey
    rw [h.working] at hkey
    cases hkey

theorem Kept.tracks (h : Kept s.shelf) : Tracks s := by
  intro key hkey
  obtain ⟨ref, href⟩ := Option.isSome_iff_exists.1 (h.working key hkey)
  change s.openOrders.get? key = some ref at href
  obtain ⟨o, ho, hown⟩ := h.keyed key ref href
  exact ⟨ref, o, tracked_of href ho, hown⟩

theorem looked_of_answered {r : OrderRouter β L σ} {pending : List Order} {d : Desk β σ} {request : OrderRequest}
    (h : Answered r pending d request) : Allows Looked r pending d request := allows_of_answers r trivial (.inl h.1) h.2

/-- What the venue takes in a call. -/
theorem taken_of {x : Prog (Desk β σ) Exc Submission} {d e : Desk β σ} {sub : Submission} (h : exec x d = (.ok sub, e))
    (hsub : sub.result.submitted = true) : sub.result ∈ taken x d := by
  unfold taken
  rw [h]
  simp [hsub]

/-- **Every act that lets no order by keeps what works in the working set.** -/
theorem step_kept (hs : Kept s.shelf) {a : Act σ} (ha : Unlapsed w s a) (h : acting w s a t) : Kept t.shelf := by
  cases a with
  | signal now pass signal =>
    subst h
    refine leads_kept hs (signal_leads (atInstant w now) ⟨trivial, fun request hr => looked_of_answered (ha.1 request hr),
      fun _ _ _ _ _ _ => trivial, fun sub e exc hask hsub hraise o _ => ?_⟩)
    have hrow := ha.2 sub.result (taken_of hask hsub)
    change (exec (w.repos.saveSignal signal sub.result) s.store).1 = .error exc at hraise
    rw [hraise] at hrow
    cases hrow
  | exit now symbol reason =>
    subst h
    exact leads_kept hs (exit_leads (atInstant w now) ⟨trivial, fun request hr => looked_of_answered (ha request hr),
      fun _ _ _ _ _ _ => trivial⟩)
  | update u =>
    subst h
    cases hfound : s.tracked u.clientOrderId with
    | none => exact hs
    | some found =>
      obtain ⟨ref, before⟩ := found
      exact effect_kept hs (i := .updated ref _) trivial (applied_effect hfound)
  | protect now atr entry order retry =>
    subst h
    rcases protect_covered (atInstant w now) atr entry order retry s with hstill | ⟨u, stop, hstill, -, hplaced⟩
    · exact effect_kept hs (i := .aside) trivial hstill.aside
    · exact effect_kept (effect_kept hs (i := .aside) trivial hstill.aside) (i := .placed order.symbol stop) trivial hplaced
  | retire order =>
    subst h
    rcases retire_effect w order s with hsame | hretired
    · rwa [hsame]
    · exact effect_kept hs (i := .retired order) trivial hretired
  | warmup stored =>
    subst h
    exact restore_keeps (fun a o b _ ha hab => effect_kept ha (i := .restored o) trivial hab) (fun _ ha => ha)
      (fun a ref o b ha hab => effect_kept ha (i := .adopted ref o) trivial hab) hs
  | aside => exact effect_kept hs (i := .aside) trivial h

/-- **Every order that works is tracked**: in every run in which no order is let by, whatever else raises, each key the venue
works finds its order. -/
theorem working_tracked (h0 : Started s) {l : List (Act σ)} (h : Run (guarded (acting w) (Unlapsed w)) s l t) : Tracks t :=
  Kept.tracks (run_guarded (Unlapsed w) (fun s => Kept s.shelf) (fun _ _ _ hs ha hstep => step_kept hs ha hstep) h0.kept h)

end runs

/-! ## A close that is refused twice -/

open StopRatchet (openRouter fivePct)
open Rearm (reserving bothCancelled stopAt)

/-- Storage that takes every write. -/
def quietRepos : Repositories Unit where
  saveSignal _ _ := pure ()
  saveOrder _ := pure ()
  snapshot _ := pure ()

def runnerOf (router : OrderRouter Unit Unit Unit) : StrategyRunner Unit Unit Unit Unit where
  router := router
  repos := quietRepos
  killSwitch := { engage := fun _ => .ok () }
  stopConfig := fivePct
  sizing := { method := .fixedQty, value := 10 }
  strategy := "sma"

/-- A runner that starts on a book. -/
def bootedWith (positions : Dict String Position) : RunnerState Unit Unit Unit where
  desk := { portfolio := { cash := 2000, startingEquity := 2000, positions := positions }, broker := (), risk := () }
  store := ()

theorem bootedWith_started (positions : Dict String Position) : Started (bootedWith positions) := ⟨rfl, rfl, rfl⟩

/-- The strategy asks for one thing. -/
def asking (action : SignalAction) : Signal where
  strategyId := "sma"
  symbol := "AAPL"
  action := action
  ts := 0
  id := "sig-1"

/-- A pass in which nothing closes. -/
def passOf (action : SignalAction) : Pass Unit where
  closed := []
  marks := .ok [("AAPL", 100)]
  atr _ := none
  barsHeld _ := none
  lastPrice _ := some 100
  signals := .ok [asking action]

def tenFilled (key : String) : TradeUpdate where
  event := "fill"
  clientOrderId := key
  brokerOrderId := key
  symbol := "AAPL"
  «at» := 1
  fill := some { orderId := key, ts := 1, qty := 10, price := 100, fee := 0, venueFillId := some (.execution "x-1") }

def afterAll (w : StrategyRunner Unit Unit Unit Unit) (l : List (RunnerStep Unit)) (s : RunnerState Unit Unit Unit) :
    RunnerState Unit Unit Unit := l.foldl w.after s

def tenHeld : Dict String Position :=
  Dict.empty.set "AAPL" { symbol := "AAPL", qty := 10, avgEntryPrice := 100, lastPrice := some 100 }

/-- A stop is inherited. -/
def inherited : RunnerState Unit Unit Unit := StrategyRunner.restore [stopAt "s-1" 95] (bootedWith tenHeld)

/-- The exit that releases it is on. -/
def exiting : RunnerState Unit Unit Unit :=
  (exec ((atInstant (runnerOf openRouter) 0).submit (passOf .exit) [asking .exit]) inherited).2

/-- An exit that the venue takes, with the stop swept behind it, works and is tracked. -/
theorem working_tracked_exit : exiting.desk.working = ["ddddd"] ∧ exiting.desk.brokerSideProtectedQty
    (exiting.desk.portfolio.position "AAPL") = 0 ∧ Tracks exiting := by
  refine ⟨by decide +kernel, by decide +kernel, working_tracked (w := runnerOf openRouter)
    (l := [.warmup [stopAt "s-1" 95], .signal 0 (passOf .exit) (asking .exit)]) (bootedWith_started tenHeld)
    (.cons (t := inherited) ⟨rfl, trivial⟩ (.cons ⟨rfl, ?_, ?_⟩ (.nil _)))⟩
  · intro request hrequest
    obtain rfl := Option.mem_some_iff.1 hrequest
    exact ⟨by decide +kernel, by decide +kernel⟩
  · exact fun _ _ => rfl

/-- A stop is inherited, and the exit that releases it is refused again. -/
def refusedExit : List (RunnerStep Unit) := [.warmup [stopAt "s-1" 95], .evaluation (passOf .exit)]

/-- **The stop that goes back on after a refused close is tracked by nobody.** -/
theorem rearmed_stop_untracked : ¬ ∀ (w : StrategyRunner Unit Unit Unit Unit) (s t : RunnerState Unit Unit Unit)
    (l : List (RunnerStep Unit)), Started s → Run w.step s l t → Tracks t := by
  intro h
  have hrun : Run (runnerOf (reserving bothCancelled)).step (bootedWith tenHeld) refusedExit
      (afterAll (runnerOf (reserving bothCancelled)) refusedExit (bootedWith tenHeld)) := .cons rfl (.cons rfl (.nil _))
  obtain ⟨ref, o, hfound, -⟩ := h _ _ _ _ (bootedWith_started tenHeld) hrun "dddd" (by decide +kernel)
  have hnone : (afterAll (runnerOf (reserving bothCancelled)) refusedExit (bootedWith tenHeld)).tracked "dddd" = none := by
    decide +kernel
  rw [hnone] at hfound
  cases hfound

end Tracking
end Atp
