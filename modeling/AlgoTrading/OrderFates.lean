import AlgoTrading.TradeAccounts
/-!
# OrderFates — what becomes of the orders of a backtest

Between two bars every order of the result is closed or queued, but for the exits `_check_stops` makes: they are never
queued, so one the volume cap does not let fill whole stays open and is worked by nothing.  That is the only way an order
is left (`settled_iff`).
-/
namespace Atp
namespace Backtest
namespace OrderFates

open Raising TradeAccounts

variable {L σ τ α : Type}

/-- An order of the result under an id is closed, or is in the queue. -/
def Placed (queue : List Order) (s : EngineState σ τ) (id : String) : Prop :=
  ∀ o, s.orders.get? id = some o → o.isComplete = true ∨ o ∈ queue

/-- **No order is left in limbo**: each of the result's is closed, or pending. -/
def Settled (s : EngineState σ τ) : Prop := ∀ o ∈ s.orders.values, o.isComplete = true ∨ o ∈ s.pending

instance (s : EngineState σ τ) : Decidable (Settled s) := inferInstanceAs (Decidable (∀ o ∈ s.orders.values, _))

section
variable (eng : BacktestEngine L σ τ) (bars : Dict String (List Bar))

/-- **The exit of a bar fits under the volume cap**: whatever level or time is due on the open position it met, all of the
position may fill on it. -/
def Fits : Event σ τ → Prop
  | .bar bar met => met.portfolio.held bar.symbol ≠ 0 → ∀ due,
      dueExit eng (met.barsHeld.get? bar.symbol) bar (ratchet eng bars met bar).2 = .ok (some due) →
        |met.portfolio.held bar.symbol| ≤ volumeCap eng bar
  | .booked _ _ _ _ => True

theorem due_iff {ε β : Type} {x : Except ε (Option β)} {P : Prop} :
    (x.toOption.join.isSome = true → P) ↔ ∀ due, x = .ok (some due) → P := by
  rcases x with _ | _ | due <;> simp [Except.toOption]

instance : DecidablePred (Fits eng bars)
  | .bar bar met => decidable_of_iff (met.portfolio.held bar.symbol ≠ 0 →
      (dueExit eng (met.barsHeld.get? bar.symbol) bar (ratchet eng bars met bar).2).toOption.join.isSome = true →
        |met.portfolio.held bar.symbol| ≤ volumeCap eng bar) (imp_congr_right fun _ => due_iff)
  | .booked _ _ _ _ => inferInstanceAs (Decidable True)

/-- Every exit due so far fitted. -/
def Fitting (log : List (Event σ τ)) : Prop := ∀ e ∈ log, Fits eng bars e

instance (log : List (Event σ τ)) : Decidable (Fitting eng bars log) := inferInstanceAs (Decidable (∀ e ∈ log, Fits eng bars e))

end

section
variable {eng : BacktestEngine L σ τ} {bars : Dict String (List Bar)} {r q : Replay σ τ} {queue rest : List Order}
  {o : Order} {id : String} {bar : Bar}

theorem fitting_append (log : List (Event σ τ)) (e : Event σ τ) :
    Fitting eng bars (log ++ [e]) ↔ Fitting eng bars log ∧ Fits eng bars e := by
  simp [Fitting, or_imp, forall_and]

/-! ## What holds of the orders, step after step -/

/-- **The fates of the orders**: the rows are filed under their own ids, those of the queue among them, and all are placed
exactly when every exit fitted. -/
structure Fates (eng : BacktestEngine L σ τ) (bars : Dict String (List Bar)) (queue : List Order) (r : Replay σ τ) : Prop where
  filed : ∀ id o, r.state.orders.get? id = some o → o.id = id ∧ ∃ n < r.state.drawn, eng.newId n = id
  rests : ∀ o ∈ queue, Row o r.state
  apart : (queue.map Order.id).Nodup
  open_ : ∀ o ∈ queue, 0 < o.remainingQty
  fate : Fitting eng bars r.log ↔ ∀ id, Placed queue r.state id

/-- Nothing the fates look at has changed. -/
theorem Fates.quiet (h : Fates eng bars queue r) (hlog : Fitting eng bars q.log ↔ Fitting eng bars r.log)
    (horders : q.state.orders = r.state.orders) (hdrawn : r.state.drawn ≤ q.state.drawn) : Fates eng bars queue q where
  filed id o ho := by
    rw [horders] at ho
    obtain ⟨hid, n, hn, hnew⟩ := h.filed id o ho
    exact ⟨hid, n, hn.trans_le hdrawn, hnew⟩
  rests o ho := by
    unfold Row
    rw [horders]
    exact h.rests o ho
  apart := h.apart
  open_ := h.open_
  fate := by
    unfold Placed
    rw [hlog, horders]
    exact h.fate

/-- One row is written. -/
structure Writes (eng : BacktestEngine L σ τ) (r : Replay σ τ) (o : Order) (q : Replay σ τ) : Prop where
  orders : ∀ id, q.state.orders.get? id = if id = o.id then some o else r.state.orders.get? id
  drawn : r.state.drawn ≤ q.state.drawn
  new : ∃ n < q.state.drawn, eng.newId n = o.id

/-- A row written keeps every row under its own id. -/
theorem Fates.filed_of (h : Fates eng bars queue r) (hw : Writes eng r o q) :
    ∀ id x, q.state.orders.get? id = some x → x.id = id ∧ ∃ n < q.state.drawn, eng.newId n = id := by
  intro id x hx
  rw [hw.orders] at hx
  split at hx
  · rename_i hid
    obtain rfl := Option.some.inj hx
    rw [hid]
    exact ⟨rfl, hw.new⟩
  · obtain ⟨hid, n, hn, hnew⟩ := h.filed id x hx
    exact ⟨hid, n, hn.trans_le hw.drawn, hnew⟩

/-- **One row moves**: it is written, and with it the queue's place for its id; the id was placed before and is placed
after. -/
theorem Fates.moved {queue' : List Order} (h : Fates eng bars queue r) (hw : Writes eng r o q)
    (hlog : Fitting eng bars q.log ↔ Fitting eng bars r.log) (hplaced : Placed queue r.state o.id)
    (hqueue : ∀ x : Order, x.id ≠ o.id → (x ∈ queue' ↔ x ∈ queue))
    (hrests : ∀ x ∈ queue', x.id = o.id → x = o) (hapart : (queue'.map Order.id).Nodup)
    (hopen : o ∈ queue' → 0 < o.remainingQty) (hfate : o.isComplete = true ∨ o ∈ queue') : Fates eng bars queue' q := by
  constructor
  case filed => exact h.filed_of hw
  case rests =>
    intro x hx
    unfold Row
    rw [hw.orders]
    by_cases hid : x.id = o.id
    · rw [if_pos hid, hrests x hx hid]
    · rw [if_neg hid]
      exact h.rests x ((hqueue x hid).1 hx)
  case apart => exact hapart
  case open_ =>
    intro x hx
    by_cases hid : x.id = o.id
    · obtain rfl := hrests x hx hid
      exact hopen hx
    · exact h.open_ x ((hqueue x hid).1 hx)
  case fate =>
    rw [hlog, h.fate]
    -- the id that moved is placed on both sides, and any other has its row and its place
    have hother (id : String) (hid : id ≠ o.id) : Placed queue' q.state id ↔ Placed queue r.state id := by
      have hplace {x : Order} (hx : r.state.orders.get? id = some x) : x ∈ queue' ↔ x ∈ queue :=
        hqueue x fun heq => hid ((h.filed id x hx).1.symm.trans heq)
      unfold Placed
      rw [hw.orders, if_neg hid]
      constructor
      · intro hp x hx
        exact (hp x hx).imp_right (hplace hx).1
      · intro hp x hx
        exact (hp x hx).imp_right (hplace hx).2
    constructor
    · intro hall id
      by_cases hid : id = o.id
      · intro x hx
        rw [hw.orders, if_pos hid] at hx
        obtain rfl := Option.some.inj hx
        exact hfate
      · exact (hother id hid).2 (hall id)
    · intro hall id
      by_cases hid : id = o.id
      · rw [hid]
        exact hplaced
      · exact (hother id hid).1 (hall id)

/-- **An exit that does not fit is left**: its row is open, in no queue, and stays so. -/
theorem Fates.left (h : Fates eng bars queue r) (hw : Writes eng r o q) (hfresh : o.id ∉ queue.map Order.id)
    (hunfit : ¬Fitting eng bars q.log) (hopen : o.isComplete = false) : Fates eng bars queue q := by
  constructor
  case filed => exact h.filed_of hw
  case rests =>
    intro x hx
    have hne : x.id ≠ o.id := fun hid => hfresh (hid ▸ List.mem_map_of_mem hx)
    unfold Row
    rw [hw.orders, if_neg hne]
    exact h.rests x hx
  case apart => exact h.apart
  case open_ => exact h.open_
  case fate =>
    refine iff_of_false hunfit fun hall => ?_
    rcases hall o.id o (by rw [hw.orders, if_pos rfl]) with hdone | hmem
    · rw [hopen] at hdone
      cases hdone
    · exact hfresh (List.mem_map_of_mem hmem)

/-- The next id is new to the result and to the queue. -/
theorem Fates.fresh (h : Fates eng bars queue r) (hid : Function.Injective eng.newId) (ho : o.id = eng.newId r.state.drawn) :
    r.state.orders.get? o.id = none ∧ o.id ∉ queue.map Order.id := by
  have hnone : r.state.orders.get? o.id = none := by
    cases hget : r.state.orders.get? o.id with
    | none => rfl
    | some x =>
      obtain ⟨-, n, hn, hdrawn⟩ := h.filed _ _ hget
      exact absurd (hid (hdrawn.trans ho)) hn.ne
  refine ⟨hnone, fun hmem => ?_⟩
  obtain ⟨x, hx, heq⟩ := List.mem_map.1 hmem
  have hrow := h.rests x hx
  unfold Row at hrow
  rw [heq, hnone] at hrow
  cases hrow

/-! ## One execution -/

/-- **What `_execute` does to its order**: it fills what the bar allows, and the result's row, if it has one, is the order as
it leaves it. -/
structure Worked (eng : BacktestEngine L σ τ) (bars : Dict String (List Bar)) (o : Order) (bar : Bar) (r : Replay σ τ) (o' : Order)
    (q : Replay σ τ) : Prop where
  log : Fitting eng bars q.log ↔ Fitting eng bars r.log
  others : ∀ id, id ≠ o.id → q.state.orders.get? id = r.state.orders.get? id
  row : Row o r.state → Row o' q.state
  drawn : q.state.drawn = r.state.drawn
  id : o'.id = o.id
  left : o'.remainingQty = o.remainingQty - fillable eng o bar
  done : 0 < o.remainingQty → o'.remainingQty = 0 → o'.isComplete = true
  open_ : o.isComplete = false → o'.remainingQty ≠ 0 → o'.isComplete = false

theorem accumulate_complete (o : Order) (f : Fill) : (o.accumulate f).isComplete = true ↔ (o.accumulate f).remainingQty = 0 := by
  rw [Order.accumulate_remainingQty]
  unfold Order.isComplete Order.remainingQty
  rw [Order.accumulate_status]
  split
  · rename_i h
    exact iff_of_true rfl (by linarith)
  · rename_i h
    exact iff_of_false (by decide) fun h0 => h (by linarith)

theorem execute_worked (o : Order) (bar : Bar) (intended : ℚ) (r : Replay σ τ) :
    Triple (fun q => q = r) (execute eng bars o bar intended) (Worked eng bars o bar r) (fun _ _ => True) := by
  unfold execute
  refine triple_ite (fun _ => triple_throw _ fun _ _ => trivial) fun _ => ?_
  have hwarned (s : EngineState σ τ) : (warnCapped eng o bar s).orders = s.orders ∧ (warnCapped eng o bar s).drawn = s.drawn := by
    unfold warnCapped
    split <;> exact ⟨rfl, rfl⟩
  refine triple_bind (R := fun _ q => q.log = r.log ∧ q.state.orders = r.state.orders ∧ q.state.drawn = r.state.drawn)
    (triple_update _ fun q hq => hq ▸ ⟨rfl, hwarned q.state⟩) fun _ => ?_
  refine triple_ite (fun hnone => triple_pure _ fun q hq => ?_) fun hsome => ?_
  · obtain ⟨hlog, horders, hdrawn⟩ := hq
    have hnothing : fillable eng o bar = 0 := max_eq_left hnone
    unfold fillQty at hnone
    refine ⟨by rw [hlog], fun id _ => by rw [horders], fun hrow => ?_, hdrawn, rfl, by rw [hnothing, sub_zero], ?_, fun h _ => h⟩
    · unfold Row
      rw [horders]
      exact hrow
    · exact fun hpos h0 => absurd h0 hpos.ne'
  have hfill : (fillFor eng o bar intended).qty = fillable eng o bar := (max_eq_right (not_le.1 hsome).le).symm
  refine triple_bind (R := fun o' q => o' = o.accumulate (fillFor eng o bar intended) ∧ q.log = r.log ∧
      q.state.orders = r.state.orders ∧ q.state.drawn = r.state.drawn)
    (triple_fromExcept _ (fun o' ho' q hq => ⟨(Order.applyFill_ok.1 ho').2.2, hq⟩) fun _ _ _ _ => trivial) fun o' => ?_
  refine triple_observe fun q hq => ?_
  obtain ⟨rfl, hlog, horders, hdrawn⟩ := hq
  refine triple_bind (R := fun t u => u = q ∧ bookFill eng bars o (fillFor eng o bar intended) q.state = .ok t)
    (triple_fromExcept _ (fun t ht u hu => ⟨hu, ht⟩) fun _ _ _ _ => trivial) fun t => ?_
  rintro u ⟨rfl, hb⟩
  have htallied := bookFill_tallied hb
  constructor
  case log =>
    show Fitting eng bars (u.log ++ [_]) ↔ _
    rw [fitting_append, hlog]
    exact and_iff_left trivial
  case others =>
    intro id hne
    show (t.orders.set (o.accumulate _).id _).get? id = _
    rw [Order.accumulate_id, Dict.get?_set_ne _ _ hne, htallied.orders, horders]
  case row => exact fun _ => Dict.get?_set_self _ _ _
  case drawn => exact htallied.drawn.trans hdrawn
  case id => exact Order.accumulate_id _ _
  case left => rw [Order.accumulate_remainingQty, hfill]
  case done => exact fun _ => (accumulate_complete o _).2
  case open_ =>
    intro _ hleft
    rw [Bool.eq_false_iff]
    exact fun hdone => hleft ((accumulate_complete o _).1 hdone)

/-! ## The bar -/

theorem maintainTrailing_orders (bar : Bar) (r : Replay σ τ) : Triple (fun q => q = r) (maintainTrailing eng bars bar)
    (fun _ q => q.state.orders = r.state.orders ∧ q.state.drawn = r.state.drawn) (fun _ _ => True) := by
  unfold maintainTrailing
  refine triple_observe fun s hs => ?_
  refine triple_bind (R := fun _ q => q.state.orders = r.state.orders ∧ q.state.drawn = r.state.drawn)
    (triple_update _ fun q hq => ?_) fun _ => ?_
  · rw [hq, hs]
    exact ⟨rfl, rfl⟩
  · cases (ratchet eng bars s.state bar).1 with
    | ok x => exact triple_pure _ fun _ h => h
    | error e => exact triple_ite (fun _ => triple_pure _ fun _ h => h) fun _ => triple_throw _ fun _ _ => trivial

/-- An exit that fits is filled whole, and one that does not is not. -/
theorem Worked.fits {o' : Order} {held : ℚ} (h : Worked eng bars o bar r o' q) (hsize : o.remainingQty = |held|) (hheld : held ≠ 0) :
    o'.remainingQty = 0 ↔ |held| ≤ volumeCap eng bar := by
  have hpos : 0 < |held| := abs_pos.2 hheld
  rw [h.left, hsize, sub_eq_zero]
  unfold fillable capped
  rw [hsize]
  constructor
  · intro heq
    rcases le_total (min |held| (volumeCap eng bar)) 0 with hcap | hcap
    · rw [max_eq_left hcap] at heq
      exact absurd heq hpos.ne'
    · rw [max_eq_right hcap] at heq
      rw [heq]
      exact min_le_right _ _
  · intro hle
    rw [min_eq_left hle, max_eq_right hpos.le]

/-- **`_check_stops` leaves an order open exactly when what is due does not fit.** -/
theorem checkStops_fates (hid : Function.Injective eng.newId) (bar : Bar) (queue : List Order) :
    Triple (Fates eng bars queue) (checkStops eng bars bar) (fun _ => Fates eng bars queue) (fun _ _ => True) := by
  unfold checkStops
  refine triple_observe fun r hr => ?_
  let noted : Replay σ τ := { r with log := r.log ++ [.bar bar r.state] }
  -- the note is all that has happened when nothing is due
  have quiet {q : Replay σ τ} (hfits : Fits eng bars (.bar bar r.state)) (hlog : q.log = noted.log)
      (horders : q.state.orders = r.state.orders) (hdrawn : q.state.drawn = r.state.drawn) : Fates eng bars queue q := by
    refine hr.quiet ?_ horders hdrawn.ge
    rw [hlog]
    exact (fitting_append _ _).trans (and_iff_left hfits)
  refine triple_bind (R := fun _ q => q = noted) (triple_note _ fun q hq => by rw [hq]) fun _ => ?_
  refine triple_ite (fun hflat => triple_pure _ fun q hq => ?_) fun hopen => ?_
  · rw [hq]
    exact quiet (fun hheld => absurd (of_decide_eq_true hflat) hheld) rfl rfl rfl
  have hheld : r.state.portfolio.held bar.symbol ≠ 0 := fun h0 => hopen (decide_eq_true h0)
  refine triple_bind (triple_conseq (triple_and (maintainTrailing_still eng bars bar noted) (maintainTrailing_orders bar noted))
    (fun q hq => ⟨hq, hq⟩) (fun _ _ h => h) fun _ _ _ => trivial) fun _ => ?_
  refine triple_observe fun u hu => ?_
  obtain ⟨⟨hstill, hbars, hposition⟩, horders, hdrawn⟩ := hu
  have hlog : u.log = noted.log := hstill.log
  refine triple_bind (R := fun due q => q = u ∧
      dueExit eng (r.state.barsHeld.get? bar.symbol) bar (ratchet eng bars r.state bar).2 = .ok due)
    (triple_fromExcept _ (fun due hdue q hq => ⟨hq, ?_⟩) fun _ _ _ _ => trivial) fun due => ?_
  · rw [← hdue, hbars, hposition]
  cases due with
  | none =>
    refine triple_pure _ fun q hq => ?_
    obtain ⟨rfl, hnone⟩ := hq
    refine quiet (fun _ due hdue => ?_) hlog horders hdrawn
    rw [hnone] at hdue
    cases hdue
  | some due =>
    refine triple_at fun q hq => ?_
    obtain ⟨rfl, hdue⟩ := hq
    have hfits : Fits eng bars (.bar bar r.state) ↔ |r.state.portfolio.held bar.symbol| ≤ volumeCap eng bar :=
      ⟨fun h => h hheld due hdue, fun h _ _ _ => h⟩
    refine triple_bind (R := fun o s => s = q ∧ o = closingOrder eng (eng.newId q.state.drawn) bar
        (q.state.portfolio.position bar.symbol) due.1)
      (triple_fromExcept _ (fun o ho s hs => ⟨hs, (Order.postInit_ok ho).1⟩) fun _ _ _ _ => trivial) fun o => ?_
    refine triple_at fun s hs => ?_
    obtain ⟨rfl, ho⟩ := hs
    have hsize : o.remainingQty = |r.state.portfolio.held bar.symbol| := by
      rw [ho, hposition]
      show |(ratchet eng bars r.state bar).2.qty| - 0 = _
      rw [ratchet_qty, sub_zero]
    have hnew : o.id = eng.newId r.state.drawn := by
      rw [ho]
      exact congrArg eng.newId hdrawn
    have hopenNow : o.isComplete = false := by rw [ho]; rfl
    obtain ⟨hnone, hfresh⟩ := hr.fresh hid hnew
    refine triple_bind (R := fun _ v => v = { s with state := { s.state with drawn := s.state.drawn + 1 } })
      (triple_update _ fun v hv => by rw [hv]) fun _ => ?_
    refine triple_bind (execute_worked o bar due.2 { s with state := { s.state with drawn := s.state.drawn + 1 } }) fun o' => ?_
    refine triple_update _ fun v hv => ?_
    have hgrown : r.state.drawn < v.state.drawn := by
      rw [hv.drawn]
      show r.state.drawn < s.state.drawn + 1
      rw [hdrawn]
      exact Nat.lt_succ_self _
    have hwrites : Writes eng r o' { v with state := v.state.record o' } := by
      refine ⟨fun id => ?_, hgrown.le, ⟨r.state.drawn, hgrown, ?_⟩⟩
      · show (v.state.orders.set o'.id o').get? id = _
        rw [Dict.get?_set]
        split
        · rfl
        · rename_i hne
          rw [hv.others id (hv.id ▸ hne)]
          exact congrArg (fun d => Dict.get? d id) horders
      · rw [hv.id, hnew]
    have hlogged : Fitting eng bars v.log ↔ Fitting eng bars r.log ∧ |r.state.portfolio.held bar.symbol| ≤ volumeCap eng bar := by
      rw [← hfits, ← fitting_append]
      exact hv.log.trans (by rw [hlog])
    have hwhole := hv.fits hsize hheld
    by_cases hcap : |r.state.portfolio.held bar.symbol| ≤ volumeCap eng bar
    · have hdone : o'.isComplete = true := hv.done (hsize ▸ abs_pos.2 hheld) (hwhole.2 hcap)
      refine hr.moved hwrites (hlogged.trans (and_iff_left hcap)) ?_ (fun _ _ => Iff.rfl) ?_ hr.apart ?_ (.inl hdone)
      · intro x hx
        rw [hv.id, hnone] at hx
        cases hx
      · exact fun x hx hxid => absurd (hv.id ▸ hxid ▸ List.mem_map_of_mem hx) hfresh
      · exact fun hmem => absurd (hv.id ▸ List.mem_map_of_mem hmem) hfresh
    · refine hr.left hwrites (hv.id ▸ hfresh) (fun h => hcap (hlogged.1 h).2) (hv.open_ hopenNow fun h0 => hcap (hwhole.1 h0))

/-- The order at one place of a queue. -/
theorem Fates.at (h : Fates eng bars (queue ++ o :: rest) r) : Row o r.state ∧ 0 < o.remainingQty ∧
    (∃ n < r.state.drawn, eng.newId n = o.id) ∧ Placed (queue ++ o :: rest) r.state o.id ∧
    (∀ x ∈ queue ++ rest, x.id ≠ o.id) ∧ ((queue ++ rest).map Order.id).Nodup := by
  have hrow : Row o r.state := h.rests o (by simp)
  have hids : ((queue ++ o :: rest).map Order.id).Perm (o.id :: (queue ++ rest).map Order.id) := by
    have hperm : (queue ++ o :: rest).Perm (o :: (queue ++ rest)) := List.perm_middle
    exact hperm.map Order.id
  have hapart := List.nodup_cons.1 (hids.nodup_iff.1 h.apart)
  refine ⟨hrow, h.open_ o (by simp), (h.filed o.id o hrow).2, ?_, ?_, hapart.2⟩
  · intro x hx
    unfold Row at hrow
    rw [hrow] at hx
    obtain rfl := Option.some.inj hx
    exact .inr (by simp)
  · exact fun x hx hid => hapart.1 (hid ▸ List.mem_map_of_mem hx)

/-- The queue without one of its orders, which is closed. -/
theorem Fates.dropped {o' : Order} (h : Fates eng bars (queue ++ o :: rest) r) (hw : Writes eng r o' q) (hid : o'.id = o.id)
    (hlog : Fitting eng bars q.log ↔ Fitting eng bars r.log) (hdone : o'.isComplete = true) :
    Fates eng bars (queue ++ rest) q := by
  obtain ⟨-, -, -, hplaced, hne, hapart⟩ := h.at
  refine h.moved hw hlog (hid ▸ hplaced) (fun x hx => ?_) ?_ hapart ?_ (.inl hdone)
  · have hxo : x ≠ o := fun heq => hx (heq ▸ hid.symm)
    simp [hxo]
  · exact fun x hx hxid => absurd (hxid.trans hid) (hne x hx)
  · exact fun hmem => absurd hid (hne o' hmem)

/-- The queue with one of its orders as an execution leaves it. -/
theorem Fates.worked {o' : Order} (h : Fates eng bars (queue ++ o :: rest) r) (hw : Writes eng r o' q) (hid : o'.id = o.id)
    (hlog : Fitting eng bars q.log ↔ Fitting eng bars r.log) (hleft : 0 < o'.remainingQty) :
    Fates eng bars (queue ++ o' :: rest) q := by
  obtain ⟨-, -, -, hplaced, hne, -⟩ := h.at
  refine h.moved hw hlog (hid ▸ hplaced) (fun x hx => ?_) (fun x hx hxid => ?_) ?_ (fun _ => hleft) (.inr (by simp))
  · have hxo : x ≠ o := fun heq => hx (heq ▸ hid.symm)
    have hxo' : x ≠ o' := fun heq => hx (heq ▸ rfl)
    simp [hxo, hxo']
  · rcases List.mem_append.1 hx with hx | hx
    · exact absurd (hxid.trans hid) (hne x (List.mem_append_left _ hx))
    · rcases List.mem_cons.1 hx with rfl | hx
      · rfl
      · exact absurd (hxid.trans hid) (hne x (List.mem_append_right _ hx))
  · have hids : (queue ++ o' :: rest).map Order.id = (queue ++ o :: rest).map Order.id := by simp [hid]
    exact hids ▸ h.apart

/-- The row of an order of the queue, as an execution leaves it. -/
theorem Worked.writes {o' : Order} (hw : Worked eng bars o bar r o' q) (hrow : Row o r.state)
    (hnew : ∃ n < r.state.drawn, eng.newId n = o.id) : Writes eng r o' q := by
  refine ⟨fun id => ?_, hw.drawn.ge, ?_⟩
  · by_cases hid : id = o'.id
    · rw [if_pos hid, hid]
      exact hw.row hrow
    · rw [if_neg hid]
      exact hw.others id (hw.id ▸ hid)
  · rw [hw.drawn, hw.id]
    exact hnew

/-- The same row, once it has expired. -/
theorem Writes.expired (hw : Writes eng r o q) :
    Writes eng r { o with status := .expired } { q with state := q.state.record { o with status := .expired } } := by
  refine ⟨fun id => ?_, hw.drawn, hw.new⟩
  show (q.state.orders.set o.id _).get? id = _
  rw [Dict.get?_set]
  split
  · rfl
  · rename_i hne
    rw [hw.orders, if_neg hne]

theorem Writes.self (hrow : Row o r.state) (hnew : ∃ n < r.state.drawn, eng.newId n = o.id) : Writes eng r o r := by
  refine ⟨fun id => ?_, le_refl _, hnew⟩
  split
  · rename_i hid
    rw [hid]
    exact hrow
  · rfl

/-- **The loop over the queue places every order of it**: one that fills whole is closed, a day order that does not is
expired, and any other still rests. -/
theorem fillResting_fates (bar : Bar) : ∀ (rest kept : List Order),
    Triple (Fates eng bars (kept ++ rest)) (fillResting eng bars bar rest)
      (fun resting => Fates eng bars (kept ++ resting)) (fun _ _ => True)
  | [], kept => triple_pure _ fun _ h => h
  | o :: rest, kept => by
    have hkeep (o' : Order) : Triple (Fates eng bars (kept ++ o' :: rest)) (do
        let resting ← fillResting eng bars bar rest
        return o' :: resting) (fun resting => Fates eng bars (kept ++ resting)) (fun _ _ => True) := by
      have hrest := fillResting_fates bar rest (kept ++ [o'])
      simp only [List.append_assoc, List.singleton_append] at hrest
      exact triple_bind hrest fun resting => triple_pure _ fun _ h => h
    have hdrop := fillResting_fates bar rest kept
    unfold fillResting
    refine triple_ite (fun _ => hkeep o) fun _ => ?_
    refine triple_bind (R := fun _ => Fates eng bars (kept ++ o :: rest))
      (triple_fromExcept _ (fun _ _ _ h => h) fun _ _ _ _ => trivial) fun price => ?_
    cases price with
    | none =>
      refine triple_ite (fun _ => ?_) fun _ => hkeep o
      refine triple_bind (R := fun _ => Fates eng bars (kept ++ rest)) (triple_update _ fun r hr => ?_) fun _ => hdrop
      obtain ⟨hrow, -, hnew, -⟩ := hr.at
      exact hr.dropped (Writes.self hrow hnew).expired rfl Iff.rfl rfl
    | some price =>
      refine triple_at fun r hr => ?_
      obtain ⟨hrow, hopen, hnew, -⟩ := hr.at
      refine triple_bind (execute_worked o bar price r) fun o' => ?_
      refine triple_ite (fun hleft => triple_ite (fun _ => ?_) fun _ => ?_) fun hleft => ?_
      · refine triple_bind (R := fun _ => Fates eng bars (kept ++ rest)) (triple_update _ fun q hq => ?_) fun _ => hdrop
        exact hr.dropped (hq.writes hrow hnew).expired hq.id hq.log rfl
      · exact triple_conseq (hkeep o') (fun q hq => hr.worked (hq.writes hrow hnew) hq.id hq.log hleft) (fun _ _ h => h)
          fun _ _ h => h
      · refine triple_conseq hdrop (fun q hq => ?_) (fun _ _ h => h) fun _ _ h => h
        have hwhole : o'.remainingQty = 0 := by
          refine le_antisymm (not_lt.1 hleft) ?_
          rw [hq.left]
          exact sub_nonneg.2 (capped_le eng hopen.le)
        exact hr.dropped (hq.writes hrow hnew) hq.id hq.log (hq.done hopen hwhole)

/-- **Between two bars** the queue is the pending orders. -/
def Between (eng : BacktestEngine L σ τ) (bars : Dict String (List Bar)) (r : Replay σ τ) : Prop :=
  Fates eng bars r.state.pending r

theorem Between.quiet (h : Between eng bars r) (hlog : q.log = r.log) (horders : q.state.orders = r.state.orders)
    (hdrawn : r.state.drawn ≤ q.state.drawn) (hpending : q.state.pending = r.state.pending) : Between eng bars q := by
  unfold Between
  rw [hpending]
  exact Fates.quiet h (by rw [hlog]) horders hdrawn

theorem barPhase_between (hid : Function.Injective eng.newId) (x : String × ℕ × Bar) :
    Triple (Between eng bars) (barPhase eng bars x) (fun _ => Between eng bars) (fun _ _ => True) := by
  unfold barPhase
  refine triple_bind (R := fun _ => Between eng bars) ?_ fun _ => ?_
  · unfold openBar
    refine triple_observe fun r hr => triple_ite (fun _ => triple_throw _ fun _ _ => trivial) fun _ => triple_update _ fun q hq => ?_
    rw [hq]
    exact hr.quiet rfl rfl (le_refl _) rfl
  refine triple_bind (R := fun _ => Between eng bars) ?_ fun _ => ?_
  · refine triple_at fun r hr => ?_
    refine triple_conseq (triple_and (checkStops_fates hid x.2.2 r.state.pending) (checkStops_pending x.2.2 r.state.pending))
      (fun q hq => ?_) (fun _ q hq => ?_) fun _ _ _ => trivial
    · subst hq
      exact ⟨hr, rfl⟩
    · unfold Between
      rw [hq.2]
      exact hq.1
  · unfold fillPendingFor
    refine triple_observe fun r hr => ?_
    refine triple_bind (triple_from (fillResting_fates x.2.2 r.state.pending []) hr) fun resting => ?_
    exact triple_update _ fun q hq => Fates.quiet hq Iff.rfl rfl (le_refl _)

/-! ## The decisions -/

theorem writes_drawn (ho : o.id = eng.newId r.state.drawn) (horders : q.state.orders = r.state.orders.set o.id o)
    (hdrawn : q.state.drawn = r.state.drawn + 1) : Writes eng r o q := by
  refine ⟨fun id => ?_, by rw [hdrawn]; exact Nat.le_succ _, ⟨r.state.drawn, by rw [hdrawn]; exact Nat.lt_succ_self _, ho.symm⟩⟩
  rw [horders, Dict.get?_set]

/-- An order with the next id is written, refused. -/
theorem Between.refused (h : Between eng bars r) (hid : Function.Injective eng.newId) (ho : o.id = eng.newId r.state.drawn)
    (hdone : o.isComplete = true) (hlog : q.log = r.log) (horders : q.state.orders = r.state.orders.set o.id o)
    (hdrawn : q.state.drawn = r.state.drawn + 1) (hpending : q.state.pending = r.state.pending) : Between eng bars q := by
  obtain ⟨hnone, hfresh⟩ := Fates.fresh h hid ho
  have hwrites := writes_drawn ho horders hdrawn
  unfold Between
  rw [hpending]
  refine Fates.moved h hwrites (by rw [hlog]) ?_ (fun _ _ => Iff.rfl) ?_ h.apart ?_ (.inl hdone)
  · intro x hx
    rw [hnone] at hx
    cases hx
  · exact fun x hx hxid => absurd (hxid ▸ List.mem_map_of_mem hx) hfresh
  · exact fun hmem => absurd (List.mem_map_of_mem hmem) hfresh

/-- An order with the next id is written, and joins the queue. -/
theorem Between.queued (h : Between eng bars r) (hid : Function.Injective eng.newId) (ho : o.id = eng.newId r.state.drawn)
    (hopen : 0 < o.remainingQty) (hlog : q.log = r.log) (horders : q.state.orders = r.state.orders.set o.id o)
    (hdrawn : q.state.drawn = r.state.drawn + 1) (hpending : q.state.pending = r.state.pending ++ [o]) : Between eng bars q := by
  obtain ⟨hnone, hfresh⟩ := Fates.fresh h hid ho
  have hwrites := writes_drawn ho horders hdrawn
  unfold Between
  rw [hpending]
  refine Fates.moved h hwrites (by rw [hlog]) ?_ (fun x hx => ?_) (fun x hx hxid => ?_) ?_ (fun _ => hopen) (.inr (by simp))
  · intro x hx
    rw [hnone] at hx
    cases hx
  · have hxo : x ≠ o := fun heq => hx (heq ▸ rfl)
    simp [hxo]
  · rcases List.mem_append.1 hx with hx | hx
    · exact absurd (hxid ▸ List.mem_map_of_mem hx) hfresh
    · exact List.mem_singleton.1 hx
  · rw [List.map_append, List.nodup_append]
    refine ⟨h.apart, List.nodup_singleton _, fun a ha b hb => ?_⟩
    rw [List.map_singleton, List.mem_singleton] at hb
    exact fun heq => hfresh (hb ▸ heq ▸ ha)

theorem queueOrder_between (hid : Function.Injective eng.newId) (signal : Signal) (bar : Bar) (side : Side) (qty : ℚ)
    (purpose : Purpose) :
    Triple (Between eng bars) (queueOrder eng signal bar side qty purpose) (fun _ => Between eng bars) (fun _ _ => True) := by
  unfold queueOrder
  refine triple_ite (fun _ => triple_pure _ fun _ h => h) fun hqty => ?_
  refine triple_observe fun r hr => ?_
  refine triple_bind (R := fun o q => q = r ∧ o = signalOrder (eng.newId r.state.drawn) signal bar side qty purpose)
    (triple_fromExcept _ (fun o ho q hq => ⟨hq, (Order.postInit_ok ho).1⟩) fun _ _ _ _ => trivial) fun o => ?_
  refine triple_at fun q hq => ?_
  obtain ⟨rfl, ho⟩ := hq
  obtain ⟨size, hsize, hpositive, -⟩ := validate_order eng.limits eng.rules o q.state.portfolio q.state.pending q.state.rules
  generalize validate eng.limits eng.rules o q.state.portfolio q.state.pending q.state.rules = v at hsize ⊢
  obtain ⟨d, o', rules⟩ := v
  dsimp only at hsize ⊢
  have hnew : o'.id = eng.newId q.state.drawn := by
    rw [hsize, ho]
    rfl
  refine triple_bind (R := fun _ u => u = { q with state := { q.state with drawn := q.state.drawn + 1, rules := rules } })
    (triple_update _ fun u hu => hu ▸ rfl) fun _ => ?_
  refine triple_ite (fun _ => triple_update _ fun u hu => ?_) fun _ => triple_update _ fun u hu => ?_
  · subst hu
    exact hr.refused hid (o := { o' with status := .rejectedRisk, rejectReason := some (eng.text d.reason), rejectedBy := some d.rule })
      hnew rfl rfl rfl rfl rfl
  · subst hu
    have hopen : 0 < o'.remainingQty := by
      rw [hsize, ho]
      show 0 < size - 0
      rw [sub_zero]
      exact hpositive (ho ▸ not_le.1 hqty)
    have happroved : (approvedOrder d o' bar).id = o'.id ∧ 0 < (approvedOrder d o' bar).remainingQty := by
      unfold approvedOrder
      split
      · exact ⟨rfl, hopen⟩
      · rename_i x _
        refine ⟨rfl, ?_⟩
        rw [hsize, ho]
        show 0 < x.1 - 0
        rw [sub_zero]
        exact x.2
    exact hr.queued hid (happroved.1.trans hnew) happroved.2 rfl rfl rfl rfl

theorem enter_between (hid : Function.Injective eng.newId) (signal : Signal) (bar : Bar) (side : Side) (hr : Between eng bars r) :
    Triple (fun q => q = r) (enter eng r.state signal bar side) (fun _ => Between eng bars) (fun _ _ => True) := by
  refine triple_enter (fun _ => trivial) (fun qty => triple_from (queueOrder_between hid signal bar side qty .entry) hr)
    fun message => triple_update _ fun q hq => ?_
  subst hq
  exact hr.refused hid (o := { signalOrder (eng.newId r.state.drawn) signal bar side 1 .entry with
    orderType := .market, limitPrice := none, status := .rejectedRisk, rejectReason := some (eng.text message),
    rejectedBy := some "sizing" }) rfl rfl rfl rfl rfl rfl

theorem handleSignal_between (hid : Function.Injective eng.newId) (signal : Signal) (bar : Bar) :
    Triple (Between eng bars) (handleSignal eng bars signal bar) (fun _ => Between eng bars) (fun _ _ => True) := by
  refine triple_at fun r hr => ?_
  refine triple_handleSignal hr (fun _ => trivial) (fun _ side => enter_between hid _ bar side hr) fun _ => ?_
  exact triple_from (queueOrder_between hid signal bar _ _ .exit) hr

theorem signalPhase_between (hid : Function.Injective eng.newId) (x : String × ℕ × Bar) :
    Triple (Between eng bars) (signalPhase eng bars x) (fun _ => Between eng bars) (fun _ _ => True) := by
  refine triple_signalPhase (fun _ _ _ => trivial) (fun q _ h => ?_) (fun q _ h => ?_) x fun signal =>
    handleSignal_between hid signal x.2.2
  · exact Between.quiet h rfl rfl (le_refl _) rfl
  · exact Between.quiet h rfl rfl (le_refl _) rfl

/-! ## The run -/

theorem openInstant_between (ts : ℤ) :
    Triple (Between eng bars) (update (openInstant eng ts)) (fun _ => Between eng bars) (fun _ _ => True) := by
  refine triple_update _ fun r hr => ?_
  have hopened : (openInstant eng ts r.state).orders = r.state.orders ∧ (openInstant eng ts r.state).drawn = r.state.drawn ∧
      (openInstant eng ts r.state).pending = r.state.pending := by
    unfold openInstant
    dsimp only
    split <;> exact ⟨rfl, rfl, rfl⟩
  exact Between.quiet hr rfl hopened.1 hopened.2.1.ge hopened.2.2

theorem barPhases_between (hid : Function.Injective eng.newId) (printed : List (String × ℕ × Bar)) :
    Triple (Between eng bars) (printed.forM (barPhase eng bars)) (fun _ => Between eng bars) (fun _ _ => True) :=
  triple_forM _ fun x _ => barPhase_between hid x

theorem stepAt_between (hid : Function.Injective eng.newId) (ts : ℤ) :
    Triple (Between eng bars) (stepAt eng bars ts) (fun _ => Between eng bars) (fun _ _ => True) := by
  unfold stepAt
  refine triple_bind (openInstant_between ts) fun _ => ?_
  refine triple_bind (barPhases_between hid _) fun _ => ?_
  refine triple_bind (R := fun _ => Between eng bars) (triple_update _ fun r hr => ?_) fun _ =>
    triple_forM _ fun x _ => signalPhase_between hid x
  have hmarked := marks_quiet (eng.config.symbols.filterMap (printedAt bars ts)) r
  exact Between.quiet hr rfl hmarked.orders hmarked.drawn (held_closeBook ts _ r.state "").2

theorem between_fresh (eng : BacktestEngine L σ τ) (bars : Dict String (List Bar)) (portfolio : Portfolio) (rules : σ) (strategy : τ) :
    Between eng bars (fresh portfolio rules strategy : Replay σ τ) where
  filed := fun _ _ ho => by cases ho
  rests := fun _ ho => by cases ho
  apart := .nil
  open_ := fun _ ho => by cases ho
  fate := iff_of_true (fun _ he => by cases he) fun _ _ ho => by cases ho

theorem Between.settles (h : Between eng bars r) : Settled r.state ↔ Fitting eng bars r.log := by
  rw [h.fate]
  constructor
  · exact fun hall id x hx => hall x ((Dict.mem_values_iff _ _).2 ⟨id, hx⟩)
  · intro hall x hx
    obtain ⟨id, hget⟩ := (Dict.mem_values_iff _ _).1 hx
    exact hall id x hget

end

section
variable (eng : BacktestEngine L σ τ) (bars : Dict String (List Bar))

/-- The instants gone through, and some bars of the one after. -/
def upTo (l : List ℤ) (ts : ℤ) (printed : List (String × ℕ × Bar)) : Prog (Replay σ τ) Exc PUnit := do
  l.forM (stepAt eng bars)
  update (openInstant eng ts)
  printed.forM (barPhase eng bars)

/-- **The states of a run between two bars**: those between two instants, and those inside an instant, between the bars of two
symbols. -/
def BetweenBars (start r : Replay σ τ) : Prop :=
  (∃ l, l <+: timeline bars ∧ exec (l.forM (stepAt eng bars)) start = (.ok ⟨⟩, r)) ∨
    ∃ l ts printed, l ++ [ts] <+: timeline bars ∧ printed <+: eng.config.symbols.filterMap (printedAt bars ts) ∧
      exec (upTo eng bars l ts printed) start = (.ok ⟨⟩, r)

end

/-- **Every order of the result is closed or pending, between any two bars, exactly when every protective exit that has fallen
due fitted under the volume cap of its bar.** -/
theorem settled_iff (eng : BacktestEngine L σ τ) (bars : Dict String (List Bar)) (portfolio : Portfolio) (rules : σ) (strategy : τ)
    (r : Replay σ τ) (hid : Function.Injective eng.newId) (hr : BetweenBars eng bars (fresh portfolio rules strategy) r) :
    Settled r.state ↔ Fitting eng bars r.log := by
  have hfresh : Between eng bars (fresh portfolio rules strategy : Replay σ τ) := between_fresh eng bars portfolio rules strategy
  have hinstants (l : List ℤ) : Triple (Between eng bars) (l.forM (stepAt eng bars)) (fun _ => Between eng bars) (fun _ _ => True) :=
    triple_forM l fun ts _ => stepAt_between hid ts
  refine Between.settles ?_
  rcases hr with ⟨l, -, hrun⟩ | ⟨l, ts, printed, -, -, hrun⟩
  · have hreached := hinstants l _ hfresh
    rw [hrun] at hreached
    exact hreached
  · have hreached := triple_bind (hinstants l) (fun _ => triple_bind (openInstant_between ts) fun _ => barPhases_between hid printed)
      _ hfresh
    unfold upTo at hrun
    rw [hrun] at hreached
    exact hreached

/-! ## A stop that fits, and one that does not -/

/-- Ten shares bought on the second day, and a stop through which the third day opens. -/
def stoppedDays (volume : ℚ) : Dict String (List Bar) :=
  Dict.empty.set "SPY" [Levels.flatDay 1 100 1000, Levels.flatDay 2 100 1000, Levels.flatDay 3 90 volume]

def stoppedRun (volume : ℚ) : Replay Unit ℕ :=
  (exec (run (Levels.enters .enterLong .hold) (stoppedDays volume)) started).2

/-- A run to its end is between two bars. -/
theorem betweenBars_run {volume : ℚ} (hok : (exec (run (Levels.enters .enterLong .hold) (stoppedDays volume)) started).1.isOk = true) :
    BetweenBars (Levels.enters .enterLong .hold) (stoppedDays volume) started (stoppedRun volume) := by
  refine .inl ⟨timeline (stoppedDays volume), List.prefix_rfl, ?_⟩
  unfold stoppedRun
  change exec (run _ _) started = _
  rcases h : exec (run (Levels.enters .enterLong .hold) (stoppedDays volume)) started with ⟨_ | _, r⟩
  · rw [h] at hok
    cases hok
  · rfl

theorem settled_when_stopped :
    (stoppedRun 1000).state.orders.values.map (fun o => (o.status, o.purpose)) = [(.filled, .entry), (.filled, .stopLoss)] ∧
      Fitting (Levels.enters .enterLong .hold) (stoppedDays 1000) (stoppedRun 1000).log :=
  ⟨by decide +kernel, (settled_iff (Levels.enters .enterLong .hold) (stoppedDays 1000) _ () 0 _ (fun _ _ h => natRepr_inj h)
    (betweenBars_run (by decide +kernel))).1 (by decide +kernel)⟩

/-- **An exit is left in limbo**: of a stop for ten shares a bar of forty fills four, and the other six are neither pending nor
expired; on a bar of no volume the stop stays submitted, unfilled. -/
theorem exit_left_open :
    (BetweenBars (Levels.enters .enterLong .hold) (stoppedDays 40) started (stoppedRun 40) ∧
      (stoppedRun 40).state.orders.values.map (fun o => (o.status, o.purpose, o.remainingQty)) =
        [(.filled, .entry, 0), (.partiallyFilled, .stopLoss, 6)] ∧
      (stoppedRun 40).state.pending = [] ∧ ¬Settled (stoppedRun 40).state) ∧
    BetweenBars (Levels.enters .enterLong .hold) (stoppedDays 0) started (stoppedRun 0) ∧
      (stoppedRun 0).state.orders.values.map (fun o => (o.status, o.purpose, o.remainingQty)) =
        [(.filled, .entry, 0), (.submitted, .stopLoss, 10)] ∧
      (stoppedRun 0).state.pending = [] ∧ ¬Settled (stoppedRun 0).state :=
  ⟨⟨betweenBars_run (by decide +kernel), by decide +kernel, by decide +kernel, by decide +kernel⟩,
    betweenBars_run (by decide +kernel), by decide +kernel, by decide +kernel, by decide +kernel⟩

end OrderFates
end Backtest
end Atp
