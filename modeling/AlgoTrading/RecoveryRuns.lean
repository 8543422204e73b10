import AlgoTrading.Venue
/-!
# RecoveryRuns — the stream and the recovery racing for the same executions

A venue's order that is still executing, our copy of it, and the two ways an execution reaches the copy: its print on
the stream, delivered any number of times and possibly late, and the recovery passes, each of which computes
`missed_updates` from a REST read taken at any earlier moment and applies them one by one.  The two ways key an
execution differently, so nothing in the code ties a print to the recovered tranche that already counted it.
`Careful` is the order of events that keeps them apart: `race_safe` is the invariant every careful run keeps.
-/
namespace Atp
namespace RecoveryRuns

open Raising Runs State TradeUpdates VenueOrder Recovery

/-! ## The venue -/

/-- The status name of an order that is still working is the one its totals decide. -/
def openStatus (v : VenueOrder) : String :=
  if v.prints = [] then "new" else if printsQty v.prints < v.listing.qty then "partially_filled" else "filled"

def Working (v : VenueOrder) : Prop := v.listing.status = openStatus v

/-- The order has ended with part of it unfilled. -/
def Ended (v : VenueOrder) : Prop :=
  Alpaca.status v.listing.status = some .cancelled ∨ Alpaca.status v.listing.status = some .expired

/-- Two states of one order: the record differs in its status at most. -/
def SameOrder (v w : VenueOrder) : Prop :=
  v.listing.qty = w.listing.qty ∧ v.listing.clientOrderId = w.listing.clientOrderId

/-! ## The race -/

/-- The venue's order, our copy, the REST answers in flight, the updates each pass still has to apply, and three
records of the run: the prints some computation has counted, the prints delivered, and whether anything raised. -/
structure Race where
  venue : VenueOrder
  ours : Order
  reads : List VenueOrder := []
  passes : List (List TradeUpdate) := []
  counted : List Print := []
  delivered : List Print := []
  raised : Bool := false

inductive RaceEvent
  | execute
  | close
  | deliver (u : TradeUpdate) (p : Print)
  | read
  | compute
  | apply

def isError : Except Exc Bool → Bool
  | .error _ => true
  | .ok _ => false

/-- An update applied to our copy. -/
def Race.apply (s : Race) (u : TradeUpdate) : Race :=
  { s with ours := (exec (applyTradeUpdate u) s.ours).2
           raised := s.raised || isError (exec (applyTradeUpdate u) s.ours).1 }

/-- The passes with one more, if it has anything to apply. -/
def withPass (us : List TradeUpdate) (passes : List (List TradeUpdate)) : List (List TradeUpdate) :=
  if us = [] then passes else us :: passes

/-- **The moves of the race**, at the granularity of the code's awaits: a REST answer is what the venue held when it was
read, the updates are computed from it at once when it arrives, and applied one by one later. -/
inductive RaceStep : Race → RaceEvent → Race → Prop
  | execute (s : Race) (v : VenueOrder) (p : Print) (hopen : Working s.venue) (hp : v.prints = s.venue.prints ++ [p])
      (hsame : SameOrder v s.venue) (hv : Working v) : RaceStep s .execute { s with venue := v }
  | close (s : Race) (v : VenueOrder) (hopen : Working s.venue) (hpart : printsQty s.venue.prints < s.venue.listing.qty)
      (hp : v.prints = s.venue.prints) (hsame : SameOrder v s.venue) (hv : Ended v) : RaceStep s .close { s with venue := v }
  | deliver (s : Race) (u : TradeUpdate) (f : Fill) (p : Print) (hp : p ∈ s.venue.prints)
      (hid : u.clientOrderId = s.venue.listing.clientOrderId) (hf : u.fill = some f) (hfp : Records f p) :
      RaceStep s (.deliver u p) { s.apply u with delivered := p :: s.delivered }
  | read (s : Race) (hid : s.ours.brokerOrderId ≠ none) : RaceStep s .read { s with reads := s.venue :: s.reads }
  | compute (s : Race) (before after : List VenueOrder) (r : VenueOrder) (theirs : Order) (newId : String) (at' now : ℤ)
      (broker : Option String) (hr : s.reads = before ++ r :: after)
      (hread : Alpaca.fromAlpacaOrder r.payload newId at' = .ok theirs) :
      RaceStep s .compute { s with
        reads := before ++ after
        passes := withPass (missedUpdates s.ours theirs now broker) s.passes
        counted := if s.counted.length < r.prints.length then r.prints else s.counted }
  | apply (s : Race) (before after : List (List TradeUpdate)) (u : TradeUpdate) (us : List TradeUpdate)
      (hpass : s.passes = before ++ (u :: us) :: after) :
      RaceStep s .apply { s.apply u with passes := before ++ withPass us after }

/-- Some fill records the print. -/
def recorded (fills : List Fill) (p : Print) : Bool :=
  fills.any (fun f => f.venueFillId == some (.execution p.execution))

/-- **The order of events that keeps the two paths apart**: a print not yet recorded is delivered only while no
computation has counted it, and a pass computes only when no other has updates left to apply. -/
def Careful (s : Race) : RaceEvent → Prop
  | .deliver _ p => recorded s.ours.fills p = true ∨ p ∉ s.counted
  | .compute => s.passes = []
  | _ => True

/-! ## The prints a copy has recorded -/

/-- The quantity of the prints of a list that the fills record. -/
def recordedQty (fills : List Fill) (l : List Print) : ℚ := printsQty (l.filter (recorded fills))

theorem alreadySeen_eq_recorded {o : Order} {f : Fill} {p : Print} (h : Records f p) :
    alreadySeen o f = recorded o.fills p := by
  unfold alreadySeen recorded
  rw [h.2.2]

@[simp] theorem recorded_append (fills : List Fill) (f : Fill) (p : Print) :
    recorded (fills ++ [f]) p = (recorded fills p || f.venueFillId == some (.execution p.execution)) := by
  simp [recorded]

theorem recorded_mono {fills : List Fill} {p : Print} (f : Fill) (h : recorded fills p = true) :
    recorded (fills ++ [f]) p = true := by
  simp [h]

theorem recordedQty_append (fills : List Fill) (a b : List Print) :
    recordedQty fills (a ++ b) = recordedQty fills a + recordedQty fills b := by
  simp [recordedQty]

theorem recordedQty_nonneg (fills : List Fill) (l : List Print) : 0 ≤ recordedQty fills l := printsQty_nonneg _

theorem recordedQty_cons (fills : List Fill) (p : Print) (l : List Print) :
    recordedQty fills (p :: l) = (if recorded fills p then p.qty else 0) + recordedQty fills l := by
  unfold recordedQty
  rw [List.filter_cons]
  split <;> simp

theorem recordedQty_le (fills : List Fill) : ∀ l : List Print, recordedQty fills l ≤ printsQty l
  | [] => le_refl 0
  | p :: l => by
    have := recordedQty_le fills l
    have := p.qty_pos
    rw [recordedQty_cons, printsQty_cons]
    split <;> linarith

theorem recordedQty_mono (fills : List Fill) (f : Fill) :
    ∀ l : List Print, recordedQty fills l ≤ recordedQty (fills ++ [f]) l
  | [] => le_refl 0
  | p :: l => by
    have := recordedQty_mono fills f l
    have := p.qty_pos
    rw [recordedQty_cons, recordedQty_cons]
    by_cases h : recorded fills p = true
    · rw [if_pos h, if_pos (recorded_mono f h)]
      linarith
    · rw [if_neg h]
      split <;> linarith

/-- A print not yet recorded still fits among the unrecorded ones. -/
theorem recordedQty_room {fills : List Fill} {p : Print} {l : List Print} (hp : p ∈ l)
    (h : recorded fills p = false) : recordedQty fills l + p.qty ≤ printsQty l := by
  obtain ⟨a, b, rfl⟩ := List.append_of_mem hp
  have ha := recordedQty_le fills a
  have hb := recordedQty_le fills b
  rw [recordedQty_append, recordedQty_cons, printsQty_append, printsQty_cons, h]
  simp only [Bool.false_eq_true, if_false]
  linarith

/-- Recording it makes up for its quantity. -/
theorem recordedQty_book {fills : List Fill} {f : Fill} {p : Print} {l : List Print} (hp : p ∈ l)
    (h : recorded fills p = false) (hfp : Records f p) :
    recordedQty fills l + p.qty ≤ recordedQty (fills ++ [f]) l := by
  obtain ⟨a, b, rfl⟩ := List.append_of_mem hp
  have ha := recordedQty_mono fills f a
  have hb := recordedQty_mono fills f b
  have hnow : recorded (fills ++ [f]) p = true := by simp [hfp.2.2]
  rw [recordedQty_append, recordedQty_append, recordedQty_cons, recordedQty_cons, h, hnow]
  simp only [Bool.false_eq_true, if_false, if_true]
  linarith

theorem recordedQty_congr {fills fills' : List Fill} {l : List Print}
    (h : ∀ p ∈ l, recorded fills' p = recorded fills p) : recordedQty fills' l = recordedQty fills l := by
  unfold recordedQty
  rw [List.filter_congr h]

/-- A fill that is no execution records nothing. -/
theorem recordedQty_tranche {fills : List Fill} {f : Fill} {b : Option String} {q : ℚ}
    (hv : f.venueFillId = some (.recovered b q)) (l : List Print) :
    recordedQty (fills ++ [f]) l = recordedQty fills l :=
  recordedQty_congr fun p _ => by simp [hv]

/-- Among prints with distinct executions, a fill records its own print only. -/
theorem recordedQty_book_le (fills : List Fill) {f : Fill} {p : Print} {l : List Print} (hp : p ∈ l)
    (hnd : (l.map Print.execution).Nodup) (hfp : Records f p) :
    recordedQty (fills ++ [f]) l ≤ recordedQty fills l + p.qty := by
  obtain ⟨a, b, rfl⟩ := List.append_of_mem hp
  rw [List.map_append, List.map_cons] at hnd
  have hother : ∀ q ∈ a ++ b, recorded (fills ++ [f]) q = recorded fills q := by
    intro q hq
    have hne : p.execution ≠ q.execution := by
      intro he
      have hmem : p.execution ∉ a.map Print.execution ++ b.map Print.execution := (List.nodup_middle.1 hnd).notMem
      rw [← List.map_append, he] at hmem
      exact hmem (List.mem_map_of_mem hq)
    simp [hfp.2.2, hne]
  have ha := recordedQty_congr (fun q hq => hother q (List.mem_append_left b hq))
  have hb := recordedQty_congr (fun q hq => hother q (List.mem_append_right a hq))
  have := p.qty_pos
  rw [recordedQty_append, recordedQty_append, recordedQty_cons, recordedQty_cons, ha, hb]
  split <;> split <;> linarith

theorem recordedQty_all {fills : List Fill} {l : List Print} (h : ∀ p ∈ l, recorded fills p = true) :
    recordedQty fills l = printsQty l := by
  unfold recordedQty
  rw [List.filter_eq_self.2 h]

/-! ## What a read says -/

theorem working_not_ended {v : VenueOrder} (h : Working v) : ¬ Ended v := by
  unfold Ended
  rw [h]
  unfold openStatus
  split
  · decide
  · split <;> decide

/-- A read of a working order names a status only before the first print. -/
theorem working_read {v : VenueOrder} (hv : Working v) {newId : String} {now : ℤ} {theirs : Order}
    (h : Alpaca.fromAlpacaOrder v.payload newId now = .ok theirs) :
    (v.prints = [] ∧ theirs.status = .submitted) ∨ fillOwned theirs.status = true := by
  have hfilled := (read_totals h).2.1
  obtain ⟨mapped, hmapped, hst⟩ := (Alpaca.fromAlpacaOrder_view h).named
  have hname : Alpaca.status (openStatus v) = some mapped := by rw [← hv]; exact hmapped
  unfold openStatus at hname
  by_cases hnil : v.prints = []
  · rw [if_pos hnil] at hname
    obtain rfl : OrderStatus.submitted = mapped := Option.some.inj hname
    exact .inl ⟨hnil, hst⟩
  · rw [if_neg hnil] at hname
    have hpos : 0 < theirs.filledQty := by
      rw [hfilled]
      exact lt_of_le_of_ne (printsQty_nonneg _) (fun h => hnil ((printsQty_eq_zero_iff _).1 h.symm))
    have hown : mapped = .filled ∨ mapped = .partiallyFilled := by
      split at hname
      · exact .inr (Option.some.inj hname).symm
      · exact .inl (Option.some.inj hname).symm
    rw [if_pos hown, Alpaca.totalsStatus, if_pos hpos] at hst
    rw [hst]
    right
    split <;> rfl

theorem ended_read {v : VenueOrder} (hv : Ended v) {newId : String} {now : ℤ} {theirs : Order}
    (h : Alpaca.fromAlpacaOrder v.payload newId now = .ok theirs) :
    theirs.status = .cancelled ∨ theirs.status = .expired := by
  obtain ⟨mapped, hmapped, hst⟩ := (Alpaca.fromAlpacaOrder_view h).named
  have hname : Alpaca.status v.listing.status = some mapped := hmapped
  rcases hv with hv | hv <;> rw [hv] at hname <;> obtain rfl := Option.some.inj hname
  · exact .inl hst
  · exact .inr hst

/-! ## The invariant -/

/-- What the updates of the one running pass may still do to our copy. -/
inductive PassOk (s : Race) : List TradeUpdate → Prop
  | status (u : TradeUpdate) (t : OrderStatus) (hid : u.clientOrderId = s.ours.clientOrderId) (hf : u.fill = none)
      (ht : u.status = some t)
      (hend : (t = .submitted ∧ s.ours.status.isTerminal = true) ∨
        ((t = .cancelled ∨ t = .expired) ∧ Ended s.venue ∧ s.ours.filledQty = printsQty s.venue.prints)) :
      PassOk s [u]
  | fill (u : TradeUpdate) (f : Fill) (b : Option String) (q : ℚ) (us : List TradeUpdate)
      (hid : u.clientOrderId = s.ours.clientOrderId) (hf : u.fill = some f) (hpos : 0 < f.qty)
      (hv : f.venueFillId = some (.recovered b q)) (hq : q ≤ s.ours.filledQty + f.qty)
      (hseen : alreadySeen s.ours f = false)
      (hus : us = [] ∨ ∃ w t, us = [w] ∧ w.clientOrderId = s.ours.clientOrderId ∧ w.fill = none ∧ w.status = some t ∧
        (t = .cancelled ∨ t = .expired) ∧ Ended s.venue ∧ s.counted = s.venue.prints ∧
        s.ours.filledQty + f.qty = printsQty s.venue.prints) : PassOk s (u :: us)

/-- The quantity waiting in the passes. -/
def waitingQty (passes : List (List TradeUpdate)) : ℚ := fillsQty (passes.flatten.filterMap TradeUpdate.fill)

/-- What holds of our copy on its own: its ledger, and that it is closed early only at the venue's end. -/
structure CopyOk (v : VenueOrder) (o : Order) : Prop where
  qty : o.qty = v.listing.qty
  id : o.clientOrderId = v.listing.clientOrderId
  booked : o.Booked
  full : o.status = .filled ↔ o.filledQty = o.qty
  closed : o.status.isTerminal = true → o.status ≠ .filled → Ended v ∧ o.filledQty = printsQty v.prints
  acked : o.brokerOrderId ≠ none ∨ o.fills ≠ [] → preAck o.status = false
  started : o.status = .partiallyFilled → 0 < o.filledQty
  recovered : ∀ f ∈ o.fills, ∀ b q, f.venueFillId = some (.recovered b q) → q ≤ o.filledQty

@[simp] theorem waitingQty_nil : waitingQty [] = 0 := rfl

theorem waitingQty_status {u : TradeUpdate} (h : u.fill = none) : waitingQty [[u]] = 0 := by
  simp [waitingQty, h]

theorem waitingQty_tranche {u : TradeUpdate} {us : List TradeUpdate} {f : Fill} (hf : u.fill = some f)
    (hus : ∀ w ∈ us, w.fill = none) : waitingQty [u :: us] = f.qty := by
  have hnil : us.filterMap TradeUpdate.fill = [] := List.filterMap_eq_nil_iff.2 hus
  simp [waitingQty, hf, hnil]

/-- **The invariant of a careful race.**  Our filled quantity, with what waits to be applied, is at most the prints some
computation has counted and, of the others, those recorded one by one. -/
structure Safe (s : Race) : Prop where
  copy : CopyOk s.venue s.ours
  venue : Working s.venue ∨ Ended s.venue
  asked : s.reads ≠ [] ∨ s.passes ≠ [] → s.ours.brokerOrderId ≠ none
  counted : s.counted <+: s.venue.prints
  reads : ∀ r ∈ s.reads, r.prints <+: s.venue.prints ∧ SameOrder r s.venue ∧
    (Working r ∨ (Ended r ∧ Ended s.venue ∧ r.prints = s.venue.prints))
  bound : s.ours.filledQty + waitingQty s.passes ≤
    printsQty s.counted + recordedQty s.ours.fills (s.venue.prints.drop s.counted.length)
  delivered : ∀ p ∈ s.delivered, recorded s.ours.fills p = true
  known : ∀ f ∈ s.ours.fills, ∀ e, f.venueFillId = some (.execution e) → e ∈ s.venue.prints.map Print.execution
  lower : recordedQty s.ours.fills s.venue.prints ≤ s.ours.filledQty
  passes : s.passes = [] ∨ ∃ us, s.passes = [us] ∧ PassOk s us
  clean : s.raised = false

/-- The venue has counted and uncounted prints, and no others. -/
theorem printsQty_counted {s : Race} (h : s.counted <+: s.venue.prints) :
    printsQty s.counted + printsQty (s.venue.prints.drop s.counted.length) = printsQty s.venue.prints := by
  obtain ⟨rest, hrest⟩ := h
  rw [← hrest, List.drop_left, printsQty_append]

theorem Safe.le_prints {s : Race} (h : Safe s) :
    s.ours.filledQty + waitingQty s.passes ≤ printsQty s.venue.prints := by
  have := h.bound
  have := recordedQty_le s.ours.fills (s.venue.prints.drop s.counted.length)
  have := printsQty_counted h.counted
  linarith

theorem tail_no_fill {us : List TradeUpdate} {c : String} {P : TradeUpdate → OrderStatus → Prop}
    (h : us = [] ∨ ∃ w t, us = [w] ∧ w.clientOrderId = c ∧ w.fill = none ∧ P w t) : ∀ w ∈ us, w.fill = none := by
  rcases h with rfl | ⟨w, t, rfl, -, hw, -⟩ <;> simp [*]

theorem waitingQty_nonneg {s : Race} (h : Safe s) : 0 ≤ waitingQty s.passes := by
  rcases h.passes with hp | ⟨us, hp, hok⟩
  · rw [hp]; exact le_refl 0
  · rw [hp]
    cases hok with
    | status u t hid hf ht hend => simp [waitingQty, hf]
    | fill u f b q us hid hf hpos hv hq hseen hus =>
      rw [waitingQty_tranche hf (tail_no_fill hus)]
      exact hpos.le

/-- An order that still misses a print can take it. -/
theorem CopyOk.open_of_room {v : VenueOrder} {o : Order} (h : CopyOk v o) {x : ℚ} (hx : 0 < x)
    (hroom : o.filledQty + x ≤ printsQty v.prints) : o.status.isTerminal = false ∧ x ≤ o.remainingQty := by
  have hle : o.filledQty + x ≤ o.qty := by
    rw [h.qty]
    exact hroom.trans v.bounded
  refine ⟨?_, by unfold Order.remainingQty; linarith⟩
  cases ht : o.status.isTerminal with
  | false => rfl
  | true =>
    by_cases hfull : o.status = .filled
    · have := h.full.1 hfull
      linarith
    · have := (h.closed ht hfull).2
      linarith

theorem adopted_brokerOrderId (o : Order) (u : TradeUpdate) : (adopted o u).brokerOrderId ≠ none := by
  unfold adopted
  split
  · simp
  · assumption

/-- Recording the venue's id changes nothing else. -/
theorem copyOk_adopted {v : VenueOrder} {o : Order} (h : CopyOk v o) (u : TradeUpdate)
    (hack : o.brokerOrderId ≠ none ∨ o.fills ≠ []) : CopyOk v (adopted o u) := by
  refine ⟨by simpa using h.qty, by simpa using h.id, booked_adopted u h.booked, by simpa using h.full,
    by simpa using h.closed, fun _ => by simpa using h.acked hack, by simpa using h.started,
    by simpa using h.recovered⟩

/-- A tranche that fits is booked, and the copy is as sound as before. -/
theorem copyOk_booked {v : VenueOrder} {o : Order} (h : CopyOk v o) (u : TradeUpdate) {f : Fill} (hpos : 0 < f.qty)
    (hroom : o.filledQty + f.qty ≤ printsQty v.prints)
    (hrec : ∀ b q, f.venueFillId = some (.recovered b q) → q ≤ o.filledQty + f.qty) :
    CopyOk v ((walked (adopted o u) u.at).accumulate f) := by
  have hle := (h.open_of_room hpos hroom).2
  have hst := Order.accumulate_status (walked (adopted o u) u.at) f
  rw [walked_filledQty, adopted_filledQty, walked_qty, adopted_qty] at hst
  refine ⟨by simpa using h.qty, by simpa using h.id, ?_, ?_, ?_, ?_, ?_, ?_⟩
  · refine Order.accumulate_booked (booked_walked _ (booked_adopted u h.booked)) hpos ?_
    simpa [Order.remainingQty] using hle
  · rw [hst]
    by_cases hfull : o.filledQty + f.qty = o.qty <;> simp [hfull]
  · rw [hst]
    split
    · simp
    · exact fun ht => absurd ht (by decide)
  · rw [hst]
    intro _
    split <;> rfl
  · have := h.booked.filledQty_nonneg
    intro _
    rw [Order.accumulate_filledQty, walked_filledQty, adopted_filledQty]
    linarith
  · intro g hg b q hv
    rw [Order.accumulate_filledQty, walked_filledQty, adopted_filledQty]
    rw [Order.accumulate_fills, walked_fills, adopted_fills] at hg
    rcases List.mem_append.1 hg with hg | hg
    · have := h.recovered g hg b q hv
      linarith
    · rw [List.mem_singleton.1 hg] at hv
      exact hrec b q hv

/-- The venue's end is taken over once every print is booked. -/
theorem copyOk_ended {v : VenueOrder} {o : Order} (h : CopyOk v o) (u : TradeUpdate) {t : OrderStatus}
    (hopen : o.status.isTerminal = false) (ht : t = .cancelled ∨ t = .expired) (hend : Ended v)
    (hall : o.filledQty = printsQty v.prints) (a : Option ℤ) (r b : Option String) :
    CopyOk v (moved (adopted o u) t a r b) := by
  have hnot : o.filledQty ≠ o.qty := fun hq => by
    rw [h.full.2 hq] at hopen
    cases hopen
  refine ⟨by simpa using h.qty, by simpa using h.id, ?_, ?_, ?_, ?_, ?_, by simpa using h.recovered⟩
  · exact booked_congr (by simp) (by simp) (by simp) (by simp) h.booked
  · rcases ht with rfl | rfl <;> simpa using hnot
  · exact fun _ _ => ⟨hend, by simpa using hall⟩
  · intro _
    rcases ht with rfl | rfl <;> rfl
  · intro hpart
    rcases ht with rfl | rfl <;> cases hpart

/-- A change to our copy that keeps its totals, its fills and its status keeps what a pass may do. -/
theorem passOk_congr {s s' : Race} {us : List TradeUpdate} (h : PassOk s us)
    (hid : s'.ours.clientOrderId = s.ours.clientOrderId) (hst : s'.ours.status = s.ours.status)
    (hfills : s'.ours.fills = s.ours.fills) (hq : s'.ours.filledQty = s.ours.filledQty)
    (hvenue : s'.venue = s.venue) (hcounted : s'.counted = s.counted) : PassOk s' us := by
  cases h with
  | status u t hcid hf ht hend =>
    refine .status u t (hcid.trans hid.symm) hf ht ?_
    rw [hst, hvenue, hq]
    exact hend
  | fill u f b q us hcid hf hpos hv hle hseen hus =>
    refine .fill u f b q us (hcid.trans hid.symm) hf hpos hv (hq ▸ hle) ?_ ?_
    · rw [alreadySeen_congr hfills]; exact hseen
    · rw [hid, hvenue, hcounted, hq]; exact hus

/-- While the order still works, no pass waits for its end, and the venue may change under it. -/
theorem passOk_venue {s : Race} {us : List TradeUpdate} (h : PassOk s us) (hopen : Working s.venue) (v : VenueOrder) :
    PassOk { s with venue := v } us := by
  have hnot := working_not_ended hopen
  cases h with
  | status u t hcid hf ht hend =>
    refine .status u t hcid hf ht (hend.imp_right ?_)
    exact fun hend => absurd hend.2.1 hnot
  | fill u f b q us hcid hf hpos hvid hle hseen htail =>
    refine .fill u f b q us hcid hf hpos hvid hle hseen (htail.imp_right ?_)
    rintro ⟨w, t, -, -, -, -, -, hend, -⟩
    exact absurd hend hnot

/-! ## One lemma for each move -/

theorem safe_execute {s : Race} (h : Safe s) {v : VenueOrder} {p : Print} (hopen : Working s.venue)
    (hp : v.prints = s.venue.prints ++ [p]) (hsame : SameOrder v s.venue) (hv : Working v) :
    Safe { s with venue := v } := by
  have hnot := working_not_ended hopen
  obtain ⟨rest, hrest⟩ := h.counted
  have hgrow : s.venue.prints <+: v.prints := hp ▸ List.prefix_append _ _
  refine { h with
    copy := { h.copy with
      qty := h.copy.qty.trans hsame.1.symm
      id := h.copy.id.trans hsame.2.symm
      closed := fun ht hf => absurd (h.copy.closed ht hf).1 hnot }
    venue := .inl hv
    counted := h.counted.trans hgrow
    reads := ?_, bound := ?_, known := ?_, lower := ?_, passes := ?_ }
  · intro r hr
    obtain ⟨hpre, hrs, hstat⟩ := h.reads r hr
    refine ⟨hpre.trans hgrow, ⟨hrs.1.trans hsame.1.symm, hrs.2.trans hsame.2.symm⟩, .inl ?_⟩
    exact hstat.resolve_right (fun hend => hnot hend.2.1)
  · have hdrop : v.prints.drop s.counted.length = s.venue.prints.drop s.counted.length ++ [p] := by
      rw [hp, ← hrest, List.append_assoc, List.drop_left, List.drop_left]
    have hb := h.bound
    have hnn := recordedQty_nonneg s.ours.fills [p]
    show s.ours.filledQty + waitingQty s.passes ≤
      printsQty s.counted + recordedQty s.ours.fills (v.prints.drop s.counted.length)
    rw [hdrop, recordedQty_append]
    linarith
  · intro f hf e he
    obtain ⟨q, hq, rfl⟩ := List.mem_map.1 (h.known f hf e he)
    exact List.mem_map_of_mem (hgrow.subset hq)
  · have hfresh : recorded s.ours.fills p = false := by
      unfold recorded
      rw [List.any_eq_false]
      intro f hf hfp
      have hin := h.known f hf p.execution (by simpa using hfp)
      have hnd := v.distinct
      rw [hp, List.map_append, List.nodup_append] at hnd
      exact hnd.2.2 _ hin _ (by simp) rfl
    have hl := h.lower
    show recordedQty s.ours.fills v.prints ≤ s.ours.filledQty
    rw [hp, recordedQty_append, recordedQty_cons, hfresh]
    simpa [recordedQty] using hl
  · exact h.passes.imp_right (fun ⟨us, hus, hok⟩ => ⟨us, hus, passOk_venue hok hopen v⟩)

theorem safe_close {s : Race} (h : Safe s) {v : VenueOrder} (hopen : Working s.venue)
    (hp : v.prints = s.venue.prints) (hsame : SameOrder v s.venue) (hv : Ended v) : Safe { s with venue := v } := by
  have hnot := working_not_ended hopen
  refine { h with
    copy := { h.copy with
      qty := h.copy.qty.trans hsame.1.symm
      id := h.copy.id.trans hsame.2.symm
      closed := fun ht hf => absurd (h.copy.closed ht hf).1 hnot }
    venue := .inr hv
    counted := hp ▸ h.counted
    reads := ?_
    bound := by
      show s.ours.filledQty + waitingQty s.passes ≤
        printsQty s.counted + recordedQty s.ours.fills (v.prints.drop s.counted.length)
      rw [hp]
      exact h.bound
    known := fun f hf e he => hp ▸ h.known f hf e he
    lower := by
      show recordedQty s.ours.fills v.prints ≤ s.ours.filledQty
      rw [hp]
      exact h.lower
    passes := ?_ }
  · intro r hr
    obtain ⟨hpre, hrs, hstat⟩ := h.reads r hr
    refine ⟨hp ▸ hpre, ⟨hrs.1.trans hsame.1.symm, hrs.2.trans hsame.2.symm⟩, .inl ?_⟩
    exact hstat.resolve_right (fun hend => hnot hend.2.1)
  · exact h.passes.imp_right (fun ⟨us, hus, hok⟩ => ⟨us, hus, passOk_venue hok hopen v⟩)

theorem safe_read {s : Race} (h : Safe s) (hid : s.ours.brokerOrderId ≠ none) :
    Safe { s with reads := s.venue :: s.reads } := by
  refine { h with asked := fun _ => hid, reads := ?_, passes := ?_ }
  · intro r hr
    rcases List.mem_cons.1 hr with rfl | hr
    · exact ⟨List.prefix_refl _, ⟨rfl, rfl⟩, h.venue.imp_right (fun he => ⟨he, he, rfl⟩)⟩
    · exact h.reads r hr
  · exact h.passes.imp_right (fun ⟨us, hus, hok⟩ => ⟨us, hus, passOk_congr hok rfl rfl rfl rfl rfl rfl⟩)

/-- An uncounted print booked under a running pass leaves the pass its room. -/
theorem passOk_booked {s s' : Race} {us : List TradeUpdate} (hok : PassOk s us) {f : Fill} {p : Print}
    (hfp : Records f p) (hpos : 0 < f.qty) (hopen : s.ours.status.isTerminal = false)
    (hroom : s.ours.filledQty + f.qty ≤ printsQty s.venue.prints) (hin : p ∈ s.venue.prints) (hnew : p ∉ s.counted)
    (hid : s'.ours.clientOrderId = s.ours.clientOrderId) (hfills : s'.ours.fills = s.ours.fills ++ [f])
    (hq : s'.ours.filledQty = s.ours.filledQty + f.qty) : PassOk s' us := by
  cases hok with
  | status u t hcid hf ht hend =>
    rcases hend with ⟨-, hterm⟩ | ⟨-, -, hall⟩
    · rw [hopen] at hterm
      cases hterm
    · linarith
  | fill u g b q us hcid hf hgpos hv hle hseen hus =>
    refine .fill u g b q us (hcid.trans hid.symm) hf hgpos hv (by rw [hq]; linarith) ?_ ?_
    · have hnot : f.venueFillId ≠ g.venueFillId := by
        rw [hfp.2.2, hv]
        simp
      unfold alreadySeen at hseen ⊢
      rw [hv] at hseen hnot ⊢
      dsimp only at hseen ⊢
      rw [hfills, List.any_append, hseen]
      simpa using hnot
    · refine .inl (hus.resolve_right ?_)
      rintro ⟨w, t, -, -, -, -, -, -, hall, -⟩
      exact hnew (hall ▸ hin)

/-- A print's delivery: the first one books it, any other is discarded, and none raises. -/
theorem safe_deliver {s : Race} (h : Safe s) {u : TradeUpdate} {f : Fill} {p : Print} (hp : p ∈ s.venue.prints)
    (hid : u.clientOrderId = s.venue.listing.clientOrderId) (hf : u.fill = some f) (hfp : Records f p)
    (hcareful : Careful s (.deliver u p)) : Safe { s.apply u with delivered := p :: s.delivered } := by
  have hcid : u.clientOrderId = s.ours.clientOrderId := hid.trans h.copy.id.symm
  have hseen := alreadySeen_eq_recorded (o := s.ours) hfp
  unfold Race.apply
  cases hrec : recorded s.ours.fills p with
  | true =>
    have hfills : s.ours.fills ≠ [] := by
      intro hnil
      rw [hnil] at hrec
      cases hrec
    rw [exec_duplicate hcid hf (hseen.trans hrec)]
    refine { h with
      copy := copyOk_adopted h.copy u (.inr hfills)
      asked := fun _ => adopted_brokerOrderId _ _
      bound := by simpa using h.bound
      known := by simpa using h.known
      lower := by simpa using h.lower
      delivered := ?_
      passes := h.passes.imp_right (fun ⟨us, hus, hok⟩ =>
        ⟨us, hus, passOk_congr hok (by simp) (by simp) (by simp) (by simp) rfl rfl⟩)
      clean := by simp [isError, h.clean] }
    intro p' hp'
    rw [adopted_fills]
    rcases List.mem_cons.1 hp' with rfl | hp'
    · exact hrec
    · exact h.delivered p' hp'
  | false =>
    -- the print is none of the counted ones, so there is room for it beside everything counted or waiting
    have hnew : p ∉ s.counted := hcareful.resolve_left (by rw [hrec]; simp)
    have hin : p ∈ s.venue.prints.drop s.counted.length := by
      obtain ⟨rest, hrest⟩ := h.counted
      rw [← hrest] at hp ⊢
      rw [List.drop_left]
      exact (List.mem_append.1 hp).resolve_left hnew
    have hqty : f.qty = p.qty := hfp.1
    have hpos : 0 < f.qty := hqty ▸ p.qty_pos
    have hwait := waitingQty_nonneg h
    have hroom : s.ours.filledQty + waitingQty s.passes + f.qty ≤ printsQty s.venue.prints := by
      have := recordedQty_room hin hrec
      have := printsQty_counted h.counted
      have := h.bound
      linarith
    obtain ⟨hopen, hle⟩ := h.copy.open_of_room hpos (by linarith)
    rw [exec_booked hcid hf (hseen.trans hrec) hopen hpos hle]
    have hnot : ∀ b q, f.venueFillId ≠ some (.recovered b q) := by
      intro b q hv
      rw [hfp.2.2] at hv
      cases hv
    refine { h with
      copy := copyOk_booked h.copy u hpos (by linarith) (fun b q hv => absurd hv (hnot b q))
      asked := ?_, bound := ?_, delivered := ?_, known := ?_, lower := ?_, passes := ?_
      clean := by simp [isError, h.clean] }
    · exact fun _ => by simpa using adopted_brokerOrderId _ _
    · have := recordedQty_book hin hrec hfp
      have := h.bound
      simp only [Order.accumulate_filledQty, Order.accumulate_fills, walked_filledQty, adopted_filledQty, walked_fills,
        adopted_fills]
      linarith
    · intro p' hp'
      simp only [Order.accumulate_fills, walked_fills, adopted_fills]
      rcases List.mem_cons.1 hp' with rfl | hp'
      · simp [hfp.2.2]
      · exact recorded_mono f (h.delivered p' hp')
    · intro g hg e he
      simp only [Order.accumulate_fills, walked_fills, adopted_fills] at hg
      rcases List.mem_append.1 hg with hg | hg
      · exact h.known g hg e he
      · rw [List.mem_singleton.1 hg, hfp.2.2] at he
        cases he
        exact List.mem_map_of_mem hp
    · have := recordedQty_book_le s.ours.fills hp s.venue.distinct hfp
      have := h.lower
      simp only [Order.accumulate_filledQty, Order.accumulate_fills, walked_filledQty, adopted_filledQty, walked_fills,
        adopted_fills]
      linarith
    · refine h.passes.imp_right (fun ⟨us, hus, hok⟩ => ⟨us, hus, ?_⟩)
      exact passOk_booked hok hfp hpos hopen (by linarith) hp hnew (by simp) (by simp) (by simp)

/-- The prints counted after a read are no fewer than before, and every read is among them. -/
theorem counted_longer {a b l : List Print} (ha : a <+: l) (hb : b <+: l) :
    a <+: (if a.length < b.length then b else a) ∧ b <+: (if a.length < b.length then b else a) ∧
      (if a.length < b.length then b else a) <+: l := by
  by_cases hlt : a.length < b.length
  · rw [if_pos hlt]
    exact ⟨List.prefix_of_prefix_length_le ha hb hlt.le, List.prefix_refl b, hb⟩
  · rw [if_neg hlt]
    exact ⟨List.prefix_refl a, List.prefix_of_prefix_length_le hb ha (not_lt.1 hlt), ha⟩

theorem printsQty_prefix_le {a b : List Print} (h : a <+: b) : printsQty a ≤ printsQty b := by
  obtain ⟨c, rfl⟩ := h
  have := printsQty_nonneg c
  rw [printsQty_append]
  linarith

/-- Counting more prints only loosens the bound. -/
theorem bound_counted (fills : List Fill) {a b l : List Print} (hab : a <+: b) (hb : b <+: l) :
    printsQty a + recordedQty fills (l.drop a.length) ≤ printsQty b + recordedQty fills (l.drop b.length) := by
  obtain ⟨c, rfl⟩ := hab
  obtain ⟨d, rfl⟩ := hb
  have := recordedQty_le fills c
  rw [List.drop_left, List.append_assoc, List.drop_left, recordedQty_append, printsQty_append]
  linarith

theorem terminal_of_acked {s : OrderStatus} (hack : preAck s = false) (hs : s ≠ .submitted)
    (hp : s ≠ .partiallyFilled) : s.isTerminal = true := by
  revert hack hs hp
  cases s <;> decide

/-- The status a computation asks for when the totals agree: one that a closed copy discards, or the venue's end. -/
theorem level_status {s : Race} (h : Safe s) {r : VenueOrder} (hr : r ∈ s.reads) {theirs : Order} {newId : String}
    {at' : ℤ} (hread : Alpaca.fromAlpacaOrder r.payload newId at' = .ok theirs)
    (hlevel : s.ours.filledQty = theirs.filledQty) (how : fillOwned theirs.status = false)
    (hne : theirs.status ≠ s.ours.status) :
    (theirs.status = .submitted ∧ s.ours.status.isTerminal = true) ∨
      ((theirs.status = .cancelled ∨ theirs.status = .expired) ∧ Ended s.venue ∧
        s.ours.filledQty = printsQty s.venue.prints) := by
  have hfilled := (read_totals hread).2.1
  obtain ⟨-, -, hwork | ⟨hend, hvend, hall⟩⟩ := h.reads r hr
  · -- a working order names `SUBMITTED` before its first print, so ours holds nothing and is not `SUBMITTED`
    obtain ⟨hnil, hst⟩ := (working_read hwork hread).resolve_right (by rw [how]; simp)
    have hzero : s.ours.filledQty = 0 := by rw [hlevel, hfilled, hnil, printsQty_nil]
    have hack := h.copy.acked (.inl (h.asked (.inl (List.ne_nil_of_mem hr))))
    have hpart : s.ours.status ≠ .partiallyFilled := fun hp => by
      have := h.copy.started hp
      linarith
    exact .inl ⟨hst, terminal_of_acked hack (fun hs => hne (hst.trans hs.symm)) hpart⟩
  · refine .inr ⟨ended_read hend hread, hvend, ?_⟩
    rw [hlevel, hfilled, hall]

/-- A status follows a recovered tranche only at the venue's end, when the tranche completes our copy of it. -/
theorem behind_status {s : Race} (h : Safe s) {r : VenueOrder} (hr : r ∈ s.reads) {theirs : Order} {newId : String}
    {at' : ℤ} (hread : Alpaca.fromAlpacaOrder r.payload newId at' = .ok theirs)
    (hlt : s.ours.filledQty < theirs.filledQty) (how : fillOwned theirs.status = false) :
    (theirs.status = .cancelled ∨ theirs.status = .expired) ∧ Ended s.venue ∧ r.prints = s.venue.prints := by
  have hfilled := (read_totals hread).2.1
  obtain ⟨-, -, hwork | ⟨hend, hvend, hall⟩⟩ := h.reads r hr
  · obtain ⟨hnil, -⟩ := (working_read hwork hread).resolve_right (by rw [how]; simp)
    have := h.copy.booked.filledQty_nonneg
    rw [hfilled, hnil, printsQty_nil] at hlt
    linarith
  · exact ⟨ended_read hend hread, hvend, hall⟩

/-- The tranche recovered up to a total our copy has not reached is a new one to it. -/
theorem unseen_tranche {v : VenueOrder} {o : Order} (h : CopyOk v o) {f : Fill} {b : Option String} {q : ℚ}
    (hv : f.venueFillId = some (.recovered b q)) (hlt : o.filledQty < q) : alreadySeen o f = false := by
  unfold alreadySeen
  rw [hv]
  simp only [List.any_eq_false, beq_iff_eq]
  intro g hg hgv
  have := h.recovered g hg b q hgv
  linarith

/-- **A computation**: the missed tranche is exactly what the read's prints exceed our copy by. -/
theorem safe_compute {s : Race} (h : Safe s) {before after : List VenueOrder} {r : VenueOrder} {theirs : Order}
    {newId : String} {at' now : ℤ} {broker : Option String} (hreads : s.reads = before ++ r :: after)
    (hread : Alpaca.fromAlpacaOrder r.payload newId at' = .ok theirs) (hcareful : s.passes = []) :
    Safe { s with
      reads := before ++ after
      passes := withPass (missedUpdates s.ours theirs now broker) s.passes
      counted := if s.counted.length < r.prints.length then r.prints else s.counted } := by
  have hr : r ∈ s.reads := by rw [hreads]; simp
  have hid := h.asked (.inl (List.ne_nil_of_mem hr))
  obtain ⟨hpre, hsame, hstat⟩ := h.reads r hr
  obtain ⟨hold, hnew, hcounted⟩ := counted_longer h.counted hpre
  have hfilled := (read_totals hread).2.1
  have hreads' : ∀ w ∈ before ++ after, w.prints <+: s.venue.prints ∧ SameOrder w s.venue ∧
      (Working w ∨ (Ended w ∧ Ended s.venue ∧ w.prints = s.venue.prints)) := by
    intro w hw
    refine h.reads w ?_
    rw [hreads]
    rcases List.mem_append.1 hw with hw | hw
    · exact List.mem_append_left _ hw
    · exact List.mem_append_right _ (List.mem_cons_of_mem r hw)
  rw [hcareful]
  generalize hc : (if s.counted.length < r.prints.length then r.prints else s.counted) = c at *
  have hbase : s.ours.filledQty ≤ printsQty c + recordedQty s.ours.fills (s.venue.prints.drop c.length) := by
    have := bound_counted s.ours.fills hold hcounted
    have hb := h.bound
    rw [hcareful, waitingQty_nil] at hb
    linarith
  rcases missedUpdates_cases s.ours theirs now broker with hnone | ⟨hlevel, hst⟩ | ⟨hlt, f, hq, hv, hm⟩
  · rw [hnone]
    exact { h with
      asked := fun _ => hid, counted := hcounted, reads := hreads', passes := .inl rfl
      bound := by simpa [withPass] using hbase }
  · rw [hst]
    rcases statusUpdates_cases s.ours theirs now broker with hnil | ⟨how, hne, hone⟩
    · rw [hnil]
      exact { h with
        asked := fun _ => hid, counted := hcounted, reads := hreads', passes := .inl rfl
        bound := by simpa [withPass] using hbase }
    · rw [hone]
      exact { h with
        asked := fun _ => hid, counted := hcounted, reads := hreads'
        passes := .inr ⟨_, rfl, .status _ theirs.status rfl rfl rfl (level_status h hr hread hlevel how hne)⟩
        bound := by
          show s.ours.filledQty + waitingQty [[statusUpdate s.ours theirs now broker]] ≤ _
          rw [waitingQty_status rfl, add_zero]
          exact hbase }
  · rw [hm]
    have hreach : s.ours.filledQty + f.qty = printsQty r.prints := by rw [hq, ← hfilled]; ring
    have hwaiting : waitingQty [fillUpdate s.ours theirs now broker f :: statusUpdates s.ours theirs now broker] =
        f.qty := by
      refine waitingQty_tranche rfl fun w hw => ?_
      rcases statusUpdates_cases s.ours theirs now broker with hnil | ⟨-, -, hone⟩
      · rw [hnil] at hw
        cases hw
      · rw [hone, List.mem_singleton] at hw
        rw [hw]
        rfl
    exact { h with
      asked := fun _ => hid, counted := hcounted, reads := hreads'
      bound := by
        show s.ours.filledQty + waitingQty [_] ≤ _
        have := printsQty_prefix_le hnew
        have := recordedQty_nonneg s.ours.fills (s.venue.prints.drop c.length)
        rw [hwaiting, hreach]
        linarith
      passes := by
        refine .inr ⟨_, rfl, .fill _ f _ _ _ rfl rfl (hq ▸ sub_pos.2 hlt) hv (by rw [hq]; linarith)
          (unseen_tranche h.copy hv hlt) ?_⟩
        rcases statusUpdates_cases s.ours theirs now broker with hnil | ⟨how, -, hone⟩
        · exact .inl hnil
        · obtain ⟨hend, hvend, hall⟩ := behind_status h hr hread hlt how
          refine .inr ⟨_, theirs.status, hone, rfl, rfl, rfl, hend, hvend, ?_, by rw [← hall]; exact hreach⟩
          exact (hcounted.eq_of_length_le (by rw [← hall]; exact hnew.length_le)) }

/-- **An application**: the running pass books its tranche, or takes over the venue's end. -/
theorem safe_apply {s : Race} (h : Safe s) {before after : List (List TradeUpdate)} {u : TradeUpdate}
    {us : List TradeUpdate} (hpass : s.passes = before ++ (u :: us) :: after) :
    Safe { s.apply u with passes := before ++ withPass us after } := by
  obtain ⟨ws, hws, hok⟩ := h.passes.resolve_left (by rw [hpass]; simp)
  have hid := h.asked (.inr (by rw [hpass]; simp))
  have honly : before = [] ∧ after = [] ∧ ws = u :: us := by
    rw [hpass] at hws
    cases before with
    | nil =>
      rw [List.nil_append, List.cons.injEq] at hws
      exact ⟨rfl, hws.2, hws.1.symm⟩
    | cons b bs => simp at hws
  obtain ⟨rfl, rfl, rfl⟩ := honly
  have hb := h.bound
  rw [hws] at hb
  have hpreack := h.copy.acked (.inl hid)
  unfold Race.apply
  cases hok with
  | status u t hcid hf ht hend =>
    rw [waitingQty_status hf, add_zero] at hb
    have hexec : exec (applyTradeUpdate u) s.ours = exec (transition t (some u.at) u.reason u.broker)
        (adopted s.ours u) := by
      rw [exec_applyTradeUpdate, if_neg (fun h => h hcid), hf]
      dsimp only
      rw [exec_applyStatus, ht]
    rw [hexec, exec_transition, adopted_status]
    by_cases hsame : s.ours.status = t ∨ s.ours.status.isTerminal = true
    · have hignored : (if s.ours.status = t then (Except.ok false, adopted s.ours u)
          else if s.ours.status.isTerminal = true then (Except.ok false, adopted s.ours u)
          else if canTransition s.ours.status t = true then
            (.ok true, moved (adopted s.ours u) t (some u.at) u.reason u.broker)
          else (.error (invalidTransition s.ours.status t), adopted s.ours u)) =
          ((.ok false, adopted s.ours u) : Except Exc Bool × Order) := by
        rcases hsame with hs | hs
        · rw [if_pos hs]
        · by_cases hs' : s.ours.status = t
          · rw [if_pos hs']
          · rw [if_neg hs', if_pos hs]
      rw [hignored]
      exact { h with
        copy := copyOk_adopted h.copy u (.inl hid)
        asked := fun _ => adopted_brokerOrderId _ _
        bound := by simpa [withPass] using hb
        delivered := by simpa using h.delivered
        known := by simpa using h.known
        lower := by simpa using h.lower
        passes := .inl rfl
        clean := by simp [isError, h.clean] }
    · obtain ⟨hne, hopen⟩ := not_or.1 hsame
      have hopen' : s.ours.status.isTerminal = false := by simpa using hopen
      obtain ⟨htend, hvend, hall⟩ := hend.resolve_left (fun hbad => hopen hbad.2)
      have hcan : canTransition s.ours.status t = true := by
        revert hpreack hopen'
        rcases htend with rfl | rfl <;> cases s.ours.status <;> decide
      rw [if_neg hne, if_neg hopen, if_pos hcan]
      exact { h with
        copy := copyOk_ended h.copy u hopen' htend hvend hall _ _ _
        asked := fun _ => by simpa using adopted_brokerOrderId _ _
        bound := by simpa [withPass] using hb
        delivered := by simpa using h.delivered
        known := by simpa using h.known
        lower := by simpa using h.lower
        passes := .inl rfl
        clean := by simp [isError, h.clean] }
  | fill u f b q us hcid hf hpos hv hq hseen hus =>
    have htail := tail_no_fill hus
    rw [waitingQty_tranche hf htail] at hb
    have hroom : s.ours.filledQty + f.qty ≤ printsQty s.venue.prints := by
      have := h.le_prints
      rw [hws, waitingQty_tranche hf htail] at this
      exact this
    obtain ⟨hopen, hle⟩ := h.copy.open_of_room hpos hroom
    rw [exec_booked hcid hf hseen hopen hpos hle]
    have hrecs : ∀ b' q', f.venueFillId = some (.recovered b' q') → q' ≤ s.ours.filledQty + f.qty := by
      intro b' q' hv'
      rw [hv] at hv'
      cases hv'
      exact hq
    have hmono := recordedQty_mono s.ours.fills f (s.venue.prints.drop s.counted.length)
    have hwait : waitingQty (withPass us []) = 0 := by
      rcases hus with rfl | ⟨w, t, rfl, -, hw, -⟩
      · rfl
      · exact waitingQty_status hw
    exact { h with
      copy := copyOk_booked h.copy u hpos hroom hrecs
      asked := fun _ => by simpa using adopted_brokerOrderId _ _
      bound := by
        show _ + waitingQty (withPass us []) ≤ _
        rw [hwait]
        simp only [Order.accumulate_filledQty, Order.accumulate_fills, walked_filledQty, adopted_filledQty, walked_fills,
          adopted_fills]
        linarith
      delivered := by
        intro p hp
        simp only [Order.accumulate_fills, walked_fills, adopted_fills]
        exact recorded_mono f (h.delivered p hp)
      known := by
        intro g hg e he
        simp only [Order.accumulate_fills, walked_fills, adopted_fills] at hg
        rcases List.mem_append.1 hg with hg | hg
        · exact h.known g hg e he
        · rw [List.mem_singleton.1 hg, hv] at he
          cases he
      lower := by
        have := h.lower
        simp only [Order.accumulate_filledQty, Order.accumulate_fills, walked_filledQty, adopted_filledQty, walked_fills,
          adopted_fills]
        rw [recordedQty_tranche hv]
        linarith
      passes := by
        rcases hus with rfl | ⟨w, t, rfl, hwid, hw, hwt, htend, hvend, -, hall⟩
        · exact .inl rfl
        · exact .inr ⟨[w], rfl, .status w t (by simpa using hwid) hw hwt (.inr ⟨htend, hvend, by simpa using hall⟩)⟩
      clean := by simp [isError, h.clean] }

/-- **Every careful move keeps the invariant.** -/
theorem safe_step {s s' : Race} {e : RaceEvent} (h : Safe s) (hcareful : Careful s e) (hstep : RaceStep s e s') :
    Safe s' := by
  cases hstep with
  | execute v p hopen hp hsame hv => exact safe_execute h hopen hp hsame hv
  | close v hopen hpart hp hsame hv => exact safe_close h hopen hp hsame hv
  | deliver u f p hp hid hf hfp => exact safe_deliver h hp hid hf hfp hcareful
  | read hid => exact safe_read h hid
  | compute before after r theirs newId at' now broker hr hread => exact safe_compute h hr hread hcareful
  | apply before after u us hpass => exact safe_apply h hpass

/-- **Every careful run keeps the invariant.** -/
theorem race_safe {s s' : Race} {es : List RaceEvent} (h : Safe s) (hrun : Run (guarded RaceStep Careful) s es s') :
    Safe s' :=
  run_guarded Careful Safe (fun _ _ _ hs hc hstep => safe_step hs hc hstep) h hrun

/-- Where a race starts: an order the venue has not filled anything of, and our copy of it just sent. -/
structure RaceStart where
  venue : VenueOrder
  order : FreshOrder
  working : Working venue
  noPrints : venue.prints = []
  sameId : order.order.clientOrderId = venue.listing.clientOrderId
  sameQty : order.order.qty = venue.listing.qty
  acked : order.order.brokerOrderId ≠ none → order.order.status = .submitted

def RaceStart.race (r : RaceStart) : Race := { venue := r.venue, ours := r.order.order }

theorem safe_start (r : RaceStart) : Safe r.race := by
  have hledger := ledger_fresh r.order
  have hnil : recordedQty r.order.order.fills r.venue.prints = 0 := by
    rw [r.noPrints]
    rfl
  refine
    { copy := ⟨r.sameQty, r.sameId, hledger.booked, hledger.complete, ?_, ?_, ?_, ?_⟩
      venue := .inl r.working
      asked := fun h => by rcases h with h | h <;> exact absurd rfl h
      counted := List.nil_prefix
      reads := fun w hw => by cases hw
      bound := ?_
      delivered := fun p hp => by cases hp
      known := ?_
      lower := ?_
      passes := .inl rfl
      clean := rfl }
  · intro ht
    rcases r.order.pending with hp | hp | hp <;> rw [show r.race.ours.status = _ from hp] at ht <;> cases ht
  · rintro (h | h)
    · rw [show r.race.ours.status = _ from r.acked h]
      rfl
    · exact absurd r.order.noFills h
  · intro h
    rcases r.order.pending with hp | hp | hp <;> rw [show r.race.ours.status = _ from hp] at h <;> cases h
  · intro f hf
    rw [show r.race.ours.fills = _ from r.order.noFills] at hf
    cases hf
  · show r.order.order.filledQty + 0 ≤ printsQty [] + recordedQty r.order.order.fills (r.venue.prints.drop 0)
    rw [List.drop_zero, hnil, r.order.unfilled]
    simp
  · intro f hf
    rw [show r.race.ours.fills = _ from r.order.noFills] at hf
    cases hf
  · show recordedQty r.order.order.fills r.venue.prints ≤ r.order.order.filledQty
    rw [hnil, r.order.unfilled]

/-- **In a careful race each execution is booked at most once**: in every state reached our filled quantity is at most
the venue's, nothing has raised, and once every print has been delivered the two are equal. -/
theorem executions_booked_once (r : RaceStart) (es : List RaceEvent) (s : Race)
    (hrun : Run (guarded RaceStep Careful) r.race es s) :
    s.ours.filledQty ≤ printsQty s.venue.prints ∧ s.raised = false ∧
      ((∀ p ∈ s.venue.prints, p ∈ s.delivered) → s.ours.filledQty = printsQty s.venue.prints) := by
  have h := race_safe (safe_start r) hrun
  have hle : s.ours.filledQty ≤ printsQty s.venue.prints := by
    have := h.le_prints
    have := waitingQty_nonneg h
    linarith
  refine ⟨hle, h.clean, fun hall => le_antisymm hle ?_⟩
  have hlower := h.lower
  rwa [recordedQty_all (fun p hp => h.delivered p (hall p hp))] at hlower

/-! ## A print that comes after the recovery that counted it -/

/-- One print of four at two. -/
def four : Print := ⟨"e1", 4, 2, rat_four_pos, rat_two_pos⟩

def tenListing (status : String) : Alpaca.OrderPayload where
  id := "b"
  clientOrderId := "c"
  status := status
  orderType := "market"
  symbol := "SPY"
  side := "buy"
  timeInForce := "day"
  qty := 10

theorem nothing_le_ten : printsQty [] ≤ 10 := by decide +kernel

theorem four_le_ten : printsQty [four] ≤ 10 := by decide +kernel

def unfilledTen : VenueOrder := ⟨tenListing "new", [], List.nodup_nil, nothing_le_ten⟩

def partlyFilledTen : VenueOrder := ⟨tenListing "partially_filled", [four], List.nodup_singleton _, four_le_ten⟩

/-- An acknowledged order for ten at the start of its race. -/
def raceOfTen : RaceStart where
  venue := unfilledTen
  order :=
    { order := { freshTen.order with brokerOrderId := some "b" }
      positive := freshTen.positive
      pending := freshTen.pending
      noFills := rfl
      unfilled := rfl
      noAverage := rfl }
  working := rfl
  noPrints := rfl
  sameId := rfl
  sameQty := rfl
  acked := fun _ => rfl

theorem partlyFilledTen_working : Working partlyFilledTen := by
  unfold Working
  decide +kernel

theorem four_executed : RaceStep raceOfTen.race .execute { raceOfTen.race with venue := partlyFilledTen } :=
  .execute _ partlyFilledTen four rfl rfl ⟨rfl, rfl⟩ partlyFilledTen_working

/-- The print of the four, as pushed on the stream. -/
def fourPrinted : TradeUpdate where
  event := "partial_fill"
  clientOrderId := "c"
  brokerOrderId := "b"
  symbol := "SPY"
  «at» := 0
  fill := some ⟨"o", 0, 4, 2, 0, some (.execution "e1")⟩

theorem executions_booked_once_printed :
    ∃ s, Run (guarded RaceStep Careful) raceOfTen.race [.execute, .deliver fourPrinted four] s ∧
      s.ours.filledQty = printsQty s.venue.prints := by
  have hrun : Run (guarded RaceStep Careful) raceOfTen.race [.execute, .deliver fourPrinted four] _ :=
    .cons ⟨four_executed, trivial⟩
      (.cons ⟨.deliver _ fourPrinted _ four List.mem_cons_self rfl rfl ⟨rfl, rfl, rfl⟩, .inr List.not_mem_nil⟩ (.nil _))
  refine ⟨_, hrun, (executions_booked_once raceOfTen _ _ hrun).2.2 fun p hp => ?_⟩
  rw [List.mem_singleton.1 hp]
  exact List.mem_cons_self

/-- The venue's view after the four. -/
def fourRead : Order where
  symbol := "SPY"
  side := .buy
  qty := 10
  id := "n"
  clientOrderId := "c"
  brokerOrderId := some "b"
  status := .partiallyFilled
  filledQty := 4
  avgFillPrice := some 2
  fills := [⟨"n", 0, 4, 2, 0, none⟩]

/-- The four, recovered. -/
def fourRecovered : TradeUpdate where
  event := "rest_recovery"
  clientOrderId := "c"
  brokerOrderId := "b"
  symbol := "SPY"
  «at» := 0
  fill := some ⟨"o", 0, 4, 2, 0, some (.recovered (some "b") 4)⟩

/-- Executed, read and recovered, and then printed: the four shares are booked as eight. -/
theorem execution_booked_twice :
    ∃ s, Run RaceStep raceOfTen.race [.execute, .read, .compute, .apply, .deliver fourPrinted four] s ∧
      printsQty s.venue.prints = 4 ∧ s.ours.filledQty = 8 := by
  have hread : Alpaca.fromAlpacaOrder partlyFilledTen.payload "n" 0 = .ok fourRead := by decide +kernel
  have hmissed : withPass (missedUpdates raceOfTen.order.order fourRead 0 none) [] = [[fourRecovered]] := by
    decide +kernel
  refine ⟨_, .cons four_executed (.cons (.read _ (by simp [RaceStart.race, raceOfTen]))
    (.cons (.compute _ [] [] partlyFilledTen fourRead "n" 0 0 none rfl hread)
      (.cons (.apply _ [] [] fourRecovered [] hmissed)
        (.cons (.deliver _ fourPrinted _ four List.mem_cons_self rfl rfl ⟨rfl, rfl, rfl⟩) (.nil _))))), ?_, ?_⟩ <;>
    decide +kernel

end RecoveryRuns
end Atp
